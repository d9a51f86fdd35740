import Layering.Proofs.Encoding
import Layering.Proofs.Locations
import Layering.Snapshot.Staged

/-!
# Places of staged files

The copy and the marker of a file lie at its place below the staging directory, under its name with
an ending. The places of different files differ, and so do those of copies and of markers.
-/

namespace Layering

theorem Path.div_eq {p q : Path} (relative : q.isAbsolute = false) :
    p / q = ⟨p.anchor, p.names ++ q.names⟩ := by
  change p.join q = _
  unfold Path.join
  rw [if_neg (by simp [relative])]

/-- The names of a location are those of where it is seen from and of the way. -/
theorem Location.mem_walk {here : Location} {names : List Text} {name : Text}
    (member : name ∈ here.walk names) : name ∈ here ∨ name ∈ names ∧ name ≠ upName := by
  induction names generalizing here with
  | nil => exact .inl member
  | cons first rest ih =>
    have step : here.walk (first :: rest) =
        Location.walk (if first = upName then here.dropLast else here ++ [first]) rest := rfl
    rw [step] at member
    rcases ih member with before | ⟨later, other⟩
    · split at before
      next => exact .inl (List.dropLast_subset _ before)
      next other =>
        rcases List.mem_append.mp before with before | same
        · exact .inl before
        · cases List.mem_singleton.mp same
          exact .inr ⟨List.mem_cons_self, other⟩
    · exact .inr ⟨List.mem_cons_of_mem _ later, other⟩

namespace Site

/-- The working directory is a place that can be written. -/
def Written (s : Site) : Prop := ∀ name ∈ s.workingDirectory, Path.PlainName name ∧ name ≠ upName

variable {s : Site} {p : Path}

theorem Written.straight (written : s.Written) : upName ∉ s.workingDirectory :=
  fun up => (written _ up).2 rfl

theorem mem_location (written : s.Written) (plain : p.Plain) {name : Text}
    (member : name ∈ s.location p) : Path.PlainName name ∧ name ≠ upName := by
  rcases Location.mem_walk member with before | ⟨later, other⟩
  · unfold start at before
    split at before
    · exact nomatch before
    · exact written _ before
  · exact ⟨plain _ later, other⟩

theorem location_join {q : Path} (relative : q.isAbsolute = false) (forward : upName ∉ q.names) :
    s.location (p / q) = s.location p ++ q.names := by
  rw [Path.div_eq relative, location, Location.walk_append, Location.walk_eq_append forward]
  rfl

end Site

namespace Staged

/-- The names of a place, the last one with an ending. -/
def suffixed (ending : Text) (place : List Text) : List Text :=
  place.dropLast ++ [place.getLast?.getD [] ++ ending]

/-- The endings of copies and of markers. -/
inductive Ending : Text → Prop
  | copy : Ending ".bak"
  | marker : Ending ".absent"

variable {ending ending' : Text} {place place' : List Text}

theorem suffixed_append {ending : Text} {front place : List Text} (inner : place ≠ []) :
    suffixed ending (front ++ place) = front ++ suffixed ending place := by
  rw [suffixed, suffixed, List.dropLast_append_of_ne_nil inner,
    List.getLast?_append_of_ne_nil _ inner, List.append_assoc]

theorem length_suffixed (ending : Text) {place : List Text} (inner : place ≠ []) :
    (suffixed ending place).length = place.length := by
  rw [suffixed, List.length_append, List.length_dropLast]
  exact Nat.sub_add_cancel (List.length_pos_iff.mpr inner)

/-- Neither a place nor an ending can be taken for another one. -/
theorem suffixed_inj (ends : Ending ending) (ends' : Ending ending') (inner : place ≠ [])
    (inner' : place' ≠ []) (same : suffixed ending place = suffixed ending' place') :
    ending = ending' ∧ place = place' := by
  obtain ⟨fronts, lasts⟩ := List.append_inj' same rfl
  have lasts := List.singleton_inj.mp lasts
  have one : ending = ending' := by
    have letters := congrArg List.getLast? lasts
    cases ends <;> cases ends' <;> simp at letters ⊢
  subst one
  refine ⟨rfl, ?_⟩
  rw [← List.dropLast_append_getLast? _ (List.getLast?_eq_some_getLast inner),
    ← List.dropLast_append_getLast? _ (List.getLast?_eq_some_getLast inner'), fronts]
  rw [List.getLast?_eq_some_getLast inner, List.getLast?_eq_some_getLast inner'] at lasts
  simpa using lasts

theorem joinNames_suffixed (inner : place ≠ []) :
    Path.joinNames place ++ ending = Path.joinNames (suffixed ending place) := by
  induction place with
  | nil => exact absurd rfl inner
  | cons name rest ih =>
    cases rest with
    | nil => simp [Path.joinNames, suffixed]
    | cons next rest =>
      have later : suffixed ending (name :: next :: rest) =
          name :: suffixed ending (next :: rest) := rfl
      obtain ⟨first, more, shape⟩ : ∃ first more,
          suffixed ending (next :: rest) = first :: more := by
        cases shape : suffixed ending (next :: rest) with
        | nil => simp [suffixed] at shape
        | cons first more => exact ⟨first, more, rfl⟩
      have ih := ih (by simp)
      rw [shape] at ih later
      unfold Path.joinNames at ih ⊢
      rw [later, List.intercalate_cons_cons, List.intercalate_cons_cons, List.append_assoc, ih]

theorem mem_suffixed (ends : Ending ending) (inner : place ≠ [])
    (names : ∀ name ∈ place, Path.PlainName name ∧ name ≠ upName) :
    ∀ name ∈ suffixed ending place, Path.PlainName name ∧ name ≠ upName := by
  intro name member
  rcases List.mem_append.mp member with before | last
  · exact names name (List.dropLast_subset _ before)
  · have noSlash : '/' ∉ ending := by cases ends <;> decide
    have long : 3 ≤ ending.length := by cases ends <;> decide
    rw [List.mem_singleton, List.getLast?_eq_some_getLast inner, Option.getD_some] at last
    have plain := (names _ (List.getLast_mem inner)).1
    have size : 3 ≤ name.length := by
      rw [last, List.length_append]
      omega
    refine ⟨⟨?_, ?_, ?_⟩, ?_⟩
    · rintro rfl
      simp at size
    · rintro rfl
      simp at size
    · rw [last, List.mem_append, not_or]
      exact ⟨plain.2.2, noSlash⟩
    · rintro rfl
      simp at size

section Locations

variable {s s' : Site} {target project q : Path}

/-- The staging directory of a project. -/
def area (s : Site) (project : Path) : Location := s.location project ++ standardDirectory.names

theorem area_of_beside (beside : s' = { s with tree := s'.tree }) (project : Path) :
    area s' project = area s project := by
  rw [area, area, Site.location_of_beside beside]

theorem stagedPath_of_workingDirectory (place : s'.workingDirectory = s.workingDirectory) :
    stagedPath standardDirectory ending s' target project =
      stagedPath standardDirectory ending s target project := by
  unfold stagedPath placeInProject
  rw [Site.resolve_of_workingDirectory place, Site.resolve_of_workingDirectory place]

/-- A path is the one of a staged file. -/
structure IsStaged (s : Site) (project : Path) (ending : Text) (place : List Text) (q : Path) :
    Prop where
  path : q = project / ⟨.here, standardDirectory.names ++ suffixed ending place⟩
  forward : upName ∉ standardDirectory.names ++ suffixed ending place
  location : s.location q = area s project ++ suffixed ending place

/-- A staged file lies at the place of its file below the staging directory. -/
theorem stagedPath_of_location (written : s.Written) (plain : target.Plain)
    (ends : Ending ending) (inner : place ≠ [])
    (at_ : s.location target = s.location project ++ place) :
    ∃ q, stagedPath standardDirectory ending s target project = .ok q ∧
      IsStaged s project ending place q := by
  have names := mem_suffixed ends inner fun name member =>
    Site.mem_location written plain (at_ ▸ List.mem_append_right _ member)
  have forward : upName ∉ standardDirectory.names ++ suffixed ending place :=
    List.not_mem_append (by decide) fun up => (names _ up).2 rfl
  have text : (⟨.here, place⟩ : Path).text = Path.joinNames place := by
    cases place with
    | nil => exact absurd rfl inner
    | cons => rfl
  have read : Path.ofText (Path.joinNames (suffixed ending place)) =
      ⟨.here, suffixed ending place⟩ :=
    Path.ofText_anchor_append .here fun name member => (names name member).1
  have joined : project / standardDirectory / ⟨.here, suffixed ending place⟩ =
      project / ⟨.here, standardDirectory.names ++ suffixed ending place⟩ := by
    rw [Path.div_eq rfl, Path.div_eq rfl, Path.div_eq rfl, List.append_assoc]
  refine ⟨_, ?_, rfl, forward, ?_⟩
  · unfold stagedPath placeInProject Path.relativeTo?
    rw [Site.resolve_eq written.straight, Site.resolve_eq written.straight, at_]
    simp only [decide_true, Bool.true_and, List.isPrefixOf_iff_prefix, List.prefix_append,
      ↓reduceIte, List.drop_left, bind, Except.bind]
    rw [text, joinNames_suffixed inner, read, joined]
  · rw [Site.location_join rfl forward, area, List.append_assoc]

/-- Only what is in the project can be staged. -/
theorem place_of_stagedPath (written : s.Written) (other : s.location target ≠ s.location project)
    (done : stagedPath standardDirectory ending s target project = .ok q) :
    ∃ place ≠ [], s.location target = s.location project ++ place := by
  unfold stagedPath placeInProject Path.relativeTo? at done
  rw [Site.resolve_eq written.straight, Site.resolve_eq written.straight] at done
  simp only [decide_true, Bool.true_and, List.isPrefixOf_iff_prefix] at done
  by_cases part : s.location project <+: s.location target
  · obtain ⟨place, same⟩ := part
    refine ⟨place, ?_, same.symm⟩
    rintro rfl
    exact other (by rw [← same, List.append_nil])
  · simp only [part, ↓reduceIte, bind, Except.bind] at done
    exact nomatch done

end Locations

end Staged

end Layering
