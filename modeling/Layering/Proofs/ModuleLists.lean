import Layering.Proofs.AddedModules

/-!
# Module lists

On the level of a project a list of modules should stand once. A new module is put at the end of the
list that is there, or into a new one, where the place for it is on that level and the end of the list
starts a line.
-/

namespace Layering.Descriptor

/-! ### Occurrences -/

/-- How often a word begins in a text. -/
def occurrences (word : Text) : Text → Nat
  | [] => 0
  | c :: t => (if word.isPrefixOf (c :: t) then 1 else 0) + occurrences word t

theorem occurrences_append {word s u : Text} (solid : Solid word) (seam : AtSeam u) :
    occurrences word (s ++ u) = occurrences word s + occurrences word u := by
  induction s with
  | nil => rw [List.nil_append, occurrences, Nat.zero_add]
  | cons c s ih =>
    have same := prefix_append_seam (s := c :: s) solid seam (by simp)
    rw [List.cons_append] at same ⊢
    rw [occurrences, occurrences, ih, Nat.add_assoc]
    by_cases begins : word <+: c :: s
    · rw [if_pos (List.isPrefixOf_iff_prefix.mpr begins),
        if_pos (List.isPrefixOf_iff_prefix.mpr (same.mpr begins))]
    · rw [if_neg (mt List.isPrefixOf_iff_prefix.mp begins),
        if_neg (mt List.isPrefixOf_iff_prefix.mp (mt same.mp begins))]

theorem occurrences_of_avoids {word t : Text} (avoids : Avoids word t) (u : Text) :
    occurrences word (t ++ u) = occurrences word u := by
  induction t with
  | nil => rfl
  | cons c t ih =>
    have none : ¬ word.isPrefixOf (c :: (t ++ u)) = true := mt List.isPrefixOf_iff_prefix.mp (avoids.head u)
    rw [List.cons_append, occurrences, if_neg none, ih avoids.tail, Nat.zero_add]

theorem occurrences_pos {word : Text} (inhabited : word ≠ []) (before rest : Text) :
    0 < occurrences word (before ++ (word ++ rest)) := by
  induction before with
  | nil =>
    obtain ⟨c, more, rfl⟩ := List.exists_cons_of_ne_nil inhabited
    have begins : (c :: more).isPrefixOf (c :: (more ++ rest)) = true :=
      List.isPrefixOf_iff_prefix.mpr (List.prefix_append (c :: more) rest)
    rw [List.nil_append, List.cons_append, occurrences, if_pos begins]
    omega
  | cons c before ih =>
    rw [List.cons_append, occurrences]
    omega

/-- Where a word begins once, it begins at one place. -/
theorem eq_of_occurrences {word before before' rest rest' : Text} (inhabited : word ≠ [])
    (once : occurrences word (before ++ (word ++ rest)) = 1)
    (same : before ++ (word ++ rest) = before' ++ (word ++ rest')) : before = before' := by
  have first {c : Char} {before : Text} {t : Text} (begins : word <+: c :: (before ++ (word ++ t))) :
      1 < occurrences word (c :: (before ++ (word ++ t))) := by
    have later := occurrences_pos inhabited before t
    rw [occurrences, if_pos (List.isPrefixOf_iff_prefix.mpr begins)]
    omega
  induction before generalizing before' with
  | nil =>
    cases before' with
    | nil => rfl
    | cons c before' =>
      rw [same] at once
      rw [List.nil_append, List.cons_append] at same
      have more := first (same ▸ List.prefix_append word rest)
      rw [List.cons_append] at once
      omega
  | cons c before ih =>
    cases before' with
    | nil =>
      rw [List.nil_append, List.cons_append] at same
      have more := first (same ▸ List.prefix_append word rest')
      rw [List.cons_append] at once
      omega
    | cons d before' =>
      rw [List.cons_append, List.cons_append] at same
      obtain ⟨head, tails⟩ := List.cons.inj same
      have some := occurrences_pos inhabited before rest
      rw [List.cons_append, occurrences] at once
      rw [head, ih (by omega) tails]

/-! ### Lists of modules -/

/-- A text holds one list of modules, with these contents. -/
structure OneList (t inner : Text) : Prop where
  stands : ∃ before after, t = before ++ ("<modules>" ++ (inner ++ ("</modules>" ++ after)))
  opened : occurrences "<modules>" t = 1
  closed : occurrences "</modules>" t = 1

/-- A text holds no list of modules, nor an end of one. -/
structure NoList (t : Text) : Prop where
  opened : occurrences "<modules>" t = 0
  closed : occurrences "</modules>" t = 0

theorem OneList.not_noList {t inner : Text} (one : OneList t inner) : ¬ NoList t := by
  intro none
  have := one.opened.symm.trans none.opened
  omega

theorem OneList.unique {t inner inner' : Text} (one : OneList t inner) (other : OneList t inner') :
    inner = inner' := by
  obtain ⟨before, after, split⟩ := one.stands
  obtain ⟨before', after', split'⟩ := other.stands
  have opened := one.opened
  have closed := one.closed
  rw [split] at opened closed
  have same := split.symm.trans split'
  obtain rfl := eq_of_occurrences (by simp) opened same
  have same : before ++ ("<modules>".toList ++ inner) ++ ("</modules>".toList ++ after) =
      before ++ ("<modules>".toList ++ inner') ++ ("</modules>".toList ++ after') := by
    simpa only [List.append_assoc] using same
  have closed : occurrences "</modules>"
      (before ++ ("<modules>".toList ++ inner) ++ ("</modules>".toList ++ after)) = 1 := by
    simpa only [List.append_assoc] using closed
  exact List.append_cancel_left (List.append_cancel_left (eq_of_occurrences (by simp) closed same))

/-! ### What a piece holds -/

/-- What is put at a place adds what begins in it. -/
theorem Site.occurrences_entry {before behind lead trail tag : Text}
    (site : Site before behind lead trail tag) {name : Text} (valid : IsModuleName name) {x y : Text}
    (leads : Leads tag y) {word : Text} (solid : Solid word) :
    occurrences word (x ++ (entry lead name trail ++ y)) =
      occurrences word (x ++ y) + occurrences word (entry lead name trail) := by
  have gap := site.gap valid
  have seam := gap.seam leads
  rw [occurrences_append solid (gap.seam' y), occurrences_append solid seam, occurrences_append solid seam]
  omega

/-- The tags of a list of modules. -/
def listTags : List Text := ["<modules>", "</modules>"]

theorem solid_of_listTags : ∀ word ∈ listTags, Solid word := by decide

theorem head?_of_listTags : ∀ word ∈ listTags, word.head? = some '<' := by decide

/-- The element of a module holds no tag of a list. -/
theorem avoids_element {lead name trail : Text} (first : '<' ∉ lead) (named : '<' ∉ name)
    (last : '<' ∉ trail) : ∀ word ∈ listTags, Avoids word (entry lead name trail) := by
  intro word listed
  have literal : ∀ word ∈ listTags, ∀ t ∈ ["<module>".toList, "</module>"],
      avoids word t = true := by decide
  have parts : entry lead name trail =
      [lead, "<module>".toList, name, "</module>", trail].flatten := by
    simp only [entry, List.flatten_cons, List.flatten_nil, List.append_nil]
  rw [parts]
  apply avoids_flatten (head?_of_listTags word listed)
  simp only [List.forall_mem_cons, List.not_mem_nil, false_implies, implies_true, and_true]
  exact ⟨.inl first, .inr (literal word listed _ (by simp)), .inl named,
    .inr (literal word listed _ (by simp)), .inl last⟩

theorem occurrences_line {indent name : Text} (plain : '<' ∉ indent) (named : '<' ∉ name) :
    ∀ word ∈ listTags, occurrences word (entry (indent ++ "    ") name "\n") = 0 := by
  intro word listed
  have avoided : Avoids word (entry (indent ++ "    ") name "\n") :=
    avoids_element (by simp [plain]) named (by decide) word listed
  have none := occurrences_of_avoids avoided []
  rwa [List.append_nil] at none

/-- The contents of a new list. -/
def newList (name : Text) : Text := entry "\n        " name "\n    "

theorem entry_list (name : Text) : entry listStart name listEnd =
    "    ".toList ++ ("<modules>".toList ++ (newList name ++ ("</modules>".toList ++ "\n".toList))) := by
  have opening : listStart = "    ".toList ++ ("<modules>".toList ++ "\n        ".toList) := by decide
  have closing : listEnd = "\n    ".toList ++ ("</modules>".toList ++ "\n".toList) := by decide
  unfold newList entry
  simp only [opening, closing, List.append_assoc]

/-- A new list holds each of its tags once. -/
theorem occurrences_list {name : Text} (named : '<' ∉ name) :
    ∀ word ∈ listTags, occurrences word (entry listStart name listEnd) = 1 := by
  intro word listed
  have avoided : Avoids word (newList name) :=
    avoids_element (by decide) named (by decide) word listed
  have seam : AtSeam (newList name ++ "</modules>\n".toList) := by
    intro c head
    cases head
    exact .inr (by decide)
  have ends : ∀ word ∈ listTags,
      occurrences word "    <modules>" + occurrences word "</modules>\n" = 1 := by decide
  have split : entry listStart name listEnd =
      "    <modules>".toList ++ (newList name ++ "</modules>\n".toList) := by
    have opening : "    <modules>".toList = "    ".toList ++ "<modules>".toList := by decide
    have closing : "</modules>\n".toList = "</modules>".toList ++ "\n".toList := by decide
    rw [entry_list, opening, closing, List.append_assoc]
  rw [split, occurrences_append (solid_of_listTags word listed) seam, occurrences_of_avoids avoided]
  exact ends word listed

/-! ### Registered modules -/

/-- Modules can be registered in a descriptor: at most one list of modules stands on the level of the
project, its end starts a line, and no other end of a list or of the project comes first. A module that
is listed anywhere is listed there. -/
structure Registrable (name content : Text) : Prop where
  single : NoList (ownLevel content) ∨ ∃ list, OneList (ownLevel content) list
  ended : closingIndent? (modulePlace content).2 = none → NoList (ownLevel content)
  place : ∃ x y, OwnPlace (modulePlace content).1 (modulePlace content).2 x y
  whole : ¬ LineStart (modulePlace content).1 → (modulePlace content).2 ≠ [] →
    WholeLevel (modulePlace content).1 (modulePlace content).2
  listed : name ∈ modules content → ∃ list, OneList (ownLevel content) list ∧ name ∈ modules list

/-- A text holds one list, in which this module is listed behind those of a list before. -/
def Lists (name old t : Text) : Prop := ∃ list, OneList t list ∧ name ∈ modules list ∧
  ∀ before, OneList old before → modules before <+: modules list

theorem modules_nil_of_blank {indent : Text} (blank : ∀ c ∈ indent, c = ' ' ∨ c = '\t') :
    modules indent = [] := by
  have plain : '<' ∉ indent := fun member => absurd (blank _ member) (by decide)
  have none := modules_of_avoids (nowhere_of_not_mem (fun _ => head?_of_prefix) plain) []
  rw [List.append_nil] at none
  exact none

section

variable {name indent x rest : Text} (blank : ∀ c ∈ indent, c = ' ' ∨ c = '\t')
include blank

/-- The list that ends behind a blank place opens before it, since its opening ends with no blank. -/
theorem OneList.opens_before {old : Text}
    (one : OneList (x ++ (indent ++ "</modules>" ++ rest)) old) :
    ∃ before inner, x = before ++ "<modules>" ++ inner ∧ old = inner ++ indent := by
  obtain ⟨before, after, split⟩ := one.stands
  have closed := one.closed
  have whole : x ++ (indent ++ "</modules>" ++ rest) = x ++ indent ++ ("</modules>" ++ rest) := by
    simp only [List.append_assoc]
  have same : before ++ ("<modules>" ++ old) ++ ("</modules>" ++ after) =
      x ++ indent ++ ("</modules>" ++ rest) := by
    rw [← whole, split]
    simp only [List.append_assoc]
  rw [whole, ← same] at closed
  have front := eq_of_occurrences (by simp) closed same
  rw [← List.append_assoc] at front
  rcases List.append_eq_append_iff.mp front with ⟨inner, start, last⟩ | ⟨z, start, last⟩
  · exact ⟨before, inner, start, last⟩
  · cases z with
    | nil => exact ⟨before, [], by simpa using start.symm, by simpa using last.symm⟩
    | cons c z =>
      have ends : (c :: z).getLast? = some '>' := by
        have ends := congrArg List.getLast? start
        rw [List.getLast?_append, List.getLast?_append] at ends
        simpa using ends.symm
      have member : '>' ∈ indent := by
        rw [last]
        exact List.mem_append_left _ (List.mem_of_getLast? ends)
      exact absurd (blank _ member) (by decide)

/-- A line for a module at the end of a list adds it to the modules there. -/
theorem modules_line (valid : IsModuleName name) (inner : Text) :
    modules (inner ++ (entry (indent ++ "    ") name "\n" ++ indent)) =
      modules (inner ++ indent) ++ [name] := by
  have site : Site [] (indent ++ "</modules>" ++ ([] : Text)) (indent ++ "    ") "\n"
      (indent ++ "</modules>") := .line (.inl rfl) blank
  have plain : '<' ∉ indent := fun member => absurd (blank _ member) (by decide)
  have inside : AtSeam indent := fun c head => by
    rcases blank c (List.mem_of_head? head) with rfl | rfl <;> exact .inr (by decide)
  have apart : Apart "module" indent := by
    constructor
    · exact inside
    · have none := dropWhile_plain plain []
      rw [List.append_nil] at none
      rw [none]
      simp [Block.closing]
  rw [modules_append (site.apart_entry valid "module" indent), site.modules_entry valid,
    modules_append apart, modules_nil_of_blank blank, List.append_nil]

/-- A line for a module goes to the end of the list that ends behind it. -/
theorem lists_line (valid : IsModuleName name)
    (single : NoList (x ++ (indent ++ "</modules>" ++ rest)) ∨
      ∃ list, OneList (x ++ (indent ++ "</modules>" ++ rest)) list) :
    Lists name (x ++ (indent ++ "</modules>" ++ rest))
      (x ++ (entry (indent ++ "    ") name "\n" ++ (indent ++ "</modules>" ++ rest))) := by
  have site : Site [] (indent ++ "</modules>" ++ rest) (indent ++ "    ") "\n" (indent ++ "</modules>") :=
    .line (.inl rfl) blank
  have plain : '<' ∉ indent := fun member => absurd (blank _ member) (by decide)
  rcases single with none | ⟨old, one⟩
  · -- The end of a list stands behind the place.
    have whole : x ++ (indent ++ "</modules>" ++ rest) = x ++ indent ++ ("</modules>" ++ rest) := by
      simp only [List.append_assoc]
    have inhabited : "</modules>".toList ≠ [] := by simp
    have some := occurrences_pos inhabited (x ++ indent) rest
    rw [← whole, none.closed] at some
    cases some
  · obtain ⟨before, inner, rfl, rfl⟩ := one.opens_before blank
    have listed := modules_line blank valid inner
    have count {word : Text} (tag : word ∈ listTags) :
        occurrences word (before ++ "<modules>" ++ inner ++
          (entry (indent ++ "    ") name "\n" ++ (indent ++ "</modules>" ++ rest))) =
        occurrences word (before ++ "<modules>" ++ inner ++ (indent ++ "</modules>" ++ rest)) := by
      rw [site.occurrences_entry valid site.leads (solid_of_listTags word tag),
        occurrences_line plain valid.plain word tag, Nat.add_zero]
    refine ⟨inner ++ (entry (indent ++ "    ") name "\n" ++ indent), ?_, ?_, ?_⟩
    · refine ⟨⟨before, rest, by simp only [List.append_assoc]⟩, ?_, ?_⟩
      · rw [count (by simp [listTags])]
        exact one.opened
      · rw [count (by simp [listTags])]
        exact one.closed
    · rw [listed]
      exact List.mem_append_right _ List.mem_cons_self
    · intro before' one'
      rw [listed, one'.unique one]
      exact List.prefix_append _ _

end

/-- Where no list stands, a new one is started. -/
theorem lists_list {before behind tag name x y : Text} (site : Site before behind listStart listEnd tag)
    (valid : IsModuleName name) (leads : Leads tag y) (none : NoList (x ++ y)) :
    Lists name (x ++ y) (x ++ (entry listStart name listEnd ++ y)) := by
  have listed : modules (newList name) = [name] := by
    have first : Avoids "<module>" "\n        " := avoids_sound (by decide)
    have last : Avoids "<module>" "\n    " := avoids_sound (by decide)
    have element := modules_element valid first last []
    rw [List.append_nil] at element
    exact element
  have count {word : Text} (tag : word ∈ listTags) (absent : occurrences word (x ++ y) = 0) :
      occurrences word (x ++ (entry listStart name listEnd ++ y)) = 1 := by
    rw [site.occurrences_entry valid leads (solid_of_listTags word tag),
      occurrences_list valid.plain word tag, absent]
  refine ⟨newList name, ⟨⟨x ++ "    ", "\n" ++ y, ?_⟩, ?_, ?_⟩, ?_, ?_⟩
  · rw [entry_list]
    simp only [List.append_assoc]
  · exact count (by simp [listTags]) none.opened
  · exact count (by simp [listTags]) none.closed
  · rw [listed]
    exact List.mem_cons_self
  · intro before one
    exact absurd none one.not_noList

/-- A module that is declared in such a descriptor is registered: one list stands on the level of the
project, and the module is in it, behind those that were listed before. -/
theorem addModule_registered {name content : Text} (valid : IsModuleName name)
    (registrable : Registrable name content) :
    Lists name (ownLevel content) (ownLevel (addModule name content)) := by
  obtain ⟨single, ended, ⟨x, y, place⟩, whole, known⟩ := registrable
  by_cases new : name ∈ modules content
  · have same : addModule name content = content := if_pos (List.contains_iff_mem.mpr new)
    obtain ⟨list, one, member⟩ := known new
    rw [same]
    refine ⟨list, one, member, fun before one' => ?_⟩
    rw [one'.unique one]
  · obtain ⟨lead, trail, tag, site, split, added⟩ := exists_site content
    rw [added name new]
    generalize (modulePlace content).1 = before at site split place whole ended ⊢
    generalize (modulePlace content).2 = behind at site split place whole ended ⊢
    have whole := wholeLevel_of_middle whole
    obtain ⟨left, leads⟩ := (site.gap valid).ownLevel_of_place place site.leads whole
    rw [← split, place.ownLevel_eq] at single ended
    rw [left, ← split, place.ownLevel_eq]
    cases site with
    | @line indent rest start blank =>
      rcases leads with ⟨none, _⟩ | ⟨_, rest, rfl⟩
      · simp at none
      · exact lists_line blank valid single
    | @project rest =>
      have site : Site before ("</project>".toList ++ rest) listStart listEnd "</project>" := .project
      exact lists_list site valid leads (ended rfl)
    | ending =>
      have site : Site before [] listStart listEnd [] := .ending
      exact lists_list site valid leads (ended rfl)

/-- A project with one module, in a list of which each tag stands on a line of its own. -/
def oneModule : Text :=
  "<project>\n  <modules>\n    <module>shop-api</module>\n  </modules>\n</project>\n"

theorem addModule_registered_core : Registrable "shop-core" oneModule ∧
    Lists "shop-core" (ownLevel oneModule) (ownLevel (addModule "shop-core" oneModule)) := by
  have valid : IsModuleName "shop-core" := isModuleName_of_word (by decide) (by decide +kernel)
  have place : modulePlace oneModule = ("<project>\n  <modules>\n    <module>shop-api</module>\n".toList,
      "  </modules>\n</project>\n".toList) := by decide +kernel
  have split : (modulePlace oneModule).1 ++ (modulePlace oneModule).2 = oneModule := by
    rw [place]
    decide +kernel
  have outside : OwnPlace (modulePlace oneModule).1 (modulePlace oneModule).2
      (modulePlace oneModule).1 (modulePlace oneModule).2 := by
    apply ownPlace_of_none
    rw [split]
    decide +kernel
  have own : ownLevel oneModule = oneModule := by
    have own := outside.ownLevel_eq
    rwa [split] at own
  have one : OneList oneModule "\n    <module>shop-api</module>\n  " :=
    ⟨⟨"<project>\n  ", "\n</project>\n", by decide +kernel⟩, by decide +kernel, by decide +kernel⟩
  have registrable : Registrable "shop-core" oneModule := by
    constructor
    · rw [own]
      exact .inr ⟨_, one⟩
    · rw [place]
      intro none
      cases none
    · exact ⟨_, _, outside⟩
    · rw [place]
      exact fun middle => absurd (.inr (by decide +kernel)) middle
    · exact fun listed => absurd listed (by decide +kernel)
  exact ⟨registrable, addModule_registered valid registrable⟩

/-- A project with a list of modules on one line. -/
def oneLine : Text := "<project>\n  <modules><module>a</module></modules>\n</project>"

/-- There a second list is started. -/
theorem list_doubled : (∃ list, OneList (ownLevel oneLine) list) ∧ IsModuleName "m" ∧
    ¬ ∃ list, OneList (ownLevel (addModule "m" oneLine)) list := by
  have own {t : Text} (none : ∀ b ∈ leftBlocks, b.cut? t = none) : ownLevel t = t := by
    have place := ownPlace_of_none (s := []) (u := t) none
    exact place.ownLevel_eq
  refine ⟨⟨"<module>a</module>", ?_⟩, isModuleName_of_word (by decide) (by decide +kernel), ?_⟩
  · rw [own (by decide +kernel)]
    exact ⟨⟨"<project>\n  ", "\n</project>", by decide +kernel⟩, by decide +kernel, by decide +kernel⟩
  · rintro ⟨list, one⟩
    have twice : occurrences "<modules>" (addModule "m" oneLine) = 2 := by decide +kernel
    have once := one.opened
    rw [own (by decide +kernel), twice] at once
    cases once

end Layering.Descriptor
