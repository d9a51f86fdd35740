import Layering.Proofs.Places

/-!
# Added modules

A module is declared by a piece of text that goes in front of the end of the module list, or with a
list of its own in front of the end of the project. The piece completes no element that is begun before
it and ends none, so that the modules before and behind it stay declared (`modules_entry`), and the
values of the project are read as before.
-/

namespace Layering

namespace Text

theorem firstSuffix?_append_of_same {α : Type} {find : Text → Option α} {s u : Text}
    (nothing : find [] = none)
    (same : ∀ late, late ≠ [] → late <:+ s → find (late ++ u) = find late) :
    firstSuffix? find (s ++ u) = (firstSuffix? find s).or (firstSuffix? find u) := by
  -- Along the text in front: no element that begins in it needs the text behind to be read.
  induction s with
  | nil =>
    have none : firstSuffix? find [] = Option.none := nothing
    rw [none, List.nil_append, Option.none_or]
  | cons c s ih =>
    have here := same (c :: s) (by simp) List.suffix_rfl
    have later := ih fun late some part => same late some (part.trans (List.suffix_cons c s))
    rw [List.cons_append] at here ⊢
    rw [firstSuffix?, firstSuffix?, here, later, Option.or_assoc]

end Text

namespace Descriptor

/-! ### Elements at a seam -/

theorem takeWhile_plain {t : Text} (plain : '<' ∉ t) (rest : Text) :
    (t ++ '<' :: rest).takeWhile (· ≠ '<') = t := by
  have inside : ∀ c ∈ t, decide (c ≠ '<') = true := fun c member =>
    decide_eq_true fun same => plain (same ▸ member)
  rw [List.takeWhile_append_of_pos inside, List.takeWhile_cons_of_neg (by simp), List.append_nil]

theorem dropWhile_plain {t : Text} (plain : '<' ∉ t) (rest : Text) :
    (t ++ rest).dropWhile (· ≠ '<') = rest.dropWhile (· ≠ '<') := by
  have inside : ∀ c ∈ t, decide (c ≠ '<') = true := fun c member =>
    decide_eq_true fun same => plain (same ▸ member)
  exact List.dropWhile_append_of_pos inside

/-- What stands in the element at the front of a text. -/
def contents? (name t : Text) : Option Text := do
  let rest ← Text.dropStart? (Block.element name).start t
  let _ ← Text.dropStart? (Block.element name).closing (rest.dropWhile (· ≠ '<'))
  some (rest.takeWhile (· ≠ '<'))

theorem dropPattern?_of_plain {pattern : Text} (plain : '.' ∉ pattern) (t : Text) :
    dropPattern? pattern t = Text.dropStart? pattern t := by
  induction pattern generalizing t with
  | nil => rfl
  | cons c pattern ih =>
    rw [List.mem_cons, not_or] at plain
    cases t with
    | nil => rfl
    | cons d t =>
      -- A point of the pattern would match any character. There is none in it.
      have pointed : ¬ (c = '.' ∧ d ≠ '\n') := fun both => plain.1 both.1.symm
      by_cases same : c = d
      · subst same
        rw [dropPattern?, if_pos (by simp), ih plain.2]
        simp [Text.dropStart?, List.isPrefixOf]
      · rw [dropPattern?, if_neg (by simpa [same] using pointed)]
        simp [Text.dropStart?, List.isPrefixOf, same]

theorem valueAt?_eq {tag : Text} (plain : '.' ∉ tag) (t : Text) : valueAt? tag t =
    (contents? tag t).bind fun inner => inner.getLast?.map fun last =>
      if Text.trim inner = [] then [last] else Text.trim inner := by
  have start : '.' ∉ '<' :: tag ++ ['>'] := by simp [plain]
  have end_ : '.' ∉ '<' :: '/' :: tag ++ ['>'] := by simp [plain]
  have opening := dropPattern?_of_plain start
  have closing := dropPattern?_of_plain end_
  unfold valueAt? contents? Block.start Block.closing
  simp only [opening, closing, Option.bind_eq_bind]
  cases Text.dropStart? ('<' :: tag ++ ['>']) t with
  | none => rfl
  | some rest =>
    simp only [Option.bind_some]
    cases Text.dropStart? ('<' :: '/' :: tag ++ ['>']) (rest.dropWhile (· ≠ '<')) with
    | none => rfl
    | some more =>
      simp only [Option.bind_some]
      cases (rest.takeWhile (· ≠ '<')).getLast? <;> rfl

theorem moduleAt?_eq (t : Text) : moduleAt? t = (contents? "module" t).bind fun inner =>
    if inner = [] then none else some (Text.trim inner) := by
  have opening : (Block.element "module").start = "<module>".toList := rfl
  have closing : (Block.element "module").closing = "</module>".toList := rfl
  unfold moduleAt? contents?
  simp only [opening, closing, Option.bind_eq_bind]
  cases Text.dropStart? "<module>" t with
  | none => rfl
  | some rest =>
    -- The text up to the next opening is what stands inside, and the two readers differ only in
    -- how they put the tests.
    simp only [Option.bind_some]
    generalize rest.takeWhile (· ≠ '<') = inner
    generalize rest.dropWhile (· ≠ '<') = ahead
    rw [Text.dropStart?]
    by_cases ends : ("</module>".toList).isPrefixOf ahead = true
    · rw [if_pos ends, ends, Bool.and_true, Option.bind_some, Option.bind_some]
      by_cases none : inner = []
      · rw [if_pos none, if_neg (by simp [none])]
      · rw [if_neg none, if_pos (by simpa using none)]
    · rw [if_neg ends, if_neg fun both => ends (Bool.and_eq_true_iff.mp both).2]
      rfl

/-- What follows neither goes on with anything nor ends an element of this name. -/
structure Apart (name u : Text) : Prop where
  seam : AtSeam u
  other : ¬ (Block.element name).closing <+: u.dropWhile (· ≠ '<')

theorem contents?_append {name s u : Text} (regular : (Block.element name).Regular) (some : s ≠ [])
    (apart : Apart name u) : contents? name (s ++ u) = contents? name s := by
  unfold contents?
  rw [dropStart?_append_seam regular.start apart.seam some]
  cases Text.dropStart? (Block.element name).start s with
  | none => rfl
  | some rest =>
    simp only [Option.map_some, Option.bind_eq_bind, Option.bind_some]
    by_cases tagged : '<' ∈ rest
    · -- The element ends before the seam, if anywhere.
      obtain ⟨inner, more, rfl, first⟩ := exists_split_of_mem tagged
      have left (late : Text) : (inner ++ '<' :: late).dropWhile (· ≠ '<') = '<' :: late :=
        dropWhile_plain first _
      rw [List.append_assoc, List.cons_append, left, left, takeWhile_plain first,
        takeWhile_plain first, ← List.cons_append,
        dropStart?_append_seam regular.closing apart.seam (by simp), Option.bind_map]
      rfl
    · have none : rest.dropWhile (· ≠ '<') = [] := by
        have whole := dropWhile_plain tagged []
        rwa [List.append_nil] at whole
      have open_ : Text.dropStart? (Block.element name).closing [] = Option.none :=
        if_neg (by simp [Block.closing])
      have open' : Text.dropStart? (Block.element name).closing (u.dropWhile (· ≠ '<')) = Option.none :=
        if_neg (mt List.isPrefixOf_iff_prefix.mp apart.other)
      rw [dropWhile_plain tagged, none, open_, open']
      rfl

theorem contents?_nil (name : Text) : contents? name [] = none := by
  have none : Text.dropStart? (Block.element name).start [] = Option.none :=
    if_neg (by simp [Block.start])
  rw [contents?, none]
  rfl

/-- The first value in two texts. -/
theorem firstValue?_append {tag s u : Text} (plain : '.' ∉ tag)
    (regular : (Block.element tag).Regular) (apart : Apart tag u) :
    Text.firstSuffix? (valueAt? tag) (s ++ u) =
      (Text.firstSuffix? (valueAt? tag) s).or (Text.firstSuffix? (valueAt? tag) u) := by
  apply Text.firstSuffix?_append_of_same
  · rw [valueAt?_eq plain, contents?_nil, Option.bind_none]
  · intro late some _
    rw [valueAt?_eq plain, valueAt?_eq plain, contents?_append regular some apart]

theorem modules_append {s u : Text} (apart : Apart "module" u) :
    modules (s ++ u) = modules s ++ modules u := by
  have regular : (Block.element "module").Regular := ⟨by decide, by decide, by simp⟩
  induction s with
  | nil => rfl
  | cons c s ih =>
    have here := contents?_append (s := c :: s) regular (by simp) apart
    rw [List.cons_append] at here ⊢
    rw [modules, modules, moduleAt?_eq, moduleAt?_eq, here, ih, List.append_assoc]

theorem modules_of_avoids {t : Text} (avoids : Avoids "<module>" t) (u : Text) :
    modules (t ++ u) = modules u := by
  induction t with
  | nil => rfl
  | cons c t ih =>
    have none : Text.dropStart? "<module>" (c :: (t ++ u)) = Option.none :=
      if_neg (mt List.isPrefixOf_iff_prefix.mp (avoids.head u))
    have nothing : moduleAt? (c :: (t ++ u)) = Option.none := by
      rw [moduleAt?, none]
      rfl
    rw [List.cons_append, modules, nothing, ih avoids.tail]
    rfl

/-! ### The piece for a module -/

/-- The element of a module, with what is put before and behind it. -/
def entry (lead name trail : Text) : Text :=
  lead ++ ("<module>" ++ (name ++ ("</module>" ++ trail)))

/-- What goes before the element when a list is started. -/
def listStart : Text := "    <modules>\n        "

/-- What goes behind the element when a list is started. -/
def listEnd : Text := "\n    </modules>\n"

/-- Where a module is declared: what stands before and behind the place, what is put around the element
of the module, and the tag that stands behind the place. -/
inductive Site : Text → Text → Text → Text → Text → Prop
  /-- In front of a line that starts with the end of the module list. -/
  | line {before indent rest : Text} (start : LineStart before)
      (blank : ∀ c ∈ indent, c = ' ' ∨ c = '\t') :
      Site before (indent ++ "</modules>" ++ rest) (indent ++ "    ") "\n" (indent ++ "</modules>")
  /-- In front of the end of the project. -/
  | project {before rest : Text} :
      Site before ("</project>".toList ++ rest) listStart listEnd "</project>"
  /-- At the end of a descriptor in which the project does not end. -/
  | ending {before : Text} : Site before [] listStart listEnd []

/-- The place where a module is declared: what stands before and behind it. -/
def modulePlace (content : Text) : Text × Text :=
  match Text.atFirstLine? closingIndent? true content with
  | some (before, _) => (before, content.drop before.length)
  | none =>
    match Text.cut? "</project>" content with
    | some (before, _) => (before, content.drop before.length)
    | none => (content, [])

/-- What a module can be called: no tag begins or ends in the name, and no blanks stand around it. -/
structure IsModuleName (name : Text) : Prop where
  inhabited : name ≠ []
  trimmed : Text.trim name = name
  plain : '<' ∉ name
  open_ : '>' ∉ name

/-- A word can be the name of a module, also with dashes and points. -/
theorem isModuleName_of_word {name : Text} (inhabited : name ≠ [])
    (checked : name.all (fun c => Text.isWordChar c || c = '-' || c = '.') = true) :
    IsModuleName name := by
  have word : ∀ c ∈ name, Text.isWordChar c = true ∨ c = '-' ∨ c = '.' := by
    intro c member
    simpa [or_assoc] using List.all_eq_true.mp checked c member
  have visible {c : Char} (member : c ∈ name) : ¬ Text.isBlank c = true := by
    intro blank
    rcases word c member with letter | rfl | rfl
    · exact absurd letter (by rw [Text.isWordChar_of_isBlank blank]; decide)
    · exact absurd blank (by decide)
    · exact absurd blank (by decide)
  have other {c : Char} (tag : c = '<' ∨ c = '>') : c ∉ name := by
    intro member
    rcases tag with rfl | rfl <;> exact absurd (word _ member) (by decide)
  refine ⟨inhabited, ?_, other (.inl rfl), other (.inr rfl)⟩
  -- A name of such characters has no blank at either end, so trimming leaves it.
  have front : name.dropWhile Text.isBlank = name := by
    rw [List.dropWhile_eq_self_iff]
    exact fun some => visible (List.getElem_mem some)
  have back : name.rdropWhile Text.isBlank = name := by
    rw [List.rdropWhile_eq_self_iff]
    exact fun some => visible (List.getLast_mem some)
  rw [Text.trim, front]
  exact back

theorem closingIndent?_eq_some {t indent : Text} (found : closingIndent? t = some indent) :
    (∀ c ∈ indent, c = ' ' ∨ c = '\t') ∧ ∃ rest, t = indent ++ "</modules>" ++ rest := by
  unfold closingIndent? at found
  simp only at found
  split at found
  next ends =>
    cases found
    constructor
    · intro c member
      simpa using List.mem_takeWhile_imp member
    · obtain ⟨rest, split⟩ := List.isPrefixOf_iff_prefix.mp ends
      refine ⟨rest, ?_⟩
      rw [List.append_assoc, split, List.takeWhile_append_dropWhile]
  next => cases found

/-- Every text has a place for a module, and this is where it is declared. -/
theorem exists_site (content : Text) : ∃ lead trail tag,
    Site (modulePlace content).1 (modulePlace content).2 lead trail tag ∧
    (modulePlace content).1 ++ (modulePlace content).2 = content ∧
    ∀ name, name ∉ modules content → addModule name content =
      (modulePlace content).1 ++ (entry lead name trail ++ (modulePlace content).2) := by
  have fresh {name : Text} (new : name ∉ modules content) :
      ¬ (modules content).contains name = true := mt List.contains_iff_mem.mp new
  unfold modulePlace
  -- The place is before the end of a list, before the end of the project, or at the end of the
  -- text.
  cases line : Text.atFirstLine? closingIndent? true content with
  | some parts =>
    obtain ⟨before, indent⟩ := parts
    obtain ⟨after, split, found⟩ := Text.atFirstLine?_eq_some line
    obtain ⟨blank, rest, rfl⟩ := closingIndent?_eq_some found
    have start : LineStart before := Text.lineStart_of_first line
    have dropped : content.drop before.length = indent ++ "</modules>" ++ rest := by
      rw [split, List.drop_left]
    simp only [dropped]
    refine ⟨_, _, _, .line start blank, split.symm, fun name new => ?_⟩
    rw [addModule, if_neg (fresh new), line]
    simp only [dropped]
    have element : moduleLine (indent ++ "    ".toList) name = entry (indent ++ "    ") name "\n" := by
      unfold moduleLine entry
      simp only [List.append_assoc]
      rfl
    rw [element, List.append_assoc before]
  | none =>
    have list (name : Text) : "    <modules>\n".toList ++ moduleLine "        " name ++
        "    </modules>\n" = entry listStart name listEnd := by
      unfold moduleLine entry listStart listEnd
      simp only [List.append_assoc]
      rfl
    cases closed : Text.cut? "</project>" content with
    | some parts =>
      obtain ⟨before, rest⟩ := parts
      have split := Text.cut?_eq_some closed
      rw [List.append_assoc] at split
      have dropped : content.drop before.length = "</project>".toList ++ rest := by
        rw [split, List.drop_left]
      simp only [dropped]
      refine ⟨_, _, _, .project, split.symm, fun name new => ?_⟩
      rw [addModule, if_neg (fresh new), line]
      simp only [list, closed, dropped]
      rw [List.append_assoc before]
    | none =>
      simp only
      refine ⟨_, _, _, .ending, List.append_nil content, fun name new => ?_⟩
      rw [addModule, if_neg (fresh new), line]
      simp only [list, closed]
      rw [List.append_nil]

/-! ### What begins in a piece -/

/-- The literals of which pieces and the tags behind them are made. -/
def pieceLiterals : List Text :=
  ["    ", listStart, "<module>", "</module>", "\n", listEnd, "</modules>", "</project>"]

/-- The values that are read from the descriptor of a project. -/
def coordinates : List Text := ["groupId", "artifactId", "version", "packaging"]

/-- The tags that start or end what is left out on the level of the project, and those of its values. -/
def foreignTags : List Text :=
  leftBlocks.map Block.start ++ (parentBlock :: nestedSections).map Block.closing ++
    coordinates.map fun tag => (Block.element tag).start

theorem avoids_pieceLiterals :
    ∀ word ∈ foreignTags, ∀ t ∈ pieceLiterals, avoids word t = true := by decide +kernel

theorem head?_of_foreignTags : ∀ word ∈ foreignTags, word.head? = some '<' := by decide

/-- The end of a comment begins in no text without the end of a tag, unless it goes on there. -/
theorem avoids_commentEnd {t u : Text} (open_ : '>' ∉ t) (avoids : Avoids "-->" u)
    (next : ∃ c more, u = c :: more ∧ c ≠ '-' ∧ c ≠ '>') : Avoids "-->" (t ++ u) := by
  induction t with
  | nil => exact avoids
  | cons c t ih =>
    rw [List.mem_cons, not_or] at open_
    have later := ih open_.2
    intro early late split some rest begins
    cases early with
    | cons d early => exact later early late (List.cons.inj split).2 some rest begins
    | nil =>
      -- Two more characters must come from the text, or the next one is a dash or ends a tag.
      obtain ⟨d, more, rfl, dash, tag⟩ := next
      rw [List.nil_append] at split
      subst split
      match t, open_, begins with
      | [], _, begins => simp [List.cons_append, List.cons_prefix_cons, Ne.symm dash] at begins
      | [e], _, begins => simp [List.cons_append, List.cons_prefix_cons, Ne.symm tag] at begins
      | e :: f :: t, open_, begins =>
        simp only [List.mem_cons, not_or] at open_
        simp [List.cons_append, List.cons_prefix_cons, open_.2.2.1] at begins

/-- One module is listed in the element of a module with nothing of the kind around it. -/
theorem modules_element {lead name trail : Text} (valid : IsModuleName name)
    (first : Avoids "<module>" lead) (last : Avoids "<module>" trail) (u : Text) :
    modules (entry lead name trail ++ u) = name :: modules u := by
  have inside : Avoids "<module>" ("module>" ++ (name ++ ("</module>" ++ trail))) := by
    have opening : Avoids "<module>" "module>" := avoids_sound (by decide)
    have closing : Avoids "<module>" "</module>" := avoids_sound (by decide)
    have named : Avoids "<module>" name := nowhere_of_not_mem (fun _ => head?_of_prefix) valid.plain
    exact opening.append (named.append (closing.append last))
  have here : moduleAt? ("<module>" ++ (name ++ ("</module>" ++ (trail ++ u)))) = some name := by
    have dropped : Text.dropStart? (Block.element "module").start
        ("<module>" ++ (name ++ ("</module>" ++ (trail ++ u)))) =
          some (name ++ ("</module>" ++ (trail ++ u))) := Text.dropStart?_eq_some.mpr rfl
    have left : (name ++ ("</module>".toList ++ (trail ++ u))).dropWhile (· ≠ '<') =
        "</module>".toList ++ (trail ++ u) := dropWhile_plain valid.plain _
    have taken : (name ++ ("</module>".toList ++ (trail ++ u))).takeWhile (· ≠ '<') = name :=
      takeWhile_plain valid.plain _
    have closed : Text.dropStart? (Block.element "module").closing
        ("</module>".toList ++ (trail ++ u)) = some (trail ++ u) := Text.dropStart?_eq_some.mpr rfl
    rw [moduleAt?_eq, contents?, dropped]
    simp only [Option.bind_eq_bind, Option.bind_some, left, taken, closed]
    rw [if_neg valid.inhabited, valid.trimmed]
  have split : entry lead name trail ++ u =
      lead ++ ("<module>" ++ (name ++ ("</module>" ++ (trail ++ u)))) := by
    rw [entry]
    simp only [List.append_assoc]
  rw [split, modules_of_avoids first]
  -- One step of the reader takes the name and stands behind the bracket, where nothing opens again.
  have named : modules ("<module>" ++ (name ++ ("</module>" ++ (trail ++ u)))) =
      (some name).toList ++ modules ("module>" ++ (name ++ ("</module>" ++ (trail ++ u)))) := by
    rw [← here]
    rfl
  have behind : ("module>".toList ++ (name ++ ("</module>".toList ++ (trail ++ u)))) =
      "module>".toList ++ (name ++ ("</module>".toList ++ trail)) ++ u := by
    simp only [List.append_assoc]
  rw [named, behind, modules_of_avoids inside]
  rfl

section

variable {before behind lead trail tag : Text} (site : Site before behind lead trail tag)
include site

theorem Site.leads : Leads tag behind := by
  cases site with
  | line => exact .inr ⟨by simp, List.prefix_append _ _⟩
  | project => exact .inr ⟨by simp, List.prefix_append _ _⟩
  | ending => exact .inl ⟨rfl, rfl⟩

theorem Site.avoids {word : Text} (start : word.head? = some '<')
    (checked : ∀ t ∈ pieceLiterals, avoids word t = true) :
    Avoids word lead ∧ Avoids word trail ∧ Avoids word tag := by
  have literal {t : Text} (listed : t ∈ pieceLiterals) : Avoids word t := avoids_sound (checked t listed)
  have starts {t : Text} (begins : word <+: t) : t.head? = some '<' := by
    obtain ⟨more, rfl⟩ := List.head?_eq_some_iff.mp start
    exact head?_of_prefix begins
  cases site with
  | @line indent _ _ blank =>
    have plain : '<' ∉ indent := fun member => absurd (blank _ member) (by decide)
    have indented : Avoids word indent := nowhere_of_not_mem (fun _ => starts) plain
    refine ⟨indented.append (literal ?_), literal ?_, indented.append (literal ?_)⟩ <;>
      simp [pieceLiterals]
  | project =>
    refine ⟨literal ?_, literal ?_, literal ?_⟩ <;> simp [pieceLiterals]
  | ending =>
    refine ⟨literal ?_, literal ?_, .nil⟩ <;> simp [pieceLiterals]

theorem Site.avoids_entry {name word : Text} (plain : '<' ∉ name) (start : word.head? = some '<')
    (checked : ∀ t ∈ pieceLiterals, Descriptor.avoids word t = true) :
    Avoids word (entry lead name trail) := by
  obtain ⟨first, last, _⟩ := site.avoids start checked
  have starts {t : Text} (begins : word <+: t) : t.head? = some '<' := by
    obtain ⟨more, rfl⟩ := List.head?_eq_some_iff.mp start
    exact head?_of_prefix begins
  have opening : Avoids word "<module>" := avoids_sound (checked _ (by simp [pieceLiterals]))
  have closing : Avoids word "</module>" := avoids_sound (checked _ (by simp [pieceLiterals]))
  have named : Avoids word name := nowhere_of_not_mem (fun _ => starts) plain
  exact first.append (opening.append (named.append (closing.append last)))

theorem Site.avoids_comment {name : Text} (open_ : '>' ∉ name) :
    Avoids "-->" (entry lead name trail) ∧ Avoids "-->" tag := by
  have checked : ∀ t ∈ pieceLiterals, Descriptor.avoids "-->" t = true := by decide
  have literal {t : Text} (listed : t ∈ pieceLiterals) : Avoids "-->" t := avoids_sound (checked t listed)
  have opening : Avoids "-->" "<module>" := literal (by simp [pieceLiterals])
  have closing : Avoids "-->" "</module>" := literal (by simp [pieceLiterals])
  have element {trail : Text} (last : Avoids "-->" trail) :
      Avoids "-->" ("<module>" ++ (name ++ ("</module>" ++ trail))) := by
    refine opening.append (avoids_commentEnd open_ (closing.append last) ?_)
    exact ⟨'<', _, rfl, by decide, by decide⟩
  -- By the three places an entry can go. The comment's end needs a closing mark, and the name
  -- has none in it.
  cases site with
  | @line indent _ _ blank =>
    have open_ : '>' ∉ indent := fun member => absurd (blank _ member) (by decide)
    have gap : Avoids "-->" "    " := literal (by simp [pieceLiterals])
    constructor
    · have inner := gap.append (element (literal (t := "\n") (by simp [pieceLiterals])))
      rw [entry, List.append_assoc]
      exact avoids_commentEnd open_ inner ⟨' ', _, rfl, by decide, by decide⟩
    · have ends : Avoids "-->" "</modules>" := literal (by simp [pieceLiterals])
      exact avoids_commentEnd open_ ends ⟨'<', _, rfl, by decide, by decide⟩
  | project =>
    have first : Avoids "-->" listStart := literal (by simp [pieceLiterals])
    have last : Avoids "-->" listEnd := literal (by simp [pieceLiterals])
    exact ⟨first.append (element last), literal (by simp [pieceLiterals])⟩
  | ending =>
    have first : Avoids "-->" listStart := literal (by simp [pieceLiterals])
    have last : Avoids "-->" listEnd := literal (by simp [pieceLiterals])
    exact ⟨first.append (element last), .nil⟩

/-- No block that is left out starts or ends in the piece for a module or in the tag behind it. -/
theorem Site.quiet {name : Text} (valid : IsModuleName name) {b : Block} (listed : b ∈ leftBlocks) :
    b.Quiet (entry lead name trail) ∧ b.Quiet tag := by
  have starts : b.start ∈ foreignTags := by simp [foreignTags, List.mem_map_of_mem listed]
  have checked {word : Text} (listed : word ∈ foreignTags) :=
    And.intro (head?_of_foreignTags word listed) (avoids_pieceLiterals word listed)
  have opens := (site.avoids (checked starts).1 (checked starts).2).2.2
  have opens' := site.avoids_entry valid.plain (checked starts).1 (checked starts).2
  rcases List.mem_cons.mp listed with rfl | section_
  · obtain ⟨closes', closes⟩ := site.avoids_comment valid.open_
    exact ⟨⟨opens'.skips, closes'⟩, ⟨opens.skips, closes⟩⟩
  · have ends : b.closing ∈ foreignTags := by
      apply List.mem_append_left
      exact List.mem_append_right _ (List.mem_map_of_mem section_)
    have closes := (site.avoids (checked ends).1 (checked ends).2).2.2
    have closes' := site.avoids_entry valid.plain (checked ends).1 (checked ends).2
    exact ⟨⟨opens'.skips, closes'⟩, ⟨opens.skips, closes⟩⟩

/-- The piece for a module starts with a blank, and with its first tag opens a list or a module. -/
theorem Site.lead_eq : ∃ c front more, lead ++ "<module>".toList = c :: front ++ '<' :: 'm' :: more ∧
    Text.isBlank c = true ∧ '<' ∉ c :: front := by
  cases site with
  | @line indent _ _ blank =>
    have plain : '<' ∉ indent ++ "    " := by
      rw [List.mem_append, not_or]
      exact ⟨fun member => absurd (blank _ member) (by decide), by decide⟩
    cases indent with
    | nil => exact ⟨' ', "   ", "odule>", rfl, by decide, by decide⟩
    | cons c indent =>
      have blank : Text.isBlank c = true := by
        rcases blank c List.mem_cons_self with rfl | rfl <;> decide
      exact ⟨c, indent ++ "    ", "odule>", rfl, blank, plain⟩
  | project => exact ⟨' ', "   ", "odules>\n        <module>", rfl, by decide, by decide⟩
  | ending => exact ⟨' ', "   ", "odules>\n        <module>", rfl, by decide, by decide⟩

/-- The piece for a module is a gap, whatever is left out. -/
theorem Site.gap {name : Text} (valid : IsModuleName name) : Gap (entry lead name trail) tag := by
  obtain ⟨c, front, more, first, blank, _⟩ := site.lead_eq
  constructor
  · refine ⟨c, front ++ '<' :: 'm' :: more ++ (name ++ ("</module>" ++ trail)), ?_, blank⟩
    rw [entry, ← List.append_assoc, first]
    rfl
  · simp [entry]
  · exact fun b listed => (site.quiet valid listed).1
  · -- Where the tag begins decides how the text after the gap reads: after the indent of the
    -- list's end, at the project's end, or at the end of the text.
    cases site with
    | @line indent _ _ blank =>
      right
      have open_ : '>' ∉ indent ++ "</modules" := by
        rw [List.mem_append, not_or]
        exact ⟨fun member => absurd (blank _ member) (by decide), by decide⟩
      refine ⟨?_, ⟨indent ++ "</modules", by simp, open_⟩, fun b listed => ?_⟩
      · intro c head
        cases indent with
        | nil => exact .inl (Option.some.inj head).symm
        | cons d indent =>
          cases head
          rcases blank c List.mem_cons_self with rfl | rfl <;> exact .inr (by decide)
      · have site : Site [] (indent ++ "</modules>".toList ++ []) (indent ++ "    ") "\n" (indent ++ "</modules>") :=
          .line (.inl rfl) blank
        exact (site.quiet valid listed).2
    | project =>
      right
      refine ⟨?_, ⟨"</project", rfl, by decide⟩, fun b listed => ?_⟩
      · intro c head
        exact .inl (Option.some.inj head).symm
      · have site : Site [] ("</project>".toList ++ []) listStart listEnd "</project>" := .project
        exact (site.quiet valid listed).2
    | ending => exact .inl rfl

/-- No element ends with the first tag of the piece for a module. -/
theorem Site.apart_entry {name : Text} (valid : IsModuleName name) (element : Text) (u : Text) :
    Apart element (entry lead name trail ++ u) := by
  obtain ⟨c, front, more, first, _, plain⟩ := site.lead_eq
  constructor
  · exact (site.gap valid).seam' u
  · have split : entry lead name trail ++ u =
        c :: front ++ '<' :: 'm' :: (more ++ (name ++ ("</module>" ++ trail)) ++ u) := by
      rw [entry, ← List.append_assoc, first]
      simp only [List.append_assoc, List.cons_append]
    rw [split, dropWhile_plain plain]
    rintro ⟨rest, same⟩
    cases same

/-- No module and no value ends with the tag behind the place. -/
theorem Site.apart {element : Text} (listed : element ∈ "module".toList :: coordinates) {u : Text}
    (seam : AtSeam u) (leads : Leads tag u) : Apart element u := by
  have others : ∀ element ∈ "module".toList :: coordinates, ∀ word ∈ ["</modules>", "</project>"],
      ¬ (Block.element element).closing <+: word.toList ∧
        ¬ word.toList <+: (Block.element element).closing := by decide
  have other (word : String) (tag : word ∈ ["</modules>", "</project>"]) (rest : Text) :
      ¬ (Block.element element).closing <+: word.toList ++ rest := by
    intro ends
    -- Of two prefixes of one text one is a prefix of the other, and for these tags neither is.
    rcases List.prefix_or_prefix_of_prefix ends (List.prefix_append _ rest) with shorter | longer
    · exact (others element listed word tag).1 shorter
    · exact (others element listed word tag).2 longer
  constructor
  · exact seam
  · rcases leads with ⟨_, rfl⟩ | ⟨inhabited, rest, rfl⟩
    · simp [Block.closing]
    · cases site with
      | @line indent _ _ blank =>
        have plain : '<' ∉ indent := fun member => absurd (blank _ member) (by decide)
        rw [List.append_assoc, dropWhile_plain plain]
        exact other "</modules>" (by simp) rest
      | project => exact other "</project>" (by simp) rest
      | ending => exact absurd rfl inhabited

/-- The piece declares its module, and nothing else. -/
theorem Site.modules_entry {name : Text} (valid : IsModuleName name) (u : Text) :
    modules (entry lead name trail ++ u) = name :: modules u := by
  have literal : ∀ t ∈ ["    ".toList, listStart, "\n", listEnd],
      Descriptor.avoids "<module>" t = true := by decide
  cases site with
  | @line indent _ _ blank =>
    have plain : '<' ∉ indent ++ "    " := by
      rw [List.mem_append, not_or]
      exact ⟨fun member => absurd (blank _ member) (by decide), by decide⟩
    have first : Avoids "<module>" (indent ++ "    ") := nowhere_of_not_mem (fun _ => head?_of_prefix) plain
    exact modules_element valid first (avoids_sound (literal _ (by simp))) u
  | project =>
    exact modules_element valid (avoids_sound (literal _ (by simp))) (avoids_sound (literal _ (by simp))) u
  | ending =>
    exact modules_element valid (avoids_sound (literal _ (by simp))) (avoids_sound (literal _ (by simp))) u

/-- The piece holds none of the values that are read. -/
theorem Site.firstValue?_entry {name : Text} (valid : IsModuleName name) {element : Text}
    (listed : element ∈ coordinates) {x y : Text} (leads : Leads tag y) :
    Text.firstSuffix? (valueAt? element) (x ++ (entry lead name trail ++ y)) =
      Text.firstSuffix? (valueAt? element) (x ++ y) := by
  have plain : ∀ element ∈ coordinates, '.' ∉ element := by decide
  have regular : ∀ element ∈ coordinates, (Block.element element).Regular := by
    have solid : ∀ element ∈ coordinates,
        Solid (Block.element element).start ∧ Solid (Block.element element).closing := by decide
    exact fun element listed => ⟨(solid element listed).1, (solid element listed).2, by simp⟩
  have word : (Block.element element).start ∈ foreignTags :=
    List.mem_append_right _ (List.mem_map_of_mem listed)
  have skips : (Block.element element).Skips (entry lead name trail) :=
    (site.avoids_entry valid.plain rfl (avoids_pieceLiterals _ word)).skips
  have gap := site.gap valid
  rw [firstValue?_append (plain _ listed) (regular _ listed) (site.apart_entry valid element y),
    firstSuffix?_append (skips.valueAt? (plain _ listed)),
    firstValue?_append (plain _ listed) (regular _ listed)
      (site.apart (List.mem_cons_of_mem _ listed) (gap.seam leads) leads)]

/-- The values of the project are read as before, unless an opening tag was broken off at the place. -/
theorem Site.value?_entry {name : Text} (valid : IsModuleName name) {element : Text}
    (listed : element ∈ coordinates) (whole : WholeLevel before behind) :
    value? element (before ++ (entry lead name trail ++ behind)) = value? element (before ++ behind) := by
  have gap := site.gap valid
  have own : Text.firstSuffix? (valueAt? element) (ownLevel (before ++ (entry lead name trail ++ behind))) =
      Text.firstSuffix? (valueAt? element) (ownLevel (before ++ behind)) := by
    -- The entry lies on the own level of the descriptor or in a part that is cut from it.
    rcases gap.ownLevel_or site.leads whole with ⟨x, y, place⟩ | same
    · obtain ⟨left, leads⟩ := gap.ownLevel_of_place place site.leads whole
      rw [left, place.ownLevel_eq]
      exact site.firstValue?_entry valid listed leads
    · rw [same]
  have inherited : (parent? (before ++ (entry lead name trail ++ behind))).bind
        (Text.firstSuffix? (valueAt? element)) =
      (parent? (before ++ behind)).bind (Text.firstSuffix? (valueAt? element)) := by
    rcases gap.parent_or (s := before) site.leads with same | ⟨inner, outer, _, parent, parent', leads⟩
    · rw [same]
    · rw [parent, parent', Option.bind_some, Option.bind_some]
      exact site.firstValue?_entry valid listed leads
  unfold value?
  rw [own, inherited]

end

/-! ### Declaring a module -/

/-- A module that is listed already changes nothing. A new one comes in one piece, and is listed
between those before the place and those behind it; once declared it stays as it is. The coordinates of
the project and its packaging are read as before, unless the piece goes into the middle of a line, right
behind the name of a section whose opening tag is broken off there. -/
theorem addModule_edit {name : Text} (valid : IsModuleName name) (content : Text) :
    (name ∈ modules content → addModule name content = content) ∧
    (name ∉ modules content → ∃ before piece behind, content = before ++ behind ∧
      addModule name content = before ++ (piece ++ behind) ∧
      modules content = modules before ++ modules behind ∧
      modules (addModule name content) = modules before ++ name :: modules behind) ∧
    addModule name (addModule name content) = addModule name content ∧
    ((¬ LineStart (modulePlace content).1 → (modulePlace content).2 ≠ [] →
        WholeLevel (modulePlace content).1 (modulePlace content).2) →
      ∀ element ∈ coordinates, value? element (addModule name content) = value? element content) := by
  have listed {content : Text} (listed : name ∈ modules content) : addModule name content = content :=
    if_pos (List.contains_iff_mem.mpr listed)
  obtain ⟨lead, trail, tag, site, split, added⟩ := exists_site content
  generalize (modulePlace content).1 = before at site split added ⊢
  generalize (modulePlace content).2 = behind at site split added ⊢
  have fresh (new : name ∉ modules content) : modules content = modules before ++ modules behind ∧
      modules (addModule name content) = modules before ++ name :: modules behind := by
    constructor
    · rw [← split]
      exact modules_append (site.apart List.mem_cons_self ((site.gap valid).seam site.leads) site.leads)
    · rw [added name new, modules_append (site.apart_entry valid "module" behind),
        site.modules_entry valid]
  refine ⟨listed, fun new => ?_, ?_, fun whole element coordinate => ?_⟩
  · exact ⟨before, _, behind, split.symm, added name new, fresh new⟩
  · -- The second time the name is listed, and a listed name changes nothing.
    by_cases known : name ∈ modules content
    · rw [listed known, listed known]
    · apply listed
      rw [(fresh known).2]
      exact List.mem_append_right _ List.mem_cons_self
  · by_cases known : name ∈ modules content
    · rw [listed known]
    · have whole := wholeLevel_of_middle whole
      rw [added name known, site.value?_entry valid coordinate whole, split]

theorem addModule_edit_shop : IsModuleName "shop-api" ∧
    (modulePlace "<project>\n</project>\n").1 = "<project>\n".toList ∧
    value? "groupId" (addModule "shop-api" "<project>\n</project>\n") =
      value? "groupId" "<project>\n</project>\n" := by
  have valid : IsModuleName "shop-api" := ⟨by decide, by decide, by decide, by decide⟩
  have place : (modulePlace "<project>\n</project>\n").1 = "<project>\n".toList := by decide
  refine ⟨valid, place, (addModule_edit valid "<project>\n</project>\n").2.2.2 ?_ _ (by decide)⟩
  intro middle
  exact absurd (.inr (by rw [place]; decide)) middle

/-- A descriptor in which the opening tag of a section is broken off right before the end of the
project. -/
def brokenOff : Text := "<project><build</project><groupId>g</groupId></build>"

/-- There the piece completes the opening tag, and the section takes the group of the project with it. -/
theorem value?_lost : IsModuleName "m" ∧ value? "groupId" brokenOff = some "g".toList ∧
    value? "groupId" (addModule "m" brokenOff) = none := by
  refine ⟨⟨by decide, by decide, by decide, by decide⟩, ?_, ?_⟩
  · have comments : without .comment brokenOff = brokenOff := without_of_none (by decide)
    have own : ownLevel brokenOff = brokenOff := by
      have parent : firstOut parentBlock brokenOff = brokenOff := by decide
      rw [ownLevel_eq, comments, parent]
      exact foldl_without_of_none (by decide)
    rw [value?, own]
    decide
  · have comments : without .comment (addModule "m" brokenOff) = addModule "m" brokenOff :=
      without_of_none (by decide +kernel)
    have own : ownLevel (addModule "m" brokenOff) = "<project>" := by
      -- The build section swallows the rest of the text: it is opened, and no longer closed.
      have order : nestedSections = nestedSections.take 3 ++ .attributed "build" :: nestedSections.drop 4 :=
        rfl
      have parent : firstOut parentBlock (addModule "m" brokenOff) = addModule "m" brokenOff := by
        decide +kernel
      have before : ∀ b ∈ nestedSections.take 3, b.cut? (addModule "m" brokenOff) = none := by
        decide +kernel
      have section_ : (Block.attributed "build").cut? (addModule "m" brokenOff) =
          some ("<project>".toList, []) := by decide +kernel
      rw [ownLevel_eq, comments, parent, order, List.foldl_append, foldl_without_of_none before,
        List.foldl_cons, without_of_cut? section_, without_nil]
      exact foldl_without_of_none (by decide)
    have parent : parent? (addModule "m" brokenOff) = none :=
      parent?_of_none (by rw [comments]; decide +kernel)
    rw [value?, own, parent]
    decide

end Descriptor

end Layering
