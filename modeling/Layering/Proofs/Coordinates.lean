import Layering.Proofs.NewDescriptors

/-!
# The coordinates of new modules

The descriptor of a new module is filled with values that were read from the descriptor above it, and
with names. What an element holds reads back as it stands (`valueAt?_of_isValue`), and nothing that is
filled in opens a tag, so that each value is found in its own element and nowhere else: the name of the
module on its own level, and its group and version in the parent reference.
-/

namespace Layering

namespace Text

theorem trim_trim (t : Text) : trim (trim t) = trim t := by
  have front : (trim t).dropWhile isBlank = trim t := by
    cases inner : trim t with
    | nil => rfl
    | cons c more =>
      have start : trim t <+: t.dropWhile isBlank := List.rdropWhile_prefix isBlank _
      obtain ⟨rest, whole⟩ := inner ▸ start
      have visible := List.head?_dropWhile_not isBlank t
      rw [← whole] at visible
      exact List.dropWhile_cons_of_neg (by simpa using visible)
  rw [trim, front]
  exact List.rdropWhile_idempotent isBlank (t.dropWhile isBlank)

theorem firstSuffix?_of_here {α : Type} {find : Text → Option α} {t : Text} {a : α}
    (here : find t = some a) : firstSuffix? find t = some a := by
  cases t with
  | nil => exact here
  | cons c t => rw [firstSuffix?, here, Option.some_or]

/-! ### Capital letters -/

theorem CaseRun.exists_of_image? {n image : Nat} {runs : List CaseRun}
    (found : CaseRun.image? n runs = some image) :
    ∃ run ∈ runs, run.first ≤ n ∧ image = (n + run.offset).toNat := by
  -- Along the runs, which are in order: the first that is not above the number decides.
  induction runs with
  | nil => cases found
  | cons run runs ih =>
    rw [CaseRun.image?] at found
    split at found
    next => cases found
    next above =>
      split at found
      next => exact ⟨run, List.mem_cons_self, Nat.le_of_not_lt above, (Option.some.inj found).symm⟩
      next =>
        obtain ⟨run', member, image⟩ := ih found
        exact ⟨run', List.mem_cons_of_mem _ member, image⟩

/-- No letter has a tag for its capital form. -/
theorem not_mem_upperChar {c : Char} (other : c ≠ '<') : '<' ∉ upperChar c := by
  rcases upperChar_cases c with ⟨image, found, form⟩ | ⟨image, found, form⟩ | form
  · have apart : ∀ entry ∈ upperSpecial, '<' ∉ entry.2.map Char.ofNat := by decide +kernel
    have listed : (c.toNat, image) ∈ upperSpecial := by
      obtain ⟨early, late, split, _⟩ := List.lookup_eq_some_iff.mp found
      simp [split]
    exact form ▸ apart _ listed
  · have above : ∀ run ∈ upperRuns, (60 : Int) < run.first + run.offset := by decide +kernel
    obtain ⟨run, listed, first, rfl⟩ := CaseRun.exists_of_image? found
    have bound := above run listed
    rw [form, List.mem_singleton]
    intro same
    have code : (Char.ofNat (c.toNat + run.offset).toNat).toNat = 60 := by rw [← same]; rfl
    rw [Char.toNat_ofNat] at code
    split at code
    · omega
    · cases code
  · rw [form, List.mem_singleton]
    exact Ne.symm other

end Text

theorem not_mem_pascalCase {name : Text} (plain : '<' ∉ name) : '<' ∉ pascalCase name := by
  have inner {p : Char → Bool} {t : Text} (plain : '<' ∉ t) : ∀ piece ∈ Text.pieces p t, '<' ∉ piece := by
    induction t with
    | nil => simp [Text.pieces]
    | cons c t ih =>
      rw [List.mem_cons, not_or] at plain
      have others := ih plain.2
      rw [Text.pieces]
      -- A letter that separates begins a piece, and any other goes in front of the first piece.
      split
      · exact List.forall_mem_cons.mpr ⟨by simp, others⟩
      · split
        next => simpa using plain.1
        next piece more same =>
          rw [same] at others
          obtain ⟨first, others⟩ := List.forall_mem_cons.mp others
          exact List.forall_mem_cons.mpr ⟨by simp [plain.1, first], others⟩
  intro member
  obtain ⟨piece, listed, member⟩ := List.mem_flatMap.mp member
  have plain := inner plain piece listed
  cases piece with
  | nil => cases member
  | cons c rest =>
    rw [List.mem_cons, not_or] at plain
    rcases List.mem_append.mp member with capital | rest
    · exact Text.not_mem_upperChar (Ne.symm plain.1) capital
    · exact plain.2 rest

namespace Descriptor

/-! ### Values that read back -/

/-- What an element can hold so that it reads back as it stands: no tag begins in it, and blanks stand
at neither end unless it is a single one. -/
structure IsValue (t : Text) : Prop where
  plain : '<' ∉ t
  inhabited : t ≠ []
  trimmed : Text.trim t = t ∨ ∃ c, t = [c]

theorem IsValue.of_trimmed {t : Text} (plain : '<' ∉ t) (inhabited : t ≠ [])
    (trimmed : Text.trim t = t) : IsValue t := ⟨plain, inhabited, .inl trimmed⟩

/-- What is read from a descriptor is such a value. -/
theorem isValue_of_value? {tag descriptor value : Text} (found : value? tag descriptor = some value) :
    IsValue value := by
  obtain ⟨t, here⟩ := exists_valueAt? found
  simp only [valueAt?, Option.bind_eq_bind, Option.bind_eq_some_iff, Option.some.injEq] at here
  obtain ⟨rest, _, _, _, last, _, same⟩ := here
  have plain := not_mem_of_value? found
  -- Where trimming leaves nothing, the last blank is the value.
  split at same
  next => exact ⟨plain, by simp [← same], .inr ⟨last, same.symm⟩⟩
  next some =>
    rw [← same] at plain ⊢
    exact .of_trimmed plain some (Text.trim_trim _)

theorem isValue_getD {tag descriptor default_ : Text} (value : IsValue default_) :
    IsValue ((value? tag descriptor).getD default_) := by
  cases found : value? tag descriptor with
  | none => exact value
  | some => exact isValue_of_value? found

/-- An element with a value, and what follows it. -/
def element (tag value rest : Text) : Text :=
  '<' :: tag ++ ['>'] ++ (value ++ ('<' :: '/' :: tag ++ ['>'] ++ rest))

theorem valueAt?_of_isValue (tag : Text) {t : Text} (value : IsValue t) (rest : Text) :
    valueAt? tag (element tag t rest) = some t := by
  rw [element, valueAt?_inhabited tag value.plain value.inhabited]
  rcases value.trimmed with same | ⟨c, rfl⟩
  · rw [same, if_neg value.inhabited]
  · -- A single character reads back, whether it is trimmed away or not.
    by_cases blank : Text.isBlank c = true
    · have gone : Text.trim [c] = [] := by simp [Text.trim, Text.trimRight, blank]
      rw [if_pos gone]
      rfl
    · have kept : Text.trim [c] = [c] := by simp [Text.trim, Text.trimRight, blank]
      rw [kept, if_neg value.inhabited]

/-! ### What nothing begins in -/

theorem without_of_skips {b : Block} {t : Text} (skips : b.Skips t) : without b t = t := by
  have whole := without_append skips []
  rwa [List.append_nil, without_nil, List.append_nil] at whole

theorem foldl_without_of_skips {t : Text} {blocks : List Block} (skips : ∀ b ∈ blocks, b.Skips t) :
    blocks.foldl (fun text b => without b text) t = t := by
  have whole := foldl_without_append skips []
  rwa [List.append_nil, foldl_without_nil, List.append_nil] at whole

/-- The section for what a module depends on. -/
def dependenciesBlock : Block := .attributed "dependencies"

/-- The section with these contents. -/
def dependenciesSection (inner : Text) : Text := dependenciesBlock.start ++ '>' :: (inner ++ dependenciesBlock.closing)

/-- The section is left out with its contents, if nothing that is left out before it begins in it. -/
theorem foldl_without_dependencies {before inner after : Text}
    (outside : ∀ b ∈ nestedSections, b.Skips (before ++ after))
    (before_ : ∀ b ∈ nestedSections, b.Skips before)
    (inside : ∀ b ∈ nestedSections.take 2, b.Skips (dependenciesSection inner))
    (after_ : ∀ b ∈ nestedSections, b.Skips after)
    (first : Avoids dependenciesBlock.closing inner) :
    nestedSections.foldl (fun text b => without b text)
        (before ++ (dependenciesSection inner ++ after)) = before ++ after := by
  have early (b : Block) (listed : b ∈ nestedSections.take 2) :
      b.Skips (before ++ (dependenciesSection inner ++ after)) := by
    have member : b ∈ nestedSections := List.mem_of_mem_take listed
    exact (before_ b member).append ((inside b listed).append (after_ b member))
  have listed : dependenciesBlock ∈ nestedSections := by decide
  have opened : dependenciesBlock.afterOpening? (dependenciesSection inner ++ after) =
      some (inner ++ (dependenciesBlock.closing ++ after)) := by
    rw [dependenciesSection, List.append_assoc, List.cons_append, List.append_assoc]
    rfl
  have cut : dependenciesBlock.cut? (dependenciesSection inner ++ after) = some ([], after) := by
    apply Block.cut?_of_opening inner opened
    · simp [dependenciesSection, dependenciesBlock, Block.start]
    · exact fun earlier later split some => first earlier later split some _
  -- The dependencies are the third of the sections. The ones before leave the text, and the
  -- ones behind find nothing in it.
  have order : nestedSections = nestedSections.take 2 ++ dependenciesBlock :: nestedSections.drop 3 :=
    rfl
  rw [order, List.foldl_append, foldl_without_of_skips early, List.foldl_cons,
    without_append (before_ _ listed), without_of_cut? cut, List.nil_append, without_of_skips (after_ _ listed)]
  apply foldl_without_of_skips
  exact fun b later => outside b (List.mem_of_mem_drop later)

namespace Front

variable {f : Front}

/-! ### Values of a descriptor -/

theorem take_middle (before middle after : Text) : (middle ++ after).take
    ((before ++ (middle ++ after)).length - before.length - after.length) = middle := by
  have size : (before ++ (middle ++ after)).length - before.length - after.length = middle.length := by
    simp only [List.length_append]
    omega
  rw [size, List.take_left]

theorem parent?_text (plain : f.Plain) (rest : Text) :
    parent? (f.text rest) = some ("<parent>".toList ++ (f.reference ++ "</parent>".toList)) := by
  unfold parent?
  simp only [without_comment_text plain, cut?_parentBlock_text plain, Option.map_some]
  generalize without .comment rest = rest
  have whole : f.text rest = opening ++ (("<parent>".toList ++ (f.reference ++ "</parent>".toList)) ++
      (f.identity ++ (packaged ++ rest))) := by simp only [text, List.append_assoc]
  rw [whole, List.drop_left, take_middle]

/-- The parent reference, element by element. -/
theorem reference_eq (f : Front) (rest : Text) : f.reference ++ rest =
    "\n        ".toList ++ element "groupId" f.group
      ("\n        ".toList ++ element "artifactId" f.parent
        ("\n        ".toList ++ element "version" f.version ("\n    ".toList ++ rest))) := by
  have opened : "\n        <groupId>".toList = "\n        ".toList ++ '<' :: ("groupId".toList ++ ['>']) := by
    decide
  have named : "</groupId>\n        <artifactId>".toList = '<' :: '/' :: ("groupId".toList ++
      '>' :: ("\n        ".toList ++ '<' :: ("artifactId".toList ++ ['>']))) := by decide
  have dated : "</artifactId>\n        <version>".toList = '<' :: '/' :: ("artifactId".toList ++
      '>' :: ("\n        ".toList ++ '<' :: ("version".toList ++ ['>']))) := by decide
  have closed : "</version>\n    ".toList = '<' :: '/' :: ("version".toList ++
      '>' :: "\n    ".toList) := by decide
  unfold reference element
  simp only [List.append_assoc, List.cons_append, List.nil_append, opened, named, dated, closed]

/-- The tags of an element with its value between them. -/
def elementParts (tag value : Text) : List Text :=
  ['<' :: tag ++ ['>'], value, '<' :: '/' :: tag ++ ['>']]

theorem element_eq (tag value rest : Text) :
    element tag value rest = (elementParts tag value).flatten ++ rest := by
  simp [element, elementParts]

/-- Nothing in the parts is taken for an element of this name. -/
def Foreign (tag : Text) (parts : List Text) : Prop :=
  ∀ part ∈ parts, '<' ∉ part ∨ avoids ('<' :: tag ++ ['>']) part = true

theorem Foreign.nil {tag : Text} : Foreign tag [] := nofun

theorem Foreign.checked {tag part : Text} {parts : List Text}
    (checked : avoids ('<' :: tag ++ ['>']) part = true) (others : Foreign tag parts) :
    Foreign tag (part :: parts) := List.forall_mem_cons.mpr ⟨.inr checked, others⟩

theorem Foreign.plain {tag part : Text} {parts : List Text} (plain : '<' ∉ part)
    (others : Foreign tag parts) : Foreign tag (part :: parts) :=
  List.forall_mem_cons.mpr ⟨.inl plain, others⟩

theorem Foreign.append {tag : Text} {parts more : List Text} (first : Foreign tag parts)
    (second : Foreign tag more) : Foreign tag (parts ++ more) :=
  List.forall_mem_append.mpr ⟨first, second⟩

theorem Foreign.element {tag other : Text} {value : Text} (plain : '<' ∉ value)
    (checked : avoids ('<' :: tag ++ ['>']) ('<' :: other ++ ['>']) = true ∧
      avoids ('<' :: tag ++ ['>']) ('<' :: '/' :: other ++ ['>']) = true) :
    Foreign tag (elementParts other value) :=
  .checked checked.1 (.plain plain (.checked checked.2 .nil))

/-- No value that is read starts in what is fixed. -/
theorem avoids_fixed : ∀ tag ∈ ["groupId".toList, "artifactId", "version"],
    avoids ('<' :: tag ++ ['>']) opening = true ∧ avoids ('<' :: tag ++ ['>']) "<parent>" = true ∧
      avoids ('<' :: tag ++ ['>']) packaged = true := by decide +kernel

theorem Foreign.nowhere {tag : Text} (pointless : '.' ∉ tag) {parts : List Text}
    (foreign : Foreign tag parts) : Nowhere (fun t => (valueAt? tag t).isSome) parts.flatten := by
  have avoids : Avoids (Block.element tag).start parts.flatten := avoids_flatten rfl foreign
  exact avoids.skips.valueAt? pointless

/-- The value of the first element of a name is found behind parts without such an element. -/
theorem firstSuffix?_element {tag : Text} (pointless : '.' ∉ tag) {parts : List Text}
    (foreign : Foreign tag parts) {t : Text} (value : IsValue t) (rest : Text) :
    Text.firstSuffix? (valueAt? tag) (parts.flatten ++ element tag t rest) = some t := by
  rw [firstSuffix?_append (foreign.nowhere pointless)]
  exact Text.firstSuffix?_of_here (valueAt?_of_isValue tag value rest)

theorem firstSuffix?_foreign {tag : Text} (pointless : '.' ∉ tag) {parts : List Text}
    (foreign : Foreign tag parts) : Text.firstSuffix? (valueAt? tag) parts.flatten = none := by
  have whole := firstSuffix?_append (foreign.nowhere pointless) []
  rw [List.append_nil] at whole
  exact whole

/-- What is filled in reads back. -/
structure Readable (f : Front) : Prop where
  group : IsValue f.group
  parent : IsValue f.parent
  version : IsValue f.version
  name : IsValue f.name

theorem Readable.plain (readable : f.Readable) : f.Plain where
  group := readable.group.plain
  parent := readable.parent.plain
  version := readable.version.plain
  name := readable.name.plain

section

variable (readable : f.Readable)
include readable

omit readable in
theorem reference_group (f : Front) : "<parent>".toList ++ (f.reference ++ "</parent>".toList) =
    ["<parent>".toList, "\n        ".toList].flatten ++ element "groupId" f.group
      ("\n        ".toList ++ element "artifactId" f.parent
        ("\n        ".toList ++ element "version" f.version
          ("\n    ".toList ++ "</parent>".toList))) := by
  rw [reference_eq]
  simp only [List.flatten_cons, List.flatten_nil, List.append_nil, List.append_assoc]

theorem firstSuffix?_group : Text.firstSuffix? (valueAt? "groupId")
    ("<parent>".toList ++ (f.reference ++ "</parent>".toList)) = some f.group := by
  have foreign : Foreign "groupId" ["<parent>".toList, "\n        ".toList] :=
    .checked (avoids_fixed _ (by simp)).2.1 (.plain (by decide) .nil)
  rw [reference_group]
  exact firstSuffix?_element (by decide) foreign readable.group _

theorem firstSuffix?_parent : Text.firstSuffix? (valueAt? "artifactId")
    ("<parent>".toList ++ (f.reference ++ "</parent>".toList)) = some f.parent := by
  have foreign : Foreign "artifactId" (["<parent>".toList, "\n        ".toList] ++
      (elementParts "groupId" f.group ++ ["\n        ".toList])) :=
    .append (.checked (avoids_fixed _ (by simp)).2.1 (.plain (by decide) .nil))
      (.append (.element readable.group.plain (by decide)) (.plain (by decide) .nil))
  rw [reference_group, element_eq]
  have found := firstSuffix?_element (by decide) foreign readable.parent
    ("\n        ".toList ++ element "version" f.version ("\n    ".toList ++ "</parent>".toList))
  simpa only [List.flatten_append, List.append_assoc, List.flatten_cons, List.flatten_nil,
    List.append_nil] using found

theorem firstSuffix?_version : Text.firstSuffix? (valueAt? "version")
    ("<parent>".toList ++ (f.reference ++ "</parent>".toList)) = some f.version := by
  have foreign : Foreign "version" (["<parent>".toList, "\n        ".toList] ++
      (elementParts "groupId" f.group ++ (["\n        ".toList] ++
        (elementParts "artifactId" f.parent ++ ["\n        ".toList])))) :=
    .append (.checked (avoids_fixed _ (by simp)).2.1 (.plain (by decide) .nil))
      (.append (.element readable.group.plain (by decide))
        (.append (.plain (by decide) .nil)
          (.append (.element readable.parent.plain (by decide)) (.plain (by decide) .nil))))
  rw [reference_group, element_eq, element_eq "artifactId"]
  have found := firstSuffix?_element (by decide) foreign readable.version
    ("\n    ".toList ++ "</parent>".toList)
  simpa only [List.flatten_append, List.append_assoc, List.flatten_cons, List.flatten_nil,
    List.append_nil] using found

/-! ### The own level of a descriptor -/

/-- The front without the parent reference, part by part. -/
def ownParts (f : Front) : List Text :=
  [opening, "\n\n    ".toList] ++ (elementParts "artifactId" f.name ++ ["\n    ".toList, packaged])

omit readable in
theorem own_eq (f : Front) : f.own = f.ownParts.flatten := by
  have opened : "\n\n    <artifactId>".toList =
      "\n\n    ".toList ++ '<' :: ("artifactId".toList ++ ['>']) := by decide
  have closed : "</artifactId>\n    ".toList =
      '<' :: '/' :: ("artifactId".toList ++ '>' :: "\n    ".toList) := by decide
  unfold own ownParts identity elementParts
  simp only [List.append_assoc, List.cons_append, List.nil_append, List.flatten_cons,
    List.flatten_nil, List.append_nil, opened, closed]

theorem foreign_ownParts (tag : Text) (read : tag ∈ ["groupId".toList, "artifactId", "version"])
    (other : avoids ('<' :: tag ++ ['>']) ('<' :: "artifactId" ++ ['>']) = true ∧
      avoids ('<' :: tag ++ ['>']) ('<' :: '/' :: "artifactId" ++ ['>']) = true) :
    Foreign tag f.ownParts := by
  obtain ⟨front, _, kind⟩ := avoids_fixed tag read
  exact .append (.checked front (.plain (by decide) .nil))
    (.append (.element readable.name.plain other) (.plain (by decide) (.checked kind .nil)))

section

variable {rest : Text} {after : List Text} (level : ownLevel (f.text rest) = f.own ++ after.flatten)
include level

/-- On its own level a descriptor has the name of its project. -/
theorem value?_name : value? "artifactId" (f.text rest) = some f.name := by
  have foreign : Foreign "artifactId" [opening, "\n\n    ".toList] :=
    .checked (avoids_fixed _ (by simp)).1 (.plain (by decide) .nil)
  have found := firstSuffix?_element (by decide) foreign readable.name
    (["\n    ".toList, packaged].flatten ++ after.flatten)
  rw [element_eq] at found
  have own : Text.firstSuffix? (valueAt? "artifactId") (ownLevel (f.text rest)) = some f.name := by
    rw [level, own_eq, ownParts]
    simpa only [List.flatten_append, List.append_assoc] using found
  rw [value?, own, Option.some_or]

/-- What does not stand on the own level is inherited. -/
theorem value?_inherited {tag : Text} (pointless : '.' ∉ tag)
    (foreign : Foreign tag (f.ownParts ++ after)) : value? tag (f.text rest) =
      Text.firstSuffix? (valueAt? tag) ("<parent>".toList ++ (f.reference ++ "</parent>".toList)) := by
  have own : Text.firstSuffix? (valueAt? tag) (ownLevel (f.text rest)) = none := by
    rw [level, own_eq, ← List.flatten_append]
    exact firstSuffix?_foreign pointless foreign
  rw [value?, own, Option.none_or, parent?_text readable.plain]
  rfl

theorem value?_group (foreign : Foreign "groupId" after) :
    value? "groupId" (f.text rest) = some f.group := by
  have own := foreign_ownParts readable "groupId" (by simp) (by decide)
  rw [value?_inherited readable level (by decide) (own.append foreign)]
  exact firstSuffix?_group readable

theorem value?_version (foreign : Foreign "version" after) :
    value? "version" (f.text rest) = some f.version := by
  have own := foreign_ownParts readable "version" (by simp) (by decide)
  rw [value?_inherited readable level (by decide) (own.append foreign)]
  exact firstSuffix?_version readable

end

end

/-! ### Roots -/

theorem startsEmptyPath_prefix {t : Text} (starts : startsEmptyPath t = true) :
    "<relativePath".toList <+: t := by
  rcases Bool.or_eq_true_iff.mp starts with short | long
  · obtain ⟨rest, dropped, _⟩ := Option.any_eq_true _ _ |>.mp short
    exact ⟨rest, (Text.dropStart?_eq_some.mp dropped).symm⟩
  · obtain ⟨rest, dropped, _⟩ := Option.any_eq_true _ _ |>.mp long
    exact ⟨'>' :: rest, (Text.dropStart?_eq_some.mp dropped).symm⟩

theorem avoids_path (plain : f.Plain) {rest : Text} (avoided : Avoids "<relativePath" rest) :
    Avoids "<relativePath" (f.text rest) := by
  let parts : List Text := [opening, "<parent>", "\n        <groupId>", f.group,
    "</groupId>\n        <artifactId>", f.parent, "</artifactId>\n        <version>", f.version,
    "</version>\n    ", "</parent>", "\n\n    <artifactId>", f.name, "</artifactId>\n    ", packaged]
  have whole : f.text rest = parts.flatten ++ rest := by
    unfold text reference identity
    simp only [parts, List.append_assoc, List.flatten_cons, List.flatten_nil, List.nil_append]
  rw [whole]
  refine Nowhere.append (avoids_flatten rfl ?_) avoided
  have literal : ∀ part ∈ ([opening, "<parent>", "\n        <groupId>",
      "</groupId>\n        <artifactId>", "</artifactId>\n        <version>",
      "</version>\n    ", "</parent>", "\n\n    <artifactId>", "</artifactId>\n    ",
      packaged] : List Text), avoids "<relativePath" part = true := by decide +kernel
  simp only [List.forall_mem_cons, List.not_mem_nil, false_implies, implies_true, and_true] at literal
  obtain ⟨h0, h1, h2, h3, h4, h5, h6, h7, h8, h9⟩ := literal
  simp only [parts, List.forall_mem_cons, List.not_mem_nil, false_implies, implies_true, and_true]
  exact ⟨.inr h0, .inr h1, .inr h2, .inl plain.group, .inr h3, .inl plain.parent, .inr h4,
    .inl plain.version, .inr h5, .inr h6, .inr h7, .inl plain.name, .inr h8, .inr h9⟩

/-- A project with a parent reference that is looked for in the tree is no root. -/
theorem isRoot_text (plain : f.Plain) {rest : Text} (comments : without .comment rest = rest)
    (avoided : Avoids "<relativePath" rest) : isRoot (f.text rest) = false := by
  have nowhere : Nowhere (fun t => (if startsEmptyPath t then some () else none).isSome)
      (f.text rest) := by
    intro early late split some more found
    apply avoids_path plain avoided early late split some more
    apply startsEmptyPath_prefix
    by_contra none
    simp [none] at found
  have none := firstSuffix?_append nowhere []
  rw [List.append_nil] at none
  unfold isRoot
  simp only [without_comment_text plain, comments, cut?_parentBlock_text plain, none]
  rfl

/-- The own level of a descriptor with nothing but its parent reference to leave out in front. -/
theorem ownLevel_text (plain : f.Plain) {rest : Text} (comments : without .comment rest = rest) :
    ownLevel (f.text rest) =
      f.own ++ nestedSections.foldl (fun text b => without b text) rest := by
  have own : opening ++ (f.identity ++ (packaged ++ rest)) = f.own ++ rest := by
    simp only [Front.own, List.append_assoc]
  unfold ownLevel
  simp only [without_comment_text plain, comments, cut?_parentBlock_text plain, own]
  exact foldl_without_append
    (fun b listed => (avoids_own plain (List.mem_cons_of_mem _ listed)).skips) rest

end Front

end Descriptor

namespace Scaffold

open Descriptor

/-! ### The back of a descriptor -/

/-- What stands behind the labels of a new module that depends on nothing. -/
def ending : List Text := ["</project>\n"]

/-- What stands behind the labels of a new module, but for the section of what it depends on. -/
def endingAround : List Text := ["\n    ", "\n", "</project>\n"]

/-- The module that an implementation depends on. -/
def dependencyParts (group component : Text) : List Text :=
  ["\n        <dependency>\n            <groupId>", group, "</groupId>\n            <artifactId>",
    moduleName component "api",
    "</artifactId>\n            <version>$\x7bproject.version\x7d</version>\n        </dependency>\n    "]

theorem dependencies_core (group component : Text) : dependencies group component "core" =
    "\n    ".toList ++ (dependenciesSection (dependencyParts group component).flatten ++
      "\n".toList) := by
  have opened : "\n    <dependencies>\n        <dependency>\n            <groupId>".toList =
      "\n    ".toList ++ '<' :: ("dependencies".toList ++
        '>' :: "\n        <dependency>\n            <groupId>".toList) := by decide +kernel
  have dated : "</artifactId>\n            <version>$\x7bproject.version\x7d</version>\n        </dependency>\n    ".toList =
      "</artifactId>\n            <version>$\x7bproject.version\x7d</version>\n".toList ++
        "        </dependency>\n    ".toList := by decide +kernel
  have closed : "        </dependency>\n    </dependencies>\n".toList =
      "        </dependency>\n    ".toList ++ '<' :: '/' :: ("dependencies".toList ++ ('>' :: "\n".toList)) := by
    decide +kernel
  unfold dependencies dependencyParts dependenciesSection dependenciesBlock Block.start Block.closing
  simp only [if_pos, List.append_assoc, List.cons_append, List.nil_append, List.flatten_cons,
    List.flatten_nil, opened, dated, closed]

/-- The words that are looked for behind the packaging. -/
def soughtBehind : List Text :=
  "<relativePath".toList :: "<groupId>".toList :: "<version>".toList :: Front.leftOut.map Block.start

theorem avoids_behind : ∀ word ∈ soughtBehind, ∀ t ∈ ["\n\n    <name>".toList,
    "</name>\n    <description>".toList, "</description>\n".toList, "\n    ".toList, "\n".toList,
    "</project>\n".toList], avoids word t = true := by decide +kernel

/-- The words that must not begin in the section of what a module depends on. -/
def soughtInside : List Text :=
  ["<relativePath", "<!--", "<profiles", "<dependencyManagement", "</dependencies>"]

theorem avoids_inside : ∀ word ∈ soughtInside,
    ∀ t ∈ ["\n        <dependency>\n            <groupId>".toList,
      "</groupId>\n            <artifactId>".toList,
      "</artifactId>\n            <version>$\x7bproject.version\x7d</version>\n        </dependency>\n    ".toList],
    avoids word t = true := by decide +kernel

section

variable {component layer : Text} (plain : '<' ∉ component) (role : layer = "api" ∨ layer = "core")
include plain role

theorem plain_labels : '<' ∉ pascalCase component ++ " " ++ Layer.label layer ∧
    '<' ∉ moduleDescription component layer := by
  have display (label : Text) (other : '<' ∉ label) : '<' ∉ pascalCase component ++ " " ++ label := by
    simp [not_mem_pascalCase plain, other]
  have description (before after : Text) (first : '<' ∉ before) (last : '<' ∉ after) :
      '<' ∉ before ++ component ++ after := by simp [plain, first, last]
  rcases role with rfl | rfl
  · exact ⟨display "API" (by decide), description _ _ (by decide) (by decide)⟩
  · exact ⟨display "Core" (by decide), description _ _ (by decide) (by decide)⟩

theorem avoids_labels {word : Text} (listed : word ∈ soughtBehind) :
    ∀ part ∈ labels component layer, '<' ∉ part ∨ avoids word part = true := by
  have literal := avoids_behind word listed
  obtain ⟨display, description⟩ := plain_labels plain role
  simp only [labels, List.forall_mem_cons, List.not_mem_nil, false_implies, implies_true, and_true]
  exact ⟨.inr (literal _ (by simp)), .inl display, .inr (literal _ (by simp)), .inl description,
    .inr (literal _ (by simp))⟩

/-- What is left of the back of a descriptor on its own level. -/
theorem avoids_ending {word : Text} (listed : word ∈ soughtBehind) :
    (∀ part ∈ labels component layer ++ ending, '<' ∉ part ∨ avoids word part = true) ∧
    ∀ part ∈ labels component layer ++ endingAround, '<' ∉ part ∨ avoids word part = true := by
  have literal := avoids_behind word listed
  have labels := avoids_labels plain role listed
  constructor
  · refine List.forall_mem_append.mpr ⟨labels, fun part member => .inr (literal part ?_)⟩
    exact List.mem_of_mem_drop (i := 5) member
  · refine List.forall_mem_append.mpr ⟨labels, fun part member => .inr (literal part ?_)⟩
    exact List.mem_of_mem_drop (i := 3) member

end

theorem head?_of_soughtBehind : ∀ word ∈ soughtBehind, word.head? = some '<' := by decide

theorem avoids_dependencyParts {group component : Text} (plain : '<' ∉ group)
    (plain' : '<' ∉ component) {word : Text} (listed : word ∈ soughtInside) :
    Avoids word (dependencyParts group component).flatten := by
  have literal := avoids_inside word listed
  have tag : ∀ word ∈ soughtInside, word.head? = some '<' := by decide
  have named : '<' ∉ moduleName component "api" := by simp [moduleName, plain']
  apply avoids_flatten (tag word listed)
  simp only [dependencyParts, List.forall_mem_cons, List.not_mem_nil, false_implies, implies_true,
    and_true]
  exact ⟨.inr (literal _ (by simp)), .inl plain, .inr (literal _ (by simp)), .inl named,
    .inr (literal _ (by simp))⟩

theorem avoids_section {group component : Text} (plain : '<' ∉ group) (plain' : '<' ∉ component)
    {word : Text} (listed : word ∈ soughtInside.take 4) :
    Avoids word (dependenciesSection (dependencyParts group component).flatten) := by
  have tags : ∀ word ∈ soughtInside.take 4, avoids word "<dependencies>" = true ∧
      avoids word "</dependencies>" = true := by decide
  obtain ⟨opening, closing⟩ := tags word listed
  have whole : dependenciesSection (dependencyParts group component).flatten =
      "<dependencies>".toList ++ ((dependencyParts group component).flatten ++
        "</dependencies>".toList) := rfl
  rw [whole]
  exact (avoids_sound opening).append ((avoids_dependencyParts plain plain'
    (List.mem_of_mem_take listed)).append (avoids_sound closing))

/-- What stands behind the packaging in a descriptor, and what is left of it on its own level: nothing
in it is taken for a value of the descriptor. -/
structure Behind (rest : Text) (after : List Text) : Prop where
  comments : without .comment rest = rest
  path : Avoids "<relativePath" rest
  level : nestedSections.foldl (fun text b => without b text) rest = after.flatten
  group : Front.Foreign "groupId" after
  version : Front.Foreign "version" after

section

variable {component : Text} (plain : '<' ∉ component)
include plain

theorem behind_api (group : Text) :
    Behind ((labels component "api").flatten ++ (dependencies group component "api" ++ "</project>\n"))
      (labels component "api" ++ ending) := by
  have parts {word : Text} (listed : word ∈ soughtBehind) :=
    (avoids_ending plain (.inl rfl) listed).1
  have avoided {word : Text} (listed : word ∈ soughtBehind) :
      Avoids word (labels component "api" ++ ending).flatten :=
    avoids_flatten (head?_of_soughtBehind word listed) (parts listed)
  have skipped {b : Block} (listed : b ∈ Front.leftOut) :
      b.Skips (labels component "api" ++ ending).flatten :=
    Avoids.skips (avoided (by simp [soughtBehind, List.mem_map_of_mem listed]))
  have whole : (labels component "api").flatten ++
      (dependencies group component "api" ++ "</project>\n".toList) =
        (labels component "api" ++ ending).flatten := by
    have none : dependencies group component "api" = [] := rfl
    simp only [none, ending, List.flatten_append, List.flatten_cons, List.flatten_nil, List.nil_append,
      List.append_nil]
  -- Joined to one text, each field says of a sought word that it is nowhere in it.
  rw [whole]
  constructor
  · exact without_of_skips (skipped List.mem_cons_self)
  · exact avoided (by simp [soughtBehind])
  · exact foldl_without_of_skips fun b listed => skipped (List.mem_cons_of_mem _ listed)
  · exact parts (by decide)
  · exact parts (by decide)

theorem behind_core {group : Text} (plain' : '<' ∉ group) :
    Behind ((labels component "core").flatten ++ (dependencies group component "core" ++ "</project>\n"))
      (labels component "core" ++ endingAround) := by
  have parts {word : Text} (listed : word ∈ soughtBehind) :=
    (avoids_ending plain (.inr rfl) listed).2
  -- The section of dependencies stands between the labels and the end; no tag sought opens on
  -- either side.
  let before : List Text := labels component "core" ++ ["\n    ".toList]
  let after : List Text := ["\n", "</project>\n"]
  have around : labels component "core" ++ endingAround = before ++ after := by
    simp only [before, after, endingAround, List.append_assoc, List.singleton_append]
  rw [around] at parts ⊢
  have avoided {word : Text} (listed : word ∈ soughtBehind) :
      Avoids word before.flatten ∧ Avoids word after.flatten := by
    obtain ⟨first, second⟩ := List.forall_mem_append.mp (parts listed)
    have tag := head?_of_soughtBehind word listed
    exact ⟨avoids_flatten tag first, avoids_flatten tag second⟩
  have skipped {b : Block} (listed : b ∈ Front.leftOut) : b.Skips before.flatten ∧ b.Skips after.flatten := by
    have sought : b.start ∈ soughtBehind := by simp [soughtBehind, List.mem_map_of_mem listed]
    have both := avoided sought
    exact ⟨both.1.skips, both.2.skips⟩
  have whole : (labels component "core").flatten ++
      (dependencies group component "core" ++ "</project>\n".toList) =
        before.flatten ++ (dependenciesSection (dependencyParts group component).flatten ++
          after.flatten) := by
    simp only [dependencies_core, before, after, List.flatten_append, List.flatten_cons,
      List.flatten_nil, List.append_assoc, List.append_nil]
  have inside {word : Text} (listed : word ∈ soughtInside.take 4) :=
    avoids_section plain' plain listed
  rw [whole]
  constructor
  · have listed : Block.comment ∈ Front.leftOut := List.mem_cons_self
    have comment : Block.comment.Skips (dependenciesSection (dependencyParts group component).flatten) :=
      (inside (by decide)).skips
    exact without_of_skips ((skipped listed).1.append (comment.append (skipped listed).2))
  · have sought : "<relativePath".toList ∈ soughtBehind := by simp [soughtBehind]
    have outside := avoided sought
    exact outside.1.append ((inside (by decide)).append outside.2)
  · have split : (before ++ after).flatten = before.flatten ++ after.flatten := List.flatten_append
    rw [split]
    have listed {b : Block} (member : b ∈ nestedSections) := skipped (List.mem_cons_of_mem _ member)
    apply foldl_without_dependencies
    · exact fun b member => (listed member).1.append (listed member).2
    · exact fun b member => (listed member).1
    · have sections : ∀ b ∈ nestedSections.take 2, b.start ∈ soughtInside.take 4 := by decide
      exact fun b member => (inside (sections b member)).skips
    · exact fun b member => (listed member).2
    · exact avoids_dependencyParts plain' plain (by decide)
  · exact parts (by decide)
  · exact parts (by decide)

end

theorem readable_front (parent : Text) {directory name : Text} (dir : IsValue directory)
    (module : IsValue name) : (front parent directory name).Readable where
  group := isValue_getD ⟨by decide, by decide, .inl (by decide)⟩
  parent := isValue_getD dir
  version := isValue_getD ⟨by decide, by decide, .inl (by decide)⟩
  name := module

/-- A descriptor says what it was filled with: the name is its own, the group and the version are
those of the parent reference, in which the parent goes by its name. It is packaged as a library and is
no root. -/
structure ReadsBack (f : Front) (own : Text) : Prop where
  name : value? "artifactId" own = some f.name
  packaged : packaging own = "jar"
  library : isAggregator own = false
  inherits : isRoot own = false
  group : value? "groupId" own = some f.group
  version : value? "version" own = some f.version
  parent : (parent? own).bind (Text.firstSuffix? (valueAt? "artifactId")) = some f.parent

theorem Behind.readsBack {f : Front} (readable : f.Readable) {rest : Text} {after : List Text}
    (behind : Behind rest after) : ReadsBack f (f.text rest) := by
  have level := Front.ownLevel_text readable.plain behind.comments
  rw [behind.level] at level
  have packaged := Front.packaging_text readable.plain rest
  constructor
  · exact Front.value?_name readable level
  · exact packaged
  · rw [isAggregator, packaged]
    decide
  · exact Front.isRoot_text readable.plain behind.comments behind.path
  · exact Front.value?_group readable level behind.group
  · exact Front.value?_version readable level behind.version
  · rw [Front.parent?_text readable.plain, Option.bind_some]
    exact Front.firstSuffix?_parent readable

/-- The descriptor of a new interface or implementation reads back: it has the name of the module, and
its group, its version and the name of its parent are those of the descriptor above it, or else the
defaults (`front`). The module that an implementation depends on is not taken for any of these. -/
theorem descriptor_read_back (parent : Text) {directory name component layer : Text}
    (role : layer = "api" ∨ layer = "core") (dir : IsValue directory) (module : IsValue name)
    (plain : '<' ∉ component) :
    ReadsBack (front parent directory name) (descriptor parent directory name component layer) := by
  have readable := readable_front parent dir module
  rw [descriptor_eq]
  rcases role with rfl | rfl
  · exact (behind_api plain _).readsBack readable
  · exact (behind_core plain readable.plain.group).readsBack readable

/-- An implementation below a project that has an artifact identifier only. -/
theorem descriptor_read_back_core :
    ReadsBack (front "<artifactId>shop</artifactId>" "shop-parent" "shop-core")
      (descriptor "<artifactId>shop</artifactId>" "shop-parent" "shop-core" "shop" "core") :=
  descriptor_read_back _ (.inr rfl) (.of_trimmed (by decide) (by decide) (by decide))
    (.of_trimmed (by decide) (by decide) (by decide)) (by decide)

end Scaffold

end Layering
