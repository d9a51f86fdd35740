import Layering.Proofs.Layouts

/-!
# Reconciling imports

The readers of lines find in a layout the declarations that it is made of, and nothing else. So imports
are reconciled line by line, and the outline changes in its imports only (`outline_reconcileImports`).
Where a declaration shares its line with the import of a core class, it goes with that
(`declaration_lost_with_line`).
-/

namespace Layering

namespace Text

/-- Where no line is found, nothing is found at the start of any line. -/
theorem atFirstLine?_eq_none {α : Type} {find : Text → Option α} {atStart : Bool} {t before after : Text}
    (none : atFirstLine? find atStart t = none) (split : t = before ++ after)
    (start : before = [] ∧ atStart = true ∨ before.getLast? = some '\n') : find after = .none := by
  induction t generalizing atStart before with
  | nil =>
    obtain ⟨rfl, rfl⟩ := List.append_eq_nil_iff.mp split.symm
    rcases start with ⟨_, rfl⟩ | last
    · simpa [atFirstLine?] using none
    · cases last
  | cons c rest ih =>
    unfold atFirstLine? at none
    cases before with
    | nil =>
      rcases start with ⟨_, rfl⟩ | last
      · rw [← split.trans (List.nil_append after)]
        cases here : find (c :: rest) with
        | none => rfl
        | some found => simp [here] at none
      · cases last
    | cons d before =>
      obtain ⟨rfl, tail⟩ := List.cons.inj split
      have later : atFirstLine? find (c = '\n') rest = .none := by
        split at none
        · cases none
        · exact Option.map_eq_none_iff.mp none
      refine ih later tail ?_
      rcases start with ⟨empty, _⟩ | last
      · cases empty
      · cases before with
        | nil => exact .inl ⟨rfl, by simpa using last⟩
        | cons e before => exact .inr (by simpa [List.getLast?_cons] using last)

end Text

namespace Java

/-! ### Lines that start with a keyword -/

/-- Whether a line starts with a keyword depends on that line only. -/
theorem afterKeyword?_line {keyword : Text} (single : '\n' ∉ keyword) (line rest : Text) :
    (afterKeyword? keyword (line ++ '\n' :: rest)).isSome =
      (afterKeyword? keyword (line ++ ['\n'])).isSome := by
  have after (rest : Text) : (line ++ '\n' :: rest).dropWhile (fun c => c = ' ' || c = '\t') =
      line.dropWhile (fun c => c = ' ' || c = '\t') ++ '\n' :: rest :=
    Text.dropWhile_append_cons rfl line rest
  unfold afterKeyword?
  rw [after, after, Text.dropStart?_append_cons single, Text.dropStart?_append_cons single]
  cases Text.dropStart? keyword (line.dropWhile fun c => c = ' ' || c = '\t') with
  | none => rfl
  | some left =>
    simp only [Option.map_some, Option.bind_some]
    unfold Text.dropBlanks?
    cases left with
    | nil => cases blank : Text.isBlank '\n' <;> simp [blank]
    | cons c left => cases blank : Text.isBlank c <;> simp [blank]

theorem Quiet.none {t before after : Text} (quiet : Quiet t) {keyword : Text}
    (known : keyword = "import".toList ∨ keyword = "package".toList) (split : t = before ++ after)
    (start : Text.LineStart before) : afterKeyword? keyword after = none := by
  have start : before = [] ∧ true = true ∨ before.getLast? = some '\n' := start.imp (⟨·, rfl⟩) id
  rcases known with rfl | rfl
  · exact Text.atFirstLine?_eq_none quiet.1 split start
  · exact Text.atFirstLine?_eq_none quiet.2 split start

/-- Two texts are split alike where a run of characters ends. -/
theorem append_unique {p : Char → Bool} {x x' y y' : Text} (all : ∀ c ∈ x, p c = true)
    (all' : ∀ c ∈ x', p c = true) (stop : ∀ c, y.head? = some c → p c = false)
    (stop' : ∀ c, y'.head? = some c → p c = false) (same : x ++ y = x' ++ y') : x = x' ∧ y = y' := by
  have front : x = x' := by
    rw [← (takeWhile_append_of_stop all stop).1, same, (takeWhile_append_of_stop all' stop').1]
  subst front
  exact ⟨rfl, List.append_cancel_left same⟩

namespace Directive

variable {d : Directive}

theorem Proper.known (proper : d.Proper) :
    d.keyword = "import".toList ∨ d.keyword = "package".toList := by
  rcases proper.keyword with ⟨same, _⟩ | ⟨same, _⟩
  · exact .inl same
  · exact .inr same

theorem text_append (d : Directive) (ahead : Text) : d.text ++ ahead =
    d.indent ++ (d.keyword ++ (d.gap ++ (d.subject ++ (d.comment ++ '\n' :: ahead)))) := by
  simp [text, line]

/-- The subject of a declaration starts with a letter. -/
theorem Proper.subject_head (proper : d.Proper) (ahead : Text) :
    ∀ c, (d.subject ++ ahead).head? = some c → Text.isBlank c = false := by
  intro c head
  rcases proper.static with none | ⟨gap, same, _⟩
  · obtain ⟨inhabited, plain⟩ := proper.imported.plain
    obtain ⟨b, name, split⟩ := List.exists_cons_of_ne_nil inhabited
    rw [subject, none, split] at head
    cases head
    exact (plain _ (split ▸ List.mem_cons_self)).1
  · rw [subject, same] at head
    cases head
    decide

/-- A line is found by its own keyword. -/
theorem Proper.afterKeyword? (proper : d.Proper) {keyword : Text}
    (known : keyword = "import".toList ∨ keyword = "package".toList) (ahead : Text) :
    Java.afterKeyword? keyword (d.text ++ ahead) =
      if d.keyword = keyword then some (d.subject ++ (d.comment ++ '\n' :: ahead)) else none := by
  have indent (rest : Text) : (d.indent ++ (d.keyword ++ rest)).dropWhile
      (fun c => c = ' ' || c = '\t') = d.keyword ++ rest := by
    rw [List.dropWhile_append_of_pos fun c member => by simpa using proper.indent c member]
    rcases proper.known with same | same <;> rw [same] <;> rfl
  unfold Java.afterKeyword?
  rw [text_append, indent]
  split
  next same =>
    rw [same, Text.dropStart?_eq_some.mpr rfl, Option.bind_some]
    -- The blanks end where the subject begins.
    obtain ⟨b, gap, split⟩ := List.exists_cons_of_ne_nil proper.gap.1
    have blank := proper.gap.2
    unfold Text.dropBlanks?
    rw [List.dropWhile_append_of_pos blank, if_pos ?_]
    · generalize d.comment ++ '\n' :: ahead = rest
      have head := proper.subject_head rest
      cases subject : d.subject ++ rest with
      | nil => rfl
      | cons c more => rw [List.dropWhile_cons_of_neg (by simp [head c (by rw [subject]; rfl)])]
    · rw [split] at blank ⊢
      exact blank b List.mem_cons_self
  next other =>
    have never (rest : Text) : Text.dropStart? keyword (d.keyword ++ rest) = none := by
      rcases known with rfl | rfl
      · rcases proper.known with same | same
        · exact absurd same other
        · rw [same]
          rfl
      · rcases proper.known with same | same
        · rw [same]
          rfl
        · exact absurd same other
    rw [never]
    rfl

end Directive

/-! ### Lines of a layout -/

@[simp] theorem Entry.text_filler (text : Text) : (Entry.filler text).text = text := rfl

@[simp] theorem Entry.text_directive (d : Directive) : (Entry.directive d).text = d.text := rfl

@[simp] theorem Entry.lines_nil : Entry.lines [] = [] := rfl

@[simp] theorem Entry.lines_cons (e : Entry) (entries : List Entry) :
    Entry.lines (e :: entries) = e.text ++ Entry.lines entries :=
  List.flatMap_cons

@[simp] theorem Entry.lines_append (early late : List Entry) :
    Entry.lines (early ++ late) = Entry.lines early ++ Entry.lines late :=
  List.flatMap_append

theorem lineStart_append {x y : Text} (first : Text.LineStart x) (second : Text.LineStart y) :
    Text.LineStart (x ++ y) := by
  rcases second with rfl | last
  · rwa [List.append_nil]
  · exact .inr (by simp [List.getLast?_append, last])

theorem Entry.lineStart_lines {entries : List Entry} (proper : ∀ e ∈ entries, e.Proper) :
    Text.LineStart (Entry.lines entries) := by
  induction entries with
  | nil => exact .inl rfl
  | cons e entries ih =>
    obtain ⟨first, others⟩ := List.forall_mem_cons.mp proper
    refine lineStart_append ?_ (ih others)
    cases e with
    | filler text => exact first.1
    | directive d => exact .inr (by simp [Entry.text, Directive.text])

/-- In a layout, a line that starts with a keyword is the line of a declaration. -/
theorem exists_directive {entries : List Entry} (proper : ∀ e ∈ entries, e.Proper) {body : Text}
    (quiet : Quiet body) {keyword : Text}
    (known : keyword = "import".toList ∨ keyword = "package".toList) {before after : Text}
    (split : Entry.lines entries ++ body = before ++ after) (start : Text.LineStart before)
    (found : (afterKeyword? keyword after).isSome = true) :
    ∃ early d late, entries = early ++ .directive d :: late ∧ before = Entry.lines early ∧
      after = d.text ++ (Entry.lines late ++ body) ∧ d.keyword = keyword := by
  induction entries generalizing before with
  | nil =>
    rw [quiet.none known split start] at found
    cases found
  | cons e entries ih =>
    obtain ⟨first, others⟩ := List.forall_mem_cons.mp proper
    have later {tail : Text} (same : before = e.text ++ tail)
        (split : Entry.lines entries ++ body = tail ++ after) :
        ∃ early d late, e :: entries = early ++ .directive d :: late ∧ before = Entry.lines early ∧
          after = d.text ++ (Entry.lines late ++ body) ∧ d.keyword = keyword := by
      obtain ⟨early, d, late, rfl, here, rest⟩ :=
        ih others split (lineStart_of_append (same ▸ start))
      exact ⟨e :: early, d, late, rfl, by rw [same, here]; rfl, rest⟩
    have split : e.text ++ (Entry.lines entries ++ body) = before ++ after := by
      rw [← split]
      simp [Entry.lines]
    rcases List.append_eq_append_iff.mp split with ⟨tail, same, rest⟩ | ⟨left, same, rest⟩
    · exact later same rest
    · -- The line starts within the entry, unless nothing of that is left.
      rcases List.eq_nil_or_concat left with rfl | ⟨left, c, rfl⟩
      · have same : before = e.text ++ [] := by simpa using same.symm
        exact later same (by simpa using rest.symm)
      cases e with
      | filler text =>
        obtain ⟨whole, _, quiet⟩ := first
        have same : text = before ++ left.concat c := same
        have last : text.getLast? = some '\n' := by
          rcases whole with empty | last
          · simp [empty] at same
          · exact last
        obtain rfl : c = '\n' := by
          rw [same] at last
          simpa using last
        rw [rest, List.concat_eq_append, List.append_assoc, List.singleton_append,
          afterKeyword?_line (by rcases known with rfl | rfl <;> decide)] at found
        rw [quiet.none known (same.trans (by rw [List.concat_eq_append])) start] at found
        cases found
      | directive d =>
        have same : d.text = before ++ left.concat c := same
        rw [List.concat_eq_append, ← List.append_assoc] at same
        have line := (List.append_inj' same rfl).1
        obtain rfl : before = [] := by
          rcases start with empty | last
          · exact empty
          · refine absurd (line ▸ ?_) first.single
            exact List.mem_append_left _ (List.mem_of_getLast? last)
        have here : after = d.text ++ (Entry.lines entries ++ body) := split.symm
        rw [here, Directive.Proper.afterKeyword? first known] at found
        refine ⟨[], d, entries, rfl, rfl, here, ?_⟩
        by_contra other
        rw [if_neg other] at found
        cases found

/-! ### What is found on a line -/

theorem afterSemicolon?_eq_some {t rest : Text} : afterSemicolon? t = some rest ↔
    ∃ gap, t = gap ++ ';' :: rest ∧ ∀ c ∈ gap, Text.isBlank c = true := by
  constructor
  · intro found
    unfold afterSemicolon? at found
    split at found
    next same =>
      cases found
      exact ⟨t.takeWhile Text.isBlank, by rw [← same, List.takeWhile_append_dropWhile],
        fun _ => List.mem_takeWhile_imp⟩
    next => cases found
  · rintro ⟨gap, rfl, blank⟩
    unfold afterSemicolon?
    rw [List.dropWhile_append_of_pos blank, List.dropWhile_cons_of_neg (by simp [isBlank_marks.1])]
    rfl

/-- The character may stand in a name. -/
def isPlain (c : Char) : Bool := !Text.isBlank c && c ≠ ';'

theorem isPlain_iff {c : Char} : isPlain c = true ↔ Text.isBlank c = false ∧ c ≠ ';' := by
  simp [isPlain]

/-- A word ends where blanks or a semicolon follow. -/
theorem isPlain_head {gap rest : Text} (blank : ∀ c ∈ gap, Text.isBlank c = true) :
    ∀ c, (gap ++ ';' :: rest).head? = some c → isPlain c = false := by
  intro c head
  cases gap with
  | nil =>
    cases head
    rfl
  | cons b gap =>
    cases head
    simp [isPlain, blank c List.mem_cons_self]

theorem isPlain_of_isQualifiedPart {c : Char} (part : isQualifiedPart c = true) :
    isPlain c = true := by
  refine isPlain_iff.mpr ⟨?_, ?_⟩
  · have point : Text.isBlank '.' = false := by decide
    rw [Bool.eq_false_iff]
    intro blank
    rcases Bool.or_eq_true_iff.mp part with word | same
    · cases word.symm.trans (Text.isWordChar_of_isBlank blank)
    · rw [of_decide_eq_true same] at blank
      cases point.symm.trans blank
  · rintro rfl
    cases isQualifiedPart_marks.1.symm.trans part

theorem isQualifiedPart_head {gap t : Text} (blank : ∀ c ∈ gap, Text.isBlank c = true) :
    ∀ c, (gap ++ ';' :: t).head? = some c → isQualifiedPart c = false := by
  intro c head
  rw [Bool.eq_false_iff]
  intro part
  cases (isPlain_of_isQualifiedPart part).symm.trans (isPlain_head blank c head)

/-- What follows the import of a type, or of its whole package, at the front of a text. -/
def importLine? (type t : Text) : Option Text :=
  (afterKeyword? "import" t).bind fun rest =>
    ((Text.dropStart? type rest).bind afterSemicolon?).or
      ((Text.dropStart? (TypeMapping.packageName type ++ ".*") rest).bind afterSemicolon?)

theorem importsType_eq (type source : Text) :
    importsType type source = (Text.atFirstLine? (importLine? type) true source).isSome := rfl

/-- What is read after a keyword starts with it. -/
theorem isSome_of_bind {α : Type} {keyword t : Text} {next : Text → Option α} {a : α}
    (found : (afterKeyword? keyword t).bind next = some a) : (afterKeyword? keyword t).isSome = true := by
  obtain ⟨rest, start, _⟩ := Option.bind_eq_some_iff.mp found
  rw [start]
  rfl

/-- The name is that of the core class, as far as the mapping tells. -/
def IsCoreImport (mapping : TypeMapping) (name : Text) : Prop :=
  if mapping.core.contains '.' then name = mapping.core
  else ∃ package, package ≠ [] ∧ name = package ++ '.' :: mapping.coreName

namespace Directive

variable {d : Directive}

theorem Proper.plain (proper : d.Proper) : d.name ≠ [] ∧ ∀ c ∈ d.name, isPlain c = true :=
  ⟨proper.imported.plain.1, fun c member => isPlain_iff.mpr (proper.imported.plain.2 c member)⟩

/-- The first character of the name, as the head of what follows `static`. -/
theorem Proper.name_head (proper : d.Proper) (rest : Text) :
    ∀ c, (d.name ++ rest).head? = some c → isPlain c = true := by
  obtain ⟨inhabited, plain⟩ := proper.plain
  obtain ⟨b, more, split⟩ := List.exists_cons_of_ne_nil inhabited
  intro c first
  rw [split] at first
  cases first
  exact plain _ (split ▸ List.mem_cons_self)

/-- A word with a semicolon behind it makes up the subject of a declaration only if the word is its
whole name. -/
theorem Proper.subject_unique (proper : d.Proper) {word gap rest after : Text}
    (plain : ∀ c ∈ word, isPlain c = true) (blank : ∀ c ∈ gap, Text.isBlank c = true)
    (same : d.subject ++ rest = word ++ (gap ++ ';' :: after)) :
    d.static = [] ∧ d.name = word ∧ after = rest := by
  have semicolon (rest : Text) : ∀ c, (';' :: rest).head? = some c → Text.isBlank c = false := by
    rintro c ⟨⟩
    exact isBlank_marks.1
  have same : d.static ++ (d.name ++ (d.space ++ ';' :: rest)) = word ++ (gap ++ ';' :: after) := by
    rw [← same]
    simp [subject]
  rcases proper.static with none | ⟨gap', static, some_, blank'⟩
  · rw [none, List.nil_append] at same
    obtain ⟨whole, tail⟩ := append_unique proper.plain.2 plain (isPlain_head proper.space)
      (isPlain_head blank) same
    obtain ⟨_, ends⟩ := append_unique proper.space blank (semicolon _) (semicolon _) tail
    exact ⟨none, whole, ((List.cons.inj ends).2).symm⟩
  · -- The word would be `static`, and no name would stand before the semicolon.
    exfalso
    rw [static, List.append_assoc] at same
    have letters : ∀ c ∈ "static".toList, isPlain c = true := by
      have all : ['s', 't', 'a', 't', 'i', 'c'].all isPlain = true := by decide
      exact List.all_eq_true.mp all
    have head : ∀ c, (gap' ++ (d.name ++ (d.space ++ ';' :: rest))).head? = some c →
        isPlain c = false := by
      intro c first
      obtain ⟨b, gap', rfl⟩ := List.exists_cons_of_ne_nil some_
      cases first
      simp [isPlain, blank' c List.mem_cons_self]
    obtain ⟨_, tail⟩ := append_unique letters plain head (isPlain_head blank) same
    have name := proper.name_head (d.space ++ ';' :: rest)
    obtain ⟨_, ends⟩ := append_unique blank' blank (fun c first => (isPlain_iff.mp (name c first)).1)
      (semicolon _) tail
    rw [ends] at name
    exact absurd (name ';' rfl) (by decide)

theorem Proper.subject_iff (proper : d.Proper) {word : Text} (plain : ∀ c ∈ word, isPlain c = true)
    {rest after : Text} :
    (Text.dropStart? word (d.subject ++ rest)).bind Java.afterSemicolon? = some after ↔
      d.static = [] ∧ d.name = word ∧ after = rest := by
  rw [Option.bind_eq_some_iff]
  constructor
  · rintro ⟨left, start, found⟩
    obtain ⟨gap, rfl, blank⟩ := afterSemicolon?_eq_some.mp found
    exact proper.subject_unique plain blank (Text.dropStart?_eq_some.mp start)
  · rintro ⟨none, rfl, rfl⟩
    refine ⟨d.space ++ ';' :: after, ?_, afterSemicolon?_eq_some.mpr ⟨_, rfl, proper.space⟩⟩
    refine Text.dropStart?_eq_some.mpr ?_
    simp [subject, none]

theorem Proper.afterLine (proper : d.Proper) (ahead : Text) :
    Java.afterLine (d.comment ++ '\n' :: ahead) = ahead := by
  have single : '\n' ∉ d.comment := fun member =>
    proper.single (by simp [line, member])
  unfold Java.afterLine
  rw [List.dropWhile_append_of_pos fun c member => ?_]
  · rfl
  · refine decide_eq_true fun same => ?_
    exact single (same ▸ member)

/-- The readers of whole statements end with the line of a declaration. -/
theorem Proper.ends (proper : d.Proper) {read : Text → Option Text} (statement : Statement read)
    {ahead after : Text} (found : read (d.text ++ ahead) = some after) : after = ahead := by
  have blanks {t : Text} (blank : ∀ c ∈ t, Text.isBlank c = true) : ';' ∉ t := fun member => by
    cases isBlank_marks.1.symm.trans (blank _ member)
  have keyword : ';' ∉ d.keyword := by
    rcases proper.known with same | same <;> rw [same] <;> decide
  have static : ';' ∉ d.static := by
    rcases proper.static with none | ⟨gap, same, _, blank⟩
    · simp [none]
    · rw [same, List.mem_append, not_or]
      exact ⟨by decide, blanks blank⟩
  have indent : ';' ∉ d.indent := fun member => by simpa using proper.indent _ member
  have name : ';' ∉ d.name := fun member => absurd (proper.plain.2 _ member) (by decide)
  let head := d.indent ++ (d.keyword ++ (d.gap ++ (d.static ++ (d.name ++ d.space))))
  have free : ';' ∉ head := by
    simp [head, indent, keyword, static, name, blanks proper.gap.2, blanks proper.space]
  have split : d.text ++ ahead = head ++ ';' :: (d.comment ++ '\n' :: ahead) := by
    simp [text_append, subject, head]
  rw [split] at found
  rcases statement.append free with none | some
  · rw [none] at found
    cases found
  · rw [some, proper.afterLine] at found
    exact (Option.some.inj found).symm

theorem Proper.packageLine? (proper : d.Proper) (keyword : d.keyword = "package".toList)
    (ahead : Text) : Java.packageLine? (d.text ++ ahead) = some (d.name, ahead) := by
  rcases proper.keyword with ⟨same, _⟩ | ⟨_, none, _, qualified⟩
  · cases keyword.symm.trans same
  have subject : d.subject ++ (d.comment ++ '\n' :: ahead) =
      d.name ++ (d.space ++ ';' :: (d.comment ++ '\n' :: ahead)) := by
    simp [subject, none]
  obtain ⟨name, rest⟩ := takeWhile_append_of_stop qualified
    (isQualifiedPart_head (t := d.comment ++ '\n' :: ahead) proper.space)
  have semicolon : Java.afterSemicolon? (d.space ++ ';' :: (d.comment ++ '\n' :: ahead)) =
      some (d.comment ++ '\n' :: ahead) := afterSemicolon?_eq_some.mpr ⟨_, rfl, proper.space⟩
  unfold Java.packageLine? Java.afterStatement?
  rw [proper.afterKeyword? (.inr rfl), if_pos keyword, subject]
  simp only [Option.bind_eq_bind, Option.bind_some, name, rest, semicolon, Option.map_some,
    if_neg proper.plain.1]
  exact congrArg (fun after => some (d.name, after)) (proper.afterLine ahead)

theorem Proper.importLine?_isSome (proper : d.Proper) (keyword : d.keyword = "import".toList)
    {type : Text} (imported : Imported type)
    (whole : Imported (TypeMapping.packageName type ++ ".*")) (ahead : Text) :
    (Java.importLine? type (d.text ++ ahead)).isSome = true ↔
      d.static = [] ∧ (d.name = type ∨ d.name = TypeMapping.packageName type ++ ".*") := by
  have plain {name : Text} (imported : Imported name) : ∀ c ∈ name, isPlain c = true :=
    fun c member => isPlain_iff.mpr (imported.plain.2 c member)
  unfold Java.importLine?
  rw [proper.afterKeyword? (.inl rfl), if_pos keyword, Option.bind_some, Option.isSome_or,
    Bool.or_eq_true, Option.isSome_iff_exists, Option.isSome_iff_exists]
  simp only [proper.subject_iff (plain imported), proper.subject_iff (plain whole)]
  simp [and_or_left]

theorem afterStatement?_eq_some {t after : Text} (found : Java.afterStatement? t = some after) :
    ∃ rest, Java.afterSemicolon? t = some rest ∧ Java.afterLine rest = after :=
  Option.map_eq_some_iff.mp found

/-- The import line of a core class is that of its declaration. -/
theorem Proper.afterCoreImport? (proper : d.Proper) {mapping : TypeMapping}
    (core : ∀ c ∈ mapping.core, isPlain c = true) (keyword : d.keyword = "import".toList)
    {ahead after : Text} (found : Java.afterCoreImport? mapping (d.text ++ ahead) = some after) :
    after = ahead ∧ IsCoreImport mapping d.name := by
  unfold Java.afterCoreImport? at found
  rw [proper.afterKeyword? (.inl rfl), if_pos keyword] at found
  simp only [Option.bind_eq_bind, Option.bind_some] at found
  unfold IsCoreImport
  split at found
  next dotted =>
    obtain ⟨rest, start, ends⟩ := Option.bind_eq_some_iff.mp found
    obtain ⟨last, semicolon, rfl⟩ := afterStatement?_eq_some ends
    obtain ⟨_, name, rfl⟩ := (proper.subject_iff core).mp
      (Option.bind_eq_some_iff.mpr ⟨rest, start, semicolon⟩)
    exact ⟨proper.afterLine ahead, by rw [if_pos dotted, name]⟩
  next plain =>
    obtain ⟨n, member, found⟩ := List.exists_of_findSome?_eq_some found
    obtain ⟨rest, start, ends⟩ := Option.bind_eq_some_iff.mp found
    obtain ⟨last, semicolon, rfl⟩ := afterStatement?_eq_some ends
    obtain ⟨gap, rfl, blank⟩ := afterSemicolon?_eq_some.mp semicolon
    -- The package is the part of the subject that the search leaves before the name of the class.
    generalize whole : d.subject ++ (d.comment ++ '\n' :: ahead) = subject at start member
    obtain ⟨m, short, rfl⟩ := List.mem_map.mp member
    have short : m + 1 ≤ (subject.takeWhile isQualifiedPart).length := by
      simpa using short
    have package : subject.take (m + 1) = (subject.takeWhile isQualifiedPart).take (m + 1) := by
      conv_lhs => rw [← List.takeWhile_append_dropWhile (p := isQualifiedPart) (l := subject)]
      exact List.take_append_of_le_length short
    have split : d.subject ++ (d.comment ++ '\n' :: ahead) =
        (subject.take (m + 1) ++ '.' :: mapping.coreName) ++ (gap ++ ';' :: last) := by
      rw [whole, List.append_assoc, ← Text.dropStart?_eq_some.mp start, List.take_append_drop]
    have word : ∀ c ∈ subject.take (m + 1) ++ '.' :: mapping.coreName, isPlain c = true := by
      intro c there
      rcases List.mem_append.mp there with early | late
      · rw [package] at early
        exact isPlain_of_isQualifiedPart (List.mem_takeWhile_imp (List.mem_of_mem_take early))
      · rcases List.mem_cons.mp late with rfl | name
        · exact isPlain_of_isQualifiedPart (by simp [isQualifiedPart])
        · exact core c (mem_of_mem_simpleName name)
    obtain ⟨_, name, rfl⟩ := proper.subject_unique word blank split
    refine ⟨proper.afterLine ahead, ?_⟩
    rw [if_neg plain, name]
    refine ⟨_, fun empty => ?_, rfl⟩
    have length := congrArg List.length (package.symm.trans empty)
    simp only [List.length_take, List.length_nil] at length
    omega

end Directive

/-! ### What is found in a layout -/

theorem Entry.declared_append (keyword : Text) (early late : List Entry) :
    Entry.declared keyword (early ++ late) =
      Entry.declared keyword early ++ Entry.declared keyword late :=
  List.filterMap_append

theorem Entry.mem_declared {keyword name : Text} {entries : List Entry} :
    name ∈ Entry.declared keyword entries ↔
      ∃ d, .directive d ∈ entries ∧ d.keyword = keyword ∧ d.name = name := by
  unfold Entry.declared
  rw [List.mem_filterMap]
  constructor
  · rintro ⟨e, member, named⟩
    cases e with
    | filler text => cases named
    | directive d =>
      by_cases same : d.keyword = keyword
      · rw [Entry.declared?, if_pos same] at named
        exact ⟨d, member, same, Option.some.inj named⟩
      · rw [Entry.declared?, if_neg same] at named
        cases named
  · rintro ⟨d, member, rfl, rfl⟩
    exact ⟨_, member, if_pos rfl⟩

section

variable {entries : List Entry} (proper : ∀ e ∈ entries, e.Proper) {body : Text} (quiet : Quiet body)
  {mapping : TypeMapping}
include proper

/-- A search for lines does not pass over a declaration. -/
theorem ne_none_of_mem {α : Type} {find : Text → Option α} {d : Directive}
    (member : .directive d ∈ entries) (found : ∀ ahead, find (d.text ++ ahead) ≠ none) :
    Text.atFirstLine? find true (Entry.lines entries ++ body) ≠ none := by
  intro none
  obtain ⟨early, late, rfl⟩ := List.append_of_mem member
  have proper : ∀ e ∈ early, e.Proper := fun e member => proper e (List.mem_append_left _ member)
  have split : Entry.lines (early ++ .directive d :: late) ++ body =
      Entry.lines early ++ (d.text ++ (Entry.lines late ++ body)) := by
    simp [Entry.lines, Entry.text]
  refine found _ (Text.atFirstLine?_eq_none none split ?_)
  exact (Entry.lineStart_lines proper).imp (⟨·, rfl⟩) id

include quiet

/-- What is found at the start of a line stands on the line of a declaration. -/
theorem exists_of_atFirstLine? {α : Type} {find : Text → Option α} {keyword before : Text} {a : α}
    (known : keyword = "import".toList ∨ keyword = "package".toList)
    (starts : ∀ {t a}, find t = some a → (afterKeyword? keyword t).isSome = true)
    (found : Text.atFirstLine? find true (Entry.lines entries ++ body) = some (before, a)) :
    ∃ early d late, entries = early ++ .directive d :: late ∧ before = Entry.lines early ∧
      d.keyword = keyword ∧ d.Proper ∧ find (d.text ++ (Entry.lines late ++ body)) = some a := by
  obtain ⟨after, split, here⟩ := Text.atFirstLine?_eq_some found
  have start := Text.lineStart_of_first found
  obtain ⟨early, d, late, rfl, same, rfl, same'⟩ :=
    exists_directive proper quiet known split start (starts here)
  exact ⟨early, d, late, rfl, same, same', proper (.directive d) (by simp), here⟩

theorem packageOf_layout (one : (Entry.declared "package" entries).length ≤ 1) :
    packageOf (Entry.lines entries ++ body) = Entry.package entries [] := by
  unfold packageOf Entry.package
  cases found : Text.atFirstLine? packageLine? true (Entry.lines entries ++ body) with
  | none =>
    have none : Entry.declared "package" entries = [] := by
      rw [List.eq_nil_iff_forall_not_mem]
      intro name member
      obtain ⟨d, member, keyword, _⟩ := Entry.mem_declared.mp member
      refine ne_none_of_mem proper member (fun ahead => ?_) found
      rw [Directive.Proper.packageLine? (proper _ member) keyword]
      exact Option.some_ne_none _
    rw [none]
    rfl
  | some line =>
    obtain ⟨before, name, after⟩ := line
    obtain ⟨early, d, late, rfl, _, keyword, d_proper, here⟩ :=
      exists_of_atFirstLine? proper quiet (.inr rfl) isSome_of_bind found
    have here : packageLine? (d.text ++ (Entry.lines late ++ body)) = some (name, after) := here
    rw [d_proper.packageLine? keyword] at here
    have member : d.name ∈ Entry.declared "package" (early ++ .directive d :: late) :=
      Entry.mem_declared.mpr ⟨d, by simp, keyword, rfl⟩
    obtain ⟨name', only⟩ := List.length_eq_one_iff.mp (Nat.le_antisymm one (List.length_pos_of_mem member))
    rw [only] at member ⊢
    cases here
    rw [List.mem_singleton.mp member]
    rfl

theorem importsType_layout {type : Text} (imported : Imported type)
    (whole : Imported (TypeMapping.packageName type ++ ".*")) :
    importsType type (Entry.lines entries ++ body) = true ↔ ∃ d, .directive d ∈ entries ∧
      d.keyword = "import".toList ∧ d.static = [] ∧
      (d.name = type ∨ d.name = TypeMapping.packageName type ++ ".*") := by
  rw [importsType_eq, Option.isSome_iff_ne_none]
  constructor
  · intro found
    obtain ⟨⟨before, after⟩, found⟩ := Option.ne_none_iff_exists'.mp found
    obtain ⟨early, d, late, rfl, _, keyword, d_proper, here⟩ :=
      exists_of_atFirstLine? proper quiet (.inl rfl) isSome_of_bind found
    have here : importLine? type (d.text ++ (Entry.lines late ++ body)) = some after := here
    obtain ⟨static, name⟩ := (d_proper.importLine?_isSome keyword imported whole _).mp (by rw [here]; rfl)
    exact ⟨d, by simp, keyword, static, name⟩
  · rintro ⟨d, member, keyword, named⟩
    refine ne_none_of_mem proper member fun ahead => ?_
    rw [← Option.isSome_iff_ne_none]
    exact (Directive.Proper.importLine?_isSome (proper _ member) keyword imported whole ahead).mpr named

/-- A declaration is dropped with its line. -/
theorem dropCoreImport?_layout (core : ∀ c ∈ mapping.core, isPlain c = true) {text line : Text}
    (dropped : dropCoreImport? mapping (Entry.lines entries ++ body) = some (text, line)) :
    ∃ early d late, entries = early ++ .directive d :: late ∧ d.keyword = "import".toList ∧
      IsCoreImport mapping d.name ∧ text = Entry.lines (early ++ late) ++ body := by
  obtain ⟨⟨before, after⟩, found, unmentioned⟩ := Option.bind_eq_some_iff.mp dropped
  obtain ⟨early, d, late, rfl, rfl, keyword, d_proper, here⟩ :=
    exists_of_atFirstLine? proper quiet (.inl rfl) isSome_of_bind found
  obtain ⟨rfl, isCore⟩ := d_proper.afterCoreImport? core keyword here
  refine ⟨early, d, late, rfl, keyword, isCore, ?_⟩
  simp only at unmentioned
  split at unmentioned
  · cases unmentioned
  · obtain ⟨rfl, _⟩ := Prod.mk.inj (Option.some.inj unmentioned)
    rw [Entry.lines_append, List.append_assoc]

end

/-! ### New imports -/

/-- The import of a type, with nothing else on its line. -/
def Directive.importing (type : Text) : Directive := { keyword := "import", name := type }

theorem Directive.importing_text (type : Text) :
    (Directive.importing type).text = importStatement type ++ ['\n'] := by
  unfold text line subject importing importStatement
  simp

theorem tokenless_break : Tokenless ['\n'] := by
  unfold Tokenless
  decide +kernel

theorem Directive.importing_proper {type : Text} (qualified : Qualified type) :
    (Directive.importing type).Proper where
  single := by
    have blank : Text.isBlank '\n' = true := by decide
    have free : '\n' ∉ type := fun member => by
      cases (Imported.plain (.inl qualified)).2 _ member |>.1.symm.trans blank
    simp [line, subject, importing, free]
  indent := by simp [importing]
  keyword := .inl ⟨rfl, .inl qualified⟩
  gap := by
    have blank : Text.isBlank ' ' = true := by decide
    simp [importing, blank]
  static := .inl rfl
  space := by simp [importing]
  comment := tokenless_break

/-- An empty line. -/
theorem proper_emptyLine : (Entry.filler ['\n']).Proper :=
  ⟨.inr rfl, tokenless_break, by decide, by decide⟩

/-- The lines that are added for an import: perhaps with an empty line before or after it. -/
def importLines (type : Text) : List (List Entry) :=
  [[.directive (.importing type)], [.filler ['\n'], .directive (.importing type)],
    [.directive (.importing type), .filler ['\n']]]

theorem importLines_spec {type : Text} (qualified : Qualified type) {new : List Entry}
    (member : new ∈ importLines type) : (∀ e ∈ new, e.Proper) ∧
      Entry.declared "package" new = [] ∧ Entry.declared "import" new = [type] := by
  have line : (Entry.directive (.importing type)).Proper := Directive.importing_proper qualified
  simp only [importLines, List.mem_cons, List.not_mem_nil, or_false] at member
  rcases member with rfl | rfl | rfl
  · exact ⟨by simpa using line, rfl, rfl⟩
  · exact ⟨by simpa using ⟨proper_emptyLine, line⟩, rfl, rfl⟩
  · exact ⟨by simpa using ⟨line, proper_emptyLine⟩, rfl, rfl⟩

theorem insertLine_lines {early : List Entry} (proper : ∀ e ∈ early, e.Proper) (line after : Text) :
    insertLine (Entry.lines early) line after = Entry.lines early ++ (line ++ '\n' :: after) := by
  have start : (Entry.lines early = [] || (Entry.lines early).getLast? = some '\n') = true := by
    simpa [Text.LineStart] using Entry.lineStart_lines proper
  unfold insertLine
  simp only [start, if_true, List.append_assoc]

section

variable {entries : List Entry} (proper : ∀ e ∈ entries, e.Proper) {body : Text} (quiet : Quiet body)
include proper quiet

/-- A statement that is found at the start of a line ends where another entry starts. -/
theorem partBefore_layout {read : Text → Option Text} (statement : Statement read)
    {keyword before line after : Text} (known : keyword = "import".toList ∨ keyword = "package".toList)
    (starts : (afterKeyword? keyword line).isSome = true) (start : Text.LineStart before)
    (split : Entry.lines entries ++ body = before ++ line) (here : read line = some after) :
    ∃ early late, entries = early ++ late ∧ (∀ e ∈ early, e.Proper) ∧
      after = Entry.lines late ++ body ∧
      partBefore (Entry.lines entries ++ body) after = Entry.lines early := by
  obtain ⟨early, d, late, rfl, rfl, rfl, _⟩ := exists_directive proper quiet known split start starts
  have d_proper : d.Proper := proper (.directive d) (by simp)
  obtain rfl := d_proper.ends statement here
  refine ⟨early ++ [.directive d], late, by simp, fun e member => proper e ?_, rfl, ?_⟩
  · rw [List.append_cons]
    exact List.mem_append_left _ member
  · have whole : Entry.lines (early ++ .directive d :: late) ++ body =
        Entry.lines (early ++ [.directive d]) ++ (Entry.lines late ++ body) := by
      simp
    have part : Entry.lines late ++ body <:+ Entry.lines (early ++ .directive d :: late) ++ body :=
      ⟨Entry.lines (early ++ [.directive d]), whole.symm⟩
    exact List.append_cancel_right ((partBefore_append part).trans whole)

/-- A new import stands between the entries of a layout. -/
theorem addImport_layout (type : Text) : ∃ early new late, entries = early ++ late ∧
    new ∈ importLines type ∧
    addImport type (Entry.lines entries ++ body) = Entry.lines (early ++ (new ++ late)) ++ body := by
  have new := newImport_addImport type (Entry.lines entries ++ body)
  generalize addImport type (Entry.lines entries ++ body) = text at new ⊢
  cases new with
  | @belowImports before line after start split found =>
    obtain ⟨early, late, rfl, early_proper, rfl, part⟩ := partBefore_layout proper quiet
      statement_afterImportLine? (.inl rfl) (isSome_of_bind found) start split found
    refine ⟨early, [.directive (.importing type)], late, rfl, by simp [importLines], ?_⟩
    rw [part, insertLine_lines early_proper]
    simp [Directive.importing_text]
  | @belowPackage before line name after start split found =>
    obtain ⟨early, late, rfl, early_proper, rfl, part⟩ := partBefore_layout proper quiet
      statement_packageLine? (.inr rfl) (isSome_of_bind found) start split (by rw [found]; rfl)
    refine ⟨early, [.filler ['\n'], .directive (.importing type)], late, rfl, by simp [importLines], ?_⟩
    rw [part, insertLine_lines early_proper]
    simp [Directive.importing_text]
  | above =>
    refine ⟨[], [.directive (.importing type), .filler ['\n']], entries, rfl, by simp [importLines], ?_⟩
    simp [Directive.importing_text]

end

/-! ### Reconciling -/

/-- The last separator of a text stands in its second part, if there is one in that. -/
theorem beforeLast?_append (separator : Char) (front rest : Text) :
    Text.beforeLast? separator (front ++ separator :: rest) =
      some (((Text.beforeLast? separator rest).map fun before => front ++ separator :: before).getD front) := by
  unfold Text.beforeLast?
  have reverse : (front ++ separator :: rest).reverse = rest.reverse ++ (separator :: front.reverse) := by
    simp
  rw [reverse, List.dropWhile_append]
  cases left : rest.reverse.dropWhile (· ≠ separator) with
  | nil => simp
  | cons c before =>
    have same : c = separator := by
      have head := List.head?_dropWhile_not (· ≠ separator) rest.reverse
      rw [left] at head
      simpa using head
    simp [same]

theorem Qualified.beforeLast? {name package : Text} (qualified : Qualified name)
    (found : Text.beforeLast? '.' name = some package) : Qualified package := by
  have point : isNamePart '.' = false := by decide
  induction qualified generalizing package with
  | @single name isName =>
    have none : Text.beforeLast? '.' name = none := by
      unfold Text.beforeLast?
      rw [List.dropWhile_eq_nil_iff.mpr fun c member => ?_]
      refine decide_eq_true fun same => ?_
      exact isName.not_mem point (same ▸ List.mem_reverse.mp member)
    cases none.symm.trans found
  | @dotted name rest isName free _ ih =>
    rw [beforeLast?_append] at found
    obtain rfl := Option.some.inj found
    cases before : Text.beforeLast? '.' rest with
    | none => exact .single isName free
    | some before' => exact .dotted isName free (ih before)

/-- A source whose declarations stand on lines of their own. -/
structure Layout where
  entries : List Entry
  body : Text

namespace Layout

/-- The source. -/
def text (l : Layout) : Text := Entry.lines l.entries ++ l.body

/-- The package that the source declares. -/
def package (l : Layout) : Text := Entry.package l.entries []

/-- The imports that the source declares. -/
def imports (l : Layout) : List Text := Entry.declared "import" l.entries

/-- Every entry is what it should be, and there is no other line that starts with a keyword, and no second
package. -/
structure Proper (l : Layout) : Prop where
  entries : ∀ e ∈ l.entries, e.Proper
  body : Quiet l.body
  package : (Entry.declared "package" l.entries).length ≤ 1

/-- The type of the contract has to be imported: its package is not that of the source, and neither is
it imported by name, nor are all types of its package. -/
def Lacks (l : Layout) (mapping : TypeMapping) : Prop :=
  mapping.apiPackage ≠ [] ∧ mapping.apiPackage ≠ l.package ∧
    ∀ d, .directive d ∈ l.entries → d.keyword = "import".toList → d.static = [] →
      d.name ≠ mapping.api ∧ d.name ≠ mapping.apiPackage ++ ".*"

variable {l : Layout} {mapping : TypeMapping}

theorem Proper.needsImport_iff (proper : l.Proper) (api : Qualified mapping.api) :
    needsImport mapping l.text = true ↔ l.Lacks mapping := by
  unfold needsImport Lacks
  rw [text, packageOf_layout proper.entries proper.body proper.package]
  by_cases named : mapping.apiPackage = []
  · simp [named]
  have whole : Imported (TypeMapping.packageName mapping.api ++ ".*") := by
    unfold TypeMapping.apiPackage TypeMapping.packageName at named
    unfold TypeMapping.packageName
    cases before : Text.beforeLast? '.' mapping.api with
    | none =>
      rw [before] at named
      exact absurd rfl named
    | some package => exact .inr ⟨package, api.beforeLast? before, rfl⟩
  have imports := importsType_layout proper.entries proper.body (.inl api) whole
  rw [Bool.and_eq_true, Bool.and_eq_true, Bool.not_eq_true', ← Bool.not_eq_true, imports]
  simp only [decide_eq_true_eq, not_exists, not_and, not_or, and_assoc]
  rfl

/-- The imports with that of the type of the contract, if the source lacks it. -/
def Adds (l : Layout) (mapping : TypeMapping) (imports added : List Text) : Prop :=
  l.Lacks mapping ∧ (∃ early late, imports = early ++ late ∧ added = early ++ mapping.api :: late) ∨
    ¬ l.Lacks mapping ∧ added = imports

/-- The imports without one of the core class, or all of them. -/
def Drops (mapping : TypeMapping) (imports left : List Text) : Prop :=
  left = imports ∨ ∃ early name late, imports = early ++ name :: late ∧ IsCoreImport mapping name ∧
    left = early ++ late

/-- Both layouts have the same body and package. -/
structure Beside (l l' : Layout) : Prop where
  proper : ∀ e ∈ l'.entries, e.Proper
  body : l'.body = l.body
  package : Entry.declared "package" l'.entries = Entry.declared "package" l.entries

theorem Proper.withImport (proper : l.Proper) (api : Qualified mapping.api) :
    ∃ l', l.Beside l' ∧ Java.withImport mapping l.text = l'.text ∧ l.Adds mapping l.imports l'.imports := by
  have lacks := proper.needsImport_iff api
  unfold Java.withImport
  by_cases needed : needsImport mapping l.text = true
  · rw [if_pos needed]
    obtain ⟨early, new, late, split, member, text⟩ :=
      addImport_layout proper.entries proper.body mapping.api
    obtain ⟨new_proper, package, type⟩ := importLines_spec api member
    have entries := proper.entries
    unfold imports Adds
    rw [split] at entries ⊢
    refine ⟨⟨early ++ (new ++ late), l.body⟩, ⟨?_, rfl, ?_⟩, text, .inl ⟨lacks.mp needed, _, _,
      Entry.declared_append .., ?_⟩⟩
    · simp only [List.forall_mem_append] at entries ⊢
      exact ⟨entries.1, new_proper, entries.2⟩
    · rw [split, Entry.declared_append, Entry.declared_append, Entry.declared_append, package,
        List.nil_append]
    · rw [Entry.declared_append, Entry.declared_append, type, List.singleton_append]
  · rw [if_neg needed]
    exact ⟨l, ⟨proper.entries, rfl, rfl⟩, rfl, .inr ⟨fun here => needed (lacks.mpr here), rfl⟩⟩

end Layout

theorem reconcileImports_text (mapping : TypeMapping) (source : Text) :
    (reconcileImports mapping source).text =
      ((dropCoreImport? mapping (withImport mapping source)).map (·.1)).getD (withImport mapping source) := by
  unfold reconcileImports withImport
  cases needsImport mapping source with
  | true =>
    simp only [if_true]
    cases dropCoreImport? mapping (addImport mapping.api source) <;> rfl
  | false =>
    simp only [Bool.false_eq_true, if_false]
    cases dropCoreImport? mapping source <;> rfl

theorem Layout.Proper.reconcileImports {l : Layout} {mapping : TypeMapping} (proper : l.Proper)
    (core : Qualified mapping.core) (api : Qualified mapping.api) :
    ∃ l', l.Beside l' ∧ (Java.reconcileImports mapping l.text).text = l'.text ∧
      ∃ added, l.Adds mapping l.imports added ∧ Drops mapping added l'.imports := by
  obtain ⟨l₁, beside, text, adds⟩ := proper.withImport api
  have quiet : Quiet l₁.body := by
    rw [beside.body]
    exact proper.body
  have plain : ∀ c ∈ mapping.core, isPlain c = true := fun c member =>
    isPlain_iff.mpr ((Imported.plain (.inl core)).2 c member)
  rw [reconcileImports_text, text]
  cases dropped : dropCoreImport? mapping l₁.text with
  | none => exact ⟨l₁, beside, rfl, _, adds, .inl rfl⟩
  | some edit =>
    obtain ⟨after, line⟩ := edit
    obtain ⟨early, d, late, split, keyword, isCore, rfl⟩ :=
      dropCoreImport?_layout beside.proper quiet plain dropped
    have entries := beside.proper
    rw [split] at entries
    refine ⟨⟨early ++ late, l₁.body⟩, ⟨?_, beside.body, ?_⟩, rfl, _, adds, .inr ⟨
      Entry.declared "import" early, d.name, Entry.declared "import" late, ?_, isCore, ?_⟩⟩
    · intro e member
      refine entries e ?_
      rcases List.mem_append.mp member with here | there
      · exact List.mem_append_left _ here
      · exact List.mem_append_right _ (List.mem_cons_of_mem _ there)
    · rw [← beside.package, split, Entry.declared_append, Entry.declared_append,
        Entry.declared_directive, keyword, if_neg (by decide), List.nil_append]
    · rw [Layout.imports, split, Entry.declared_append, Entry.declared_directive, if_pos keyword,
        List.singleton_append]
    · exact Entry.declared_append ..

/-- Reconciling the imports of a source whose declarations stand on lines of their own keeps its package
and its types, up to their lines. That of the type of the contract is added if it is lacking, and that
of the core class may be dropped. -/
theorem outline_reconcileImports {contract : FixerContract} {mapping : TypeMapping}
    (core : Qualified mapping.core) (api : Qualified mapping.api) {l : Layout} (proper : l.Proper)
    {o : Outline} (read : outline contract l.text = .ok o)
    (only : o.package = l.package ∧ o.imports = l.imports) :
    ∃ o', outline contract (reconcileImports mapping l.text).text = .ok o' ∧
      o'.package = o.package ∧ o'.types.map (·.unplaced) = o.types.map (·.unplaced) ∧
      ∃ added, l.Adds mapping o.imports added ∧ Layout.Drops mapping added o'.imports := by
  obtain ⟨l', beside, text, added, adds, drops⟩ := proper.reconcileImports core api
  obtain ⟨o', read', package, types, more, imports, imports'⟩ :=
    outline_of_entries proper.entries beside.proper beside.package read
  -- All imports of the source are those of its entries.
  have none : more = [] := by
    have same := imports.symm.trans only.2
    exact List.append_right_eq_self.mp same
  refine ⟨o', ?_, package, types, added, only.2 ▸ adds, ?_⟩
  · rw [text, Layout.text, beside.body]
    exact read'
  · rw [imports', none, List.append_nil]
    exact drops

/-- A package, the import of a core class, and a type. -/
def Layout.small : Layout where
  entries := [.directive { keyword := "package", name := "p" },
    .directive { keyword := "import", name := "a.D" }]
  body := "class X \x7b \x7d\n"

theorem Layout.small_reconciled :
    Qualified (TypeMapping.core ⟨"a.D", "b.A", false⟩) ∧
      Qualified (TypeMapping.api ⟨"a.D", "b.A", false⟩) ∧ Layout.small.Proper ∧
      ∃ o o', outline {} Layout.small.text = .ok o ∧
        (o.package = Layout.small.package ∧ o.imports = Layout.small.imports) ∧
        outline {} (reconcileImports ⟨"a.D", "b.A", false⟩ Layout.small.text).text = .ok o' ∧
        o'.package = o.package ∧ o'.types.map (·.unplaced) = o.types.map (·.unplaced) ∧
        ∃ added, Layout.small.Adds ⟨"a.D", "b.A", false⟩ o.imports added ∧
          Layout.Drops ⟨"a.D", "b.A", false⟩ added o'.imports := by
  have letter (c : Char) (start : isNameStart c = true) : IsName [c] := ⟨c, [], rfl, start, by simp⟩
  have core : Qualified (TypeMapping.core ⟨"a.D", "b.A", false⟩) :=
    .dotted (letter 'a' (by decide)) (by decide) (.single (letter 'D' (by decide)) (by decide))
  have api : Qualified (TypeMapping.api ⟨"a.D", "b.A", false⟩) :=
    .dotted (letter 'b' (by decide)) (by decide) (.single (letter 'A' (by decide)) (by decide))
  have package : Qualified "p".toList := .single (letter 'p' (by decide)) (by decide)
  have space : Text.isBlank ' ' = true := by decide
  have part : isQualifiedPart 'p' = true := by decide
  have first : Directive.Proper { keyword := "package", name := "p" } :=
    ⟨by decide, by simp, .inr ⟨rfl, rfl, package, by simp [part]⟩, by simp [space], .inl rfl, by simp,
      tokenless_break⟩
  have second : Directive.Proper { keyword := "import", name := "a.D" } :=
    Directive.importing_proper core
  have proper : Layout.small.Proper := by
    refine ⟨?_, ⟨by decide, by decide⟩, by decide⟩
    intro e member
    simp only [Layout.small, List.mem_cons, List.not_mem_nil, or_false] at member
    rcases member with rfl | rfl
    · exact first
    · exact second
  have read : outline {} Layout.small.text =
      .ok ⟨"p", ["a.D"], [{ name := "X", kind := .«class», line := 3 }]⟩ := by decide +kernel
  obtain ⟨o', kept⟩ := outline_reconcileImports core api proper read (by decide)
  exact ⟨core, api, proper, _, o', read, by decide, kept⟩

/-- What stands on the line of a dropped import is lost with it. -/
theorem declaration_lost_with_line :
    (outline {} "package p;\nimport a.D; class X \x7b int n; \x7d\n".toList).toOption.map
        (·.types.map (·.name)) = some ["X".toList] ∧
      (outline {} (reconcileImports ⟨"a.D", "b.A", false⟩
        "package p;\nimport a.D; class X \x7b int n; \x7d\n").text).toOption.map
          (·.types.map (·.name)) = some [] :=
  ⟨by decide +kernel, by decide +kernel⟩

end Java

end Layering
