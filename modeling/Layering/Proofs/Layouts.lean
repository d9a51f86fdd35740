import Layering.Proofs.ImportLines
import Layering.Proofs.Lockstep
import Layering.Proofs.Templates

/-!
# Layouts

A layout is a source whose package and import declarations stand each on a line of its own, before
everything else, with only blanks and comments between them. Reading it declares them line by line and
goes on with the body (`outline_layout`), so that two layouts with one body declare the same types
(`outline_of_entries`).
-/

namespace Layering.Java

/-! ### Names and marks -/

theorem lexeme_name {name ahead : Text} (isName : IsName name)
    (stop : ∀ c, ahead.head? = some c → isNamePart c = false) : Lexeme .identifier name ahead := by
  obtain ⟨c, tail, rfl, start, parts⟩ := isName
  exact .name start parts stop

/-- A semicolon or a star is a symbol by itself, whatever is ahead. -/
theorem lexeme_mark {c : Char} (mark : c = ';' ∨ c = '*') (ahead : Text) :
    Lexeme .symbol [c] ahead := by
  have visible : Text.isBlank c = false ∧ Text.isDigit c = false ∧ isNameStart c = false := by
    rcases mark with rfl | rfl <;> decide
  have bare : Bare c ahead := by
    refine ⟨visible.1, ?_, ?_⟩
    · rcases mark with rfl | rfl <;> decide
    · rcases mark with rfl | rfl <;> simp [StartsComment]
  have other : startsNumber c ahead = false := by
    rcases mark with rfl | rfl <;> simp [startsNumber, visible.2.1]
  refine .symbol bare ⟨other, visible.2.2⟩ (.inr ⟨rfl, ?_⟩)
  rcases mark with rfl | rfl <;> simp [longSymbols]

/-- A point is a symbol by itself before a name or a star. -/
theorem lexeme_point {c : Char} {ahead : Text} (next : isNameStart c = true ∨ c = '*') :
    Lexeme .symbol ['.'] (c :: ahead) := by
  have digit : Text.isDigit c = false := by
    rcases next with start | rfl
    · have number := startsNumber_of_isNameStart start []
      exact (Bool.or_eq_false_iff.mp number).1
    · decide
  have point : Text.isDigit '.' = false ∧ isNameStart '.' = false ∧ isNameStart '*' = false := by
    decide
  refine .symbol (bare_of_mark (.inl rfl) _) ⟨?_, point.2.1⟩ (.inr ⟨rfl, ?_⟩)
  · simp [startsNumber, digit, point.1]
  · have apart : c ≠ '.' := by
      rintro rfl
      rcases next with start | same
      · cases start.symm.trans point.2.1
      · cases same
    simp [longSymbols, apart.symm]

/-- Names with points between them, none of them a keyword that a declaration gives a meaning. -/
inductive Qualified : Text → Prop
  | single {name : Text} (isName : IsName name) (free : name ≠ "static".toList) : Qualified name
  | dotted {name rest : Text} (isName : IsName name) (free : name ≠ "static".toList)
      (more : Qualified rest) : Qualified (name ++ '.' :: rest)

/-- What an import may name: a type, or all types of a package. -/
def Imported (name : Text) : Prop :=
  Qualified name ∨ ∃ package, Qualified package ∧ name = package ++ ['.', '*']

/-- Some tokens make up a name: neither do they end a declaration nor are they left out of the name. -/
structure Makes (tokens : List Token) (name : Text) : Prop where
  parts : ∀ t ∈ tokens, t.isSymbol ";" = false ∧ t.isWord "static" = false
  spelling : spelling tokens = name

theorem Makes.append {tokens tokens' : List Token} {name name' : Text} (first : Makes tokens name)
    (second : Makes tokens' name') : Makes (tokens ++ tokens') (name ++ name') where
  parts t member := by
    rcases List.mem_append.mp member with here | there
    · exact first.parts t here
    · exact second.parts t there
  spelling := by
    rw [← first.spelling, ← second.spelling]
    exact List.flatMap_append

theorem makes_name {name : Text} (free : name ≠ "static".toList) (p : Position) :
    Makes [⟨.identifier, name, p⟩] name where
  parts t member := by
    obtain rfl := List.mem_singleton.mp member
    exact ⟨rfl, by simpa [Token.isWord] using free⟩
  spelling := by simp [spelling]

theorem makes_mark {c : Char} (other : c ≠ ';') (p : Position) : Makes [⟨.symbol, [c], p⟩] [c] where
  parts t member := by
    obtain rfl := List.mem_singleton.mp member
    exact ⟨by simp [Token.isSymbol, other], rfl⟩
  spelling := rfl

theorem Qualified.head {name : Text} (qualified : Qualified name) :
    ∃ c tail, name = c :: tail ∧ isNameStart c = true := by
  cases qualified with
  | single isName =>
    obtain ⟨c, tail, rfl, start, _⟩ := isName
    exact ⟨c, tail, rfl, start⟩
  | dotted isName =>
    obtain ⟨c, tail, rfl, start, _⟩ := isName
    exact ⟨c, _, rfl, start⟩

theorem Qualified.lexes {name : Text} (qualified : Qualified name) {ahead : Text}
    (stop : ∀ c, ahead.head? = some c → isNamePart c = false) (p : Position) :
    ∃ tokens, Lexes p name ahead tokens ∧ Makes tokens name := by
  have point : isNamePart '.' = false := by decide
  induction qualified generalizing p with
  | single isName free => exact ⟨_, (lexeme_name isName stop).lexes p, makes_name free p⟩
  | @dotted name rest isName free more ih =>
    obtain ⟨c, tail, rfl, start⟩ := more.head
    have first : Lexeme .identifier name ('.' :: (c :: tail ++ ahead)) := by
      refine lexeme_name isName fun d head => ?_
      cases head
      exact point
    -- The rest starts with a name, so that the point is read by itself.
    have mark : Lexeme .symbol ['.'] (c :: tail ++ ahead) := lexeme_point (.inl start)
    obtain ⟨tokens, reads, makes⟩ := ih (((p.after name).after ['.']))
    refine ⟨_, (first.lexes p).append (y := '.' :: c :: tail)
      ((mark.lexes _).append (x := ['.']) reads), ?_⟩
    exact (makes_name free p).append ((makes_mark (c := '.') (by decide) _).append makes)

theorem Imported.lexes {name : Text} (imported : Imported name) {ahead : Text}
    (stop : ∀ c, ahead.head? = some c → isNamePart c = false) (p : Position) :
    ∃ tokens, Lexes p name ahead tokens ∧ Makes tokens name := by
  rcases imported with qualified | ⟨package, qualified, rfl⟩
  · exact qualified.lexes stop p
  · have point : isNamePart '.' = false := by decide
    have before : ∀ c, (['.', '*'] ++ ahead).head? = some c → isNamePart c = false := by
      intro c head
      cases head
      exact point
    obtain ⟨tokens, reads, makes⟩ := qualified.lexes before p
    have mark : Lexeme .symbol ['.'] ('*' :: ahead) := lexeme_point (.inr rfl)
    have star := (lexeme_mark (.inr rfl) ahead).lexes ((p.after package).after ['.'])
    refine ⟨_, reads.append ((mark.lexes _).append (x := ['.']) star), ?_⟩
    exact makes.append ((makes_mark (by decide) _).append (makes_mark (by decide) _))

theorem Imported.plain {name : Text} (imported : Imported name) :
    name ≠ [] ∧ ∀ c ∈ name, Text.isBlank c = false ∧ c ≠ ';' := by
  have marks : Text.isBlank '.' = false ∧ Text.isBlank '*' = false := by decide
  have semicolon : isNamePart ';' = false := by decide
  have part {name : Text} (isName : IsName name) (c : Char) (member : c ∈ name) :
      Text.isBlank c = false ∧ c ≠ ';' := by
    refine ⟨isBlank_of_isNamePart (isName.part c member), ?_⟩
    rintro rfl
    exact isName.not_mem semicolon member
  have plain {name : Text} (qualified : Qualified name) :
      ∀ c ∈ name, Text.isBlank c = false ∧ c ≠ ';' := by
    -- Part by part, with the points between them.
    induction qualified with
    | single isName => exact part isName
    | dotted isName _ _ ih =>
      intro c member
      rcases List.mem_append.mp member with here | there
      · exact part isName c here
      · rcases List.mem_cons.mp there with rfl | later
        · exact ⟨marks.1, by decide⟩
        · exact ih c later
  rcases imported with qualified | ⟨package, qualified, rfl⟩
  · obtain ⟨_, _, rfl, _⟩ := qualified.head
    exact ⟨by simp, plain qualified⟩
  · refine ⟨by simp, fun c member => ?_⟩
    rcases List.mem_append.mp member with here | there
    · exact plain qualified c here
    · simp only [List.mem_cons, List.not_mem_nil, or_false] at there
      rcases there with rfl | rfl
      · exact ⟨marks.1, by decide⟩
      · exact ⟨marks.2, by decide⟩

/-! ### Fillers -/

/-- Only blanks and comments. -/
def Tokenless (t : Text) : Prop := (tokenize t).toOption.map (·.tokens) = some []

theorem lineStart_of_append {x y : Text} (whole : Text.LineStart (x ++ y)) : Text.LineStart y := by
  rcases List.eq_nil_or_concat y with rfl | ⟨y, c, rfl⟩
  · exact .inl rfl
  · rcases whole with empty | last
    · simp at empty
    · refine .inr ?_
      simpa using last

theorem lexes_of_tokenless {filler : Text} (whole : Text.LineStart filler) {p stop : Position}
    (none : tokenizeFrom p filler = .ok ⟨[], stop⟩) (q : Position) (ahead : Text) :
    Lexes q filler ahead [] := by
  induction size : filler.length using Nat.strong_induction_on generalizing filler p q with
  | _ n ih =>
  cases filler with
  | nil => exact .nil q ahead
  | cons c rest =>
    have fronts := fronts_front c rest
    cases found : front c rest with
    | error problem =>
      rw [tokenizeFrom_of_error found] at none
      cases none
    | ok f =>
      have shorter : f.rest.length < n := size ▸ length_rest_lt found
      rw [tokenizeFrom_of_front found] at none
      rw [found] at fronts
      cases fronts with
      | @blanks text after blank split =>
        rw [map_push_none] at none
        rw [← split] at whole ⊢
        exact (lexes_blanks blank q _).append (ih _ shorter (lineStart_of_append whole) none _ rfl)
      | @comment text after skipped split =>
        rw [map_push_none] at none
        rw [← split] at whole ⊢
        have later := ih _ shorter (lineStart_of_append whole) none (q.after text) rfl
        refine Lexes.append (Skipped.lexes ?_ q) later
        cases skipped with
        | blank blank => exact .blank blank
        | blockComment first => exact .blockComment first
        | @lineComment body _ single stop =>
          refine .lineComment single (.inr ?_)
          rcases stop with rfl | break_
          · -- The filler would end with the comment, and not with a line.
            rw [List.append_nil] at whole
            rcases whole with empty | last
            · cases empty
            · have member := List.mem_of_getLast? last
              simp [single] at member
          · rw [List.head?_append, break_]
            rfl
      | @lexeme kind text after =>
        cases later : tokenizeFrom (p.after text) after with
        | error e =>
          rw [later] at none
          cases none
        | ok t =>
          rw [later] at none
          cases none

theorem Tokenless.lexes {filler : Text} (none : Tokenless filler) (whole : Text.LineStart filler)
    (p : Position) (ahead : Text) : Lexes p filler ahead [] := by
  unfold Tokenless tokenize at none
  cases found : tokenizeFrom {} filler with
  | error e =>
    rw [found] at none
    cases none
  | ok t =>
    rw [found] at none
    obtain ⟨tokens, stop⟩ := t
    obtain rfl : tokens = [] := Option.some.inj none
    exact lexes_of_tokenless whole found p ahead

/-! ### Declarations on lines -/

/-- A package or import declaration on a line of its own. -/
structure Directive where
  indent : Text := []
  keyword : Text
  gap : Text := " "
  /-- The word `static` and the blanks after it, or nothing. -/
  static : Text := []
  name : Text
  space : Text := []
  /-- What follows the semicolon on the line. -/
  comment : Text := []

namespace Directive

/-- What the declaration is about, up to its semicolon. -/
def subject (d : Directive) : Text := d.static ++ (d.name ++ (d.space ++ [';']))

/-- The line without its break. -/
def line (d : Directive) : Text := d.indent ++ (d.keyword ++ (d.gap ++ (d.subject ++ d.comment)))

/-- The line. -/
def text (d : Directive) : Text := d.line ++ ['\n']

/-- The declaration is well-formed, and nothing else stands on its line. -/
structure Proper (d : Directive) : Prop where
  single : '\n' ∉ d.line
  indent : ∀ c ∈ d.indent, c = ' ' ∨ c = '\t'
  keyword : d.keyword = "import".toList ∧ Imported d.name ∨ d.keyword = "package".toList ∧
    d.static = [] ∧ Qualified d.name ∧ ∀ c ∈ d.name, isQualifiedPart c = true
  gap : d.gap ≠ [] ∧ ∀ c ∈ d.gap, Text.isBlank c = true
  static : d.static = [] ∨ ∃ gap, d.static = "static".toList ++ gap ∧ gap ≠ [] ∧
    ∀ c ∈ gap, Text.isBlank c = true
  space : ∀ c ∈ d.space, Text.isBlank c = true
  comment : Tokenless (d.comment ++ ['\n'])

variable {d : Directive}

theorem Proper.imported (proper : d.Proper) : Imported d.name := by
  rcases proper.keyword with ⟨_, imported⟩ | ⟨_, _, qualified, _⟩
  · exact imported
  · exact .inl qualified

theorem isName_keyword :
    IsName "import".toList ∧ IsName "package".toList ∧ IsName "static".toList := by
  have name {c : Char} {t : Text} (start : isNameStart c = true)
      (parts : t.all isNamePart = true) : IsName (c :: t) :=
    ⟨c, t, rfl, start, List.all_eq_true.mp parts⟩
  exact ⟨name (t := ['m', 'p', 'o', 'r', 't']) (by decide) (by decide),
    name (t := ['a', 'c', 'k', 'a', 'g', 'e']) (by decide) (by decide),
    name (t := ['t', 'a', 't', 'i', 'c']) (by decide) (by decide)⟩

/-- A keyword is read up to the blanks after it. -/
theorem lexes_keyword {word gap : Text} (isName : IsName word)
    (blank : gap ≠ [] ∧ ∀ c ∈ gap, Text.isBlank c = true) (p : Position) (ahead : Text) :
    Lexes p (word ++ gap) ahead [⟨.identifier, word, p⟩] := by
  have stop : ∀ c, (gap ++ ahead).head? = some c → isNamePart c = false := by
    intro c head
    obtain ⟨d, rest, rfl⟩ := List.exists_cons_of_ne_nil blank.1
    cases head
    exact isNamePart_of_isBlank (blank.2 _ List.mem_cons_self)
  exact ((lexeme_name isName stop).lexes p).append (lexes_blanks blank.2 _ ahead)

theorem Proper.lexes_static (proper : d.Proper) (p : Position) (ahead : Text) :
    ∃ tokens, Lexes p d.static ahead tokens ∧
      ∀ t ∈ tokens, t.isSymbol ";" = false ∧ t.isWord "static" = true := by
  rcases proper.static with none | ⟨gap, same, blank⟩
  · rw [none]
    exact ⟨[], .nil p ahead, by simp⟩
  · rw [same]
    refine ⟨_, lexes_keyword isName_keyword.2.2 blank p ahead, fun t member => ?_⟩
    obtain rfl := List.mem_singleton.mp member
    exact ⟨rfl, rfl⟩

/-- The tokens of a declaration: its keyword, those that make up its name, and its semicolon. -/
theorem Proper.lexes (proper : d.Proper) (p : Position) (ahead : Text) :
    ∃ tokens q r, Lexes p d.text ahead
        (⟨.identifier, d.keyword, q⟩ :: (tokens ++ [⟨.symbol, [';'], r⟩])) ∧
      (∀ t ∈ tokens, t.isSymbol ";" = false) ∧
      spelling (tokens.filter fun t => !t.isWord "static") = d.name := by
  have keyword : IsName d.keyword := by
    rcases proper.keyword with ⟨same, _⟩ | ⟨same, _⟩
    · exact same ▸ isName_keyword.1
    · exact same ▸ isName_keyword.2.1
  have indent : ∀ c ∈ d.indent, Text.isBlank c = true := by
    have blank : Text.isBlank ' ' = true ∧ Text.isBlank '\t' = true := by decide
    intro c member
    rcases proper.indent c member with rfl | rfl
    · exact blank.1
    · exact blank.2
  have parts : d.text = d.indent ++ ((d.keyword ++ d.gap) ++ (d.static ++ (d.name ++ (d.space ++
      ([';'] ++ (d.comment ++ ['\n'])))))) := by
    simp [text, line, subject]
  have stop : ∀ c, (d.space ++ ([';'] ++ (d.comment ++ ['\n'])) ++ ahead).head? = some c →
      isNamePart c = false := by
    have semicolon : isNamePart ';' = false := by decide
    intro c head
    cases space : d.space with
    | nil =>
      rw [space] at head
      cases head
      exact semicolon
    | cons b more =>
      rw [space] at head
      cases head
      exact isNamePart_of_isBlank (proper.space _ (space ▸ List.mem_cons_self))
  -- Each part is read where the one before it ends, in view of all the parts after it.
  rw [parts]
  obtain ⟨static, reads, isStatic⟩ := proper.lexes_static
    ((p.after d.indent).after (d.keyword ++ d.gap)) (d.name ++ (d.space ++ ([';'] ++ (d.comment ++ ['\n']))) ++ ahead)
  obtain ⟨name, reads', makes⟩ := proper.imported.lexes stop
    (((p.after d.indent).after (d.keyword ++ d.gap)).after d.static)
  have semicolon (p : Position) :
      Lexes p ([';'] ++ (d.comment ++ ['\n'])) ahead [⟨.symbol, [';'], p⟩] :=
    ((lexeme_mark (.inl rfl) _).lexes p).append (proper.comment.lexes (.inr (by simp)) _ ahead)
  have subject := reads.append (reads'.append ((lexes_blanks proper.space _ _).append (semicolon _)))
  have whole := (lexes_blanks indent p _).append
    ((lexes_keyword keyword proper.gap _ _).append subject)
  refine ⟨static ++ name, _, _, by simpa using whole, ?_, ?_⟩
  · intro t member
    rcases List.mem_append.mp member with here | there
    · exact (isStatic t here).1
    · exact (makes.parts t there).1
  · have left : static.filter (fun t => !t.isWord "static") = [] := by
      rw [List.filter_eq_nil_iff]
      intro t member
      rw [(isStatic t member).2]
      exact Bool.false_ne_true
    have kept : name.filter (fun t => !t.isWord "static") = name := by
      rw [List.filter_eq_self]
      intro t member
      rw [(makes.parts t member).2]
      rfl
    rw [List.filter_append, left, kept]
    exact makes.spelling

end Directive

/-! ### Layouts -/

/-- A part of a source before its body. -/
inductive Entry where
  /-- Blanks and comments. -/
  | filler (text : Text)
  | directive (d : Directive)

/-- No line starts with the keyword of a declaration. -/
def Quiet (t : Text) : Prop :=
  Text.atFirstLine? (afterKeyword? "import") true t = none ∧
    Text.atFirstLine? (afterKeyword? "package") true t = none

namespace Entry

/-- The lines. -/
def text : Entry → Text
  | .filler text => text
  | .directive d => d.text

/-- The entry is what it should be, and the readers of lines find nothing else in it. -/
def Proper : Entry → Prop
  | .filler text => Text.LineStart text ∧ Tokenless text ∧ Quiet text
  | .directive d => d.Proper

/-- The name after the given keyword. -/
def declared? (keyword : Text) : Entry → Option Text
  | .filler _ => none
  | .directive d => if d.keyword = keyword then some d.name else none

/-- The lines of some entries. -/
def lines (entries : List Entry) : Text := entries.flatMap text

/-- The names after the given keyword. -/
def declared (keyword : Text) (entries : List Entry) : List Text :=
  entries.filterMap (declared? keyword)

/-- The package of some entries, or the given one if they name none. -/
def package (entries : List Entry) (default : Text) : Text :=
  (declared "package" entries).getLast?.getD default

theorem declared_directive (keyword : Text) (d : Directive) (entries : List Entry) :
    declared keyword (.directive d :: entries) =
      (if d.keyword = keyword then [d.name] else []) ++ declared keyword entries := by
  unfold declared
  rw [List.filterMap_cons, declared?]
  by_cases same : d.keyword = keyword
  · rw [if_pos same, if_pos same]
    rfl
  · rw [if_neg same, if_neg same]
    rfl

end Entry

/-! ### Reading a layout -/

theorem declaredKind?_directive {word : Text} (known : word = "import".toList ∨ word = "package".toList)
    (q : Position) (afterPoint : Bool) (rest : List Token) :
    declaredKind? afterPoint (⟨.identifier, word, q⟩ :: rest) = none := by
  cases rest with
  | nil => rfl
  | cons next rest =>
    have other (kind : Text) (other : kind ≠ word) :
        Token.isWord ⟨.identifier, word, q⟩ kind = false := by
      simpa [Token.isWord] using Ne.symm other
    simp only [declaredKind?]
    rw [other "class" (by rcases known with rfl | rfl <;> decide),
      other "interface" (by rcases known with rfl | rfl <;> decide),
      other "enum" (by rcases known with rfl | rfl <;> decide),
      other "record" (by rcases known with rfl | rfl <;> decide)]
    simp [Token.isSymbol]

/-- A run of elements is taken up to where it ends. -/
theorem takeWhile_append_of_stop {α : Type} {p : α → Bool} {x y : List α}
    (all : ∀ a ∈ x, p a = true) (stop : ∀ a, y.head? = some a → p a = false) :
    (x ++ y).takeWhile p = x ∧ (x ++ y).dropWhile p = y := by
  rw [List.takeWhile_append_of_pos all, List.dropWhile_append_of_pos all]
  cases y with
  | nil => simp
  | cons a y => simp [stop a rfl]

/-- A declaration outside every type is read in one step. -/
theorem Directive.Proper.step {d : Directive} (proper : d.Proper) (contract : FixerContract)
    (o : Outline) {tokens : List Token} (rest : List Token) (q r : Position)
    (parts : ∀ t ∈ tokens, t.isSymbol ";" = false)
    (name : spelling (tokens.filter fun t => !t.isWord "static") = d.name) :
    Reading.step contract ⟨.identifier, d.keyword, q⟩ (tokens ++ ⟨.symbol, [';'], r⟩ :: rest)
        ⟨[], [], o, false⟩ =
      .ok (⟨[], [], Reading.declare d.keyword d.name o, false⟩, rest) := by
  have keyword : d.keyword = "import".toList ∨ d.keyword = "package".toList := by
    rcases proper.keyword with ⟨same, _⟩ | ⟨same, _⟩
    · exact .inl same
    · exact .inr same
  -- A directive is recognised by its keyword alone.
  have known : Token.isOneOf ⟨.identifier, d.keyword, q⟩ ["package", "import"] = true := by
    rcases keyword with same | same <;> rw [same] <;> rfl
  obtain ⟨taken, left⟩ := takeWhile_append_of_stop (p := fun t : Token => !t.isSymbol ";")
    (fun t member => by rw [parts t member]; rfl) (y := ⟨.symbol, [';'], r⟩ :: rest)
    (by rintro t ⟨⟩; rfl)
  unfold Reading.step
  simp only [declaredKind?_directive keyword, known, decide_true, Bool.and_self, if_true]
  unfold Reading.directive
  simp only [taken, left, name, reduceCtorEq, if_false, List.tail_cons]

/-- The outline of a source, once these entries are read. -/
def Outline.declaring (entries : List Entry) (o : Outline) : Outline :=
  { o with
    package := Entry.package entries o.package
    imports := o.imports ++ Entry.declared "import" entries }

theorem Outline.declaring_nil (o : Outline) : o.declaring [] = o := by
  unfold Outline.declaring Entry.package Entry.declared
  rw [List.filterMap_nil, List.filterMap_nil, List.append_nil]
  rfl

theorem Outline.declaring_directive {d : Directive} (proper : d.Proper) (entries : List Entry)
    (o : Outline) : o.declaring (.directive d :: entries) =
      (Reading.declare d.keyword d.name o).declaring entries := by
  unfold Outline.declaring Entry.package Reading.declare
  rw [Entry.declared_directive, Entry.declared_directive]
  rcases proper.keyword with ⟨same, _⟩ | ⟨same, _⟩
  · rw [same, if_neg (by decide), if_pos rfl, if_neg (by decide)]
    simp
  · rw [same, if_pos rfl, if_neg (by decide), if_pos rfl]
    simp [List.getLast?_cons]

/-- The entries of a layout are read one by one, in view of what follows them. -/
theorem reaches_entries (contract : FixerContract) {entries : List Entry}
    (proper : ∀ e ∈ entries, e.Proper) (p : Position) (ahead : Text) (o : Outline)
    (rest : List Token) : ∃ tokens, Lexes p (Entry.lines entries) ahead tokens ∧
      Reaches contract ⟨[], [], o, false⟩ (tokens ++ rest) ⟨[], [], o.declaring entries, false⟩ rest := by
  induction entries generalizing p o with
  | nil =>
    rw [Outline.declaring_nil]
    exact ⟨[], .nil p ahead, .start⟩
  | cons e entries ih =>
    obtain ⟨first, others⟩ := List.forall_mem_cons.mp proper
    -- A filler is read as no token. A directive is one step of the reader, up to its semicolon.
    cases e with
    | filler text =>
      obtain ⟨tokens, reads, reaches⟩ := ih others (p.after text) o
      exact ⟨tokens, (first.2.1.lexes first.1 p _).append reads, reaches⟩
    | directive d =>
      obtain ⟨later, reads', reaches⟩ := ih others (p.after d.text) (Reading.declare d.keyword d.name o)
      obtain ⟨tokens, q, r, reads, parts, name⟩ := Directive.Proper.lexes first p (Entry.lines entries ++ ahead)
      have step := Directive.Proper.step first contract o (later ++ rest) q r parts name
      rw [← Outline.declaring_directive first] at reaches
      refine ⟨_, reads.append reads', .trans ?_ reaches⟩
      rw [List.append_assoc, List.cons_append, List.append_assoc]
      exact .step .start step

/-- A layout is read line by line up to its body. -/
theorem outline_layout (contract : FixerContract) {entries : List Entry}
    (proper : ∀ e ∈ entries, e.Proper) (body : Text) :
    outline contract (Entry.lines entries ++ body) =
      (tokenizeFrom (Position.after {} (Entry.lines entries)) body).bind fun t =>
        readOutline contract t.stop ⟨[], [], Outline.declaring entries {}, false⟩ t.tokens := by
  unfold outline tokenize
  cases tokens : tokenizeFrom (Position.after {} (Entry.lines entries)) body with
  | error e =>
    obtain ⟨_, reads, _⟩ := reaches_entries contract proper {} body {} []
    unfold Lexes at reads
    rw [reads, tokens]
    rfl
  | ok t =>
    obtain ⟨_, reads, reaches⟩ := reaches_entries contract proper {} body {} t.tokens
    unfold Lexes at reads
    rw [reads, tokens]
    exact readOutline_of_reaches reaches t.stop

/-! ### One body in two layouts -/

/-- The same token, perhaps at another place. -/
def Moved (t t' : Token) : Prop := t.kind = t'.kind ∧ t.text = t'.text

theorem Moved.alike {t t' : Token} (moved : Moved t t') : Alike t t' where
  kind := moved.1
  symbol _ := moved.2
  word _ := .inl moved.2

theorem abreast_of_moved {tokens tokens' : List Token} (pairs : List.Forall₂ Moved tokens tokens') :
    Abreast Moved tokens tokens' := by
  induction pairs with
  | nil => exact .nil
  | cons moved _ ih => exact .cons moved (fun _ _ => moved.2) ih

/-- Where a text starts makes no difference to its tokens. -/
theorem tokenizeFrom_moved (p p' : Position) (source : Text) :
    Outcomes (fun _ _ => True) (fun t t' => List.Forall₂ Moved t.tokens t'.tokens)
      (tokenizeFrom p source) (tokenizeFrom p' source) := by
  -- On the length of the source: what is read first does not ask for the position, and what is
  -- left is shorter.
  induction size : source.length using Nat.strong_induction_on generalizing source p p' with
  | _ n ih =>
  cases source with
  | nil =>
    rw [tokenizeFrom, tokenizeFrom]
    exact .ok .nil
  | cons c rest =>
    cases found : front c rest with
    | error problem =>
      rw [tokenizeFrom_of_error found, tokenizeFrom_of_error found]
      exact .error trivial
    | ok f =>
      have shorter : f.rest.length < n := size ▸ length_rest_lt found
      rw [tokenizeFrom_of_front found, tokenizeFrom_of_front found]
      refine (ih _ shorter (p.after f.text) (p'.after f.text) f.rest rfl).map fun t t' pairs => ?_
      unfold Tokenization.push
      cases f.kind with
      | none => exact pairs
      | some kind => exact .cons ⟨rfl, rfl⟩ pairs

/-- A return statement without its line. -/
def Return.unplaced (r : Return) : Return := { r with line := 0 }

/-- A method without its lines. -/
def Method.unplaced (m : Method) : Method :=
  { m with line := 0, returns := m.returns.map Return.unplaced }

/-- A type declaration without its lines. -/
def TypeDeclaration.unplaced (d : TypeDeclaration) : TypeDeclaration :=
  { d with line := 0, methods := d.methods.map Method.unplaced }

theorem map_eq_of_forall₂ {α β : Type} {R : α → α → Prop} {f : α → β}
    (same : ∀ a a', R a a' → f a' = f a) {l l' : List α} (pairs : List.Forall₂ R l l') :
    l'.map f = l.map f := by
  induction pairs with
  | nil => rfl
  | cons pair _ ih => rw [List.map_cons, List.map_cons, same _ _ pair, ih]

section

variable {R : Token → Token → Prop} (moved : ∀ t t', R t t' → Moved t t')
include moved

theorem Spelled.eq {text text' : Text} (spelled : Spelled R text text') : text' = text := by
  obtain ⟨tokens, tokens', pairs, rfl, rfl⟩ := spelled
  have same := map_eq_of_forall₂ (f := Token.text) (fun t t' pair => (moved t t' pair).2.symm) pairs
  unfold spelling
  rw [List.flatMap_def, List.flatMap_def, same]

theorem names_eq {names names' : List Text}
    (pairs : List.Forall₂ (Named (Words R)) names names') : names' = names := by
  have same := map_eq_of_forall₂ (f := id) (fun _ _ named => ?_) pairs
  · simpa using same
  · obtain ⟨t, t', ⟨pair, _⟩, rfl, rfl⟩ := named
    exact (moved t t' pair).2.symm

end

section

variable {c : Course} (moved : ∀ t t', c.pair t t' → Moved t t')
include moved

theorem MethodAlike.unplaced {m m' : Method} (alike : MethodAlike c m m') :
    m'.unplaced = m.unplaced := by
  obtain ⟨⟨name, arity, _, returnType, modifiers, generic⟩, _, hasBody, returns⟩ := alike
  have returns := map_eq_of_forall₂ (f := Return.unplaced) (fun r r' both => ?_) returns
  · unfold Method.unplaced
    rw [name, arity, returnType.eq moved, modifiers, generic, hasBody, returns]
  · unfold Return.unplaced
    rw [both.isNull]

theorem TypeAlike.unplaced {d d' : TypeDeclaration} (alike : TypeAlike c d d') :
    d'.unplaced = d.unplaced := by
  obtain ⟨⟨⟨t, t', pair, same, same'⟩, _⟩, kind, _, bases, interfaces, methods, role, role'⟩ := alike
  have methods := map_eq_of_forall₂ (fun _ _ method => MethodAlike.unplaced moved method) methods
  have name : d'.name = d.name := by rw [same, same', (moved t t' pair).2]
  unfold TypeDeclaration.unplaced
  rw [name, methods, role, role', ← kind, names_eq moved bases, names_eq moved interfaces]

end

/-- Two layouts with the same body and the same packages have the same types. Behind the imports of their
own they have the same imports. -/
theorem outline_of_entries {contract : FixerContract} {entries entries' : List Entry}
    (proper : ∀ e ∈ entries, e.Proper) (proper' : ∀ e ∈ entries', e.Proper)
    (package : Entry.declared "package" entries' = Entry.declared "package" entries) {body : Text}
    {o : Outline} (read : outline contract (Entry.lines entries ++ body) = .ok o) :
    ∃ o', outline contract (Entry.lines entries' ++ body) = .ok o' ∧ o'.package = o.package ∧
      o'.types.map (·.unplaced) = o.types.map (·.unplaced) ∧
      ∃ more, o.imports = Entry.declared "import" entries ++ more ∧
        o'.imports = Entry.declared "import" entries' ++ more := by
  rw [outline_layout contract proper] at read
  rw [outline_layout contract proper']
  have tokens := tokenizeFrom_moved (Position.after {} (Entry.lines entries))
    (Position.after {} (Entry.lines entries')) body
  revert read
  generalize tokenizeFrom (Position.after {} (Entry.lines entries)) body = x at tokens ⊢
  generalize tokenizeFrom (Position.after {} (Entry.lines entries')) body = x' at tokens ⊢
  intro read
  cases tokens with
  | error => cases read
  | @ok t t' pairs =>
  -- From here the two readings go in lockstep: the same tokens, at other positions.
  let c : Course := {
    contract
    pair := Moved
    alike := fun _ _ => Moved.alike
    read := fun _ => True
    imports := Entry.declared "import" entries
    imports' := Entry.declared "import" entries' }
  have start : OutlineAlike c (Outline.declaring entries {}) (Outline.declaring entries' {}) := by
    let name : Token := ⟨.identifier, Entry.package entries [], {}⟩
    refine ⟨⟨[name], [name], .cons ⟨rfl, rfl⟩ .nil, ?_, ?_⟩, ⟨[], [], ?_, ?_, .nil⟩, .nil⟩
    · simp [Outline.declaring, spelling, name]
    · have same : Entry.package entries' [] = Entry.package entries [] := by
        unfold Entry.package
        rw [package]
      simp [Outline.declaring, spelling, name, same]
    · simp [Outline.declaring, c]
    · simp [Outline.declaring, c]
  have both := readOutline_lockstep (c := c) (.fresh .nil start (abreast_of_moved pairs) false)
    (fun _ _ _ => trivial) t.stop t'.stop
  simp only [Except.bind] at read ⊢
  rw [show c.contract = contract from rfl, read] at both
  revert both
  generalize readOutline contract t'.stop _ t'.tokens = result
  intro both
  cases both with
  | @ok _ o' outlines =>
    obtain ⟨more, more', imports, imports', same⟩ := outlines.imports
    have same : more' = more := by
      have same := map_eq_of_forall₂ (f := id) (fun _ _ => Spelled.eq fun _ _ => id) same
      simpa using same
    refine ⟨o', rfl, outlines.package.eq fun _ _ => id, ?_, more, imports, same ▸ imports'⟩
    exact map_eq_of_forall₂ (fun _ _ type => TypeAlike.unplaced (fun _ _ => id) type) outlines.types

end Layering.Java
