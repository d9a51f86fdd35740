import Layering.Proofs.Grammar

/-!
# What headers say

The counters of brackets come back to where they were behind every type, so a member header of the
grammar is split at its own parenthesis and says what the grammar says of it (`exists_methodHeader?`),
and so is a type header (`splitBody_header`).
-/

namespace Layering.Java

/-! ### Tokens -/

section

variable {t : Token} {a b : Text}

theorem Token.isSymbol_other (symbol : t.isSymbol a = true) (other : a ≠ b) :
    t.isSymbol b = false := by
  unfold Token.isSymbol at symbol ⊢
  simp only [Bool.and_eq_true, decide_eq_true_eq] at symbol
  rw [symbol.2, decide_eq_false other, Bool.and_false]

theorem Token.isIdentifier_of_isSymbol (symbol : t.isSymbol a = true) : t.isIdentifier = false := by
  unfold Token.isSymbol at symbol
  simp only [Bool.and_eq_true, decide_eq_true_eq] at symbol
  unfold Token.isIdentifier
  rw [symbol.1]
  rfl

theorem Token.isOneOf_of_not_isIdentifier (other : t.isIdentifier = false) (words : List Text) :
    t.isOneOf words = false := by
  unfold Token.isIdentifier at other
  unfold Token.isOneOf
  rw [other, Bool.false_and]

theorem Token.isOneOf_of_isSymbol (symbol : t.isSymbol a = true) (words : List Text) :
    t.isOneOf words = false :=
  isOneOf_of_not_isIdentifier (isIdentifier_of_isSymbol symbol) words

theorem Token.isWord_of_isSymbol (symbol : t.isSymbol a = true) (word : Text) :
    t.isWord word = false := by
  have unnamed := isIdentifier_of_isSymbol symbol
  unfold Token.isIdentifier at unnamed
  unfold Token.isWord
  rw [unnamed, Bool.false_and]

theorem Token.isSymbol_of_isIdentifier (identifier : t.isIdentifier = true) (a : Text) :
    t.isSymbol a = false := by
  unfold Token.isIdentifier at identifier
  unfold Token.isSymbol
  rw [of_decide_eq_true identifier]
  rfl

theorem Token.isIdentifier_of_isOneOf {words : List Text} (one : t.isOneOf words = true) :
    t.isIdentifier = true := by
  unfold Token.isOneOf at one
  exact (Bool.and_eq_true _ _ ▸ one).1

theorem Token.isIdentifier_of_isWord {word : Text} (same : t.isWord word = true) :
    t.isIdentifier = true := by
  unfold Token.isWord at same
  exact (Bool.and_eq_true _ _ ▸ same).1

theorem Token.isWord_other (same : t.isWord a = true) (other : a ≠ b) : t.isWord b = false := by
  unfold Token.isWord at same ⊢
  simp only [Bool.and_eq_true, decide_eq_true_eq] at same
  rw [same.2, decide_eq_false other, Bool.and_false]

theorem Token.isOneOf_of_isWord {word : Text} (same : t.isWord word = true) (words : List Text) :
    t.isOneOf words = words.contains word := by
  unfold Token.isWord at same
  simp only [Bool.and_eq_true, decide_eq_true_eq] at same
  unfold Token.isOneOf
  rw [same.1, same.2]
  rfl

theorem Token.isOneOf_other {words others : List Text} (one : t.isOneOf words = true)
    (apart : words.all (!others.contains ·) = true) : t.isOneOf others = false := by
  unfold Token.isOneOf at one ⊢
  simp only [Bool.and_eq_true, List.contains_iff_mem] at one
  have absent := List.all_eq_true.mp apart _ one.2
  rw [Bool.not_eq_true'] at absent
  rw [absent, Bool.and_false]

theorem Token.isIdentifier_of_isName (named : t.isName = true) : t.isIdentifier = true :=
  (Bool.and_eq_true _ _ ▸ named).1

theorem Token.text_not_mem_of_isName (named : t.isName = true) : t.text ∉ reservedWords := by
  unfold Token.isName at named
  simp only [Bool.and_eq_true, Bool.not_eq_true', List.contains_eq_mem, decide_eq_false_iff_not]
    at named
  exact named.2

theorem Token.isOneOf_of_isName (named : t.isName = true) {words : List Text}
    (reserved : words.all reservedWords.contains = true) : t.isOneOf words = false := by
  have free := text_not_mem_of_isName named
  unfold Token.isOneOf
  rw [Bool.and_eq_false_iff]
  right
  simp only [List.contains_eq_mem, decide_eq_false_iff_not]
  intro member
  have found := List.all_eq_true.mp reserved _ member
  exact free (by simpa using found)

theorem Token.isWord_of_isName (named : t.isName = true) {word : Text}
    (reserved : reservedWords.contains word = true) : t.isWord word = false := by
  have free := text_not_mem_of_isName named
  unfold Token.isWord
  rw [Bool.and_eq_false_iff]
  right
  rw [decide_eq_false_iff_not]
  rintro rfl
  exact free (by simpa using reserved)

theorem Token.isModifier_of_isName (named : t.isName = true) : t.isModifier = false :=
  isOneOf_of_isName named (by decide)

theorem Token.isModifier_of_isSymbol (symbol : t.isSymbol a = true) : t.isModifier = false :=
  isOneOf_of_isSymbol symbol _

end

/-! ### Tokens on one level -/

/-- The token is no bracket that a counter looks at, no comma and no equals sign. -/
def Token.isLevel (t : Token) : Bool :=
  !t.isOpening && !t.isClosing && !t.isSymbol "," && !t.isSymbol "="

theorem Token.isLevel_of_isIdentifier {t : Token} (identifier : t.isIdentifier = true) :
    t.isLevel = true := by
  have symbol := isSymbol_of_isIdentifier identifier
  simp only [Token.isLevel, Token.isOpening, Token.isClosing, symbol, Bool.or_self, Bool.not_false,
    Bool.and_self]

theorem Token.isLevel_of_isSymbol {t : Token} {a : Text} (symbol : t.isSymbol a = true)
    (other : (["<", ">", "(", ")", ",", "="] : List Text).all (a ≠ ·) = true) :
    t.isLevel = true := by
  simp only [List.all_cons, List.all_nil, Bool.and_true, Bool.and_eq_true, decide_eq_true_eq] at other
  obtain ⟨less, greater, opens, closes, comma, equals⟩ := other
  simp only [Token.isLevel, Token.isOpening, Token.isClosing, isSymbol_other symbol less,
    isSymbol_other symbol greater, isSymbol_other symbol opens, isSymbol_other symbol closes,
    isSymbol_other symbol comma, isSymbol_other symbol equals, Bool.or_self, Bool.not_false,
    Bool.and_self]

/-- Outside type arguments there are no brackets that a counter looks at, no commas and no equals
signs. -/
inductive Flat : List Token → Prop
  | nil : Flat []
  | token {t : Token} {rest : List Token} (level : t.isLevel = true) (more : Flat rest) :
      Flat (t :: rest)
  | arguments {arguments rest : List Token} (applied : TypeArguments arguments) (more : Flat rest) :
      Flat (arguments ++ rest)

namespace Flat

theorem append {tokens rest : List Token} (flat : Flat tokens) (more : Flat rest) :
    Flat (tokens ++ rest) := by
  induction flat with
  | nil => exact more
  | token level _ ih => exact ih.token level
  | arguments applied _ ih =>
    rw [List.append_assoc]
    exact ih.arguments applied

theorem of_level {tokens : List Token} (level : ∀ t ∈ tokens, t.isLevel = true) : Flat tokens := by
  induction tokens with
  | nil => exact .nil
  | cons t rest ih =>
    exact (ih fun u member => level u (List.mem_cons_of_mem t member)).token
      (level t List.mem_cons_self)

theorem of_arguments {tokens : List Token} (applied : TypeArguments tokens) : Flat tokens := by
  have flat := Flat.nil.arguments applied
  rwa [List.append_nil] at flat

theorem of_modifiers {tokens : List Token} (marked : ∀ t ∈ tokens, t.isModifier = true) :
    Flat tokens :=
  of_level fun t member =>
    Token.isLevel_of_isIdentifier (Token.isIdentifier_of_isOneOf (marked t member))

theorem of_dimensions {tokens : List Token} (array : Dimensions tokens) : Flat tokens := by
  induction array with
  | none => exact .nil
  | more opens closes _ ih =>
    exact (ih.token (Token.isLevel_of_isSymbol closes (by decide))).token
      (Token.isLevel_of_isSymbol opens (by decide))

theorem of_isName {t : Token} (named : t.isName = true) : Flat [t] :=
  Flat.nil.token (Token.isLevel_of_isIdentifier (Token.isIdentifier_of_isName named))

theorem of_isType {tokens : List Token} {simple : Text} (typed : IsType tokens simple) :
    Flat tokens := by
  induction typed with
  | name named => exact of_isName named
  | inner _ pointed named ih =>
    exact ih.append ((of_isName named).token (Token.isLevel_of_isSymbol pointed (by decide)))
  | arguments _ applied ih => exact ih.append (of_arguments applied)
  | array _ opens closes ih =>
    exact ih.append (of_dimensions (.more opens closes .none))

theorem of_parameter {tokens : List Token} (parameter : Parameter tokens) : Flat tokens := by
  obtain ⟨marked, typed, varied, named, array⟩ := parameter
  have dots : ∀ {dots : List Token}, (dots = [] ∨ ∃ t, dots = [t] ∧ t.isSymbol "..." = true) →
      Flat dots := by
    rintro dots (rfl | ⟨t, rfl, symbol⟩)
    · exact .nil
    · exact Flat.nil.token (Token.isLevel_of_isSymbol symbol (by decide))
  exact (((of_modifiers marked).append (of_isType typed)).append (dots varied)).append
    ((of_isName named).append (of_dimensions array))

end Flat

/-! ### Splitting member headers -/

theorem splitParameters_nested {inner : List Token}
    (nested : Nested (·.isSymbol "<") (·.isSymbol ">") inner) (angle : Nat) (rest : List Token) :
    splitParameters (angle + 1) (inner ++ rest) =
      (splitParameters (angle + 1) rest).map fun (before, parameters) =>
        (inner ++ before, parameters) := by
  -- By the nesting: a plain token goes to the parameters, and a group returns to the depth that
  -- it was opened at.
  induction nested generalizing angle rest with
  | nil => simp
  | token open_ close _ ih =>
    rw [List.cons_append, splitParameters]
    simp only [open_, close, Nat.add_eq_zero_iff, Nat.succ_ne_self, and_false, decide_false,
      Bool.false_and, Bool.false_eq_true, if_false, ih, Option.map_map]
    rfl
  | @group opening closing inner more open_ close _ _ ihInside ihMore =>
    have unclosed : opening.isSymbol ">" = false := Token.isSymbol_other open_ (by decide)
    have unopened : closing.isSymbol "<" = false := Token.isSymbol_other close (by decide)
    rw [List.append_assoc, List.cons_append, List.cons_append, splitParameters]
    simp only [open_, Nat.add_eq_zero_iff, Nat.succ_ne_self, and_false, decide_false,
      Bool.false_and, Bool.false_eq_true, if_false, if_true, ihInside]
    rw [splitParameters]
    simp only [close, unopened, Nat.add_eq_zero_iff, Nat.succ_ne_self, and_false, decide_false,
      Bool.false_and, Bool.false_eq_true, if_false, if_true, Nat.add_sub_cancel, ihMore,
      Option.map_map]
    congr 1
    funext pair
    simp

/-- A header that starts flat is split further on. -/
theorem Flat.splitParameters {tokens : List Token} (flat : Flat tokens) (rest : List Token) :
    splitParameters 0 (tokens ++ rest) =
      (Java.splitParameters 0 rest).map fun (before, parameters) =>
        (tokens ++ before, parameters) := by
  -- On one level: between angles nothing ends the parameters, so type arguments pass whole.
  induction flat with
  | nil => simp
  | @token t more level _ ih =>
    simp only [Token.isLevel, Token.isOpening, Token.isClosing, Bool.and_eq_true, Bool.not_eq_true',
      Bool.or_eq_false_iff] at level
    rw [List.cons_append, Java.splitParameters]
    simp only [level, Bool.and_false, Bool.false_eq_true, if_false, ih, Option.map_map]
    rfl
  | @arguments _ more applied _ ih =>
    obtain @⟨opening, closing, inner, open_, close, nested, _⟩ := applied
    have unequal : opening.isSymbol "=" = false := Token.isSymbol_other open_ (by decide)
    have unparen : opening.isSymbol "(" = false := Token.isSymbol_other open_ (by decide)
    have unopened : closing.isSymbol "<" = false := Token.isSymbol_other close (by decide)
    rw [List.append_assoc, List.append_assoc, List.cons_append, List.singleton_append,
      Java.splitParameters]
    simp only [open_, unequal, unparen, Bool.and_false, Bool.false_eq_true, if_false, if_true,
      splitParameters_nested nested]
    rw [Java.splitParameters]
    simp only [close, unopened, Nat.zero_add, Nat.one_ne_zero, decide_false, Bool.false_and,
      Bool.false_eq_true, if_false, if_true, Nat.sub_self, ih, Option.map_map]
    congr 1
    funext pair
    simp

/-- Behind an equals sign no parameters can follow. -/
theorem splitParameters_equals {equals : Token} (assigned : equals.isSymbol "=" = true)
    (rest : List Token) : splitParameters 0 (equals :: rest) = none := by
  rw [splitParameters, assigned]
  rfl

theorem splitParameters_opening {opening : Token} (opens : opening.isSymbol "(" = true)
    (rest : List Token) : splitParameters 0 (opening :: rest) = some ([], rest) := by
  have other : opening.isSymbol "=" = false := Token.isSymbol_other opens (by decide)
  rw [splitParameters, opens, other]
  rfl

/-! ### Counting parameters -/

/-- Brackets of one kind are brackets that the counters take for one kind. -/
theorem Nested.brackets {inner : List Token}
    (nested : Nested (·.isSymbol "<") (·.isSymbol ">") inner)
    (types : ∀ t ∈ inner, t.isParenthesis = false ∧ t.isModifier = false) :
    Nested Token.isOpening Token.isClosing inner := by
  -- Types hold no round brackets, so their angles are the brackets that the counting sees.
  induction nested with
  | nil => exact .nil
  | token open_ close _ ih =>
    obtain ⟨first, others⟩ := List.forall_mem_cons.mp types
    have parenthesis := Bool.or_eq_false_iff.mp first.1
    apply (ih others).token
    · exact Bool.or_eq_false_iff.mpr ⟨open_, parenthesis.1⟩
    · exact Bool.or_eq_false_iff.mpr ⟨close, parenthesis.2⟩
  | group open_ close _ _ ihInside ihMore =>
    obtain ⟨first, others⟩ := List.forall_mem_append.mp types
    apply Nested.group
    · exact Bool.or_eq_true_iff.mpr (.inl open_)
    · exact Bool.or_eq_true_iff.mpr (.inl close)
    · exact ihInside (List.forall_mem_cons.mp first).2
    · exact ihMore (List.forall_mem_cons.mp others).2

theorem Token.isOpening_of_isClosing {t : Token} (closes : t.isClosing = true) :
    t.isOpening = false := by
  rcases Bool.or_eq_true_iff.mp closes with symbol | symbol <;>
    exact Bool.or_eq_false_iff.mpr
      ⟨isSymbol_other symbol (by decide), isSymbol_other symbol (by decide)⟩

theorem countParameters_nested {inner : List Token}
    (nested : Nested Token.isOpening Token.isClosing inner) (depth commas : Nat) (rest : List Token) :
    countParameters (depth + 1) commas true (inner ++ rest) =
      countParameters (depth + 1) commas true rest := by
  -- Inside a bracket no comma counts, and a group comes back to the same depth.
  induction nested generalizing depth rest with
  | nil => rfl
  | token open_ close _ ih =>
    rw [List.cons_append, countParameters]
    simp [open_, close, ih]
  | group open_ close _ _ ihInside ihMore =>
    rw [List.append_assoc, List.cons_append, List.cons_append, countParameters]
    simp only [open_, if_true, ihInside]
    rw [countParameters]
    simp [Token.isOpening_of_isClosing close, close, ihMore]

/-- Flat tokens are a part of one parameter. -/
theorem Flat.countParameters {tokens : List Token} (flat : Flat tokens) (commas : Nat) (seen : Bool)
    (rest : List Token) : countParameters 0 commas seen (tokens ++ rest) =
      Java.countParameters 0 commas (seen || !tokens.isEmpty) rest := by
  induction flat generalizing seen with
  | nil => simp
  | token level _ ih =>
    simp only [Token.isLevel, Bool.and_eq_true, Bool.not_eq_true'] at level
    have unclosed : Token.isSymbol _ ")" = false := (Bool.or_eq_false_iff.mp level.1.1.2).2
    rw [List.cons_append, Java.countParameters]
    simp only [level, unclosed, ih, Bool.and_false, Bool.false_eq_true, if_false, Bool.true_or,
      List.isEmpty_cons, Bool.not_false, Bool.or_true]
  | arguments applied _ ih =>
    obtain @⟨opening, closing, inner, open_, close, nested, types⟩ := applied
    have opens : opening.isOpening = true := Bool.or_eq_true_iff.mpr (.inl open_)
    have closes : closing.isClosing = true := Bool.or_eq_true_iff.mpr (.inl close)
    have unopened : closing.isOpening = false := Token.isOpening_of_isClosing closes
    rw [List.append_assoc, List.append_assoc, List.cons_append, List.singleton_append,
      Java.countParameters]
    simp only [opens, if_true, countParameters_nested (nested.brackets types)]
    rw [Java.countParameters]
    simp only [closes, unopened, ih, Nat.zero_add, Nat.one_ne_zero, decide_false, Bool.false_and,
      Bool.false_eq_true, if_false, if_true, Nat.sub_self, Bool.true_or, List.cons_append,
      List.isEmpty_cons, Bool.not_false, Bool.or_true]

theorem countParameters_closing {closing : Token} (closes : closing.isSymbol ")" = true)
    (commas : Nat) (seen : Bool) (rest : List Token) :
    countParameters 0 commas seen (closing :: rest) = if seen then commas + 1 else 0 := by
  have unopened : closing.isOpening = false :=
    Token.isOpening_of_isClosing (Bool.or_eq_true_iff.mpr (.inr closes))
  rw [countParameters]
  simp only [unopened, closes, Bool.false_eq_true, if_false, decide_true, Bool.and_self, if_true]

theorem countParameters_comma {comma : Token} (separated : comma.isSymbol "," = true)
    (commas : Nat) (seen : Bool) (rest : List Token) :
    countParameters 0 commas seen (comma :: rest) = countParameters 0 (commas + 1) seen rest := by
  have unopened : comma.isOpening = false := Bool.or_eq_false_iff.mpr
    ⟨Token.isSymbol_other separated (by decide), Token.isSymbol_other separated (by decide)⟩
  have unclosed : comma.isClosing = false := Bool.or_eq_false_iff.mpr
    ⟨Token.isSymbol_other separated (by decide), Token.isSymbol_other separated (by decide)⟩
  have other : comma.isSymbol ")" = false := Token.isSymbol_other separated (by decide)
  rw [countParameters]
  simp only [unopened, unclosed, other, separated, Bool.false_eq_true, if_false, decide_true,
    Bool.and_false, Bool.and_self, if_true]

theorem Parameter.countParameters {p : List Token} (parameter : Parameter p) (commas : Nat)
    (seen : Bool) (rest : List Token) :
    countParameters 0 commas seen (p ++ rest) = Java.countParameters 0 commas true rest := by
  have some_ : p.isEmpty = false := by
    cases parameter
    simp
  rw [(Flat.of_parameter parameter).countParameters, some_, Bool.not_false, Bool.or_true]

/-- The counter of parameters counts them. -/
theorem Parameters.countParameters {parameters : List Token} {n : Nat} {closing : Token}
    (taken : Parameters parameters n) (closes : closing.isSymbol ")" = true) (rest : List Token) :
    countParameters 0 0 false (parameters ++ closing :: rest) = n := by
  have counted {parameters : List Token} {n : Nat} (taken : Parameters parameters (n + 1))
      (commas : Nat) (seen : Bool) :
      Java.countParameters 0 commas seen (parameters ++ closing :: rest) = commas + (n + 1) := by
    generalize number : n + 1 = k at taken
    -- One parameter after the other: each counts by the comma before it, and the first by
    -- having been seen.
    induction taken generalizing n commas seen with
    | none => cases number
    | last parameter =>
      rw [parameter.countParameters, countParameters_closing closes, ← number]
      simp_all
    | more parameter separated _ ih =>
      rw [List.append_assoc, List.cons_append, parameter.countParameters,
        countParameters_comma separated, ih _ _ rfl]
      omega
  cases n with
  | zero =>
    cases taken
    exact countParameters_closing closes 0 false rest
  | succ n => rw [counted taken, Nat.zero_add]

/-! ### Reading types backwards -/

theorem typeBackwards_nested {inner : List Token}
    (nested : Nested (·.isSymbol "<") (·.isSymbol ">") inner) {angle : Int} (within : 0 < angle)
    (before : List Token) : typeBackwards angle (inner.reverse ++ before) =
      inner.reverse ++ typeBackwards angle before := by
  -- The tokens are read from the back, so what closes a group opens it for this reader.
  induction nested generalizing angle before with
  | nil => rfl
  | token open_ close _ ih =>
    have inside : ¬angle = 0 := by omega
    rw [List.reverse_cons, List.append_assoc, ih within, List.append_assoc, List.singleton_append,
      List.singleton_append, typeBackwards]
    simp only [open_, close, inside, decide_false, Bool.false_and, Bool.false_eq_true, if_false]
  | @group opening closing inner more open_ close _ _ ihInside ihMore =>
    have inside : ¬angle = 0 := by omega
    have deeper : ¬angle + 1 = 0 := by omega
    have unclosed : opening.isSymbol ">" = false := Token.isSymbol_other open_ (by decide)
    have read : (opening :: inner ++ closing :: more).reverse ++ before =
        more.reverse ++ closing :: (inner.reverse ++ opening :: before) := by simp
    have whole : (opening :: inner ++ closing :: more).reverse =
        more.reverse ++ closing :: (inner.reverse ++ [opening]) := by simp
    rw [read, whole, ihMore within, typeBackwards]
    simp only [close, inside, deeper, decide_false, Bool.false_and, Bool.false_eq_true, if_false,
      if_true]
    rw [ihInside (by omega), typeBackwards]
    simp only [open_, unclosed, inside, deeper, decide_false, Bool.false_and, Bool.false_eq_true,
      if_false, if_true, Int.add_sub_cancel, List.append_assoc, List.cons_append, List.nil_append]

theorem typeBackwards_arguments {arguments : List Token} (applied : TypeArguments arguments)
    (before : List Token) : typeBackwards 0 (arguments.reverse ++ before) =
      arguments.reverse ++ typeBackwards 0 before := by
  obtain @⟨opening, closing, inner, open_, close, nested, types⟩ := applied
  have unclosed : opening.isSymbol ">" = false := Token.isSymbol_other open_ (by decide)
  have unnamed : opening.isIdentifier = false := Token.isIdentifier_of_isSymbol open_
  have plain : closing.isModifier = false := Token.isModifier_of_isSymbol close
  have read : (opening :: inner ++ [closing]).reverse ++ before =
      closing :: (inner.reverse ++ opening :: before) := by simp
  have whole : (opening :: inner ++ [closing]).reverse =
      closing :: (inner.reverse ++ [opening]) := by simp
  rw [read, whole, typeBackwards]
  simp only [plain, close, Bool.and_false, Bool.false_eq_true, if_false, if_true]
  rw [typeBackwards_nested nested (by omega), typeBackwards]
  simp only [open_, unclosed, unnamed, Int.zero_add, Int.one_ne_zero, decide_false, Bool.false_and,
    Bool.and_false, Bool.false_eq_true, if_false, if_true, Int.sub_self, List.append_assoc,
    List.cons_append, List.nil_append]

theorem typeBackwards_symbol {t : Token} {a : Text} (symbol : t.isSymbol a = true)
    (less : a ≠ "<") (greater : a ≠ ">") (before : List Token) :
    typeBackwards 0 (t :: before) = t :: typeBackwards 0 before := by
  rw [typeBackwards]
  simp only [Token.isModifier_of_isSymbol symbol, Token.isSymbol_other symbol less,
    Token.isSymbol_other symbol greater, Token.isIdentifier_of_isSymbol symbol, Bool.and_false,
    Bool.false_and, Bool.false_eq_true, if_false]

theorem typeBackwards_name {t : Token} (named : t.isName = true) (before : List Token) :
    typeBackwards 0 (t :: before) =
      if before.head?.any (·.isSymbol ".") then t :: typeBackwards 0 before else [t] := by
  have identifier := Token.isIdentifier_of_isName named
  rw [typeBackwards]
  simp only [Token.isModifier_of_isName named, Token.isSymbol_of_isIdentifier identifier, identifier,
    Bool.and_false, Bool.false_eq_true, if_false, decide_true, Bool.true_and]
  cases before.head?.any (·.isSymbol ".") <;> rfl

/-- Read backwards, a type ends with its first name. -/
theorem IsType.typeBackwards {type : List Token} {simple : Text} (typed : IsType type simple)
    {before : List Token} (unqualified : before.head?.any (·.isSymbol ".") = false) :
    typeBackwards 0 (type.reverse ++ before) = type.reverse := by
  -- By the shape of the type. Its last part is read first, and a point before it asks for more.
  induction typed with
  | name named =>
    rw [List.reverse_singleton, List.singleton_append, typeBackwards_name named, unqualified]
    rfl
  | @inner type _ point t _ pointed named ih =>
    have read : (type ++ [point, t]).reverse ++ before = t :: point :: (type.reverse ++ before) := by
      simp
    rw [read, typeBackwards_name named, List.head?_cons, Option.any_some, pointed, if_pos rfl,
      typeBackwards_symbol pointed (by decide) (by decide), ih]
    simp
  | arguments _ applied ih =>
    rw [List.reverse_append, List.append_assoc, typeBackwards_arguments applied, ih]
  | @array type _ opening closing _ opens closes ih =>
    have read : (type ++ [opening, closing]).reverse ++ before =
        closing :: opening :: (type.reverse ++ before) := by simp
    rw [read, typeBackwards_symbol closes (by decide) (by decide),
      typeBackwards_symbol opens (by decide) (by decide), ih]
    simp

/-- Nothing of the modifiers is taken for a type. -/
theorem typeBackwards_modifiers {modifiers : List Token}
    (marked : ∀ t ∈ modifiers, t.isModifier = true) : typeBackwards 0 modifiers.reverse = [] := by
  have last : ∀ t ∈ modifiers.reverse, t.isModifier = true := fun t member =>
    marked t (List.mem_reverse.mp member)
  generalize modifiers.reverse = backwards at last
  cases backwards with
  | nil => rfl
  | cons t before =>
    rw [typeBackwards, last t List.mem_cons_self]
    rfl

/-! ### Member headers -/

theorem IsType.exists_cons {type : List Token} {simple : Text} (typed : IsType type simple) :
    ∃ t rest, type = t :: rest ∧ t.isName = true := by
  induction typed with
  | @name t named => exact ⟨t, [], rfl, named⟩
  | inner _ _ _ ih | arguments _ _ ih | array _ _ _ ih =>
    obtain ⟨t, rest, rfl, named⟩ := ih
    exact ⟨t, _, rfl, named⟩

theorem TypeArguments.exists_cons {own : List Token} (applied : TypeArguments own) :
    ∃ t rest, own = t :: rest ∧ t.isSymbol "<" = true := by
  obtain @⟨opening, closing, inner, open_, _, _⟩ := applied
  exact ⟨opening, inner ++ [closing], rfl, open_⟩

theorem TypeArguments.exists_concat {own : List Token} (applied : TypeArguments own) :
    ∃ front t, own = front ++ [t] ∧ t.isSymbol ">" = true := by
  obtain @⟨opening, closing, inner, _, close, _⟩ := applied
  exact ⟨opening :: inner, closing, rfl, close⟩

theorem TypeArguments.no_modifier {own : List Token} (applied : TypeArguments own) :
    ∀ t ∈ own, t.isModifier = false := by
  obtain ⟨open_, close, _, types⟩ := applied
  refine List.forall_mem_append.mpr ⟨List.forall_mem_cons.mpr ⟨?_, ?_⟩, ?_⟩
  · exact Token.isModifier_of_isSymbol open_
  · exact fun t member => (types t member).2
  · exact List.forall_mem_singleton.mpr (Token.isModifier_of_isSymbol close)

theorem IsType.no_modifier {type : List Token} {simple : Text} (typed : IsType type simple) :
    ∀ t ∈ type, t.isModifier = false := by
  induction typed with
  | name named => exact List.forall_mem_singleton.mpr (Token.isModifier_of_isName named)
  | inner _ pointed named ih =>
    exact List.forall_mem_append.mpr ⟨ih, List.forall_mem_cons.mpr
      ⟨Token.isModifier_of_isSymbol pointed,
        List.forall_mem_singleton.mpr (Token.isModifier_of_isName named)⟩⟩
  | arguments _ applied ih =>
    exact List.forall_mem_append.mpr ⟨ih, applied.no_modifier⟩
  | array _ opens closes ih =>
    exact List.forall_mem_append.mpr ⟨ih, List.forall_mem_cons.mpr
      ⟨Token.isModifier_of_isSymbol opens,
        List.forall_mem_singleton.mpr (Token.isModifier_of_isSymbol closes)⟩⟩

section

variable {modifiers own type : List Token} (marked : ∀ t ∈ modifiers, t.isModifier = true)
  (generic : Optional TypeArguments own)
  (typed : Optional (fun type => ∃ simple, IsType type simple) type)
include marked generic typed

theorem flat_start : Flat (modifiers ++ own ++ type) := by
  apply ((Flat.of_modifiers marked).append _).append
  · rcases typed with rfl | ⟨_, typed⟩
    · exact .nil
    · exact .of_isType typed
  · rcases generic with rfl | applied
    · exact .nil
    · exact .of_arguments applied

/-- The type before the name is the declared one, where a method with type parameters has a type. -/
theorem typeBackwards_start (constructor_ : own ≠ [] → type ≠ []) :
    (typeBackwards 0 (modifiers ++ own ++ type).reverse).reverse = type := by
  rw [List.reverse_append]
  rcases typed with rfl | ⟨_, typed⟩
  · obtain rfl : own = [] := by
      by_contra some_
      exact constructor_ some_ rfl
    rw [List.append_nil, List.reverse_nil, List.nil_append, typeBackwards_modifiers marked]
    rfl
  · -- Before the type stands a modifier, the end of the type parameters, or nothing.
    have unqualified : (modifiers ++ own).reverse.head?.any (·.isSymbol ".") = false := by
      rcases generic with rfl | applied
      · have last : ∀ t ∈ modifiers.reverse, t.isModifier = true := fun t member =>
          marked t (List.mem_reverse.mp member)
        rw [List.append_nil]
        generalize modifiers.reverse = backwards at last
        cases backwards with
        | nil => rfl
        | cons t before =>
          exact Token.isSymbol_of_isIdentifier
            (Token.isIdentifier_of_isOneOf (last t List.mem_cons_self)) _
      · obtain ⟨front, t, rfl, close⟩ := applied.exists_concat
        rw [List.reverse_append, List.reverse_append, List.reverse_singleton]
        exact Token.isSymbol_other close (by decide)
    rw [typed.typeBackwards unqualified, List.reverse_reverse]

theorem filter_start : (modifiers ++ own ++ type).filter (·.isModifier) = modifiers := by
  have ownless : own.filter (·.isModifier) = [] := by
    rcases generic with rfl | applied
    · rfl
    · exact List.filter_eq_nil_iff.mpr fun t member => by simp [applied.no_modifier t member]
  have typeless : type.filter (·.isModifier) = [] := by
    rcases typed with rfl | ⟨_, typed⟩
    · rfl
    · exact List.filter_eq_nil_iff.mpr fun t member => by simp [typed.no_modifier t member]
  rw [List.filter_append, List.filter_append, ownless, typeless, List.append_nil, List.append_nil]
  exact List.filter_eq_self.mpr marked

/-- Behind the modifiers the type parameters come first. -/
theorem generic_start : ((modifiers ++ own ++ type).find? fun t => !t.isModifier).any
    (·.isSymbol "<") = !own.isEmpty := by
  have none : modifiers.find? (fun t => !t.isModifier) = none :=
    List.find?_eq_none.mpr fun t member => by simp [marked t member]
  rw [List.append_assoc, List.find?_append, none, Option.none_or]
  rcases generic with rfl | applied
  · rcases typed with rfl | ⟨_, typed⟩
    · rfl
    · obtain ⟨t, rest, rfl, named⟩ := typed.exists_cons
      rw [List.nil_append, List.find?_cons, Token.isModifier_of_isName named]
      exact Token.isSymbol_of_isIdentifier (Token.isIdentifier_of_isName named) _
  · obtain ⟨t, rest, rfl, open_⟩ := applied.exists_cons
    rw [List.cons_append, List.find?_cons, Token.isModifier_of_isSymbol open_]
    exact open_

end

/-- A method with type parameters of its own has a return type: it is no constructor. -/
def Method.Typed (m : Method) : Prop := m.generic = true → m.returnType ≠ []

/-- A header declares its method. Of a constructor with type parameters the return type is mistaken. -/
theorem MethodHeader.exists_methodHeader? {header : List Token} {m : Method}
    (declared : MethodHeader header m) : ∃ type,
      methodHeader? header = some { m with returnType := type } ∧ (m.Typed → type = m.returnType) := by
  obtain @⟨modifiers, own, type, parameters, clause, name, opening, closing, arity, marked, generic,
    returns, named, opens, taken, closes⟩ := declared
  have flat : Flat (modifiers ++ own ++ type ++ [name]) :=
    (flat_start marked generic returns).append (.of_isName named)
  have read : modifiers ++ own ++ type ++ name :: opening :: (parameters ++ closing :: clause) =
      modifiers ++ own ++ type ++ [name] ++ opening :: (parameters ++ closing :: clause) := by simp
  have other : name.text ≠ "new" := by
    rintro same
    exact Token.text_not_mem_of_isName named (same ▸ by decide)
  refine ⟨spelling (typeBackwards 0 (modifiers ++ own ++ type).reverse).reverse, ?_, fun typed => ?_⟩
  · unfold methodHeader?
    rw [read, flat.splitParameters, splitParameters_opening opens]
    simp only [Option.map_some, List.append_nil, Option.bind_eq_bind, Option.bind_some,
      List.getLast?_append, List.getLast?_singleton, Option.some_or, List.dropLast_concat,
      Token.isIdentifier_of_isName named, other, Bool.not_true, decide_false, Bool.or_self,
      Bool.false_eq_true, if_false, taken.countParameters closes, filter_start marked generic returns,
      generic_start marked generic returns]
  · have constructor_ : own ≠ [] → type ≠ [] := by
      rintro some_ rfl
      exact typed (by simpa using some_) rfl
    rw [typeBackwards_start marked generic returns constructor_]

theorem Declarators.splitParameters {names : List Token} (declared : Declarators names)
    (rest : List Token) (none : splitParameters 0 rest = none) :
    Java.splitParameters 0 (names ++ rest) = Option.none := by
  -- The names of a field open no bracket, so no name is taken for that of a method.
  induction declared with
  | last named array =>
    have flat := (Flat.of_isName named).append (.of_dimensions array)
    rw [List.singleton_append] at flat
    rw [flat.splitParameters, none, Option.map_none]
  | more named array separated _ ih =>
    have flat := (Flat.of_isName named).append (.of_dimensions array)
    rw [List.singleton_append] at flat
    have plain (symbol : Text) (other : "," ≠ symbol) := Token.isSymbol_other separated other
    rw [List.append_assoc, flat.splitParameters, List.cons_append, Java.splitParameters]
    simp only [plain "=" (by decide), plain "(" (by decide), plain "<" (by decide),
      plain ">" (by decide), Bool.and_false, Bool.false_eq_true, if_false, ih, Option.map_none]

/-- A field declares no method. -/
theorem FieldHeader.splitParameters {header : List Token} (declared : FieldHeader header)
    (rest : List Token) (none : splitParameters 0 rest = none) :
    Java.splitParameters 0 (header ++ rest) = Option.none := by
  obtain ⟨marked, typed, names⟩ := declared
  have flat := (Flat.of_modifiers marked).append (.of_isType typed)
  rw [List.append_assoc, flat.splitParameters, names.splitParameters rest none, Option.map_none]

theorem methodHeader?_of_splitParameters {header : List Token}
    (none : splitParameters 0 header = none) : methodHeader? header = Option.none := by
  unfold methodHeader?
  rw [none]
  rfl

theorem FieldHeader.methodHeader?_eq {header : List Token} (declared : FieldHeader header) :
    methodHeader? header = none := by
  have none := declared.splitParameters [] rfl
  rw [List.append_nil] at none
  exact methodHeader?_of_splitParameters none

theorem FieldHeader.methodHeader?_initialized {header value : List Token} {equals : Token}
    (declared : FieldHeader header) (assigned : equals.isSymbol "=" = true) :
    methodHeader? (header ++ equals :: value) = none :=
  methodHeader?_of_splitParameters (declared.splitParameters _ (splitParameters_equals assigned _))

theorem methodHeader?_modifiers {modifiers : List Token}
    (marked : ∀ t ∈ modifiers, t.isModifier = true) : methodHeader? modifiers = none := by
  have none := (Flat.of_modifiers marked).splitParameters []
  rw [List.append_nil] at none
  exact methodHeader?_of_splitParameters none

/-! ### Type headers -/

theorem splitBody_nested {inner : List Token} (nested : Nested Token.isOpening Token.isClosing inner)
    (depth : Nat) (rest : List Token) :
    splitBody (depth + 1) (inner ++ rest) = splitBody (depth + 1) rest := by
  -- Inside a bracket a brace begins no body, and a group comes back to the same depth.
  induction nested generalizing depth rest with
  | nil => rfl
  | token open_ close _ ih =>
    rw [List.cons_append, splitBody]
    simp only [open_, close, Nat.add_eq_zero_iff, Nat.succ_ne_self, and_false, decide_false,
      Bool.false_and, Bool.false_eq_true, if_false, ih]
  | group open_ close _ _ ihInside ihMore =>
    rw [List.append_assoc, List.cons_append, List.cons_append, splitBody]
    simp only [open_, Nat.add_eq_zero_iff, Nat.succ_ne_self, and_false, decide_false,
      Bool.false_and, Bool.false_eq_true, if_false, if_true, ihInside]
    rw [splitBody]
    simp only [Token.isOpening_of_isClosing close, close, Nat.add_eq_zero_iff, Nat.succ_ne_self,
      and_false, decide_false, Bool.false_and, Bool.false_eq_true, if_false, if_true,
      Nat.add_sub_cancel, ihMore]

/-- What stands in brackets behind the name of a type is passed over. -/
theorem splitBody_enclosed {a b : Text} {tokens : List Token}
    (opening_ : ∀ t : Token, t.isSymbol a = true → t.isOpening = true)
    (closing_ : ∀ t : Token, t.isSymbol b = true → t.isClosing = true) (other : a ≠ "\x7b")
    (enclosed : Enclosed a b (Nested Token.isOpening Token.isClosing) tokens) (rest : List Token) :
    splitBody 0 (tokens ++ rest) = splitBody 0 rest := by
  obtain @⟨opening, closing, inner, open_, close, nested⟩ := enclosed
  have brace : opening.isSymbol "\x7b" = false := Token.isSymbol_other open_ other
  have closes := closing_ closing close
  rw [List.append_assoc, List.cons_append, splitBody]
  simp only [brace, opening_ opening open_, Bool.and_false, Bool.false_eq_true, if_false, if_true,
    splitBody_nested nested]
  rw [List.singleton_append, splitBody]
  simp only [closes, Token.isOpening_of_isClosing closes, Nat.zero_add, Nat.one_ne_zero,
    decide_false, Bool.false_and, Bool.false_eq_true, if_false, if_true, Nat.sub_self]

theorem splitBody_angles {tokens : List Token}
    (enclosed : Enclosed "<" ">" (Nested Token.isOpening Token.isClosing) tokens)
    (rest : List Token) : splitBody 0 (tokens ++ rest) = splitBody 0 rest :=
  splitBody_enclosed (fun _ symbol => Bool.or_eq_true_iff.mpr (.inl symbol))
    (fun _ symbol => Bool.or_eq_true_iff.mpr (.inl symbol)) (by decide) enclosed rest

theorem splitBody_parentheses {tokens : List Token}
    (enclosed : Enclosed "(" ")" (Nested Token.isOpening Token.isClosing) tokens)
    (rest : List Token) : splitBody 0 (tokens ++ rest) = splitBody 0 rest :=
  splitBody_enclosed (fun _ symbol => Bool.or_eq_true_iff.mpr (.inr symbol))
    (fun _ symbol => Bool.or_eq_true_iff.mpr (.inr symbol)) (by decide) enclosed rest

theorem TypeArguments.enclosed {tokens : List Token} (applied : TypeArguments tokens) :
    Enclosed "<" ">" (Nested Token.isOpening Token.isClosing) tokens := by
  obtain ⟨open_, close, nested, types⟩ := applied
  exact ⟨open_, close, nested.brackets types⟩

/-- Of the front of a type header these tokens remain. -/
def Remains (tokens outside : List Token) : Prop :=
  ∀ rest, splitBody 0 (tokens ++ rest) =
    (splitBody 0 rest).map fun (header, body) => (outside ++ header, body)

theorem Remains.nil : Remains [] [] := by
  intro rest
  simp

theorem Remains.append {tokens tokens' outside outside' : List Token}
    (remains : Remains tokens outside) (more : Remains tokens' outside') :
    Remains (tokens ++ tokens') (outside ++ outside') := by
  intro rest
  rw [List.append_assoc, remains, more, Option.map_map]
  congr 1
  funext pair
  simp

theorem Remains.of_level {t : Token} (open_ : t.isOpening = false) (close : t.isClosing = false)
    (brace : t.isSymbol "\x7b" = false) : Remains [t] [t] := by
  intro rest
  rw [List.singleton_append, splitBody]
  simp only [open_, close, brace, Bool.and_false, Bool.false_eq_true, if_false, decide_true, if_true]
  rfl

theorem Remains.of_isIdentifier {t : Token} (identifier : t.isIdentifier = true) :
    Remains [t] [t] := by
  have symbol := Token.isSymbol_of_isIdentifier identifier
  exact of_level (Bool.or_eq_false_iff.mpr ⟨symbol _, symbol _⟩)
    (Bool.or_eq_false_iff.mpr ⟨symbol _, symbol _⟩) (symbol _)

theorem Remains.of_isSymbol {t : Token} {a : Text} (symbol : t.isSymbol a = true)
    (other : (["<", ">", "(", ")", "\x7b"] : List Text).all (a ≠ ·) = true) : Remains [t] [t] := by
  simp only [List.all_cons, List.all_nil, Bool.and_true, Bool.and_eq_true, decide_eq_true_eq] at other
  obtain ⟨less, greater, opens, closes, brace⟩ := other
  exact of_level
    (Bool.or_eq_false_iff.mpr
      ⟨Token.isSymbol_other symbol less, Token.isSymbol_other symbol opens⟩)
    (Bool.or_eq_false_iff.mpr
      ⟨Token.isSymbol_other symbol greater, Token.isSymbol_other symbol closes⟩)
    (Token.isSymbol_other symbol brace)

section

variable {clause name : Option Text} {t : Token} {rest : List Token}

theorem supertypes_symbol {a : Text} (symbol : t.isSymbol a = true) (other : a ≠ ",") :
    supertypes clause name (t :: rest) = supertypes clause name rest := by
  rw [supertypes]
  simp only [Token.isOneOf_of_isSymbol symbol, Token.isSymbol_other symbol other,
    Token.isIdentifier_of_isSymbol symbol, Bool.false_eq_true, if_false]

theorem supertypes_name (named : t.isName = true) :
    supertypes clause name (t :: rest) = supertypes clause (some t.text) rest := by
  have word : t.isOneOf clauseKeywords = false := Token.isOneOf_of_isName named (by decide)
  have identifier := Token.isIdentifier_of_isName named
  rw [supertypes]
  simp only [word, Token.isSymbol_of_isIdentifier identifier, identifier, Bool.false_eq_true,
    if_false, if_true]

theorem supertypes_comma (separated : t.isSymbol "," = true) :
    supertypes clause name (t :: rest) =
      supertypes.entry clause name ++ supertypes clause none rest := by
  rw [supertypes]
  simp only [Token.isOneOf_of_isSymbol separated, separated, Bool.false_eq_true, if_false, if_true]

theorem supertypes_keyword (word : t.isOneOf clauseKeywords = true) :
    supertypes clause name (t :: rest) =
      supertypes.entry clause name ++ supertypes (some t.text) none rest := by
  rw [supertypes, word]
  rfl

end

/-- A supertype goes by its simple name. -/
theorem IsType.remains {type : List Token} {simple : Text} (typed : IsType type simple) :
    ∃ outside, Remains type outside ∧ ∀ clause name rest,
      supertypes clause name (outside ++ rest) = supertypes clause (some simple) rest := by
  -- By the shape of the type: its arguments fall away with their angles, and the last name read
  -- is the simple one.
  induction typed with
  | @name t named =>
    exact ⟨[t], .of_isIdentifier (Token.isIdentifier_of_isName named),
      fun _ _ _ => supertypes_name named⟩
  | @inner type _ point t _ pointed named ih =>
    obtain ⟨outside, remains, read⟩ := ih
    refine ⟨outside ++ ([point] ++ [t]), remains.append ?_, fun clause name rest => ?_⟩
    · exact (Remains.of_isSymbol pointed (by decide)).append
        (.of_isIdentifier (Token.isIdentifier_of_isName named))
    · rw [List.append_assoc, read]
      exact (supertypes_symbol pointed (by decide)).trans (supertypes_name named)
  | @arguments type arguments _ _ applied ih =>
    obtain ⟨outside, remains, read⟩ := ih
    have none : Remains arguments [] := by
      intro rest
      rw [splitBody_angles applied.enclosed]
      simp
    exact ⟨outside ++ [], remains.append none, by rwa [List.append_nil]⟩
  | @array type _ opening closing _ opens closes ih =>
    obtain ⟨outside, remains, read⟩ := ih
    refine ⟨outside ++ ([opening] ++ [closing]), remains.append ?_, fun clause name rest => ?_⟩
    · exact (Remains.of_isSymbol opens (by decide)).append (.of_isSymbol closes (by decide))
    · rw [List.append_assoc, read]
      exact (supertypes_symbol opens (by decide)).trans (supertypes_symbol closes (by decide))

/-- These tokens end the supertype before them, and are these supertypes. -/
def Lists (outside : List Token) (entries : List (Text × Text)) : Prop :=
  ∀ clause name, supertypes clause name outside = supertypes.entry clause name ++ entries

theorem Types.remains {types : List Token} {names : List Text} (listed : Types types names) :
    ∃ outside, Remains types outside ∧ ∀ keyword rest entries, Lists rest entries →
      supertypes (some keyword) none (outside ++ rest) = names.map (keyword, ·) ++ entries := by
  -- Type by type: a comma ends one entry under the same keyword.
  induction listed with
  | last typed =>
    obtain ⟨outside, remains, read⟩ := typed.remains
    refine ⟨outside, remains, fun keyword rest entries lists => ?_⟩
    rw [read, lists]
    rfl
  | @more _ _ comma _ _ typed separated _ ih =>
    obtain ⟨first, remains, read⟩ := typed.remains
    obtain ⟨others, remains', read'⟩ := ih
    refine ⟨first ++ ([comma] ++ others), ?_, fun keyword rest entries lists => ?_⟩
    · exact remains.append ((Remains.of_isSymbol separated (by decide)).append remains')
    · rw [List.append_assoc, read, List.append_assoc, List.singleton_append,
        supertypes_comma separated, read' keyword rest entries lists]
      rfl

theorem Clauses.remains {clauses : List Token} {entries : List (Text × Text)}
    (listed : Clauses clauses entries) :
    ∃ outside, Remains clauses outside ∧ Lists outside entries := by
  induction listed with
  | none =>
    refine ⟨[], .nil, fun clause name => ?_⟩
    rw [supertypes, List.append_nil]
  | @clause keyword _ _ _ _ word listed _ ih =>
    obtain ⟨first, remains, read⟩ := listed.remains
    obtain ⟨others, remains', lists⟩ := ih
    refine ⟨[keyword] ++ first ++ others, ?_, fun clause name => ?_⟩
    · have keyword_ := Remains.of_isIdentifier (Token.isIdentifier_of_isOneOf word)
      exact (keyword_.append remains).append remains'
    · rw [List.append_assoc, List.singleton_append, supertypes_keyword word,
        read keyword.text others _ lists]

theorem Lists.supertypesOf {outside : List Token} {entries : List (Text × Text)}
    (lists : Lists outside entries) (keyword : Text) :
    supertypesOf keyword outside = namesOf keyword entries := by
  unfold Java.supertypesOf namesOf
  rw [lists none none]
  rfl

/-- Behind its name, a type header is split at its brace, and its lists of supertypes are read. -/
theorem splitBody_header {own components clauses : List Token} {entries : List (Text × Text)}
    {opening : Token}
    (generic : Optional (Enclosed "<" ">" (Nested Token.isOpening Token.isClosing)) own)
    (record : Optional (Enclosed "(" ")" (Nested Token.isOpening Token.isClosing)) components)
    (listed : Clauses clauses entries) (opens : opening.isSymbol "\x7b" = true)
    (rest : List Token) : ∃ outside,
      splitBody 0 (own ++ components ++ clauses ++ opening :: rest) = some (outside, rest) ∧
      ∀ keyword, supertypesOf keyword outside = namesOf keyword entries := by
  obtain ⟨outside, remains, lists⟩ := listed.remains
  refine ⟨outside, ?_, lists.supertypesOf⟩
  -- From the back: the brace that opens the body, the clauses, then what may stand in brackets.
  have body : splitBody 0 (opening :: rest) = some ([], rest) := by
    rw [splitBody, opens]
    rfl
  have end_ : splitBody 0 (clauses ++ opening :: rest) = some (outside, rest) := by
    rw [remains, body]
    simp
  have middle : splitBody 0 (components ++ (clauses ++ opening :: rest)) = some (outside, rest) := by
    rcases record with rfl | record
    · exact end_
    · rw [splitBody_parentheses record, end_]
  rw [List.append_assoc, List.append_assoc]
  rcases generic with rfl | generic
  · exact middle
  · rw [splitBody_angles generic, middle]

end Layering.Java
