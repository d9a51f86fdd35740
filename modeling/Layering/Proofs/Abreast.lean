import Mathlib.Data.List.Forall2
import Layering.Java.Header

/-!
# Tokens side by side

Outlining looks at the symbols of a source and at a few words; of every other token it keeps the text
or the line at most. Headers that agree in what it looks at are split and read in the same way.
-/

namespace Layering.Java

/-! ### Tokens -/

/-- The words that outlining looks for. -/
def reservedWords : List Text :=
  let others : List Text :=
    ["package", "import", "class", "interface", "enum", "record", "new", "return", "null"]
  clauseKeywords ++ modifierWords ++ others

/-- Outlining does not tell the two tokens apart. -/
structure Alike (t t' : Token) : Prop where
  kind : t.kind = t'.kind
  symbol : t.kind = .symbol → t.text = t'.text
  word : t.kind = .identifier →
    t.text = t'.text ∨ t.text ∉ reservedWords ∧ t'.text ∉ reservedWords

namespace Alike

variable {t t' : Token} (alike : Alike t t')
include alike

theorem isSymbol_eq (text : Text) : t.isSymbol text = t'.isSymbol text := by
  unfold Token.isSymbol
  by_cases symbol : t.kind = .symbol
  · rw [alike.symbol symbol, alike.kind]
  · have symbol' : t'.kind ≠ .symbol := alike.kind ▸ symbol
    simp [symbol, symbol']

theorem isIdentifier_eq : t.isIdentifier = t'.isIdentifier := by
  rw [Token.isIdentifier, Token.isIdentifier, alike.kind]

theorem isOneOf_eq (words : List Text) (reserved : ∀ w ∈ words, w ∈ reservedWords) :
    t.isOneOf words = t'.isOneOf words := by
  unfold Token.isOneOf
  by_cases identifier : t.kind = .identifier
  · rcases alike.word identifier with same | ⟨free, free'⟩
    · rw [same, alike.kind]
    · have absent : words.contains t.text = false := by
        simpa using fun member => free (reserved _ member)
      have absent' : words.contains t'.text = false := by
        simpa using fun member => free' (reserved _ member)
      rw [absent, absent', alike.kind]
  · have identifier' : t'.kind ≠ .identifier := alike.kind ▸ identifier
    simp [identifier, identifier']

theorem isWord_eq (word : Text) (reserved : word ∈ reservedWords) :
    t.isWord word = t'.isWord word := by
  have one (t : Token) : t.isWord word = t.isOneOf [word] := by
    simp [Token.isWord, Token.isOneOf]
  rw [one, one]
  exact alike.isOneOf_eq _ fun w member => List.mem_singleton.mp member ▸ reserved

theorem text_eq {words : List Text} (reserved : ∀ w ∈ words, w ∈ reservedWords)
    (word : t.isOneOf words = true) : t.text = t'.text := by
  simp only [Token.isOneOf, Bool.and_eq_true, decide_eq_true_eq, List.contains_iff_mem] at word
  rcases alike.word word.1 with same | ⟨free, _⟩
  · exact same
  · exact absurd (reserved _ word.2) free

theorem isOpening_eq : t.isOpening = t'.isOpening := by
  simp only [Token.isOpening, alike.isSymbol_eq]

theorem isClosing_eq : t.isClosing = t'.isClosing := by
  simp only [Token.isClosing, alike.isSymbol_eq]

theorem isModifier_eq : t.isModifier = t'.isModifier :=
  alike.isOneOf_eq _ fun w member => by simp [reservedWords, member]

end Alike

/-- The token opens parameters or arguments, or an annotation. -/
def Token.isMark (t : Token) : Bool := t.isSymbol "(" || t.isSymbol "@"

/-- The tokens of two sources side by side. A name right before a mark is the same in both. -/
inductive Abreast (R : Token → Token → Prop) : List Token → List Token → Prop
  | nil : Abreast R [] []
  | cons {t t' : Token} {rest rest' : List Token} (pair : R t t')
      (kept : t.isIdentifier = true → rest.head?.any Token.isMark = true → t.text = t'.text)
      (more : Abreast R rest rest') : Abreast R (t :: rest) (t' :: rest')

/-- The text of a token of one source, and that of its partner. -/
def Named (R : Token → Token → Prop) (text text' : Text) : Prop :=
  ∃ t t', R t t' ∧ text = t.text ∧ text' = t'.text

/-- The partners that are names. -/
def Words (R : Token → Token → Prop) (t t' : Token) : Prop := R t t' ∧ t.isIdentifier = true

/-- The name of a declared type, and that of its partner. Only what is declared as an annotation may
have something else than a name. -/
def TypeNamed (R : Token → Token → Prop) (kind : TypeKind) (name name' : Text) : Prop :=
  Named R name name' ∧ (kind ≠ .annotationType → Named (Words R) name name')

/-- The joined text of some tokens of one source, and that of their partners. -/
def Spelled (R : Token → Token → Prop) (text text' : Text) : Prop :=
  ∃ tokens tokens', List.Forall₂ R tokens tokens' ∧ text = spelling tokens ∧
    text' = spelling tokens'

/-- The line of a token of one source, and that of its partner. -/
def Lined (R : Token → Token → Prop) (line line' : Nat) : Prop :=
  ∃ t t', R t t' ∧ line = t.position.line ∧ line' = t'.position.line

section

variable {R : Token → Token → Prop}

namespace Abreast

theorem pairs {tokens tokens' : List Token} (abreast : Abreast R tokens tokens') :
    List.Forall₂ R tokens tokens' := by
  induction abreast with
  | nil => exact .nil
  | cons pair _ _ ih => exact .cons pair ih

theorem append_left {front front' rest rest' : List Token}
    (abreast : Abreast R (front ++ rest) (front' ++ rest')) (level : front.length = front'.length) :
    Abreast R front front' := by
  induction front generalizing front' with
  | nil =>
    obtain rfl := List.length_eq_zero_iff.mp level.symm
    exact .nil
  | cons t front ih =>
    obtain ⟨t', front', rfl⟩ := List.exists_cons_of_length_eq_add_one level.symm
    cases abreast with
    | cons pair kept more =>
      refine .cons pair (fun identifier mark => kept identifier ?_) (ih more (by simpa using level))
      -- The mark that a pair is kept for is the front's own next token, never one from behind
      -- it.
      cases front with
      | nil => simp at mark
      | cons => exact mark

theorem append_right {front front' rest rest' : List Token}
    (abreast : Abreast R (front ++ rest) (front' ++ rest')) (level : front.length = front'.length) :
    Abreast R rest rest' := by
  induction front generalizing front' with
  | nil =>
    obtain rfl := List.length_eq_zero_iff.mp level.symm
    exact abreast
  | cons t front ih =>
    obtain ⟨t', front', rfl⟩ := List.exists_cons_of_length_eq_add_one level.symm
    cases abreast with
    | cons _ _ more => exact ih more (by simpa using level)

/-- Behind a mark the lists can go on with anything. -/
theorem splice {front front' rest rest' ahead ahead' : List Token} {mark mark' : Token}
    (abreast : Abreast R (front ++ mark :: rest) (front' ++ mark' :: rest'))
    (level : front.length = front'.length) (marks : mark.isMark = true)
    (onward : Abreast R ahead ahead') : Abreast R (front ++ ahead) (front' ++ ahead') := by
  induction front generalizing front' with
  | nil =>
    obtain rfl := List.length_eq_zero_iff.mp level.symm
    exact onward
  | cons t front ih =>
    obtain ⟨t', front', rfl⟩ := List.exists_cons_of_length_eq_add_one level.symm
    cases abreast with
    | cons pair kept more =>
      refine .cons pair (fun identifier next => kept identifier ?_) (ih more (by simpa using level))
      -- The last token of the front had a mark behind it, whatever is put there now.
      cases front with
      | nil => exact marks
      | cons => exact next

theorem tail {tokens tokens' : List Token} (abreast : Abreast R tokens tokens') :
    Abreast R tokens.tail tokens'.tail := by
  cases abreast with
  | nil => exact .nil
  | cons _ _ more => exact more

theorem dropWhile {p : Token → Bool} (same : ∀ t t', R t t' → p t = p t')
    {tokens tokens' : List Token} (abreast : Abreast R tokens tokens') :
    Abreast R (tokens.dropWhile p) (tokens'.dropWhile p) := by
  induction abreast with
  | nil => exact .nil
  | @cons t t' rest rest' pair kept more ih =>
    simp only [List.dropWhile_cons, ← same t t' pair]
    split
    · exact ih
    · exact .cons pair kept more

end Abreast

theorem forall₂_takeWhile {p : Token → Bool} (same : ∀ t t', R t t' → p t = p t')
    {tokens tokens' : List Token} (pairs : List.Forall₂ R tokens tokens') :
    List.Forall₂ R (tokens.takeWhile p) (tokens'.takeWhile p) := by
  induction pairs with
  | nil => exact .nil
  | @cons t t' rest rest' pair more ih =>
    simp only [List.takeWhile_cons, ← same t t' pair]
    split
    · exact .cons pair ih
    · exact .nil

theorem forall₂_filter {p : Token → Bool} (same : ∀ t t', R t t' → p t = p t')
    {tokens tokens' : List Token} (pairs : List.Forall₂ R tokens tokens') :
    List.Forall₂ R (tokens.filter p) (tokens'.filter p) :=
  List.rel_filter (fun t t' pair => iff_of_eq (by simp only [same t t' pair])) pairs

theorem rel_map {α α' β β' : Type} {r : α → α' → Prop} {s : β → β' → Prop} {f : α → β}
    {f' : α' → β'} (maps : ∀ a a', r a a' → s (f a) (f' a')) {a : Option α} {a' : Option α'}
    (rel : Option.Rel r a a') : Option.Rel s (a.map f) (a'.map f') := by
  cases rel with
  | none => exact .none
  | some both => exact .some (maps _ _ both)

theorem head?_rel {tokens tokens' : List Token} (pairs : List.Forall₂ R tokens tokens') :
    Option.Rel R tokens.head? tokens'.head? := by
  cases pairs with
  | nil => exact .none
  | cons pair _ => exact .some pair

theorem getLast?_rel {tokens tokens' : List Token} (pairs : List.Forall₂ R tokens tokens') :
    Option.Rel R tokens.getLast? tokens'.getLast? := by
  rw [← List.head?_reverse, ← List.head?_reverse]
  exact head?_rel (List.rel_reverse pairs)

theorem any_of_rel {p : Token → Bool} (same : ∀ t t', R t t' → p t = p t') {t t' : Option Token}
    (rel : Option.Rel R t t') : t.any p = t'.any p := by
  cases rel with
  | none => rfl
  | some pair => exact same _ _ pair

/-! ### Headers -/

variable (alike : ∀ t t', R t t' → Alike t t')
include alike

theorem splitBody_lockstep (depth : Nat) {tokens tokens' : List Token}
    (abreast : Abreast R tokens tokens') :
    Option.Rel (fun p p' => List.Forall₂ R p.1 p'.1 ∧ Abreast R p.2 p'.2)
      (splitBody depth tokens) (splitBody depth tokens') := by
  induction abreast generalizing depth with
  | nil => exact .none
  | @cons t t' rest rest' pair kept more ih =>
    -- Each branch asks only what related tokens agree on, so both readers take the same one.
    simp only [splitBody, ← (alike t t' pair).isSymbol_eq, ← (alike t t' pair).isOpening_eq,
      ← (alike t t' pair).isClosing_eq]
    split
    · exact .some ⟨.nil, more⟩
    split
    · exact ih (depth + 1)
    split
    · exact ih (depth - 1)
    split
    · exact rel_map (fun _ _ both => ⟨.cons pair both.1, both.2⟩) (ih depth)
    · exact ih depth

theorem supertypes_lockstep (clause : Option Text) {name name' : Option Text}
    (named : Option.Rel (Named (Words R)) name name') {header header' : List Token}
    (pairs : List.Forall₂ R header header') :
    List.Forall₂ (fun s s' => s.1 = s'.1 ∧ Named (Words R) s.2 s'.2)
      (supertypes clause name header) (supertypes clause name' header') := by
  have entry {clause name name'} (named : Option.Rel (Named (Words R)) name name') :
      List.Forall₂ (fun s s' => s.1 = s'.1 ∧ Named (Words R) s.2 s'.2)
        (supertypes.entry clause name) (supertypes.entry clause name') := by
    cases clause with
    | none => exact .nil
    | some clause =>
      cases named with
      | none => exact .nil
      | some named => exact .cons ⟨rfl, named⟩ .nil
  -- The keywords of a clause are reserved, and a reserved word is related to itself only.
  have clauses : ∀ w ∈ clauseKeywords, w ∈ reservedWords := fun w member => by
    simp [reservedWords, member]
  induction pairs generalizing clause name name' with
  | nil => exact entry named
  | @cons t t' rest rest' pair more ih =>
    have alike := alike t t' pair
    simp only [supertypes, ← alike.isSymbol_eq, ← alike.isOneOf_eq _ clauses, ← alike.isIdentifier_eq]
    split
    next keyword =>
      rw [← alike.text_eq clauses keyword]
      exact List.rel_append (entry named) (ih _ .none)
    split
    · exact List.rel_append (entry named) (ih _ .none)
    · apply ih
      split
      next identifier => exact .some ⟨t, t', ⟨pair, identifier⟩, rfl, rfl⟩
      next => exact named

theorem supertypesOf_lockstep (clause : Text) {header header' : List Token}
    (pairs : List.Forall₂ R header header') :
    List.Forall₂ (Named (Words R)) (supertypesOf clause header) (supertypesOf clause header') := by
  refine List.rel_map (fun s s' both => ?_) (List.rel_filter (fun s s' both => ?_)
    (supertypes_lockstep alike none .none pairs))
  · exact both.2
  · exact iff_of_eq (by simp only [both.1])

omit alike in
theorem splitParameters_nil {angle : Nat} {tokens parameters : List Token}
    (split : splitParameters angle tokens = some ([], parameters)) :
    tokens.head?.any Token.isMark = true := by
  cases tokens with
  | nil => simp [splitParameters] at split
  | cons t rest =>
    simp only [splitParameters] at split
    split at split
    · cases split
    split at split
    next both =>
      exact Bool.or_eq_true_iff.mpr (.inl (Bool.and_eq_true_iff.mp both).2)
    · simp at split

theorem splitParameters_lockstep (angle : Nat) {header header' : List Token}
    (abreast : Abreast R header header') :
    Option.Rel (fun p p' => List.Forall₂ R p.1 p'.1 ∧ List.Forall₂ R p.2 p'.2 ∧
        ∀ t t', p.1.getLast? = some t → p'.1.getLast? = some t' → t.isIdentifier = true →
          t.text = t'.text)
      (splitParameters angle header) (splitParameters angle header') := by
  induction abreast generalizing angle with
  | nil => exact .none
  | @cons t t' rest rest' pair kept more ih =>
    simp only [splitParameters, ← (alike t t' pair).isSymbol_eq]
    split
    · exact .none
    split
    · exact .some ⟨.nil, more.pairs, by simp⟩
    · generalize nested : (if t.isSymbol "<" then angle + 1
        else if t.isSymbol ">" then angle - 1 else angle) = angle'
      have inner := ih angle'
      have next (parameters : List Token) : splitParameters angle' rest = some ([], parameters) →
          rest.head?.any Token.isMark = true := splitParameters_nil
      revert inner next
      generalize splitParameters angle' rest = split
      generalize splitParameters angle' rest' = split'
      intro inner next
      cases inner with
      | none => exact .none
      | @some p p' both =>
        obtain ⟨before, parameters⟩ := p
        obtain ⟨before', parameters'⟩ := p'
        obtain ⟨same, same', last⟩ := both
        refine .some ⟨.cons pair same, same', fun u u' isLast isLast' => ?_⟩
        -- The last token before the parameters is this one, if the parameters come next.
        cases same with
        | nil =>
          obtain rfl := Option.some.inj isLast
          obtain rfl := Option.some.inj isLast'
          exact fun identifier => kept identifier (next parameters rfl)
        | cons => exact last u u' isLast isLast'

theorem countParameters_lockstep (depth commas : Nat) (seen : Bool) {tokens tokens' : List Token}
    (pairs : List.Forall₂ R tokens tokens') :
    countParameters depth commas seen tokens = countParameters depth commas seen tokens' := by
  induction pairs generalizing depth commas seen with
  | nil => rfl
  | @cons t t' rest rest' pair more ih =>
    simp only [countParameters, ← (alike t t' pair).isSymbol_eq, ← (alike t t' pair).isOpening_eq,
      ← (alike t t' pair).isClosing_eq, ih]

theorem typeBackwards_lockstep (angle : Int) {tokens tokens' : List Token}
    (pairs : List.Forall₂ R tokens tokens') :
    List.Forall₂ R (typeBackwards angle tokens) (typeBackwards angle tokens') := by
  induction pairs generalizing angle with
  | nil => exact .nil
  | @cons t t' rest rest' pair more ih =>
    -- The next token is asked too, for a qualified name.
    have point : rest.head?.any (·.isSymbol ".") = rest'.head?.any (·.isSymbol ".") :=
      any_of_rel (fun t t' pair => (alike t t' pair).isSymbol_eq _) (head?_rel more)
    simp only [typeBackwards, ← (alike t t' pair).isSymbol_eq, ← (alike t t' pair).isModifier_eq,
      ← (alike t t' pair).isIdentifier_eq, ← point]
    split
    · exact .nil
    generalize (if t.isSymbol ">" then angle + 1
      else if t.isSymbol "<" then angle - 1 else angle) = angle'
    split
    · exact .cons pair .nil
    · exact .cons pair (ih angle')

omit alike in
theorem dropLast_forall₂ {tokens tokens' : List Token} (pairs : List.Forall₂ R tokens tokens') :
    List.Forall₂ R tokens.dropLast tokens'.dropLast := by
  rw [List.dropLast_eq_take, List.dropLast_eq_take, pairs.length_eq]
  exact List.forall₂_take _ pairs

end

/-- What two member headers declare. -/
structure HeaderAlike (R : Token → Token → Prop) (m m' : Method) : Prop where
  name : m.name = m'.name
  arity : m.arity = m'.arity
  line : Lined R m.line m'.line
  returnType : Spelled R m.returnType m'.returnType
  modifiers : m.modifiers = m'.modifiers
  generic : m.generic = m'.generic

section

variable {R : Token → Token → Prop} (alike : ∀ t t', R t t' → Alike t t')
include alike

theorem modifiers_lockstep {tokens tokens' : List Token} (pairs : List.Forall₂ R tokens tokens') :
    (tokens.filter (·.isModifier)).map (·.text) = (tokens'.filter (·.isModifier)).map (·.text) := by
  induction pairs with
  | nil => rfl
  | @cons t t' rest rest' pair more ih =>
    have alike := alike t t' pair
    simp only [List.filter_cons, ← alike.isModifier_eq]
    split
    next modifier =>
      have text := alike.text_eq (fun w member => by simp [reservedWords, member]) modifier
      rw [List.map_cons, List.map_cons, ih, text]
    · exact ih

theorem find?_lockstep {tokens tokens' : List Token} (pairs : List.Forall₂ R tokens tokens') :
    Option.Rel R (tokens.find? fun t => !t.isModifier) (tokens'.find? fun t => !t.isModifier) := by
  rw [← List.head?_filter, ← List.head?_filter]
  refine head?_rel (forall₂_filter (fun t t' pair => ?_) pairs)
  rw [(alike t t' pair).isModifier_eq]

theorem methodHeader?_lockstep {header header' : List Token} (abreast : Abreast R header header') :
    Option.Rel (HeaderAlike R) (methodHeader? header) (methodHeader? header') := by
  have split := splitParameters_lockstep alike 0 abreast
  unfold methodHeader?
  revert split
  generalize splitParameters 0 header = split
  generalize splitParameters 0 header' = split'
  intro split
  cases split with
  | none => exact .none
  | @some p p' both =>
  obtain ⟨before, parameters⟩ := p
  obtain ⟨before', parameters'⟩ := p'
  obtain ⟨pairs, pairs', same⟩ := both
  have last := getLast?_rel pairs
  simp only [Option.bind_eq_bind, Option.bind_some]
  -- The last token before the parameters is the name.
  revert last same
  generalize before.getLast? = last
  generalize before'.getLast? = last'
  intro same last
  cases last with
  | none => exact .none
  | @some t t' pair =>
  simp only [Option.bind_some, ← (alike t t' pair).isIdentifier_eq]
  by_cases identifier : t.isIdentifier = true
  · have name := same t t' rfl rfl identifier
    have start := dropLast_forall₂ pairs
    have generic := any_of_rel (fun t t' pair => (alike t t' pair).isSymbol_eq "<")
      (find?_lockstep alike start)
    rw [← name]
    split
    · exact .none
    · exact .some {
        name := rfl
        arity := countParameters_lockstep alike 0 0 false pairs'
        line := ⟨t, t', pair, rfl, rfl⟩
        returnType := ⟨_, _, List.rel_reverse
          (typeBackwards_lockstep alike 0 (List.rel_reverse start)), rfl, rfl⟩
        modifiers := modifiers_lockstep alike start
        generic }
  · simp only [identifier, Bool.not_false, Bool.true_or, if_true]
    exact .none

theorem returnsNull_lockstep {tokens tokens' : List Token} (pairs : List.Forall₂ R tokens tokens') :
    returnsNull tokens = returnsNull tokens' := by
  have symbol (text : Text) (t t' : Token) (pair : R t t') : t.isSymbol text = t'.isSymbol text :=
    (alike t t' pair).isSymbol_eq text
  have depth := (forall₂_takeWhile (symbol "(") pairs).length_eq
  simp only [returnsNull, ← depth]
  have dropped := List.forall₂_drop (tokens.takeWhile (·.isSymbol "(")).length pairs
  revert dropped
  generalize (tokens.takeWhile (·.isSymbol "(")).length = depth
  generalize tokens.drop depth = rest
  generalize tokens'.drop depth = rest'
  intro dropped
  cases dropped with
  | nil => rfl
  | @cons t t' rest rest' pair more =>
    have closing := List.forall₂_take depth more
    have ends := any_of_rel (symbol ";") (head?_rel (List.forall₂_drop depth more))
    have all : ∀ {tokens tokens' : List Token}, List.Forall₂ R tokens tokens' →
        tokens.all (·.isSymbol ")") = tokens'.all (·.isSymbol ")") := by
      intro tokens tokens' pairs
      induction pairs with
      | nil => rfl
      | cons pair _ ih => rw [List.all_cons, List.all_cons, ih, symbol ")" _ _ pair]
    have null := (alike t t' pair).isWord_eq "null" (by decide)
    simp only [null, closing.length_eq, all closing, ends]

theorem declaredKind?_lockstep (afterPoint : Bool) {tokens tokens' : List Token}
    (pairs : List.Forall₂ R tokens tokens') :
    declaredKind? afterPoint tokens = declaredKind? afterPoint tokens' := by
  cases pairs with
  | nil => rfl
  | @cons t t' rest rest' pair more =>
  cases more with
  | nil => rfl
  | @cons next next' rest rest' pair' more =>
    have opening : rest.head?.any (·.isOpening) = rest'.head?.any (·.isOpening) :=
      any_of_rel (fun t t' pair => (alike t t' pair).isOpening_eq) (head?_rel more)
    have alike₁ := alike t t' pair
    have alike₂ := alike next next' pair'
    simp only [declaredKind?, alike₁.isSymbol_eq, alike₂.isIdentifier_eq, opening,
      alike₁.isWord_eq "class" (by decide), alike₁.isWord_eq "enum" (by decide),
      alike₁.isWord_eq "interface" (by decide),
      alike₁.isWord_eq "record" (by decide),
      alike₂.isWord_eq "interface" (by decide)]

omit alike in
theorem declaredKind?_name {afterPoint : Bool} {t : Token} {rest : List Token} {kind : TypeKind}
    (declared : declaredKind? afterPoint (t :: rest) = some kind) (other : kind ≠ .annotationType) :
    rest.head?.any (·.isIdentifier) = true := by
  cases rest with
  | nil => simp [declaredKind?] at declared
  | cons next rest =>
    simp only [declaredKind?] at declared
    split at declared
    · exact absurd (Option.some.inj declared).symm other
    split at declared
    · cases declared
    next plain =>
      simp only [Bool.or_eq_true, Bool.not_eq_true', not_or, Bool.not_eq_false] at plain
      exact plain.2

theorem afterAnnotationName_lockstep {tokens tokens' : List Token}
    (abreast : Abreast R tokens tokens') :
    Abreast R (afterAnnotationName tokens) (afterAnnotationName tokens') := by
  fun_induction afterAnnotationName tokens generalizing tokens' with
  | case1 name rest literal =>
    cases abreast with
    | @cons _ name' _ rest' pair kept more =>
    have literal' : (!name'.isIdentifier) = true := (alike _ _ pair).isIdentifier_eq ▸ literal
    rw [afterAnnotationName.eq_def]
    simp only [literal', if_true]
    exact .cons pair kept more
  | case2 name word point next rest qualified ih =>
    -- A point and a name after it go on with the qualified name.
    cases abreast with
    | cons pair kept more =>
    cases more with
    | cons pair' kept' more =>
    have more' := ih more
    cases more with
    | cons pair'' kept'' more =>
    rw [(alike _ _ pair).isIdentifier_eq] at word
    rw [(alike _ _ pair').isSymbol_eq, (alike _ _ pair'').isIdentifier_eq] at qualified
    rwa [afterAnnotationName, if_neg word, if_pos qualified]
  | case3 name word point next rest simple =>
    cases abreast with
    | cons pair kept more =>
    have more' := more
    cases more with
    | cons pair' kept' more =>
    cases more with
    | cons pair'' kept'' more =>
    rw [(alike _ _ pair).isIdentifier_eq] at word
    rw [(alike _ _ pair').isSymbol_eq, (alike _ _ pair'').isIdentifier_eq] at simple
    rwa [afterAnnotationName, if_neg word, if_neg simple]
  | case4 name rest word short =>
    cases abreast with
    | @cons _ _ _ rest' pair kept more =>
    rw [(alike _ _ pair).isIdentifier_eq] at word
    rw [afterAnnotationName, if_neg word]
    · exact more
    · rintro point next rest rfl
      cases more with
      | cons pair' kept' more =>
      cases more with
      | cons pair'' kept'' more => exact short _ _ _ rfl
  | case5 =>
    cases abreast
    exact .nil

theorem afterParenthesis_lockstep (depth : Nat) {tokens tokens' : List Token}
    (abreast : Abreast R tokens tokens') :
    Option.Rel (Abreast R) (afterParenthesis depth tokens) (afterParenthesis depth tokens') := by
  induction abreast generalizing depth with
  | nil => exact .none
  | @cons t t' rest rest' pair kept more ih =>
    simp only [afterParenthesis, ← (alike t t' pair).isSymbol_eq]
    split
    · exact ih (depth + 1)
    split
    · split
      · exact .some more
      · exact ih (depth - 1)
    · exact ih depth

end

end Layering.Java
