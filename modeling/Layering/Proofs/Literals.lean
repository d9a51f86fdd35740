import Layering.Proofs.Lockstep

/-!
# Literals

What a literal says does not matter to an outline. Two sources whose tokens differ in the texts of
literals only are read in lockstep (`outline_of_literals`), so that nothing in a literal is taken for
code: a literal shows at most in a text that it is part of itself.
-/

namespace Layering.Java

/-! ### Tokens that correspond -/

/-- The token is a string, a character or a number. -/
def Token.isLiteral (t : Token) : Bool := t.kind ∈ [.string, .character, .number]

/-- The tokens at the same places of two sources. -/
def Partners (x y : Tokenization) (t t' : Token) : Prop := (t, t') ∈ x.tokens.zip y.tokens

/-- The tokens are of one kind, and have one text unless they are literals. -/
structure SameButLiteral (t t' : Token) : Prop where
  kind : t.kind = t'.kind
  text : t.isLiteral = false → t.text = t'.text

theorem SameButLiteral.alike {t t' : Token} (same : SameButLiteral t t') : Alike t t' where
  kind := same.kind
  symbol := fun symbol => same.text (by simp [Token.isLiteral, symbol])
  word := fun word => .inl (same.text (by simp [Token.isLiteral, word]))

theorem SameButLiteral.text_of_isIdentifier {t t' : Token} (same : SameButLiteral t t')
    (identifier : t.isIdentifier = true) : t.text = t'.text := by
  have kind : t.kind = .identifier := of_decide_eq_true identifier
  exact same.text (by simp [Token.isLiteral, kind])

theorem forall₂_zip {α β : Type} {x : List α} {y : List β} (level : x.length = y.length) :
    List.Forall₂ (fun a b => (a, b) ∈ x.zip y) x y := by
  induction x generalizing y with
  | nil =>
    obtain rfl := List.length_eq_zero_iff.mp level.symm
    exact .nil
  | cons a x ih =>
    obtain ⟨b, y, rfl⟩ := List.exists_cons_of_length_eq_add_one level.symm
    refine .cons List.mem_cons_self ((ih (by simpa using level)).imp fun c d member => ?_)
    exact List.mem_cons_of_mem _ member

theorem rel_of_mem_zip {α β : Type} {R : α → β → Prop} {x : List α} {y : List β}
    (pairs : List.Forall₂ R x y) {a : α} {b : β} (member : (a, b) ∈ x.zip y) : R a b := by
  induction pairs with
  | nil => cases member
  | cons pair _ ih =>
    rcases List.mem_cons.mp member with here | later
    · cases here
      exact pair
    · exact ih later

/-- Two sources with such tokens, side by side. -/
def Course.ofPartners (contract : FixerContract) {x y : Tokenization}
    (pairs : List.Forall₂ SameButLiteral x.tokens y.tokens) : Course where
  contract := contract
  pair := Partners x y
  alike := fun _ _ partners => (rel_of_mem_zip pairs partners).alike
  read := fun _ => True

theorem abreast_of_partners {x y : Tokenization}
    (pairs : List.Forall₂ SameButLiteral x.tokens y.tokens) {tokens tokens' : List Token}
    (partners : List.Forall₂ (Partners x y) tokens tokens') :
    Abreast (Partners x y) tokens tokens' := by
  induction partners with
  | nil => exact .nil
  | cons pair _ ih =>
    apply Abreast.cons pair
    · intro identifier _
      exact (rel_of_mem_zip pairs pair).text_of_isIdentifier identifier
    · exact ih

/-- The errors are at the same token, or both sources end inside a declaration. -/
def ErrorsAlike (contract : FixerContract) {x y : Tokenization}
    (pairs : List.Forall₂ SameButLiteral x.tokens y.tokens) (e e' : SyntaxError) : Prop :=
  ErrorAlike (.ofPartners contract pairs) e e' ∨
    e = ⟨.endInsideDeclaration, x.stop⟩ ∧ e' = ⟨.endInsideDeclaration, y.stop⟩

/-- Such sources are outlined in lockstep. -/
theorem readOutline_of_partners (contract : FixerContract) {x y : Tokenization}
    (pairs : List.Forall₂ SameButLiteral x.tokens y.tokens) :
    Outcomes (ErrorsAlike contract pairs) (OutlineAlike (.ofPartners contract pairs))
      (readOutline contract x.stop {} x.tokens) (readOutline contract y.stop {} y.tokens) := by
  apply readOutline_lockstep (c := .ofPartners contract pairs)
  · apply InStep.start
    · exact abreast_of_partners pairs (forall₂_zip pairs.length_eq)
    · exact ⟨rfl, rfl⟩
  · intros
    trivial

theorem outline_of_tokenize {source : Text} {x : Tokenization} (read : tokenize source = .ok x)
    (contract : FixerContract) :
    outline contract source = readOutline contract x.stop {} x.tokens := by
  rw [outline, read]
  rfl

/-! ### What a literal may show in -/

/-- The texts are one, or are joined from tokens that correspond and among which there is a
literal. -/
def OneButLiterals (x y : Tokenization) (text text' : Text) : Prop :=
  text = text' ∨ ∃ tokens tokens', List.Forall₂ (Partners x y) tokens tokens' ∧
    text = spelling tokens ∧ text' = spelling tokens' ∧ ∃ t ∈ tokens, t.isLiteral = true

/-- The names are one, or those of a malformed annotation: literals at the same place. -/
def NamedByLiterals (x y : Tokenization) (kind : TypeKind) (name name' : Text) : Prop :=
  name = name' ∨ kind = .annotationType ∧
    ∃ t t', Partners x y t t' ∧ t.isLiteral = true ∧ name = t.text ∧ name' = t'.text

/-- The methods are one, but for literals in the type that they return. -/
def Method.OneButLiterals (x y : Tokenization) (m m' : Method) : Prop :=
  Java.OneButLiterals x y m.returnType m'.returnType ∧ m' = { m with returnType := m'.returnType }

/-- The types are one, but for literals. -/
def TypeDeclaration.OneButLiterals (x y : Tokenization) (d d' : TypeDeclaration) : Prop :=
  NamedByLiterals x y d.kind d.name d'.name ∧
    List.Forall₂ (Method.OneButLiterals x y) d.methods d'.methods ∧
    d' = { d with name := d'.name, methods := d'.methods }

/-- The outlines are one, but for literals. -/
structure Outline.OneButLiterals (x y : Tokenization) (o o' : Outline) : Prop where
  package : Java.OneButLiterals x y o.package o'.package
  imports : List.Forall₂ (Java.OneButLiterals x y) o.imports o'.imports
  types : List.Forall₂ (TypeDeclaration.OneButLiterals x y) o.types o'.types

/-- The places of the tokens of a source, and of its end. -/
def Tokenization.places (x : Tokenization) : List Position := x.tokens.map (·.position) ++ [x.stop]

/-- The errors stand at the same token, on the same line, and say the same but for the name of a
malformed annotation. -/
structure SyntaxError.OneButLiterals (x y : Tokenization) (e e' : SyntaxError) : Prop where
  problem : e.problem = e'.problem ∨ ∃ name name', e.problem = .missingBody .annotationType name ∧
    e'.problem = .missingBody .annotationType name' ∧ NamedByLiterals x y .annotationType name name'
  place : ∃ i : Nat, x.places[i]? = some e.position ∧ y.places[i]? = some e'.position
  line : e.position.line = e'.position.line

section

variable {x y : Tokenization} (pairs : List.Forall₂ SameButLiteral x.tokens y.tokens)
include pairs

theorem spelling_of_partners {tokens tokens' : List Token}
    (partners : List.Forall₂ (Partners x y) tokens tokens')
    (plain : ∀ t ∈ tokens, t.isLiteral = false) : spelling tokens = spelling tokens' := by
  unfold spelling
  induction partners with
  | nil => rfl
  | cons pair _ ih =>
    obtain ⟨first, others⟩ := List.forall_mem_cons.mp plain
    rw [List.flatMap_cons, List.flatMap_cons, ih others, (rel_of_mem_zip pairs pair).text first]

theorem Spelled.oneButLiterals {text text' : Text} (spelled : Spelled (Partners x y) text text') :
    OneButLiterals x y text text' := by
  obtain ⟨tokens, tokens', partners, rfl, rfl⟩ := spelled
  by_cases literal : ∃ t ∈ tokens, t.isLiteral = true
  · exact .inr ⟨tokens, tokens', partners, rfl, rfl, literal⟩
  · left
    apply spelling_of_partners pairs partners
    simpa using literal

theorem Named.eq_of_words {name name' : Text} (named : Named (Words (Partners x y)) name name') :
    name = name' := by
  obtain ⟨t, t', ⟨pair, identifier⟩, rfl, rfl⟩ := named
  exact (rel_of_mem_zip pairs pair).text_of_isIdentifier identifier

theorem names_eq_of_partners {names names' : List Text}
    (named : List.Forall₂ (Named (Words (Partners x y))) names names') : names = names' := by
  rw [← List.forall₂_eq_eq_eq]
  exact named.imp fun _ _ one => one.eq_of_words pairs

theorem TypeNamed.namedByLiterals {kind : TypeKind} {name name' : Text}
    (named : TypeNamed (Partners x y) kind name name') : NamedByLiterals x y kind name name' := by
  by_cases other : kind = .annotationType
  · obtain ⟨⟨t, t', pair, rfl, rfl⟩, _⟩ := named
    by_cases literal : t.isLiteral = true
    · exact .inr ⟨other, t, t', pair, literal, rfl, rfl⟩
    · exact .inl ((rel_of_mem_zip pairs pair).text (by simpa using literal))
  · exact .inl ((named.2 other).eq_of_words pairs)

omit pairs in
/-- Tokens that correspond have the same number. -/
theorem Partners.exists_place {t t' : Token} (pair : Partners x y t t') :
    ∃ i : Nat, x.places[i]? = some t.position ∧ y.places[i]? = some t'.position := by
  obtain ⟨i, here⟩ := List.getElem?_of_mem pair
  obtain ⟨first, second⟩ := List.getElem?_zip_eq_some.mp here
  refine ⟨i, ?_, ?_⟩
  · unfold Tokenization.places
    rw [List.getElem?_append_left (by simpa using (List.getElem?_eq_some_iff.mp first).1),
      List.getElem?_map, first]
    rfl
  · unfold Tokenization.places
    rw [List.getElem?_append_left (by simpa using (List.getElem?_eq_some_iff.mp second).1),
      List.getElem?_map, second]
    rfl

variable (lines : List.Forall₂ (fun t t' : Token => t.position.line = t'.position.line)
  x.tokens y.tokens)
include lines

omit pairs in
theorem Lined.eq {line line' : Nat} (lined : Lined (Partners x y) line line') : line = line' := by
  obtain ⟨t, t', pair, rfl, rfl⟩ := lined
  exact rel_of_mem_zip lines pair

variable {contract : FixerContract}

theorem MethodAlike.oneButLiterals {m m' : Method}
    (alike : MethodAlike (.ofPartners contract pairs) m m') : m.OneButLiterals x y m' := by
  have returns : m.returns = m'.returns := by
    rw [← List.forall₂_eq_eq_eq]
    refine alike.returns.imp fun r r' both => ?_
    obtain ⟨line, null⟩ := r
    obtain ⟨line', null'⟩ := r'
    obtain rfl : line = line' := both.line.eq lines
    obtain rfl : null = null' := both.isNull
    rfl
  refine ⟨alike.returnType.oneButLiterals pairs, ?_⟩
  rw [alike.name, alike.arity, alike.line.eq lines, returns, alike.modifiers, alike.hasBody,
    alike.generic]

theorem TypeAlike.oneButLiterals {d d' : TypeDeclaration}
    (alike : TypeAlike (.ofPartners contract pairs) d d') : d.OneButLiterals x y d' := by
  have bases : d.bases = d'.bases := names_eq_of_partners pairs alike.bases
  have interfaces : d.interfaces = d'.interfaces := names_eq_of_partners pairs alike.interfaces
  -- The role depends on the kind and the supertypes alone.
  have role : d.role = d'.role := by
    rw [alike.role, alike.role', alike.kind, bases, interfaces]
  refine ⟨alike.name.namedByLiterals pairs, ?_, ?_⟩
  · exact alike.methods.imp fun _ _ both => both.oneButLiterals pairs lines
  · rw [alike.kind, alike.line.eq lines, bases, interfaces, role]

theorem OutlineAlike.oneButLiterals {o o' : Outline}
    (alike : OutlineAlike (.ofPartners contract pairs) o o') : o.OneButLiterals x y o' := by
  obtain ⟨more, more', imports, imports', both⟩ := alike.imports
  constructor
  · exact alike.package.oneButLiterals pairs
  · rw [imports, imports']
    exact both.imp fun _ _ spelled => spelled.oneButLiterals pairs
  · exact alike.types.imp fun _ _ both => both.oneButLiterals pairs lines

theorem ErrorAlike.oneButLiterals {e e' : SyntaxError}
    (alike : ErrorAlike (.ofPartners contract pairs) e e') : e.OneButLiterals x y e' := by
  obtain ⟨t, t', pair, position, position'⟩ := alike.position
  constructor
  · rcases alike.problem with same | ⟨kind, name, name', missing, missing', named⟩
    · exact .inl same
    · -- Only what is declared as an annotation may go by something else than a name.
      rcases named.namedByLiterals pairs with rfl | ⟨rfl, literals⟩
      · exact .inl (missing.trans missing'.symm)
      · exact .inr ⟨name, name', missing, missing', .inr ⟨rfl, literals⟩⟩
  · rw [position, position']
    exact pair.exists_place
  · rw [position, position']
    exact rel_of_mem_zip lines pair

end

/-- Where the tokens of two sources agree in kind, line and text, except for the texts of literals,
both have the same error at the same token, or outlines that are one: only the text of a package, of
an import or of a return type and the name of a malformed annotation can differ, and only by a
literal in it. -/
theorem outline_of_literals {source source' : Text} {x y : Tokenization}
    (read : tokenize source = .ok x) (read' : tokenize source' = .ok y)
    (pairs : List.Forall₂ SameButLiteral x.tokens y.tokens)
    (lines : List.Forall₂ (fun t t' : Token => t.position.line = t'.position.line)
      x.tokens y.tokens)
    (stop : x.stop.line = y.stop.line) (contract : FixerContract) :
    Outcomes (SyntaxError.OneButLiterals x y) (Outline.OneButLiterals x y)
      (outline contract source) (outline contract source') := by
  rw [outline_of_tokenize read, outline_of_tokenize read']
  have alike := readOutline_of_partners contract pairs
  generalize readOutline contract x.stop _ x.tokens = result at alike ⊢
  generalize readOutline contract y.stop _ y.tokens = result' at alike ⊢
  cases alike with
  | ok both => exact .ok (both.oneButLiterals pairs lines)
  | error both =>
    apply Outcomes.error
    rcases both with alike | ⟨rfl, rfl⟩
    · exact alike.oneButLiterals pairs lines
    · -- Both sources end inside a declaration, behind the last of as many tokens.
      refine ⟨.inl rfl, ⟨x.tokens.length, ?_, ?_⟩, stop⟩
      · simp [Tokenization.places]
      · simp [Tokenization.places, pairs.length_eq]

/-- A class with a method that returns this literal. -/
def returning (literal : Text) : Text := "class A\x7bR f()\x7breturn " ++ literal ++ ";\x7d\x7d"

/-- The tokens of such a class, for a literal of three characters. -/
def returningTokens (literal : Text) : List Token :=
  [⟨.identifier, "class", ⟨1, 1⟩⟩, ⟨.identifier, "A", ⟨1, 7⟩⟩, ⟨.symbol, "\x7b", ⟨1, 8⟩⟩,
    ⟨.identifier, "R", ⟨1, 9⟩⟩, ⟨.identifier, "f", ⟨1, 11⟩⟩, ⟨.symbol, "(", ⟨1, 12⟩⟩,
    ⟨.symbol, ")", ⟨1, 13⟩⟩, ⟨.symbol, "\x7b", ⟨1, 14⟩⟩, ⟨.identifier, "return", ⟨1, 15⟩⟩] ++
  ⟨.string, literal, ⟨1, 22⟩⟩ ::
  [⟨.symbol, ";", ⟨1, 25⟩⟩, ⟨.symbol, "\x7d", ⟨1, 26⟩⟩, ⟨.symbol, "\x7d", ⟨1, 27⟩⟩]

/-- A brace in a literal closes nothing. -/
theorem outline_of_literals_brace :
    Outcomes
      (SyntaxError.OneButLiterals ⟨returningTokens "\"a\"", ⟨1, 28⟩⟩ ⟨returningTokens "\"\x7d\"", ⟨1, 28⟩⟩)
      (Outline.OneButLiterals ⟨returningTokens "\"a\"", ⟨1, 28⟩⟩ ⟨returningTokens "\"\x7d\"", ⟨1, 28⟩⟩)
      (outline {} (returning "\"a\"")) (outline {} (returning "\"\x7d\"")) := by
  have read : tokenize (returning "\"a\"") = .ok ⟨returningTokens "\"a\"", ⟨1, 28⟩⟩ := by
    decide +kernel
  have read' : tokenize (returning "\"\x7d\"") = .ok ⟨returningTokens "\"\x7d\"", ⟨1, 28⟩⟩ := by
    decide +kernel
  have level {R : Token → Token → Prop} (same : ∀ t, R t t)
      (literals : R ⟨.string, "\"a\"", ⟨1, 22⟩⟩ ⟨.string, "\"\x7d\"", ⟨1, 22⟩⟩) :
      List.Forall₂ R (returningTokens "\"a\"") (returningTokens "\"\x7d\"") := by
    apply List.rel_append
    · exact List.forall₂_same.mpr fun t _ => same t
    · exact .cons literals (List.forall₂_same.mpr fun t _ => same t)
  apply outline_of_literals read read'
  · exact level (fun _ => ⟨rfl, fun _ => rfl⟩) ⟨rfl, nofun⟩
  · exact level (fun _ => rfl) rfl
  · rfl

end Layering.Java
