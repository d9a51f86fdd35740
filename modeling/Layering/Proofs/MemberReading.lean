import Mathlib.Data.List.TakeWhile
import Layering.Proofs.HeaderReading
import Layering.Proofs.Lockstep

/-!
# Reading members

What one token, an annotation, a body and the pieces around bodies do to a reading that stands among
the members of a type. A body that belongs to no method leaves the reading as it was before its header
(`reaches_block`), and a method is added to the type around it (`reaches_method`).
-/

namespace Layering.Java

variable {contract : FixerContract} {stack : List Frame} {header rest : List Token} {o : Outline}
  {p : Bool} {t : Token}

/-! ### Steps -/

theorem Reaches.of_step {r next : Reading} {rest' : List Token}
    (step : r.step contract t rest = .ok (next, rest')) : Reaches contract r (t :: rest) next rest' :=
  .step .start step

theorem declaredKind?_of_typeless (word : t.isOneOf typeWords = false)
    (sign : t.isSymbol "@" = true → ∀ u ∈ rest.head?, u.isWord "interface" = false) :
    declaredKind? p (t :: rest) = none := by
  have other {w : Text} (listed : w ∈ typeWords) : t.isWord w = false := by
    unfold Token.isOneOf at word
    unfold Token.isWord
    by_contra same
    simp only [Bool.not_eq_false, Bool.and_eq_true, decide_eq_true_eq] at same
    simp [same.1, same.2, listed] at word
  cases rest with
  | nil => rfl
  | cons u more =>
    have plain : (t.isSymbol "@" && u.isWord "interface") = false := by
      cases symbol : t.isSymbol "@" with
      | false => rfl
      | true => exact sign symbol u rfl
    rw [declaredKind?]
    simp only [plain, other (w := "class") (by decide), other (w := "interface") (by decide),
      other (w := "enum") (by decide), other (w := "record") (by decide), Bool.false_and,
      Bool.false_eq_true, if_false, ite_self]

/-- The stack is that between members, or outside every type. -/
def AtMembers (stack : List Frame) : Prop := Reading.atMembers ⟨stack, [], {}, false⟩ = true

theorem AtMembers.type {declared : TypeDeclaration} {inConstants : Bool} :
    AtMembers (.type declared inConstants :: stack) := rfl

/-- A token that starts no type and no annotation is a member's. -/
theorem step_member (members : AtMembers stack) (word : t.isOneOf typeWords = false)
    (sign : t.isSymbol "@" = false)
    (outside : stack = [] → t.isOneOf ["package", "import"] = false) :
    Reading.step contract t rest ⟨stack, header, o, p⟩ =
      (Reading.member t ⟨stack, header, o, p⟩).map fun r =>
        ({ r with afterPoint := t.isSymbol "." }, rest) := by
  have plain : (decide (stack = []) && t.isOneOf ["package", "import"]) = false := by
    by_cases empty : stack = []
    · rw [outside empty, Bool.and_false]
    · rw [decide_eq_false empty, Bool.false_and]
  have kind : declaredKind? p (t :: rest) = none :=
    declaredKind?_of_typeless word fun symbol => Bool.noConfusion (sign.symm.trans symbol)
  have here : Reading.atMembers ⟨stack, header, o, p⟩ = true := members
  unfold Reading.step
  simp only [kind, plain, here, sign, Bool.and_false, Bool.false_eq_true, if_false, if_true]

/-- A token of a header is put to it. -/
theorem reaches_plain (members : AtMembers stack) (plain : t.isPlain = true)
    (outside : stack = [] → t.isOneOf ["package", "import"] = false) :
    Reaches contract ⟨stack, header, o, p⟩ (t :: rest)
      ⟨stack, header ++ [t], o, t.isSymbol "."⟩ rest := by
  simp only [Token.isPlain, Token.isBrace, Bool.and_eq_true, Bool.not_eq_true',
    Bool.or_eq_false_iff] at plain
  obtain ⟨⟨⟨⟨opening, closing⟩, semicolon⟩, sign⟩, word⟩ := plain
  apply Reaches.of_step
  rw [step_member members word sign outside]
  simp only [Reading.member, opening, closing, semicolon, Bool.false_eq_true, if_false]
  rfl

/-! ### Annotations -/

theorem QualifiedName.exists_cons {name : List Token} (named : QualifiedName name) :
    ∃ t rest, name = t :: rest ∧ t.isName = true := by
  cases named with
  | simple named => exact ⟨_, _, rfl, named⟩
  | qualified named _ _ => exact ⟨_, _, rfl, named⟩

theorem afterAnnotationName_append {name : List Token} (named : QualifiedName name)
    (ends : ∀ t ∈ rest.head?, t.isSymbol "." = false) :
    afterAnnotationName (name ++ rest) = rest := by
  induction named with
  | simple named =>
    have identifier := Token.isIdentifier_of_isName named
    rcases rest with _ | ⟨point, _ | ⟨next, more⟩⟩
    · simp [afterAnnotationName, identifier]
    · simp [afterAnnotationName, identifier]
    · have other : point.isSymbol "." = false := ends point rfl
      rw [List.singleton_append, afterAnnotationName]
      simp only [identifier, other, Bool.not_true, Bool.false_and, Bool.false_eq_true, if_false]
  | @qualified name point more named pointed further ih =>
    obtain ⟨next, later, rfl, named'⟩ := further.exists_cons
    rw [List.cons_append, List.cons_append, List.cons_append, afterAnnotationName]
    simp only [Token.isIdentifier_of_isName named, Token.isIdentifier_of_isName named', pointed,
      Bool.not_true, Bool.false_eq_true, if_false, Bool.and_self, if_true]
    exact ih

theorem afterParenthesis_nested {inner : List Token}
    (nested : Nested (·.isSymbol "(") (·.isSymbol ")") inner) (depth : Nat) (rest : List Token) :
    afterParenthesis depth (inner ++ rest) = afterParenthesis depth rest := by
  induction nested generalizing depth rest with
  | nil => rfl
  | token open_ close _ ih =>
    rw [List.cons_append, afterParenthesis]
    simp only [open_, close, Bool.false_eq_true, if_false, ih]
  | @group opening closing _ _ open_ close _ _ ihInside ihMore =>
    have unopened : closing.isSymbol "(" = false := Token.isSymbol_other close (by decide)
    rw [List.append_assoc, List.cons_append, List.cons_append, afterParenthesis]
    simp only [open_, if_true, ihInside]
    rw [afterParenthesis]
    simp only [unopened, close, Bool.false_eq_true, if_false, if_true, Nat.add_eq_zero_iff,
      Nat.succ_ne_self, and_false, Nat.add_sub_cancel, ihMore]

/-- What an annotation is read like. -/
theorem step_atSign (members : AtMembers stack) {sign : Token} {name : List Token}
    (signed : sign.isSymbol "@" = true) (named : QualifiedName name) :
    Reading.step contract sign (name ++ rest) ⟨stack, header, o, p⟩ =
      Reading.annotationAt (name ++ rest) ⟨stack, header, o, p⟩ := by
  obtain ⟨first, later, rfl, named'⟩ := named.exists_cons
  have kind : declaredKind? p (sign :: (first :: later ++ rest)) = none := by
    apply declaredKind?_of_typeless
    · exact Token.isOneOf_of_isSymbol signed _
    · rintro - u ⟨⟩
      exact Token.isWord_of_isName named' (by decide)
  have here : Reading.atMembers ⟨stack, header, o, p⟩ = true := members
  unfold Reading.step
  simp only [kind, Token.isOneOf_of_isSymbol signed, here, signed, Bool.and_false,
    Bool.false_eq_true, if_false, Bool.and_self, if_true]

variable (contract rest header o p) in
/-- Of a header with annotations the header remains. -/
theorem reaches_annotated {tokens more : List Token} (annotated : Annotated tokens more)
    (members : AtMembers stack)
    (outside : stack = [] → ∀ t ∈ more, t.isOneOf ["package", "import"] = false)
    (ends : t.isSymbol "(" = false ∧ t.isSymbol "." = false) :
    ∃ q, (q = true → p = true ∨ ∃ u ∈ more, u.isSymbol "." = true) ∧
      Reaches contract ⟨stack, header, o, p⟩ (tokens ++ t :: rest)
        ⟨stack, header ++ more, o, q⟩ (t :: rest) := by
  induction annotated generalizing header p with
  | nil =>
    rw [List.append_nil]
    exact ⟨p, .inl, .start⟩
  | @token u tokens more plain _ ih =>
    obtain ⟨q, point, reaches⟩ := ih (header ++ [u]) (u.isSymbol ".")
      fun empty v member => outside empty v (List.mem_cons_of_mem u member)
    refine ⟨q, fun true_ => .inr ?_, ?_⟩
    · rcases point true_ with here | ⟨v, member, symbol⟩
      · exact ⟨u, List.mem_cons_self, here⟩
      · exact ⟨v, List.mem_cons_of_mem u member, symbol⟩
    · rw [List.append_assoc, List.singleton_append] at reaches
      exact (reaches_plain members plain fun empty => outside empty u List.mem_cons_self).trans
        reaches
  | @marker sign name tokens more signed named after _ ih =>
    obtain ⟨q, point, reaches⟩ := ih header false outside
    -- Nothing behind the name makes it longer or gives it arguments.
    have behind : ∀ u ∈ (tokens ++ t :: rest).head?,
        u.isSymbol "(" = false ∧ u.isSymbol "." = false := by
      cases tokens with
      | nil => exact fun u same => Option.some.inj same ▸ ends
      | cons => exact after
    refine ⟨q, fun true_ => .inr ((point true_).resolve_left (by decide)), .trans ?_ reaches⟩
    rw [List.append_assoc, List.cons_append]
    apply Reaches.of_step
    rw [step_atSign members signed named, Reading.annotationAt,
      afterAnnotationName_append named fun u same => (behind u same).2]
    split
    next opening onward whole =>
      rw [whole] at behind
      simp only [(behind opening rfl).1, whole, Bool.false_eq_true, if_false]
    next whole => rw [whole]
  | @applied sign name arguments tokens more signed named enclosed _ ih =>
    obtain ⟨q, point, reaches⟩ := ih header false outside
    refine ⟨q, fun true_ => .inr ((point true_).resolve_left (by decide)), .trans ?_ reaches⟩
    obtain @⟨opening, closing, inner, open_, close, nested⟩ := enclosed
    have unopened : closing.isSymbol "(" = false := Token.isSymbol_other close (by decide)
    have read : (sign :: name ++ (opening :: inner ++ [closing]) ++ tokens) ++ t :: rest =
        sign :: (name ++ opening :: (inner ++ closing :: (tokens ++ t :: rest))) := by simp
    rw [read]
    apply Reaches.of_step
    rw [step_atSign members signed named, Reading.annotationAt,
      afterAnnotationName_append named (by
        rintro u ⟨⟩
        exact Token.isSymbol_other open_ (by decide))]
    simp only [open_, if_true, afterParenthesis_nested nested]
    rw [afterParenthesis]
    simp only [unopened, close, Bool.false_eq_true, if_false, if_true]

/-- A semicolon or a brace continues no annotation. -/
theorem Token.ends_header {a : Text} (symbol : t.isSymbol a = true)
    (other : a ≠ "(" ∧ a ≠ ".") : t.isSymbol "(" = false ∧ t.isSymbol "." = false :=
  ⟨isSymbol_other symbol other.1, isSymbol_other symbol other.2⟩

/-! ### Bodies -/

/-- A null literal is the word in as many opening as closing parentheses. -/
theorem nullLiteral_iff {tokens : List Token} : NullLiteral tokens ↔
    ∃ opening value closing, tokens = opening ++ value :: closing ∧
      (∀ t ∈ opening, t.isSymbol "(" = true) ∧ value.isWord "null" = true ∧
      (∀ t ∈ closing, t.isSymbol ")" = true) ∧ closing.length = opening.length := by
  constructor
  · intro literal
    induction literal with
    | @null t word => exact ⟨[], t, [], rfl, by simp, word, by simp, rfl⟩
    | @parenthesized first last _ opens _ closes ih =>
      obtain ⟨opening, value, closing, rfl, opened, word, closed, level⟩ := ih
      refine ⟨first :: opening, value, closing ++ [last], by simp, ?_, word, ?_, by simp [level]⟩
      · exact List.forall_mem_cons.mpr ⟨opens, opened⟩
      · exact List.forall_mem_append.mpr ⟨closed, List.forall_mem_singleton.mpr closes⟩
  · rintro ⟨opening, value, closing, rfl, opened, word, closed, level⟩
    induction opening generalizing closing with
    | nil =>
      obtain rfl := List.length_eq_zero_iff.mp level
      exact .null word
    | cons first opening ih =>
      obtain ⟨opens, opened⟩ := List.forall_mem_cons.mp opened
      obtain rfl | ⟨closing, last, rfl⟩ := closing.eq_nil_or_concat
      · cases level
      · rw [List.concat_eq_append] at closed level ⊢
        obtain ⟨closed, closes⟩ := List.forall_mem_append.mp closed
        have inner := ih closing opened closed (by simpa using level)
        have literal := NullLiteral.parenthesized opens inner
          (closes last (List.mem_singleton_self last))
        simpa using literal

/-- The look ahead from the word `return` finds the null literals. -/
theorem returnsNull_iff (tokens : List Token) : returnsNull tokens = true ↔ EndsInNull tokens := by
  constructor
  · intro found
    have whole := List.takeWhile_append_dropWhile (p := (·.isSymbol "(")) (l := tokens)
    have opened : ∀ t ∈ tokens.takeWhile (·.isSymbol "("), t.isSymbol "(" = true := fun t member =>
      List.mem_takeWhile_imp (p := fun t : Token => t.isSymbol "(") member
    unfold returnsNull at found
    -- As many brackets must close as were opened in front of the literal.
    generalize tokens.takeWhile (·.isSymbol "(") = opening at whole opened found
    generalize tokens.dropWhile (·.isSymbol "(") = onward at whole
    subst whole
    simp only [List.drop_left] at found
    cases onward with
    | nil => cases found
    | cons value after =>
      simp only [Bool.and_eq_true, decide_eq_true_eq, List.all_eq_true] at found
      obtain ⟨⟨⟨word, level⟩, closed⟩, ends⟩ := found
      obtain ⟨semicolon, first, ends⟩ := (Option.any_eq_true _ _).mp ends
      have closing := List.take_append_drop opening.length after
      obtain ⟨more, onward⟩ := List.head?_eq_some_iff.mp first
      rw [onward] at closing
      refine ⟨opening ++ value :: after.take opening.length, semicolon, more, ?_, ?_, ends⟩
      · rw [List.append_assoc, List.cons_append, closing]
      · exact nullLiteral_iff.mpr ⟨opening, value, _, rfl, opened, word, closed, level⟩
  · rintro ⟨literal, semicolon, rest, rfl, null, ends⟩
    obtain ⟨opening, value, closing, rfl, opened, word, closed, level⟩ := nullLiteral_iff.mp null
    have other : value.isSymbol "(" = false :=
      Token.isSymbol_of_isIdentifier (Token.isIdentifier_of_isWord word) _
    have depth : (opening ++ value :: closing ++ semicolon :: rest).takeWhile (·.isSymbol "(") =
        opening := by
      rw [List.append_assoc, List.takeWhile_append_of_pos opened, List.cons_append,
        List.takeWhile_cons, other, if_neg (by decide), List.append_nil]
    have dropped : (opening ++ value :: closing ++ semicolon :: rest).drop opening.length =
        value :: (closing ++ semicolon :: rest) := by
      rw [List.append_assoc, List.drop_left, List.cons_append]
    unfold returnsNull
    simp only [depth, dropped]
    rw [← level]
    simp only [List.take_left, List.drop_left, word, decide_true, List.all_eq_true.mpr closed,
      List.head?_cons, Option.any_some, ends, Bool.and_self]

/-- The returns are added to the method around them. -/
def addReturns (returns : List Return) (stack : List Frame) : List Frame :=
  returns.foldl (fun stack r => addReturn r stack) stack

theorem addReturns_append (early late : List Return) (stack : List Frame) :
    addReturns (early ++ late) stack = addReturns late (addReturns early stack) :=
  List.foldl_append

theorem addReturns_block (returns : List Return) (stack : List Frame) :
    addReturns returns (.block :: stack) = .block :: addReturns returns stack := by
  induction returns generalizing stack with
  | nil => rfl
  | cons r returns ih => exact ih (addReturn r stack)

theorem addReturns_method (returns : List Return) (m : Method) (stack : List Frame) :
    addReturns returns (.method m :: stack) =
      .method { m with returns := m.returns ++ returns } :: stack := by
  induction returns generalizing m with
  | nil => rw [List.append_nil]; rfl
  | cons r returns ih =>
    refine (ih { m with returns := m.returns ++ [r] }).trans ?_
    rw [List.append_assoc, List.singleton_append]

theorem addReturns_type (returns : List Return) (declared : TypeDeclaration) (inConstants : Bool)
    (stack : List Frame) :
    addReturns returns (.type declared inConstants :: stack) = .type declared inConstants :: stack := by
  induction returns with
  | nil => rfl
  | cons r returns ih => exact ih

/-- The stack is that inside a body. -/
def InBody (stack : List Frame) : Prop := Reading.atMembers ⟨stack, [], {}, false⟩ = false

theorem InBody.block : InBody (.block :: stack) := rfl

theorem InBody.method {m : Method} : InBody (.method m :: stack) := rfl

theorem InBody.addReturn (inside : InBody stack) (r : Return) : InBody (addReturn r stack) := by
  match stack with
  | [] => exact inside
  | .type .. :: _ => exact inside
  | .method _ :: _ => rfl
  | .block :: _ => rfl

theorem InBody.addReturns (inside : InBody stack) (returns : List Return) :
    InBody (addReturns returns stack) := by
  induction returns generalizing stack with
  | nil => exact inside
  | cons r returns ih => exact ih (inside.addReturn r)

/-- A token that starts no type is a body's. -/
theorem reaches_bodyToken (inside : InBody stack) (word : t.isOneOf typeWords = false)
    (sign : t.isSymbol "@" = true → ∀ u ∈ rest.head?, u.isWord "interface" = false)
    {stack' : List Frame} {header' : List Token}
    (read : Reading.body t rest ⟨stack, header, o, p⟩ = ⟨stack', header', o, p⟩) :
    Reaches contract ⟨stack, header, o, p⟩ (t :: rest) ⟨stack', header', o, t.isSymbol "."⟩
      rest := by
  have within : stack ≠ [] := by
    rintro rfl
    cases inside
  have here : Reading.atMembers ⟨stack, header, o, p⟩ = false := inside
  apply Reaches.of_step
  unfold Reading.step
  simp only [declaredKind?_of_typeless word sign, decide_eq_false within, here,
    Bool.false_and, Bool.false_eq_true, if_false, read]
  rfl

theorem Body.typeless {tokens : List Token} {returns : List Return} (body : Body tokens returns)
    {closing : Token} (closes : closing.isSymbol "\x7d" = true) :
    ∀ t ∈ (tokens ++ closing :: rest).head?, t.isOneOf typeWords = false := by
  cases body with
  | nil =>
    rintro t ⟨⟩
    exact Token.isOneOf_of_isSymbol closes _
  | token _ word _ _ =>
    rintro t ⟨⟩
    exact word
  | leave word _ _ =>
    rintro t ⟨⟩
    rw [Token.isOneOf_of_isWord word]
    decide
  | block opens _ _ _ =>
    rintro t ⟨⟩
    exact Token.isOneOf_of_isSymbol opens _

theorem NullLiteral.braceless {tokens : List Token} (literal : NullLiteral tokens) :
    ∀ t ∈ tokens, t.isSymbol "\x7d" = false := by
  obtain ⟨opening, value, closing, rfl, opened, word, closed, _⟩ := nullLiteral_iff.mp literal
  refine List.forall_mem_append.mpr
    ⟨fun t member => ?_, List.forall_mem_cons.mpr ⟨?_, fun t member => ?_⟩⟩
  · exact Token.isSymbol_other (opened t member) (by decide)
  · exact Token.isSymbol_of_isIdentifier (Token.isIdentifier_of_isWord word) _
  · exact Token.isSymbol_other (closed t member) (by decide)

/-- A return statement ends before the brace that closes the body. -/
theorem endsInNull_append {tokens : List Token} {closing : Token}
    (closes : closing.isSymbol "\x7d" = true) :
    EndsInNull (tokens ++ closing :: rest) ↔ EndsInNull tokens := by
  constructor
  · rintro ⟨value, semicolon, more, whole, literal, ends⟩
    have other : semicolon ≠ closing := by
      rintro rfl
      exact Bool.noConfusion (closes.symm.trans (Token.isSymbol_other ends (by decide)))
    rcases List.append_eq_append_iff.mp whole with ⟨inner, rfl, after⟩ | ⟨inner, rfl, after⟩
    · cases inner with
      | nil => exact absurd (List.cons.inj after).1.symm other
      | cons first inner =>
        cases (List.cons.inj after).1
        have braceless := literal.braceless closing (by simp)
        exact Bool.noConfusion (closes.symm.trans braceless)
    · cases inner with
      | nil => exact absurd (List.cons.inj after).1 other
      | cons first inner =>
        cases (List.cons.inj after).1
        exact ⟨value, semicolon, inner, rfl, literal, ends⟩
  · rintro ⟨value, semicolon, more, rfl, literal, ends⟩
    exact ⟨value, semicolon, more ++ closing :: rest, by simp, literal, ends⟩

/-- The word of a type can stand nowhere in a body, so no at sign declares an annotation type. -/
theorem Body.unsigned {tokens : List Token} {returns : List Return} (body : Body tokens returns)
    {closing : Token} (closes : closing.isSymbol "\x7d" = true) :
    ∀ t ∈ (tokens ++ closing :: rest).head?, t.isWord "interface" = false := by
  intro t first
  have typeless := body.typeless closes t first
  cases word : t.isWord "interface" with
  | false => rfl
  | true =>
    rw [Token.isOneOf_of_isWord word] at typeless
    exact absurd typeless (by decide)

theorem Token.unsigned_of_isSymbol {a : Text} (symbol : t.isSymbol a = true) (other : a ≠ "@")
    (sign : t.isSymbol "@" = true) : ∀ u ∈ rest.head?, u.isWord "interface" = false :=
  Bool.noConfusion (sign.symm.trans (isSymbol_other symbol other))

/-- A brace opens a block in a body. -/
theorem reaches_opening (inside : InBody stack) {opening : Token}
    (opens : opening.isSymbol "\x7b" = true) :
    Reaches contract ⟨stack, header, o, p⟩ (opening :: rest) ⟨.block :: stack, header, o, false⟩
      rest := by
  have point : opening.isSymbol "." = false := Token.isSymbol_other opens (by decide)
  rw [← point]
  apply reaches_bodyToken inside (Token.isOneOf_of_isSymbol opens _)
  · exact Token.unsigned_of_isSymbol opens (by decide)
  · simp only [Reading.body, opens, if_true]

/-- A brace closes a body. -/
theorem reaches_closing {frame : Frame} (inside : InBody (frame :: stack)) {closing : Token}
    (closes : closing.isSymbol "\x7d" = true) {stack' : List Frame}
    (read : Reading.closeBody ⟨frame :: stack, header, o, p⟩ = ⟨stack', [], o, p⟩) :
    Reaches contract ⟨frame :: stack, header, o, p⟩ (closing :: rest) ⟨stack', [], o, false⟩
      rest := by
  have point : closing.isSymbol "." = false := Token.isSymbol_other closes (by decide)
  have unopened : closing.isSymbol "\x7b" = false := Token.isSymbol_other closes (by decide)
  rw [← point]
  apply reaches_bodyToken inside (Token.isOneOf_of_isSymbol closes _)
  · exact Token.unsigned_of_isSymbol closes (by decide)
  · simp only [Reading.body, closes, unopened, Bool.false_eq_true, if_false, if_true, read]

variable (contract rest o p) in
/-- Inside a body, the returns are added to the method around them. -/
theorem reaches_body {tokens : List Token} {returns : List Return} (body : Body tokens returns)
    (inside : InBody stack) {closing : Token} (closes : closing.isSymbol "\x7d" = true) :
    ∃ q, Reaches contract ⟨stack, [], o, p⟩ (tokens ++ closing :: rest)
      ⟨addReturns returns stack, [], o, q⟩ (closing :: rest) := by
  induction body generalizing stack p closing rest with
  | nil => exact ⟨p, .start⟩
  | @token t tokens returns brace word other more ih =>
    obtain ⟨q, reaches⟩ := @ih stack rest (t.isSymbol ".") inside closing closes
    have braces := Bool.or_eq_false_iff.mp brace
    refine ⟨q, (reaches_bodyToken inside word (fun _ => more.unsigned closes) ?_).trans reaches⟩
    simp only [Reading.body, braces, other, Bool.false_eq_true, if_false]
  | @leave t tokens returns isNull word value more ih =>
    obtain ⟨q, reaches⟩ := @ih _ rest (t.isSymbol ".")
      (inside.addReturn ⟨t.position.line, isNull⟩) closing closes
    have symbol := Token.isSymbol_of_isIdentifier (Token.isIdentifier_of_isWord word)
    have typeless : t.isOneOf typeWords = false := by
      rw [Token.isOneOf_of_isWord word]
      decide
    have found : returnsNull (tokens ++ closing :: rest) = isNull :=
      Bool.eq_iff_iff.mpr ((returnsNull_iff _).trans ((endsInNull_append closes).trans value.symm))
    refine ⟨q, (reaches_bodyToken inside typeless (fun _ => more.unsigned closes) ?_).trans reaches⟩
    simp only [Reading.body, symbol, word, found, Bool.false_eq_true, if_false, if_true]
  | @block opening closing' inner tokens early late opens within closes' more ihInside ihMore =>
    obtain ⟨q, reaches⟩ := @ihInside (.block :: stack) (tokens ++ closing :: rest) false .block
      closing' closes'
    obtain ⟨q', reaches'⟩ := @ihMore _ rest false (inside.addReturns early) closing closes
    rw [addReturns_block] at reaches
    rw [List.append_assoc, List.cons_append, List.cons_append, addReturns_append]
    exact ⟨q', .trans (.trans (.trans (reaches_opening inside opens) reaches)
      (reaches_closing .block closes' rfl)) reaches'⟩

/-! ### Members -/

section

variable {declared : TypeDeclaration} {inConstants : Bool}

/-- A symbol between members is read as `Reading.member` does. -/
theorem reaches_symbol {a : Text} (symbol : t.isSymbol a = true) (other : a ≠ "@")
    (unpointed : a ≠ ".") (members : AtMembers stack) {next : Reading}
    (read : Reading.member t ⟨stack, header, o, p⟩ = .ok next) :
    Reaches contract ⟨stack, header, o, p⟩ (t :: rest) { next with afterPoint := false } rest := by
  have point : t.isSymbol "." = false := Token.isSymbol_other symbol unpointed
  rw [← point]
  apply Reaches.of_step
  rw [step_member members (Token.isOneOf_of_isSymbol symbol _) (Token.isSymbol_other symbol other)
    fun _ => Token.isOneOf_of_isSymbol symbol _, read]
  rfl

/-- A body between members that belongs to no method changes nothing. -/
theorem reaches_block {inner : List Token} {returns : List Return} {opening closing : Token}
    (methodless : inConstants = true ∨ methodHeader? header = none)
    (opens : opening.isSymbol "\x7b" = true) (inside : Body inner returns)
    (closes : closing.isSymbol "\x7d" = true) :
    Reaches contract ⟨.type declared inConstants :: stack, header, o, p⟩
      (opening :: (inner ++ closing :: rest)) ⟨.type declared inConstants :: stack, [], o, false⟩
      rest := by
  have unended : opening.isSymbol ";" = false := Token.isSymbol_other opens (by decide)
  have opened : Reading.member opening ⟨.type declared inConstants :: stack, header, o, p⟩ =
      .ok ⟨.block :: .type declared inConstants :: stack, [], o, p⟩ := by
    simp only [Reading.member, unended, opens, Bool.false_eq_true, if_false, if_true]
    rcases methodless with rfl | none
    · rfl
    · cases inConstants
      · simp only [Reading.openMember, none]
      · rfl
  obtain ⟨q, reaches⟩ := reaches_body contract rest o false inside
    (@InBody.block (.type declared inConstants :: stack)) closes
  rw [addReturns_block, addReturns_type] at reaches
  exact .trans (.trans (reaches_symbol opens (by decide) (by decide) .type opened) reaches)
    (reaches_closing .block closes rfl)

/-- A method with a body is added to the type that it stands in. -/
theorem reaches_method {inner : List Token} {returns : List Return} {opening closing : Token}
    {m : Method} (found : methodHeader? header = some m) (opens : opening.isSymbol "\x7b" = true)
    (inside : Body inner returns) (closes : closing.isSymbol "\x7d" = true) :
    Reaches contract ⟨.type declared false :: stack, header, o, p⟩
      (opening :: (inner ++ closing :: rest))
      ⟨addMethod { m with returns := m.returns ++ returns } (.type declared false :: stack), [], o,
        false⟩ rest := by
  have unended : opening.isSymbol ";" = false := Token.isSymbol_other opens (by decide)
  have opened : Reading.member opening ⟨.type declared false :: stack, header, o, p⟩ =
      .ok ⟨.method m :: .type declared false :: stack, [], o, p⟩ := by
    simp only [Reading.member, unended, opens, Reading.openMember, found, Bool.false_eq_true,
      if_false, if_true]
  obtain ⟨q, reaches⟩ := reaches_body contract rest o false inside
    (@InBody.method (.type declared false :: stack) m) closes
  rw [addReturns_method] at reaches
  exact .trans (.trans (reaches_symbol opens (by decide) (by decide) .type opened) reaches)
    (reaches_closing .method closes rfl)

/-- What a semicolon does at the end of a member. -/
theorem reaches_semicolon {semicolon : Token} (ends : semicolon.isSymbol ";" = true)
    (members : AtMembers stack) {stack' : List Frame}
    (read : Reading.endMember ⟨stack, header, o, p⟩ = ⟨stack', [], o, p⟩) :
    Reaches contract ⟨stack, header, o, p⟩ (semicolon :: rest) ⟨stack', [], o, false⟩ rest := by
  have ended : Reading.member semicolon ⟨stack, header, o, p⟩ = .ok ⟨stack', [], o, p⟩ := by
    simp only [Reading.member, ends, if_true, read]
  exact reaches_symbol ends (by decide) (by decide) members ended

/-- A semicolon behind a member that is no method changes nothing. -/
theorem reaches_memberless {semicolon : Token} (ends : semicolon.isSymbol ";" = true)
    (members : AtMembers stack) (methodless : methodHeader? header = none)
    (past : ∀ declared below, stack ≠ .type declared true :: below) :
    Reaches contract ⟨stack, header, o, p⟩ (semicolon :: rest) ⟨stack, [], o, false⟩ rest := by
  apply reaches_semicolon ends members
  unfold Reading.endMember
  -- The first case of the match is the one that `past` excludes.
  simp only [methodless]

variable (contract rest o p) in
/-- Pieces that are no methods change nothing, and the last one is the header. -/
theorem reaches_pieces {tokens : List Token} {headers : List (List Token)}
    (pieces : Pieces tokens headers)
    (methodless : inConstants = true ∨ ∀ header ∈ headers, methodHeader? header = none)
    (ends : t.isSymbol "(" = false ∧ t.isSymbol "." = false) :
    ∃ q, ∃ header ∈ headers,
      Reaches contract ⟨.type declared inConstants :: stack, [], o, p⟩ (tokens ++ t :: rest)
        ⟨.type declared inConstants :: stack, header, o, q⟩ (t :: rest) := by
  have inside {below : List Frame} : below = .type declared inConstants :: stack → below ≠ [] := by
    rintro rfl
    exact List.cons_ne_nil _ _
  induction pieces generalizing p with
  | @last tokens header piece =>
    obtain ⟨q, _, reaches⟩ := reaches_annotated contract [] rest o p piece
      (@AtMembers.type stack declared inConstants) (fun empty => absurd empty (inside rfl)) ends
    exact ⟨q, header, List.mem_cons_self, reaches⟩
  | @block tokens header inner more headers returns opening closing piece opens body closes _ ih =>
    have first : inConstants = true ∨ methodHeader? header = none :=
      methodless.imp_right fun none => none header List.mem_cons_self
    obtain ⟨q, header', member, reaches⟩ := ih false
      (methodless.imp_right fun none later => none later ∘ List.mem_cons_of_mem header)
    obtain ⟨_, _, before⟩ := reaches_annotated contract []
      (inner ++ closing :: (more ++ t :: rest)) o p piece (@AtMembers.type stack declared inConstants)
      (fun empty => absurd empty (inside rfl))
      (Token.ends_header opens (by decide))
    have read : tokens ++ opening :: (inner ++ closing :: more) ++ t :: rest =
        tokens ++ opening :: (inner ++ closing :: (more ++ t :: rest)) := by simp
    rw [read]
    exact ⟨q, header', List.mem_cons_of_mem header member,
      .trans (.trans before (reaches_block first opens body closes)) reaches⟩

end

end Layering.Java
