import Mathlib.Data.List.TakeWhile
import Layering.Proofs.Lockstep

/-!
# Open braces

Outlining any tokens at all: every step goes on or says what is wrong, no brace is closed that is not
open, and what is closed is what the token says. Methods are added to the type that was open around their
header, which is still open then.
-/

namespace Layering.Java

variable {contract : FixerContract} {tokens rest rest' ahead : List Token} {t : Token}
variable {r r' : Reading} {stack below : List Frame} {closed : List TypeDeclaration}

/-! ### What a step leaves to be read -/

theorem splitBody_suffix {depth : Nat} {header body : List Token}
    (split : splitBody depth tokens = some (header, body)) : body <:+ tokens := by
  fun_induction splitBody depth tokens generalizing header body with
  | case1 => cases split
  | case2 =>
    cases split
    exact List.suffix_cons ..
  | case3 _ _ _ _ _ ih => exact (ih split).trans (List.suffix_cons ..)
  | case4 _ _ _ _ _ _ ih => exact (ih split).trans (List.suffix_cons ..)
  | case5 _ _ _ _ _ ih =>
    obtain ⟨⟨_, _⟩, found, same⟩ := Option.map_eq_some_iff.mp split
    cases same
    exact (ih found).trans (List.suffix_cons ..)
  | case6 _ _ _ _ _ _ _ ih => exact (ih split).trans (List.suffix_cons ..)

theorem afterAnnotationName_suffix (tokens : List Token) : afterAnnotationName tokens <:+ tokens := by
  fun_induction afterAnnotationName tokens with
  | case1 => exact List.suffix_refl _
  | case2 name _ point next more _ ih =>
    exact ih.trans ((List.suffix_cons ..).trans (List.suffix_cons ..))
  | case3 => exact List.suffix_cons ..
  | case4 => exact List.suffix_cons ..
  | case5 => exact List.suffix_refl _

theorem afterParenthesis_suffix {depth : Nat} (closes : afterParenthesis depth tokens = some rest) :
    rest <:+ tokens := by
  fun_induction afterParenthesis depth tokens with
  | case1 => cases closes
  | case2 _ _ _ _ ih => exact (ih closes).trans (List.suffix_cons ..)
  | case3 =>
    cases closes
    exact List.suffix_cons ..
  | case4 _ _ _ _ _ _ ih => exact (ih closes).trans (List.suffix_cons ..)
  | case5 _ _ _ _ _ ih => exact (ih closes).trans (List.suffix_cons ..)

/-! ### Steps -/

/-- What a step does to the open braces and to the types that are closed, given its first token and the
member header before it. -/
inductive Turn (t : Token) (header : List Token) (closed : List TypeDeclaration) :
    List Frame → List Frame → List TypeDeclaration → Prop
  | passes {stack : List Frame} (other : t.isSymbol "\x7d" = false) :
      Turn t header closed stack stack closed
  | opensType {stack : List Frame} {d : TypeDeclaration} {inConstants : Bool}
      (other : t.isSymbol "\x7d" = false) (empty : d.methods = []) :
      Turn t header closed stack (.type d inConstants :: stack) closed
  | opensMethod {below : List Frame} {d : TypeDeclaration} {m : Method}
      (opening : t.isSymbol "\x7b" = true) (read : methodHeader? header = some m) :
      Turn t header closed (.type d false :: below) (.method m :: .type d false :: below) closed
  | opensBlock {stack : List Frame} (opening : t.isSymbol "\x7b" = true) (inside : stack ≠ []) :
      Turn t header closed stack (.block :: stack) closed
  | endsConstants {below : List Frame} {d : TypeDeclaration} (ending : t.isSymbol ";" = true) :
      Turn t header closed (.type d true :: below) (.type d false :: below) closed
  | declares {below : List Frame} {d : TypeDeclaration} {m : Method} (ending : t.isSymbol ";" = true)
      (read : methodHeader? header = some m) :
      Turn t header closed (.type d false :: below)
        (.type { d with methods := d.methods ++ [{ m with hasBody := false }] } false :: below) closed
  /-- A return counts for the innermost method unless a type is open within it. -/
  | returns {below : List Frame} {m : Method} {x : Return} (blocks : Nat)
      (word : t.isWord "return" = true) :
      Turn t header closed (List.replicate blocks .block ++ .method m :: below)
        (List.replicate blocks .block ++ .method { m with returns := m.returns ++ [x] } :: below) closed
  | closesMethod {below : List Frame} {d : TypeDeclaration} {m : Method}
      (closing : t.isSymbol "\x7d" = true) :
      Turn t header closed (.method m :: .type d false :: below)
        (.type { d with methods := d.methods ++ [m] } false :: below) closed
  | closesBlock {below : List Frame} (closing : t.isSymbol "\x7d" = true) :
      Turn t header closed (.block :: below) below closed
  | closesType {below : List Frame} {d : TypeDeclaration} {inConstants : Bool}
      (closing : t.isSymbol "\x7d" = true) :
      Turn t header closed (.type d inConstants :: below) below (closed ++ [d])

/-- The body of a method stands right in the body of a type, past the constants of it, and a block stands
in something. -/
inductive Stacked : List Frame → Prop
  | nil : Stacked []
  | type {d : TypeDeclaration} {inConstants : Bool} {below : List Frame} (rest : Stacked below) :
      Stacked (.type d inConstants :: below)
  | method {m : Method} {d : TypeDeclaration} {below : List Frame}
      (rest : Stacked (.type d false :: below)) : Stacked (.method m :: .type d false :: below)
  | block {below : List Frame} (rest : Stacked below) (inside : below ≠ []) :
      Stacked (.block :: below)

/-- What is wrong where a step fails. Nothing is wrong with a brace unless none is open. -/
inductive Wrong (t : Token) (rest : List Token) (r : Reading) : SyntaxError → Prop
  | missingBody {kind : TypeKind} {name : Text}
      (starts : declaredKind? r.afterPoint (t :: rest) = some kind) :
      Wrong t rest r ⟨.missingBody kind name, t.position⟩
  | unterminatedDirective (outside : r.stack = []) (unended : ∀ u ∈ rest, u.isSymbol ";" = false) :
      Wrong t rest r ⟨.unterminatedDirective t.text, t.position⟩
  | unbalancedParentheses {opening : Token} (there : opening ∈ rest)
      (opens : opening.isSymbol "(" = true) :
      Wrong t rest r ⟨.unbalancedParentheses, opening.position⟩
  | braceOutsideType (opening : t.isSymbol "\x7b" = true) (outside : r.stack = []) :
      Wrong t rest r ⟨.braceOutsideType, t.position⟩
  | unbalancedBrace (closing : t.isSymbol "\x7d" = true) (outside : r.stack = []) :
      Wrong t rest r ⟨.unbalancedBrace, t.position⟩

/-- A step is taken, and what it does is one of the turns, or something is wrong. -/
inductive Taken (t : Token) (rest : List Token) (r : Reading) :
    Except SyntaxError (Reading × List Token) → Prop
  | onward {r' : Reading} {rest' : List Token} (shorter : rest' <:+ rest)
      (turn : Turn t r.header r.outline.types r.stack r'.stack r'.outline.types) :
      Taken t rest r (.ok (r', rest'))
  | wrong {e : SyntaxError} (wrong : Wrong t rest r e) : Taken t rest r (.error e)

/-- A token that is one symbol is no other. -/
theorem isSymbol_of_ne {text other : Text} (is : t.isSymbol text = true) (differ : text ≠ other) :
    t.isSymbol other = false := by
  simp only [Token.isSymbol, Bool.and_eq_true, decide_eq_true_eq] at is
  simp [Token.isSymbol, is.2, differ]

theorem isSymbol_of_identifier {other : Text} (is : t.kind = .identifier) :
    t.isSymbol other = false := by
  simp [Token.isSymbol, is]

/-- A type declaration starts at no brace. -/
theorem no_brace_of_declaredKind {afterPoint : Bool} {kind : TypeKind}
    (starts : declaredKind? afterPoint (t :: rest) = some kind) : t.isSymbol "\x7d" = false := by
  have word {text : Text} (is : t.isWord text = true) : t.isSymbol "\x7d" = false := by
    simp only [Token.isWord, Bool.and_eq_true, decide_eq_true_eq] at is
    exact isSymbol_of_identifier is.1
  cases rest with
  | nil => cases starts
  | cons next rest =>
    simp only [declaredKind?] at starts
    split at starts
    next at_ =>
      rw [Bool.and_eq_true] at at_
      exact isSymbol_of_ne at_.1 (by decide)
    split at starts
    · cases starts
    split at starts
    next is => exact word is
    split at starts
    next is => exact word is
    split at starts
    next is => exact word is
    split at starts
    next is =>
      rw [Bool.and_eq_true] at is
      exact word is.1
    next => cases starts

theorem taken_openType {kind kind' : TypeKind} {from_ : List Token}
    (starts : declaredKind? r.afterPoint (t :: rest) = some kind) (same : kind' = kind)
    (later : from_ <:+ rest) : Taken t rest r (r.openType contract kind' t from_) := by
  subst same
  unfold Reading.openType
  simp only
  split
  · exact .wrong (.missingBody starts)
  next header body split =>
    refine .onward ?_ (.opensType (no_brace_of_declaredKind starts) rfl)
    exact ((splitBody_suffix split).trans (List.tail_suffix _)).trans later

theorem taken_directive (outside : r.stack = []) (keyword : t.kind = .identifier) :
    Taken t rest r (r.directive t rest) := by
  unfold Reading.directive
  simp only
  split
  next unended =>
    refine .wrong (.unterminatedDirective outside fun u member => ?_)
    have all := List.dropWhile_eq_nil_iff.mp unended u member
    simpa using all
  next =>
    refine .onward ((List.tail_suffix _).trans (List.dropWhile_suffix _)) ?_
    have types (name : Text) : (Reading.declare t.text name r.outline).types = r.outline.types := by
      unfold Reading.declare
      split
      · rfl
      · rfl
    rw [types]
    exact .passes (isSymbol_of_identifier keyword)

theorem taken_annotation (sign : t.isSymbol "@" = true) : Taken t rest r (r.annotationAt rest) := by
  have passes : Turn t r.header r.outline.types r.stack r.stack r.outline.types :=
    .passes (isSymbol_of_ne sign (by decide))
  have name := afterAnnotationName_suffix rest
  unfold Reading.annotationAt
  simp only
  split
  next opening after found =>
    rw [found] at name
    split
    next opens =>
      split
      next closes =>
        refine .onward ?_ passes
        exact ((afterParenthesis_suffix closes).trans (List.suffix_cons ..)).trans name
      next =>
        exact .wrong (.unbalancedParentheses (name.subset List.mem_cons_self) opens)
    next => exact .onward name passes
  next => exact .onward (List.nil_suffix) passes

section

variable (members : r.atMembers = true)
include members

/-- A semicolon ends the constants of a type, or a member that has no body. -/
theorem turn_endMember (ending : t.isSymbol ";" = true) :
    Turn t r.header r.outline.types r.stack r.endMember.stack r.endMember.outline.types := by
  obtain ⟨stack, header, outline, point⟩ := r
  have other : t.isSymbol "\x7d" = false := isSymbol_of_ne ending (by decide)
  unfold Reading.endMember
  simp only
  rcases stack with _ | ⟨⟨d, _ | _⟩ | m | _, below⟩
  · split
    · cases ‹_ = _ :: _›
    · split
      · exact .passes other
      · exact .passes other
  · simp only
    split
    next m read => exact .declares ending read
    next => exact .passes other
  · exact .endsConstants ending
  · cases members
  · cases members

/-- A brace between members opens a method, or a block within a type. -/
theorem taken_openMember (opening : t.isSymbol "\x7b" = true) (afterPoint : Bool) :
    Taken t rest r ((r.openMember t).map fun r => ({ r with afterPoint }, rest)) := by
  obtain ⟨stack, header, outline, point⟩ := r
  unfold Reading.openMember
  simp only
  rcases stack with _ | ⟨⟨d, _ | _⟩ | m | _, below⟩
  · exact .wrong (.braceOutsideType opening rfl)
  · simp only
    rcases read : methodHeader? header with _ | m
    · exact .onward (List.suffix_refl _) (.opensBlock opening nofun)
    · exact .onward (List.suffix_refl _) (.opensMethod opening read)
  · exact .onward (List.suffix_refl _) (.opensBlock opening nofun)
  · cases members
  · cases members

theorem taken_closeType (closing : t.isSymbol "\x7d" = true) (afterPoint : Bool) :
    Taken t rest r ((r.closeType t).map fun r => ({ r with afterPoint }, rest)) := by
  obtain ⟨stack, header, outline, point⟩ := r
  unfold Reading.closeType
  simp only
  rcases stack with _ | ⟨⟨d, inConstants⟩ | m | _, below⟩
  · exact .wrong (.unbalancedBrace closing rfl)
  · exact .onward (List.suffix_refl _) (.closesType closing)
  · cases members
  · cases members

/-- A token between members. -/
theorem taken_member (afterPoint : Bool) :
    Taken t rest r ((r.member t).map fun r => ({ r with afterPoint }, rest)) := by
  unfold Reading.member
  split
  next ending => exact .onward (List.suffix_refl _) (turn_endMember members ending)
  split
  next opening => exact taken_openMember members opening afterPoint
  split
  next closing => exact taken_closeType members closing afterPoint
  next open_ => exact .onward (List.suffix_refl _) (.passes (by simpa using open_))

end

/-- A return is added to the method around it, if there is one. -/
theorem addReturn_cases (x : Return) (stack : List Frame) :
    addReturn x stack = stack ∨ ∃ blocks m below, stack = List.replicate blocks .block ++ .method m :: below ∧
      addReturn x stack =
        List.replicate blocks .block ++ .method { m with returns := m.returns ++ [x] } :: below := by
  induction stack with
  | nil => exact .inl rfl
  | cons frame stack ih =>
    cases frame with
    | type => exact .inl rfl
    | method m => exact .inr ⟨0, m, stack, rfl, rfl⟩
    | block =>
      rcases ih with same | ⟨blocks, m, below, here, added⟩
      · left
        rw [addReturn, same]
      · right
        refine ⟨blocks + 1, m, below, ?_, ?_⟩
        · rw [here]
          rfl
        · rw [addReturn, added]
          rfl

/-- A token inside a method or a block. -/
theorem turn_body (stacked : Stacked r.stack) (inside : r.atMembers = false) :
    Turn t r.header r.outline.types r.stack (r.body t rest).stack (r.body t rest).outline.types := by
  obtain ⟨stack, header, outline, point⟩ := r
  unfold Reading.body
  split
  next opening =>
    refine .opensBlock opening ?_
    rintro rfl
    cases inside
  split
  next closing =>
    unfold Reading.closeBody
    simp only at stacked ⊢
    cases stacked with
    | nil => cases inside
    | type => cases inside
    | method => exact .closesMethod closing
    | block => exact .closesBlock closing
  split
  next word =>
    simp only
    rcases addReturn_cases ⟨t.position.line, returnsNull rest⟩ stack with
      same | ⟨blocks, m, below, here, added⟩
    · rw [same]
      simp only [Token.isWord, Bool.and_eq_true, decide_eq_true_eq] at word
      exact .passes (isSymbol_of_identifier word.1)
    · rw [added, here]
      exact .returns blocks word
  next closing _ => exact .passes (by simpa using closing)

/-- Every step goes on or something is wrong. -/
theorem taken_step (stacked : Stacked r.stack) : Taken t rest r (r.step contract t rest) := by
  unfold Reading.step
  split
  next starts => exact taken_openType starts rfl (List.tail_suffix _)
  next kind _ starts => exact taken_openType starts rfl (List.suffix_refl _)
  split
  next directive =>
    simp only [Bool.and_eq_true, decide_eq_true_eq, Token.isOneOf] at directive
    exact taken_directive directive.1 directive.2.1
  split
  next annotation =>
    rw [Bool.and_eq_true] at annotation
    exact taken_annotation annotation.2
  split
  next members => exact taken_member members _
  next inside =>
    exact .onward (List.suffix_refl _) (turn_body stacked (by simpa using inside))

/-! ### Runs -/

section

variable (contract tokens)

/-- With these braces open, the member header of a method was read. -/
def ReadIn (open_ : List Frame) (m : Method) : Prop :=
  ∃ r ahead m₀, Reaches contract {} tokens r ahead ∧ r.stack = open_ ∧
    methodHeader? r.header = some m₀ ∧
    m = { m₀ with returns := m.returns, hasBody := m.hasBody }

/-- Every method of a type was read while the braces below that type and its own were those open, and the
methods before it were all that the type had. -/
def Owns (below : List Frame) (d : TypeDeclaration) : Prop :=
  ∀ before m after, d.methods = before ++ m :: after →
    ReadIn contract tokens (.type { d with methods := before } false :: below) m

/-- The open types own their methods, and the header of an open method was read right in the type below
it, which has not changed since. -/
inductive Traced : List Frame → Prop
  | nil : Traced []
  | type {d : TypeDeclaration} {inConstants : Bool} {below : List Frame} (rest : Traced below)
      (owns : Owns contract tokens below d) : Traced (.type d inConstants :: below)
  | method {m : Method} {d : TypeDeclaration} {below : List Frame}
      (rest : Traced (.type d false :: below))
      (read : ReadIn contract tokens (.type d false :: below) m) :
      Traced (.method m :: .type d false :: below)
  | block {below : List Frame} (rest : Traced below) (inside : below ≠ []) : Traced (.block :: below)

end

theorem Traced.stacked (traced : Traced contract tokens stack) : Stacked stack := by
  induction traced with
  | nil => exact .nil
  | type _ _ ih => exact .type ih
  | method _ _ ih => exact .method ih
  | block _ inside ih => exact .block ih inside

theorem ReadIn.congr {open_ : List Frame} {m m' : Method} (read : ReadIn contract tokens open_ m)
    (same : m' = { m with returns := m'.returns, hasBody := m'.hasBody }) :
    ReadIn contract tokens open_ m' := by
  obtain ⟨r, ahead, m₀, reaches, here, header, declared⟩ := read
  refine ⟨r, ahead, m₀, reaches, here, header, ?_⟩
  rw [same, declared]

theorem owns_of_empty {d : TypeDeclaration} (empty : d.methods = []) :
    Owns contract tokens below d := by
  intro before m after methods
  rw [empty] at methods
  cases (List.append_eq_nil_iff.mp methods.symm).2

/-- A type owns one more method that was read in it. -/
theorem Owns.add {d : TypeDeclaration} {m : Method} (owns : Owns contract tokens below d)
    (read : ReadIn contract tokens (.type d false :: below) m) :
    Owns contract tokens below { d with methods := d.methods ++ [m] } := by
  intro before m' after methods
  -- The method is the last one, or one of those before it.
  rcases List.eq_nil_or_concat after with rfl | ⟨after, last, rfl⟩
  · obtain ⟨rfl, same⟩ := List.append_inj' methods rfl
    cases same
    exact read
  · rw [List.concat_eq_append, ← List.cons_append, ← List.append_assoc] at methods
    exact owns before m' after (List.append_inj' methods rfl).1

theorem Traced.addReturn {blocks : Nat} {m m' : Method}
    (same : m' = { m with returns := m'.returns, hasBody := m'.hasBody })
    (traced : Traced contract tokens (List.replicate blocks .block ++ .method m :: below)) :
    Traced contract tokens (List.replicate blocks .block ++ .method m' :: below) := by
  induction blocks with
  | zero =>
    cases traced with
    | method rest read => exact .method rest (read.congr same)
  | succ blocks ih =>
    rw [List.replicate_succ, List.cons_append] at traced ⊢
    cases traced with
    | block rest => exact .block (ih rest) (by simp)

/-- What a step does keeps the trace of what is open and of what was closed. -/
theorem traced_of_turn {stack' : List Frame} {closed' : List TypeDeclaration}
    (reaches : Reaches contract {} tokens r ahead)
    (turn : Turn t r.header closed r.stack stack' closed')
    (traced : Traced contract tokens r.stack)
    (owned : ∀ d ∈ closed, ∃ below, Owns contract tokens below d) :
    Traced contract tokens stack' ∧ ∀ d ∈ closed', ∃ below, Owns contract tokens below d := by
  have read {m : Method} (header : methodHeader? r.header = some m) (hasBody : Bool) :
      ReadIn contract tokens r.stack { m with hasBody } :=
    ⟨r, ahead, m, reaches, rfl, header, rfl⟩
  generalize at_ : r.stack = stack at turn traced read
  -- A method is recorded where it is declared without a body, and where its body is closed.
  cases turn with
  | passes => exact ⟨traced, owned⟩
  | opensType _ empty => exact ⟨.type traced (owns_of_empty empty), owned⟩
  | @opensMethod _ _ m _ header => exact ⟨.method traced (read header m.hasBody), owned⟩
  | opensBlock _ inside => exact ⟨.block traced inside, owned⟩
  | endsConstants =>
    cases traced with
    | type rest owns => exact ⟨.type rest owns, owned⟩
  | declares _ header =>
    cases traced with
    | type rest owns => exact ⟨.type rest (owns.add (read header false)), owned⟩
  | returns => exact ⟨traced.addReturn rfl, owned⟩
  | closesMethod =>
    cases traced with
    | method rest read =>
      cases rest with
      | type rest owns => exact ⟨.type rest (owns.add read), owned⟩
  | closesBlock =>
    cases traced with
    | block rest => exact ⟨rest, owned⟩
  | closesType =>
    cases traced with
    | type rest owns =>
      refine ⟨rest, fun d' member => ?_⟩
      rcases List.mem_append.mp member with earlier | here
      · exact owned d' earlier
      · rw [List.mem_singleton.mp here]
        exact ⟨_, owns⟩

/-- However far a source was read, the trace is kept, and the tokens left are the last ones. -/
theorem traced_of_reaches (reaches : Reaches contract {} tokens r ahead) :
    ahead <:+ tokens ∧ Traced contract tokens r.stack ∧
      ∀ d ∈ r.outline.types, ∃ below, Owns contract tokens below d := by
  -- The trace tells that the open braces are stacked, so that the next step is one of the turns.
  induction reaches with
  | start => exact ⟨List.suffix_refl _, .nil, fun d member => nomatch member⟩
  | @step r r' t rest rest' reaches step ih =>
    obtain ⟨last, traced, owned⟩ := ih
    have taken : Taken t rest r (r.step contract t rest) := taken_step traced.stacked
    rw [step] at taken
    cases taken with
    | onward shorter turn =>
      refine ⟨(shorter.trans (List.suffix_cons ..)).trans last, ?_⟩
      exact traced_of_turn reaches turn traced owned

/-- Reading comes to the end of the tokens or to an error. -/
theorem reaches_end (contract : FixerContract) (r : Reading) (tokens : List Token) :
    (∃ last, Reaches contract r tokens last []) ∨
      ∃ last t rest e, Reaches contract r tokens last (t :: rest) ∧
        last.step contract t rest = .error e := by
  -- By induction on how many tokens are left, as every step leaves fewer.
  induction size : tokens.length using Nat.strongRecOn generalizing r tokens with
  | _ n ih =>
  cases tokens with
  | nil => exact .inl ⟨r, .start⟩
  | cons t rest =>
    rcases step : r.step contract t rest with e | ⟨next, rest'⟩
    · exact .inr ⟨r, t, rest, e, .start, step⟩
    · have first : Reaches contract r (t :: rest) next rest' := .step .start step
      have shorter : rest'.length < n := by
        have := Reading.length_of_step step
        simp only [List.length_cons] at size
        omega
      rcases ih _ shorter next rest' rfl with ⟨last, later⟩ | ⟨last, t', ahead, e, later, wrong⟩
      · exact .inl ⟨last, first.trans later⟩
      · exact .inr ⟨last, t', ahead, e, first.trans later, wrong⟩

/-- Whatever the tokens are, each step goes on with fewer of them or says what is wrong with the source;
it closes what is on top of the open braces, and only if something is open. The outline of a source that
is read to its end holds the types that were closed, each with the methods whose headers were read right
in it. -/
theorem outlining_is_safe (contract : FixerContract) (tokens : List Token) (stop : Position) :
    (∀ r ahead, Reaches contract {} tokens r ahead →
      ahead <:+ tokens ∧ Traced contract tokens r.stack ∧
      ∀ t rest, ahead = t :: rest → Taken t rest r (r.step contract t rest)) ∧
    ((∃ r, Reaches contract {} tokens r [] ∧ r.stack = [] ∧
        readOutline contract stop {} tokens = .ok r.outline ∧
        ∀ d ∈ r.outline.types, ∃ below, Owns contract tokens below d) ∨
      (∃ r, Reaches contract {} tokens r [] ∧ r.stack ≠ [] ∧
        readOutline contract stop {} tokens = .error ⟨.endInsideDeclaration, stop⟩) ∨
      ∃ r t rest e, Reaches contract {} tokens r (t :: rest) ∧ Wrong t rest r e ∧
        r.step contract t rest = .error e ∧ readOutline contract stop {} tokens = .error e) := by
  constructor
  · intro r ahead reaches
    obtain ⟨last, traced, _⟩ := traced_of_reaches reaches
    exact ⟨last, traced, fun t rest _ => taken_step traced.stacked⟩
  · rcases reaches_end contract {} tokens with ⟨r, reaches⟩ | ⟨r, t, rest, e, reaches, step⟩
    · have read := readOutline_of_reaches reaches stop
      rw [readOutline] at read
      by_cases outside : r.stack = []
      · rw [if_pos outside] at read
        exact .inl ⟨r, reaches, outside, read, (traced_of_reaches reaches).2.2⟩
      · rw [if_neg outside] at read
        exact .inr (.inl ⟨r, reaches, outside, read⟩)
    · have taken : Taken t rest r (r.step contract t rest) :=
        taken_step (traced_of_reaches reaches).2.1.stacked
      have read := readOutline_of_reaches reaches stop
      rw [readOutline_of_error step] at read
      rw [step] at taken
      cases taken with
      | wrong wrong => exact .inr (.inr ⟨r, t, rest, e, reaches, wrong, step, read⟩)

end Layering.Java
