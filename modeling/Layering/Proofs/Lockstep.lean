import Layering.Java.Outlining
import Layering.Proofs.Abreast

/-!
# Lockstep

Two sources whose tokens outlining does not tell apart are read in lockstep: one step takes both
readings on (`step_lockstep`), and so they end in outlines of the same shape or with the same error
(`readOutline_lockstep`).
-/

namespace Layering.Java

/-! ### Declarations -/

/-- A method as its header declares it. -/
def Method.declared (m : Method) : Method := { m with returns := [], hasBody := true }

/-- Two sources that are read side by side. -/
structure Course where
  contract : FixerContract
  /-- The partners among their tokens. -/
  pair : Token → Token → Prop
  alike : ∀ t t', pair t t' → Alike t t'
  /-- The member headers that the first source comes to. -/
  read : List Token → Prop
  /-- The imports of the first source before it is followed. -/
  imports : List Text := []
  /-- The imports of the second source before it is followed. -/
  imports' : List Text := []

structure ReturnAlike (c : Course) (r r' : Return) : Prop where
  line : Lined c.pair r.line r'.line
  isNull : r.isNull = r'.isNull

structure MethodAlike (c : Course) (m m' : Method) : Prop extends HeaderAlike c.pair m m' where
  read : ∃ header header', c.read header ∧ Abreast c.pair header header' ∧
    methodHeader? header = some m.declared ∧ methodHeader? header' = some m'.declared
  hasBody : m.hasBody = m'.hasBody
  returns : List.Forall₂ (ReturnAlike c) m.returns m'.returns

structure TypeAlike (c : Course) (d d' : TypeDeclaration) : Prop where
  name : TypeNamed c.pair d.kind d.name d'.name
  kind : d.kind = d'.kind
  line : Lined c.pair d.line d'.line
  bases : List.Forall₂ (Named (Words c.pair)) d.bases d'.bases
  interfaces : List.Forall₂ (Named (Words c.pair)) d.interfaces d'.interfaces
  methods : List.Forall₂ (MethodAlike c) d.methods d'.methods
  role : d.role = c.contract.role d.kind d.bases d.interfaces
  role' : d'.role = c.contract.role d'.kind d'.bases d'.interfaces

structure OutlineAlike (c : Course) (o o' : Outline) : Prop where
  package : Spelled c.pair o.package o'.package
  imports : ∃ more more', o.imports = c.imports ++ more ∧ o'.imports = c.imports' ++ more' ∧
    List.Forall₂ (Spelled c.pair) more more'
  types : List.Forall₂ (TypeAlike c) o.types o'.types

structure ErrorAlike (c : Course) (e e' : SyntaxError) : Prop where
  problem : e.problem = e'.problem ∨ ∃ kind name name', e.problem = .missingBody kind name ∧
    e'.problem = .missingBody kind name' ∧ TypeNamed c.pair kind name name'
  position : ∃ t t', c.pair t t' ∧ e.position = t.position ∧ e'.position = t'.position

/-- Both results are values, or both are errors. -/
inductive Outcomes {ε ε' α α' : Type} (errors : ε → ε' → Prop) (values : α → α' → Prop) :
    Except ε α → Except ε' α' → Prop
  | ok {a : α} {a' : α'} (both : values a a') : Outcomes errors values (.ok a) (.ok a')
  | error {e : ε} {e' : ε'} (both : errors e e') : Outcomes errors values (.error e) (.error e')

theorem Outcomes.map {ε ε' α α' β β' : Type} {errors : ε → ε' → Prop} {values : α → α' → Prop}
    {values' : β → β' → Prop} {f : α → β} {f' : α' → β'} {x : Except ε α} {x' : Except ε' α'}
    (outcomes : Outcomes errors values x x') (maps : ∀ a a', values a a' → values' (f a) (f' a')) :
    Outcomes errors values' (x.map f) (x'.map f') := by
  cases outcomes with
  | ok both => exact .ok (maps _ _ both)
  | error both => exact .error both

inductive FrameAlike (c : Course) : Frame → Frame → Prop
  | type {d d' : TypeDeclaration} (inConstants : Bool) (alike : TypeAlike c d d') :
      FrameAlike c (.type d inConstants) (.type d' inConstants)
  | method {m m' : Method} (alike : MethodAlike c m m') : FrameAlike c (.method m) (.method m')
  | block : FrameAlike c .block .block

/-! ### Readings -/

section

variable {c : Course}

theorem addMethod_lockstep {m m' : Method} (alike : MethodAlike c m m') {stack stack' : List Frame}
    (frames : List.Forall₂ (FrameAlike c) stack stack') :
    List.Forall₂ (FrameAlike c) (addMethod m stack) (addMethod m' stack') := by
  cases frames with
  | nil => exact .nil
  | cons frame below =>
    cases frame with
    | type inConstants type =>
      refine .cons (.type inConstants { type with methods := ?_ }) below
      exact List.rel_append type.methods (.cons alike .nil)
    | method method => exact .cons (.method method) below
    | block => exact .cons .block below

theorem addReturn_lockstep {r r' : Return} (alike : ReturnAlike c r r') {stack stack' : List Frame}
    (frames : List.Forall₂ (FrameAlike c) stack stack') :
    List.Forall₂ (FrameAlike c) (addReturn r stack) (addReturn r' stack') := by
  induction frames with
  | nil => exact .nil
  | cons frame below ih =>
    cases frame with
    | type inConstants type => exact .cons (.type inConstants type) below
    | method method =>
      refine .cons (.method { method with returns := ?_ }) below
      exact List.rel_append method.returns (.cons alike .nil)
    | block => exact .cons .block ih

/-- Two readings, each with the tokens that are ahead of it. -/
structure InStep (c : Course) (r r' : Reading) (ahead ahead' : List Token) : Prop where
  stack : List.Forall₂ (FrameAlike c) r.stack r'.stack
  tokens : Abreast c.pair (r.header ++ ahead) (r'.header ++ ahead')
  level : r.header.length = r'.header.length
  inside : r.atMembers = false → r.header = []
  outline : OutlineAlike c r.outline r'.outline
  afterPoint : r.afterPoint = r'.afterPoint

theorem InStep.start {tokens tokens' : List Token} (abreast : Abreast c.pair tokens tokens')
    (fresh : c.imports = [] ∧ c.imports' = []) : InStep c {} {} tokens tokens' where
  stack := .nil
  tokens := abreast
  level := rfl
  inside := fun _ => rfl
  outline := ⟨⟨[], [], .nil, rfl, rfl⟩, ⟨[], [], by simp [fresh.1], by simp [fresh.2], .nil⟩, .nil⟩
  afterPoint := rfl

variable {r r' : Reading} {t t' : Token} {rest rest' : List Token}

theorem InStep.atMembers_eq {ahead ahead' : List Token} (inStep : InStep c r r' ahead ahead') :
    r.atMembers = r'.atMembers := by
  have frames := inStep.stack
  unfold Reading.atMembers
  revert frames
  generalize r.stack = stack
  generalize r'.stack = stack'
  intro frames
  cases frames with
  | nil => rfl
  | cons frame _ => cases frame <;> rfl

theorem InStep.ahead {ahead ahead' : List Token} (inStep : InStep c r r' ahead ahead') :
    Abreast c.pair ahead ahead' :=
  inStep.tokens.append_right inStep.level

theorem InStep.pair (inStep : InStep c r r' (t :: rest) (t' :: rest')) : c.pair t t' := by
  cases inStep.ahead with
  | cons pair _ _ => exact pair

theorem InStep.onward (inStep : InStep c r r' (t :: rest) (t' :: rest')) :
    Abreast c.pair rest rest' := inStep.ahead.tail

theorem InStep.header {ahead ahead' : List Token} (inStep : InStep c r r' ahead ahead') :
    Abreast c.pair r.header r'.header :=
  inStep.tokens.append_left inStep.level

/-- A new member starts. -/
theorem InStep.fresh {ahead ahead' : List Token} {stack stack' : List Frame}
    {outline outline' : Outline} (frames : List.Forall₂ (FrameAlike c) stack stack')
    (outlines : OutlineAlike c outline outline') (tokens : Abreast c.pair ahead ahead')
    (afterPoint : Bool) :
    InStep c ⟨stack, [], outline, afterPoint⟩ ⟨stack', [], outline', afterPoint⟩ ahead ahead' where
  stack := frames
  tokens := tokens
  level := rfl
  inside := fun _ => rfl
  outline := outlines
  afterPoint := rfl

theorem openType_lockstep {ahead ahead' : List Token} (inStep : InStep c r r' ahead ahead')
    (pair : c.pair t t') {kind : TypeKind} (abreast : Abreast c.pair rest rest')
    (word : kind ≠ .annotationType → rest.head?.any (·.isIdentifier) = true) :
    Outcomes (ErrorAlike c) (fun p p' => InStep c p.1 p'.1 p.2 p'.2)
      (r.openType c.contract kind t rest) (r'.openType c.contract kind t' rest') := by
  cases abreast with
  | nil => exact .error ⟨.inl rfl, t, t', pair, rfl, rfl⟩
  | @cons name name' rest rest' pair' _ more =>
    have named : TypeNamed c.pair kind name.text name'.text :=
      ⟨⟨name, name', pair', rfl, rfl⟩, fun other => ⟨name, name', ⟨pair', word other⟩, rfl, rfl⟩⟩
    have body := splitBody_lockstep c.alike 0 more
    simp only [Reading.openType, List.head?_cons, Option.map_some, Option.getD_some, List.tail_cons]
    revert body
    generalize splitBody 0 rest = split
    generalize splitBody 0 rest' = split'
    intro body
    cases body with
    | none => exact .error ⟨.inr ⟨kind, _, _, rfl, rfl, named⟩, t, t', pair, rfl, rfl⟩
    | some both =>
      obtain ⟨header, onward⟩ := both
      refine .ok (.fresh (.cons (.type _ ?_) inStep.stack) inStep.outline onward false)
      exact {
        name := named
        kind := rfl
        line := ⟨t, t', pair, rfl, rfl⟩
        bases := supertypesOf_lockstep c.alike _ header
        interfaces := supertypesOf_lockstep c.alike _ header
        methods := .nil
        role := rfl
        role' := rfl }

theorem declare_lockstep {o o' : Outline} (outlines : OutlineAlike c o o') (keyword : Text)
    {name name' : Text} (spelled : Spelled c.pair name name') :
    OutlineAlike c (Reading.declare keyword name o) (Reading.declare keyword name' o') := by
  unfold Reading.declare
  split
  · exact { outlines with package := spelled }
  · obtain ⟨more, more', imports, imports', both⟩ := outlines.imports
    exact { outlines with
      imports := ⟨more ++ [name], more' ++ [name'], by simp [imports], by simp [imports'],
        List.rel_append both (.cons spelled .nil)⟩ }

theorem directive_lockstep (inStep : InStep c r r' (t :: rest) (t' :: rest'))
    (keyword : t.isOneOf ["package", "import"] = true) :
    Outcomes (ErrorAlike c) (fun p p' => InStep c p.1 p'.1 p.2 p'.2)
      (r.directive t rest) (r'.directive t' rest') := by
  have text := (c.alike _ _ inStep.pair).text_eq (by decide) keyword
  have open_ (t t' : Token) (pair : c.pair t t') : (!t.isSymbol ";") = !t'.isSymbol ";" := by
    rw [(c.alike t t' pair).isSymbol_eq]
  have plain (t t' : Token) (pair : c.pair t t') : (!t.isWord "static") = !t'.isWord "static" := by
    rw [(c.alike t t' pair).isWord_eq "static" (by decide)]
  have parts := forall₂_filter plain (forall₂_takeWhile open_ inStep.onward.pairs)
  have onward := inStep.onward.dropWhile open_
  unfold Reading.directive
  simp only
  revert onward
  generalize rest.dropWhile (fun t => !t.isSymbol ";") = rest₂
  generalize rest'.dropWhile (fun t => !t.isSymbol ";") = rest₂'
  intro onward
  cases onward with
  | nil => exact .error ⟨.inl (by simp [text]), t, t', inStep.pair, rfl, rfl⟩
  | cons _ _ more =>
    simp only [reduceCtorEq, if_false, text]
    exact .ok (.fresh inStep.stack (declare_lockstep inStep.outline _ ⟨_, _, parts, rfl, rfl⟩) more
      false)

/-- Tokens are passed over right after the header, from a mark on. -/
theorem InStep.skip (inStep : InStep c r r' (t :: rest) (t' :: rest')) (marks : t.isMark = true)
    {ahead ahead' : List Token} (onward : Abreast c.pair ahead ahead') (afterPoint : Bool) :
    InStep c { r with afterPoint } { r' with afterPoint } ahead ahead' :=
  { inStep with
    tokens := inStep.tokens.splice inStep.level marks onward
    inside := inStep.inside
    afterPoint := rfl }

theorem annotationAt_lockstep (inStep : InStep c r r' (t :: rest) (t' :: rest'))
    (marks : t.isMark = true) :
    Outcomes (ErrorAlike c) (fun p p' => InStep c p.1 p'.1 p.2 p'.2)
      (r.annotationAt rest) (r'.annotationAt rest') := by
  have onward := afterAnnotationName_lockstep c.alike inStep.onward
  unfold Reading.annotationAt
  simp only
  revert onward
  generalize afterAnnotationName rest = ahead
  generalize afterAnnotationName rest' = ahead'
  intro onward
  cases onward with
  | nil => exact .ok (inStep.skip marks .nil false)
  | @cons opening opening' ahead ahead' pair kept more =>
    simp only [← (c.alike _ _ pair).isSymbol_eq]
    split
    · have closed := afterParenthesis_lockstep c.alike 0 more
      revert closed
      generalize afterParenthesis 0 ahead = behind
      generalize afterParenthesis 0 ahead' = behind'
      intro closed
      cases closed with
      | none => exact .error ⟨.inl rfl, opening, opening', pair, rfl, rfl⟩
      | some onward => exact .ok (inStep.skip marks onward false)
    · exact .ok (inStep.skip marks (.cons pair kept more) false)

theorem methodHeader?_declared {header : List Token} {m : Method}
    (found : methodHeader? header = some m) : m.declared = m := by
  simp only [methodHeader?, Option.bind_eq_bind, Option.bind_eq_some_iff] at found
  obtain ⟨_, _, name, _, found⟩ := found
  split at found
  · cases found
  · cases found
    rfl

/-- The header of a member declares a method in both sources or in none. -/
theorem member_lockstep {ahead ahead' : List Token} (inStep : InStep c r r' ahead ahead')
    (read : c.read r.header) :
    Option.Rel (MethodAlike c) (methodHeader? r.header) (methodHeader? r'.header) := by
  have both := methodHeader?_lockstep c.alike inStep.header
  have declared (m : Method) : methodHeader? r.header = some m → m.declared = m :=
    methodHeader?_declared
  have declared' (m : Method) : methodHeader? r'.header = some m → m.declared = m :=
    methodHeader?_declared
  generalize found : methodHeader? r.header = m at both declared ⊢
  generalize found' : methodHeader? r'.header = m' at both declared' ⊢
  cases both with
  | none => exact .none
  | @some m m' alike =>
    have same := declared m rfl
    have same' := declared' m' rfl
    have returns : m.returns = [] := (congrArg Method.returns same).symm
    have returns' : m'.returns = [] := (congrArg Method.returns same').symm
    have hasBody : m.hasBody = true := (congrArg Method.hasBody same).symm
    have hasBody' : m'.hasBody = true := (congrArg Method.hasBody same').symm
    refine .some { alike with
      read := ⟨r.header, r'.header, read, inStep.header, ?_, ?_⟩
      hasBody := hasBody.trans hasBody'.symm
      returns := by rw [returns, returns']; exact .nil }
    · rw [found, same]
    · rw [found', same']

theorem MethodAlike.bodiless {m m' : Method} (alike : MethodAlike c m m') :
    MethodAlike c { m with hasBody := false } { m' with hasBody := false } :=
  { alike with hasBody := rfl }

theorem endMember_lockstep (inStep : InStep c r r' (t :: rest) (t' :: rest'))
    (read : c.read r.header) (afterPoint : Bool) :
    InStep c { r.endMember with afterPoint } { r'.endMember with afterPoint } rest rest' := by
  have members := member_lockstep inStep read
  have frames := inStep.stack
  have fresh {stack stack' : List Frame} (frames : List.Forall₂ (FrameAlike c) stack stack') :
      InStep c ⟨stack, [], r.outline, afterPoint⟩ ⟨stack', [], r'.outline, afterPoint⟩ rest rest' :=
    .fresh frames inStep.outline inStep.onward afterPoint
  unfold Reading.endMember
  revert frames members
  generalize r.stack = stack
  generalize r'.stack = stack'
  generalize methodHeader? r.header = m
  generalize methodHeader? r'.header = m'
  intro members frames
  cases frames with
  | nil => cases members <;> exact fresh .nil
  | cons frame below =>
    -- Only the end of the constants of an enumeration declares no method.
    cases frame with
    | type inConstants alike =>
      cases inConstants with
      | true => exact fresh (.cons (.type false alike) below)
      | false =>
        cases members with
        | none => exact fresh (.cons (.type false alike) below)
        | some method => exact fresh (addMethod_lockstep method.bodiless (.cons (.type false alike) below))
    | method alike =>
      cases members with
      | none => exact fresh (.cons (.method alike) below)
      | some method => exact fresh (addMethod_lockstep method.bodiless (.cons (.method alike) below))
    | block =>
      cases members with
      | none => exact fresh (.cons .block below)
      | some method => exact fresh (addMethod_lockstep method.bodiless (.cons .block below))

theorem openMember_lockstep (inStep : InStep c r r' (t :: rest) (t' :: rest'))
    (read : c.read r.header) :
    Outcomes (ErrorAlike c) (fun next next' => ∀ afterPoint,
        InStep c { next with afterPoint } { next' with afterPoint } rest rest')
      (r.openMember t) (r'.openMember t') := by
  have members := member_lockstep inStep read
  have frames := inStep.stack
  have fresh {stack stack' : List Frame} (frames : List.Forall₂ (FrameAlike c) stack stack')
      (afterPoint : Bool) : InStep c ⟨stack, [], r.outline, afterPoint⟩
        ⟨stack', [], r'.outline, afterPoint⟩ rest rest' :=
    .fresh frames inStep.outline inStep.onward afterPoint
  unfold Reading.openMember
  revert frames members
  generalize r.stack = stack
  generalize r'.stack = stack'
  generalize methodHeader? r.header = m
  generalize methodHeader? r'.header = m'
  intro members frames
  cases frames with
  | nil => exact .error ⟨.inl rfl, t, t', inStep.pair, rfl, rfl⟩
  | cons frame below =>
    cases frame with
    | type inConstants alike =>
      cases inConstants with
      | true => exact .ok (fresh (.cons .block (.cons (.type true alike) below)))
      | false =>
        cases members with
        | none => exact .ok (fresh (.cons .block (.cons (.type false alike) below)))
        | some method => exact .ok (fresh (.cons (.method method) (.cons (.type false alike) below)))
    | method alike => exact .ok (fresh (.cons .block (.cons (.method alike) below)))
    | block => exact .ok (fresh (.cons .block (.cons .block below)))

theorem closeType_lockstep (inStep : InStep c r r' (t :: rest) (t' :: rest')) :
    Outcomes (ErrorAlike c) (fun next next' => ∀ afterPoint,
        InStep c { next with afterPoint } { next' with afterPoint } rest rest')
      (r.closeType t) (r'.closeType t') := by
  have frames := inStep.stack
  have unbalanced : ErrorAlike c ⟨.unbalancedBrace, t.position⟩ ⟨.unbalancedBrace, t'.position⟩ :=
    ⟨.inl rfl, t, t', inStep.pair, rfl, rfl⟩
  unfold Reading.closeType
  revert frames
  generalize r.stack = stack
  generalize r'.stack = stack'
  intro frames
  cases frames with
  | nil => exact .error unbalanced
  | cons frame below =>
    cases frame with
    | type inConstants alike =>
      refine .ok (.fresh below { inStep.outline with types := ?_ } inStep.onward)
      exact List.rel_append inStep.outline.types (.cons alike .nil)
    | method => exact .error unbalanced
    | block => exact .error unbalanced

theorem memberStep_lockstep (inStep : InStep c r r' (t :: rest) (t' :: rest'))
    (read : c.read r.header) (atMembers : r.atMembers = true) :
    Outcomes (ErrorAlike c) (fun next next' => ∀ afterPoint,
        InStep c { next with afterPoint } { next' with afterPoint } rest rest')
      (r.member t) (r'.member t') := by
  have alike := c.alike _ _ inStep.pair
  simp only [Reading.member, ← alike.isSymbol_eq]
  split
  · exact .ok (endMember_lockstep inStep read)
  split
  · exact openMember_lockstep inStep read
  split
  · exact closeType_lockstep inStep
  · refine .ok fun afterPoint => { inStep with
      tokens := by simpa using inStep.tokens
      level := by simp [inStep.level]
      inside := fun inside => ?_
      afterPoint := rfl }
    exact absurd (inside.symm.trans atMembers) (by decide)

theorem closeBody_lockstep (inStep : InStep c r r' (t :: rest) (t' :: rest'))
    (inside : r.atMembers = false) (afterPoint : Bool) :
    InStep c { r.closeBody with afterPoint } { r'.closeBody with afterPoint } rest rest' := by
  have frames := inStep.stack
  have fresh {stack stack' : List Frame} (frames : List.Forall₂ (FrameAlike c) stack stack') :
      InStep c ⟨stack, [], r.outline, afterPoint⟩ ⟨stack', [], r'.outline, afterPoint⟩ rest rest' :=
    .fresh frames inStep.outline inStep.onward afterPoint
  unfold Reading.atMembers at inside
  unfold Reading.closeBody
  revert frames inside
  generalize r.stack = stack
  generalize r'.stack = stack'
  intro inside frames
  cases frames with
  | nil => cases inside
  | cons frame below =>
    cases frame with
    | type => cases inside
    | method alike => exact fresh (addMethod_lockstep alike below)
    | block => exact fresh below

theorem bodyStep_lockstep (inStep : InStep c r r' (t :: rest) (t' :: rest'))
    (inside : r.atMembers = false) (afterPoint : Bool) :
    InStep c { r.body t rest with afterPoint } { r'.body t' rest' with afterPoint } rest rest' := by
  have alike := c.alike _ _ inStep.pair
  have none := inStep.inside inside
  have none' : r'.header = [] := List.length_eq_zero_iff.mp (by rw [← inStep.level, none]; rfl)
  have fresh {stack stack' : List Frame} (frames : List.Forall₂ (FrameAlike c) stack stack') :
      InStep c ⟨stack, r.header, r.outline, afterPoint⟩ ⟨stack', r'.header, r'.outline, afterPoint⟩
        rest rest' := by
    rw [none, none']
    exact .fresh frames inStep.outline inStep.onward afterPoint
  simp only [Reading.body, ← alike.isSymbol_eq, ← alike.isWord_eq "return" (by decide)]
  split
  · exact fresh (.cons .block inStep.stack)
  split
  · exact closeBody_lockstep inStep inside afterPoint
  split
  · refine fresh (addReturn_lockstep ⟨⟨t, t', inStep.pair, rfl, rfl⟩, ?_⟩ inStep.stack)
    exact returnsNull_lockstep c.alike inStep.onward.pairs
  · exact fresh inStep.stack

/-- One step takes both readings on. -/
theorem step_lockstep (inStep : InStep c r r' (t :: rest) (t' :: rest')) (read : c.read r.header) :
    Outcomes (ErrorAlike c) (fun p p' => InStep c p.1 p'.1 p.2 p'.2)
      (r.step c.contract t rest) (r'.step c.contract t' rest') := by
  have alike := c.alike _ _ inStep.pair
  have kind : declaredKind? r.afterPoint (t :: rest) = declaredKind? r'.afterPoint (t' :: rest') := by
    rw [← inStep.afterPoint]
    exact declaredKind?_lockstep c.alike _ inStep.ahead.pairs
  have outside : (r.stack = []) ↔ (r'.stack = []) := by
    rw [← List.length_eq_zero_iff, ← List.length_eq_zero_iff, inStep.stack.length_eq]
  have keyword := alike.isOneOf_eq ["package", "import"] (by decide)
  unfold Reading.step
  rw [← kind]
  split
  · exact openType_lockstep inStep inStep.pair inStep.onward.tail (absurd rfl)
  next declared => exact openType_lockstep inStep inStep.pair inStep.onward (declaredKind?_name declared)
  · simp only [← outside, ← keyword, ← inStep.atMembers_eq, ← alike.isSymbol_eq]
    split
    next directive =>
      exact directive_lockstep inStep (Bool.and_eq_true_iff.mp directive).2
    split
    next annotation =>
      have marks := (Bool.and_eq_true_iff.mp annotation).2
      exact annotationAt_lockstep inStep (Bool.or_eq_true_iff.mpr (.inr marks))
    split
    next atMembers =>
      refine (memberStep_lockstep inStep read atMembers).map fun next next' both => ?_
      exact both _
    next inside =>
      have inside : r.atMembers = false := by simpa using inside
      exact .ok (bodyStep_lockstep inStep inside _)

end

/-! ### Runs -/

/-- What a reading of these tokens comes to, with the tokens that are ahead then. -/
inductive Reaches (contract : FixerContract) (r : Reading) (tokens : List Token) :
    Reading → List Token → Prop
  | start : Reaches contract r tokens r tokens
  | step {next next' : Reading} {t : Token} {rest rest' : List Token}
      (reaches : Reaches contract r tokens next (t :: rest))
      (step : next.step contract t rest = .ok (next', rest')) :
      Reaches contract r tokens next' rest'

theorem Reaches.trans {contract : FixerContract} {r next last : Reading}
    {tokens rest ahead : List Token} (early : Reaches contract r tokens next rest)
    (late : Reaches contract next rest last ahead) : Reaches contract r tokens last ahead := by
  induction late with
  | start => exact early
  | step _ step ih => exact ih.step step

/-- A reading is where it started, or went on from its first step. -/
theorem Reaches.cases_start {contract : FixerContract} {r next : Reading} {tokens ahead : List Token}
    (reaches : Reaches contract r tokens next ahead) :
    next = r ∧ ahead = tokens ∨ ∃ t rest first rest', tokens = t :: rest ∧
      r.step contract t rest = .ok (first, rest') ∧ Reaches contract first rest' next ahead := by
  induction reaches with
  | start => exact .inl ⟨rfl, rfl⟩
  | step reaches step ih =>
    rcases ih with ⟨rfl, rfl⟩ | ⟨t, rest, first, rest', rfl, begin_, later⟩
    · exact .inr ⟨_, _, _, _, rfl, step, .start⟩
    · exact .inr ⟨t, rest, first, rest', rfl, begin_, later.step step⟩

/-- The member headers that the first `n` steps of a reading come to. -/
def headers (contract : FixerContract) : Nat → Reading → List Token → List (List Token)
  | 0, r, _ => [r.header]
  | _, r, [] => [r.header]
  | n + 1, r, t :: rest =>
    r.header :: ((r.step contract t rest).toOption.map fun p => headers contract n p.1 p.2).getD []

theorem Reaches.header_mem {contract : FixerContract} {n : Nat} {r next : Reading}
    {tokens ahead : List Token} (reaches : Reaches contract r tokens next ahead)
    (enough : tokens.length ≤ n) : next.header ∈ headers contract n r tokens := by
  induction n generalizing r tokens with
  | zero =>
    obtain rfl := List.length_eq_zero_iff.mp (Nat.le_zero.mp enough)
    rcases reaches.cases_start with ⟨rfl, _⟩ | ⟨_, _, _, _, same, _⟩
    · exact List.mem_singleton_self _
    · cases same
  | succ n ih =>
    rcases reaches.cases_start with ⟨rfl, rfl⟩ | ⟨t, rest, first, rest', rfl, step, later⟩
    · cases ahead with
      | nil => exact List.mem_singleton_self _
      | cons => exact List.mem_cons_self
    · have shorter := Reading.length_of_step step
      simp only [List.length_cons, Nat.add_le_add_iff_right] at enough
      rw [headers, step]
      exact List.mem_cons_of_mem _ (ih later (Nat.le_trans shorter enough))

theorem readOutline_of_error {contract : FixerContract} {r : Reading} {t : Token} {rest : List Token}
    {e : SyntaxError} (error : r.step contract t rest = .error e) (stop : Position) :
    readOutline contract stop r (t :: rest) = .error e := by
  rw [readOutline]
  split
  next e' same => rw [Except.error.inj (same.symm.trans error)]
  next same => cases same.symm.trans error

theorem readOutline_of_step {contract : FixerContract} {r next : Reading} {t : Token}
    {rest rest' : List Token} (step : r.step contract t rest = .ok (next, rest')) (stop : Position) :
    readOutline contract stop r (t :: rest) = readOutline contract stop next rest' := by
  rw [readOutline]
  split
  next same => cases same.symm.trans step
  next same =>
    cases same.symm.trans step
    rfl

theorem readOutline_of_reaches {contract : FixerContract} {r next : Reading}
    {tokens rest : List Token} (reaches : Reaches contract r tokens next rest) (stop : Position) :
    readOutline contract stop r tokens = readOutline contract stop next rest := by
  induction reaches with
  | start => rfl
  | step _ step ih => rw [ih, readOutline_of_step step]

/-- Readings in step end alike, wherever the sources stop. -/
theorem readOutline_lockstep {c : Course} {r r' : Reading} {ahead ahead' : List Token}
    (inStep : InStep c r r' ahead ahead')
    (read : ∀ next rest, Reaches c.contract r ahead next rest → c.read next.header)
    (stop stop' : Position) :
    Outcomes (fun e e' => ErrorAlike c e e' ∨
        e = ⟨.endInsideDeclaration, stop⟩ ∧ e' = ⟨.endInsideDeclaration, stop'⟩) (OutlineAlike c)
      (readOutline c.contract stop r ahead) (readOutline c.contract stop' r' ahead') := by
  -- By induction on the tokens ahead, since one step may take several of them.
  induction size : ahead.length using Nat.strongRecOn generalizing r r' ahead ahead' with
  | _ n ih =>
  cases inStep.ahead with
  | nil =>
    have outside : (r.stack = []) ↔ (r'.stack = []) := by
      rw [← List.length_eq_zero_iff, ← List.length_eq_zero_iff, inStep.stack.length_eq]
    rw [readOutline, readOutline]
    simp only [← outside]
    split
    · exact .ok inStep.outline
    · exact .error (.inr ⟨rfl, rfl⟩)
  | @cons t t' rest rest' pair kept more =>
    have both := step_lockstep inStep (read r _ .start)
    generalize step : r.step c.contract t rest = x at both
    generalize step' : r'.step c.contract t' rest' = x' at both
    cases both with
    | error alike =>
      rw [readOutline_of_error step, readOutline_of_error step']
      exact .error (.inl alike)
    | @ok next next' inStep =>
      obtain ⟨next, onward⟩ := next
      obtain ⟨next', onward'⟩ := next'
      rw [readOutline_of_step step, readOutline_of_step step']
      have shorter : onward.length < n := by
        have := Reading.length_of_step step
        simp only [List.length_cons] at size
        omega
      have first : Reaches c.contract r (t :: rest) next onward := .step .start step
      exact ih _ shorter inStep (fun later rest reaches => read later rest (first.trans reaches)) rfl

end Layering.Java
