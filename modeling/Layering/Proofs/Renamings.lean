import Layering.Proofs.Lockstep
import Layering.Proofs.Signatures
import Layering.Proofs.Templates

/-!
# Renamings

Rewriting the signatures of a source fills a template of it with another name. So both sources have
tokens of the same kinds on the same lines, or the same error on the same line, and are outlined in
lockstep (`outline_rewriteSignatures`).
-/

namespace Layering.Java

/-! ### The template of a source -/

/-- A piece that is open where the core class is rewritten. -/
def Piece.template (core : Text) : Piece → Template
  | .char c => [some c]
  | .signature s =>
    if s.returnType = core then s.start.map some ++ none :: s.tail.map some
    else s.spelling.map some

/-- A source that is open where the core class is rewritten. -/
def template (core source : Text) : Template := (pieces source).flatMap (·.template core)

theorem fill_flatMap {α : Type} (name : Text) (f : α → Template) (l : List α) :
    Template.fill name (l.flatMap f) = l.flatMap fun a => (f a).fill name := by
  induction l with
  | nil => rfl
  | cons a l ih => rw [List.flatMap_cons, List.flatMap_cons, Template.fill_append, ih]

theorem Piece.fill_template (core : Text) (piece : Piece) :
    (piece.template core).fill core = piece.spelling := by
  cases piece with
  | char c => rfl
  | signature s =>
    rw [Piece.template]
    split
    next same => simp [Piece.spelling, Signature.spelling, same]
    next => simp [Piece.spelling]

theorem fill_template (core source : Text) : (template core source).fill core = source := by
  rw [template, fill_flatMap]
  conv => rhs; rw [← pieces_spelling source]
  exact List.flatMap_congr fun piece _ => piece.fill_template core

theorem fill_template_api (mapping : TypeMapping) (source : Text) :
    (template mapping.coreName source).fill mapping.apiName = rewriteSignatures mapping source := by
  rw [template, fill_flatMap, rewriteSignatures, List.flatMap_map]
  refine List.flatMap_congr fun piece _ => ?_
  cases piece with
  | char c => rfl
  | signature s =>
    rw [Piece.template, Piece.rewrite, Piece.spelling, Signature.rewrite]
    split
    next same => simp [Signature.spelling]
    next => simp

section

open Template

theorem spaced_text {t : Template} (spaced : ∀ b, Spaced b t) (text : Text) (b : Bool) :
    Spaced b (text.map some ++ t) := by
  induction text generalizing b with
  | nil => exact spaced b
  | cons c text ih => exact ih _

theorem spaced_open {t : Template} (spaced : Spaced true (none :: t)) {space : Text}
    (some_ : space ≠ []) (blank : ∀ c ∈ space, Text.isBlank c = true) (b : Bool) :
    Spaced b (space.map some ++ none :: t) := by
  induction space generalizing b with
  | nil => exact absurd rfl some_
  | cons c space ih =>
    obtain ⟨first, blank⟩ := List.forall_mem_cons.mp blank
    rw [List.map_cons, List.cons_append, Spaced, first]
    by_cases none : space = []
    · rw [none]
      exact spaced
    · exact ih none blank true

theorem spaced_form (f : Form) {t : Template} (spaced : ∀ b, Spaced b t) (core : Text) (b : Bool) :
    Spaced b ((Piece.signature f.signature).template core ++ t) := by
  have parted := f.parted
  simp only [List.forall_mem_append, List.forall_mem_cons] at parted
  obtain ⟨_, ⟨⟨gap, blank⟩, _⟩, ⟨⟨gap', blank'⟩, inhabited, word⟩, _⟩ := parted
  rw [Piece.template]
  split
  swap
  · exact spaced_text spaced _ b
  obtain ⟨c, space, first⟩ := List.exists_cons_of_ne_nil gap'
  obtain ⟨w, letters, letter⟩ := List.exists_cons_of_ne_nil inhabited
  have tail : f.signature.tail.map some ++ t = f.name.space.map some ++ some w ::
      ((letters ++ (f.gap ++ '(' :: f.parameters ++ ')' :: f.gap' ++ ['\x7b'])).map some ++ t) := by
    simp [Form.signature, SpacedWord.spelling, letter]
  have whole : f.signature.start.map some ++ none :: f.signature.tail.map some ++ t =
      (f.visibility ++ f.modifiers.flatMap (·.spelling)).map some ++
        (f.type.space.map some ++ none :: (f.signature.tail.map some ++ t)) := by
    simp [Form.signature]
  rw [whole]
  refine spaced_text (fun b => spaced_open ⟨rfl, ?_, ?_, ?_⟩ gap blank b) _ b
  · exact ⟨c, _, by rw [tail, first]; rfl, blank' c (first ▸ List.mem_cons_self)⟩
  · exact ⟨f.name.space, w, _, tail, blank', word w (letter ▸ List.mem_cons_self)⟩
  · exact spaced_text spaced _ false

theorem spaced_template (core source : Text) (b : Bool) : Spaced b (template core source) := by
  unfold template
  fun_induction pieces source generalizing b with
  | case1 => exact trivial
  | case2 c rest s after found _ ih =>
    obtain ⟨f, rfl, _⟩ := splitSignature_eq_some.mp found
    exact spaced_form f ih core b
  | case3 c rest _ ih => exact ih _

end

/-! ### Tokens -/

/-- A text, and what becomes of it when some occurrences of the core class are replaced. -/
def Renames (core api text text' : Text) : Prop :=
  ∃ t : Template, text = t.fill core ∧ text' = t.fill api

/-- A token, and what becomes of it: the core class may be replaced, and so may its occurrences within
a literal. -/
structure Renamed (core api : Text) (t t' : Token) : Prop where
  kind : t.kind = t'.kind
  line : t.position.line = t'.position.line
  text : t.text = t'.text ∨ (t.kind = .identifier ∧ t.text = core ∧ t'.text = api) ∨
    ((t.kind = .string ∨ t.kind = .character) ∧ Renames core api t.text t'.text)

variable {core api : Text}

theorem Renamed.alike (free : core ∉ reservedWords ∧ api ∉ reservedWords) {t t' : Token}
    (renamed : Renamed core api t t') : Alike t t' := by
  obtain ⟨kind, _, text⟩ := renamed
  refine ⟨kind, fun symbol => ?_, fun identifier => ?_⟩
  · rcases text with same | ⟨other, _⟩ | ⟨other | other, _⟩
    · exact same
    · cases symbol.symm.trans other
    · cases symbol.symm.trans other
    · cases symbol.symm.trans other
  · rcases text with same | ⟨_, core, api⟩ | ⟨other | other, _⟩
    · exact .inl same
    · exact .inr ⟨core ▸ free.1, api ▸ free.2⟩
    · cases identifier.symm.trans other
    · cases identifier.symm.trans other

theorem line_behind_fill {name : Text} (isName : IsName name) (t : Template) :
    (Position.behind (t.fill name)).line = 1 + t.count (some '\n') := by
  have break_ : name.count '\n' = 0 := List.count_eq_zero.mpr (isName.not_mem (by decide))
  have count : (t.fill name).count '\n' = t.count (some '\n') := by
    induction t with
    | nil => rfl
    | cons c t ih =>
      cases c with
      | none => simp [break_, ih]
      | some c => simp [List.count_cons, ih]
  rw [Position.behind, count]

theorem Slot.Fits.renamed {whole : Template} {s : Slot} (fits : s.Fits whole) (isCore : IsName core)
    (isApi : IsName api) : Renamed core api (s.token core) (s.token api) where
  kind := rfl
  line := (line_behind_fill isCore s.before).trans (line_behind_fill isApi s.before).symm
  text := by
    by_cases isOpen : none ∈ s.text
    · rcases fits.open_ isOpen with ⟨identifier, hole⟩ | wide
      · exact .inr (.inl ⟨identifier, by simp [Slot.token, hole], by simp [Slot.token, hole]⟩)
      · refine .inr (.inr ⟨?_, s.text, rfl, rfl⟩)
        simpa [wideKinds, Slot.token] using wide.1
    · exact .inl (Template.fill_congr isOpen core api)

theorem Slot.StartsWord.isMark_eq {s : Slot} (starts : s.StartsWord) (name : Text) :
    (s.token name).isMark = false := by
  obtain ⟨w, more, text, letter⟩ := starts
  have marks : Text.isWordChar '(' = false ∧ Text.isWordChar '@' = false := by decide
  have apart (c : Char) (other : Text.isWordChar c = false) : (s.token name).text ≠ [c] := by
    rw [Slot.token, text, Template.fill_some]
    intro same
    rw [(List.cons.inj same).1] at letter
    cases letter.symm.trans other
  have open_ : (s.token name).isSymbol "(" = false := by simp [Token.isSymbol, apart _ marks.1]
  have at_ : (s.token name).isSymbol "@" = false := by simp [Token.isSymbol, apart _ marks.2]
  rw [Token.isMark, open_, at_]
  rfl

/-- The slots of a template, filled with two names, lie side by side. -/
theorem SlotsOf.abreast {R : Token → Token → Prop} {whole : Template} {slots : List Slot}
    (slotsOf : SlotsOf whole slots)
    (pairs : ∀ s ∈ slots, s.Fits whole → R (s.token core) (s.token api)) :
    Abreast R (slots.map (·.token core)) (slots.map (·.token api)) := by
  obtain ⟨fits, words⟩ := slotsOf
  induction slots with
  | nil => exact .nil
  | cons s rest ih =>
    obtain ⟨first, fits⟩ := List.forall_mem_cons.mp fits
    obtain ⟨pair, pairs⟩ := List.forall_mem_cons.mp pairs
    obtain ⟨next, words⟩ := List.isChain_cons.mp words
    refine .cons (pair first) (fun identifier mark => ?_) (ih pairs fits words)
    by_cases isOpen : none ∈ s.text
    · -- A letter comes after an open place, so no mark does.
      exfalso
      have hole : s.text = [none] := by
        rcases first.open_ isOpen with ⟨_, hole⟩ | wide
        · exact hole
        · have kind : s.kind = .identifier := of_decide_eq_true identifier
          simp [kind, wideKinds] at wide
      cases rest with
      | nil => simp at mark
      | cons n rest =>
        have letter := (next n rfl hole).isMark_eq core
        rw [List.map_cons, List.head?_cons, Option.any_some] at mark
        cases letter.symm.trans mark
    · exact Template.fill_congr isOpen core api

/-! ### Outlines -/

/-- A name that stays, or the core class that is replaced. -/
def Replaced (core api name name' : Text) : Prop := name = name' ∨ name = core ∧ name' = api

/-- The role of a type stays if the contract names neither the core class nor what replaces it. -/
theorem role_replaced (contract : FixerContract) (kind : TypeKind)
    (core_ : core ∉ contract.interfaces ++ contract.bases)
    (api_ : api ∉ contract.interfaces ++ contract.bases) {bases bases' interfaces interfaces' : List Text}
    (sameBases : List.Forall₂ (Replaced core api) bases bases')
    (sameInterfaces : List.Forall₂ (Replaced core api) interfaces interfaces') :
    contract.role kind bases interfaces = contract.role kind bases' interfaces' := by
  have any {names : List Text} (core_ : core ∉ names) (api_ : api ∉ names) {l l' : List Text}
      (replaced : List.Forall₂ (Replaced core api) l l') : l.any names.contains = l'.any names.contains := by
    induction replaced with
    | nil => rfl
    | cons first _ ih =>
      rw [List.any_cons, List.any_cons, ih]
      rcases first with rfl | ⟨rfl, rfl⟩
      · rfl
      · simp [core_, api_]
  simp only [List.mem_append, not_or] at core_ api_
  simp only [FixerContract.role, any core_.1 api_.1 sameInterfaces, any core_.2 api_.2 sameBases]

/-- Only the return type of a method is renamed. -/
structure MethodRenamed (core api : Text) (m m' : Method) : Prop where
  name : m.name = m'.name
  arity : m.arity = m'.arity
  line : m.line = m'.line
  returnType : Spelled (Renamed core api) m.returnType m'.returnType
  returns : m.returns = m'.returns
  modifiers : m.modifiers = m'.modifiers
  hasBody : m.hasBody = m'.hasBody
  generic : m.generic = m'.generic

/-- Names in a type declaration are renamed. Its role changes only if the contract knows one of them. -/
structure TypeRenamed (contract : FixerContract) (core api : Text) (d d' : TypeDeclaration) :
    Prop where
  name : Named (Renamed core api) d.name d'.name ∧
    (d.kind ≠ .annotationType → Replaced core api d.name d'.name)
  kind : d.kind = d'.kind
  line : d.line = d'.line
  bases : List.Forall₂ (Replaced core api) d.bases d'.bases
  interfaces : List.Forall₂ (Replaced core api) d.interfaces d'.interfaces
  methods : List.Forall₂ (MethodRenamed core api) d.methods d'.methods
  role : d.role = contract.role d.kind d.bases d.interfaces ∧
    d'.role = contract.role d'.kind d'.bases d'.interfaces
  sameRole : core ∉ contract.interfaces ++ contract.bases →
    api ∉ contract.interfaces ++ contract.bases → d.role = d'.role

theorem replaced_of_named {name name' : Text}
    (named : Named (Words (Renamed core api)) name name') : Replaced core api name name' := by
  obtain ⟨t, t', ⟨renamed, identifier⟩, rfl, rfl⟩ := named
  have kind : t.kind = .identifier := of_decide_eq_true identifier
  rcases renamed.text with same | ⟨_, replaced⟩ | ⟨other | other, _⟩
  · exact .inl same
  · exact .inr replaced
  · cases kind.symm.trans other
  · cases kind.symm.trans other

theorem line_of_lined {line line' : Nat} (lined : Lined (Renamed core api) line line') :
    line = line' := by
  obtain ⟨t, t', renamed, rfl, rfl⟩ := lined
  exact renamed.line

theorem MethodAlike.renamed {c : Course} (pair : c.pair = Renamed core api) {m m' : Method}
    (alike : MethodAlike c m m') : MethodRenamed core api m m' where
  name := alike.name
  arity := alike.arity
  line := line_of_lined (pair ▸ alike.line)
  returnType := pair ▸ alike.returnType
  returns := by
    have returns := alike.returns
    generalize m.returns = returns₁ at returns
    generalize m'.returns = returns₂ at returns
    induction returns with
    | nil => rfl
    | @cons r r' _ _ first _ ih =>
      have line := line_of_lined (pair ▸ first.line)
      obtain ⟨l, n⟩ := r
      obtain ⟨l', n'⟩ := r'
      cases line
      cases first.isNull
      rw [ih]
  modifiers := alike.modifiers
  hasBody := alike.hasBody
  generic := alike.generic

theorem TypeAlike.renamed {c : Course} (pair : c.pair = Renamed core api) {d d' : TypeDeclaration}
    (alike : TypeAlike c d d') : TypeRenamed c.contract core api d d' where
  name := by
    obtain ⟨named, word⟩ := alike.name
    rw [pair] at named word
    exact ⟨named, fun other => replaced_of_named (word other)⟩
  kind := alike.kind
  line := line_of_lined (pair ▸ alike.line)
  bases := alike.bases.imp fun _ _ named => replaced_of_named (pair ▸ named)
  interfaces := alike.interfaces.imp fun _ _ named => replaced_of_named (pair ▸ named)
  methods := alike.methods.imp fun _ _ method => method.renamed pair
  role := ⟨alike.role, alike.role'⟩
  sameRole := fun core_ api_ => by
    rw [alike.role, alike.role', alike.kind]
    refine role_replaced c.contract _ core_ api_ ?_ ?_
    · exact alike.bases.imp fun _ _ named => replaced_of_named (pair ▸ named)
    · exact alike.interfaces.imp fun _ _ named => replaced_of_named (pair ▸ named)

/-- A template that is filled with two names is outlined in lockstep. -/
theorem outline_fill (isCore : IsName core) (isApi : IsName api) {t : Template}
    (spaced : t.Spaced true) {c : Course} (fresh : c.imports = [] ∧ c.imports' = [])
    (pairs : ∀ s : Slot, s.Fits t → c.pair (s.token core) (s.token api))
    (lines : ∀ t t', c.pair t t' → t.position.line = t'.position.line)
    (read : ∀ tokens stop, tokenize (t.fill core) = .ok ⟨tokens, stop⟩ →
      ∀ next rest, Reaches c.contract {} tokens next rest → c.read next.header) :
    Outcomes (fun e e' => e.position.line = e'.position.line) (OutlineAlike c)
      (outline c.contract (t.fill core)) (outline c.contract (t.fill api)) := by
  obtain ⟨result, slotsOf, reads⟩ := tokenizeFrom_fill [] t spaced
  have tokens (name : Text) (isName : IsName name) :
      tokenize (t.fill name) = tokenizedAs t name result := reads name isName
  rw [outline, outline, tokens api isApi]
  cases result with
  | error e =>
    rw [tokens core isCore]
    exact .error ((line_behind_fill isCore e.2).trans (line_behind_fill isApi e.2).symm)
  | ok slots =>
    have abreast := (slotsOf slots rfl).1.abreast fun s _ => pairs s
    have both := readOutline_lockstep (.start abreast fresh) (read _ _ (tokens core isCore))
      (.behind (t.fill core)) (.behind (t.fill api))
    rw [tokens core isCore]
    simp only [tokenizedAs, Except.bind]
    generalize readOutline c.contract (.behind (t.fill core)) _ _ = x at both
    generalize readOutline c.contract (.behind (t.fill api)) _ _ = x' at both
    cases both with
    | ok outlines => exact .ok outlines
    | error errors =>
      rcases errors with ⟨_, u, u', pair, place, place'⟩ | ⟨rfl, rfl⟩
      · exact .error (by rw [place, place', lines u u' pair])
      · exact .error ((line_behind_fill isCore t).trans (line_behind_fill isApi t).symm)

end Layering.Java
