import Layering.Inspection.Rules
import Layering.Proofs.Renamings

/-!
# Flagged methods

A method is flagged by what its tokens say, and rewritten by what its text looks like. Where it is
written as a signature, with no parenthesis left open before it, the signature is found
(`pieces_of_closed`), and the method returns the type of the contract after rewriting
(`flagged_rewritten`). With a clause between its parameters and its body it is flagged and stays as it is
(`throws_not_rewritten`).
-/

namespace Layering.Java

/-! ### Places -/

theorem Position.next_lt (p : Position) (c : Char) :
    p.line < (p.next c).line ∨ p.line = (p.next c).line ∧ p.column < (p.next c).column := by
  unfold next
  by_cases break_ : c = '\n'
  · simp [break_]
  · simp [break_]

theorem Position.after_lt (p : Position) {text : Text} (some : text ≠ []) :
    p.line < (p.after text).line ∨ p.line = (p.after text).line ∧ p.column < (p.after text).column := by
  induction text generalizing p with
  | nil => exact absurd rfl some
  | cons c text ih =>
    have first := p.next_lt c
    rw [after_cons]
    by_cases none : text = []
    · rw [none]
      exact first
    · have later := ih (p.next c) none
      omega

/-- Two parts that start a text end at different places, unless they are the same. -/
theorem Position.behind_injective {front front' back back' : Text}
    (whole : front ++ back = front' ++ back') (same : behind front = behind front') :
    front = front' := by
  have apart {front more : Text} (same : behind front = behind (front ++ more)) : more = [] := by
    by_contra some
    have less := (behind front).after_lt some
    rw [after_behind, ← same] at less
    omega
  rcases List.append_eq_append_iff.mp whole with ⟨more, rfl, _⟩ | ⟨more, rfl, _⟩
  · rw [apart same, List.append_nil]
  · rw [apart same.symm, List.append_nil]

theorem Template.fill_injective {name : Text} (isName : IsName name) {x y whole : Template}
    (start : x <+: whole) (start' : y <+: whole) (same : x.fill name = y.fill name) : x = y := by
  have none {t : Template} (empty : t.fill name = []) : t = [] := by
    obtain ⟨c, tail, rfl, _⟩ := isName
    cases t with
    | nil => rfl
    | cons d t => cases d <;> simp at empty
  have apart {x y : Template} (start : x <+: y) (same : x.fill name = y.fill name) : x = y := by
    obtain ⟨more, rfl⟩ := start
    rw [fill_append, List.self_eq_append_right] at same
    rw [none same, List.append_nil]
  rcases List.prefix_or_prefix_of_prefix start start' with before | before
  · exact apart before same
  · exact (apart before same.symm).symm

/-! ### Signatures that are found -/

/-- Every opening parenthesis has a closing one somewhere after it. -/
def Closed (before : Text) : Prop := ∀ early late, before = early ++ '(' :: late → ')' ∈ late

theorem Closed.of_append {before more : Text} (closed : Closed (before ++ more)) : Closed more := by
  intro early late split
  exact closed (before ++ early) late (by rw [split, List.append_assoc])

/-- No other signature starts before one and reaches into it, if no parenthesis is left open. -/
theorem splitSignature_before {g f : Form} {before rest after : Text} (some : before ≠ [])
    (closed : Closed before)
    (whole : before ++ (f.signature.spelling ++ after) = g.signature.spelling ++ rest) :
    ∃ more, before = g.signature.spelling ++ more ∧ rest = more ++ (f.signature.spelling ++ after) := by
  rcases g.overlap_cases f some whole with beyond | ⟨inner, _, rfl, parameters, _⟩
  · exact beyond
  · -- The first signature would end within its own parameters.
    exfalso
    apply g.single
    rw [parameters]
    exact List.mem_append_left _ (closed _ _ rfl)

/-- A signature with no parenthesis left open before it is found. -/
theorem pieces_of_closed (f : Form) {before : Text} (closed : Closed before) (after : Text) :
    ∃ early : List Piece, early.flatMap (·.spelling) = before ∧
      pieces (before ++ (f.signature.spelling ++ after)) =
        early ++ .signature f.signature :: pieces after := by
  -- On the length of the text in front: one piece is cut off, a character or a whole signature,
  -- and what remains is shorter.
  induction size : before.length using Nat.strong_induction_on generalizing before with
  | _ n ih =>
  cases before with
  | nil => exact ⟨[], rfl, pieces_of_form f after⟩
  | cons c before =>
    cases found : splitSignature (c :: before ++ (f.signature.spelling ++ after)) with
    | none =>
      have shorter : before.length < n := by simp [← size]
      have later : Closed ([c] ++ before) := closed
      obtain ⟨early, spelled, cut⟩ := ih _ shorter later.of_append rfl
      have found : splitSignature (c :: (before ++ (f.signature.spelling ++ after))) = none := found
      refine ⟨.char c :: early, by rw [List.flatMap_cons, spelled]; rfl, ?_⟩
      rw [List.cons_append, pieces_of_none found, cut, List.cons_append]
    | some parts =>
      obtain ⟨s, rest⟩ := parts
      obtain ⟨g, rfl, whole⟩ := splitSignature_eq_some.mp found
      obtain ⟨more, split, rfl⟩ := splitSignature_before (by simp) closed whole.symm
      have shorter : more.length < n := by
        have inhabited := List.length_pos_iff.mpr (splitSignature_append found).2
        rw [← size, split, List.length_append]
        omega
      rw [split] at closed
      obtain ⟨early, spelled, cut⟩ := ih _ shorter closed.of_append rfl
      refine ⟨.signature g.signature :: early, by rw [List.flatMap_cons, spelled, split]; rfl, ?_⟩
      rw [← whole, pieces_of_form, cut, List.cons_append]

theorem template_of_closed (f : Form) {before : Text} (closed : Closed before) (after : Text) :
    ∃ x y : Template, x.fill f.signature.returnType = before ++ f.signature.start ∧
      template f.signature.returnType (before ++ (f.signature.spelling ++ after)) =
        x ++ none :: y := by
  obtain ⟨early, spelled, cut⟩ := pieces_of_closed f closed after
  refine ⟨early.flatMap (·.template f.signature.returnType) ++ f.signature.start.map some,
    f.signature.tail.map some ++ template f.signature.returnType after, ?_, ?_⟩
  · rw [Template.fill_append, Template.fill_map_some, fill_flatMap]
    congr 1
    rw [← spelled]
    exact List.flatMap_congr fun piece _ => piece.fill_template _
  · rw [template, cut]
    simp [template, Piece.template]

/-! ### Return types -/

/-- The token before the name in a member header. -/
def returnToken? (header : List Token) : Option Token := do
  let (before, _) ← splitParameters 0 header
  before.dropLast.getLast?

/-- A member header is written as a signature of a source: the signature with the type `type` stands
where the last token of the return type does, and no parenthesis is left open before it. -/
def WrittenIn (source type : Text) (header : List Token) : Prop :=
  ∃ (t : Token) (before after : Text) (f : Form), returnToken? header = some t ∧
    source = before ++ (f.signature.spelling ++ after) ∧ f.signature.returnType = type ∧
    t.position = .behind (before ++ f.signature.start) ∧ Closed before

/-- The header of a member that a reading of the source comes to. -/
def Reads (contract : FixerContract) (source : Text) (header : List Token) : Prop :=
  ∃ tokens stop r rest, tokenize source = .ok ⟨tokens, stop⟩ ∧
    Reaches contract {} tokens r rest ∧ r.header = header

/-- Tokens at one slot of the template of a source. -/
def Slots (mapping : TypeMapping) (source : Text) (t t' : Token) : Prop :=
  ∃ s : Slot, s.Fits (template mapping.coreName source) ∧ t = s.token mapping.coreName ∧
    t' = s.token mapping.apiName

variable {mapping : TypeMapping} {source : Text}

theorem Slots.renamed (core : IsName mapping.coreName) (api : IsName mapping.apiName) {t t' : Token}
    (slots : Slots mapping source t t') : Renamed mapping.coreName mapping.apiName t t' := by
  obtain ⟨s, fits, rfl, rfl⟩ := slots
  exact fits.renamed core api

/-- The token at the return type of a signature is replaced. -/
theorem Slots.replaced (core : IsName mapping.coreName) {t t' : Token}
    (slots : Slots mapping source t t') {before after : Text} {f : Form} (closed : Closed before)
    (whole : source = before ++ (f.signature.spelling ++ after))
    (type : f.signature.returnType = mapping.coreName)
    (place : t.position = .behind (before ++ f.signature.start)) :
    t.kind = .identifier ∧ t.text = mapping.coreName ∧ t'.text = mapping.apiName := by
  obtain ⟨s, fits, rfl, rfl⟩ := slots
  obtain ⟨x, y, spelled, cut⟩ := template_of_closed f closed after
  rw [type] at spelled cut
  rw [← whole] at cut
  have start : s.before <+: template mapping.coreName source :=
    (List.prefix_append ..).trans fits.place
  have start' : x <+: template mapping.coreName source := cut ▸ List.prefix_append ..
  -- Both stand at the same place of the source, hence at the same place of its template.
  have same : s.before = x := by
    apply Template.fill_injective core start start'
    rw [spelled]
    obtain ⟨more, split⟩ := start
    have back : s.before.fill mapping.coreName ++ Template.fill mapping.coreName more =
        (before ++ f.signature.start) ++ (f.signature.returnType ++ f.signature.tail ++ after) := by
      rw [← Template.fill_append, split, fill_template, whole]
      simp [Signature.spelling]
    exact Position.behind_injective back place
  have first : s.text.head? = some none := by
    have place := fits.place
    rw [same, cut, List.prefix_append_right_inj] at place
    obtain ⟨c, more, split⟩ := List.exists_cons_of_ne_nil fits.inhabited
    rw [split, List.cons_prefix_cons] at place
    rw [split, place.1]
    rfl
  rcases fits.open_ (List.mem_of_head? first) with ⟨kind, hole⟩ | ⟨_, other⟩
  · exact ⟨kind, by simp [Slot.token, hole], by simp [Slot.token, hole]⟩
  · exact absurd first other

theorem splitParameters_of_methodHeader? {header : List Token} {m : Method}
    (found : methodHeader? header = some m) : ∃ before parameters,
      splitParameters 0 header = some (before, parameters) ∧
      m.returnType = spelling (typeBackwards 0 before.dropLast.reverse).reverse := by
  simp only [methodHeader?, Option.bind_eq_bind, Option.bind_eq_some_iff] at found
  obtain ⟨⟨before, parameters⟩, split, name, _, found⟩ := found
  split at found
  · cases found
  · cases found
    exact ⟨before, parameters, split, rfl⟩

theorem typeBackwards_point {p : Token} (point : p.isSymbol "." = true) (before : List Token) :
    ∃ more, typeBackwards 0 (p :: before) = p :: more := by
  have dot : p.kind = .symbol ∧ p.text = ['.'] := by simpa [Token.isSymbol] using point
  have other : p.isModifier = false := by simp [Token.isModifier, Token.isOneOf, dot.1]
  have unnamed : p.isIdentifier = false := by simp [Token.isIdentifier, dot.1]
  rw [typeBackwards]
  simp only [other, unnamed, Bool.and_false, Bool.false_and, Bool.false_eq_true, if_false]
  exact ⟨_, rfl⟩

/-- A return type that is a plain name is one token. -/
theorem typeBackwards_of_name {t : Token} {before : List Token} (word : t.isIdentifier = true)
    (plain : t.isModifier = false) (simple : '.' ∉ spelling (typeBackwards 0 (t :: before)).reverse) :
    typeBackwards 0 (t :: before) = [t] := by
  have kind : t.kind = .identifier := of_decide_eq_true word
  have symbol (text : Text) : t.isSymbol text = false := by simp [Token.isSymbol, kind]
  have read : typeBackwards 0 (t :: before) =
      if before.head?.any (·.isSymbol ".") then t :: typeBackwards 0 before else [t] := by
    rw [typeBackwards]
    simp only [plain, symbol, word, Bool.and_false, Bool.false_eq_true, if_false]
    cases before.head?.any (·.isSymbol ".") <;> simp
  by_cases qualified : before.head?.any (·.isSymbol ".") = true
  · -- The point before the name would be a part of the return type.
    exfalso
    apply simple
    rw [read, if_pos qualified]
    cases before with
    | nil => simp at qualified
    | cons p before =>
      obtain ⟨more, same⟩ := typeBackwards_point qualified before
      have dot : p.kind = .symbol ∧ p.text = ['.'] := by simpa [Token.isSymbol] using qualified
      rw [same, spelling, List.mem_flatMap]
      exact ⟨p, by simp, by simp [dot.2]⟩
  · rw [read, if_neg qualified]

/-- A method that is written as a signature returns the type of the contract after rewriting. -/
theorem MethodAlike.returnType_eq {c : Course} (pair : c.pair = Slots mapping source)
    (core : IsName mapping.coreName) (free : mapping.coreName ∉ reservedWords) {m m' : Method}
    (alike : MethodAlike c m m') (bare : m.returnType = mapping.coreName)
    (written : ∀ header, c.read header → methodHeader? header = some m.declared →
      WrittenIn source mapping.coreName header) : m'.returnType = mapping.apiName := by
  obtain ⟨header, header', read, abreast, declares, declares'⟩ := alike.read
  obtain ⟨t, front, after, f, last, whole, type, place, closed⟩ := written header read declares
  obtain ⟨before, parameters, split, spelled⟩ := splitParameters_of_methodHeader? declares
  obtain ⟨before', parameters', split', spelled'⟩ := splitParameters_of_methodHeader? declares'
  have both := splitParameters_lockstep c.alike 0 abreast
  rw [split, split'] at both
  cases both with
  | some both =>
  have starts := List.rel_reverse (dropLast_forall₂ both.1)
  have types := typeBackwards_lockstep c.alike 0 starts
  -- The return type ends with the token that is replaced, and is no more than that.
  have ends : before.dropLast.getLast? = some t := by simpa [returnToken?, split] using last
  obtain ⟨earlier, start⟩ := List.getLast?_eq_some_iff.mp ends
  rw [start, List.reverse_append, List.reverse_singleton, List.singleton_append] at starts types
  have replaced {u : Token} (both : c.pair t u) : t.kind = .identifier ∧
      t.text = mapping.coreName ∧ u.text = mapping.apiName :=
    Slots.replaced core (pair ▸ both) closed whole type place
  have simple : '.' ∉ spelling (typeBackwards 0 (t :: earlier.reverse)).reverse := by
    have text : m.declared.returnType = mapping.coreName := bare
    rw [start, List.reverse_append, List.reverse_singleton, List.singleton_append, text] at spelled
    rw [← spelled]
    exact core.not_mem (by decide)
  obtain ⟨u, _, pair', _, _⟩ := List.forall₂_cons_left_iff.mp starts
  obtain ⟨kind, text, _⟩ := replaced pair'
  have word : t.isIdentifier = true := decide_eq_true kind
  have plain : t.isModifier = false := by
    have absent : mapping.coreName ∉ modifierWords := fun member =>
      free (by simp [reservedWords, member])
    simp [Token.isModifier, Token.isOneOf, text, absent]
  rw [typeBackwards_of_name word plain simple] at types
  obtain ⟨u, _, pair', none, same⟩ := List.forall₂_cons_left_iff.mp types
  obtain rfl := List.forall₂_nil_left_iff.mp none
  have result : m'.returnType = u.text := by
    change m'.declared.returnType = u.text
    rw [spelled', same]
    simp [spelling]
  rw [result]
  exact (replaced pair').2.2

/-- Every method of a source stays in its place, and one that is flagged for the core class returns the
type of the contract after rewriting, if it is written as a signature. -/
theorem flagged_rewritten (contract : FixerContract) (listed : List Text)
    (core : IsName mapping.coreName) (api : IsName mapping.apiName)
    (free : mapping.coreName ∉ reservedWords ∧ mapping.apiName ∉ reservedWords) {o : Outline}
    (indexed : outline contract source = .ok o) :
    ∃ o', outline contract (rewriteSignatures mapping source) = .ok o' ∧
      List.Forall₂ (fun d d' => d.line = d'.line ∧ List.Forall₂ (fun m m' =>
        m.name = m'.name ∧ m.line = m'.line ∧ (Detector.returnsCoreType listed m = true →
          m.returnTypeName = mapping.coreName → (∀ header, Reads contract source header →
            methodHeader? header = some m.declared → WrittenIn source mapping.coreName header) →
          m'.returnType = mapping.apiName)) d.methods d'.methods) o.types o'.types := by
  let c : Course := {
    contract
    pair := Slots mapping source
    alike := fun _ _ slots => (slots.renamed core api).alike free
    read := Reads contract source }
  have lines (t t' : Token) (slots : Slots mapping source t t') :
      t.position.line = t'.position.line := (slots.renamed core api).line
  -- The two sources are one template filled with the two names, so they are read in step.
  have both := outline_fill core api (spaced_template mapping.coreName source true) (c := c)
    ⟨rfl, rfl⟩ (fun s fits => ⟨s, fits, rfl, rfl⟩) lines
    (fun tokens stop tokenized next rest reaches =>
      ⟨tokens, stop, next, rest, fill_template mapping.coreName source ▸ tokenized, reaches, rfl⟩)
  rw [fill_template, fill_template_api] at both
  rw [indexed] at both
  generalize outline contract (rewriteSignatures mapping source) = x' at both ⊢
  cases both with
  | @ok _ o' outlines =>
  refine ⟨o', rfl, outlines.types.imp fun d d' type => ⟨?_, type.methods.imp fun m m' method => ?_⟩⟩
  · obtain ⟨t, t', slots, line, line'⟩ := type.line
    rw [line, line', lines t t' slots]
  · obtain ⟨t, t', slots, line, line'⟩ := method.line
    refine ⟨method.name, by rw [line, line', lines t t' slots], fun flagged type written => ?_⟩
    have rewritable := (Bool.and_eq_true_iff.mp flagged).2
    -- A flagged method returns the bare name of its type, without arguments or a package.
    have bare : m.returnType = m.returnTypeName :=
      of_decide_eq_true (Bool.and_eq_true_iff.mp rewritable).2
    exact method.returnType_eq rfl core free.1 (bare.trans type) written

theorem flagged_rewritten_getter :
    Detector.returnsCoreType ["D".toList]
        { name := "g", arity := 0, line := 1, returnType := "D", modifiers := ["public".toList] } = true ∧
      ∃ o', outline {} (rewriteSignatures ⟨"a.D", "b.A", false⟩ "class F \x7bpublic D g()\x7b\x7d\x7d") =
          .ok o' ∧ o'.types.map (·.methods.map (·.returnType)) = [["A".toList]] := by
  let source : Text := "class F \x7bpublic D g()\x7b\x7d\x7d"
  let mapping : TypeMapping := ⟨"a.D", "b.A", false⟩
  let getter : Method :=
    { name := "g", arity := 0, line := 1, returnType := "D", modifiers := ["public".toList] }
  let o : Outline :=
    { types := [{ name := "F", kind := .«class», line := 1, methods := [getter] }] }
  have blank : Text.isBlank ' ' = true := by decide
  have parted {c : Char} (word : Text.isWordChar c = true) : SpacedWord.Parted ⟨[' '], [c]⟩ :=
    ⟨by simp [blank], by simp [word]⟩
  let f : Form := {
    visibility := "public"
    modifiers := []
    type := ⟨[' '], ['D']⟩
    name := ⟨[' '], ['g']⟩
    gap := []
    parameters := []
    gap' := []
    isVisibility := .inl rfl
    listed := by simp
    parted := List.forall_mem_cons.mpr ⟨parted (by decide),
      List.forall_mem_cons.mpr ⟨parted (by decide), by simp⟩⟩
    blank := by simp
    blank' := by simp
    single := by simp }
  have core : IsName mapping.coreName := ⟨'D', [], rfl, by decide, by simp⟩
  have api : IsName mapping.apiName := ⟨'A', [], rfl, by decide, by simp⟩
  have free : mapping.coreName ∉ reservedWords ∧ mapping.apiName ∉ reservedWords := by decide
  have indexed : outline {} source = .ok o := by decide +kernel
  have flagged : Detector.returnsCoreType ["D".toList] getter = true := by decide
  have last : ∀ t ∈ (tokenize source).toOption, ∀ header ∈ headers {} 11 {} t.tokens,
      methodHeader? header = some getter.declared →
      returnToken? header = some ⟨.identifier, "D", ⟨1, 17⟩⟩ := by decide +kernel
  have written (header : List Token) (reads : Reads {} source header)
      (declares : methodHeader? header = some getter.declared) :
      WrittenIn source mapping.coreName header := by
    obtain ⟨tokens, stop, r, rest, tokenized, reaches, rfl⟩ := reads
    have short : ∀ t ∈ (tokenize source).toOption, t.tokens.length ≤ 11 := by decide +kernel
    rw [tokenized] at last short
    refine ⟨_, "class F \x7b", "\x7d\x7d", f, last _ rfl _ (reaches.header_mem (short _ rfl)) declares, ?_⟩
    refine ⟨rfl, rfl, rfl, fun early late split => ?_⟩
    have none : '(' ∉ ("class F \x7b" : Text) := by decide
    rw [split] at none
    exact absurd (List.mem_append_right early List.mem_cons_self) none
  obtain ⟨o', renamed, types⟩ := flagged_rewritten {} ["D".toList] core api free indexed
  refine ⟨flagged, o', renamed, ?_⟩
  obtain ⟨d, _, ⟨_, methods⟩, none, types⟩ := List.forall₂_cons_left_iff.mp types
  obtain ⟨m, _, ⟨_, _, returns⟩, none', methods⟩ := List.forall₂_cons_left_iff.mp methods
  obtain rfl := List.forall₂_nil_left_iff.mp none
  obtain rfl := List.forall₂_nil_left_iff.mp none'
  rw [types, List.map_singleton, methods, List.map_singleton, returns flagged (by decide) written]
  rfl

/-- A method with a throws clause is flagged, and rewriting leaves it as it is. -/
theorem throws_not_rewritten :
    (outline {} "class F \x7bpublic D g() throws E \x7b\x7d\x7d".toList).toOption.map
        (·.types.map (·.methods.map (Detector.returnsCoreType ["D".toList]))) = some [[true]] ∧
      rewriteSignatures ⟨"a.D", "b.A", false⟩ "class F \x7bpublic D g() throws E \x7b\x7d\x7d" =
        "class F \x7bpublic D g() throws E \x7b\x7d\x7d".toList :=
  ⟨by decide +kernel, by decide +kernel⟩

end Layering.Java
