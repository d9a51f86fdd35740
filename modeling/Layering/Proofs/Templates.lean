import Layering.Proofs.Tiling

/-!
# Templates

A template is a text with places that are left open for a name. If these stand apart as words, the
tokens of the filled template stand at the same places of the template for every name, and so does the
first construct that is not closed (`tokenizeFrom_fill`).
-/

namespace Layering.Java

/-- A name as the lexer reads it. -/
def IsName (name : Text) : Prop :=
  ∃ c tail, name = c :: tail ∧ isNameStart c = true ∧ ∀ d ∈ tail, isNamePart d = true

theorem isNamePart_of_isNameStart {c : Char} (start : isNameStart c = true) :
    isNamePart c = true := by
  simp only [isNameStart, isNamePart, Bool.or_eq_true] at start ⊢
  rcases start with (letter | line) | dollar
  · exact .inl (.inl (Text.isAlphanumeric_of_isLetter letter))
  · exact .inl (.inr line)
  · exact .inr dollar

theorem IsName.part {name : Text} (isName : IsName name) : ∀ c ∈ name, isNamePart c = true := by
  obtain ⟨c, tail, rfl, start, parts⟩ := isName
  exact List.forall_mem_cons.mpr ⟨isNamePart_of_isNameStart start, parts⟩

theorem IsName.not_mem {name : Text} (isName : IsName name) {c : Char}
    (other : isNamePart c = false) : c ∉ name := fun member => by
  cases (isName.part c member).symm.trans other

theorem isNamePart_of_isBlank {c : Char} (blank : Text.isBlank c = true) : isNamePart c = false := by
  have word := Text.isWordChar_of_isBlank blank
  simp only [Text.isWordChar, Bool.or_eq_false_iff] at word
  have dollar : c ≠ '$' := by
    rintro rfl
    exact absurd blank (by decide)
  simp only [isNamePart, word.1, word.2, dollar, decide_false, Bool.or_false]

theorem isBlank_of_isNamePart {c : Char} (part : isNamePart c = true) : Text.isBlank c = false := by
  rw [Bool.eq_false_iff]
  intro blank
  cases part.symm.trans (isNamePart_of_isBlank blank)

/-- A text with places that are left open. -/
abbrev Template := List (Option Char)

namespace Template

/-- The text with a name in each open place. -/
def fill (name : Text) (t : Template) : Text := t.flatMap fun
  | some c => [c]
  | none => name

variable {name : Text}

@[simp] theorem fill_nil : fill name [] = [] := rfl

@[simp] theorem fill_some (c : Char) (t : Template) :
    fill name (some c :: t) = c :: fill name t := rfl

@[simp] theorem fill_none (t : Template) : fill name (none :: t) = name ++ fill name t := rfl

@[simp] theorem fill_append (t u : Template) : fill name (t ++ u) = fill name t ++ fill name u :=
  List.flatMap_append

@[simp] theorem fill_map_some (text : Text) : fill name (text.map some) = text := by
  induction text with
  | nil => rfl
  | cons c text ih => rw [List.map_cons, fill_some, ih]

theorem eq_map_some {t : Template} (closed : none ∉ t) : ∃ text : Text, t = text.map some := by
  induction t with
  | nil => exact ⟨[], rfl⟩
  | cons c t ih =>
    rw [List.mem_cons, not_or] at closed
    obtain ⟨text, rfl⟩ := ih closed.2
    obtain ⟨d, rfl⟩ := Option.ne_none_iff_exists'.mp (Ne.symm closed.1)
    exact ⟨d :: text, rfl⟩

theorem fill_congr {t : Template} (closed : none ∉ t) (name name' : Text) :
    fill name t = fill name' t := by
  obtain ⟨text, rfl⟩ := eq_map_some closed
  rw [fill_map_some, fill_map_some]

/-- A text without letters starts a filled template only if it starts the template. -/
theorem prefix_fill (isName : IsName name) {marks : Text}
    (other : ∀ c ∈ marks, isNamePart c = false) (t : Template) :
    marks <+: fill name t ↔ marks.map some <+: t := by
  induction marks generalizing t with
  | nil => simp
  | cons c marks ih =>
    obtain ⟨first, other⟩ := List.forall_mem_cons.mp other
    cases t with
    | nil => simp
    | cons d t =>
      cases d with
      | some d => simp [List.cons_prefix_cons, ih other]
      | none =>
        obtain ⟨e, tail, rfl, start, _⟩ := isName
        have apart : c ≠ e := by
          rintro rfl
          cases (isNamePart_of_isNameStart start).symm.trans first
        simp [List.cons_prefix_cons, apart]

/-- A word is ahead, perhaps behind blanks. -/
def WordAhead (t : Template) : Prop :=
  ∃ (space : Text) (w : Char) (more : Template), t = space.map some ++ some w :: more ∧
    (∀ c ∈ space, Text.isBlank c = true) ∧ Text.isWordChar w = true

theorem WordAhead.of_cons {c : Char} {t : Template} (word : WordAhead (some c :: t)) :
    Text.isWordChar c = true ∨ Text.isBlank c = true ∧ WordAhead t := by
  obtain ⟨space, w, more, same, blank, letter⟩ := word
  cases space with
  | nil =>
    cases same
    exact .inl letter
  | cons d space =>
    obtain ⟨first, rest⟩ := List.forall_mem_cons.mp blank
    cases same
    exact .inr ⟨first, space, w, more, rfl, rest, letter⟩

/-- Every open place is a word, with another word after it. The first character may be a place if
there is a blank before it. -/
def Spaced : Bool → Template → Prop
  | _, [] => True
  | _, some c :: t => Spaced (Text.isBlank c) t
  | afterBlank, none :: t => afterBlank = true ∧
      (∃ c more, t = some c :: more ∧ Text.isBlank c = true) ∧ WordAhead t ∧ Spaced false t

theorem Spaced.of_append {x y : Template} {afterBlank : Bool} (spaced : Spaced afterBlank (x ++ y)) :
    ∃ afterBlank', Spaced afterBlank' y := by
  induction x generalizing afterBlank with
  | nil => exact ⟨_, spaced⟩
  | cons c x ih =>
    cases c with
    | some c => exact ih spaced
    | none => exact ih spaced.2.2.2

theorem Spaced.head? {t : Template} (spaced : Spaced false t) (name : Text) :
    (fill name t).head? = t.head?.join := by
  cases t with
  | nil => rfl
  | cons c t =>
    cases c with
    | some c => rfl
    | none => exact absurd spaced.1 (by decide)

end Template

open Template

/-! ### Literals and comments -/

/-- A scanner cuts all the texts that a template makes at one place of the template. -/
def CutsAlike (scan : Text → Option (Text × Text)) (t : Template) : Prop :=
  ∃ cut : Option (Template × Template), (∀ x y, cut = some (x, y) → x ++ y = t) ∧
    ∀ name, IsName name → scan (t.fill name) = cut.map (Prod.map (fill name) (fill name))

section

variable {scan : Text → Option (Text × Text)}

theorem CutsAlike.never {t : Template} (never : ∀ name, IsName name → scan (t.fill name) = none) :
    CutsAlike scan t :=
  ⟨none, by simp, never⟩

theorem CutsAlike.here {x y : Template}
    (here : ∀ name, IsName name → scan ((x ++ y).fill name) = some (x.fill name, y.fill name)) :
    CutsAlike scan (x ++ y) :=
  ⟨some (x, y), by simp, here⟩

theorem CutsAlike.later (x : Template) {t : Template} (alike : CutsAlike scan t)
    (passes : ∀ name, IsName name → scan ((x ++ t).fill name) =
      (scan (t.fill name)).map fun (text, rest) => (x.fill name ++ text, rest)) :
    CutsAlike scan (x ++ t) := by
  obtain ⟨cut, parts, scans⟩ := alike
  refine ⟨cut.map fun (y, z) => (x ++ y, z), ?_, fun name isName => ?_⟩
  · rintro y z same
    obtain ⟨⟨y, z⟩, found, joined⟩ := Option.map_eq_some_iff.mp same
    cases joined
    rw [List.append_assoc, parts y z found]
  · rw [passes name isName, scans name isName, Option.map_map, Option.map_map]
    congr 1
    ext ⟨y, z⟩
    all_goals simp

theorem scan_name (step : ∀ c t, isNamePart c = true →
      scan (c :: t) = (scan t).map fun (text, rest) => (c :: text, rest))
    {name : Text} (parts : ∀ c ∈ name, isNamePart c = true) (t : Text) :
    scan (name ++ t) = (scan t).map fun (text, rest) => (name ++ text, rest) := by
  induction name with
  | nil => simp
  | cons c name ih =>
    obtain ⟨first, parts⟩ := List.forall_mem_cons.mp parts
    rw [List.cons_append, step c _ first, ih parts, Option.map_map]
    rfl

/-- A scanner for which a backslash shields the character after it. -/
theorem cutsAlike_of_shield (empty : scan [] = none) (lone : scan ['\\'] = none)
    (shield : ∀ c t, scan ('\\' :: c :: t) =
      (scan t).map fun (text, rest) => ('\\' :: c :: text, rest))
    (step : ∀ c t, isNamePart c = true →
      scan (c :: t) = (scan t).map fun (text, rest) => (c :: text, rest))
    (other : ∀ c t, c ≠ '\\' → CutsAlike scan t → CutsAlike scan (some c :: t)) (t : Template) :
    CutsAlike scan t := by
  induction size : t.length using Nat.strong_induction_on generalizing t with
  | _ n ih =>
  cases t with
  | nil => exact .never fun _ _ => empty
  | cons c t =>
  have shorter : t.length < n := by simp [← size]
  cases c with
  | none =>
    refine .later [none] (ih _ shorter t rfl) fun name isName => ?_
    simpa using scan_name step isName.part (fill name t)
  | some c =>
  by_cases backslash : c = '\\'
  swap
  · exact other c t backslash (ih _ shorter t rfl)
  subst backslash
  cases t with
  | nil => exact .never fun _ _ => lone
  | cons d t =>
    have alike := ih _ (by simp at shorter; omega) t rfl
    cases d with
    | some d => exact .later [some '\\', some d] alike fun name _ => shield d _
    | none =>
      -- The backslash shields the first letter of the name.
      refine .later [some '\\', none] alike fun name isName => ?_
      obtain ⟨c, tail, rfl, _, parts⟩ := isName
      change scan ('\\' :: c :: (tail ++ fill (c :: tail) t)) = _
      rw [shield, scan_name step parts, Option.map_map]
      simp [Function.comp_def]

end

theorem closeComment_cutsAlike (t : Template) : CutsAlike closeComment t := by
  have star : isNamePart '*' = false ∧ isNamePart '/' = false := by decide
  have marks : ∀ c ∈ ['*', '/'], isNamePart c = false := by simp [star]
  have step (c : Char) (t : Text) (part : isNamePart c = true) : closeComment (c :: t) =
      (closeComment t).map fun (text, rest) => (c :: text, rest) := by
    refine closeComment_cons fun ⟨_, same⟩ => ?_
    obtain ⟨rfl, _⟩ := List.cons.inj same
    cases star.1.symm.trans part
  induction t with
  | nil => exact .never fun _ _ => rfl
  | cons c t ih =>
    cases c with
    | none =>
      refine .later [none] ih fun name isName => ?_
      simpa using scan_name step isName.part (fill name t)
    | some c =>
      by_cases closes : ['*', '/'].map some <+: some c :: t
      · obtain ⟨rest, same⟩ := closes
        rw [← same]
        exact .here fun name _ => by simp [closeComment]
      · refine .later [some c] ih fun name isName => closeComment_cons fun start => closes ?_
        exact (prefix_fill isName marks (some c :: t)).mp start

theorem closeQuote_cutsAlike {quote : Char} (known : quote = '"' ∨ quote = '\'') (t : Template) :
    CutsAlike (closeQuote quote) t := by
  have marks : isNamePart '\\' = false ∧ isNamePart '\n' = false ∧ isNamePart '"' = false ∧
      isNamePart '\'' = false := by decide
  have part : isNamePart quote = false := by rcases known with rfl | rfl <;> simp [marks]
  have apart {c d : Char} (part : isNamePart c = true) (other : isNamePart d = false) : c ≠ d := by
    rintro rfl
    cases other.symm.trans part
  refine cutsAlike_of_shield rfl rfl (fun _ _ => closeQuote.eq_3 ..) (fun c t letter => ?_)
    (fun c t plain alike => ?_) t
  · rw [closeQuote_cons (apart letter marks.1), if_neg (apart letter marks.2.1),
      if_neg (apart letter part)]
  · by_cases break_ : c = '\n'
    · exact .never fun name _ => by rw [fill_some, closeQuote_cons plain, if_pos break_]
    by_cases closes : c = quote
    · refine .here (x := [some c]) fun name _ => ?_
      change closeQuote quote (c :: fill name t) = _
      rw [closeQuote_cons plain, if_neg break_, if_pos closes]
      rfl
    · refine .later [some c] alike fun name _ => ?_
      change closeQuote quote (c :: fill name t) = _
      rw [closeQuote_cons plain, if_neg break_, if_neg closes]
      rfl

theorem closeTextBlock_cutsAlike (t : Template) : CutsAlike closeTextBlock t := by
  have marks : isNamePart '\\' = false ∧ isNamePart '"' = false := by decide
  have quotes : ∀ c ∈ tripleQuote, isNamePart c = false := by simp [tripleQuote, marks]
  refine cutsAlike_of_shield rfl rfl (fun _ _ => closeTextBlock.eq_3 ..) (fun c t letter => ?_)
    (fun c t plain alike => ?_) t
  · refine closeTextBlock_cons ?_ ?_
    · rintro rfl
      cases marks.1.symm.trans letter
    · rintro ⟨_, same⟩
      obtain ⟨rfl, _⟩ := List.cons.inj same
      cases marks.2.symm.trans letter
  · by_cases closes : tripleQuote.map some <+: some c :: t
    · obtain ⟨rest, same⟩ := closes
      rw [← same]
      exact .here fun name _ => by simp [tripleQuote, closeTextBlock]
    · refine .later [some c] alike fun name isName => closeTextBlock_cons plain fun start => closes ?_
      exact (prefix_fill isName quotes (some c :: t)).mp start

/-! ### Numbers, names and symbols -/

theorem splitNumber_fill (marks : Text) (previous : Char) {t : Template} (spaced : Spaced false t) :
    ∃ (text : Text) (rest : Template), t = text.map some ++ rest ∧
      ∀ name, splitNumber marks previous (t.fill name) = (text, rest.fill name) := by
  have signs : Text.isBlank '.' = false ∧ Text.isBlank '+' = false ∧ Text.isBlank '-' = false := by
    decide
  induction t generalizing previous with
  | nil => exact ⟨[], [], rfl, fun _ => rfl⟩
  | cons c t ih =>
    cases c with
    | none => exact absurd spaced.1 (by decide)
    | some c =>
    by_cases goes : Continues marks previous c
    · have visible : Text.isBlank c = false := by
        rcases goes with letter | rfl | rfl | ⟨rfl | rfl, _⟩
        · exact isBlank_of_isNamePart (by simp [isNamePart, letter])
        · exact isBlank_of_isNamePart (by simp [isNamePart])
        · exact signs.1
        · exact signs.2.1
        · exact signs.2.2
      obtain ⟨text, rest, rfl, splits⟩ := ih c (visible ▸ spaced)
      refine ⟨c :: text, rest, rfl, fun name => ?_⟩
      rw [fill_some, splitNumber, if_pos (continues_iff.mpr goes), splits]
    · refine ⟨[], some c :: t, rfl, fun name => ?_⟩
      rw [fill_some, splitNumber, if_neg fun more => goes (continues_iff.mp more)]

theorem takeWhile_fill {p : Char → Bool} (visible : ∀ c, p c = true → Text.isBlank c = false)
    {t : Template} (spaced : Spaced false t) :
    ∃ (text : Text) (rest : Template), t = text.map some ++ rest ∧ ∀ name,
      (t.fill name).takeWhile p = text ∧ (t.fill name).dropWhile p = rest.fill name := by
  induction t with
  | nil => exact ⟨[], [], rfl, fun _ => ⟨rfl, rfl⟩⟩
  | cons c t ih =>
    cases c with
    | none => exact absurd spaced.1 (by decide)
    | some c =>
    by_cases goes : p c = true
    · obtain ⟨text, rest, rfl, splits⟩ := ih (visible c goes ▸ spaced)
      refine ⟨c :: text, rest, rfl, fun name => ?_⟩
      rw [fill_some, List.takeWhile_cons_of_pos goes, List.dropWhile_cons_of_pos goes,
        (splits name).1, (splits name).2]
      exact ⟨rfl, rfl⟩
    · refine ⟨[], some c :: t, rfl, fun name => ?_⟩
      rw [fill_some, List.takeWhile_cons_of_neg goes, List.dropWhile_cons_of_neg goes]
      exact ⟨rfl, rfl⟩

theorem takeWhile_fill_of_part {p : Char → Bool} (parts : ∀ c, isNamePart c = true → p c = true)
    (t : Template) : ∃ x y : Template, x ++ y = t ∧ ∀ name, IsName name →
      (t.fill name).takeWhile p = x.fill name ∧ (t.fill name).dropWhile p = y.fill name := by
  induction t with
  | nil => exact ⟨[], [], rfl, fun _ _ => ⟨rfl, rfl⟩⟩
  | cons c t ih =>
    obtain ⟨x, y, rfl, splits⟩ := ih
    cases c with
    | none =>
      refine ⟨none :: x, y, rfl, fun name isName => ?_⟩
      have inside : ∀ c ∈ name, p c = true := fun c member => parts c (isName.part c member)
      rw [fill_none, List.takeWhile_append_of_pos inside, List.dropWhile_append_of_pos inside,
        (splits name isName).1, (splits name isName).2]
      exact ⟨rfl, rfl⟩
    | some c =>
      by_cases goes : p c = true
      · refine ⟨some c :: x, y, rfl, fun name isName => ?_⟩
        rw [fill_some, List.takeWhile_cons_of_pos goes, List.dropWhile_cons_of_pos goes,
          (splits name isName).1, (splits name isName).2]
        exact ⟨rfl, rfl⟩
      · refine ⟨[], some c :: (x ++ y), rfl, fun name _ => ?_⟩
        rw [fill_some, List.takeWhile_cons_of_neg goes, List.dropWhile_cons_of_neg goes]
        exact ⟨rfl, rfl⟩

theorem splitSymbol_fill (c : Char) (t : Template) :
    ∃ (text : Text) (rest : Template), some c :: t = text.map some ++ rest ∧ text ≠ [] ∧
      ∀ name, IsName name → splitSymbol c (t.fill name) = (text, rest.fill name) := by
  have other : isNamePart '.' = false ∧ isNamePart '-' = false ∧ isNamePart '>' = false ∧
      isNamePart ':' = false := by decide
  have marks : ∀ s ∈ longSymbols, ∀ d ∈ s, isNamePart d = false := by simp [longSymbols, other]
  by_cases long : ∃ s ∈ longSymbols, s.map some <+: some c :: t
  · obtain ⟨s, member, rest, same⟩ := long
    cases s with
    | nil => exact absurd member (by decide)
    | cons d s =>
      rw [List.map_cons, List.cons_append, List.cons.injEq, Option.some.injEq] at same
      obtain ⟨rfl, rfl⟩ := same
      refine ⟨d :: s, rest, rfl, by simp, fun name _ => ?_⟩
      rw [fill_append, fill_map_some]
      exact splitSymbol_of_known (.inl member)
  · refine ⟨[c], t, rfl, by simp, fun name isName => ?_⟩
    rw [← List.nil_append (t.fill name)]
    refine splitSymbol_of_known (.inr ⟨rfl, fun s member start => long ⟨s, member, ?_⟩⟩)
    exact (prefix_fill isName (marks s member) (some c :: t)).mp start

/-! ### The first piece -/

/-- The piece that a template starts with, and the rest. -/
structure Cut where
  kind : Option Token.Kind
  text : Template
  rest : Template

/-- The piece that a filled template starts with. -/
def Cut.fill (name : Text) (cut : Cut) : Front :=
  ⟨cut.kind, cut.text.fill name, cut.rest.fill name⟩

/-- The kinds of pieces that may have open places within. -/
def wideKinds : List (Option Token.Kind) := [none, some .string, some .character]

/-- A part of a template that starts it, and is closed unless its kind is a wide one. -/
structure Cut.Of (whole : Template) (cut : Cut) : Prop where
  parts : cut.text ++ cut.rest = whole
  inhabited : cut.text ≠ []
  closed : cut.kind ∈ wideKinds ∨ none ∉ cut.text

/-- The first piece of a filled template is a part of the template, whatever the name. -/
def FrontsAlike (c : Char) (t : Template) : Prop :=
  ∃ cut : Except Problem Cut, (∀ piece, cut = .ok piece → piece.Of (some c :: t)) ∧
    ∀ name, IsName name → front c (t.fill name) = cut.map (·.fill name)

theorem FrontsAlike.piece {c : Char} {t : Template} (piece : Cut) (of : piece.Of (some c :: t))
    (all : ∀ name, IsName name → front c (t.fill name) = .ok (piece.fill name)) :
    FrontsAlike c t := by
  refine ⟨.ok piece, fun piece' same => ?_, all⟩
  cases same
  exact of

theorem CutsAlike.fronts {scan : Text → Option (Text × Text)} {ahead : Template}
    (alike : CutsAlike scan ahead) {c : Char} {t : Template} (opening : Text)
    (whole : some c :: t = opening.map some ++ ahead) (inhabited : opening ≠ [])
    (kind : Option Token.Kind) (wide : kind ∈ wideKinds) (problem : Problem)
    (closed : ∀ name text rest, IsName name → scan (ahead.fill name) = some (text, rest) →
      front c (t.fill name) = .ok ⟨kind, opening ++ text, rest⟩)
    (never : ∀ name, IsName name → scan (ahead.fill name) = none →
      front c (t.fill name) = .error problem) : FrontsAlike c t := by
  obtain ⟨cut, parts, scans⟩ := alike
  cases cut with
  | none => exact ⟨.error problem, by simp, fun name isName => never name isName (scans name isName)⟩
  | some cut =>
    refine .piece ⟨kind, opening.map some ++ cut.1, cut.2⟩ ⟨?_, by simp [inhabited], .inl wide⟩ ?_
    · rw [List.append_assoc, parts cut.1 cut.2 rfl, whole]
    · intro name isName
      rw [closed name _ _ isName (scans name isName)]
      simp [Cut.fill]

theorem frontsAlike_bare {c : Char} {t : Template} (spaced : Spaced false t)
    (bare : ∀ name, IsName name → Bare c (t.fill name)) : FrontsAlike c t := by
  have starts (name : Text) : startsNumber c (t.fill name) = startsNumber c (t.head?.join).toList := by
    unfold startsNumber
    rw [spaced.head? name]
    cases t.head?.join <;> rfl
  have marks (name : Text) : exponentMarks c (t.fill name) = exponentMarks c (t.head?.join).toList := by
    unfold exponentMarks
    rw [spaced.head? name]
    cases t.head?.join <;> rfl
  by_cases number : startsNumber c (t.head?.join).toList = true
  · obtain ⟨text, rest, rfl, splits⟩ :=
      splitNumber_fill (exponentMarks c (t.head?.join).toList) c spaced
    refine .piece ⟨some .number, (c :: text).map some, rest⟩ ⟨rfl, by simp, .inr (by simp)⟩ ?_
    intro name isName
    rw [front_bare (bare name isName), starts, if_pos number, marks, splits]
    simp [Cut.fill]
  by_cases word : isNameStart c = true
  · obtain ⟨text, rest, rfl, splits⟩ := takeWhile_fill (fun d => isBlank_of_isNamePart) spaced
    refine .piece ⟨some .identifier, (c :: text).map some, rest⟩ ⟨rfl, by simp, .inr (by simp)⟩ ?_
    intro name isName
    rw [front_bare (bare name isName), starts, if_neg number, if_pos word, (splits name).1,
      (splits name).2]
    simp [Cut.fill]
  · obtain ⟨text, rest, whole, inhabited, splits⟩ := splitSymbol_fill c t
    refine .piece ⟨some .symbol, text.map some, rest⟩ ⟨whole.symm, by simpa, .inr (by simp)⟩ ?_
    intro name isName
    rw [front_bare (bare name isName), starts, if_neg number, if_neg word, splits name isName]
    simp [Cut.fill]

theorem frontsAlike {c : Char} (visible : Text.isBlank c = false) {t : Template}
    (spaced : Spaced false t) : FrontsAlike c t := by
  have marks : isNamePart '/' = false ∧ isNamePart '*' = false ∧ isNamePart '"' = false := by
    decide
  have break_ : isNamePart '\n' = false := by decide
  have starts {marks : Text} (other : ∀ d ∈ marks, isNamePart d = false) {name : Text}
      (isName : IsName name) : marks <+: c :: t.fill name ↔ marks.map some <+: some c :: t :=
    prefix_fill isName other (some c :: t)
  -- A name has none of the marks that open a front, so the template decides in every case.
  by_cases line : ['/', '/'].map some <+: some c :: t
  · obtain ⟨rest, same⟩ := line
    cases same
    have parts (d : Char) (part : isNamePart d = true) : decide (d ≠ '\n') = true := by
      rw [decide_eq_true_eq]
      rintro rfl
      cases break_.symm.trans part
    obtain ⟨x, y, rfl, splits⟩ := takeWhile_fill_of_part parts rest
    refine .piece ⟨none, some '/' :: some '/' :: x, y⟩ ⟨rfl, by simp, .inl (by simp [wideKinds])⟩ ?_
    intro name isName
    change front '/' ('/' :: (x ++ y).fill name) = _
    rw [front_lineComment, (splits name isName).1, (splits name isName).2]
    rfl
  by_cases block : ['/', '*'].map some <+: some c :: t
  · obtain ⟨rest, same⟩ := block
    cases same
    refine (closeComment_cutsAlike rest).fronts ['/', '*'] rfl (by simp) none (by simp [wideKinds])
      .unterminatedComment ?_ ?_
    · intro name text rest' isName found
      change front '/' ('*' :: fill name rest) = _
      rw [front_blockComment, found]
      rfl
    · intro name isName found
      change front '/' ('*' :: fill name rest) = _
      rw [front_blockComment, found]
  by_cases quotes : tripleQuote.map some <+: some c :: t
  · obtain ⟨rest, same⟩ := quotes
    cases same
    refine (closeTextBlock_cutsAlike rest).fronts tripleQuote rfl (by simp [tripleQuote])
      (some .string) (by simp [wideKinds]) .unterminatedTextBlock ?_ ?_
    · intro name text rest' isName found
      change front '"' ('"' :: '"' :: fill name rest) = _
      rw [front_textBlock, found]
    · intro name isName found
      change front '"' ('"' :: '"' :: fill name rest) = _
      rw [front_textBlock, found]
  have short (name : Text) (isName : IsName name) : ¬ tripleQuote <+: c :: t.fill name := by
    rwa [starts (by simp [tripleQuote, marks]) isName]
  by_cases quote : c = '"' ∨ c = '\''
  · obtain ⟨kind, known, wide⟩ : ∃ kind : Token.Kind,
        (kind = .string ∧ c = '"' ∨ kind = .character ∧ c = '\'') ∧ some kind ∈ wideKinds := by
      rcases quote with rfl | rfl
      · exact ⟨.string, .inl ⟨rfl, rfl⟩, by simp [wideKinds]⟩
      · exact ⟨.character, .inr ⟨rfl, rfl⟩, by simp [wideKinds]⟩
    refine (closeQuote_cutsAlike quote t).fronts [c] rfl (by simp) (some kind) wide
      .unterminatedLiteral ?_ ?_
    · intro name text rest isName found
      rw [front_quote known (short name isName), found]
      rfl
    · intro name isName found
      rw [front_quote known (short name isName), found]
  · refine frontsAlike_bare spaced fun name isName => ⟨visible, not_or.mp quote, ?_⟩
    rintro (start | start)
    · exact line ((starts (by simp [marks]) isName).mp start)
    · exact block ((starts (by simp [marks]) isName).mp start)

/-! ### Tokens -/

/-- A token of a template, with what stands before it. -/
structure Slot where
  kind : Token.Kind
  before : Template
  text : Template

namespace Slot

/-- The token of the filled template. -/
def token (name : Text) (s : Slot) : Token :=
  ⟨s.kind, s.text.fill name, .behind (s.before.fill name)⟩

/-- The slot stands in a template. An open place is a slot of its own, or lies within a literal. -/
structure Fits (whole : Template) (s : Slot) : Prop where
  place : s.before ++ s.text <+: whole
  inhabited : s.text ≠ []
  open_ : none ∈ s.text → s.kind = .identifier ∧ s.text = [none] ∨
    some s.kind ∈ wideKinds ∧ s.text.head? ≠ some none

/-- The slot starts with a letter. -/
def StartsWord (s : Slot) : Prop :=
  ∃ w more, s.text = some w :: more ∧ Text.isWordChar w = true

end Slot

/-- The slots of a template in their order; a word comes after every open place. -/
structure SlotsOf (whole : Template) (slots : List Slot) : Prop where
  fits : ∀ s ∈ slots, s.Fits whole
  words : slots.IsChain fun s next => s.text = [none] → next.StartsWord

/-- The tokens that a template has for every name, or where it has none. -/
def tokenizedAs (whole : Template) (name : Text) :
    Except (Problem × Template) (List Slot) → Except SyntaxError Tokenization
  | .ok slots => .ok ⟨slots.map (·.token name), .behind (whole.fill name)⟩
  | .error e => .error ⟨e.1, .behind (e.2.fill name)⟩

theorem front_isSome {c : Char} (word : Text.isWordChar c = true) {rest : Text} {f : Front}
    (found : front c rest = .ok f) : f.kind.isSome = true := by
  rw [front_bare (bare_of_wordChar word rest)] at found
  split at found
  · cases found
    rfl
  split at found
  · cases found
    rfl
  · cases found
    rfl

theorem tokenizeFrom_name {name : Text} (isName : IsName name) {ahead : Text}
    (stop : ∀ d, ahead.head? = some d → isNamePart d = false) (p : Position) :
    tokenizeFrom p (name ++ ahead) =
      (tokenizeFrom (p.after name) ahead).map (·.push (some .identifier) name p) := by
  obtain ⟨c, tail, rfl, start, parts⟩ := isName
  obtain ⟨_, _, same, found⟩ := front_lexeme (Lexeme.name start parts stop)
  cases same
  exact tokenizeFrom_of_front found p

theorem isName_letter : IsName ['x'] := ⟨'x', [], rfl, by decide, by simp⟩

/-- What is ahead in a template has the same slots for every name. If a word is ahead, the first slot
starts with it. -/
def Slotted (before ahead : Template) : Prop :=
  ∃ result : Except (Problem × Template) (List Slot),
    (∀ slots, result = .ok slots → SlotsOf (before ++ ahead) slots ∧
      (WordAhead ahead → ∃ s ∈ slots.head?, s.StartsWord)) ∧
    ∀ name, IsName name → tokenizeFrom (.behind (before.fill name)) (ahead.fill name) =
      tokenizedAs (before ++ ahead) name result

theorem Slotted.token {before rest : Template} (kind : Token.Kind) (text : Template)
    (slotted : Slotted (before ++ text) rest)
    (read : ∀ name, IsName name → tokenizeFrom (.behind (before.fill name)) ((text ++ rest).fill name) =
      (tokenizeFrom (.behind ((before ++ text).fill name)) (rest.fill name)).map
        (·.push (some kind) (text.fill name) (.behind (before.fill name))))
    (inhabited : text ≠ []) (open_ : none ∈ text → kind = .identifier ∧ text = [none] ∨
      some kind ∈ wideKinds ∧ text.head? ≠ some none)
    (next : text = [none] → WordAhead rest)
    (word : WordAhead (text ++ rest) → (Slot.mk kind before text).StartsWord) :
    Slotted before (text ++ rest) := by
  obtain ⟨result, slotsOf, reads⟩ := slotted
  rw [List.append_assoc] at reads slotsOf
  refine ⟨result.map (⟨kind, before, text⟩ :: ·), fun slots same => ?_, fun name isName => ?_⟩
  · cases result with
    | error => cases same
    | ok later =>
      cases same
      obtain ⟨⟨fits, words⟩, first⟩ := slotsOf later rfl
      refine ⟨⟨List.forall_mem_cons.mpr ⟨⟨?_, inhabited, open_⟩, fits⟩, ?_⟩, fun ahead => ⟨_, rfl, word ahead⟩⟩
      · rw [← List.append_assoc]
        exact List.prefix_append ..
      · refine List.isChain_cons.mpr ⟨fun s head isOpen => ?_, words⟩
        obtain ⟨s', head', starts⟩ := first (next isOpen)
        cases head.symm.trans head'
        exact starts
  · rw [read name isName, reads name isName]
    cases result with
    | error => rfl
    | ok later => rfl

theorem Slotted.skip {before rest : Template} (text : Template) (slotted : Slotted (before ++ text) rest)
    (read : ∀ name, IsName name → tokenizeFrom (.behind (before.fill name)) ((text ++ rest).fill name) =
      tokenizeFrom (.behind ((before ++ text).fill name)) (rest.fill name))
    (word : WordAhead (text ++ rest) → WordAhead rest) : Slotted before (text ++ rest) := by
  obtain ⟨result, slotsOf, reads⟩ := slotted
  rw [List.append_assoc] at reads slotsOf
  exact ⟨result, fun slots same => ⟨(slotsOf slots same).1, (slotsOf slots same).2 ∘ word⟩,
    fun name isName => (read name isName).trans (reads name isName)⟩

theorem slotted_name {before t : Template} (slotted : Slotted (before ++ [none]) t)
    (apart : ∃ c more, t = some c :: more ∧ Text.isBlank c = true) (word : WordAhead t) :
    Slotted before (none :: t) := by
  refine slotted.token .identifier [none] (fun name isName => ?_) (by simp)
    (fun _ => .inl ⟨rfl, rfl⟩) (fun _ => word) fun ⟨space, w, more, same, _⟩ => ?_
  · obtain ⟨c, more, rfl, blank⟩ := apart
    have stop (d : Char) (head : (fill name (some c :: more)).head? = some d) :
        isNamePart d = false := by
      cases head
      exact isNamePart_of_isBlank blank
    have read := tokenizeFrom_name isName stop (.behind (before.fill name))
    rw [Position.after_behind] at read
    simpa using read
  · cases space with
    | nil => cases same
    | cons => cases same

theorem slotted_blank {before t : Template} {c : Char} (blank : Text.isBlank c = true)
    (slotted : Slotted (before ++ [some c]) t) : Slotted before (some c :: t) := by
  refine slotted.skip [some c] (fun name _ => ?_) fun word => ?_
  · rw [fill_append, fill_append]
    change tokenizeFrom _ (c :: fill name t) = _
    rw [tokenizeFrom_blank blank, Position.next_behind]
    rfl
  · rcases WordAhead.of_cons word with letter | ⟨_, word⟩
    · cases (Text.isWordChar_of_isBlank blank).symm.trans letter
    · exact word

theorem slotted_piece {before t : Template} {c : Char} {piece : Cut} (of : piece.Of (some c :: t))
    (visible : Text.isBlank c = false)
    (fronts : ∀ name, IsName name → front c (t.fill name) = .ok (piece.fill name))
    (slotted : Slotted (before ++ piece.text) piece.rest) : Slotted before (some c :: t) := by
  have read (name : Text) (isName : IsName name) :
      tokenizeFrom (.behind (before.fill name)) (fill name (some c :: t)) =
      (tokenizeFrom (.behind ((before ++ piece.text).fill name)) (piece.rest.fill name)).map
        (·.push piece.kind (piece.text.fill name) (.behind (before.fill name))) := by
    rw [fill_some, tokenizeFrom_of_front (fronts name isName), Position.after_behind, fill_append]
    rfl
  obtain ⟨kind, text, rest⟩ := piece
  obtain ⟨parts, inhabited, closed⟩ := of
  dsimp only at parts inhabited closed read slotted
  have first : ∃ more, text = some c :: more := by
    obtain ⟨d, more, rfl⟩ := List.exists_cons_of_ne_nil inhabited
    exact ⟨more, by rw [(List.cons.inj parts).1]⟩
  obtain ⟨more, rfl⟩ := first
  rw [← parts] at read ⊢
  cases kind with
  | none =>
    refine slotted.skip _ (fun name isName => ?_) fun word => ?_
    · rw [read name isName, map_push_none]
    · -- A comment does not start with a letter.
      rcases WordAhead.of_cons word with letter | ⟨blank, _⟩
      · cases front_isSome letter (fronts _ isName_letter)
      · cases visible.symm.trans blank
  | some kind =>
    refine slotted.token _ _ read (by simp) (fun isOpen => ?_) (fun isOpen => by cases isOpen)
      fun word => ?_
    · rcases closed with wide | closed
      · exact .inr ⟨wide, by simp⟩
      · exact absurd isOpen closed
    · rcases WordAhead.of_cons word with letter | ⟨blank, _⟩
      · exact ⟨c, more, rfl, letter⟩
      · cases visible.symm.trans blank

/-- A template whose open places are words has the same slots for every name. -/
theorem tokenizeFrom_fill (before t : Template) {afterBlank : Bool} (spaced : Spaced afterBlank t) :
    Slotted before t := by
  -- By induction on the length, since a lexeme is taken off as a whole.
  induction size : t.length using Nat.strong_induction_on generalizing before t afterBlank with
  | _ n ih =>
  cases t with
  | nil =>
    refine ⟨.ok [], fun slots same => ?_, fun name _ => ?_⟩
    · cases same
      refine ⟨⟨by simp, List.isChain_nil⟩, fun ⟨space, w, more, same, _⟩ => ?_⟩
      simp at same
    · rw [fill_nil, tokenizeFrom]
      simp [tokenizedAs]
  | cons c t =>
  have shorter : t.length < n := by simp [← size]
  cases c with
  | none =>
    obtain ⟨_, apart, word, spaced⟩ := spaced
    exact slotted_name (ih _ shorter _ t spaced rfl) apart word
  | some c =>
  rw [Spaced] at spaced
  by_cases blank : Text.isBlank c = true
  · exact slotted_blank blank (ih _ shorter _ t spaced rfl)
  have visible : Text.isBlank c = false := by simpa using blank
  rw [visible] at spaced
  obtain ⟨cut, pieces, fronts⟩ := frontsAlike visible spaced
  cases cut with
  | error problem =>
    refine ⟨.error (problem, before), by simp, fun name isName => ?_⟩
    rw [fill_some, tokenizeFrom_of_error (fronts name isName)]
    rfl
  | ok piece =>
    have of := pieces piece rfl
    have whole : Spaced false (piece.text ++ piece.rest) := by
      rw [of.parts, Spaced, visible]
      exact spaced
    obtain ⟨afterBlank', later⟩ := whole.of_append
    refine slotted_piece of visible fronts (ih _ ?_ _ piece.rest later rfl)
    have whole := congrArg List.length of.parts
    have inhabited := List.length_pos_iff.mpr of.inhabited
    rw [List.length_append] at whole
    omega

end Layering.Java
