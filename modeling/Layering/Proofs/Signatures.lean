import Layering.Proofs.Edits

/-!
# Signatures in an edited text

A signature is what its parts say, wherever it stands, and none begins on the way to the parameters of
another. So an edit that stays clear of the words before the parameters neither makes a signature nor
hides one that was found, and rewriting a text rewrites the signatures in it and nothing else.
-/

namespace Layering

namespace Text

/-! ### Words between blanks -/

theorem pieces_ne_nil (p : Char → Bool) (t : Text) : pieces p t ≠ [] := by
  cases t with
  | nil => simp [pieces]
  | cons c rest =>
    unfold pieces
    split
    · simp
    · split <;> simp

theorem pieces_append {p : Char → Bool} {c : Char} (separates : p c = true) (t rest : Text) :
    pieces p (t ++ c :: rest) = pieces p t ++ pieces p rest := by
  induction t with
  | nil => simp [pieces, separates]
  | cons d t ih =>
    rw [List.cons_append, pieces, pieces, ih]
    split
    · rfl
    · obtain ⟨piece, more, same⟩ := List.exists_cons_of_ne_nil (pieces_ne_nil p t)
      simp [same]

theorem words_append_cons {c : Char} (blank : isBlank c = true) (t rest : Text) :
    words (t ++ c :: rest) = words t ++ words rest := by
  rw [words, pieces_append blank, List.filter_append]
  rfl

theorem words_of_word {word : Text} (inhabited : word ≠ []) (whole : ∀ c ∈ word, isBlank c = false) :
    words word = [word] := by
  simp [words, pieces_of_none whole, inhabited]

theorem words_blanks_append {space : Text} (blank : ∀ c ∈ space, isBlank c = true) (rest : Text) :
    words (space ++ rest) = words rest := by
  induction space with
  | nil => rfl
  | cons c space ih =>
    obtain ⟨first, blank⟩ := List.forall_mem_cons.mp blank
    rw [List.cons_append, ← List.nil_append (c :: (space ++ rest)), words_append_cons first, ih blank]
    rfl

theorem blank_of_words_eq_nil {t : Text} (none : words t = []) : ∀ c ∈ t, isBlank c = true := by
  induction t with
  | nil => nofun
  | cons d rest ih =>
    by_cases blank : isBlank d = true
    · have parts := words_append_cons blank [] rest
      rw [List.nil_append, none] at parts
      exact List.forall_mem_cons.mpr ⟨blank, ih (List.append_eq_nil_iff.mp parts.symm).2⟩
    · obtain ⟨piece, more, split⟩ := List.exists_cons_of_ne_nil (pieces_ne_nil isBlank rest)
      simp [words, pieces, blank, split] at none

/-- What stands before a character that a text lacks reaches at least to the end of the text. -/
theorem exists_of_append_eq {c : Char} {x y before after : Text} (other : c ∉ x)
    (same : x ++ y = before ++ c :: after) : ∃ z, before = x ++ z ∧ y = z ++ c :: after := by
  rcases List.append_eq_append_iff.mp same with ⟨z, split, rest⟩ | ⟨z, split, rest⟩
  · exact ⟨z, split, rest⟩
  · cases z with
    | nil => exact ⟨[], by simpa using split.symm, rest.symm⟩
    | cons d z =>
      obtain ⟨rfl, _⟩ := List.cons.inj rest
      exact absurd (split ▸ List.mem_append_right _ List.mem_cons_self) other

/-- Blanks part the words before them from those after them. -/
theorem words_append_blanks {space : Text} (some : space ≠ [])
    (blank : ∀ c ∈ space, isBlank c = true) (t rest : Text) :
    words (t ++ (space ++ rest)) = words t ++ words rest := by
  obtain ⟨c, more, rfl⟩ := List.exists_cons_of_ne_nil some
  obtain ⟨first, blank⟩ := List.forall_mem_cons.mp blank
  rw [List.cons_append, words_append_cons first, words_blanks_append blank]

/-- The last word of a text reaches back to a blank or to the start. -/
theorem words_append_word {word : Text} (inhabited : word ≠ [])
    (whole : ∀ c ∈ word, isBlank c = false) (t : Text) :
    ∃ before stem, t = before ++ stem ∧ (∀ c ∈ stem, isBlank c = false) ∧
      words (t ++ word) = words before ++ [stem ++ word] := by
  obtain ⟨before, stem, rfl, free, edge⟩ : ∃ before stem, t = before ++ stem ∧
      (∀ c ∈ stem, isBlank c = false) ∧ ∀ c, before.getLast? = some c → isBlank c = true := by
    refine ⟨(t.reverse.dropWhile (!isBlank ·)).reverse, (t.reverse.takeWhile (!isBlank ·)).reverse,
      ?_, ?_, ?_⟩
    · rw [← List.reverse_append, List.takeWhile_append_dropWhile, List.reverse_reverse]
    · intro c member
      simpa using List.mem_takeWhile_imp (List.mem_reverse.mp member)
    · intro c last
      rw [List.getLast?_reverse] at last
      have edge := List.head?_dropWhile_not (!isBlank ·) t.reverse
      rw [last] at edge
      simpa using edge
  refine ⟨before, stem, rfl, free, ?_⟩
  have last : words (stem ++ word) = [stem ++ word] := by
    refine words_of_word (by simp [inhabited]) fun c member => ?_
    exact (List.mem_append.mp member).elim (free c) (whole c)
  rcases List.eq_nil_or_concat before with rfl | ⟨front, c, rfl⟩
  · exact last
  · have blank := edge c (by simp)
    have before : words (front.concat c) = words front := by
      rw [List.concat_eq_append, words_append_cons blank]
      simp [words, pieces]
    rw [before, List.append_assoc, List.concat_eq_append, List.append_assoc, List.singleton_append,
      words_append_cons blank, last]

/-- The last character that is not blank. -/
def lastMark? (t : Text) : Option Char := (t.reverse.dropWhile isBlank).head?

theorem lastMark?_append {c : Char} (mark : isBlank c = false) {space : Text}
    (blank : ∀ c ∈ space, isBlank c = true) (t : Text) : lastMark? (t ++ c :: space) = some c := by
  have blank' : ∀ c ∈ space.reverse, isBlank c = true := by simpa using blank
  rw [lastMark?, List.reverse_append, List.reverse_cons, List.append_assoc,
    List.dropWhile_append_of_pos blank', List.singleton_append,
    List.dropWhile_cons_of_neg (by simp [mark])]
  rfl

theorem lastMark?_of_blank {space : Text} (blank : ∀ c ∈ space, isBlank c = true) :
    lastMark? space = none := by
  have none : space.reverse.dropWhile isBlank = [] :=
    List.dropWhile_eq_nil_iff.mpr fun c member => blank c (List.mem_reverse.mp member)
  rw [lastMark?, none]
  rfl

end Text

namespace Java

/-! ### The parts of a signature -/

/-- A word with blanks before it. -/
structure SpacedWord.Parted (w : SpacedWord) : Prop where
  space : w.space ≠ [] ∧ ∀ c ∈ w.space, Text.isBlank c = true
  word : w.word ≠ [] ∧ ∀ c ∈ w.word, Text.isWordChar c = true

/-- A signature as it is written. -/
structure Form where
  visibility : Text
  modifiers : List SpacedWord
  type : SpacedWord
  name : SpacedWord
  gap : Text
  parameters : Text
  gap' : Text
  isVisibility : visibility = "public" ∨ visibility = "protected"
  listed : ∀ w ∈ modifiers, signatureModifiers.contains w.word = true
  parted : ∀ w ∈ modifiers ++ [type, name], w.Parted
  blank : ∀ c ∈ gap, Text.isBlank c = true
  blank' : ∀ c ∈ gap', Text.isBlank c = true
  single : ')' ∉ parameters

namespace Form

/-- The signature that is written so. -/
def signature (f : Form) : Signature where
  start := f.visibility ++ f.modifiers.flatMap (·.spelling) ++ f.type.space
  returnType := f.type.word
  tail := f.name.spelling ++ f.gap ++ '(' :: f.parameters ++ ')' :: f.gap' ++ ['\x7b']

/-- The words after the visibility. -/
def words (f : Form) : List SpacedWord := f.modifiers ++ [f.type, f.name]

/-- What stands before the parameters. -/
def head (f : Form) : Text := f.visibility ++ f.words.flatMap (·.spelling) ++ f.gap

/-- What stands after the parameters. -/
def close (f : Form) : Text := ')' :: f.gap' ++ ['\x7b']

variable {f : Form}

theorem spelling_eq (f : Form) :
    f.signature.spelling = f.head ++ '(' :: f.parameters ++ f.close := by
  simp [Signature.spelling, signature, head, words, close, SpacedWord.spelling]

theorem start_cases (f : Form) : ∃ more, f.visibility = 'p' :: 'u' :: more ∨
    f.visibility = 'p' :: 'r' :: more := by
  rcases f.isVisibility with same | same
  · exact ⟨"blic".toList, .inl same⟩
  · exact ⟨"otected".toList, .inr same⟩

theorem splitVisibility_append (f : Form) (rest : Text) :
    splitVisibility (f.visibility ++ rest) = some (f.visibility, rest) := by
  have found (word : Text) : Text.dropStart? word (word ++ rest) = some rest :=
    Text.dropStart?_eq_some.mpr rfl
  unfold splitVisibility
  simp only
  rcases f.isVisibility with same | same
  · rw [same, found]
    rfl
  · have other : Text.dropStart? "public" ("protected" ++ rest) = none := rfl
    rw [same, found, other]
    rfl

end Form

/-- Words are split off up to what is no word any more. -/
theorem splitWords_append_of_parted {words : List SpacedWord} (parted : ∀ w ∈ words, w.Parted)
    {gap : Text} (blank : ∀ c ∈ gap, Text.isBlank c = true) {c : Char}
    (other : Text.isBlank c = false ∧ Text.isWordChar c = false) (rest : Text) :
    splitWords (words.flatMap (·.spelling) ++ (gap ++ c :: rest)) = (words, gap ++ c :: rest) := by
  have ends : (gap ++ c :: rest).dropWhile Text.isBlank = c :: rest := by
    rw [List.dropWhile_append_of_pos blank, List.dropWhile_cons_of_neg (by simp [other.1])]
  induction words with
  | nil =>
    rw [List.flatMap_nil, List.nil_append, splitWords]
    simp [ends, other.2]
  | cons w words ih =>
    obtain ⟨first, parted⟩ := List.forall_mem_cons.mp parted
    obtain ⟨⟨spaced, space⟩, inhabited, word⟩ := first
    set tail := words.flatMap (·.spelling) ++ (gap ++ c :: rest) with same
    -- A word ends where the blanks before the next one start, or at what is no word.
    have stops : ∃ d more, tail = d :: more ∧ Text.isWordChar d = false := by
      cases words with
      | nil =>
        cases gap with
        | nil => exact ⟨c, rest, by simp [same], other.2⟩
        | cons d gap =>
          exact ⟨d, gap ++ c :: rest, by simp [same],
            Text.isWordChar_of_isBlank (blank d List.mem_cons_self)⟩
      | cons w' words =>
        obtain ⟨⟨spaced', space'⟩, _⟩ := parted w' List.mem_cons_self
        obtain ⟨d, more, first⟩ := List.exists_cons_of_ne_nil spaced'
        refine ⟨d, more ++ w'.word ++ words.flatMap (·.spelling) ++ (gap ++ c :: rest),
          by simp [same, SpacedWord.spelling, first], ?_⟩
        exact Text.isWordChar_of_isBlank (space' d (first ▸ List.mem_cons_self))
    obtain ⟨d, more, split, stop⟩ := stops
    obtain ⟨e, letters, spelled⟩ := List.exists_cons_of_ne_nil inhabited
    have letter : Text.isBlank e = false := by
      rw [Bool.eq_false_iff]
      intro blank
      have := Text.isWordChar_of_isBlank blank
      rw [word e (spelled ▸ List.mem_cons_self)] at this
      cases this
    have whole : (w :: words).flatMap (·.spelling) ++ (gap ++ c :: rest) =
        w.space ++ (w.word ++ tail) := by simp [SpacedWord.spelling, same]
    have taken : (w.space ++ (w.word ++ tail)).takeWhile Text.isBlank = w.space := by
      rw [List.takeWhile_append_of_pos space, spelled, List.cons_append,
        List.takeWhile_cons_of_neg (by simp [letter]), List.append_nil]
    have dropped : (w.space ++ (w.word ++ tail)).dropWhile Text.isBlank = w.word ++ tail := by
      rw [List.dropWhile_append_of_pos space, spelled, List.cons_append,
        List.dropWhile_cons_of_neg (by simp [letter])]
    have taken' : (w.word ++ tail).takeWhile Text.isWordChar = w.word := by
      rw [List.takeWhile_append_of_pos word, split, List.takeWhile_cons_of_neg (by simp [stop]),
        List.append_nil]
    have dropped' : (w.word ++ tail).dropWhile Text.isWordChar = tail := by
      rw [List.dropWhile_append_of_pos word, split, List.dropWhile_cons_of_neg (by simp [stop])]
    rw [whole, splitWords]
    simp only [taken, dropped, taken', dropped', spaced, inhabited, or_self, ↓reduceDIte,
      ih parted]

theorem splitParameterList_append' {gap parameters gap' : Text}
    (blank : ∀ c ∈ gap, Text.isBlank c = true) (blank' : ∀ c ∈ gap', Text.isBlank c = true)
    (single : ')' ∉ parameters) (rest : Text) :
    splitParameterList (gap ++ '(' :: (parameters ++ ')' :: (gap' ++ '\x7b' :: rest))) =
      some (gap ++ '(' :: parameters ++ ')' :: gap' ++ ['\x7b'], rest) := by
  have open_ : Text.isBlank '(' = false := by decide
  have brace : Text.isBlank '\x7b' = false := by decide
  have inside : ∀ c ∈ parameters, decide (c ≠ ')') = true := by
    intro c member
    rw [decide_eq_true_eq]
    rintro rfl
    exact single member
  have first (more : Text) : (gap ++ '(' :: more).dropWhile Text.isBlank = '(' :: more := by
    rw [List.dropWhile_append_of_pos blank, List.dropWhile_cons_of_neg (by simp [open_])]
  have first' (more : Text) : (gap ++ '(' :: more).takeWhile Text.isBlank = gap := by
    rw [List.takeWhile_append_of_pos blank, List.takeWhile_cons_of_neg (by simp [open_]),
      List.append_nil]
  have last : (gap' ++ '\x7b' :: rest).dropWhile Text.isBlank = '\x7b' :: rest := by
    rw [List.dropWhile_append_of_pos blank', List.dropWhile_cons_of_neg (by simp [brace])]
  have last' : (gap' ++ '\x7b' :: rest).takeWhile Text.isBlank = gap' := by
    rw [List.takeWhile_append_of_pos blank', List.takeWhile_cons_of_neg (by simp [brace]),
      List.append_nil]
  have between (more : Text) : (parameters ++ ')' :: more).dropWhile (· ≠ ')') = ')' :: more := by
    rw [List.dropWhile_append_of_pos inside, List.dropWhile_cons_of_neg (by simp)]
  have between' (more : Text) : (parameters ++ ')' :: more).takeWhile (· ≠ ')') = parameters := by
    rw [List.takeWhile_append_of_pos inside, List.takeWhile_cons_of_neg (by simp), List.append_nil]
  unfold splitParameterList
  rw [first, first']
  simp only
  rw [between, between']
  simp only
  rw [last, last']
  rfl

theorem splitSignature_of_form (f : Form) (rest : Text) :
    splitSignature (f.signature.spelling ++ rest) = some (f.signature, rest) := by
  have other : Text.isBlank '(' = false ∧ Text.isWordChar '(' = false := by decide
  have whole : f.signature.spelling ++ rest = f.visibility ++ (f.words.flatMap (·.spelling) ++
      (f.gap ++ '(' :: (f.parameters ++ ')' :: (f.gap' ++ '\x7b' :: rest)))) := by
    rw [f.spelling_eq, Form.head, Form.close]
    simp
  have reversed : f.words.reverse = f.name :: f.type :: f.modifiers.reverse := by
    simp [Form.words]
  have listed : f.modifiers.reverse.all (fun w => signatureModifiers.contains w.word) = true := by
    rw [List.all_reverse]
    exact List.all_eq_true.mpr f.listed
  have parted : ∀ w ∈ f.words, w.Parted := f.parted
  have words := splitWords_append_of_parted parted f.blank other
    (f.parameters ++ ')' :: (f.gap' ++ '\x7b' :: rest))
  rw [whole, splitSignature, f.splitVisibility_append]
  simp only [Option.bind_eq_bind, Option.bind_some, words,
    splitParameterList_append' f.blank f.blank' f.single, reversed, listed, if_true]
  simp [Form.signature]

theorem splitVisibility_cases {t word rest : Text} (found : splitVisibility t = some (word, rest)) :
    word = "public" ∨ word = "protected" := by
  rcases Option.or_eq_some_iff.mp found with first | ⟨_, second⟩
  · obtain ⟨_, _, same⟩ := Option.map_eq_some_iff.mp first
    cases same
    exact .inl rfl
  · obtain ⟨_, _, same⟩ := Option.map_eq_some_iff.mp second
    cases same
    exact .inr rfl

theorem splitParameterList_cases {t list rest : Text}
    (found : splitParameterList t = some (list, rest)) :
    ∃ gap parameters gap', list = gap ++ '(' :: parameters ++ ')' :: gap' ++ ['\x7b'] ∧
      (∀ c ∈ gap, Text.isBlank c = true) ∧ (∀ c ∈ gap', Text.isBlank c = true) ∧
      ')' ∉ parameters := by
  unfold splitParameterList at found
  split at found
  next inside _ =>
    split at found
    next after _ =>
      split at found
      · cases found
        refine ⟨_, _, _, rfl, fun c => List.mem_takeWhile_imp, fun c => List.mem_takeWhile_imp, ?_⟩
        intro member
        simpa using List.mem_takeWhile_imp member
      · cases found
    · cases found
  · cases found

theorem exists_form {t rest : Text} {s : Signature} (found : splitSignature t = some (s, rest)) :
    ∃ f : Form, f.signature = s := by
  simp only [splitSignature, Option.bind_eq_bind, Option.bind_eq_some_iff] at found
  obtain ⟨⟨visibility, rest₁⟩, start, ⟨list, rest₂⟩, closed, found⟩ := found
  obtain ⟨gap, parameters, gap', rfl, blank, blank', single⟩ := splitParameterList_cases closed
  split at found
  next name type modifiers reversed =>
    split at found
    next listed =>
      cases found
      have words := List.reverse_eq_iff.mp reversed
      have split : (splitWords rest₁).1 = modifiers.reverse ++ [type, name] := by simp [words]
      refine ⟨⟨visibility, modifiers.reverse, type, name, gap, parameters, gap',
        splitVisibility_cases start, ?_, ?_, blank, blank', single⟩, ?_⟩
      · intro w member
        exact List.all_eq_true.mp listed w (List.mem_reverse.mp member)
      · intro w member
        obtain ⟨space, word⟩ := splitWords_mem (split ▸ member)
        exact ⟨space, word⟩
      · simp [Form.signature]
    next => cases found
  next => cases found

/-- A signature is found exactly where it is written. -/
theorem splitSignature_eq_some {t rest : Text} {s : Signature} :
    splitSignature t = some (s, rest) ↔
      ∃ f : Form, f.signature = s ∧ s.spelling ++ rest = t := by
  constructor
  · intro found
    obtain ⟨f, same⟩ := exists_form found
    exact ⟨f, same, (splitSignature_append found).1⟩
  · rintro ⟨f, rfl, rfl⟩
    exact splitSignature_of_form f rest

namespace Form

variable {f : Form}

theorem visibility_ne_nil (f : Form) : f.visibility ≠ [] := by
  obtain ⟨more, same | same⟩ := f.start_cases <;> simp [same]

theorem isWordChar_visibility (f : Form) : ∀ c ∈ f.visibility, Text.isWordChar c = true := by
  rw [← List.all_eq_true]
  rcases f.isVisibility with same | same <;> rw [same] <;> decide

theorem isBlank_visibility (f : Form) (c : Char) (member : c ∈ f.visibility) :
    Text.isBlank c = false := by
  rw [Bool.eq_false_iff]
  intro blank
  cases (f.isWordChar_visibility c member).symm.trans (Text.isWordChar_of_isBlank blank)

theorem open_not_mem_head (f : Form) : ∀ c ∈ f.head, c ≠ '(' ∧ c ≠ ')' ∧ c ≠ ';' := by
  have apart : ∀ c ∈ ['(', ')', ';'], (!Text.isBlank c && !Text.isWordChar c) = true :=
    List.all_eq_true.mp (by decide)
  have plain {c : Char} (known : Text.isBlank c = true ∨ Text.isWordChar c = true) :
      c ≠ '(' ∧ c ≠ ')' ∧ c ≠ ';' := by
    have other : c ∉ ['(', ')', ';'] := by
      intro member
      have neither := apart c member
      rcases known with blank | word
      · simp [blank] at neither
      · simp [word] at neither
    simpa using other
  intro c member
  rw [head, List.mem_append, List.mem_append, List.mem_flatMap] at member
  rcases member with (start | ⟨w, listed, inside⟩) | gap
  · exact plain (.inr (f.isWordChar_visibility c start))
  · obtain ⟨space, word⟩ := f.parted w listed
    rcases List.mem_append.mp inside with before | letter
    · exact plain (.inl (space.2 c before))
    · exact plain (.inr (word.2 c letter))
  · exact plain (.inl (f.blank c gap))

theorem close_not_mem_start (f : Form) : ')' ∉ f.signature.start ++ f.signature.returnType := by
  intro member
  refine (f.open_not_mem_head ')' ?_).2.1 rfl
  simp only [head, signature, words, List.mem_append, List.flatMap_append, List.flatMap_cons,
    SpacedWord.spelling] at member ⊢
  tauto

/-- The words of what stands before the parameters. -/
theorem words_head (f : Form) (front : Text) :
    Text.words (front ++ f.head) =
      Text.words (front ++ f.visibility) ++ f.words.map (·.word) := by
  have all {words : List SpacedWord} (parted : ∀ w ∈ words, w.Parted) {gap : Text}
      (blank : ∀ c ∈ gap, Text.isBlank c = true) (front : Text) :
      Text.words (front ++ (words.flatMap (·.spelling) ++ gap)) =
        Text.words front ++ words.map (·.word) := by
    induction words generalizing front with
    | nil =>
      have none : Text.words [] = [] := rfl
      by_cases some : gap = []
      · simp [some]
      · have parts := Text.words_append_blanks some blank front []
        simpa [none] using parts
    | cons w words ih =>
      obtain ⟨⟨⟨spaced, space⟩, inhabited, word⟩, parted⟩ := List.forall_mem_cons.mp parted
      have whole (c : Char) (member : c ∈ w.word) : Text.isBlank c = false := by
        rw [Bool.eq_false_iff]
        intro blank
        cases (word c member).symm.trans (Text.isWordChar_of_isBlank blank)
      have first : Text.words (front ++ w.spelling) = Text.words front ++ [w.word] := by
        rw [SpacedWord.spelling, Text.words_append_blanks spaced space,
          Text.words_of_word inhabited whole]
      have split : front ++ ((w :: words).flatMap (·.spelling) ++ gap) =
          (front ++ w.spelling) ++ (words.flatMap (·.spelling) ++ gap) := by simp
      rw [split, ih parted, first]
      simp
  rw [head, List.append_assoc, ← List.append_assoc front]
  exact all f.parted f.blank _

/-- No signature begins on the way to the parameters of another. -/
theorem head_ne_append (f g : Form) {front : Text} (some : front ≠ []) :
    f.head ≠ front ++ g.head := by
  intro same
  have words := congrArg Text.words same
  obtain ⟨before, stem, rfl, _, last⟩ :=
    Text.words_append_word g.visibility_ne_nil g.isBlank_visibility front
  rw [← List.nil_append f.head, f.words_head, g.words_head, last, List.nil_append,
    Text.words_of_word f.visibility_ne_nil f.isBlank_visibility, Form.words, Form.words,
    List.map_append, List.map_append, ← List.append_assoc, ← List.append_assoc] at words
  -- Both end with a return type and a name, so that the rest is the visibility and the modifiers.
  obtain ⟨rest, _⟩ := List.append_inj' words rfl
  cases none : Text.words before with
  | cons word more =>
    simp only [none, List.cons_append, List.nil_append, List.cons.injEq, List.append_assoc] at rest
    have member : stem ++ g.visibility ∈ f.modifiers.map (·.word) := by simp [rest.2]
    obtain ⟨w, listed, spelled⟩ := List.mem_map.mp member
    have ends : ∀ word ∈ signatureModifiers,
        ¬"public".toList <:+ word ∧ ¬"protected".toList <:+ word := by decide
    obtain ⟨open_, guarded⟩ := ends w.word (List.contains_iff_mem.mp (f.listed w listed))
    rcases g.isVisibility with same | same
    · exact open_ (spelled ▸ same ▸ List.suffix_append ..)
    · exact guarded (spelled ▸ same ▸ List.suffix_append ..)
  | nil =>
    simp only [none, List.cons_append, List.nil_append, List.cons.injEq] at rest
    have blank := Text.blank_of_words_eq_nil none
    have stemless : stem = [] := by
      have part : g.visibility <:+ f.visibility := rest.1 ▸ List.suffix_append ..
      have equal : ∀ v ∈ (["public".toList, "protected".toList] : List Text),
          ∀ w ∈ (["public".toList, "protected".toList] : List Text), w <:+ v → w = v := by
        decide
      have same := equal _ (by simpa using f.isVisibility) _ (by simpa using g.isVisibility) part
      simpa [same] using rest.1
    cases before with
    | nil => exact some (by simp [stemless])
    | cons c more =>
      obtain ⟨d, letters, spelled⟩ := List.exists_cons_of_ne_nil f.visibility_ne_nil
      have first : d = c := by
        rw [head, spelled] at same
        simpa using congrArg List.head? same
      have letter := f.isBlank_visibility d (spelled ▸ List.mem_cons_self)
      rw [first, blank c List.mem_cons_self] at letter
      cases letter

/-- The same signature with another return type. -/
def withType (f : Form) (type : Text) (inhabited : type ≠ [])
    (word : ∀ c ∈ type, Text.isWordChar c = true) : Form :=
  { f with
    type := ⟨f.type.space, type⟩
    parted := by
      have parted := f.parted
      simp only [List.forall_mem_append, List.forall_mem_cons] at parted ⊢
      exact ⟨parted.1, ⟨parted.2.1.space, inhabited, word⟩, parted.2.2⟩ }

/-- The same signature with other parameters. -/
def withParameters (f : Form) (parameters : Text) (single : ')' ∉ parameters) : Form :=
  { f with parameters, single }

/-- Where a part of a text ends that starts with a signature: beyond it, in the parameters, before
them or behind them. -/
theorem edge_cases (f : Form) {front back rest : Text}
    (whole : front ++ back = f.signature.spelling ++ rest) :
    (∃ more, front = f.signature.spelling ++ more ∧ rest = more ++ back) ∨
    (∃ before after, front = f.head ++ '(' :: before ∧ f.parameters = before ++ after ∧
      back = after ++ (f.close ++ rest)) ∨
    (∃ more, f.head = front ++ more ∧ back = more ++ '(' :: (f.parameters ++ (f.close ++ rest))) ∨
    ∃ gap more, front = f.head ++ '(' :: f.parameters ++ ')' :: gap ∧ f.gap' = gap ++ more ∧
      back = more ++ '\x7b' :: rest := by
  rw [f.spelling_eq, List.append_assoc, List.append_assoc, List.cons_append,
    List.append_eq_append_iff] at whole
  rcases whole with ⟨more, head, back⟩ | ⟨inner, rfl, whole⟩
  · exact .inr (.inr (.inl ⟨more, head, back⟩))
  cases inner with
  | nil => exact .inr (.inr (.inl ⟨[], by simp, whole.symm⟩))
  | cons c inner =>
    simp only [List.cons_append, List.cons.injEq] at whole
    obtain ⟨rfl, whole⟩ := whole
    rcases List.append_eq_append_iff.mp whole with ⟨behind, rfl, close⟩ | ⟨after, inside, back⟩
    swap
    · exact .inr (.inl ⟨inner, after, rfl, inside, back⟩)
    cases behind with
    | nil => exact .inr (.inl ⟨f.parameters, [], by simp, by simp, close.symm⟩)
    | cons c behind =>
      simp only [Form.close, List.cons_append, List.cons.injEq, List.append_assoc] at close
      obtain ⟨rfl, close⟩ := close
      rcases List.append_eq_append_iff.mp close with ⟨beyond, rfl, brace⟩ | ⟨more, gap, back⟩
      swap
      · exact .inr (.inr (.inr ⟨behind, more, by simp, gap, back⟩))
      cases beyond with
      | nil => exact .inr (.inr (.inr ⟨f.gap', [], by simp, by simp, brace.symm⟩))
      | cons c beyond =>
        simp only [List.cons_append, List.nil_append, List.cons.injEq] at brace
        obtain ⟨rfl, rest⟩ := brace
        exact .inl ⟨beyond, by simp [f.spelling_eq, Form.close], rest⟩

/-- What goes on with the way to the parameters of a signature is no signature itself. -/
theorem spelling_ne_of_head (g f : Form) {front more after back : Text} (some : front ≠ [])
    (head : g.head = front ++ more) : f.signature.spelling ++ after ≠ more ++ '(' :: back := by
  intro same
  have parts : f.signature.spelling ++ after =
      f.head ++ '(' :: (f.parameters ++ (f.close ++ after)) := by simp [f.spelling_eq]
  rw [parts] at same
  obtain ⟨z, split, rest⟩ := Text.exists_of_append_eq
    (fun member => (f.open_not_mem_head '(' member).1 rfl) same
  cases z with
  | nil =>
    rw [List.append_nil] at split
    exact g.head_ne_append f some (split ▸ head)
  | cons c z =>
    -- The parenthesis of the one would stand before the parameters of the other.
    obtain ⟨rfl, _⟩ := List.cons.inj rest
    refine (g.open_not_mem_head '(' ?_).1 rfl
    simp [head, split]

/-- No signature starts in what closes another one. -/
theorem spelling_ne_of_gap (g f : Form) {gap more after back : Text} (blanks : g.gap' = gap ++ more) :
    f.signature.spelling ++ after ≠ more ++ '\x7b' :: back := by
  intro same
  obtain ⟨c, letters, start⟩ := List.exists_cons_of_ne_nil f.visibility_ne_nil
  have letter := f.isBlank_visibility c (start ▸ List.mem_cons_self)
  have word := f.isWordChar_visibility c (start ▸ List.mem_cons_self)
  have first : (f.signature.spelling ++ after).head? = Option.some c := by
    simp [Form.signature, Signature.spelling, start]
  rw [same] at first
  cases more with
  | nil =>
    obtain rfl := Option.some.inj first
    exact absurd word (by decide)
  | cons d more =>
    obtain rfl := Option.some.inj first
    cases letter.symm.trans (g.blank' d (blanks ▸ by simp))

/-- Two signatures overlap only where the second one starts in the parameters of the first. -/
theorem overlap_cases (g f : Form) {front rest after : Text} (some : front ≠ [])
    (whole : front ++ (f.signature.spelling ++ after) = g.signature.spelling ++ rest) :
    (∃ more, front = g.signature.spelling ++ more ∧
      rest = more ++ (f.signature.spelling ++ after)) ∨
    ∃ early late, front = g.head ++ '(' :: early ∧ g.parameters = early ++ late ∧
      f.signature.spelling ++ after = late ++ (g.close ++ rest) := by
  rcases g.edge_cases whole with beyond | inside | ⟨more, head, back⟩ | ⟨gap, more, _, blanks, back⟩
  · exact .inl beyond
  · exact .inr inside
  · exact absurd back (g.spelling_ne_of_head f some head)
  · exact absurd back (g.spelling_ne_of_gap f blanks)

theorem spelling_withParameters (f : Form) (parameters : Text) (single : ')' ∉ parameters) :
    (f.withParameters parameters single).signature.spelling =
      f.head ++ '(' :: parameters ++ f.close := spelling_eq _

end Form

/-- A text does not become a signature by another return type in a signature that follows. -/
theorem splitSignature_withType (f : Form) {type : Text} (inhabited : type ≠ [])
    (word : ∀ c ∈ type, Text.isWordChar c = true) {front : Text} (some : front ≠ []) {rest : Text}
    (none : splitSignature (front ++ (f.signature.spelling ++ rest)) = none) :
    splitSignature (front ++ ((f.withType type inhabited word).signature.spelling ++ rest)) =
      Option.none := by
  set f' := f.withType type inhabited word with renamed
  have absent (g : Form) (more : Text) :
      front ++ (f.signature.spelling ++ rest) ≠ g.signature.spelling ++ more := by
    intro same
    rw [same, splitSignature_of_form] at none
    cases none
  by_contra found
  obtain ⟨⟨s, rest'⟩, found⟩ := Option.ne_none_iff_exists'.mp found
  obtain ⟨g, rfl, whole⟩ := splitSignature_eq_some.mp found
  rcases g.overlap_cases f' some whole.symm with ⟨more, rfl, _⟩ | ⟨early, late, rfl, parameters, back⟩
  · exact absent g (more ++ (f.signature.spelling ++ rest)) (by simp)
  · -- The other return type is in the parameters, where any text may stand.
    have word' : ')' ∉ f.signature.start ++ type := f'.close_not_mem_start
    have parts : f'.signature.spelling ++ rest = (f.signature.start ++ type) ++
        (f.signature.tail ++ rest) := by
      simp [renamed, Form.withType, Form.signature, Signature.spelling]
    have close : late ++ (g.close ++ rest') =
        late ++ ')' :: (g.gap' ++ ['\x7b'] ++ rest') := by simp [Form.close]
    rw [parts, close] at back
    obtain ⟨last, rfl, tail⟩ := Text.exists_of_append_eq word' back
    have word'' := f.close_not_mem_start
    have plain : ')' ∉ early ++ (f.signature.start ++ f.signature.returnType) ++ last := by
      have single := g.single
      rw [parameters] at single
      simp only [List.mem_append] at single word'' ⊢
      tauto
    refine absent (g.withParameters _ plain) rest' ?_
    rw [Form.spelling_withParameters, Signature.spelling, List.append_assoc _ f.signature.tail, tail]
    simp [Form.close]

/-! ### Pieces -/

theorem pieces_of_none {c : Char} {rest : Text} (none : splitSignature (c :: rest) = none) :
    pieces (c :: rest) = .char c :: pieces rest := by
  rw [pieces]
  split
  next found => cases none.symm.trans found
  next => rfl

theorem pieces_of_form (f : Form) (rest : Text) :
    pieces (f.signature.spelling ++ rest) = .signature f.signature :: pieces rest := by
  obtain ⟨c, more, split⟩ : ∃ c more, f.signature.spelling ++ rest = c :: more := by
    obtain ⟨c, letters, start⟩ := List.exists_cons_of_ne_nil f.visibility_ne_nil
    exact ⟨c, _, by simp [Signature.spelling, Form.signature, start]; rfl⟩
  have found := splitSignature_of_form f rest
  rw [split] at found ⊢
  rw [pieces]
  split
  next again =>
    cases again.symm.trans found
    rfl
  next none => cases none.symm.trans found

variable {mapping : TypeMapping}

/-- A form after rewriting. -/
theorem exists_form_rewrite (f : Form) (inhabited : mapping.apiName ≠ [])
    (word : ∀ c ∈ mapping.apiName, Text.isWordChar c = true) :
    ∃ f' : Form, f'.signature = f.signature.rewrite mapping ∧
      ∀ {front : Text}, front ≠ [] → ∀ rest,
        splitSignature (front ++ (f.signature.spelling ++ rest)) = none →
        splitSignature (front ++ (f'.signature.spelling ++ rest)) = none := by
  unfold Signature.rewrite
  split
  · exact ⟨f.withType _ inhabited word, rfl, fun some _ => splitSignature_withType f inhabited word some⟩
  · exact ⟨f, rfl, fun _ _ => id⟩

/-- Rewriting does not make a signature of what was none. -/
theorem splitSignature_rewriteSignatures (inhabited : mapping.apiName ≠ [])
    (word : ∀ c ∈ mapping.apiName, Text.isWordChar c = true) {front : Text} (some : front ≠ [])
    {t : Text} (none : splitSignature (front ++ t) = none) :
    splitSignature (front ++ rewriteSignatures mapping t) = Option.none := by
  unfold rewriteSignatures
  fun_induction pieces t generalizing front with
  | case1 => exact none
  | case2 c rest s after found _ ih =>
    obtain ⟨f, rfl, whole⟩ := splitSignature_eq_some.mp found
    obtain ⟨f', renamed, keeps⟩ := exists_form_rewrite f inhabited word
    rw [← whole] at none
    have none' := keeps some after none
    rw [← List.append_assoc] at none'
    have later := ih (List.append_ne_nil_of_left_ne_nil some _) none'
    simpa [Piece.rewrite, Piece.spelling, renamed] using later
  | case3 c rest _ ih =>
    have later := @ih (front ++ [c]) (by simp) (by simpa using none)
    simpa [Piece.rewrite, Piece.spelling] using later

/-- Rewriting a text rewrites its pieces. -/
theorem pieces_rewriteSignatures (inhabited : mapping.apiName ≠ [])
    (word : ∀ c ∈ mapping.apiName, Text.isWordChar c = true) (t : Text) :
    pieces (rewriteSignatures mapping t) = (pieces t).map (·.rewrite mapping) := by
  unfold rewriteSignatures
  fun_induction pieces t with
  | case1 => simp [pieces]
  | case2 c rest s after found _ ih =>
    obtain ⟨f, rfl, whole⟩ := splitSignature_eq_some.mp found
    obtain ⟨f', renamed, _⟩ := exists_form_rewrite f inhabited word
    rw [List.map_cons, List.flatMap_cons, Piece.rewrite, Piece.spelling, ← renamed, pieces_of_form,
      ih]
  | case3 c rest none ih =>
    rw [List.map_cons, List.flatMap_cons, Piece.rewrite, Piece.spelling, List.singleton_append]
    have none' : splitSignature (c :: ((pieces rest).map (·.rewrite mapping)).flatMap (·.spelling)) =
        Option.none :=
      splitSignature_rewriteSignatures inhabited word (List.cons_ne_nil c []) none
    rw [pieces_of_none none', ih]

/-! ### Insertions -/

/-- The types that the signatures in a text return, in their order. -/
def returnTypes (t : Text) : List Text :=
  (pieces t).filterMap fun
    | .char _ => none
    | .signature s => some s.returnType

theorem returnTypes_of_none {c : Char} {rest : Text} (none : splitSignature (c :: rest) = none) :
    returnTypes (c :: rest) = returnTypes rest := by
  rw [returnTypes, pieces_of_none none]
  rfl

theorem returnTypes_of_form (f : Form) (rest : Text) :
    returnTypes (f.signature.spelling ++ rest) = f.signature.returnType :: returnTypes rest := by
  rw [returnTypes, pieces_of_form]
  rfl

/-- A place right after a semicolon, or at the start, perhaps with blanks before it. -/
def Severed (front : Text) : Prop :=
  ∃ before blanks, front = before ++ blanks ∧ (∀ c ∈ blanks, Text.isBlank c = true) ∧
    (before = [] ∨ before.getLast? = some ';')

/-- No signature begins in a line, whatever follows it. -/
def Inert (line : Text) : Prop :=
  ')' ∉ line ∧ ∀ early late, line = early ++ late → late ≠ [] → ∀ rest,
    splitSignature (late ++ rest) = none

theorem Severed.of_append {front more : Text} (severed : Severed (front ++ more)) :
    Severed more := by
  obtain ⟨before, blanks, whole, blank, edge⟩ := severed
  rcases List.append_eq_append_iff.mp whole with ⟨rest, split, rfl⟩ | ⟨rest, split, rfl⟩
  · refine ⟨rest, blanks, rfl, blank, ?_⟩
    rcases edge with rfl | last
    · exact .inl (List.append_eq_nil_iff.mp split.symm).2
    · by_cases none : rest = []
      · exact .inl none
      · rw [split, List.getLast?_append_of_ne_nil _ none] at last
        exact .inr last
  · exact ⟨[], more, rfl, fun c member => blank c (List.mem_append_right _ member), .inl rfl⟩

/-- A severed place is not on the way to the parameters of a signature and not behind them, unless all
of the signature is before it. -/
theorem Severed.edge {front : Text} (severed : Severed front) (some : front ≠ []) (f : Form)
    {back rest : Text} (whole : front ++ back = f.signature.spelling ++ rest) :
    (∃ more, front = f.signature.spelling ++ more ∧ rest = more ++ back) ∨
    ∃ before after, front = f.head ++ '(' :: before ∧ f.parameters = before ++ after ∧
      back = after ++ (f.close ++ rest) := by
  obtain ⟨before, blanks, rfl, blank, edge⟩ := severed
  have closed : Text.isBlank ')' = false ∧ Text.isBlank ';' = false := by decide
  rcases f.edge_cases whole with beyond | inside | ⟨more, head, _⟩ | ⟨gap, more, front, gap', _⟩
  · exact .inl beyond
  · exact .inr inside
  · exfalso
    rcases edge with rfl | last
    · obtain ⟨c, letters, start⟩ := List.exists_cons_of_ne_nil f.visibility_ne_nil
      obtain ⟨d, others, split⟩ := List.exists_cons_of_ne_nil some
      have first : c = d := by
        rw [split, Form.head, start] at head
        simpa using congrArg List.head? head
      have letter := f.isBlank_visibility c (start ▸ List.mem_cons_self)
      have member : c ∈ blanks := by
        rw [List.nil_append] at split
        simp [split, first]
      cases letter.symm.trans (blank c member)
    · refine (f.open_not_mem_head ';' ?_).2.2 rfl
      simp [head, List.mem_of_getLast? last]
  · exfalso
    -- Behind the parameters the last visible sign is a bracket, which no severed place ends with.
    have blank' : ∀ c ∈ gap, Text.isBlank c = true := fun c member =>
      f.blank' c (gap' ▸ List.mem_append_left _ member)
    have last : Text.lastMark? (before ++ blanks) = Option.some ')' := by
      rw [front]
      exact Text.lastMark?_append closed.1 blank' _
    rcases edge with rfl | semicolon
    · rw [List.nil_append, Text.lastMark?_of_blank blank] at last
      cases last
    · obtain ⟨early, rfl⟩ := List.getLast?_eq_some_iff.mp semicolon
      rw [List.append_assoc, List.singleton_append, Text.lastMark?_append closed.2 blank] at last
      cases last

theorem splitSignature_insert {front line back : Text} (severed : Severed front)
    (some : front ≠ []) (inert : Inert line) (none : splitSignature (front ++ back) = none) :
    splitSignature (front ++ (line ++ back)) = Option.none := by
  by_contra found
  obtain ⟨⟨s, rest⟩, found⟩ := Option.ne_none_iff_exists'.mp found
  obtain ⟨g, rfl, whole⟩ := splitSignature_eq_some.mp found
  rcases severed.edge some g whole.symm with ⟨more, rfl, _⟩ | ⟨before, after, rfl, single, back'⟩
  · rw [List.append_assoc, splitSignature_of_form] at none
    cases none
  · obtain ⟨z, rfl, tail⟩ := Text.exists_of_append_eq inert.1 back'
    have plain : ')' ∉ before ++ z := by
      have old := g.single
      rw [single] at old
      simp only [List.mem_append] at old ⊢
      tauto
    have again := splitSignature_of_form (g.withParameters _ plain) rest
    rw [Form.spelling_withParameters] at again
    have same : g.head ++ '(' :: (before ++ z) ++ g.close ++ rest =
        g.head ++ '(' :: before ++ back := by simp [tail, Form.close]
    rw [same, none] at again
    cases again

/-- A line in a severed place changes no return types. -/
theorem returnTypes_insert {front line : Text} (severed : Severed front) (inert : Inert line)
    (back : Text) : returnTypes (front ++ (line ++ back)) = returnTypes (front ++ back) := by
  -- By induction on what is before the line, since a signature is passed over as a whole.
  induction size : front.length using Nat.strong_induction_on generalizing front with
  | _ n ih =>
  cases front with
  | nil =>
    have all (early late : Text) (split : line = early ++ late) :
        returnTypes (late ++ back) = returnTypes back := by
      induction late generalizing early with
      | nil => rfl
      | cons c late ih =>
        have none : splitSignature (c :: (late ++ back)) = none :=
          inert.2 early _ split (by simp) back
        rw [List.cons_append, returnTypes_of_none none]
        exact ih (early ++ [c]) (by simp [split])
    exact all [] line rfl
  | cons c front =>
    cases found : splitSignature (c :: front ++ back) with
    | none =>
      have shorter : front.length < n := by simp [← size]
      have none' : splitSignature (c :: (front ++ (line ++ back))) = Option.none :=
        splitSignature_insert severed (by simp) inert found
      have found : splitSignature (c :: (front ++ back)) = none := found
      rw [List.cons_append, List.cons_append, returnTypes_of_none none', returnTypes_of_none found]
      have severed : Severed ([c] ++ front) := severed
      exact ih _ shorter severed.of_append rfl
    | some parts =>
      obtain ⟨s, rest⟩ := parts
      obtain ⟨f, rfl, whole⟩ := splitSignature_eq_some.mp found
      rcases severed.edge (by simp) f whole.symm with ⟨more, split, rfl⟩ |
        ⟨before, after, split, single, tail⟩
      · have shorter : more.length < n := by
          have inhabited := List.length_pos_iff.mpr (splitSignature_append found).2
          rw [← size, split, List.length_append]
          omega
        rw [split] at severed ⊢
        rw [List.append_assoc, List.append_assoc, returnTypes_of_form, returnTypes_of_form,
          ih _ shorter severed.of_append rfl]
      · have plain : ')' ∉ before ++ (line ++ after) := by
          have old := f.single
          rw [single] at old
          simp only [List.mem_append] at old ⊢
          have := inert.1
          tauto
        have wider : c :: front ++ (line ++ back) =
            (f.withParameters _ plain).signature.spelling ++ rest := by
          rw [Form.spelling_withParameters, split, tail]
          simp
        rw [wider, ← whole, returnTypes_of_form, returnTypes_of_form]
        rfl

end Java

end Layering
