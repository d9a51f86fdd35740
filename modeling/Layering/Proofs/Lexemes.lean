import Layering.Java.Lexing
import Layering.Proofs.Edits

/-!
# Lexemes

What a token of each kind looks like, what is passed over between tokens, and which constructs stay
open up to the end of a source. These are rules about texts alone; `front` follows them
(`front_lexeme`, `front_comment`, `front_unclosed`), and cuts off nothing else (`fronts_front`).
-/

namespace Layering

namespace Text

theorem isDigit_of_isLetter {c : Char} (letter : isLetter c = true) : isDigit c = false := by
  have apart : (letterRanges.all fun a => digitRanges.all fun b =>
      !(Nat.ble b.1 a.2 && Nat.ble a.1 b.2)) = true := by decide +kernel
  rw [Bool.eq_false_iff]
  intro digit
  obtain ⟨a, member, bounds⟩ := exists_range letter
  obtain ⟨b, member', bounds'⟩ := exists_range digit
  have apart := List.all_eq_true.mp (List.all_eq_true.mp apart a member) b member'
  have overlap : Nat.ble b.1 a.2 = true ∧ Nat.ble a.1 b.2 = true :=
    ⟨Nat.ble_eq.mpr (by omega), Nat.ble_eq.mpr (by omega)⟩
  simp [overlap] at apart

end Text

namespace Java

/-! ### The rules -/

/-- A character by itself, or a backslash with the character that it shields. -/
inductive Glyph : Text → Prop
  | plain {c : Char} (other : c ≠ '\\') : Glyph [c]
  | shielded (c : Char) : Glyph ['\\', c]

/-- Three double quotes. -/
def tripleQuote : Text := ['"', '"', '"']

/-- A number goes on from one character to the next. -/
def Continues (marks : Text) (previous next : Char) : Prop :=
  Text.isAlphanumeric next = true ∨ next = '_' ∨ next = '.' ∨
    (next = '+' ∨ next = '-') ∧ previous ∈ marks

/-- The symbols of more than one character. -/
def longSymbols : List Text := ["...", "->", "::"]

/-- A comment starts here. -/
def StartsComment (t : Text) : Prop := ['/', '/'] <+: t ∨ ['/', '*'] <+: t

/-- Neither a blank nor a comment nor a literal starts here. -/
structure Bare (c : Char) (rest : Text) : Prop where
  visible : Text.isBlank c = false
  unquoted : c ≠ '"' ∧ c ≠ '\''
  comment : ¬ StartsComment (c :: rest)

/-- What stands between tokens, with the text ahead of it. -/
inductive Skipped : Text → Text → Prop
  | blank {c : Char} {ahead : Text} (blank : Text.isBlank c = true) : Skipped [c] ahead
  | lineComment {body ahead : Text} (single : '\n' ∉ body)
      (stop : ahead = [] ∨ ahead.head? = some '\n') : Skipped ('/' :: '/' :: body) ahead
  | blockComment {body ahead : Text} (first : ¬ ['*', '/'] <:+: body ++ ['*']) :
      Skipped ('/' :: '*' :: (body ++ ['*', '/'])) ahead

/-- The tokens of each kind, with the text ahead of them, which could not lengthen them. -/
inductive Lexeme : Token.Kind → Text → Text → Prop
  | textBlock {glyphs : List Text} {ahead : Text} (each : ∀ g ∈ glyphs, Glyph g)
      (first : ¬ [['"'], ['"'], ['"']] <:+: glyphs ++ [['"'], ['"']]) :
      Lexeme .string (tripleQuote ++ (glyphs.flatten ++ tripleQuote)) ahead
  | quoted {kind : Token.Kind} {quote : Char} {glyphs : List Text} {ahead : Text}
      (known : kind = .string ∧ quote = '"' ∨ kind = .character ∧ quote = '\'')
      (each : ∀ g ∈ glyphs, Glyph g) (first : [quote] ∉ glyphs) (single : ['\n'] ∉ glyphs)
      (short : ¬ tripleQuote <+: quote :: (glyphs.flatten ++ quote :: ahead)) :
      Lexeme kind (quote :: (glyphs.flatten ++ [quote])) ahead
  | number {c : Char} {tail ahead : Text} (start : startsNumber c (tail ++ ahead) = true)
      (goes : List.IsChain (Continues (exponentMarks c (tail ++ ahead))) (c :: tail))
      (stop : ∀ d, ahead.head? = some d →
        ¬ Continues (exponentMarks c (tail ++ ahead)) (tail.getLast?.getD c) d) :
      Lexeme .number (c :: tail) ahead
  | name {c : Char} {tail ahead : Text} (start : isNameStart c = true)
      (goes : ∀ d ∈ tail, isNamePart d = true)
      (stop : ∀ d, ahead.head? = some d → isNamePart d = false) :
      Lexeme .identifier (c :: tail) ahead
  | symbol {c : Char} {tail ahead : Text} (bare : Bare c (tail ++ ahead))
      (other : startsNumber c (tail ++ ahead) = false ∧ isNameStart c = false)
      (known : c :: tail ∈ longSymbols ∨ tail = [] ∧ ∀ s ∈ longSymbols, ¬ s <+: c :: ahead) :
      Lexeme .symbol (c :: tail) ahead

/-- The constructs that are not closed before the source ends, or before the line does. -/
inductive Unclosed : Problem → Text → Prop
  | comment {rest : Text} (never : ¬ ['*', '/'] <:+: rest) :
      Unclosed .unterminatedComment ('/' :: '*' :: rest)
  | textBlock {glyphs : List Text} {rest : Text} (each : ∀ g ∈ glyphs, Glyph g)
      (never : ¬ [['"'], ['"'], ['"']] <:+: glyphs) (stop : rest = [] ∨ rest = ['\\']) :
      Unclosed .unterminatedTextBlock (tripleQuote ++ (glyphs.flatten ++ rest))
  | literal {quote : Char} {glyphs : List Text} {rest : Text} (known : quote = '"' ∨ quote = '\'')
      (each : ∀ g ∈ glyphs, Glyph g) (never : [quote] ∉ glyphs) (single : ['\n'] ∉ glyphs)
      (stop : rest = [] ∨ rest = ['\\'] ∨ rest.head? = some '\n')
      (short : ¬ tripleQuote <+: quote :: (glyphs.flatten ++ rest)) :
      Unclosed .unterminatedLiteral (quote :: (glyphs.flatten ++ rest))

/-! ### Comments -/

theorem closeComment_cons {c : Char} {t : Text} (other : ¬ ['*', '/'] <+: c :: t) :
    closeComment (c :: t) = (closeComment t).map fun (text, rest) => (c :: text, rest) := by
  rw [closeComment]
  rintro rest rfl rfl
  exact other ⟨rest, rfl⟩

theorem closeComment_of_first {body : Text} (first : ¬ ['*', '/'] <:+: body ++ ['*']) (rest : Text) :
    closeComment (body ++ '*' :: '/' :: rest) = some (body ++ ['*', '/'], rest) := by
  induction body with
  | nil => rfl
  | cons c body ih =>
    rw [List.cons_append, List.infix_cons_iff, not_or] at first
    have other : ¬ ['*', '/'] <+: c :: (body ++ '*' :: '/' :: rest) := by
      rintro ⟨more, same⟩
      obtain ⟨rfl, _⟩ := List.cons.inj same
      -- The character after the star is the next of the body or the star that ends it.
      cases body with
      | nil => simp at same
      | cons d body => 
        obtain ⟨rfl, _⟩ := List.cons.inj (List.cons.inj same).2
        exact first.1 ⟨body ++ ['*'], rfl⟩
    rw [List.cons_append, closeComment_cons other, ih first.2]
    rfl

theorem closeComment_cases (t : Text) :
    (closeComment t = none ∧ ¬ ['*', '/'] <:+: t) ∨
    ∃ body rest, closeComment t = some (body ++ ['*', '/'], rest) ∧
      t = body ++ '*' :: '/' :: rest ∧ ¬ ['*', '/'] <:+: body ++ ['*'] := by
  -- Along the text, by the function's own branches: the comment closes here or further on.
  fun_induction closeComment t with
  | case1 => exact .inl ⟨rfl, by simp⟩
  | case2 rest => exact .inr ⟨[], rest, rfl, rfl, fun inside => by simpa using inside.length_le⟩
  | case3 c t other ih =>
    have here : ¬ ['*', '/'] <+: c :: t := by
      rintro ⟨rest, same⟩
      obtain ⟨rfl, rfl⟩ := List.cons.inj same
      exact other rest rfl rfl
    rcases ih with ⟨none, never⟩ | ⟨body, rest, found, rfl, first⟩
    · refine .inl ⟨by rw [none]; rfl, ?_⟩
      rw [List.infix_cons_iff]
      exact not_or.mpr ⟨here, never⟩
    · refine .inr ⟨c :: body, rest, by rw [found]; rfl, rfl, ?_⟩
      rw [List.cons_append, List.infix_cons_iff]
      refine not_or.mpr ⟨fun start => here (start.trans ?_), first⟩
      exact ⟨'/' :: rest, by simp⟩

/-! ### Literals -/

theorem Glyph.head_ne {g : Text} (glyph : Glyph g) {c : Char} (other : c ≠ '\\') (same : g.head? = some c) :
    g = [c] := by
  cases glyph with
  | plain => simpa using same
  | shielded => exact absurd (Option.some.inj same).symm other

theorem closeQuote_cons {quote c : Char} {t : Text} (other : c ≠ '\\') :
    closeQuote quote (c :: t) = if c = '\n' then none else if c = quote then some ([c], t)
      else (closeQuote quote t).map fun (text, rest) => (c :: text, rest) := by
  rw [closeQuote]
  · rintro rfl
    exact fun _ => other rfl
  · rintro _ _ rfl
    exact fun _ => other rfl

theorem closeQuote_glyph {quote : Char} {g : Text} (glyph : Glyph g) (open_ : g ≠ [quote])
    (single : g ≠ ['\n']) (t : Text) :
    closeQuote quote (g ++ t) = (closeQuote quote t).map fun (text, rest) => (g ++ text, rest) := by
  cases glyph with
  | plain other =>
    rw [List.singleton_append, closeQuote_cons other, if_neg fun same => single (by rw [same]),
      if_neg fun same => open_ (by rw [same])]
    rfl
  | shielded c => exact closeQuote.eq_3 ..

theorem closeQuote_glyphs {quote : Char} {glyphs : List Text} (each : ∀ g ∈ glyphs, Glyph g)
    (first : [quote] ∉ glyphs) (single : ['\n'] ∉ glyphs) (t : Text) :
    closeQuote quote (glyphs.flatten ++ t) =
      (closeQuote quote t).map fun (text, rest) => (glyphs.flatten ++ text, rest) := by
  -- Glyph by glyph, since a shielded quote closes nothing.
  induction glyphs with
  | nil => simp
  | cons g glyphs ih =>
    obtain ⟨glyph, each⟩ := List.forall_mem_cons.mp each
    rw [List.mem_cons, not_or] at first single
    rw [List.flatten_cons, List.append_assoc, closeQuote_glyph glyph (Ne.symm first.1) (Ne.symm single.1),
      ih each first.2 single.2, Option.map_map]
    simp [Function.comp_def]

theorem closeQuote_of_first {quote : Char} (plain : quote ≠ '\\' ∧ quote ≠ '\n')
    {glyphs : List Text} (each : ∀ g ∈ glyphs, Glyph g) (first : [quote] ∉ glyphs)
    (single : ['\n'] ∉ glyphs) (rest : Text) :
    closeQuote quote (glyphs.flatten ++ quote :: rest) = some (glyphs.flatten ++ [quote], rest) := by
  rw [closeQuote_glyphs each first single, closeQuote_cons plain.1, if_neg plain.2, if_pos rfl]
  rfl

theorem closeQuote_of_never {quote : Char} {glyphs : List Text} (each : ∀ g ∈ glyphs, Glyph g)
    (never : [quote] ∉ glyphs) (single : ['\n'] ∉ glyphs) {rest : Text}
    (stop : rest = [] ∨ rest = ['\\'] ∨ rest.head? = some '\n') :
    closeQuote quote (glyphs.flatten ++ rest) = none := by
  have none : closeQuote quote rest = none := by
    rcases stop with rfl | rfl | break_
    · rfl
    · rfl
    · obtain ⟨more, rfl⟩ := List.head?_eq_some_iff.mp break_
      rw [closeQuote_cons (by decide), if_pos rfl]
  rw [closeQuote_glyphs each never single, none]
  rfl

theorem ne_shield {c : Char} {t : Text} (lone : c = '\\' → t = [] → False)
    (shield : ∀ d rest, c = '\\' → t = d :: rest → False) : c ≠ '\\' := by
  rintro rfl
  cases t with
  | nil => exact lone rfl rfl
  | cons d t => exact shield d t rfl rfl

theorem closeQuote_cases (quote : Char) (t : Text) : ∃ glyphs : List Text,
    (∀ g ∈ glyphs, Glyph g) ∧ [quote] ∉ glyphs ∧ ['\n'] ∉ glyphs ∧
    ((∃ rest, closeQuote quote t = none ∧ t = glyphs.flatten ++ rest ∧
        (rest = [] ∨ rest = ['\\'] ∨ rest.head? = some '\n')) ∨
      ∃ rest, closeQuote quote t = some (glyphs.flatten ++ [quote], rest) ∧
        t = glyphs.flatten ++ quote :: rest) := by
  -- By the function's own branches: the text ends, a shielded letter passes, a break or the
  -- quote stops, and any other letter passes.
  fun_induction closeQuote quote t with
  | case1 => exact ⟨[], by simp, by simp, by simp, .inl ⟨[], rfl, rfl, .inl rfl⟩⟩
  | case2 => exact ⟨[], by simp, by simp, by simp, .inl ⟨['\\'], rfl, rfl, .inr (.inl rfl)⟩⟩
  | case3 c t ih =>
    obtain ⟨glyphs, each, first, single, ends⟩ := ih
    refine ⟨['\\', c] :: glyphs, List.forall_mem_cons.mpr ⟨.shielded c, each⟩, by simp [first],
      by simp [single], ?_⟩
    rcases ends with ⟨rest, none, rfl, stop⟩ | ⟨rest, found, rfl⟩
    · exact .inl ⟨rest, by rw [none]; rfl, rfl, stop⟩
    · exact .inr ⟨rest, by rw [found]; rfl, rfl⟩
  | case4 t =>
    exact ⟨[], by simp, by simp, by simp, .inl ⟨'\n' :: t, rfl, rfl, .inr (.inr rfl)⟩⟩
  | case5 t => exact ⟨[], by simp, by simp, by simp, .inr ⟨t, rfl, rfl⟩⟩
  | case6 c t lone shield break_ other ih =>
    obtain ⟨glyphs, each, first, single, ends⟩ := ih
    have plain := ne_shield lone shield
    refine ⟨[c] :: glyphs, List.forall_mem_cons.mpr ⟨.plain plain, each⟩, by simp [first, Ne.symm other],
      by simp [single, Ne.symm break_], ?_⟩
    rcases ends with ⟨rest, none, rfl, stop⟩ | ⟨rest, found, rfl⟩
    · exact .inl ⟨rest, by rw [none]; rfl, rfl, stop⟩
    · exact .inr ⟨rest, by rw [found]; rfl, rfl⟩

/-! ### Text blocks -/

theorem closeTextBlock_cons {c : Char} {t : Text} (other : c ≠ '\\') (open_ : ¬ tripleQuote <+: c :: t) :
    closeTextBlock (c :: t) = (closeTextBlock t).map fun (text, rest) => (c :: text, rest) := by
  rw [closeTextBlock]
  · rintro rfl
    exact fun _ => other rfl
  · rintro _ _ rfl
    exact fun _ => other rfl
  · rintro rest rfl rfl
    exact open_ ⟨rest, rfl⟩

/-- Quotes at the start of a text are glyphs of their own, as far as the glyphs reach. -/
theorem glyphs_of_quotes {glyphs : List Text} (each : ∀ g ∈ glyphs, Glyph g) {n : Nat} {rest : Text}
    (start : List.replicate n '"' <+: glyphs.flatten ++ rest) :
    List.replicate n ['"'] <+: glyphs ∨
      ∃ m < n, glyphs = List.replicate m ['"'] ∧ List.replicate (n - m) '"' <+: rest := by
  -- Along the glyphs: a quote that is begun by a glyph is the whole of it.
  induction glyphs generalizing n with
  | nil =>
    cases n with
    | zero => exact .inl List.prefix_rfl
    | succ n => exact .inr ⟨0, by omega, rfl, start⟩
  | cons g glyphs ih =>
    obtain ⟨glyph, others⟩ := List.forall_mem_cons.mp each
    cases n with
    | zero => exact .inl (List.nil_prefix ..)
    | succ n =>
      rw [List.replicate_succ, List.flatten_cons, List.append_assoc] at start
      have quote : g = ['"'] := by
        refine glyph.head_ne (by decide) ?_
        cases glyph with
        | plain => exact congrArg some (List.cons_prefix_cons.mp start).1.symm
        | shielded => exact congrArg some (List.cons_prefix_cons.mp start).1.symm
      rw [quote, List.singleton_append, List.cons_prefix_cons] at start
      rcases ih others start.2 with inside | ⟨m, less, same, beyond⟩
      · left
        rw [List.replicate_succ, quote, List.cons_prefix_cons]
        exact ⟨rfl, inside⟩
      · right
        refine ⟨m + 1, by omega, by rw [same, quote, List.replicate_succ], ?_⟩
        rwa [Nat.add_sub_add_right]

theorem closeTextBlock_glyph {g t : Text} (glyph : Glyph g) (open_ : ¬ tripleQuote <+: g ++ t) :
    closeTextBlock (g ++ t) = (closeTextBlock t).map fun (text, rest) => (g ++ text, rest) := by
  cases glyph with
  | plain other => exact closeTextBlock_cons other open_
  | shielded c => exact closeTextBlock.eq_3 ..

theorem closeTextBlock_glyphs {glyphs : List Text} (each : ∀ g ∈ glyphs, Glyph g) {t : Text}
    (open_ : ∀ early late, glyphs = early ++ late → late ≠ [] → ¬ tripleQuote <+: late.flatten ++ t) :
    closeTextBlock (glyphs.flatten ++ t) =
      (closeTextBlock t).map fun (text, rest) => (glyphs.flatten ++ text, rest) := by
  induction glyphs with
  | nil => simp
  | cons g glyphs ih =>
    obtain ⟨glyph, others⟩ := List.forall_mem_cons.mp each
    have here := open_ [] (g :: glyphs) rfl (by simp)
    have later := ih others fun early late split => open_ (g :: early) late (by rw [split]; rfl)
    rw [List.flatten_cons, List.append_assoc] at here ⊢
    rw [closeTextBlock_glyph glyph here, later, Option.map_map]
    simp [Function.comp_def]

theorem closeTextBlock_of_first {glyphs : List Text} (each : ∀ g ∈ glyphs, Glyph g)
    (first : ¬ [['"'], ['"'], ['"']] <:+: glyphs ++ [['"'], ['"']]) (rest : Text) :
    closeTextBlock (glyphs.flatten ++ (tripleQuote ++ rest)) =
      some (glyphs.flatten ++ tripleQuote, rest) := by
  rw [closeTextBlock_glyphs each ?_]
  · rfl
  intro early late split inner start
  have others : ∀ g ∈ late, Glyph g := fun g member =>
    each g (split ▸ List.mem_append_right early member)
  rw [split, List.append_assoc] at first
  refine first (List.IsInfix.trans (List.IsPrefix.isInfix ?_) (List.suffix_append ..).isInfix)
  -- Fewer than three quotes at the end of the glyphs, but at least one, make three with two more.
  rcases glyphs_of_quotes (n := 3) others start with inside | ⟨m, less, rfl, _⟩
  · exact inside.trans (List.prefix_append ..)
  · have positive : 0 < m := Nat.pos_of_ne_zero fun none => inner (by rw [none]; rfl)
    interval_cases m <;> decide

theorem closeTextBlock_of_never {glyphs : List Text} (each : ∀ g ∈ glyphs, Glyph g)
    (never : ¬ [['"'], ['"'], ['"']] <:+: glyphs) {rest : Text} (stop : rest = [] ∨ rest = ['\\']) :
    closeTextBlock (glyphs.flatten ++ rest) = none := by
  have none : closeTextBlock rest = none := by rcases stop with rfl | rfl <;> rfl
  rw [closeTextBlock_glyphs each ?_, none]
  · rfl
  intro early late split _ start
  have others : ∀ g ∈ late, Glyph g := fun g member =>
    each g (split ▸ List.mem_append_right early member)
  rcases glyphs_of_quotes (n := 3) others start with inside | ⟨m, less, _, beyond⟩
  · exact never (split ▸ inside.isInfix.trans (List.suffix_append ..).isInfix)
  · obtain ⟨k, count⟩ := Nat.exists_eq_add_of_lt less
    rw [show 3 - m = k + 1 by omega, List.replicate_succ] at beyond
    rcases stop with rfl | rfl
    · simp at beyond
    · simp at beyond

/-- The glyphs of a text up to three quotes, or up to its end. -/
def TextBlockScan (t : Text) : Prop := ∃ glyphs : List Text, (∀ g ∈ glyphs, Glyph g) ∧
  ((∃ rest, closeTextBlock t = none ∧ t = glyphs.flatten ++ rest ∧
      ¬ [['"'], ['"'], ['"']] <:+: glyphs ∧ (rest = [] ∨ rest = ['\\'])) ∨
    ∃ rest, closeTextBlock t = some (glyphs.flatten ++ tripleQuote, rest) ∧
      t = glyphs.flatten ++ (tripleQuote ++ rest) ∧
      ¬ [['"'], ['"'], ['"']] <:+: glyphs ++ [['"'], ['"']])

theorem never_cons {g t : Text} {glyphs : List Text} (start : glyphs.flatten <+: t)
    (open_ : ¬ tripleQuote <+: g ++ t) (never : ¬ [['"'], ['"'], ['"']] <:+: glyphs) :
    ¬ [['"'], ['"'], ['"']] <:+: g :: glyphs := by
  rw [List.infix_cons_iff, not_or]
  refine ⟨fun ⟨more, same⟩ => open_ ?_, never⟩
  have flat := congrArg List.flatten same
  rw [List.flatten_append, List.flatten_cons] at flat
  have first : tripleQuote <+: g ++ glyphs.flatten := ⟨more.flatten, flat⟩
  exact first.trans ((List.prefix_append_right_inj g).mpr start)

theorem TextBlockScan.cons {g t : Text} (scan : TextBlockScan t) (glyph : Glyph g)
    (open_ : ¬ tripleQuote <+: g ++ t) : TextBlockScan (g ++ t) := by
  obtain ⟨glyphs, each, ends⟩ := scan
  have next := closeTextBlock_glyph glyph open_
  refine ⟨g :: glyphs, List.forall_mem_cons.mpr ⟨glyph, each⟩, ?_⟩
  rcases ends with ⟨rest, none, rfl, never, stop⟩ | ⟨rest, found, rfl, first⟩
  · left
    refine ⟨rest, by rw [next, none]; rfl, by simp, ?_, stop⟩
    exact never_cons (List.prefix_append ..) open_ never
  · right
    refine ⟨rest, by rw [next, found]; simp, by simp, ?_⟩
    refine never_cons ?_ open_ first
    exact ⟨'"' :: rest, by simp [tripleQuote]⟩

theorem textBlockScan (t : Text) : TextBlockScan t := by
  -- By the function's own branches, as for a quote. A break passes here, and one quote alone
  -- does too.
  induction t using closeTextBlock.induct with
  | case1 => exact ⟨[], by simp, .inl ⟨[], rfl, rfl, by simp, .inl rfl⟩⟩
  | case2 => exact ⟨[], by simp, .inl ⟨['\\'], rfl, rfl, by simp, .inr rfl⟩⟩
  | case3 c t ih =>
    refine ih.cons (.shielded c) fun ⟨more, same⟩ => ?_
    exact absurd (List.cons.inj same).1 (by decide)
  | case4 rest => exact ⟨[], by simp, .inr ⟨rest, rfl, rfl, by decide⟩⟩
  | case5 c t lone shield open_ ih =>
    have plain := ne_shield lone shield
    refine ih.cons (.plain plain) ?_
    rintro ⟨rest, same⟩
    obtain ⟨rfl, rfl⟩ := List.cons.inj same
    exact open_ rest rfl rfl

/-! ### Numbers and symbols -/

theorem continues_iff {marks : Text} {previous next : Char} :
    (Text.isAlphanumeric next || next = '_' || next = '.'
      || ((next = '+' || next = '-') && marks.contains previous)) = true ↔
    Continues marks previous next := by
  simp [Continues, or_assoc]

theorem splitNumber_of_chain {marks : Text} {c : Char} {tail ahead : Text}
    (goes : List.IsChain (Continues marks) (c :: tail))
    (stop : ∀ d, ahead.head? = some d → ¬ Continues marks (tail.getLast?.getD c) d) :
    splitNumber marks c (tail ++ ahead) = (tail, ahead) := by
  -- Along the tail: each letter continues the number after the one before it.
  induction tail generalizing c with
  | nil =>
    cases ahead with
    | nil => rfl
    | cons d ahead =>
      have ends := stop d rfl
      rw [← continues_iff] at ends
      simp only [List.nil_append, splitNumber]
      exact if_neg ends
  | cons d tail ih =>
    obtain ⟨first, goes⟩ := List.isChain_cons_cons.mp goes
    rw [List.getLast?_cons] at stop
    simp only [List.cons_append, splitNumber]
    rw [if_pos (continues_iff.mpr first), ih goes stop]

theorem splitNumber_chain (marks : Text) (c : Char) (t : Text) :
    List.IsChain (Continues marks) (c :: (splitNumber marks c t).1) ∧
      ∀ d, (splitNumber marks c t).2.head? = some d →
        ¬ Continues marks ((splitNumber marks c t).1.getLast?.getD c) d := by
  induction t generalizing c with
  | nil => exact ⟨List.isChain_singleton c, by simp [splitNumber]⟩
  | cons d t ih =>
    by_cases goes : Continues marks c d
    · simp only [splitNumber, if_pos (continues_iff.mpr goes)]
      refine ⟨List.isChain_cons_cons.mpr ⟨goes, (ih d).1⟩, fun e next => ?_⟩
      rw [List.getLast?_cons]
      exact (ih d).2 e next
    · simp only [splitNumber, if_neg (fun more => goes (continues_iff.mp more))]
      refine ⟨List.isChain_singleton c, fun e next => ?_⟩
      obtain rfl := Option.some.inj next
      exact goes

theorem splitSymbol_of_known {c : Char} {tail ahead : Text}
    (known : c :: tail ∈ longSymbols ∨ tail = [] ∧ ∀ s ∈ longSymbols, ¬ s <+: c :: ahead) :
    splitSymbol c (tail ++ ahead) = (c :: tail, ahead) := by
  rcases known with long | ⟨rfl, short⟩
  · simp only [longSymbols, List.mem_cons, List.not_mem_nil, or_false] at long
    rcases long with same | same | same <;> cases same <;> rfl
  · rw [List.nil_append]
    unfold splitSymbol
    split
    next rest => exact absurd ⟨rest, rfl⟩ (short "...".toList (by simp [longSymbols]))
    next rest => exact absurd ⟨rest, rfl⟩ (short "->".toList (by simp [longSymbols]))
    next rest => exact absurd ⟨rest, rfl⟩ (short "::".toList (by simp [longSymbols]))
    next => rfl

theorem splitSymbol_cases (c : Char) (rest : Text) : ∃ tail ahead,
    splitSymbol c rest = (c :: tail, ahead) ∧ tail ++ ahead = rest ∧
      (c :: tail ∈ longSymbols ∨ tail = [] ∧ ∀ s ∈ longSymbols, ¬ s <+: c :: ahead) := by
  unfold splitSymbol
  split
  next rest => exact ⟨['.', '.'], rest, rfl, rfl, .inl (by simp [longSymbols])⟩
  next rest => exact ⟨['>'], rest, rfl, rfl, .inl (by simp [longSymbols])⟩
  next rest => exact ⟨[':'], rest, rfl, rfl, .inl (by simp [longSymbols])⟩
  next dots arrow colons =>
    refine ⟨[], rest, rfl, rfl, .inr ⟨rfl, fun s member start => ?_⟩⟩
    simp only [longSymbols, List.mem_cons, List.not_mem_nil, or_false] at member
    obtain ⟨more, same⟩ := start
    rcases member with rfl | rfl | rfl
    · obtain ⟨rfl, rfl⟩ := List.cons.inj same
      exact dots more rfl rfl
    · obtain ⟨rfl, rfl⟩ := List.cons.inj same
      exact arrow more rfl rfl
    · obtain ⟨rfl, rfl⟩ := List.cons.inj same
      exact colons more rfl rfl

/-! ### The first piece -/

theorem bare_of_wordChar {c : Char} (word : Text.isWordChar c = true) (rest : Text) :
    Bare c rest := by
  have other (d : Char) (mark : Text.isWordChar d = false) : c ≠ d := by
    rintro rfl
    cases word.symm.trans mark
  have marks : Text.isWordChar '"' = false ∧ Text.isWordChar '\'' = false ∧
      Text.isWordChar '/' = false := by decide
  refine ⟨?_, ⟨other _ marks.1, other _ marks.2.1⟩, ?_⟩
  · rw [Bool.eq_false_iff]
    intro blank
    cases word.symm.trans (Text.isWordChar_of_isBlank blank)
  · rintro (⟨_, same⟩ | ⟨_, same⟩)
    · exact other _ marks.2.2 (List.cons.inj same).1.symm
    · exact other _ marks.2.2 (List.cons.inj same).1.symm

theorem bare_of_mark {c : Char} (mark : c = '.' ∨ c = '$') (rest : Text) : Bare c rest := by
  rcases mark with rfl | rfl
  · exact ⟨by decide, by decide, by rintro (⟨_, same⟩ | ⟨_, same⟩) <;> simp at same⟩
  · exact ⟨by decide, by decide, by rintro (⟨_, same⟩ | ⟨_, same⟩) <;> simp at same⟩

theorem bare_of_startsNumber {c : Char} {rest : Text} (start : startsNumber c rest = true) :
    Bare c rest := by
  rcases Bool.or_eq_true_iff.mp start with digit | point
  · exact bare_of_wordChar (Text.isWordChar_of_isAlphanumeric (Text.isAlphanumeric_of_isDigit digit)) rest
  · exact bare_of_mark (.inl (of_decide_eq_true (Bool.and_eq_true_iff.mp point).1)) rest

theorem bare_of_isNameStart {c : Char} (start : isNameStart c = true) (rest : Text) :
    Bare c rest := by
  simp only [isNameStart, Bool.or_eq_true, decide_eq_true_eq] at start
  rcases start with (letter | rfl) | rfl
  · exact bare_of_wordChar (Text.isWordChar_of_isAlphanumeric (Text.isAlphanumeric_of_isLetter letter)) rest
  · exact bare_of_wordChar (by simp [Text.isWordChar]) rest
  · exact bare_of_mark (.inr rfl) rest

theorem startsNumber_of_isNameStart {c : Char} (start : isNameStart c = true) (rest : Text) :
    startsNumber c rest = false := by
  simp only [isNameStart, Bool.or_eq_true, decide_eq_true_eq] at start
  rcases start with (letter | rfl) | rfl
  · have point : c ≠ '.' := by
      rintro rfl
      exact absurd letter (by decide)
    simp [startsNumber, Text.isDigit_of_isLetter letter, point]
  · have digit : Text.isDigit '_' = false := by decide
    simp [startsNumber, digit]
  · have digit : Text.isDigit '$' = false := by decide
    simp [startsNumber, digit]

theorem front_bare {c : Char} {rest : Text} (bare : Bare c rest) : front c rest =
    if startsNumber c rest then
      .ok ⟨some .number, c :: (splitNumber (exponentMarks c rest) c rest).1,
        (splitNumber (exponentMarks c rest) c rest).2⟩
    else if isNameStart c then
      .ok ⟨some .identifier, c :: rest.takeWhile isNamePart, rest.dropWhile isNamePart⟩
    else .ok ⟨some .symbol, (splitSymbol c rest).1, (splitSymbol c rest).2⟩ := by
  unfold front
  rw [if_neg (by simp [bare.visible])]
  split
  next rest => exact absurd (.inl ⟨rest, rfl⟩) bare.comment
  next rest => exact absurd (.inr ⟨rest, rfl⟩) bare.comment
  next => exact absurd rfl bare.unquoted.1
  next => exact absurd rfl bare.unquoted.1
  next => exact absurd rfl bare.unquoted.2
  next => rfl

theorem front_textBlock (rest : Text) : front '"' ('"' :: '"' :: rest) =
    match closeTextBlock rest with
    | some (text, ahead) => .ok ⟨some .string, tripleQuote ++ text, ahead⟩
    | none => .error .unterminatedTextBlock := by
  have visible : Text.isBlank '"' = false := by decide
  unfold front
  rw [if_neg (by simp [visible])]
  cases closed : closeTextBlock rest with
  | none =>
    simp only [closed]
    rfl
  | some =>
    simp only [closed]
    rfl

theorem front_blockComment (rest : Text) : front '/' ('*' :: rest) =
    match closeComment rest with
    | some (text, ahead) => .ok ⟨none, '/' :: '*' :: text, ahead⟩
    | none => .error .unterminatedComment := by
  have visible : Text.isBlank '/' = false := by decide
  unfold front
  rw [if_neg (by simp [visible])]
  rfl

theorem front_lineComment (rest : Text) : front '/' ('/' :: rest) =
    .ok ⟨none, '/' :: '/' :: rest.takeWhile (· ≠ '\n'), rest.dropWhile (· ≠ '\n')⟩ := by
  have visible : Text.isBlank '/' = false := by decide
  unfold front
  rw [if_neg (by simp [visible])]
  rfl

theorem front_quote {kind : Token.Kind} {quote : Char} {rest : Text}
    (known : kind = .string ∧ quote = '"' ∨ kind = .character ∧ quote = '\'')
    (short : ¬ tripleQuote <+: quote :: rest) : front quote rest =
      match closeQuote quote rest with
      | some (text, ahead) => .ok ⟨some kind, quote :: text, ahead⟩
      | none => .error .unterminatedLiteral := by
  have visible : Text.isBlank '"' = false ∧ Text.isBlank '\'' = false := by decide
  unfold front
  rcases known with ⟨rfl, rfl⟩ | ⟨rfl, rfl⟩
  · -- The same letter could begin a text block, which is asked for first.
    rw [if_neg (by simp [visible.1])]
    split
    next => contradiction
    next => contradiction
    next more _ => exact absurd ⟨more, rfl⟩ short
    next =>
      cases closed : closeQuote '"' _ with
      | none => rfl
      | some => rfl
    next => contradiction
    next => contradiction
  · rw [if_neg (by simp [visible.2])]
    cases closed : closeQuote '\'' rest with
    | none =>
      simp only [closed]
      rfl
    | some =>
      simp only [closed]
      rfl

/-- A token that stands at the front of a text is cut off. -/
theorem front_lexeme {kind : Token.Kind} {text ahead : Text} (lexeme : Lexeme kind text ahead) :
    ∃ c tail, text = c :: tail ∧ front c (tail ++ ahead) = .ok ⟨some kind, text, ahead⟩ := by
  -- By the kind of lexeme, in the order in which the first letter is asked about.
  cases lexeme with
  | @textBlock glyphs _ each first =>
    refine ⟨'"', _, rfl, ?_⟩
    have closed := closeTextBlock_of_first each first ahead
    rw [← List.append_assoc] at closed
    change front '"' ('"' :: '"' :: (glyphs.flatten ++ tripleQuote ++ ahead)) = _
    rw [front_textBlock, closed]
  | quoted known each first single short =>
    refine ⟨_, _, rfl, ?_⟩
    rw [List.append_assoc, List.singleton_append]
    rw [front_quote known short, closeQuote_of_first ?_ each first single ahead]
    rcases known with ⟨_, rfl⟩ | ⟨_, rfl⟩ <;> decide
  | number start goes stop =>
    refine ⟨_, _, rfl, ?_⟩
    rw [front_bare (bare_of_startsNumber start), if_pos start, splitNumber_of_chain goes stop]
  | @name c tail _ start goes stop =>
    refine ⟨c, tail, rfl, ?_⟩
    have other := startsNumber_of_isNameStart start (tail ++ ahead)
    have stop' : ahead.takeWhile isNamePart = [] ∧ ahead.dropWhile isNamePart = ahead := by
      cases ahead with
      | nil => exact ⟨rfl, rfl⟩
      | cons d ahead => simp [stop d rfl]
    rw [front_bare (bare_of_isNameStart start _), if_neg (by simp [other]), if_pos start,
      List.takeWhile_append_of_pos goes, List.dropWhile_append_of_pos goes, stop'.1, stop'.2,
      List.append_nil]
  | symbol bare other known =>
    refine ⟨_, _, rfl, ?_⟩
    rw [front_bare bare, if_neg (by simp [other.1]), if_neg (by simp [other.2]),
      splitSymbol_of_known known]

/-- A comment that stands at the front of a text is cut off. -/
theorem front_comment {text ahead : Text} (skipped : Skipped text ahead) :
    (∃ c, text = [c] ∧ Text.isBlank c = true) ∨
      ∃ c tail, text = c :: tail ∧ front c (tail ++ ahead) = .ok ⟨none, text, ahead⟩ := by
  cases skipped with
  | @blank c _ blank => exact .inl ⟨c, rfl, blank⟩
  | @lineComment body _ single stop =>
    refine .inr ⟨'/', '/' :: body, rfl, ?_⟩
    have inside : ∀ c ∈ body, decide (c ≠ '\n') = true := by
      intro c member
      rw [decide_eq_true_eq]
      rintro rfl
      exact single member
    have stop' : ahead.takeWhile (· ≠ '\n') = [] ∧ ahead.dropWhile (· ≠ '\n') = ahead := by
      rcases stop with rfl | break_
      · exact ⟨rfl, rfl⟩
      · obtain ⟨more, rfl⟩ := List.head?_eq_some_iff.mp break_
        simp
    rw [List.cons_append, front_lineComment, List.takeWhile_append_of_pos inside, List.dropWhile_append_of_pos inside, stop'.1, stop'.2,
      List.append_nil]
  | @blockComment body _ first =>
    refine .inr ⟨'/', _, rfl, ?_⟩
    rw [List.cons_append, List.append_assoc, List.cons_append, List.cons_append, List.nil_append,
      front_blockComment, closeComment_of_first first ahead]

/-- A construct that is not closed is an error. -/
theorem front_unclosed {problem : Problem} {t : Text} (unclosed : Unclosed problem t) :
    ∃ c rest, t = c :: rest ∧ front c rest = .error problem := by
  cases unclosed with
  | @comment rest never =>
    refine ⟨_, _, rfl, ?_⟩
    have open_ : closeComment rest = none := by
      rcases closeComment_cases rest with ⟨none, _⟩ | ⟨body, ahead, _, rfl, _⟩
      · exact none
      · exact absurd ⟨body, ahead, by simp⟩ never
    rw [front_blockComment, open_]
  | @textBlock glyphs rest each never stop =>
    refine ⟨'"', '"' :: '"' :: (glyphs.flatten ++ rest), rfl, ?_⟩
    rw [front_textBlock, closeTextBlock_of_never each never stop]
  | literal known each never single stop short =>
    refine ⟨_, _, rfl, ?_⟩
    have open_ := closeQuote_of_never each never single stop
    rcases known with rfl | rfl
    · rw [front_quote (.inl ⟨rfl, rfl⟩) short, open_]
    · rw [front_quote (.inr ⟨rfl, rfl⟩) short, open_]

/-- What stands at the front of a text, and what is cut off there: blanks are taken together. -/
inductive Fronts (t : Text) : Except Problem Front → Prop
  | unclosed {problem : Problem} (unclosed : Unclosed problem t) : Fronts t (.error problem)
  | blanks {text ahead : Text} (blank : ∀ c ∈ text, Text.isBlank c = true) (split : text ++ ahead = t) :
      Fronts t (.ok ⟨none, text, ahead⟩)
  | comment {text ahead : Text} (skipped : Skipped text ahead) (split : text ++ ahead = t) :
      Fronts t (.ok ⟨none, text, ahead⟩)
  | lexeme {kind : Token.Kind} {text ahead : Text} (lexeme : Lexeme kind text ahead)
      (split : text ++ ahead = t) : Fronts t (.ok ⟨some kind, text, ahead⟩)

theorem fronts_quoted {kind : Token.Kind} {quote : Char} {rest : Text}
    (known : kind = .string ∧ quote = '"' ∨ kind = .character ∧ quote = '\'')
    (short : ¬ tripleQuote <+: quote :: rest) : Fronts (quote :: rest) (front quote rest) := by
  obtain ⟨glyphs, each, first, single, ends⟩ := closeQuote_cases quote rest
  rcases ends with ⟨stop, none, rfl, stops⟩ | ⟨ahead, found, rfl⟩
  · have quote' : quote = '"' ∨ quote = '\'' := known.imp And.right And.right
    have unclosed := Unclosed.literal quote' each first single stops short
    obtain ⟨c, rest, same, error⟩ := front_unclosed unclosed
    cases same
    exact error ▸ .unclosed unclosed
  · have lexeme : Lexeme kind (quote :: (glyphs.flatten ++ [quote])) ahead :=
      .quoted known each first single short
    rw [front_quote known short, found]
    exact .lexeme lexeme (by simp)

theorem fronts_bare {c : Char} {rest : Text} (bare : Bare c rest) :
    Fronts (c :: rest) (front c rest) := by
  rw [front_bare bare]
  -- A number, a name or a symbol, in this order.
  split
  next start =>
    have parts := splitNumber_append (exponentMarks c rest) c rest
    obtain ⟨goes, stop⟩ := splitNumber_chain (exponentMarks c rest) c rest
    refine .lexeme (.number ?_ ?_ ?_) (by rw [List.cons_append, parts])
    · rwa [parts]
    · rwa [parts]
    · rwa [parts]
  next number =>
    have number : startsNumber c rest = false := by simpa using number
    split
    next start =>
      refine .lexeme (.name start (fun d => List.mem_takeWhile_imp) fun d next => ?_)
        (by rw [List.cons_append, List.takeWhile_append_dropWhile])
      have edge := List.head?_dropWhile_not isNamePart rest
      rw [next] at edge
      simpa using edge
    next name =>
      have name : isNameStart c = false := by simpa using name
      obtain ⟨tail, ahead, found, split, known⟩ := splitSymbol_cases c rest
      rw [found]
      subst split
      exact .lexeme (.symbol bare ⟨number, name⟩ known) rfl

/-- What is cut off a text is what stands at its front. -/
theorem fronts_front (c : Char) (rest : Text) : Fronts (c :: rest) (front c rest) := by
  by_cases blank : Text.isBlank c = true
  · unfold front
    rw [if_pos blank]
    refine .blanks (List.forall_mem_cons.mpr ⟨blank, fun d => List.mem_takeWhile_imp⟩) ?_
    rw [List.cons_append, List.takeWhile_append_dropWhile]
  have blank : Text.isBlank c = false := by simpa using blank
  -- In the order in which the lexer looks: comments, text blocks, quotes, and the rest.
  by_cases comment : StartsComment (c :: rest)
  · rcases comment with ⟨rest', same⟩ | ⟨rest', same⟩
    · change '/' :: '/' :: rest' = c :: rest at same
      cases same
      have skipped : Skipped ('/' :: '/' :: rest'.takeWhile (· ≠ '\n'))
          (rest'.dropWhile (· ≠ '\n')) := by
        refine .lineComment (fun member => ?_) ?_
        · simpa using List.mem_takeWhile_imp member
        · have edge := List.head?_dropWhile_not (· ≠ '\n') rest'
          cases ahead : rest'.dropWhile (· ≠ '\n') with
          | nil => exact .inl rfl
          | cons d more =>
            rw [ahead] at edge
            exact .inr (congrArg some (by simpa using edge))
      rw [front_lineComment]
      exact .comment skipped (by simp [List.takeWhile_append_dropWhile])
    · change '/' :: '*' :: rest' = c :: rest at same
      cases same
      rcases closeComment_cases rest' with ⟨none, never⟩ | ⟨body, ahead, found, rfl, first⟩
      · obtain ⟨c, rest, same, error⟩ := front_unclosed (.comment never)
        cases same
        exact error ▸ .unclosed (.comment never)
      · rw [front_blockComment, found]
        exact .comment (.blockComment first) (by simp)
  by_cases block : tripleQuote <+: c :: rest
  · obtain ⟨rest', same⟩ := block
    change '"' :: '"' :: '"' :: rest' = c :: rest at same
    cases same
    obtain ⟨glyphs, each, ends⟩ := textBlockScan rest'
    rcases ends with ⟨stop, none, rfl, never, stops⟩ | ⟨ahead, found, rfl, first⟩
    · have unclosed := Unclosed.textBlock each never stops
      obtain ⟨c, rest, same, error⟩ := front_unclosed unclosed
      cases same
      exact error ▸ .unclosed unclosed
    · rw [front_textBlock, found]
      exact .lexeme (.textBlock each first) (by simp [tripleQuote])
  by_cases quote : c = '"'
  · subst quote
    exact fronts_quoted (.inl ⟨rfl, rfl⟩) block
  by_cases quote' : c = '\''
  · subst quote'
    exact fronts_quoted (.inr ⟨rfl, rfl⟩) block
  · exact fronts_bare ⟨blank, ⟨quote, quote'⟩, comment⟩

end Java

end Layering
