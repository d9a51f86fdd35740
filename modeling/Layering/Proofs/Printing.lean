import Layering.Proofs.Layouts
import Layering.Proofs.Literals

/-!
# Printing

The texts of the tokens of a source, joined by blanks, are a source with the same tokens. A token
asks of the text ahead only that it does not lengthen the token, and a blank lengthens none
(`Lexeme.before_blank`). What an outline says beside its lines depends on the tokens alone, and so printing
keeps it.
-/

namespace Layering.Java

/-- The texts of some tokens, with a blank between each two. -/
def printed (tokens : List Token) : Text := [' '].intercalate (tokens.map (·.text))

/-! ### Tokens before a blank -/

/-- The text is empty or starts with a blank. -/
def StartsApart (t : Text) : Prop := ∀ c, t.head? = some c → c = ' '

theorem StartsApart.nil : StartsApart [] := nofun

theorem StartsApart.blank (t : Text) : StartsApart (' ' :: t) := by
  intro c head
  exact (Option.some.inj head).symm

theorem StartsApart.not_second {t : Text} (apart : StartsApart t) {c d : Char} (visible : d ≠ ' ')
    {more : Text} : ¬ c :: d :: more <+: c :: t := by
  rintro ⟨rest, same⟩
  have tail : d :: (more ++ rest) = t := (List.cons.inj same).2
  exact visible (apart d (by rw [← tail]; rfl))

theorem startsNumber_congr {c : Char} {t t' : Text} (head : t.head? = t'.head?) :
    startsNumber c t = startsNumber c t' := by
  rw [startsNumber, startsNumber, head]

theorem exponentMarks_congr {c : Char} {t t' : Text} (head : t.head? = t'.head?) :
    exponentMarks c t = exponentMarks c t' := by
  rw [exponentMarks, exponentMarks, head]

theorem head?_append_cons {d : Char} {tail : Text} (t t' : Text) :
    (d :: tail ++ t).head? = (d :: tail ++ t').head? := rfl

/-- A number goes on with any letter or digit. -/
theorem continues_of_isAlphanumeric {marks : Text} {previous next : Char}
    (alphanumeric : Text.isAlphanumeric next = true) : Continues marks previous next :=
  .inl alphanumeric

theorem not_continues_blank (marks : Text) (previous : Char) : ¬ Continues marks previous ' ' := by
  rintro (alphanumeric | same | same | ⟨same, _⟩)
  · exact absurd alphanumeric (by decide +kernel)
  · exact absurd same (by decide)
  · exact absurd same (by decide)
  · exact absurd same (by decide)

section

variable {ahead ahead' : Text} (apart : StartsApart ahead')
include apart

theorem number_apart {c : Char} {tail : Text} (start : startsNumber c (tail ++ ahead) = true)
    (goes : List.IsChain (Continues (exponentMarks c (tail ++ ahead))) (c :: tail))
    (stop : ∀ d, ahead.head? = some d →
      ¬ Continues (exponentMarks c (tail ++ ahead)) (tail.getLast?.getD c) d) :
    Lexeme .number (c :: tail) ahead' := by
  have stop' (marks : Text) (d : Char) (head : ahead'.head? = some d) :
      ¬ Continues marks (tail.getLast?.getD c) d := by
    rw [apart d head]
    exact not_continues_blank _ _
  cases tail with
  | nil =>
    -- A number of one character is a digit: the text ahead could not have made it one.
    have digit : Text.isDigit c = true := by
      rcases Bool.or_eq_true_iff.mp start with digit | pointed
      · exact digit
      · obtain ⟨_, following⟩ := Bool.and_eq_true_iff.mp pointed
        obtain ⟨d, head, digit⟩ := Option.any_eq_true _ _ |>.mp following
        refine absurd (continues_of_isAlphanumeric ?_) (stop d head)
        simp [Text.isAlphanumeric, digit]
    exact .number (by simp [startsNumber, digit]) (.singleton c) (stop' _)
  | cons d tail =>
    rw [startsNumber_congr (head?_append_cons ahead ahead')] at start
    rw [exponentMarks_congr (head?_append_cons ahead ahead')] at goes
    exact .number start goes (stop' _)

theorem not_startsComment_apart (c : Char) : ¬ StartsComment (c :: ahead') := by
  rintro (line | block)
  · obtain ⟨rfl, _⟩ := List.cons_prefix_cons.mp line
    exact apart.not_second (by decide) line
  · obtain ⟨rfl, _⟩ := List.cons_prefix_cons.mp block
    exact apart.not_second (by decide) block

theorem symbol_apart {c : Char} {tail : Text} (bare : Bare c (tail ++ ahead))
    (other : startsNumber c (tail ++ ahead) = false ∧ isNameStart c = false)
    (known : c :: tail ∈ longSymbols ∨ tail = [] ∧ ∀ s ∈ longSymbols, ¬ s <+: c :: ahead) :
    Lexeme .symbol (c :: tail) ahead' := by
  cases tail with
  | nil =>
    have digit : Text.isDigit c = false := (Bool.or_eq_false_iff.mp other.1).1
    have point : ahead'.head?.any Text.isDigit = false := by
      rw [Bool.eq_false_iff]
      intro following
      obtain ⟨d, head, digit⟩ := Option.any_eq_true _ _ |>.mp following
      rw [apart d head] at digit
      exact absurd digit (by decide +kernel)
    refine .symbol ⟨bare.visible, bare.unquoted, not_startsComment_apart apart c⟩ ⟨?_, other.2⟩
      (.inr ⟨rfl, fun s long start => ?_⟩)
    · simp [startsNumber, digit, point]
    · -- No long symbol has a blank in second place.
      simp only [longSymbols, List.mem_cons, List.not_mem_nil, or_false] at long
      rcases long with rfl | rfl | rfl
      all_goals
        obtain ⟨rfl, _⟩ := List.cons_prefix_cons.mp start
        exact apart.not_second (by decide) start
  | cons d tail =>
    have long : c :: d :: tail ∈ longSymbols := by simpa using known
    have comment : ¬ StartsComment (c :: (d :: tail ++ ahead')) := by
      intro comment
      apply bare.comment
      simpa [StartsComment, List.cons_prefix_cons] using comment
    rw [startsNumber_congr (head?_append_cons ahead ahead')] at other
    exact .symbol ⟨bare.visible, bare.unquoted, comment⟩ other (.inl long)

theorem quoted_apart {kind : Token.Kind} {quote : Char} {glyphs : List Text}
    (known : kind = .string ∧ quote = '"' ∨ kind = .character ∧ quote = '\'')
    (each : ∀ g ∈ glyphs, Glyph g) (first : [quote] ∉ glyphs) (single : ['\n'] ∉ glyphs) :
    Lexeme kind (quote :: (glyphs.flatten ++ [quote])) ahead' := by
  refine .quoted known each first single fun start => ?_
  obtain ⟨rfl, start⟩ := List.cons_prefix_cons.mp start
  -- The second of three quotes is the closing one, and so the third stands ahead.
  rcases glyphs_of_quotes (n := 2) each start with inside | ⟨m, less, same, beyond⟩
  · obtain ⟨more, rfl⟩ := inside
    exact first List.mem_cons_self
  · cases m with
    | zero => exact apart.not_second (by decide) beyond
    | succ m =>
      rw [same] at first
      exact first List.mem_cons_self

/-- A token stays one before a blank, and at the end of a source. -/
theorem Lexeme.before_blank {kind : Token.Kind} {text : Text} (lexeme : Lexeme kind text ahead) :
    Lexeme kind text ahead' := by
  cases lexeme with
  | textBlock each first => exact .textBlock each first
  | quoted known each first single _ => exact quoted_apart apart known each first single
  | number start goes stop => exact number_apart apart start goes stop
  | name start goes _ =>
    refine .name start goes fun d head => ?_
    rw [apart d head]
    decide +kernel
  | symbol bare other known => exact symbol_apart apart bare other known

end

/-! ### Tokens in a row -/

/-- What the tokens of a tiled source say, they say before a blank and at the end. -/
theorem Tiles.lexemes {before ahead : Text} {tokens : List Token}
    (tiles : Tiles before tokens ahead) :
    ∀ t ∈ tokens, ∀ ahead', StartsApart ahead' → Lexeme t.kind t.text ahead' := by
  induction tiles with
  | start => nofun
  | skip _ _ ih => exact ih
  | token _ lexeme ih =>
    intro t member
    rcases List.mem_append.mp member with earlier | last
    · exact ih t earlier
    · rw [List.mem_singleton.mp last]
      exact fun _ apart => lexeme.before_blank apart

theorem printed_cons_cons (t u : Token) (rest : List Token) :
    printed (t :: u :: rest) = t.text ++ ' ' :: printed (u :: rest) := by
  simp [printed, List.intercalate_cons_cons]

/-- Behind what is tiled, printed tokens are tiles. -/
theorem Tiles.printed {before : Text} {earlier tokens : List Token}
    (lexemes : ∀ t ∈ tokens, ∀ ahead, StartsApart ahead → Lexeme t.kind t.text ahead)
    (tiles : Tiles before earlier (printed tokens)) :
    ∃ tokens', List.Forall₂ Moved tokens tokens' ∧
      Tiles (before ++ Java.printed tokens) (earlier ++ tokens') [] := by
  induction tokens generalizing before earlier with
  | nil =>
    refine ⟨[], .nil, ?_⟩
    simpa [Java.printed, List.intercalate] using tiles
  | cons t tokens ih =>
    obtain ⟨lexeme, others⟩ := List.forall_mem_cons.mp lexemes
    cases tokens with
    | nil =>
      have text : Java.printed [t] = t.text := by simp [Java.printed, List.intercalate]
      rw [text] at tiles ⊢
      rw [← List.append_nil t.text] at tiles
      exact ⟨[⟨t.kind, t.text, .behind before⟩], .cons ⟨rfl, rfl⟩ .nil, tiles.token (lexeme [] .nil)⟩
    | cons u rest =>
      rw [printed_cons_cons] at tiles ⊢
      have behind := tiles.token (lexeme _ (.blank _))
      have blank : Text.isBlank ' ' = true := by decide +kernel
      have space : Skipped [' '] (Java.printed (u :: rest)) := .blank blank
      have apart := Tiles.skip behind space
      obtain ⟨tokens', moved, tiled⟩ := ih others apart
      refine ⟨⟨t.kind, t.text, .behind before⟩ :: tokens', .cons ⟨rfl, rfl⟩ moved, ?_⟩
      simpa using tiled

/-- What is printed has the tokens that were printed. -/
theorem tokenize_printed_moved {source : Text} {x : Tokenization} (read : tokenize source = .ok x) :
    ∃ y, tokenize (printed x.tokens) = .ok y ∧ List.Forall₂ Moved x.tokens y.tokens := by
  obtain ⟨tiles, _⟩ := tokenize_eq_ok_iff.mp read
  obtain ⟨tokens, moved, tiled⟩ := Tiles.printed tiles.lexemes (.start _)
  exact ⟨⟨tokens, .behind (printed x.tokens)⟩, tokenize_eq_ok_iff.mpr ⟨tiled, rfl⟩, moved⟩

/-! ### Outlines of the same tokens -/

theorem Moved.sameButLiteral {t t' : Token} (moved : Moved t t') : SameButLiteral t t' where
  kind := moved.1
  text := fun _ => moved.2

/-- The outlines differ in lines at most. -/
structure Outline.SameUnplaced (o o' : Outline) : Prop where
  package : o'.package = o.package
  imports : o'.imports = o.imports
  types : o'.types.map (·.unplaced) = o.types.map (·.unplaced)

/-- The errors say the same of the same token. -/
structure SyntaxError.SameToken (x y : Tokenization) (e e' : SyntaxError) : Prop where
  problem : e'.problem = e.problem
  place : ∃ i : Nat, x.places[i]? = some e.position ∧ y.places[i]? = some e'.position

section

variable {x y : Tokenization} (pairs : List.Forall₂ SameButLiteral x.tokens y.tokens)
  (moved : ∀ t t', Partners x y t t' → Moved t t') {contract : FixerContract}
include moved

theorem OutlineAlike.sameUnplaced {o o' : Outline}
    (alike : OutlineAlike (.ofPartners contract pairs) o o') : o.SameUnplaced o' := by
  obtain ⟨more, more', imports, imports', spelled⟩ := alike.imports
  constructor
  · exact alike.package.eq moved
  · have same := map_eq_of_forall₂ (f := id) (fun _ _ => Spelled.eq moved) spelled
    rw [List.map_id, List.map_id] at same
    rw [imports, imports', same]
    rfl
  · exact map_eq_of_forall₂ (fun _ _ type => type.unplaced moved) alike.types

theorem ErrorAlike.sameToken {e e' : SyntaxError}
    (alike : ErrorAlike (.ofPartners contract pairs) e e') : e.SameToken x y e' := by
  obtain ⟨t, t', pair, position, position'⟩ := alike.position
  constructor
  · rcases alike.problem with same | ⟨kind, name, name', missing, missing', named, _⟩
    · exact same.symm
    · obtain ⟨u, u', partners, rfl, rfl⟩ := named
      rw [missing, missing', (moved u u' partners).2]
  · rw [position, position']
    exact pair.exists_place

end

/-- The same tokens are outlined alike, wherever they stand. -/
theorem readOutline_of_moved {x y : Tokenization} (pairs : List.Forall₂ Moved x.tokens y.tokens)
    (contract : FixerContract) :
    Outcomes (SyntaxError.SameToken x y) Outline.SameUnplaced
      (readOutline contract x.stop {} x.tokens) (readOutline contract y.stop {} y.tokens) := by
  have moved (t t' : Token) (partners : Partners x y t t') : Moved t t' :=
    rel_of_mem_zip pairs partners
  have alike := readOutline_of_partners contract (pairs.imp fun _ _ => Moved.sameButLiteral)
  generalize readOutline contract x.stop _ x.tokens = result at alike ⊢
  generalize readOutline contract y.stop _ y.tokens = result' at alike ⊢
  cases alike with
  | ok both => exact .ok (both.sameUnplaced _ moved)
  | error both =>
    apply Outcomes.error
    rcases both with alike | ⟨rfl, rfl⟩
    · exact alike.sameToken _ moved
    · -- Both sources end inside a declaration, behind the last of as many tokens.
      refine ⟨rfl, x.tokens.length, ?_, ?_⟩
      · simp [Tokenization.places]
      · simp [Tokenization.places, pairs.length_eq]

/-- If a source has tokens, then their texts, joined by blanks, have tokens of the same kinds and texts
in the same order. Every two sources that agree in these are outlined alike, and so are the source and
what is printed. -/
theorem tokenize_printed {source : Text} {x : Tokenization} (read : tokenize source = .ok x) :
    (∃ y, tokenize (printed x.tokens) = .ok y ∧ List.Forall₂ Moved x.tokens y.tokens) ∧
    ∀ source' y, tokenize source' = .ok y → List.Forall₂ Moved x.tokens y.tokens →
      ∀ contract, Outcomes (SyntaxError.SameToken x y) Outline.SameUnplaced
        (outline contract source) (outline contract source') := by
  constructor
  · exact tokenize_printed_moved read
  · intro source' y read' pairs contract
    rw [outline_of_tokenize read, outline_of_tokenize read']
    exact readOutline_of_moved pairs contract

/-- Two numbers with nothing but a comment between them stay two. -/
theorem tokenize_printed_numbers :
    ∃ y, tokenize "1 .5" = .ok y ∧
      List.Forall₂ Moved [⟨.number, "1", ⟨1, 1⟩⟩, ⟨.number, ".5", ⟨1, 6⟩⟩] y.tokens := by
  have read : tokenize "1/**/.5" =
      .ok ⟨[⟨.number, "1", ⟨1, 1⟩⟩, ⟨.number, ".5", ⟨1, 6⟩⟩], ⟨1, 8⟩⟩ := by decide +kernel
  exact (tokenize_printed read).1

end Layering.Java
