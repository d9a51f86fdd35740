import Layering.Proofs.Lexemes

/-!
# Tiling

The tokens of a source, and what is skipped between them, lie side by side and make up the source.
`Tiles` says so of the part of a source that was read, rule by rule and without regard to how it is
read; `tokenize_tiles` says that a source has tokens if it is tiled to its end, and otherwise breaks off
at the first construct that is not closed.
-/

namespace Layering.Java

/-! ### Places -/

/-- The place behind a text that starts a source: one line more than it has line breaks, one column
more than it has characters on its last line. -/
def Position.behind (before : Text) : Position :=
  ⟨1 + before.count '\n', 1 + (before.reverse.takeWhile (· ≠ '\n')).length⟩

theorem Position.next_behind (before : Text) (c : Char) :
    (Position.behind before).next c = .behind (before ++ [c]) := by
  unfold next behind
  by_cases break_ : c = '\n'
  · simp [break_]
    omega
  · simp [break_]
    omega

theorem Position.after_behind (before text : Text) :
    (Position.behind before).after text = .behind (before ++ text) := by
  induction text generalizing before with
  | nil => simp
  | cons c text ih => rw [after_cons, next_behind, ih, List.append_assoc, List.singleton_append]

/-! ### Steps -/

theorem tokenizeFrom_of_error {c : Char} {rest : Text} {problem : Problem}
    (error : front c rest = .error problem) (p : Position) :
    tokenizeFrom p (c :: rest) = .error ⟨problem, p⟩ := by
  rw [tokenizeFrom]
  split
  next problem' same =>
    cases same.symm.trans error
    rfl
  next f same => cases same.symm.trans error

theorem tokenizeFrom_of_front {c : Char} {rest : Text} {f : Front} (found : front c rest = .ok f)
    (p : Position) : tokenizeFrom p (c :: rest) =
      (tokenizeFrom (p.after f.text) f.rest).map (·.push f.kind f.text p) := by
  rw [tokenizeFrom]
  split
  next problem same => cases same.symm.trans found
  next f' same =>
    cases same.symm.trans found
    rfl

theorem map_push_none (text : Text) (p : Position) (result : Except SyntaxError Tokenization) :
    result.map (·.push none text p) = result := by
  cases result <;> rfl

theorem tokenizeFrom_blank {c : Char} (blank : Text.isBlank c = true) (p : Position) (rest : Text) :
    tokenizeFrom p (c :: rest) = tokenizeFrom (p.next c) rest := by
  have found (c : Char) (rest : Text) (blank : Text.isBlank c = true) : front c rest =
      .ok ⟨none, c :: rest.takeWhile Text.isBlank, rest.dropWhile Text.isBlank⟩ := by
    unfold front
    exact if_pos blank
  rw [tokenizeFrom_of_front (found c rest blank), map_push_none, Position.after_cons]
  cases rest with
  | nil => rfl
  | cons d rest =>
    by_cases blank' : Text.isBlank d = true
    · -- The blanks that are taken together with the first one are taken from the second on.
      rw [tokenizeFrom_of_front (found d rest blank'), map_push_none,
        List.takeWhile_cons_of_pos blank', List.dropWhile_cons_of_pos blank']
    · rw [List.takeWhile_cons_of_neg blank', List.dropWhile_cons_of_neg blank']
      rfl

/-! ### Parts -/

/-- Some tokens in front of those of the rest of a source. -/
def Tokenization.prepend (tokens : List Token) (t : Tokenization) : Tokenization :=
  { t with tokens := tokens ++ t.tokens }

theorem map_prepend_nil (result : Except SyntaxError Tokenization) :
    result.map (·.prepend []) = result := by
  cases result <;> rfl

/-- These are the tokens of a part of a source, whatever becomes of the text ahead. -/
def Lexes (p : Position) (part ahead : Text) (tokens : List Token) : Prop :=
  tokenizeFrom p (part ++ ahead) = (tokenizeFrom (p.after part) ahead).map (·.prepend tokens)

theorem Lexes.nil (p : Position) (ahead : Text) : Lexes p [] ahead [] :=
  (map_prepend_nil _).symm

theorem Lexes.append {p : Position} {x y ahead : Text} {tokens tokens' : List Token}
    (first : Lexes p x (y ++ ahead) tokens) (second : Lexes (p.after x) y ahead tokens') :
    Lexes p (x ++ y) ahead (tokens ++ tokens') := by
  unfold Lexes at *
  rw [List.append_assoc, first, second, Position.after_append]
  cases tokenizeFrom ((p.after x).after y) ahead with
  | error e => rfl
  | ok t => simp [Except.map, Tokenization.prepend]

theorem Lexeme.lexes {kind : Token.Kind} {text ahead : Text} (lexeme : Lexeme kind text ahead)
    (p : Position) : Lexes p text ahead [⟨kind, text, p⟩] := by
  obtain ⟨c, tail, rfl, found⟩ := front_lexeme lexeme
  unfold Lexes
  rw [List.cons_append, tokenizeFrom_of_front found]
  cases tokenizeFrom (p.after (c :: tail)) ahead with
  | error e => rfl
  | ok t => rfl

theorem Skipped.lexes {text ahead : Text} (skipped : Skipped text ahead) (p : Position) :
    Lexes p text ahead [] := by
  unfold Lexes
  rw [map_prepend_nil]
  rcases front_comment skipped with ⟨c, rfl, blank⟩ | ⟨c, tail, rfl, found⟩
  · exact tokenizeFrom_blank blank p ahead
  · rw [List.cons_append, tokenizeFrom_of_front found, map_push_none]

theorem lexes_blanks {text : Text} (blank : ∀ c ∈ text, Text.isBlank c = true) (p : Position)
    (ahead : Text) : Lexes p text ahead [] := by
  induction text generalizing p with
  | nil => exact .nil p ahead
  | cons c text ih =>
    obtain ⟨first, blank⟩ := List.forall_mem_cons.mp blank
    exact (Skipped.lexes (.blank first) p).append (x := [c]) (ih blank _)

/-! ### Tiles -/

/-- The part of a source before `ahead` is made up of these tokens and of what is skipped between
them. -/
inductive Tiles : Text → List Token → Text → Prop
  | start (ahead : Text) : Tiles [] [] ahead
  | skip {before text ahead : Text} {tokens : List Token}
      (tiles : Tiles before tokens (text ++ ahead)) (skipped : Skipped text ahead) :
      Tiles (before ++ text) tokens ahead
  | token {before text ahead : Text} {tokens : List Token} {kind : Token.Kind}
      (tiles : Tiles before tokens (text ++ ahead)) (lexeme : Lexeme kind text ahead) :
      Tiles (before ++ text) (tokens ++ [⟨kind, text, .behind before⟩]) ahead

theorem Lexeme.ne_nil {kind : Token.Kind} {text ahead : Text} (lexeme : Lexeme kind text ahead) :
    text ≠ [] := by
  obtain ⟨c, tail, rfl, _⟩ := front_lexeme lexeme
  simp

theorem Tiles.inhabited {before ahead : Text} {tokens : List Token}
    (tiles : Tiles before tokens ahead) : ∀ t ∈ tokens, t.text ≠ [] := by
  induction tiles with
  | start => nofun
  | skip _ _ ih => exact ih
  | token _ lexeme ih =>
    intro t member
    rcases List.mem_append.mp member with earlier | last
    · exact ih t earlier
    · rw [List.mem_singleton.mp last]
      exact lexeme.ne_nil

theorem Tiles.blanks {before text ahead : Text} {tokens : List Token}
    (tiles : Tiles before tokens (text ++ ahead)) (blank : ∀ c ∈ text, Text.isBlank c = true) :
    Tiles (before ++ text) tokens ahead := by
  induction text generalizing before with
  | nil => rwa [List.append_nil]
  | cons c text ih =>
    obtain ⟨first, blank⟩ := List.forall_mem_cons.mp blank
    have tiles : Tiles before tokens ([c] ++ (text ++ ahead)) := tiles
    have tiled := ih (tiles.skip (.blank first)) blank
    rwa [List.append_assoc] at tiled

/-- What is tiled is read so. -/
theorem Tiles.lexes {before ahead : Text} {tokens : List Token}
    (tiles : Tiles before tokens ahead) : Lexes {} before ahead tokens := by
  have behind (before : Text) : Position.after {} before = .behind before :=
    Position.after_behind [] before
  induction tiles with
  | start ahead => exact .nil _ _
  | skip _ skipped ih =>
    have both := ih.append (skipped.lexes _)
    rwa [List.append_nil] at both
  | @token before _ _ _ _ _ lexeme ih =>
    refine ih.append ?_
    rw [behind before]
    exact lexeme.lexes _

theorem Tiles.tokenize_append {before ahead : Text} {tokens : List Token}
    (tiles : Tiles before tokens ahead) :
    tokenize (before ++ ahead) = (tokenizeFrom (.behind before) ahead).map (·.prepend tokens) := by
  rw [← List.nil_append before, ← Position.after_behind]
  exact tiles.lexes

/-- How the reading of the rest of a source ends, if this much of it is tiled. -/
def Ends (before : Text) (tokens : List Token) (ahead : Text) :
    Except SyntaxError Tokenization → Prop
  | .ok t => Tiles (before ++ ahead) (tokens ++ t.tokens) [] ∧ t.stop = .behind (before ++ ahead)
  | .error e => ∃ before' tokens' ahead', before' ++ ahead' = before ++ ahead ∧
      Tiles before' tokens' ahead' ∧ Unclosed e.problem ahead' ∧ e.position = .behind before'

/-- What is skipped does not count for how the reading ends. -/
theorem Ends.of_skip {before text ahead : Text} {tokens : List Token}
    {result : Except SyntaxError Tokenization} (ends : Ends (before ++ text) tokens ahead result) :
    Ends before tokens (text ++ ahead) result := by
  cases result <;> simpa [Ends] using ends

theorem Ends.of_token {before text ahead : Text} {tokens : List Token} {kind : Token.Kind}
    {result : Except SyntaxError Tokenization}
    (ends : Ends (before ++ text) (tokens ++ [⟨kind, text, .behind before⟩]) ahead result) :
    Ends before tokens (text ++ ahead)
      (result.map (·.push (some kind) text (.behind before))) := by
  cases result with
  | error e => simpa [Ends, Except.map] using ends
  | ok t => simpa [Ends, Except.map, Tokenization.push] using ends

/-- Reading goes on piece by piece, and each piece is a tile or the construct that is not closed. -/
theorem Tiles.ends {before ahead : Text} {tokens : List Token} (tiles : Tiles before tokens ahead) :
    Ends before tokens ahead (tokenizeFrom (.behind before) ahead) := by
  induction size : ahead.length using Nat.strong_induction_on generalizing before ahead tokens with
  | _ n ih =>
  cases ahead with
  | nil =>
    rw [tokenizeFrom]
    exact ⟨by simpa using tiles, by simp⟩
  | cons c rest =>
    have fronts := fronts_front c rest
    cases found : front c rest with
    | error problem =>
      rw [found] at fronts
      cases fronts with
      | unclosed unclosed =>
        rw [tokenizeFrom_of_error found]
        exact ⟨before, tokens, c :: rest, rfl, tiles, unclosed, rfl⟩
    | ok f =>
      have shorter : f.rest.length < n := size ▸ length_rest_lt found
      rw [found] at fronts
      rw [tokenizeFrom_of_front found, Position.after_behind]
      cases fronts with
      | blanks blank split =>
        rw [← split] at tiles ⊢
        rw [map_push_none]
        exact (ih _ shorter (tiles.blanks blank) rfl).of_skip
      | comment skipped split =>
        rw [← split] at tiles ⊢
        rw [map_push_none]
        exact (ih _ shorter (tiles.skip skipped) rfl).of_skip
      | lexeme lexeme split =>
        rw [← split] at tiles ⊢
        exact (ih _ shorter (tiles.token lexeme) rfl).of_token

theorem ends_tokenize (source : Text) : Ends [] [] source (tokenize source) :=
  (Tiles.start source).ends

/-- The tokens of a source tile it to its end. -/
theorem tokenize_eq_ok_iff {source : Text} {t : Tokenization} :
    tokenize source = .ok t ↔ Tiles source t.tokens [] ∧ t.stop = .behind source := by
  constructor
  · intro found
    have ends := ends_tokenize source
    rw [found] at ends
    exact ends
  · rintro ⟨tiles, stop⟩
    have read := tiles.tokenize_append
    rw [List.append_nil, tokenizeFrom] at read
    rw [read, ← stop]
    simp [Except.map, Tokenization.prepend]

/-- A source has tokens exactly if these and what is skipped between them tile it to its end, where it
stops. Otherwise it is tiled up to a construct that is not closed, and the error stands at its first
character. No token is empty. -/
theorem tokenize_tiles (source : Text) :
    (∀ t, tokenize source = .ok t ↔ Tiles source t.tokens [] ∧ t.stop = .behind source) ∧
    (∀ e, tokenize source = .error e ↔ ∃ before tokens ahead, before ++ ahead = source ∧
      Tiles before tokens ahead ∧ Unclosed e.problem ahead ∧ e.position = .behind before) ∧
    ∀ before tokens ahead, Tiles before tokens ahead → ∀ t ∈ tokens, t.text ≠ [] := by
  refine ⟨fun t => tokenize_eq_ok_iff, fun e => ⟨fun found => ?_, ?_⟩,
    fun _ _ _ tiles => tiles.inhabited⟩
  · have ends := ends_tokenize source
    rw [found] at ends
    exact ends
  · rintro ⟨before, tokens, ahead, rfl, tiles, unclosed, position⟩
    obtain ⟨c, rest, rfl, error⟩ := front_unclosed unclosed
    rw [tiles.tokenize_append, tokenizeFrom_of_error error, ← position]
    rfl

end Layering.Java
