import Layering.TypeMapping

/-!
# Signatures

A signature is found in the text of a source, without regard to comments and literals: the word
`public` or `protected`, some modifiers, a return type of one word, a name, and parameters up to a
closing parenthesis and an opening brace. `pieces` cuts a text into signatures and single
characters, which join to the text again (`pieces_spelling`); rewriting changes the return type of some of them.
-/

namespace Layering.Java

/-- The parts of a signature. -/
structure Signature where
  /-- The visibility and the modifiers, with the blanks after them. -/
  start : Text
  returnType : Text
  /-- The rest, from the blanks after the return type to the opening brace. -/
  tail : Text
deriving DecidableEq, Repr

/-- The text of a signature. -/
def Signature.spelling (s : Signature) : Text := s.start ++ s.returnType ++ s.tail

/-- A word with the blanks before it. -/
structure SpacedWord where
  space : Text
  word : Text
deriving DecidableEq, Repr

/-- The text of a word with the blanks before it. -/
def SpacedWord.spelling (w : SpacedWord) : Text := w.space ++ w.word

/-- Splits the words with blanks before them off the front of a text. -/
def splitWords (t : Text) : List SpacedWord × Text :=
  let space := t.takeWhile Text.isBlank
  let rest := t.dropWhile Text.isBlank
  let word := rest.takeWhile Text.isWordChar
  if _h : space = [] ∨ word = [] then ([], t)
  else
    let (words, rest) := splitWords (rest.dropWhile Text.isWordChar)
    (⟨space, word⟩ :: words, rest)
termination_by t.length
decreasing_by
  have hs : t.takeWhile Text.isBlank ≠ [] := fun hs => _h (.inl hs)
  have := congrArg List.length (List.takeWhile_append_dropWhile (p := Text.isBlank) (l := t))
  have := (List.dropWhile_sublist (l := t.dropWhile Text.isBlank) Text.isWordChar).length_le
  have := List.length_pos_iff.mpr hs
  simp only [List.length_append] at *
  omega

/-- The words that may stand between the visibility and the return type. -/
def signatureModifiers : List Text := ["static", "final", "synchronized"]

/-- Splits parameters in parentheses and an opening brace off the front of a text. The parameters
end at the first closing parenthesis. -/
def splitParameterList (t : Text) : Option (Text × Text) :=
  match t.dropWhile Text.isBlank with
  | '(' :: rest =>
    match rest.dropWhile (· ≠ ')') with
    | ')' :: after =>
      match after.dropWhile Text.isBlank with
      | '\x7b' :: body =>
        some (t.takeWhile Text.isBlank ++ '(' :: rest.takeWhile (· ≠ ')')
          ++ ')' :: after.takeWhile Text.isBlank ++ ['\x7b'], body)
      | _ => none
    | _ => none
  | _ => none

/-- The word that starts a signature, and the rest. -/
def splitVisibility (t : Text) : Option (Text × Text) :=
  let word (w : Text) := (Text.dropStart? w t).map fun rest => (w, rest)
  (word "public").or (word "protected")

/-- Splits a signature off the front of a text. -/
def splitSignature (t : Text) : Option (Signature × Text) := do
  let (visibility, rest) ← splitVisibility t
  let (words, rest) := splitWords rest
  let (parameters, rest) ← splitParameterList rest
  match words.reverse with
  | name :: type :: modifiers =>
    if modifiers.all fun w => signatureModifiers.contains w.word then
      some ({
        start := visibility ++ modifiers.reverse.flatMap (·.spelling) ++ type.space
        returnType := type.word
        tail := name.spelling ++ parameters }, rest)
    else none
  | _ => none

/-- A piece of a source. -/
inductive Piece where
  | char (c : Char)
  | signature (s : Signature)
deriving DecidableEq, Repr

/-- The text of a piece. -/
def Piece.spelling : Piece → Text
  | .char c => [c]
  | .signature s => s.spelling

private theorem splitWords_append (t : Text) :
    (splitWords t).1.flatMap (·.spelling) ++ (splitWords t).2 = t := by
  fun_induction splitWords t with
  | case1 => simp
  | case2 t space rest word h words tail hw ih =>
    rw [hw] at ih
    simp only at ih
    simp only [List.flatMap_cons, List.append_assoc, ih]
    simp [SpacedWord.spelling, space, rest, word]

private theorem splitVisibility_append {t word rest : Text}
    (h : splitVisibility t = some (word, rest)) : word ++ rest = t ∧ word ≠ [] := by
  simp only [splitVisibility, Option.or_eq_some_iff, Option.map_eq_some_iff,
    Text.dropStart?_eq_some] at h
  obtain ⟨_, rfl, h⟩ | ⟨-, _, rfl, h⟩ := h <;> cases h <;> simp

private theorem dropWhile_eq_cons {p : Char → Bool} {t rest : Text} {c : Char}
    (h : t.dropWhile p = c :: rest) : t = t.takeWhile p ++ c :: rest := by
  rw [← h, List.takeWhile_append_dropWhile]

private theorem splitParameterList_append {t parameters rest : Text}
    (h : splitParameterList t = some (parameters, rest)) : parameters ++ rest = t := by
  unfold splitParameterList at h
  split at h
  · rename_i h₁
    split at h
    · rename_i h₂
      split at h
      · rename_i h₃
        cases h
        have h₁ := dropWhile_eq_cons h₁
        have h₂ := dropWhile_eq_cons h₂
        have h₃ := dropWhile_eq_cons h₃
        conv => rhs; rw [h₁, h₂, h₃]
        simp
      · contradiction
    · contradiction
  · contradiction

/-- A signature and the rest join to the text, and the signature is not empty. -/
theorem splitSignature_append {t rest : Text} {s : Signature}
    (h : splitSignature t = some (s, rest)) : s.spelling ++ rest = t ∧ s.spelling ≠ [] := by
  simp only [splitSignature, Option.bind_eq_bind, Option.bind_eq_some_iff] at h
  obtain ⟨⟨visibility, rest₁⟩, hv, ⟨parameters, rest₂⟩, hp, h⟩ := h
  obtain ⟨hv, hne⟩ := splitVisibility_append hv
  have hp := splitParameterList_append hp
  have hw := splitWords_append rest₁
  split at h
  · rename_i name type modifiers hr
    split at h
    · cases h
      have hr := List.reverse_eq_iff.mp hr
      refine ⟨?_, by simp [Signature.spelling, hne]⟩
      rw [← hv]
      conv => rhs; rw [← hw, hr, ← hp]
      simp [Signature.spelling, SpacedWord.spelling]
    · contradiction
  · contradiction

private theorem length_of_splitSignature {t rest : Text} {s : Signature}
    (h : splitSignature t = some (s, rest)) : rest.length < t.length := by
  obtain ⟨ha, hn⟩ := splitSignature_append h
  have := congrArg List.length ha
  have := List.length_pos_iff.mpr hn
  simp only [List.length_append] at *
  omega

/-- Cuts a text into signatures and single characters, as early as possible. -/
def pieces : Text → List Piece
  | [] => []
  | c :: rest =>
    match h : splitSignature (c :: rest) with
    | some (s, after) =>
      have := length_of_splitSignature h
      .signature s :: pieces after
    | none => .char c :: pieces rest
termination_by t => t.length
decreasing_by
  · exact this
  · exact Nat.lt_succ_self rest.length

/-- The pieces of a text join to the text. -/
theorem pieces_spelling (t : Text) : (pieces t).flatMap (·.spelling) = t := by
  fun_induction pieces t with
  | case1 => rfl
  | case2 c rest s after h _ ih =>
    have := (splitSignature_append h).1
    simp only [List.flatMap_cons, ih]
    exact this
  | case3 c rest h ih => simp only [List.flatMap_cons, ih]; rfl

/-- The signature with the type of the contract in place of the core class, if it returns that. -/
def Signature.rewrite (mapping : TypeMapping) (s : Signature) : Signature :=
  if s.returnType = mapping.coreName then { s with returnType := mapping.apiName } else s

/-- A piece after rewriting. -/
def Piece.rewrite (mapping : TypeMapping) : Piece → Piece
  | .char c => .char c
  | .signature s => .signature (s.rewrite mapping)

/-- Replaces the core class in every signature that returns it. -/
def rewriteSignatures (mapping : TypeMapping) (source : Text) : Text :=
  ((pieces source).map (·.rewrite mapping)).flatMap (·.spelling)

/-- A line for the old form of every rewritten signature and one for the new. -/
def signatureDiffs (mapping : TypeMapping) (source : Text) : List Text :=
  (pieces source).flatMap fun
    | .char _ => []
    | .signature s =>
      if s.returnType = mapping.coreName then
        [['-', ' '] ++ Text.singleSpaced s.spelling,
         ['+', ' '] ++ Text.singleSpaced (s.rewrite mapping).spelling]
      else []

end Layering.Java
