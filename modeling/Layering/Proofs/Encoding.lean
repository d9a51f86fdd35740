import Layering.Path
import Layering.Text.Utf8
import Mathlib

/-!
# Texts as bytes and paths as texts

Reading the bytes of a text gives the text back, and reading the written form of a path gives the
path back, as far as its names can be told apart in it.
-/

namespace Layering

namespace Utf8

theorem toNat_ofNat_byte {n : Nat} (small : n < 256) : (UInt8.ofNat n).toNat = n :=
  UInt8.toNat_ofNat_of_lt' small

section

variable {b : UInt8} {position : Nat} {rest : Bytes}

theorem decodeFrom_two (low : 0xC2 ≤ b.toNat) (high : b.toNat ≤ 0xDF) :
    decodeFrom position none (b :: rest) =
      decodeFrom (position + 1) (some ⟨b, position, 1, 0x80, 0xBF, b.toNat - 0xC0⟩) rest := by
  rw [decodeFrom, if_neg (by omega), pending?]
  simp [low, high]

theorem decodeFrom_three (low : 0xE0 ≤ b.toNat) (high : b.toNat ≤ 0xEF) :
    decodeFrom position none (b :: rest) =
      decodeFrom (position + 1) (some ⟨b, position, 2, if b.toNat = 0xE0 then 0xA0 else 0x80,
        if b.toNat = 0xED then 0x9F else 0xBF, b.toNat - 0xE0⟩) rest := by
  have other : ¬b.toNat ≤ 0xDF := by omega
  rw [decodeFrom, if_neg (by omega), pending?]
  simp [low, high, other]

theorem decodeFrom_four (low : 0xF0 ≤ b.toNat) (high : b.toNat ≤ 0xF4) :
    decodeFrom position none (b :: rest) =
      decodeFrom (position + 1) (some ⟨b, position, 3, if b.toNat = 0xF0 then 0x90 else 0x80,
        if b.toNat = 0xF4 then 0x8F else 0xBF, b.toNat - 0xF0⟩) rest := by
  have other : ¬b.toNat ≤ 0xDF := by omega
  have other' : ¬b.toNat ≤ 0xEF := by omega
  rw [decodeFrom, if_neg (by omega), pending?]
  simp [low, high, other, other']

theorem decodeFrom_next {p : Pending} (low : p.low ≤ b.toNat) (high : b.toNat ≤ p.high)
    (more : p.left ≠ 1) :
    decodeFrom position (some p) (b :: rest) = decodeFrom (position + 1)
      (some ⟨p.first, p.start, p.left - 1, 0x80, 0xBF, p.value * 64 + b.toNat % 64⟩) rest := by
  simp [decodeFrom, low, high, more]

theorem decodeFrom_last {p : Pending} (low : p.low ≤ b.toNat) (high : b.toNat ≤ p.high)
    (last : p.left = 1) :
    decodeFrom position (some p) (b :: rest) = (decodeFrom (position + 1) none rest).map
      (Char.ofNat (p.value * 64 + b.toNat % 64) :: ·) := by
  simp [decodeFrom, low, high, last]

end

/-- The bytes of a character are read as that character. -/
theorem decodeFrom_utf8EncodeChar (c : Char) (position : Nat) (rest : Bytes) :
    ∃ stop, decodeFrom position none (String.utf8EncodeChar c ++ rest) =
      (decodeFrom stop none rest).map (c :: ·) := by
  have valid := c.valid
  have whole {n : Nat} (same : n = c.val.toNat) : Char.ofNat n = c := same ▸ Char.ofNat_toNat c
  simp only [UInt32.isValidChar, Nat.isValidChar] at valid
  unfold String.utf8EncodeChar
  -- By the length of the encoding. Each continuation byte carries six bits, so the value is
  -- what the bytes add up to.
  generalize c.val.toNat = v at valid whole
  simp only
  split
  next small =>
    refine ⟨position + 1, ?_⟩
    have byte := toNat_ofNat_byte (n := v) (by omega)
    rw [List.singleton_append, decodeFrom, if_pos (by omega), whole byte]
  split
  next =>
    refine ⟨position + 1 + 1, ?_⟩
    have first := toNat_ofNat_byte (n := v / 64 % 0x20 + 0xc0) (by omega)
    have second := toNat_ofNat_byte (n := v % 0x40 + 0x80) (by omega)
    simp only [List.cons_append, List.nil_append]
    rw [decodeFrom_two (by omega) (by omega),
      decodeFrom_last (by simp only; omega) (by simp only; omega) rfl]
    rw [whole (by simp only; omega)]
  split
  next =>
    refine ⟨position + 1 + 1 + 1, ?_⟩
    have first := toNat_ofNat_byte (n := v / 4096 % 0x10 + 0xe0) (by omega)
    have second := toNat_ofNat_byte (n := v / 64 % 0x40 + 0x80) (by omega)
    have third := toNat_ofNat_byte (n := v % 0x40 + 0x80) (by omega)
    simp only [List.cons_append, List.nil_append]
    rw [decodeFrom_three (by omega) (by omega),
      decodeFrom_next (by simp only; split <;> omega) (by simp only; split <;> omega) (by simp),
      decodeFrom_last (by simp only; omega) (by simp only; omega) rfl]
    rw [whole (by simp only; omega)]
  next =>
    refine ⟨position + 1 + 1 + 1 + 1, ?_⟩
    have first := toNat_ofNat_byte (n := v / 262144 % 0x08 + 0xf0) (by omega)
    have second := toNat_ofNat_byte (n := v / 4096 % 0x40 + 0x80) (by omega)
    have third := toNat_ofNat_byte (n := v / 64 % 0x40 + 0x80) (by omega)
    have fourth := toNat_ofNat_byte (n := v % 0x40 + 0x80) (by omega)
    simp only [List.cons_append, List.nil_append]
    rw [decodeFrom_four (by omega) (by omega),
      decodeFrom_next (by simp only; split <;> omega) (by simp only; split <;> omega) (by simp),
      decodeFrom_next (by simp only; omega) (by simp only; omega) (by simp),
      decodeFrom_last (by simp only; omega) (by simp only; omega) rfl]
    rw [whole (by simp only; omega)]

theorem decode_encode (t : Text) : decode (encode t) = .ok t := by
  suffices h : ∀ position, decodeFrom position none (encode t) = .ok t from h 0
  induction t with
  | nil =>
    intro position
    rfl
  | cons c rest ih =>
    intro position
    obtain ⟨stop, read⟩ := decodeFrom_utf8EncodeChar c position (encode rest)
    have bytes : encode (c :: rest) = String.utf8EncodeChar c ++ encode rest := rfl
    rw [bytes, read, ih stop]
    rfl

/-! ### Bytes that are a text -/

variable {position : Nat} {p : Pending} {bytes : Bytes} {t : Text} {b : UInt8}

theorem utf8EncodeChar_ofNat {n : Nat} (valid : n.isValidChar) : String.utf8EncodeChar (Char.ofNat n) =
    if n ≤ 127 then [UInt8.ofNat n]
    else if n ≤ 2047 then [UInt8.ofNat (n / 64 % 32 + 192), UInt8.ofNat (n % 64 + 128)]
    else if n ≤ 65535 then
      [UInt8.ofNat (n / 4096 % 16 + 224), UInt8.ofNat (n / 64 % 64 + 128), UInt8.ofNat (n % 64 + 128)]
    else [UInt8.ofNat (n / 262144 % 8 + 240), UInt8.ofNat (n / 4096 % 64 + 128),
      UInt8.ofNat (n / 64 % 64 + 128), UInt8.ofNat (n % 64 + 128)] := by
  have value : (Char.ofNat n).val.toNat = n := by
    rw [Char.ofNat, dif_pos valid]
    exact UInt32.toNat_ofNatLT ..
  unfold String.utf8EncodeChar
  rw [value]

section

variable {b b₁ b₂ b₃ : UInt8}

theorem ofNat_eq {n : Nat} (same : n = b.toNat) : UInt8.ofNat n = b := by
  rw [same, UInt8.ofNat_toNat]

theorem utf8EncodeChar_one (high : b.toNat < 0x80) :
    String.utf8EncodeChar (Char.ofNat b.toNat) = [b] := by
  rw [utf8EncodeChar_ofNat (.inl (by omega)), if_pos (by omega), ofNat_eq rfl]

variable (low₁ : 0x80 ≤ b₁.toNat) (high₁ : b₁.toNat ≤ 0xBF)
include low₁ high₁

theorem utf8EncodeChar_two (low : 0xC2 ≤ b.toNat) (high : b.toNat ≤ 0xDF) :
    String.utf8EncodeChar (Char.ofNat ((b.toNat - 0xC0) * 64 + b₁.toNat % 64)) = [b, b₁] := by
  rw [utf8EncodeChar_ofNat (.inl (by omega)), if_neg (by omega), if_pos (by omega),
    ofNat_eq (b := b) (by omega), ofNat_eq (b := b₁) (by omega)]

variable (low₂ : 0x80 ≤ b₂.toNat) (high₂ : b₂.toNat ≤ 0xBF)
include low₂ high₂

theorem utf8EncodeChar_three (low : 0xE0 ≤ b.toNat) (high : b.toNat ≤ 0xEF)
    (long : b.toNat = 0xE0 → 0xA0 ≤ b₁.toNat) (real : b.toNat = 0xED → b₁.toNat ≤ 0x9F) :
    String.utf8EncodeChar (Char.ofNat
      (((b.toNat - 0xE0) * 64 + b₁.toNat % 64) * 64 + b₂.toNat % 64)) = [b, b₁, b₂] := by
  have valid : (((b.toNat - 0xE0) * 64 + b₁.toNat % 64) * 64 + b₂.toNat % 64).isValidChar := by
    unfold Nat.isValidChar
    omega
  rw [utf8EncodeChar_ofNat valid, if_neg (by omega), if_neg (by omega), if_pos (by omega),
    ofNat_eq (b := b) (by omega), ofNat_eq (b := b₁) (by omega), ofNat_eq (b := b₂) (by omega)]

theorem utf8EncodeChar_four (low₃ : 0x80 ≤ b₃.toNat) (high₃ : b₃.toNat ≤ 0xBF)
    (low : 0xF0 ≤ b.toNat) (high : b.toNat ≤ 0xF4)
    (long : b.toNat = 0xF0 → 0x90 ≤ b₁.toNat) (real : b.toNat = 0xF4 → b₁.toNat ≤ 0x8F) :
    String.utf8EncodeChar (Char.ofNat
      ((((b.toNat - 0xF0) * 64 + b₁.toNat % 64) * 64 + b₂.toNat % 64) * 64 + b₃.toNat % 64)) =
      [b, b₁, b₂, b₃] := by
  rw [utf8EncodeChar_ofNat (.inr (by omega)), if_neg (by omega), if_neg (by omega), if_neg (by omega),
    ofNat_eq (b := b) (by omega), ofNat_eq (b := b₁) (by omega), ofNat_eq (b := b₂) (by omega),
    ofNat_eq (b := b₃) (by omega)]

end

/-- Within a character another byte is read, which ends it or does not. -/
theorem decodeFrom_some_eq_ok (read : decodeFrom position (some p) bytes = .ok t) :
    ∃ b rest, bytes = b :: rest ∧ p.low ≤ b.toNat ∧ b.toNat ≤ p.high ∧
      ((p.left = 1 ∧ ∃ more, decodeFrom (position + 1) none rest = .ok more ∧
        t = Char.ofNat (p.value * 64 + b.toNat % 64) :: more) ∨
      p.left ≠ 1 ∧ decodeFrom (position + 1)
        (some ⟨p.first, p.start, p.left - 1, 0x80, 0xBF, p.value * 64 + b.toNat % 64⟩) rest = .ok t) := by
  cases bytes with
  | nil => cases read
  | cons b rest =>
    rw [decodeFrom] at read
    split at read
    next bounds =>
      rw [Bool.and_eq_true, decide_eq_true_eq, decide_eq_true_eq] at bounds
      refine ⟨b, rest, rfl, bounds.1, bounds.2, ?_⟩
      simp only at read
      split at read
      next last =>
        cases further : decodeFrom (position + 1) none rest with
        | error f =>
          rw [further] at read
          cases read
        | ok more =>
          rw [further] at read
          cases read
          exact .inl ⟨last, more, rfl, rfl⟩
      next more => exact .inr ⟨more, read⟩
    next => cases read

theorem decodeFrom_last_eq_ok (last : p.left = 1) (read : decodeFrom position (some p) bytes = .ok t) :
    ∃ b rest more, bytes = b :: rest ∧ p.low ≤ b.toNat ∧ b.toNat ≤ p.high ∧
      decodeFrom (position + 1) none rest = .ok more ∧
      t = Char.ofNat (p.value * 64 + b.toNat % 64) :: more := by
  obtain ⟨b, rest, split, low, high, ⟨_, more, further, same⟩ | ⟨inner, _⟩⟩ :=
    decodeFrom_some_eq_ok read
  · exact ⟨b, rest, more, split, low, high, further, same⟩
  · exact absurd last inner

theorem decodeFrom_inner_eq_ok (inner : p.left ≠ 1)
    (read : decodeFrom position (some p) bytes = .ok t) :
    ∃ b rest, bytes = b :: rest ∧ p.low ≤ b.toNat ∧ b.toNat ≤ p.high ∧ decodeFrom (position + 1)
      (some ⟨p.first, p.start, p.left - 1, 0x80, 0xBF, p.value * 64 + b.toNat % 64⟩) rest =
        .ok t := by
  obtain ⟨b, rest, split, low, high, ⟨last, _⟩ | ⟨_, further⟩⟩ := decodeFrom_some_eq_ok read
  · exact absurd last inner
  · exact ⟨b, rest, split, low, high, further⟩

/-- The first byte of a character tells how many follow, and the bounds of the second. -/
theorem pending?_cases (begun : pending? position b = some p) :
    (0xC2 ≤ b.toNat ∧ b.toNat ≤ 0xDF ∧ p = ⟨b, position, 1, 0x80, 0xBF, b.toNat - 0xC0⟩) ∨
    (0xE0 ≤ b.toNat ∧ b.toNat ≤ 0xEF ∧ p = ⟨b, position, 2, if b.toNat = 0xE0 then 0xA0 else 0x80,
      if b.toNat = 0xED then 0x9F else 0xBF, b.toNat - 0xE0⟩) ∨
    0xF0 ≤ b.toNat ∧ b.toNat ≤ 0xF4 ∧ p = ⟨b, position, 3, if b.toNat = 0xF0 then 0x90 else 0x80,
      if b.toNat = 0xF4 then 0x8F else 0xBF, b.toNat - 0xF0⟩ := by
  unfold pending? at begun
  simp only [Bool.and_eq_true, decide_eq_true_eq] at begun
  split at begun
  next bounds => exact .inl ⟨bounds.1, bounds.2, (Option.some.inj begun).symm⟩
  next =>
    split at begun
    next bounds => exact .inr (.inl ⟨bounds.1, bounds.2, (Option.some.inj begun).symm⟩)
    next =>
      split at begun
      next bounds => exact .inr (.inr ⟨bounds.1, bounds.2, (Option.some.inj begun).symm⟩)
      next => cases begun

/-- A character of several bytes is the one that they encode. -/
theorem exists_char_of_pending (begun : pending? position b = some p)
    (read : decodeFrom (position + 1) (some p) bytes = .ok t) :
    ∃ c more stop rest, t = c :: more ∧ b :: bytes = String.utf8EncodeChar c ++ rest ∧
      decodeFrom stop none rest = .ok more := by
  -- By the bytes that the first one announces. The bounds on the second rule out a longer
  -- encoding than needed.
  rcases pending?_cases begun with ⟨low, high, rfl⟩ | ⟨low, high, rfl⟩ | ⟨low, high, rfl⟩
  · obtain ⟨b₁, rest, more, rfl, low₁, high₁, further, rfl⟩ := decodeFrom_last_eq_ok rfl read
    refine ⟨_, more, _, rest, rfl, ?_, further⟩
    rw [utf8EncodeChar_two low₁ high₁ low high]
    rfl
  · obtain ⟨b₁, rest, rfl, low₁, high₁, read⟩ := decodeFrom_inner_eq_ok (by simp) read
    obtain ⟨b₂, rest, more, rfl, low₂, high₂, further, rfl⟩ := decodeFrom_last_eq_ok rfl read
    refine ⟨_, more, _, rest, rfl, ?_, further⟩
    simp only at low₁ high₁ low₂ high₂
    rw [utf8EncodeChar_three (by split at low₁ <;> omega) (by split at high₁ <;> omega) low₂ high₂
      low high (fun first => by rwa [if_pos first] at low₁)
      (fun first => by rwa [if_pos first] at high₁)]
    rfl
  · obtain ⟨b₁, rest, rfl, low₁, high₁, read⟩ := decodeFrom_inner_eq_ok (by simp) read
    obtain ⟨b₂, rest, rfl, low₂, high₂, read⟩ := decodeFrom_inner_eq_ok (by simp) read
    obtain ⟨b₃, rest, more, rfl, low₃, high₃, further, rfl⟩ := decodeFrom_last_eq_ok rfl read
    refine ⟨_, more, _, rest, rfl, ?_, further⟩
    simp only at low₁ high₁ low₂ high₂ low₃ high₃
    rw [utf8EncodeChar_four (by split at low₁ <;> omega) (by split at high₁ <;> omega) low₂ high₂
      low₃ high₃ low high (fun first => by rwa [if_pos first] at low₁)
      (fun first => by rwa [if_pos first] at high₁)]
    rfl

/-- What is read next is a character, and the bytes before the rest are its bytes. -/
theorem exists_char_of_decodeFrom (read : decodeFrom position none (b :: bytes) = .ok t) :
    ∃ c more stop rest, t = c :: more ∧ b :: bytes = String.utf8EncodeChar c ++ rest ∧
      decodeFrom stop none rest = .ok more := by
  rw [decodeFrom] at read
  split at read
  next small =>
    cases further : decodeFrom (position + 1) none bytes with
    | error f =>
      rw [further] at read
      cases read
    | ok more =>
      rw [further] at read
      cases read
      exact ⟨_, more, _, bytes, rfl, by rw [utf8EncodeChar_one small]; rfl, further⟩
  next large =>
    split at read
    next begun => exact exists_char_of_pending begun read
    next => cases read

/-- Bytes that are a text are the bytes of that text. -/
theorem encode_of_decode (read : decode bytes = .ok t) : encode t = bytes := by
  suffices h : ∀ t position bytes, decodeFrom position none bytes = .ok t → encode t = bytes from
    h t 0 bytes read
  intro t
  -- Along the text that was read, with the place and the bytes let free, since each character
  -- takes its own bytes away.
  induction t with
  | nil =>
    intro position bytes read
    cases bytes with
    | nil => rfl
    | cons b bytes =>
      obtain ⟨_, _, _, _, some, _⟩ := exists_char_of_decodeFrom read
      cases some
  | cons c t ih =>
    intro position bytes read
    cases bytes with
    | nil => cases read
    | cons b bytes =>
      obtain ⟨c', more, stop, rest, same, split, further⟩ := exists_char_of_decodeFrom read
      cases same
      rw [split, ← ih _ _ further]
      rfl

end Utf8

namespace Text

theorem pieces_of_none {p : Char → Bool} {t : Text} (none : ∀ c ∈ t, p c = false) :
    pieces p t = [t] := by
  induction t with
  | nil => rfl
  | cons c rest ih =>
    obtain ⟨first, none⟩ := List.forall_mem_cons.mp none
    simp [pieces, first, ih none]

theorem pieces_append_cons {p : Char → Bool} {t : Text} (none : ∀ c ∈ t, p c = false) {c : Char}
    (separates : p c = true) (rest : Text) : pieces p (t ++ c :: rest) = t :: pieces p rest := by
  induction t with
  | nil => simp [pieces, separates]
  | cons d t ih =>
    obtain ⟨first, none⟩ := List.forall_mem_cons.mp none
    simp [pieces, first, ih none]

theorem not_mem_of_mem_pieces {p : Char → Bool} {t piece : Text} (member : piece ∈ pieces p t) :
    ∀ c ∈ piece, p c = false := by
  -- A separator begins a new piece, and any other character joins the first one.
  induction t generalizing piece with
  | nil =>
    rw [pieces, List.mem_singleton] at member
    subst member
    nofun
  | cons d rest ih =>
    rw [pieces] at member
    split at member
    next =>
      rcases List.mem_cons.mp member with rfl | later
      · nofun
      · exact ih later
    next other =>
      split at member
      next =>
        rw [List.mem_singleton.mp member]
        simpa using other
      next first more same =>
        rw [same] at ih
        rcases List.mem_cons.mp member with rfl | later
        · refine List.forall_mem_cons.mpr ⟨by simpa using other, ih List.mem_cons_self⟩
        · exact ih (List.mem_cons_of_mem _ later)

theorem mem_of_mem_pieces {separates : Char → Bool} {t piece : Text} {letter : Char}
    (member : piece ∈ pieces separates t) (inside : letter ∈ piece) : letter ∈ t := by
  induction t generalizing piece with
  | nil =>
    rw [pieces, List.mem_singleton] at member
    exact member ▸ inside
  | cons d rest ih =>
    rw [pieces] at member
    split at member
    · rcases List.mem_cons.mp member with rfl | later
      · cases inside
      · exact List.mem_cons_of_mem _ (ih later inside)
    · split at member
      · rw [List.mem_singleton.mp member, List.mem_singleton] at inside
        exact inside ▸ List.mem_cons_self
      next first more same =>
        rcases List.mem_cons.mp member with rfl | later
        · rcases List.mem_cons.mp inside with rfl | further
          · exact List.mem_cons_self
          · exact List.mem_cons_of_mem _ (ih (same ▸ List.mem_cons_self) further)
        · exact List.mem_cons_of_mem _ (ih (same ▸ List.mem_cons_of_mem _ later) inside)

theorem mem_of_mem_intercalate {between : Text} {parts : List Text} {letter : Char}
    (member : letter ∈ List.intercalate between parts) :
    letter ∈ between ∨ ∃ part ∈ parts, letter ∈ part := by
  induction parts with
  | nil => cases member
  | cons part rest ih =>
    cases rest with
    | nil => exact .inr ⟨part, List.mem_singleton_self part, by simpa using member⟩
    | cons next rest =>
      rw [List.intercalate_cons_cons, List.mem_append, List.mem_append] at member
      rcases member with (here | separates) | later
      · exact .inr ⟨part, List.mem_cons_self, here⟩
      · exact .inl separates
      · refine (ih later).imp_right ?_
        rintro ⟨part, listed, inside⟩
        exact ⟨part, List.mem_cons_of_mem _ listed, inside⟩

theorem unifyBreaks_eq_nil {t : Text} : unifyBreaks t = [] ↔ t = [] := by
  fun_cases unifyBreaks t <;> simp

/-- A character that is in no line break keeps apart what stands on its sides. -/
theorem unifyBreaks_append_cons {mark : Char} (other : mark ≠ '\n') (other' : mark ≠ '\r')
    (t rest : Text) : unifyBreaks (t ++ mark :: rest) = unifyBreaks t ++ mark :: unifyBreaks rest := by
  have first : unifyBreaks (mark :: rest) = mark :: unifyBreaks rest := by
    rw [unifyBreaks]
    · exact fun _ same => absurd same other'
    · exact fun same => other' same
  fun_induction unifyBreaks t with
  | case1 => exact first
  | case2 t ih => simp [unifyBreaks, ih]
  | case3 t none ih =>
    -- A return that ends the text in front is no pair with the mark behind it, which is not a
    -- break.
    cases t with
    | nil =>
      have step : unifyBreaks ('\r' :: mark :: rest) = '\n' :: unifyBreaks (mark :: rest) := by
        rw [unifyBreaks]
        exact fun more same => other (List.cons.inj same).1
      exact step.trans (congrArg _ first)
    | cons c t =>
      have next : c ≠ '\n' := by
        rintro rfl
        exact none t rfl
      simp_all [unifyBreaks]
  | case4 c t none none' ih => simp_all [unifyBreaks]

theorem unifyBreaks_eq_self {t : Text} (single : '\n' ∉ unifyBreaks t) : unifyBreaks t = t := by
  fun_induction unifyBreaks t with
  | case1 => rfl
  | case2 => simp at single
  | case3 => simp at single
  | case4 c t _ _ ih => rw [ih (List.ne_and_not_mem_of_not_mem_cons single).2]

/-- Without carriage returns there are no other line breaks. -/
theorem unifyBreaks_of_single {t : Text} (single : '\r' ∉ t) : unifyBreaks t = t := by
  fun_induction unifyBreaks t with
  | case1 => rfl
  | case2 => simp at single
  | case3 => simp at single
  | case4 c t _ _ ih => rw [ih (List.ne_and_not_mem_of_not_mem_cons single).2]

/-- Line breaks apart, no character changes. -/
theorem mem_of_mem_unifyBreaks {t : Text} {c : Char} (member : c ∈ unifyBreaks t)
    (other : c ≠ '\n') : c ∈ t := by
  fun_induction unifyBreaks t with
  | case1 => exact member
  | case2 t ih => grind
  | case3 t _ ih => grind
  | case4 d t _ _ ih => grind

end Text

namespace Path

/-- A name that can stand in the written form of a path. -/
def PlainName (name : Text) : Prop := name ≠ [] ∧ name ≠ ['.'] ∧ '/' ∉ name

instance (name : Text) : Decidable (PlainName name) := inferInstanceAs (Decidable (_ ∧ _ ∧ _))

/-- A path that is as its written form says. -/
def Plain (p : Path) : Prop := ∀ name ∈ p.names, PlainName name

instance (p : Path) : Decidable p.Plain := inferInstanceAs (Decidable (∀ name ∈ p.names, PlainName name))

theorem plain_ofText (t : Text) : (ofText t).Plain := by
  intro name member
  obtain ⟨piece, kept⟩ := List.mem_filter.mp member
  simp only [Bool.and_eq_true, decide_eq_true_eq] at kept
  refine ⟨kept.1, kept.2, fun slash => ?_⟩
  simpa using Text.not_mem_of_mem_pieces piece '/' slash

/-- A text without slashes is one name at most. -/
theorem ofText_single {t : Text} (single : '/' ∉ t) :
    (ofText t).anchor = .here ∧ (ofText t).names ⊆ [t] := by
  have none : ∀ letter ∈ t, (letter == '/') = false := by
    rintro letter member
    rw [beq_eq_false_iff_ne]
    rintro rfl
    exact single member
  constructor
  · cases t with
    | nil => rfl
    | cons letter rest =>
      have other : letter ≠ '/' := by simpa using none letter List.mem_cons_self
      simp [ofText, other]
  · intro name member
    change name ∈ namesOf t at member
    rw [namesOf, Text.splitOn, Text.pieces_of_none none] at member
    exact List.mem_of_mem_filter member

theorem namesOf_joinNames {names : List Text} (plain : ∀ name ∈ names, PlainName name) :
    namesOf (joinNames names) = names := by
  have noSlash {name : Text} (h : PlainName name) : ∀ c ∈ name, (c == '/') = false := by
    rintro c member
    rw [beq_eq_false_iff_ne]
    rintro rfl
    exact h.2.2 member
  unfold namesOf joinNames Text.splitOn
  -- Along the names: a plain one is a piece of its own, and not one that is left out.
  induction names with
  | nil => rfl
  | cons name rest ih =>
    obtain ⟨first, plain⟩ := List.forall_mem_cons.mp plain
    cases rest with
    | nil => simp [Text.pieces_of_none (noSlash first), first.1, first.2.1]
    | cons next rest =>
      rw [List.intercalate_cons_cons, List.append_assoc, List.singleton_append,
        Text.pieces_append_cons (noSlash first) rfl, List.filter_cons, ih plain]
      simp [first.1, first.2.1]

/-- The written form of names starts with no slash. -/
theorem takeWhile_joinNames {names : List Text} (plain : ∀ name ∈ names, PlainName name) :
    (joinNames names).takeWhile (· = '/') = [] := by
  cases names with
  | nil => rfl
  | cons name rest =>
    obtain ⟨⟨inhabited, _, noSlash⟩, _⟩ := List.forall_mem_cons.mp plain
    cases name with
    | nil => exact absurd rfl inhabited
    | cons c name =>
      have first : c ≠ '/' := by
        rintro rfl
        exact noSlash List.mem_cons_self
      cases rest <;> simp [joinNames, List.intercalate, first]

theorem ofText_anchor_append (anchor : Anchor) {names : List Text}
    (plain : ∀ name ∈ names, PlainName name) :
    ofText (anchor.text ++ joinNames names) = ⟨anchor, names⟩ := by
  have namesOf_slash (t : Text) : namesOf ('/' :: t) = namesOf t := by
    simp [namesOf, Text.splitOn, Text.pieces]
  cases anchor
  all_goals simp [ofText, Anchor.text, takeWhile_joinNames plain, namesOf_slash,
    namesOf_joinNames plain]

theorem ofText_text {p : Path} (plain : p.Plain) : ofText p.text = p := by
  obtain ⟨anchor, names⟩ := p
  cases anchor with
  | here =>
    cases names with
    | nil => rfl
    | cons name rest => exact ofText_anchor_append .here plain
  | root => exact ofText_anchor_append .root plain
  | doubleRoot => exact ofText_anchor_append .doubleRoot plain

theorem PlainName.unifyBreaks {name : Text} (plain : PlainName name) :
    PlainName (Text.unifyBreaks name) := by
  refine ⟨mt Text.unifyBreaks_eq_nil.mp plain.1, fun point => plain.2.1 ?_,
    fun slash => plain.2.2 (Text.mem_of_mem_unifyBreaks slash (by decide))⟩
  rw [← point]
  exact (Text.unifyBreaks_eq_self (by rw [point]; decide)).symm

theorem unifyBreaks_joinNames (names : List Text) :
    Text.unifyBreaks (joinNames names) = joinNames (names.map Text.unifyBreaks) := by
  unfold joinNames
  induction names with
  | nil => rfl
  | cons name rest ih =>
    have slash : '/' ≠ '\n' ∧ '/' ≠ '\r' := by decide
    cases rest with
    | nil => simp
    | cons next rest =>
      rw [List.map_cons, List.map_cons, List.intercalate_cons_cons, List.intercalate_cons_cons,
        List.append_assoc, List.singleton_append, Text.unifyBreaks_append_cons slash.1 slash.2, ih]
      simp

/-- A written form that was read with other line breaks differs in the line breaks only. -/
theorem ofText_unifyBreaks_text {p : Path} (plain : p.Plain) :
    ofText (Text.unifyBreaks p.text) = ⟨p.anchor, p.names.map Text.unifyBreaks⟩ := by
  have plain' : (⟨p.anchor, p.names.map Text.unifyBreaks⟩ : Path).Plain := by
    intro name member
    obtain ⟨old, here, rfl⟩ := List.mem_map.mp member
    exact (plain old here).unifyBreaks
  rw [← ofText_text plain']
  obtain ⟨anchor, names⟩ := p
  congr 1
  cases anchor with
  | here =>
    cases names with
    | nil => rfl
    | cons name rest => exact unifyBreaks_joinNames (name :: rest)
  | root => exact congrArg ('/' :: ·) (unifyBreaks_joinNames names)
  | doubleRoot => exact congrArg (['/', '/'] ++ ·) (unifyBreaks_joinNames names)

/-- A written form that was read is the path again if no name holds a carriage return. -/
theorem ofText_unifyBreaks_of_single {p : Path} (plain : p.Plain)
    (single : ∀ name ∈ p.names, '\r' ∉ name) : ofText (Text.unifyBreaks p.text) = p := by
  have same : p.names.map Text.unifyBreaks = p.names.map id :=
    List.map_congr_left fun name member => Text.unifyBreaks_of_single (single name member)
  rw [ofText_unifyBreaks_text plain, same, List.map_id]

end Path

end Layering
