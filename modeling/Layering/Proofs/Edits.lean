import Layering.Descriptor
import Layering.Java.Import
import Layering.Proofs.Encoding

/-!
# Edits

An edit that is made changes the text. A new module or a new import adds lines, and a core class of
which the import goes is not mentioned any more. A changed text is not what the file held either,
whatever line breaks it had.
-/

namespace Layering

namespace Text

/-! ### Lines and words -/

theorem count_unifyBreaks (t : Text) : t.count '\n' ≤ (unifyBreaks t).count '\n' := by
  fun_induction unifyBreaks t with
  | case1 => exact Nat.le_refl _
  | case2 t ih => simp [ih]
  | case3 t _ ih => simp; omega
  | case4 c t _ _ ih =>
    rw [List.count_cons, List.count_cons]
    omega

theorem return_not_mem_unifyBreaks (t : Text) : '\r' ∉ unifyBreaks t := by
  fun_induction unifyBreaks t with
  | case1 => exact List.not_mem_nil
  | case2 t ih => simpa using ih
  | case3 t _ ih => simpa using ih
  | case4 c t _ other ih =>
    rw [List.mem_cons, not_or]
    exact ⟨fun same => other same.symm, ih⟩

theorem unifyBreaks_of_not_mem {t : Text} (none : '\r' ∉ t) : unifyBreaks t = t := by
  fun_induction unifyBreaks t with
  | case1 => rfl
  | case2 t ih => simp at none
  | case3 t _ ih => simp at none
  | case4 c t _ _ ih => rw [ih (List.not_mem_of_not_mem_cons none)]

theorem exists_range {n : Nat} {ranges : List (Nat × Nat)} (inside : inRanges n ranges = true) :
    ∃ r ∈ ranges, r.1 ≤ n ∧ n ≤ r.2 := by
  induction ranges with
  | nil => simp [inRanges] at inside
  | cons range rest ih =>
    obtain ⟨low, high⟩ := range
    rw [inRanges] at inside
    split at inside
    next => cases inside
    next above =>
      rcases Bool.or_eq_true_iff.mp inside with here | later
      · exact ⟨_, List.mem_cons_self, Nat.le_of_not_lt above, of_decide_eq_true here⟩
      · obtain ⟨r, member, bounds⟩ := ih later
        exact ⟨r, List.mem_cons_of_mem _ member, bounds⟩

theorem mem_of_inRanges {n : Nat} {ranges : List (Nat × Nat)} (inside : inRanges n ranges = true) :
    n ∈ ranges.flatMap fun (low, high) => List.range' low (high + 1 - low) := by
  obtain ⟨r, member, low, high⟩ := exists_range inside
  exact List.mem_flatMap.mpr ⟨r, member, List.mem_range'_1.mpr ⟨low, by omega⟩⟩

theorem isWordChar_of_isBlank {c : Char} (blank : isBlank c = true) : isWordChar c = false := by
  have all : ∀ n ∈ blankRanges.flatMap fun (low, high) => List.range' low (high + 1 - low),
      isWordChar (Char.ofNat n) = false := by decide +kernel
  rw [← Char.ofNat_toNat c]
  exact all _ (mem_of_inRanges blank)

/-- A word with no other word right before or after it occurs as a word. -/
theorem occursAsWord_of_append {name : Text} (inhabited : name ≠ [])
    (word : ∀ c ∈ name, isWordChar c = true) {before : Option Char} {left right : Text}
    (first : ((left.getLast?).or before).any isWordChar = false)
    (last : right.head?.any isWordChar = false) :
    occursAsWord name before (left ++ name ++ right) = true := by
  -- Along the text in front, with the character before it let free: the name is a word where it
  -- stands, whatever was tried earlier.
  induction left generalizing before with
  | nil =>
    obtain ⟨c, more, rfl⟩ := List.exists_cons_of_ne_nil inhabited
    have starts : isWordChar c = true := word c List.mem_cons_self
    have ends : isWordChar ((c :: more).getLast inhabited) = true := word _ (List.getLast_mem _)
    have part : (c :: more).isPrefixOf (c :: (more ++ right)) = true :=
      List.isPrefixOf_iff_prefix.mpr ⟨right, rfl⟩
    have rest : (c :: (more ++ right)).drop (c :: more).length = right := List.drop_left
    rw [List.getLast?_nil, Option.none_or] at first
    rw [List.nil_append, List.cons_append, occursAsWord, part, rest,
      List.getLast?_eq_some_getLast inhabited]
    simp [isWordBoundary, first, last, starts, ends]
  | cons d left ih =>
    rw [List.cons_append, List.cons_append, occursAsWord, Bool.or_eq_true_iff]
    refine .inr (ih ?_)
    rcases List.eq_nil_or_concat left with rfl | ⟨more, e, rfl⟩
    · exact first
    · simpa [List.getLast?_cons] using first

theorem firstSuffix?_eq_some {α : Type} {find : Text → Option α} {t : Text} {a : α}
    (found : Text.firstSuffix? find t = some a) : ∃ suffix, suffix <:+ t ∧ find suffix = some a := by
  induction t with
  | nil => exact ⟨[], List.suffix_rfl, found⟩
  | cons c rest ih =>
    rcases Option.or_eq_some_iff.mp found with here | ⟨_, later⟩
    · exact ⟨_, List.suffix_rfl, here⟩
    · obtain ⟨suffix, part, here⟩ := ih later
      exact ⟨suffix, part.trans (List.suffix_cons c rest), here⟩

/-- A line starts behind a text. -/
def LineStart (before : Text) : Prop := before = [] ∨ before.getLast? = some '\n'

theorem getLast?_cons_break {c : Char} {before : Text} {atStart : Bool}
    (first : atStart = true → c = '\n')
    (start : before = [] ∧ atStart = true ∨ before.getLast? = some '\n') :
    (c :: before).getLast? = some '\n' := by
  rcases start with ⟨rfl, atStart⟩ | last
  · rw [first atStart]
    rfl
  · rw [List.getLast?_cons, last]
    rfl

/-- What is found at the first line is found in what follows, at the start of a line. -/
theorem atFirstLine?_spec {α : Type} {find : Text → Option α} {atStart : Bool} {t before : Text}
    {found : α} (h : atFirstLine? find atStart t = some (before, found)) :
    (∃ after, t = before ++ after ∧ find after = some found) ∧
      (before = [] ∧ atStart = true ∨ before.getLast? = some '\n') := by
  -- Along the text: the answer is here, when a line starts here, or at a line further on.
  induction t generalizing atStart before with
  | nil =>
    unfold atFirstLine? at h
    split at h
    next start =>
      obtain ⟨_, here, same⟩ := Option.map_eq_some_iff.mp h
      cases same
      exact ⟨⟨[], rfl, here⟩, .inl ⟨rfl, start⟩⟩
    next => cases h
  | cons c rest ih =>
    unfold atFirstLine? at h
    split at h
    next here =>
      cases h
      split at here
      next start => exact ⟨⟨c :: rest, rfl, here⟩, .inl ⟨rfl, start⟩⟩
      next => cases here
    next =>
      obtain ⟨⟨_, _⟩, later, same⟩ := Option.map_eq_some_iff.mp h
      cases same
      obtain ⟨⟨after, rfl, here⟩, start⟩ := ih later
      exact ⟨⟨after, rfl, here⟩, .inr (getLast?_cons_break of_decide_eq_true start)⟩

/-- What is found at the last line is found in what follows, at the start of a line. -/
theorem atLastLine?_spec {α : Type} {find : Text → Option α} {atStart : Bool} {t before : Text}
    {found : α} (h : atLastLine? find atStart t = some (before, found)) :
    (∃ after, t = before ++ after ∧ find after = some found) ∧
      (before = [] ∧ atStart = true ∨ before.getLast? = some '\n') := by
  -- As for the first line, but what is found further on goes before what is found here.
  induction t generalizing atStart before with
  | nil =>
    unfold atLastLine? at h
    split at h
    next start =>
      obtain ⟨_, here, same⟩ := Option.map_eq_some_iff.mp h
      cases same
      exact ⟨⟨[], rfl, here⟩, .inl ⟨rfl, start⟩⟩
    next => cases h
  | cons c rest ih =>
    unfold atLastLine? at h
    split at h
    next later =>
      cases h
      obtain ⟨⟨after, rfl, here⟩, start⟩ := ih later
      exact ⟨⟨after, rfl, here⟩, .inr (getLast?_cons_break of_decide_eq_true start)⟩
    next =>
      split at h
      next start =>
        obtain ⟨_, here, same⟩ := Option.map_eq_some_iff.mp h
        cases same
        exact ⟨⟨c :: rest, rfl, here⟩, .inl ⟨rfl, start⟩⟩
      next => cases h

theorem atFirstLine?_eq_some {α : Type} {find : Text → Option α} {atStart : Bool} {t before : Text}
    {found : α} (h : atFirstLine? find atStart t = some (before, found)) :
    ∃ after, t = before ++ after ∧ find after = some found := (atFirstLine?_spec h).1

theorem atLastLine?_eq_some {α : Type} {find : Text → Option α} {atStart : Bool} {t before : Text}
    {found : α} (h : atLastLine? find atStart t = some (before, found)) :
    ∃ after, t = before ++ after ∧ find after = some found := (atLastLine?_spec h).1

theorem lineStart_of_first {α : Type} {find : Text → Option α} {t before : Text} {found : α}
    (h : atFirstLine? find true t = some (before, found)) : LineStart before :=
  (atFirstLine?_spec h).2.imp And.left id

theorem lineStart_of_last {α : Type} {find : Text → Option α} {t before : Text} {found : α}
    (h : atLastLine? find true t = some (before, found)) : LineStart before :=
  (atLastLine?_spec h).2.imp And.left id

end Text

/-! ### Descriptors -/

namespace Descriptor

theorem count_moduleLine (indent name : Text) : 0 < (moduleLine indent name).count '\n' := by
  rw [List.count_pos_iff]
  exact List.mem_append_right _ (by decide)

/-- A module that is declared anew adds a line. -/
theorem count_addModule {name descriptor : Text} (new : addModule name descriptor ≠ descriptor) :
    descriptor.count '\n' < (addModule name descriptor).count '\n' := by
  unfold addModule at new ⊢
  -- By the place where the line goes: before the list's end, in a new list in the project, or
  -- behind the text. Each brings a line break.
  split
  next known => exact absurd (if_pos known) new
  next =>
    split
    next before indent found =>
      obtain ⟨after, rfl, _⟩ := Text.atFirstLine?_eq_some found
      have := count_moduleLine (indent ++ "    ") name
      rw [List.drop_left]
      simp only [List.count_append]
      omega
    next =>
      have := count_moduleLine "        " name
      split
      next before _ found =>
        have whole := Text.cut?_eq_some found
        rw [List.append_assoc] at whole
        rw [whole, List.drop_left]
        simp only [List.count_append]
        omega
      next =>
        simp only [List.count_append]
        omega

/-- Unless the module is known, the new descriptor is not what was read, whatever the line breaks
in the file. -/
theorem addModule_ne {name read : Text}
    (new : addModule name (Text.unifyBreaks read) ≠ Text.unifyBreaks read) :
    addModule name (Text.unifyBreaks read) ≠ read := by
  intro same
  have more := count_addModule new
  have := Text.count_unifyBreaks read
  rw [same] at more
  omega

end Descriptor

/-! ### Signatures -/

namespace Java

theorem splitWords_mem {t : Text} {w : SpacedWord} (member : w ∈ (splitWords t).1) :
    (w.space ≠ [] ∧ ∀ c ∈ w.space, Text.isBlank c = true) ∧
      w.word ≠ [] ∧ ∀ c ∈ w.word, Text.isWordChar c = true := by
  fun_induction splitWords t with
  | case1 => cases member
  | case2 t space rest word some words after split ih =>
    rw [split] at ih
    rcases List.mem_cons.mp member with rfl | later
    · rw [not_or] at some
      exact ⟨⟨some.1, fun c => List.mem_takeWhile_imp⟩, some.2, fun c => List.mem_takeWhile_imp⟩
    · exact ih later

/-- The return type of a signature is a word with blanks on both sides. -/
structure Signature.Apart (s : Signature) : Prop where
  start : s.start ≠ [] ∧ s.start.getLast?.any Text.isWordChar = false
  word : s.returnType ≠ [] ∧ ∀ c ∈ s.returnType, Text.isWordChar c = true
  tail : s.tail ≠ [] ∧ s.tail.head?.any Text.isWordChar = false

theorem apart_of_splitSignature {t rest : Text} {s : Signature}
    (h : splitSignature t = some (s, rest)) : s.Apart := by
  simp only [splitSignature, Option.bind_eq_bind, Option.bind_eq_some_iff] at h
  -- The last two words of the signature are its name and its type, each with blanks before it.
  obtain ⟨⟨visibility, rest₁⟩, _, ⟨parameters, rest₂⟩, _, h⟩ := h
  split at h
  next name type modifiers words =>
    split at h
    · cases h
      have member {w : SpacedWord} (listed : w ∈ name :: type :: modifiers) :=
        splitWords_mem (List.mem_reverse.mp (words ▸ listed))
      obtain ⟨⟨some, blank⟩, _⟩ := member List.mem_cons_self
      obtain ⟨⟨some', blank'⟩, word⟩ := member (List.mem_cons_of_mem _ List.mem_cons_self)
      obtain ⟨c, more, space⟩ := List.exists_cons_of_ne_nil some
      have first := Text.isWordChar_of_isBlank (blank c (space ▸ List.mem_cons_self))
      have last := Text.isWordChar_of_isBlank (blank' _ (List.getLast_mem some'))
      refine ⟨⟨by simp [some'], ?_⟩, word, ?_⟩
      · rw [List.getLast?_append_of_ne_nil _ some', List.getLast?_eq_some_getLast some']
        simpa using last
      · simp [SpacedWord.spelling, space, first]
    · cases h
  next => cases h

theorem apart_of_mem_pieces {t : Text} {s : Signature} (member : .signature s ∈ pieces t) :
    s.Apart := by
  fun_induction pieces t with
  | case1 => cases member
  | case2 c rest s' after found _ ih =>
    rcases List.mem_cons.mp member with same | later
    · cases same
      exact apart_of_splitSignature found
    · exact ih later
  | case3 c rest _ ih =>
    rcases List.mem_cons.mp member with same | later
    · cases same
    · exact ih later

variable {mapping : TypeMapping} {source : Text}

/-- A text stays as it is where rewriting keeps every signature. -/
theorem rewriteSignatures_of_forall (kept : ∀ s, .signature s ∈ pieces source → s.rewrite mapping = s) :
    rewriteSignatures mapping source = source := by
  have same : (pieces source).map (·.rewrite mapping) = pieces source := by
    refine List.map_congr_left (g := id) ?_ |>.trans (List.map_id _)
    intro piece member
    cases piece with
    | char c => rfl
    | signature s => exact congrArg Piece.signature (kept s member)
  rw [rewriteSignatures, same, pieces_spelling]

/-- A text that rewriting changes mentions the core class. -/
theorem occursAsWord_of_rewriteSignatures (changed : rewriteSignatures mapping source ≠ source) :
    Text.occursAsWord mapping.coreName none source = true := by
  obtain ⟨s, member, returned⟩ : ∃ s, .signature s ∈ pieces source ∧
      s.returnType = mapping.coreName := by
    -- Some signature returns the type, or else no piece would have changed.
    by_contra none
    exact changed (rewriteSignatures_of_forall fun s member =>
      if_neg fun returned => none ⟨s, member, returned⟩)
  have apart := apart_of_mem_pieces member
  obtain ⟨left, right, split⟩ := List.append_of_mem member
  have whole := pieces_spelling source
  rw [split, List.flatMap_append, List.flatMap_cons] at whole
  have parts : source = (left.flatMap (·.spelling) ++ s.start) ++ mapping.coreName ++
      (s.tail ++ right.flatMap (·.spelling)) := by
    rw [← whole, ← returned]
    simp [Piece.spelling, Signature.spelling]
  rw [parts]
  refine Text.occursAsWord_of_append (returned ▸ apart.word.1) (returned ▸ apart.word.2) ?_ ?_
  · rw [List.getLast?_append_of_ne_nil _ apart.start.1, Option.or_none]
    exact apart.start.2
  · rw [List.head?_append_of_ne_nil _ apart.tail.1]
    exact apart.tail.2

/-- Rewriting changes words only, so that the lines stay. -/
theorem count_rewriteSignatures (plain : '\n' ∉ mapping.apiName) :
    (rewriteSignatures mapping source).count '\n' = source.count '\n' := by
  have each : ∀ piece ∈ pieces source,
      (piece.rewrite mapping).spelling.count '\n' = piece.spelling.count '\n' := by
    intro piece member
    cases piece with
    | char c => rfl
    | signature s =>
      have word : '\n' ∉ s.returnType := fun inside =>
        absurd ((apart_of_mem_pieces member).word.2 _ inside) (by decide)
      rw [Piece.rewrite, Signature.rewrite]
      split
      next => simp [Piece.spelling, Signature.spelling, List.count_eq_zero.mpr word,
        List.count_eq_zero.mpr plain]
      next => rfl
  conv_rhs => rw [← pieces_spelling source]
  rw [rewriteSignatures, List.count_flatMap, List.count_flatMap, List.map_map]
  exact congrArg List.sum (List.map_congr_left each)

/-- Rewriting writes nothing but the name of the type of the contract. -/
theorem mem_of_mem_rewriteSignatures {c : Char} (member : c ∈ rewriteSignatures mapping source) :
    c ∈ source ∨ c ∈ mapping.apiName := by
  obtain ⟨piece, written, inside⟩ := List.mem_flatMap.mp member
  obtain ⟨piece, listed, rfl⟩ := List.mem_map.mp written
  have spelled (there : c ∈ piece.spelling) : c ∈ source := by
    rw [← pieces_spelling source]
    exact List.mem_flatMap.mpr ⟨piece, listed, there⟩
  cases piece with
  | char d => exact .inl (spelled inside)
  | signature s =>
    rw [Piece.rewrite, Signature.rewrite] at inside
    split at inside
    next =>
      simp only [Piece.spelling, Signature.spelling, List.mem_append] at inside spelled
      tauto
    next => exact .inl (spelled inside)

/-! ### Imports -/

variable {t rest : Text}

theorem dropStart?_suffix {start : Text} (h : Text.dropStart? start t = some rest) : rest <:+ t :=
  ⟨start, (Text.dropStart?_eq_some.mp h).symm⟩

theorem dropBlanks?_suffix (h : Text.dropBlanks? t = some rest) : rest <:+ t := by
  unfold Text.dropBlanks? at h
  split at h
  · exact Option.some.inj h ▸ List.dropWhile_suffix _
  · cases h

theorem afterKeyword?_suffix {keyword : Text} (h : afterKeyword? keyword t = some rest) :
    rest <:+ t := by
  obtain ⟨rest', dropped, blanks⟩ := Option.bind_eq_some_iff.mp h
  exact (dropBlanks?_suffix blanks).trans
    ((dropStart?_suffix dropped).trans (List.dropWhile_suffix _))

theorem afterStatement?_suffix (h : afterStatement? t = some rest) : rest <:+ t := by
  obtain ⟨rest', semicolon, rfl⟩ := Option.map_eq_some_iff.mp h
  unfold afterSemicolon? at semicolon
  split at semicolon
  next same =>
    cases semicolon
    refine (List.tail_suffix _).trans ((List.dropWhile_suffix _).trans ?_)
    exact (List.suffix_cons ..).trans (same ▸ List.dropWhile_suffix _)
  next => cases semicolon

theorem afterImported?_suffix (h : afterImported? t = some rest) : rest <:+ t := by
  unfold afterImported? at h
  simp only at h
  split at h
  next rest' same =>
    split at h
    · exact (afterStatement?_suffix h).trans
        ((List.suffix_cons ..).trans (same ▸ List.dropWhile_suffix _))
    · cases h
  next =>
    split at h
    · cases h
    · exact (afterStatement?_suffix h).trans (List.dropWhile_suffix _)

theorem afterImportLine?_suffix (h : afterImportLine? t = some rest) : rest <:+ t := by
  obtain ⟨rest', keyword, imported⟩ := Option.bind_eq_some_iff.mp h
  refine List.IsSuffix.trans ?_ (afterKeyword?_suffix keyword)
  rcases Option.or_eq_some_iff.mp imported with static | ⟨_, plain⟩
  · obtain ⟨rest'', blanks, imported⟩ := Option.bind_eq_some_iff.mp static
    obtain ⟨rest₃, dropped, blanks⟩ := Option.bind_eq_some_iff.mp blanks
    exact (afterImported?_suffix imported).trans
      ((dropBlanks?_suffix blanks).trans (dropStart?_suffix dropped))
  · exact afterImported?_suffix plain

theorem packageLine?_suffix {name : Text} (h : packageLine? t = some (name, rest)) :
    rest <:+ t := by
  obtain ⟨rest', keyword, named⟩ := Option.bind_eq_some_iff.mp h
  simp only at named
  split at named
  · cases named
  · obtain ⟨rest'', statement, same⟩ := Option.map_eq_some_iff.mp named
    cases same
    exact (afterStatement?_suffix statement).trans
      ((List.dropWhile_suffix _).trans (afterKeyword?_suffix keyword))

theorem afterCoreImport?_suffix (h : afterCoreImport? mapping t = some rest) : rest <:+ t := by
  obtain ⟨rest', keyword, named⟩ := Option.bind_eq_some_iff.mp h
  refine List.IsSuffix.trans ?_ (afterKeyword?_suffix keyword)
  split at named
  · obtain ⟨rest'', dropped, statement⟩ := Option.bind_eq_some_iff.mp named
    exact (afterStatement?_suffix statement).trans (dropStart?_suffix dropped)
  · obtain ⟨length, _, found⟩ := List.exists_of_findSome?_eq_some named
    obtain ⟨rest'', dropped, statement⟩ := Option.bind_eq_some_iff.mp found
    exact (afterStatement?_suffix statement).trans
      ((dropStart?_suffix dropped).trans (List.drop_suffix ..))

theorem partBefore_append {after : Text} (part : after <:+ source) :
    partBefore source after ++ after = source := by
  obtain ⟨before, rfl⟩ := part
  have length : (before ++ after).length - after.length = before.length := by simp
  rw [partBefore, length, List.take_left]

/-- Where a new import goes: below the line of the last import, or below that of the package, or
before everything else. -/
inductive NewImport (type source : Text) : Text → Prop
  | belowImports {before line after : Text} (start : Text.LineStart before)
      (split : source = before ++ line) (found : afterImportLine? line = some after) :
      NewImport type source (insertLine (partBefore source after) (importStatement type) after)
  | belowPackage {before line name after : Text} (start : Text.LineStart before)
      (split : source = before ++ line) (found : packageLine? line = some (name, after)) :
      NewImport type source
        (insertLine (partBefore source after) ('\n' :: importStatement type) after)
  | above : NewImport type source (importStatement type ++ "\n\n" ++ source)

theorem newImport_addImport (type source : Text) :
    NewImport type source (addImport type source) := by
  unfold addImport
  simp only
  split
  next before after found =>
    obtain ⟨line, split, here⟩ := Text.atLastLine?_eq_some found
    exact .belowImports (Text.lineStart_of_last found) split here
  next =>
    split
    next before name after found =>
      obtain ⟨line, split, here⟩ := Text.atFirstLine?_eq_some found
      exact .belowPackage (Text.lineStart_of_first found) split here
    next => exact .above

/-- An import goes on a line between two parts of a source, or before everything else. -/
theorem addImport_cases (type source : Text) :
    (∃ before line after, before ++ after = source ∧
      (line = importStatement type ∨ line = '\n' :: importStatement type) ∧
      addImport type source = insertLine before line after) ∨
    addImport type source = importStatement type ++ "\n\n" ++ source := by
  have new := newImport_addImport type source
  generalize addImport type source = text at new ⊢
  cases new with
  | @belowImports before line after _ split found =>
    have part := (afterImportLine?_suffix found).trans (List.suffix_append before line)
    exact .inl ⟨_, _, _, partBefore_append (split ▸ part), .inl rfl, rfl⟩
  | @belowPackage before line name after _ split found =>
    have part := (packageLine?_suffix found).trans (List.suffix_append before line)
    exact .inl ⟨_, _, _, partBefore_append (split ▸ part), .inr rfl, rfl⟩
  | above => exact .inr rfl

/-- A new import adds a line. -/
theorem count_addImport (type source : Text) :
    source.count '\n' < (addImport type source).count '\n' := by
  rcases addImport_cases type source with ⟨before, line, after, rfl, _, same⟩ | same
  · rw [same, insertLine]
    split
    · simp only [List.count_append, List.count_cons_self]
      omega
    · simp only [List.count_append, List.count_cons_self]
      omega
  · have breaks : ("\n\n" : Text).count '\n' = 2 := by decide
    rw [same, List.count_append, List.count_append, breaks]
    omega

theorem mem_of_mem_addImport {type : Text} {c : Char} (member : c ∈ addImport type source)
    (other : c ≠ '\n') : c ∈ source ∨ c ∈ importStatement type := by
  rcases addImport_cases type source with ⟨before, line, after, rfl, statement, run⟩ | run
  · rw [run, insertLine] at member
    grind
  · rw [run] at member
    simp only [List.mem_append] at member
    rcases member with (here | breaks) | there
    · exact .inr here
    · exact absurd (by simpa using breaks) other
    · exact .inl there

theorem dropCoreImport?_eq_some {text line : Text}
    (h : dropCoreImport? mapping source = some (text, line)) :
    Text.occursAsWord mapping.coreName none text = false ∧ ∀ c ∈ text, c ∈ source := by
  obtain ⟨⟨before, after⟩, found, unmentioned⟩ := Option.bind_eq_some_iff.mp h
  simp only at unmentioned
  by_cases mentioned : Text.occursAsWord mapping.coreName none (before ++ after) = true
  · rw [if_pos mentioned] at unmentioned
    cases unmentioned
  · rw [if_neg mentioned] at unmentioned
    cases unmentioned
    obtain ⟨line, rfl, here⟩ := Text.atFirstLine?_eq_some found
    have part := afterCoreImport?_suffix here
    refine ⟨Bool.eq_false_iff.mpr mentioned, fun c member => ?_⟩
    rcases List.mem_append.mp member with first | last
    · exact List.mem_append_left _ first
    · exact List.mem_append_right _ (part.subset last)

/-- A source with the type of the contract imported where needed. -/
def withImport (mapping : TypeMapping) (source : Text) : Text :=
  if needsImport mapping source then addImport mapping.api source else source

/-- Reconciling adds an import where needed and may then drop that of a core class which nothing
mentions. -/
theorem reconcileImports_cases (mapping : TypeMapping) (source : Text) :
    (reconcileImports mapping source).text = withImport mapping source ∨
      Text.occursAsWord mapping.coreName none (reconcileImports mapping source).text = false ∧
        ∀ c ∈ (reconcileImports mapping source).text, c ∈ withImport mapping source := by
  unfold reconcileImports withImport
  cases needsImport mapping source with
  | true =>
    simp only [if_true]
    cases dropped : dropCoreImport? mapping (addImport mapping.api source) with
    | none => exact .inl rfl
    | some edit => exact .inr (dropCoreImport?_eq_some dropped)
  | false =>
    simp only [Bool.false_eq_true, if_false]
    cases dropped : dropCoreImport? mapping source with
    | none => exact .inl rfl
    | some edit => exact .inr (dropCoreImport?_eq_some dropped)

theorem mem_of_mem_simpleName {name : Text} {c : Char} (member : c ∈ TypeMapping.simpleName name) :
    c ∈ name := by
  unfold TypeMapping.simpleName Text.afterLast at member
  exact List.mem_reverse.mp (List.takeWhile_subset _ (List.mem_reverse.mp member))

variable (plain : ∀ c ∈ mapping.api, isQualifiedPart c = true)
include plain

theorem plain_apiName : ∀ c ∈ mapping.apiName, isQualifiedPart c = true :=
  fun c member => plain c (mem_of_mem_simpleName member)

/-- Where rewriting changes a text, so do the imports after it. -/
theorem reconcileImports_ne (changed : rewriteSignatures mapping source ≠ source) :
    (reconcileImports mapping (rewriteSignatures mapping source)).text ≠ source := by
  have breaks : '\n' ∉ mapping.apiName := fun inside =>
    absurd (plain_apiName plain _ inside) (by decide)
  have lines : (rewriteSignatures mapping source).count '\n' = source.count '\n' :=
    count_rewriteSignatures breaks
  intro same
  rcases reconcileImports_cases mapping (rewriteSignatures mapping source) with kept | ⟨absent, _⟩
  · rw [same, withImport] at kept
    split at kept
    · have more := count_addImport mapping.api (rewriteSignatures mapping source)
      rw [← kept, lines] at more
      exact Nat.lt_irrefl _ more
    · exact changed kept.symm
  · -- The source mentions the core class, and the new text does not.
    rw [same, occursAsWord_of_rewriteSignatures changed] at absent
    cases absent

theorem return_not_mem_importStatement : '\r' ∉ importStatement mapping.api := by
  refine List.not_mem_append (List.not_mem_append (by decide) fun inside => ?_) (by decide)
  exact absurd (plain _ inside) (by decide)

theorem return_not_mem_reconcileImports (none : '\r' ∉ source) :
    '\r' ∉ (reconcileImports mapping (rewriteSignatures mapping source)).text := by
  -- No return can come from the rewriting, the import or the removal: each writes only letters
  -- of qualified names, spaces and breaks.
  have word : isQualifiedPart '\r' = false := by decide
  have rewritten : '\r' ∉ rewriteSignatures mapping source := by
    intro member
    rcases mem_of_mem_rewriteSignatures member with there | inside
    · exact none there
    · cases word.symm.trans (plain_apiName plain _ inside)
  have added : '\r' ∉ withImport mapping (rewriteSignatures mapping source) := by
    unfold withImport
    split
    · intro member
      rcases mem_of_mem_addImport member (by decide) with there | statement
      · exact rewritten there
      · exact return_not_mem_importStatement plain statement
    · exact rewritten
  rcases reconcileImports_cases mapping (rewriteSignatures mapping source) with same | ⟨_, part⟩
  · rw [same]
    exact added
  · exact fun member => added (part _ member)

/-- A source that is corrected is not what was read, whatever the line breaks in the file. -/
theorem reconcileImports_ne_read {read : Text}
    (changed : rewriteSignatures mapping (Text.unifyBreaks read) ≠ Text.unifyBreaks read) :
    (reconcileImports mapping (rewriteSignatures mapping (Text.unifyBreaks read))).text ≠ read := by
  intro same
  have none := return_not_mem_reconcileImports plain (Text.return_not_mem_unifyBreaks read)
  rw [same] at none
  refine reconcileImports_ne plain changed (same.trans ?_)
  exact (Text.unifyBreaks_of_not_mem none).symm

end Java

end Layering
