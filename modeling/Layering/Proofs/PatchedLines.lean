import Layering.Proofs.Reconciling
import Layering.Proofs.Repetition

/-!
# Lines of a patched source

A correction of return types changes the lines on which these stand, adds an import and takes one
away. All other lines of a file without carriage returns are the same bytes as before, in the same
order. A carriage return is lost on every line, since a source is read with line feeds for all line
breaks and written as it was read.
-/

namespace Layering

/-! ### Lines -/

section

variable {α : Type} [DecidableEq α] {brk : α}

/-- The parts between breaks. What follows the last break is a line unless it is empty. -/
def linesOf (brk : α) : List α → List (List α)
  | [] => []
  | x :: rest =>
    if x = brk then [] :: linesOf brk rest
    else match linesOf brk rest with
      | [] => [[x]]
      | line :: more => (x :: line) :: more

@[simp] theorem linesOf_nil : linesOf brk [] = [] := rfl

@[simp] theorem linesOf_break (rest : List α) : linesOf brk (brk :: rest) = [] :: linesOf brk rest := by
  rw [linesOf, if_pos rfl]

theorem linesOf_cons_of_ne {x : α} (other : x ≠ brk) (rest : List α) :
    linesOf brk (x :: rest) = (x :: (linesOf brk rest).headD []) :: (linesOf brk rest).tail := by
  rw [linesOf, if_neg other]
  cases linesOf brk rest <;> rfl

theorem linesOf_eq_nil {xs : List α} : linesOf brk xs = [] ↔ xs = [] := by
  constructor
  · intro none
    cases xs with
    | nil => rfl
    | cons x rest =>
      rw [linesOf] at none
      split at none
      · cases none
      · split at none <;> cases none
  · rintro rfl
    rfl

/-- Lines behind a break are lines by themselves. -/
theorem linesOf_append_break (before after : List α) :
    linesOf brk (before ++ brk :: after) = linesOf brk (before ++ [brk]) ++ linesOf brk after := by
  induction before with
  | nil => simp
  | cons x before ih =>
    rw [List.cons_append, List.cons_append, linesOf, linesOf, ih]
    split
    · rfl
    · cases lines : linesOf brk (before ++ [brk]) with
      | nil => exact absurd (linesOf_eq_nil.mp lines) (by simp)
      | cons line more => rfl

/-- A part that starts with a line has its own lines. -/
theorem linesOf_append {before : List α} (starts : before = [] ∨ before.getLast? = some brk)
    (after : List α) : linesOf brk (before ++ after) = linesOf brk before ++ linesOf brk after := by
  rcases starts with rfl | last
  · rfl
  · obtain ⟨front, rfl⟩ := List.getLast?_eq_some_iff.mp last
    rw [List.append_assoc, List.singleton_append, linesOf_append_break]

/-- What has no break goes to the front of the first line. -/
theorem linesOf_append_of_not_mem {word : List α} (some : word ≠ []) (whole : brk ∉ word)
    (after : List α) : linesOf brk (word ++ after) = match linesOf brk after with
      | [] => [word]
      | line :: more => (word ++ line) :: more := by
  induction word with
  | nil => exact absurd rfl some
  | cons x word ih =>
    obtain ⟨other, whole⟩ := List.ne_and_not_mem_of_not_mem_cons whole
    rw [List.cons_append, linesOf, if_neg (Ne.symm other)]
    by_cases last : word = []
    · rw [last]
      rfl
    · rw [ih last whole]
      cases linesOf brk after <;> rfl

/-- A break at the end of a last line adds no line. -/
theorem linesOf_close {xs : List α} (some : xs ≠ []) (last : xs.getLast? ≠ .some brk) :
    linesOf brk (xs ++ [brk]) = linesOf brk xs := by
  induction xs with
  | nil => exact absurd rfl some
  | cons x xs ih =>
    rw [List.cons_append, linesOf, linesOf]
    by_cases single : xs = []
    · subst single
      have other : x ≠ brk := by
        rintro rfl
        exact last rfl
      rw [if_neg other, if_neg other]
      simp
    · rw [ih single fun same => last (by rw [List.getLast?_cons, same]; rfl)]

/-- The edit of a word changes the line that it stands on and no other. -/
theorem linesOf_replace {word word' : List α} (some : word ≠ []) (some' : word' ≠ [])
    (whole : brk ∉ word) (whole' : brk ∉ word') (before after : List α) :
    (linesOf brk (before ++ word' ++ after)).length = (linesOf brk (before ++ word ++ after)).length ∧
      ∀ i, i ≠ before.count brk →
        (linesOf brk (before ++ word' ++ after))[i]? = (linesOf brk (before ++ word ++ after))[i]? := by
  induction before with
  | nil =>
    rw [List.nil_append, List.nil_append, linesOf_append_of_not_mem some whole,
      linesOf_append_of_not_mem some' whole']
    cases linesOf brk after with
    | nil =>
      refine ⟨rfl, fun i other => ?_⟩
      obtain ⟨i, rfl⟩ := Nat.exists_eq_succ_of_ne_zero other
      rfl
    | cons line more =>
      refine ⟨rfl, fun i other => ?_⟩
      obtain ⟨i, rfl⟩ := Nat.exists_eq_succ_of_ne_zero other
      rfl
  | cons x before ih =>
    obtain ⟨same, kept⟩ := ih
    simp only [List.cons_append]
    -- A break ahead moves the line of the word by one; any other sign only prolongs the first line.
    by_cases break_ : x = brk
    · subst break_
      rw [linesOf_break, linesOf_break, List.length_cons, List.length_cons, same]
      refine ⟨rfl, fun i other => ?_⟩
      cases i with
      | zero => rfl
      | succ i =>
        rw [List.count_cons_self] at other
        exact kept i fun here => other (by rw [here])
    · have count : (x :: before).count brk = before.count brk := List.count_cons_of_ne break_
      rw [count, linesOf_cons_of_ne break_, linesOf_cons_of_ne break_]
      refine ⟨by simp only [List.length_cons, List.length_tail, same], fun i other => ?_⟩
      have here := kept i other
      cases i with
      | zero =>
        rw [← List.head?_eq_getElem?, ← List.head?_eq_getElem?] at here
        simp only [List.headD_eq_head?_getD, here, List.getElem?_cons_zero]
      | succ i => simpa only [List.getElem?_cons_succ, List.getElem?_tail] using here

end

/-- A byte below 0x80 is a character of its own. -/
theorem Utf8.toNat_of_mem_utf8EncodeChar {c : Char} {b : UInt8} (small : b.toNat < 0x80)
    (member : b ∈ String.utf8EncodeChar c) : c.toNat = b.toNat := by
  have valid := c.valid
  simp only [UInt32.isValidChar, Nat.isValidChar] at valid
  unfold Char.toNat
  unfold String.utf8EncodeChar at member
  generalize c.val.toNat = v at valid member ⊢
  simp only at member
  have byte {n : Nat} (bound : n < 256) (same : b = UInt8.ofNat n) : b.toNat = n := by
    rw [same, toNat_ofNat_byte bound]
  split at member
  next => exact (byte (by omega) (List.mem_singleton.mp member)).symm
  split at member
  next =>
    simp only [List.mem_cons, List.not_mem_nil, or_false] at member
    rcases member with here | here <;> have := byte (by omega) here <;> omega
  split at member
  next =>
    simp only [List.mem_cons, List.not_mem_nil, or_false] at member
    rcases member with here | here | here <;> have := byte (by omega) here <;> omega
  next =>
    simp only [List.mem_cons, List.not_mem_nil, or_false] at member
    rcases member with here | here | here | here <;> have := byte (by omega) here <;> omega

/-- The lines of bytes. -/
def Bytes.lines (bytes : Bytes) : List Bytes := linesOf 0x0A bytes

/-- The lines of a text are those of its bytes. -/
theorem Bytes.lines_encode (t : Text) :
    Bytes.lines (Utf8.encode t) = (linesOf '\n' t).map Utf8.encode := by
  induction t with
  | nil => rfl
  | cons c t ih =>
    have one : Utf8.encode (c :: t) = String.utf8EncodeChar c ++ Utf8.encode t := rfl
    unfold Bytes.lines at ih ⊢
    by_cases break_ : c = '\n'
    · subst break_
      have byte : String.utf8EncodeChar '\n' = [0x0A] := by decide
      rw [one, byte, List.singleton_append, linesOf_break, linesOf_break, ih]
      rfl
    · have whole : 0x0A ∉ String.utf8EncodeChar c := fun member =>
        break_ (Char.toNat_inj.mp (Utf8.toNat_of_mem_utf8EncodeChar (by decide) member))
      rw [one, linesOf_append_of_not_mem String.utf8EncodeChar_ne_nil whole, linesOf_cons_of_ne break_, ih]
      cases linesOf '\n' t with
      | nil => simp [Utf8.encode]
      | cons line more => rfl

namespace Java

variable {mapping : TypeMapping} {source : Text}

/-! ### Return types -/

/-- The return type of a signature that is rewritten stands on a line, counted from zero. -/
def Retyped (mapping : TypeMapping) (source : Text) (i : Nat) : Prop :=
  ∃ early s late, pieces source = early ++ .signature s :: late ∧ s.returnType = mapping.coreName ∧
    i = (early.flatMap (·.spelling) ++ s.start).count '\n'

section

variable (inhabited : mapping.apiName ≠ []) (single : '\n' ∉ mapping.apiName)
include inhabited single

/-- Rewriting one piece changes no line but that of its return type. -/
theorem linesOf_rewrite_piece {piece : Piece}
    (words : ∀ s, piece = .signature s → s.returnType ≠ [] ∧ '\n' ∉ s.returnType) (front rest : Text) :
    (piece.rewrite mapping).spelling.count '\n' = piece.spelling.count '\n' ∧
      (linesOf '\n' (front ++ (piece.rewrite mapping).spelling ++ rest)).length =
        (linesOf '\n' (front ++ piece.spelling ++ rest)).length ∧
      ∀ i, (∀ s, piece = .signature s → s.returnType = mapping.coreName →
          i ≠ (front ++ s.start).count '\n') →
        (linesOf '\n' (front ++ (piece.rewrite mapping).spelling ++ rest))[i]? =
          (linesOf '\n' (front ++ piece.spelling ++ rest))[i]? := by
  cases piece with
  | char c => exact ⟨rfl, rfl, fun _ _ => rfl⟩
  | signature s =>
    by_cases core : s.returnType = mapping.coreName
    · obtain ⟨some, whole⟩ := words s rfl
      have parts (type : Text) : front ++ (s.start ++ type ++ s.tail) ++ rest =
          (front ++ s.start) ++ type ++ (s.tail ++ rest) := by simp
      have replaced := linesOf_replace some inhabited whole single (front ++ s.start) (s.tail ++ rest)
      rw [Piece.rewrite, Signature.rewrite, if_pos core, Piece.spelling, Piece.spelling,
        Signature.spelling, Signature.spelling, parts, parts]
      refine ⟨?_, replaced.1, fun i other => replaced.2 i (other s rfl core)⟩
      simp only [List.count_append, List.count_eq_zero.mpr whole, List.count_eq_zero.mpr single]
    · rw [Piece.rewrite, Signature.rewrite, if_neg core]
      exact ⟨rfl, rfl, fun _ _ => rfl⟩

/-- Rewriting the pieces behind a text changes no lines but those of their return types. -/
theorem linesOf_rewrite {parts : List Piece}
    (words : ∀ s, .signature s ∈ parts → s.returnType ≠ [] ∧ '\n' ∉ s.returnType) (front : Text) :
    (linesOf '\n' (front ++ (parts.map (·.rewrite mapping)).flatMap (·.spelling))).length =
        (linesOf '\n' (front ++ parts.flatMap (·.spelling))).length ∧
      ∀ i, (∀ early s late, parts = early ++ .signature s :: late → s.returnType = mapping.coreName →
          i ≠ (front ++ (early.flatMap (·.spelling) ++ s.start)).count '\n') →
        (linesOf '\n' (front ++ (parts.map (·.rewrite mapping)).flatMap (·.spelling)))[i]? =
          (linesOf '\n' (front ++ parts.flatMap (·.spelling)))[i]? := by
  induction parts generalizing front with
  | nil => exact ⟨rfl, fun _ _ => rfl⟩
  | cons piece parts ih =>
    -- First this piece is rewritten, and then those behind it.
    obtain ⟨breaks, length, kept⟩ := linesOf_rewrite_piece inhabited single
      (fun s (same : piece = .signature s) => words s (same ▸ List.mem_cons_self)) front (parts.flatMap (·.spelling))
    obtain ⟨length', kept'⟩ := ih (fun s member => words s (List.mem_cons_of_mem _ member))
      (front ++ (piece.rewrite mapping).spelling)
    simp only [List.map_cons, List.flatMap_cons, ← List.append_assoc]
    refine ⟨length'.trans length, fun i other => (kept' i ?_).trans (kept i ?_)⟩
    · intro early s late split core
      have here := other (piece :: early) s late (by rw [split]; rfl) core
      simp only [List.flatMap_cons, List.count_append, breaks] at here ⊢
      omega
    · intro s same core
      have here := other [] s parts (by rw [same]; rfl) core
      simpa using here

/-- Rewriting signatures changes no lines but those of their return types. -/
theorem linesOf_rewriteSignatures (source : Text) :
    (linesOf '\n' (rewriteSignatures mapping source)).length = (linesOf '\n' source).length ∧
      ∀ i, ¬Retyped mapping source i →
        (linesOf '\n' (rewriteSignatures mapping source))[i]? = (linesOf '\n' source)[i]? := by
  have words (s : Signature) (member : .signature s ∈ pieces source) :
      s.returnType ≠ [] ∧ '\n' ∉ s.returnType := by
    have apart := apart_of_mem_pieces member
    exact ⟨apart.word.1, fun inside => absurd (apart.word.2 _ inside) (by decide)⟩
  obtain ⟨length, kept⟩ := linesOf_rewrite inhabited single words []
  rw [List.nil_append, List.nil_append, pieces_spelling] at length kept
  exact ⟨length, fun i other => kept i fun early s late split core same =>
    other ⟨early, s, late, split, core, same⟩⟩

end

/-! ### Imports -/

/-- What follows is the rest behind a line, or nothing. -/
def EndsLine (t after : Text) : Prop :=
  ∃ front, t = front ++ after ∧ (after = [] ∨ front.getLast? = some '\n')

theorem EndsLine.of_suffix {t part after : Text} (ends : EndsLine part after) (inner : part <:+ t) :
    EndsLine t after := by
  obtain ⟨before, rfl⟩ := inner
  obtain ⟨front, rfl, last⟩ := ends
  refine ⟨before ++ front, (List.append_assoc ..).symm, last.imp_right fun last => ?_⟩
  rw [List.getLast?_append, last]
  rfl

/-- A text has the lines before the end of a line and those behind. -/
theorem linesOf_of_endsLine {front after : Text} (ends : EndsLine (front ++ after) after) :
    linesOf '\n' (front ++ after) = linesOf '\n' front ++ linesOf '\n' after := by
  obtain ⟨front', same, last⟩ := ends
  obtain rfl := List.append_cancel_right same
  rcases last with rfl | last
  · rw [List.append_nil, linesOf_nil, List.append_nil]
  · exact linesOf_append (.inr last) after

theorem endsLine_afterLine (t : Text) : EndsLine t (afterLine t) := by
  have whole := (List.takeWhile_append_dropWhile (p := (· ≠ '\n')) (l := t)).symm
  unfold afterLine
  cases rest : t.dropWhile (· ≠ '\n') with
  | nil => exact ⟨t, (List.append_nil t).symm, .inl rfl⟩
  | cons c more =>
    have first := List.head?_dropWhile_not (· ≠ '\n') t
    rw [rest] at first
    have break_ : c = '\n' := by simpa using first
    subst break_
    rw [rest, List.append_cons] at whole
    exact ⟨_, whole, .inr (by simp)⟩

/-- A statement is read to the end of its line. -/
theorem Statement.endsLine {read : Text → Option Text} (statement : Statement read) {t after : Text}
    (found : read t = some after) : EndsLine t after := by
  obtain ⟨head, rest, rfl, free, _⟩ := statement.ends found
  rcases statement.append free with none | every
  · cases (none rest).symm.trans found
  · cases (every rest).symm.trans found
    exact (endsLine_afterLine rest).of_suffix ((List.suffix_cons ..).trans (List.suffix_append ..))

/-- The import of a core class is read to the end of its line. -/
theorem endsLine_afterCoreImport? {t after : Text} (found : afterCoreImport? mapping t = some after) :
    EndsLine t after := by
  obtain ⟨rest, keyword, named⟩ := Option.bind_eq_some_iff.mp found
  refine EndsLine.of_suffix ?_ (afterKeyword?_suffix keyword)
  split at named
  · obtain ⟨ahead, dropped, statement⟩ := Option.bind_eq_some_iff.mp named
    exact (statement_afterStatement?.endsLine statement).of_suffix (dropStart?_suffix dropped)
  · obtain ⟨length, _, found⟩ := List.exists_of_findSome?_eq_some named
    obtain ⟨ahead, dropped, statement⟩ := Option.bind_eq_some_iff.mp found
    exact (statement_afterStatement?.endsLine statement).of_suffix
      ((dropStart?_suffix dropped).trans (List.drop_suffix ..))

theorem linesOf_single {line : Text} (some : line ≠ []) (single : '\n' ∉ line) :
    linesOf '\n' line = [line] := by
  have alone := linesOf_append_of_not_mem some single []
  rwa [List.append_nil] at alone

/-- A line that goes in is a line, and those before and behind it stay. -/
theorem linesOf_insertLine (before line after : Text) : linesOf '\n' (insertLine before line after) =
    linesOf '\n' before ++ linesOf '\n' (line ++ ['\n']) ++ linesOf '\n' after := by
  unfold insertLine
  split
  next start =>
    have starts : before = [] ∨ before.getLast? = some '\n' := by simpa using start
    rw [List.append_assoc, linesOf_append starts, linesOf_append_break, List.append_assoc]
  next open_ =>
    have open_ : before ≠ [] ∧ before.getLast? ≠ some '\n' := by simpa using open_
    have starts : (before ++ ['\n']).getLast? = some '\n' := by simp
    rw [List.append_assoc, linesOf_append (.inr starts), linesOf_close open_.1 open_.2,
      linesOf_append_break, List.append_assoc]

/-- How the import of a type comes into lines, and what is reported of it. -/
inductive AddedLines (type : Text) : List Text → List Text → Prop
  | nothing : AddedLines type [] []
  | line : AddedLines type [importStatement type] ["+ " ++ importStatement type]
  | below : AddedLines type [[], importStatement type] ["+ " ++ importStatement type]
  | above : AddedLines type [importStatement type, []] ["+ " ++ importStatement type]

/-- The lines that go with the import of a core class, and what is reported of them. -/
inductive RemovedLines (mapping : TypeMapping) : List Text → List Text → Prop
  | nothing : RemovedLines mapping [] []
  | line {line after : Text} (found : afterCoreImport? mapping (line ++ after) = some after) :
    RemovedLines mapping (linesOf '\n' line) ["- " ++ Text.trim line]

theorem linesOf_addImport {type : Text} (single : '\n' ∉ type) (source : Text) :
    ∃ early late added, linesOf '\n' source = early ++ late ∧
      AddedLines type added ["+ " ++ importStatement type] ∧
      linesOf '\n' (addImport type source) = early ++ added ++ late := by
  have some : importStatement type ≠ [] := List.append_ne_nil_of_right_ne_nil _ (by decide)
  have single : '\n' ∉ importStatement type :=
    List.not_mem_append (List.not_mem_append (by decide) single) (by decide)
  have statement : linesOf '\n' (importStatement type ++ ['\n']) = [importStatement type] := by
    rw [linesOf_close some fun last => single (List.mem_of_getLast? last), linesOf_single some single]
  have new := newImport_addImport type source
  generalize addImport type source = text at new ⊢
  cases new with
  | @belowImports before line after _ split found =>
    have ends := (statement_afterImportLine?.endsLine found).of_suffix (List.suffix_append before line)
    rw [← split] at ends
    have parts := partBefore_append (ends.elim fun _ split => ⟨_, split.1.symm⟩)
    refine ⟨linesOf '\n' (partBefore source after), linesOf '\n' after, _, ?_, .line, ?_⟩
    · rw [← parts] at ends
      rw [← linesOf_of_endsLine ends, parts]
    · rw [linesOf_insertLine, statement]
  | @belowPackage before line name after _ split found =>
    have ends := (statement_packageLine?.endsLine (congrArg (Option.map (·.2)) found)).of_suffix
      (List.suffix_append before line)
    rw [← split] at ends
    have parts := partBefore_append (ends.elim fun _ split => ⟨_, split.1.symm⟩)
    refine ⟨linesOf '\n' (partBefore source after), linesOf '\n' after, _, ?_, .below, ?_⟩
    · rw [← parts] at ends
      rw [← linesOf_of_endsLine ends, parts]
    · rw [linesOf_insertLine, List.cons_append, linesOf_break, statement]
  | above =>
    refine ⟨[], _, _, rfl, .above, ?_⟩
    have parts : importStatement type ++ "\n\n" ++ source =
        importStatement type ++ '\n' :: '\n' :: source := List.append_assoc ..
    rw [parts, linesOf_append_break, statement, linesOf_break]
    rfl

/-- Where the import of the core class goes, its lines go and the others stay. -/
theorem linesOf_dropCoreImport? {text line : Text}
    (dropped : dropCoreImport? mapping source = some (text, line)) :
    ∃ before removed after, linesOf '\n' source = before ++ removed ++ after ∧
      RemovedLines mapping removed ["- " ++ Text.trim line] ∧ linesOf '\n' text = before ++ after := by
  obtain ⟨⟨before, after⟩, found, kept⟩ := Option.bind_eq_some_iff.mp dropped
  simp only at kept
  split at kept
  · cases kept
  obtain ⟨rest, rfl, here⟩ := Text.atFirstLine?_eq_some found
  have starts := Text.lineStart_of_first found
  have ends := endsLine_afterCoreImport? here
  obtain ⟨line', rfl, _⟩ := id ends
  cases kept
  have part : (partBefore (before ++ (line' ++ after)) after).drop before.length = line' := by
    have parts : partBefore (before ++ (line' ++ after)) after ++ after = before ++ (line' ++ after) :=
      partBefore_append ((List.suffix_append line' after).trans (List.suffix_append before _))
    rw [← List.append_assoc] at parts
    rw [← List.append_assoc, List.append_cancel_right parts, List.drop_left]
  refine ⟨linesOf '\n' before, linesOf '\n' line', linesOf '\n' after, ?_, ?_, linesOf_append starts _⟩
  · rw [linesOf_append starts, linesOf_of_endsLine ends, List.append_assoc]
  · rw [part]
    exact .line here

/-- Reconciling imports takes a line in at one place and takes lines away at one place. -/
theorem linesOf_reconcileImports (single : '\n' ∉ mapping.api) (source : Text) :
    ∃ early late before after added removed addedDiffs removedDiffs,
      linesOf '\n' source = early ++ late ∧ AddedLines mapping.api added addedDiffs ∧
      early ++ added ++ late = before ++ removed ++ after ∧
      RemovedLines mapping removed removedDiffs ∧
      linesOf '\n' (reconcileImports mapping source).text = before ++ after ∧
      (reconcileImports mapping source).diffs = addedDiffs ++ removedDiffs := by
  -- What comes in, and how the text with it is reported.
  obtain ⟨early, late, added, addedDiffs, split, adds, wider, kept, cut⟩ :
      ∃ early late added addedDiffs, linesOf '\n' source = early ++ late ∧
        AddedLines mapping.api added addedDiffs ∧
        linesOf '\n' (withImport mapping source) = early ++ added ++ late ∧
        (dropCoreImport? mapping (withImport mapping source) = none →
          reconcileImports mapping source = ⟨withImport mapping source, addedDiffs⟩) ∧
        ∀ text line, dropCoreImport? mapping (withImport mapping source) = some (text, line) →
          reconcileImports mapping source = ⟨text, addedDiffs ++ ["- " ++ Text.trim line]⟩ := by
    unfold reconcileImports withImport
    cases needsImport mapping source with
    | true =>
      obtain ⟨early, late, added, split, adds, wider⟩ := linesOf_addImport single source
      refine ⟨early, late, added, _, split, adds, wider, ?_, ?_⟩
      · intro dropped
        simp only [if_true] at dropped ⊢
        rw [dropped]
      · intro text line dropped
        simp only [if_true] at dropped ⊢
        rw [dropped]
    | false =>
      refine ⟨linesOf '\n' source, [], [], [], by simp, .nothing, by simp, ?_, ?_⟩
      · intro dropped
        simp only [Bool.false_eq_true, if_false] at dropped ⊢
        rw [dropped]
      · intro text line dropped
        simp only [Bool.false_eq_true, if_false] at dropped ⊢
        rw [dropped]
  cases dropped : dropCoreImport? mapping (withImport mapping source) with
  | none =>
    refine ⟨early, late, early ++ added ++ late, [], added, [], addedDiffs, [], split, adds, by simp,
      .nothing, ?_, ?_⟩
    · rw [kept dropped, List.append_nil]
      exact wider
    · rw [kept dropped, List.append_nil]
  | some found =>
    obtain ⟨text, line⟩ := found
    obtain ⟨before, removed, after, whole, removes, left⟩ := linesOf_dropCoreImport? dropped
    refine ⟨early, late, before, after, added, removed, addedDiffs, _, split, adds,
      wider.symm.trans whole, removes, ?_, ?_⟩
    · rw [cut text line dropped]
      exact left
    · rw [cut text line dropped]

/-! ### Corrections -/

/-- New lines come from old ones by the edits that are reported: return types change on their lines,
then the import of the type of the contract may come in, and last that of the core class may go. -/
def Relined (mapping : TypeMapping) (source : Text) (diffs : List Text) (old new : List Bytes) : Prop :=
  ∃ retyped early late before after : List Bytes, ∃ added removed addedDiffs removedDiffs : List Text,
    retyped.length = old.length ∧ (∀ i, ¬Retyped mapping source i → retyped[i]? = old[i]?) ∧
    retyped = early ++ late ∧ AddedLines mapping.api added addedDiffs ∧
    early ++ added.map Utf8.encode ++ late = before ++ removed.map Utf8.encode ++ after ∧
    RemovedLines mapping removed removedDiffs ∧ new = before ++ after ∧
    diffs = signatureDiffs mapping source ++ (addedDiffs ++ removedDiffs)

theorem relined (inhabited : mapping.apiName ≠ []) (plain : ∀ c ∈ mapping.api, isQualifiedPart c = true)
    (source : Text) :
    Relined mapping source
      (signatureDiffs mapping source ++
        (reconcileImports mapping (rewriteSignatures mapping source)).diffs)
      (Utf8.encode source).lines
      (Utf8.encode (reconcileImports mapping (rewriteSignatures mapping source)).text).lines := by
  have break_ : isQualifiedPart '\n' = false := by decide
  have single : '\n' ∉ mapping.api := fun inside => by cases break_.symm.trans (plain _ inside)
  have single' : '\n' ∉ mapping.apiName := fun inside => by
    cases break_.symm.trans (plain_apiName plain _ inside)
  obtain ⟨length, kept⟩ := linesOf_rewriteSignatures inhabited single' source
  obtain ⟨early, late, before, after, added, removed, addedDiffs, removedDiffs, split, adds, whole,
    removes, left, diffs⟩ := linesOf_reconcileImports single (rewriteSignatures mapping source)
  refine ⟨(Utf8.encode (rewriteSignatures mapping source)).lines, early.map Utf8.encode,
    late.map Utf8.encode, before.map Utf8.encode, after.map Utf8.encode, added, removed, addedDiffs,
    removedDiffs, ?_, fun i other => ?_, ?_, adds, ?_, removes, ?_, by rw [diffs]⟩
  · rw [Bytes.lines_encode, Bytes.lines_encode, List.length_map, List.length_map, length]
  · rw [Bytes.lines_encode, Bytes.lines_encode, List.getElem?_map, List.getElem?_map, kept i other]
  · rw [Bytes.lines_encode, split, List.map_append]
  · simpa only [List.map_append] using congrArg (List.map Utf8.encode) whole
  · rw [Bytes.lines_encode, left, List.map_append]

end Java

/-- What a fixer has repaired by a patch is reported with the diffs of the patch. -/
theorem Fixer.diffs_proposing {name description : Text} {priority : Int} {rules : List Text}
    {targets : RepairContext → Violation → Site → Except Failure (List Path)}
    {propose : RepairContext → Violation → Site → Except Failure Proposal}
    {c : RepairContext} {v : Violation} {s s' : Site} {o : Outcome} {p : Patch}
    (run : (proposing name description priority rules targets propose).repair c v s = (.ok o, s'))
    (fixed : o.status = .fixed) (offered : propose c v s = .ok (.patch p)) : o.diffs = p.diffs := by
  rw [offers_proposing] at run
  split at run
  next proposal known =>
    simp only at known
    split at known
    · cases offered.symm.trans known
      obtain ⟨s₁, _, applied⟩ := p.apply_apply c v s
      rw [Proposal.take, applied] at run
      split at run
      · cases run
        unfold Outcome.found
        split <;> rfl
      · cases run
    · cases known
      cases run
      cases fixed
  next => cases run

namespace ReturnTypes

variable {c : RepairContext} {v : Violation} {s s' : Site} {o : Outcome}

/-- The file that is corrected, the core class and the mapping for it, and what is in the file. -/
structure Corrects (c : RepairContext) (v : Violation) (s : Site) (file : Path)
    (mapping : TypeMapping) (bytes : Bytes) (source : Text) : Prop where
  found : source? v s = .ok (some file)
  resolved : ∃ core, c.mappings.mentioned? v.message = some core ∧
    c.mappings.resolve? core = some mapping
  held : s.readBytes file = .ok bytes
  decoded : Utf8.decode bytes = .ok source

theorem diffs_of_patch? {file : Path} {core content : Text} {mapping : TypeMapping} {p : Patch}
    (made : patch? file core mapping content = some p) :
    p.diffs = Java.signatureDiffs mapping content ++
      (Java.reconcileImports mapping (Java.rewriteSignatures mapping content)).diffs := by
  unfold patch? at made
  simp only at made
  split at made
  · cases made
  · cases made
    rfl

/-- A correction changes no lines but those that it reports, in a file without carriage returns. -/
theorem patched_lines (sound : s.tree.Sound) (housed : s.Housed)
    (dotted : ∀ entry ∈ c.mappings, Text.Dotted entry.2.core ∧ Text.Dotted entry.2.api)
    (run : fixer.repair c v s = (.ok o, s')) (fixed : o.status = .fixed) :
    ∃ file mapping bytes source bytes', Corrects c v s file mapping bytes source ∧
      s'.readBytes file = .ok bytes' ∧
      (0x0D ∉ bytes → Java.Relined mapping source o.diffs bytes.lines bytes'.lines) := by
  obtain ⟨p, offered, applied⟩ := Fixer.applied_proposing sound (fun p offered => by
    obtain ⟨file, core, mapping, content, worked⟩ := propose_eq_patch offered
    exact due_patch sound housed worked.read worked.patch) run fixed
  obtain ⟨file, core, mapping, content, worked⟩ := propose_eq_patch offered
  obtain ⟨bytes, mode, decoded, held, decodes, unified⟩ := Site.readText_eq_ok worked.read
  have direct := Site.direct_of_exists sound housed (Site.exists_of_read held)
  -- The file is found again, with the new text in it.
  obtain ⟨mode', written⟩ := holds_of_worked worked applied
  have held' := (direct.of_opens applied.grown.opens applied.grown.place).read applied.grown.sound
    (by rw [Site.entryAt, applied.grown.location]; exact written)
  refine ⟨file, mapping, bytes, decoded,
    Utf8.encode (Java.reconcileImports mapping (Java.rewriteSignatures mapping content)).text,
    ⟨worked.found, ⟨core, worked.mentioned, worked.resolved⟩, ?_, decodes⟩, ?_, fun free => ?_⟩
  · rw [Site.readBytes, held]
    rfl
  · rw [Site.readBytes, held']
    rfl
  · have named := TypeTable.dotted_of_resolve (fun entry listed => (dotted entry listed).2)
      worked.mentioned worked.resolved
    have whole := Utf8.encode_of_decode decodes
    have plain : content = decoded := by
      refine unified.trans (Text.unifyBreaks_of_not_mem fun inside => free ?_)
      rw [← whole]
      exact List.mem_flatMap.mpr ⟨'\r', inside, by decide⟩
    have relined := Java.relined named.last.1 named.qualified decoded
    rw [Fixer.diffs_proposing run fixed offered, diffs_of_patch? worked.patch, plain]
    rwa [whole] at relined

/-- A facade of one method that returns a core class. -/
def facadeText : Text :=
  "package f;\nimport a.D;\npublic class F \x7b\n  public D get() \x7b\n  \x7d\n\x7d\n"

/-- The same facade, with two characters for each line break. -/
def facadeReturns : Text := "public class F \x7b\r\n  public D get() \x7b\r\n  \x7d\r\n\x7d\r\n"

/-- A facade in a file of its own. -/
def facadeSite (source : Text) : Site where
  tree := (∅ : Tree).insert ["F.java".toList] (.file (Utf8.encode source) 0o644)

/-- The context in which the core class has a contract. -/
def facadeContext : RepairContext where
  projectRoot := "/"
  moduleRoot := "/"
  mappings := [("D".toList, { core := "a.D", api := "b.A" })]

/-- The violation that the method of the facade is. -/
def facadeViolation : Violation where
  rule := Rule.facadeReturnType
  message := "returns core class D"
  location := "/F.java"

theorem sound_facadeSite (source : Text) : (facadeSite source).tree.Sound :=
  Tree.sound_empty.insert rfl (by simp) fun open_ => by simp [Tree.at?] at open_

theorem dotted_facadeContext : ∀ entry ∈ facadeContext.mappings,
    Text.Dotted entry.2.core ∧ Text.Dotted entry.2.api := by
  intro entry listed
  obtain rfl := List.mem_singleton.mp listed
  have core : Text.splitOn '.' ['a', '.', 'D'] = [['a'], ['D']] := by decide
  have api : Text.splitOn '.' ['b', '.', 'A'] = [['b'], ['A']] := by decide
  have letters : Text.isWordChar 'a' = true ∧ Text.isWordChar 'D' = true ∧
      Text.isWordChar 'b' = true ∧ Text.isWordChar 'A' = true :=
    ⟨by decide, by decide, by decide, by decide⟩
  simp [Text.Dotted, core, api, letters]

theorem patched_lines_facadeText :
    (facadeSite facadeText).tree.Sound ∧ (facadeSite facadeText).Housed ∧
      0x0D ∉ Utf8.encode facadeText ∧ ∃ o s' mapping new,
        fixer.repair facadeContext facadeViolation (facadeSite facadeText) = (.ok o, s') ∧
        o.status = .fixed ∧ s'.readBytes "/F.java" = .ok new ∧
        Java.Relined mapping facadeText o.diffs (Utf8.encode facadeText).lines new.lines := by
  have free : 0x0D ∉ Utf8.encode facadeText := by decide +kernel
  have done : (fixer.repair facadeContext facadeViolation (facadeSite facadeText)).1.toOption.map
      (·.status) = some .fixed := by decide +kernel
  have found : source? facadeViolation (facadeSite facadeText) = .ok (some "/F.java") := by
    decide +kernel
  have held : (facadeSite facadeText).readBytes "/F.java" = .ok (Utf8.encode facadeText) := by
    decide +kernel
  refine ⟨sound_facadeSite facadeText, rfl, free, ?_⟩
  rcases repaired : fixer.repair facadeContext facadeViolation (facadeSite facadeText) with ⟨e | o, s'⟩
  · rw [repaired] at done
    cases done
  rw [repaired] at done
  have fixed : o.status = .fixed := Option.some.inj done
  obtain ⟨file, mapping, bytes, source, new, corrects, written, relined⟩ := patched_lines
    (sound_facadeSite facadeText) rfl dotted_facadeContext repaired fixed
  cases found.symm.trans corrects.found
  cases held.symm.trans corrects.held
  cases corrects.decoded.symm.trans (Utf8.decode_encode facadeText)
  exact ⟨o, s', mapping, new, rfl, fixed, written, relined free⟩

/-- With two characters for each line break, a line that no edit is about is not the same after a
correction: it has lost the first of them. -/
theorem returns_lost : ∃ o s' new,
    fixer.repair facadeContext facadeViolation (facadeSite facadeReturns) = (.ok o, s') ∧
      o.status = .fixed ∧ s'.readBytes "/F.java" = .ok new ∧
      ¬Java.Relined { core := "a.D", api := "b.A" } facadeReturns o.diffs
        (Utf8.encode facadeReturns).lines new.lines := by
  have done : (fixer.repair facadeContext facadeViolation (facadeSite facadeReturns)).1.toOption.map
      (fun o => (o.status, o.diffs)) = some (.fixed,
        ["- public D get() \x7b".toList, "+ public A get() \x7b".toList, "+ import b.A;".toList]) := by
    decide +kernel
  have written : (fixer.repair facadeContext facadeViolation
      (facadeSite facadeReturns)).2.readBytes "/F.java" =
        .ok (Utf8.encode "import b.A;\n\npublic class F \x7b\n  public A get() \x7b\n  \x7d\n\x7d\n") := by
    decide +kernel
  rcases repaired : fixer.repair facadeContext facadeViolation (facadeSite facadeReturns) with
    ⟨e | o, s'⟩
  · rw [repaired] at done
    cases done
  rw [repaired] at done written
  obtain ⟨fixed, diffs⟩ := Prod.mk.inj (Option.some.inj done)
  refine ⟨o, s', _, rfl, fixed, written, ?_⟩
  rintro ⟨retyped, early, late, before, after, added, removed, addedDiffs, removedDiffs, _, kept, split,
    adds, whole, removes, new, reported⟩
  -- The last line holds no return type.
  have last : ¬Java.Retyped { core := "a.D", api := "b.A" } facadeReturns 3 := by
    rintro ⟨pieces, s, behind, parts, returned, line⟩
    have core : s.returnType = ['D'] := returned.trans (by decide)
    have text := Java.pieces_spelling facadeReturns
    rw [parts, List.flatMap_append, List.flatMap_cons, Java.Piece.spelling, Java.Signature.spelling,
      core] at text
    set front := pieces.flatMap (·.spelling) ++ s.start
    have text : front ++ ('D' :: (s.tail ++ behind.flatMap (·.spelling))) = facadeReturns := by
      simpa [front] using text
    have beyond : ∀ n ≤ facadeReturns.length, (facadeReturns.take n).count '\n' = 3 →
        'D' ∉ facadeReturns.drop n := by decide +kernel
    have within : front.length ≤ facadeReturns.length := by simp [← text]
    refine beyond front.length within ?_ ?_
    · rw [← text, List.take_left]
      exact line.symm
    · rw [← text, List.drop_left]
      exact List.mem_cons_self
  -- No import has gone, for none is reported.
  have none : removed = [] := by
    cases removes with
    | nothing => rfl
    | line =>
      rw [diffs] at reported
      have ends := congrArg List.getLast? reported
      simp at ends
  have there : (Utf8.encode facadeReturns).lines[3]? = some (Utf8.encode ['}', '\r']) := by
    decide +kernel
  have gone : Utf8.encode ['}', '\r'] ∉ before ++ after := by
    rw [← new]
    decide +kernel
  rw [← kept 3 last, split] at there
  have member := List.mem_of_getElem? there
  rw [none, List.map_nil, List.append_nil] at whole
  refine gone (whole ▸ ?_)
  rcases List.mem_append.mp member with first | second
  · exact List.mem_append_left _ (List.mem_append_left _ first)
  · exact List.mem_append_right _ second

end ReturnTypes

end Layering
