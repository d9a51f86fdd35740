import Layering.Proofs.ImportLines
import Layering.Proofs.Listings
import Layering.Proofs.NewDescriptors

/-!
# Repeated repairs

A repair that was done is not done again: the same fixer finds nothing left to do for the same
violation, and changes nothing.
-/

namespace Layering

namespace Action

theorem forM_eq_ok_of_mem {α : Type} {f : α → Action Unit} {xs : List α} {s s' : Site} {x : α}
    (run : xs.forM f s = (.ok (), s')) (member : x ∈ xs) :
    ∃ s₁ s₂, f x s₁ = (.ok (), s₂) := by
  induction xs generalizing s with
  | nil => cases member
  | cons y xs ih =>
    rw [forM_cons_apply] at run
    rcases done : f y s with ⟨e | ⟨⟩, s₁⟩
    · rw [done] at run
      cases run
    · rw [done] at run
      rcases List.mem_cons.mp member with rfl | later
      · exact ⟨_, _, done⟩
      · exact ih run later

end Action

namespace Change

variable {c : RepairContext} {before s s' : Site} {changes : List Change} {change : Change}
variable {p : Path} {text : Text}

/-- What one change brings about and the others keep holds after all of them. -/
theorem forM_of_mem {motive : Site → Prop} (run : changes.forM c.apply s = (.ok (), s'))
    (place : s.workingDirectory = before.workingDirectory) (member : change ∈ changes)
    (brings : ∀ s, s.workingDirectory = before.workingDirectory →
      (c.apply change s).1 = .ok () → motive (c.apply change s).2)
    (keeps : ∀ change ∈ changes, ∀ s, s.workingDirectory = before.workingDirectory → motive s →
      motive (c.apply change s).2) : motive s' := by
  induction changes generalizing s with
  | nil => cases member
  | cons first rest ih =>
    have place' := (place_apply c first s).trans place
    have here := brings s place
    obtain ⟨_, later⟩ := List.forall_mem_cons.mp keeps
    rw [Action.forM_cons_apply] at run
    rcases done : c.apply first s with ⟨e | ⟨⟩, s₁⟩
    · rw [done] at run
      cases run
    · rw [done] at run place'
      have run : rest.forM c.apply s₁ = (.ok (), s') := run
      rcases List.mem_cons.mp member with rfl | next
      · rw [done] at here
        have last := Action.forM_rule (f := c.apply) (s := s₁)
          (motive := fun s => s.workingDirectory = before.workingDirectory ∧ motive s)
          (fun change member s h => ⟨(place_apply c change s).trans h.1, later change member s h.1 h.2⟩)
          ⟨place', here rfl⟩
        rw [run] at last
        exact last.2
      · exact ih run place' next later

/-- A file holds a text. -/
def Holds (s : Site) (m : Location) (text : Text) : Prop :=
  ∃ mode, s.tree.at? m = some (.file (Utf8.encode text) mode)

/-- Where no two changes write different texts to a file, it holds what is written. -/
theorem holds_of_forM (run : changes.forM c.apply s = (.ok (), s'))
    (place : s.workingDirectory = before.workingDirectory) (member : change ∈ changes)
    (writes : change.Writes p text)
    (unique : ∀ change ∈ changes, ∀ q t, change.Writes q t →
      before.location q = before.location p → t = text) : Holds s' (before.location p) text := by
  refine forM_of_mem (motive := fun s => Holds s (before.location p) text) run place member
    (fun s place ok => ?_) ?_
  · obtain ⟨mode, there⟩ := (written_apply writes c s).there ok
    rw [Site.location_of_workingDirectory place] at there
    exact ⟨mode, there⟩
  · rintro change member s place ⟨mode, file⟩
    obtain ⟨new, mode', there, same | ⟨q, t, writes, here, same⟩⟩ := keeps_apply c change file
    · exact ⟨mode', same ▸ there⟩
    · rw [Site.location_of_workingDirectory place] at here
      exact ⟨mode', by rw [there, same, unique change member q t writes here.symm]⟩

/-- A file that was written is there. -/
theorem there_of_forM (run : changes.forM c.apply s = (.ok (), s'))
    (place : s.workingDirectory = before.workingDirectory) (member : change ∈ changes)
    (writes : change.Writes p text) :
    ∃ bytes mode, s'.tree.at? (before.location p) = some (.file bytes mode) := by
  refine forM_of_mem (motive := fun s => ∃ bytes mode,
    s.tree.at? (before.location p) = some (.file bytes mode)) run place member
    (fun s place ok => ?_) ?_
  · obtain ⟨mode, there⟩ := (written_apply writes c s).there ok
    rw [Site.location_of_workingDirectory place] at there
    exact ⟨_, mode, there⟩
  · rintro change member s place ⟨bytes, mode, file⟩
    obtain ⟨new, mode', there, _⟩ := keeps_apply c change file
    exact ⟨new, mode', there⟩

theorem Holds.readText {path : Path} {text : Text} (holds : Holds s (s.location path) text)
    (direct : s.Direct path) (sound : s.tree.Sound) :
    s.readText path = .ok (Text.unifyBreaks text) := by
  obtain ⟨mode, entry⟩ := holds
  unfold Site.readText Site.readBytes
  rw [direct.read sound entry]
  simp [bind, Except.bind, Except.map, Except.mapError, Utf8.decode_encode]

/-- What is written has names that are not too long. -/
theorem short_of_write {bytes : Bytes} (written : c.writeBytes p bytes s = (.ok (), s')) :
    ∀ name ∈ p.names, nameSize name ≤ maxNameSize := by
  unfold RepairContext.writeBytes at written
  split at written
  · cases written
  · rcases Action.writeBytes_cases p bytes s with ⟨s₁, run, writes⟩ | ⟨f, s₁, run, _⟩
    · exact (List.forall_mem_cons.mp writes.short).2
    · rw [run] at written
      cases written

end Change

/-! ### What a repair leaves -/

section

variable {c : RepairContext} {v : Violation} {s s' : Site} {p : Patch}

/-- A patch was applied. -/
structure Patch.Applied (c : RepairContext) (s : Site) (p : Patch) (s' : Site) : Prop where
  pending : s.Pending s' fun m => ∃ file ∈ p.files, s.location file = m
  run : ∃ s₁, s.Untouched s₁ ∧ p.changes.forM c.apply s₁ = (.ok (), s')

/-- A fixer that is done has applied a patch. -/
theorem Fixer.Offers.applied {f : Fixer}
    {offer : RepairContext → Violation → Site → Except Failure Proposal} (offers : f.Offers offer)
    (full : c.dryRun = false) (sound : s.tree.Sound)
    (due : ∀ p, offer c v s = .ok (.patch p) → p.Due s) {o : Outcome}
    (run : f.repair c v s = (.ok o, s')) (fixed : o.status = .fixed) :
    ∃ p, offer c v s = .ok (.patch p) ∧ p.Applied c s s' := by
  rw [offers c v s] at run
  cases offered : offer c v s with
  | error e =>
    rw [offered] at run
    cases run
  | ok proposal =>
    rw [offered] at run
    cases proposal with
    | nothing reason =>
      cases run
      cases fixed
    | patch p =>
      have run : p.apply c v s = (.ok o, s') := run
      have pending := (due p offered).pending sound c v
      obtain ⟨s₁, untouched, applied⟩ := p.apply_apply c v s
      rw [run] at pending
      refine ⟨p, rfl, pending, s₁, untouched, ?_⟩
      rw [run, full] at applied
      simp only [Bool.false_eq_true, if_false] at applied
      rcases done : p.changes.forM c.apply s₁ with ⟨e | ⟨⟩, s₂⟩
      · rw [done] at applied
        cases applied
      · rw [done] at applied
        cases applied
        rfl

/-- Nothing is repaired in a dry run. -/
theorem Fixer.Offers.full {f : Fixer}
    {offer : RepairContext → Violation → Site → Except Failure Proposal} (offers : f.Offers offer)
    {o : Outcome} (run : f.repair c v s = (.ok o, s')) (fixed : o.status = .fixed) : c.dryRun = false := by
  rw [offers c v s] at run
  split at run
  next proposal offered =>
    cases proposal with
    | nothing reason =>
      cases run
      cases fixed
    | patch p =>
      have run : p.apply c v s = (.ok o, s') := run
      obtain ⟨s₁, _, applied⟩ := p.apply_apply c v s
      by_contra dry
      rw [run, Bool.eq_true_of_not_eq_false dry] at applied
      cases applied
      cases fixed
  next => cases run

/-- What a fixer that works out patches has repaired, one of its patches has. -/
theorem Fixer.applied_proposing {name description : Text} {priority : Int} {rules : List Text}
    {targets : RepairContext → Violation → Site → Except Failure (List Path)}
    {propose : RepairContext → Violation → Site → Except Failure Proposal} (sound : s.tree.Sound)
    (due : ∀ p, propose c v s = .ok (.patch p) → p.Due s)
    {o : Outcome}
    (run : (proposing name description priority rules targets propose).repair c v s = (.ok o, s'))
    (fixed : o.status = .fixed) : ∃ p, propose c v s = .ok (.patch p) ∧ p.Applied c s s' := by
  have offers := offers_proposing name description priority rules targets propose
  obtain ⟨p, offered, applied⟩ := offers.applied (offers.full run fixed) sound (fun p offered => by
    split at offered
    · exact due p offered
    · cases offered) run fixed
  split at offered
  · exact ⟨p, offered, applied⟩
  · cases offered

/-- A fixer that has nothing to offer skips the violation. -/
theorem Fixer.Offers.skipped {f : Fixer}
    {offer : RepairContext → Violation → Site → Except Failure Proposal} (offers : f.Offers offer)
    {reason : Text} (nothing : offer c v s = .ok (.nothing reason)) :
    f.repair c v s = (.ok (.skipped v reason), s) := by
  rw [offers c v s, nothing]
  rfl

namespace Patch.Applied

variable (applied : p.Applied c s s')
include applied

theorem grown : s.Extends s' := applied.pending.extends

/-- A file holds what a change writes to it, if no other writes another text. -/
theorem holds {change : Change} {file : Path} {text : Text} (member : change ∈ p.changes)
    (writes : change.Writes file text)
    (unique : ∀ change ∈ p.changes, ∀ q t, change.Writes q t →
      s.location q = s.location file → t = text) : Change.Holds s' (s.location file) text := by
  obtain ⟨s₁, ⟨said, rfl⟩, run⟩ := applied.run
  exact Change.holds_of_forM run rfl member writes unique

/-- A file that was written is there. -/
theorem there {change : Change} {file : Path} {text : Text} (member : change ∈ p.changes)
    (writes : change.Writes file text) :
    ∃ bytes mode, s'.tree.at? (s.location file) = some (.file bytes mode) := by
  obtain ⟨s₁, ⟨said, rfl⟩, run⟩ := applied.run
  exact Change.there_of_forM run rfl member writes

/-- A file that was written has names that are not too long. -/
theorem short {file : Path} {text : Text} (member : .write file text ∈ p.changes) :
    ∀ name ∈ file.names, nameSize name ≤ maxNameSize := by
  obtain ⟨s₁, _, run⟩ := applied.run
  obtain ⟨s₂, s₃, done⟩ := Action.forM_eq_ok_of_mem run member
  exact Change.short_of_write done

/-- A file that could be read can be read afterwards, and holds what is written to it. -/
theorem readText_of_holds {file : Path} {t text : Text} (sound : s.tree.Sound) (housed : s.Housed)
    (read : s.readText file = .ok t) (holds : Change.Holds s' (s.location file) text) :
    s'.readText file = .ok (Text.unifyBreaks text) := by
  obtain ⟨bytes, mode, decoded, held, _⟩ := Site.readText_eq_ok read
  have direct := Site.direct_of_exists sound housed (Site.exists_of_read held)
  rw [← applied.grown.location] at holds
  exact holds.readText (direct.of_opens applied.grown.opens applied.grown.place)
    applied.grown.sound

/-- A file that could be read can be read afterwards. -/
theorem readable {file : Path} {t : Text} (sound : s.tree.Sound) (housed : s.Housed)
    (read : s.readText file = .ok t) : ∃ t, s'.readText file = .ok t := by
  obtain ⟨bytes, mode, decoded, held, decodes, _⟩ := Site.readText_eq_ok read
  have direct := Site.direct_of_exists sound housed (Site.exists_of_read held)
  have direct' := direct.of_opens applied.grown.opens applied.grown.place
  obtain ⟨s₁, ⟨said, rfl⟩, run⟩ := applied.run
  have last : ∃ bytes mode t,
      (p.changes.forM c.apply { s with messages := s.messages ++ said }).2.tree.at? (s.location file) =
        some (.file bytes mode) ∧ Utf8.decode bytes = .ok t := by
    refine Action.forM_rule (f := c.apply)
      (motive := fun s' => ∃ bytes mode t, s'.tree.at? (s.location file) = some (.file bytes mode) ∧
        Utf8.decode bytes = .ok t) ?_ ⟨bytes, mode, decoded, (Site.read_eq_ok.mp held).2, decodes⟩
    rintro change _ s₂ ⟨bytes, mode, t, entry, decodes⟩
    obtain ⟨new, mode', there, rfl | ⟨_, text, _, _, rfl⟩⟩ := Change.keeps_apply c change entry
    · exact ⟨new, mode', t, there, decodes⟩
    · exact ⟨Utf8.encode text, mode', text, there, Utf8.decode_encode text⟩
  rw [run] at last
  obtain ⟨bytes, mode, t, entry, decodes⟩ := last
  rw [← applied.grown.location] at entry
  refine ⟨Text.unifyBreaks t, ?_⟩
  unfold Site.readText Site.readBytes
  rw [direct'.read applied.grown.sound entry]
  simp [bind, Except.bind, Except.map, Except.mapError, decodes]

end Patch.Applied

end

/-! ### Return types -/

namespace Text

/-- Words with points between them. -/
def Dotted (t : Text) : Prop :=
  ∀ part ∈ splitOn '.' t, part ≠ [] ∧ ∀ c ∈ part, isWordChar c = true

theorem afterLast_mem_splitOn (separator : Char) (t : Text) :
    afterLast separator t ∈ splitOn separator t := by
  have plain : ∀ c ∈ afterLast separator t, (c == separator) = false := by
    intro c member
    simpa using List.mem_takeWhile_imp (List.mem_reverse.mp member)
  have whole : t = (t.reverse.dropWhile (· ≠ separator)).reverse ++ afterLast separator t := by
    rw [afterLast, ← List.reverse_append, List.takeWhile_append_dropWhile, List.reverse_reverse]
  have last := pieces_of_none plain
  cases front : t.reverse.dropWhile (· ≠ separator) with
  | nil =>
    rw [front, List.reverse_nil, List.nil_append] at whole
    rw [← whole] at last ⊢
    rw [splitOn, last]
    exact List.mem_singleton_self _
  | cons c front' =>
    have same : c = separator := by
      have edge := List.head?_dropWhile_not (· ≠ separator) t.reverse
      rw [front] at edge
      simpa using edge
    rw [front, List.reverse_cons, List.append_assoc, List.singleton_append] at whole
    have parts : splitOn separator t =
        splitOn separator front'.reverse ++ [afterLast separator t] := by
      rw [splitOn, splitOn, ← last, ← pieces_append (c := c) (by simp [same]), ← whole]
    rw [parts]
    exact List.mem_append_right _ (List.mem_singleton_self _)

theorem exists_piece_of_mem {p : Char → Bool} {c : Char} {t : Text} (member : c ∈ t)
    (inner : p c = false) : ∃ piece ∈ pieces p t, c ∈ piece := by
  induction t with
  | nil => cases member
  | cons d t ih =>
    rw [pieces]
    split
    next separates =>
      rcases List.mem_cons.mp member with rfl | later
      · cases inner.symm.trans separates
      · obtain ⟨piece, listed, inside⟩ := ih later
        exact ⟨piece, List.mem_cons_of_mem _ listed, inside⟩
    next =>
      obtain ⟨first, more, split⟩ := List.exists_cons_of_ne_nil (pieces_ne_nil p t)
      rw [split] at ih ⊢
      rcases List.mem_cons.mp member with rfl | later
      · exact ⟨c :: first, List.mem_cons_self, List.mem_cons_self⟩
      · obtain ⟨piece, listed, inside⟩ := ih later
        rcases List.mem_cons.mp listed with rfl | further
        · exact ⟨d :: piece, List.mem_cons_self, List.mem_cons_of_mem _ inside⟩
        · exact ⟨piece, List.mem_cons_of_mem _ further, inside⟩

theorem Dotted.qualified {t : Text} (dotted : Dotted t) :
    ∀ c ∈ t, Java.isQualifiedPart c = true := by
  intro c member
  cases point : c == '.' with
  | true => simp [Java.isQualifiedPart, eq_of_beq point]
  | false =>
    obtain ⟨part, listed, inside⟩ := exists_piece_of_mem (p := (· == '.')) member point
    rw [Java.isQualifiedPart, (dotted part listed).2 c inside, Bool.true_or]

theorem Dotted.last {t : Text} (dotted : Dotted t) :
    afterLast '.' t ≠ [] ∧ ∀ c ∈ afterLast '.' t, isWordChar c = true :=
  dotted _ (afterLast_mem_splitOn '.' t)

end Text

namespace TypeTable

variable {table : TypeTable} {message core : Text} {mapping : TypeMapping}

theorem get?_isSome_of_mem {entry : Text × TypeMapping} (listed : entry ∈ table) :
    (Entries.get? entry.1 table).isSome = true := by
  induction table with
  | nil => cases listed
  | cons first rest ih =>
    obtain ⟨key, value⟩ := first
    rw [Entries.get?]
    split
    next => rfl
    next other =>
      rcases List.mem_cons.mp listed with rfl | later
      · simp at other
      · exact ih later

theorem contractName?_ne_nil {name : Text} (promised : contractName? core = some name) :
    name ≠ [] := by
  unfold contractName? at promised
  split at promised
  next fits =>
    cases promised
    simp only [Bool.and_eq_true, decide_eq_true_eq] at fits
    exact fun none => absurd (List.drop_eq_nil_iff.mp none) (Nat.not_le_of_lt fits.2)
  next =>
    split at promised
    next fits =>
      cases promised
      simp only [Bool.and_eq_true, decide_eq_true_eq] at fits
      intro none
      have := congrArg List.length none
      simp only [List.length_take, List.length_nil] at this
      omega
    next => cases promised

/-- The type of the contract has a dotted name if those of the table do. -/
theorem dotted_of_resolve (dotted : ∀ entry ∈ table, Text.Dotted entry.2.api)
    (mentioned : table.mentioned? message = some core)
    (resolved : table.resolve? core = some mapping) : Text.Dotted mapping.api := by
  unfold resolve? at resolved
  split at resolved
  next found =>
    cases resolved
    exact dotted _ (Entries.mem_of_get? found)
  next unknown =>
    obtain ⟨name, promised, rfl⟩ := Option.map_eq_some_iff.mp resolved
    have word : ∀ letter ∈ core, Text.isWordChar letter = true := by
      refine (of_mentioned mentioned).resolve_right ?_
      rintro ⟨entry, listed, rfl⟩
      have known := get?_isSome_of_mem listed
      rw [unknown] at known
      cases known
    have word' : ∀ letter ∈ name, Text.isWordChar letter = true := fun letter member =>
      word letter (contractName?_subset promised member)
    have point : Text.isWordChar '.' = false := by decide
    have whole : Text.splitOn '.' name = [name] := by
      refine Text.pieces_of_none fun letter member => ?_
      rw [beq_eq_false_iff_ne]
      rintro rfl
      cases point.symm.trans (word' _ member)
    intro part listed
    rw [show Text.splitOn '.' (TypeMapping.mk core name true).api = [name] from whole,
      List.mem_singleton] at listed
    rw [listed]
    exact ⟨contractName?_ne_nil promised, word'⟩

end TypeTable

namespace ReturnTypes

variable {c : RepairContext} {v : Violation} {s s' : Site}

/-- The source of a violation is found again where no entry is new. -/
theorem source?_extends (grown : s.Extends s') (sound : s.tree.Sound) (housed : s.Housed)
    (old : ∀ m, s'.tree.at? m ≠ none → s.tree.at? m ≠ none) {file : Path}
    (found : source? v s = .ok (some file)) : source? v s' = .ok (some file) := by
  have found := Except.mapError_eq_ok found
  unfold source?
  simp only at found ⊢
  obtain ⟨is, asked, found⟩ := Except.bind_eq_ok found
  -- Nothing new is there, so every question gets the answer it got before.
  have same {m : Location} (absent : s.tree.at? m = none) : s'.tree.at? m = none := by
    by_contra there
    exact old m there absent
  cases is with
  | true =>
    have leads := Site.leads_of_isDirectory asked
    have asked' := grown.isDirectory_eq sound (Site.direct_of_leads leads) fun absent => by
      simp [same absent]
    rw [asked', asked]
    simp only [bind, Except.bind, if_true] at found ⊢
    rw [Site.filesBelow_of_leads leads] at found
    have files : s'.fileNamesBelow (s.location (Path.ofText v.location)) sourceEnding =
        s.fileNamesBelow (s.location (Path.ofText v.location)) sourceEnding :=
      grown.fileNamesBelow_eq fun names bytes mode _ file => old _ (by simp [file])
    rw [Site.filesBelow_of_leads (grown.leads leads), grown.location, files]
    exact congrArg (Except.mapError Failure.fault) found
  | false =>
    simp only [bind, Except.bind, Bool.false_eq_true, if_false] at found
    cases there : s.exists? (Path.ofText v.location) with
    | error f => simp [there] at found
    | ok is =>
      cases is with
      | false =>
        rw [there] at found
        cases found
      | true =>
        have direct := Site.direct_of_exists sound housed there
        have asked' := grown.isDirectory_eq sound direct fun absent => by simp [same absent]
        rw [asked', asked, grown.exists_of_exists there]
        simp only [there, bind, Except.bind, if_true] at found ⊢
        exact congrArg (Except.mapError Failure.fault) found

/-- A source that was corrected holds the new text. -/
theorem holds_of_worked {file : Path} {core content : Text} {mapping : TypeMapping} {p : Patch}
    (worked : Worked c v s file core mapping content p) (applied : p.Applied c s s') :
    Change.Holds s' (s.location file)
      (Java.reconcileImports mapping (Java.rewriteSignatures mapping content)).text := by
  obtain ⟨_, _, note, changes⟩ := patch?_eq_some worked.patch
  have listed : .update file
      (Java.reconcileImports mapping (Java.rewriteSignatures mapping content)).text ∈ p.changes :=
    changes ▸ List.mem_cons_self
  refine applied.holds listed (.inr rfl) fun change member q t writes _ => ?_
  rw [changes] at member
  rcases List.mem_cons.mp member with rfl | last
  · exact (Change.Writes.unique (.inr rfl) writes).2
  · rw [List.mem_singleton.mp last] at writes
    rcases writes with same | same <;> cases same

/-- Nothing is left to correct in a source that was corrected. -/
theorem nothing_again {file : Path} {core content : Text} {mapping : TypeMapping} {p : Patch}
    (sound : s.tree.Sound) (housed : s.Housed) (dotted : Text.Dotted mapping.api)
    (tidy : Java.Tidy content) (worked : Worked c v s file core mapping content p)
    (applied : p.Applied c s s') : ∃ reason, propose c v s' = .ok (.nothing reason) := by
  obtain ⟨changed, files, note, changes⟩ := patch?_eq_some worked.patch
  have changed : Java.rewriteSignatures mapping content ≠ content := changed
  set text := (Java.reconcileImports mapping (Java.rewriteSignatures mapping content)).text
  obtain ⟨bytes, mode, decoded, held, _, unified⟩ := Site.readText_eq_ok worked.read
  have there : s.entryAt file ≠ none := by simp [(Site.read_eq_ok.mp held).2]
  -- The only file that changes was there before, and nothing else is new.
  have old (m : Location) (entry : s'.tree.at? m ≠ none) : s.tree.at? m ≠ none := by
    intro absent
    have due := applied.pending.tree.leads sound absent entry
    simp only [files, List.mem_singleton, exists_eq_left] at due
    rcases due with rfl | ⟨_, rfl, part, other⟩
    · exact there absent
    · rw [sound.above there part other] at absent
      cases absent
  have holds : Change.Holds s' (s.location file) text := holds_of_worked worked applied
  have plain := dotted.qualified
  have none : '\r' ∉ text := by
    refine Java.return_not_mem_reconcileImports plain ?_
    rw [unified]
    exact Text.return_not_mem_unifyBreaks decoded
  have read := applied.readText_of_holds sound housed worked.read holds
  rw [Text.unifyBreaks_of_not_mem none] at read
  have kept : Java.rewriteSignatures mapping text = text :=
    Java.rewriteSignatures_reconcileImports plain dotted.last.1 dotted.last.2 tidy changed
  have nothing : patch? file core mapping text = Option.none := by
    unfold patch?
    exact if_pos kept
  refine ⟨"No changes needed - return type already correct or not found".toList, ?_⟩
  unfold propose
  rw [source?_extends applied.grown sound housed old worked.found]
  simp only [bind, Except.bind, worked.mentioned, worked.resolved, read, nothing]
  rfl

end ReturnTypes

end Layering
