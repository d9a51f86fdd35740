import Layering.Assembly
import Layering.Proofs.Actions
import Layering.Proofs.Climbing

/-!
# Patches

A bundled fixer works out a patch, which changes nothing, and then applies it one change at a time.
-/

namespace Layering

/-- Nothing but messages has come to a site. -/
def Site.Untouched (s s' : Site) : Prop := ∃ said, s' = { s with messages := s.messages ++ said }

theorem Site.Untouched.refl (s : Site) : s.Untouched s :=
  ⟨[], by rw [List.append_nil]⟩

theorem Site.Untouched.trans {s s' s'' : Site} (h : s.Untouched s') (h' : s'.Untouched s'') :
    s.Untouched s'' := by
  obtain ⟨said, rfl⟩ := h
  obtain ⟨more, rfl⟩ := h'
  exact ⟨said ++ more, by rw [List.append_assoc]⟩

namespace Action

variable {α : Type} {f : α → Action Unit}

/-- Steps that fail do so at one of them, after those before it. -/
theorem forM_eq_error {xs : List α} {s s' : Site} {e : Failure}
    (run : xs.forM f s = (.error e, s')) :
    ∃ before x after s₁, xs = before ++ x :: after ∧ before.forM f s = (.ok (), s₁) ∧
      f x s₁ = (.error e, s') := by
  induction xs generalizing s with
  | nil => exact nomatch run
  | cons x xs ih =>
    rw [forM_cons_apply] at run
    rcases first : f x s with ⟨e' | ⟨⟩, s₁⟩
    · rw [first] at run
      cases run
      exact ⟨[], x, xs, s, rfl, rfl, first⟩
    · rw [first] at run
      obtain ⟨before, y, after, s₂, rfl, way, refused⟩ := ih run
      refine ⟨x :: before, y, after, s₂, rfl, ?_, refused⟩
      rw [forM_cons_apply, first]
      exact way

theorem forM_say (texts : List Text) (s : Site) : ∃ s', s.Untouched s' ∧
    texts.forM (say .step) s = (.ok (), s') := by
  induction texts generalizing s with
  | nil => exact ⟨s, .refl s, rfl⟩
  | cons text texts ih =>
    obtain ⟨s', untouched, run⟩ := ih { s with messages := s.messages ++ [⟨.step, text⟩] }
    exact ⟨s', .trans ⟨[⟨.step, text⟩], rfl⟩ untouched, run⟩

end Action

/-- What is done with a proposal. -/
def Proposal.take (c : RepairContext) (v : Violation) : Proposal → Action Outcome
  | .nothing reason => pure (.skipped v reason)
  | .patch p => p.apply c v

/-- A fixer works out a proposal and takes it. -/
def Fixer.Offers (f : Fixer)
    (offer : RepairContext → Violation → Site → Except Failure Proposal) : Prop :=
  ∀ c v s, f.repair c v s = match offer c v s with
    | .ok proposal => proposal.take c v s
    | .error e => (.error e, s)

theorem Fixer.offers_proposing (name description : Text) (priority : Int) (rules : List Text)
    (targets : RepairContext → Violation → Site → Except Failure (List Path))
    (propose : RepairContext → Violation → Site → Except Failure Proposal) :
    (proposing name description priority rules targets propose).Offers fun c v s =>
      if rules.contains v.rule then propose c v s
      else .ok (.nothing (name ++ " does not handle rule " ++ v.rule)) := by
  intro c v s
  simp only [proposing]
  cases rules.contains v.rule with
  | false => rfl
  | true =>
    change ((Action.ask (propose c v) >>= fun proposal => _) s : Except Failure Outcome × Site) = _
    rw [Action.bind_apply, Action.ask_apply]
    rcases propose c v s with e | proposal
    · rfl
    · cases proposal <;> rfl

/-- The file that a change writes. -/
def Change.file? : Change → Option Path
  | .write p _ | .update p _ => some p
  | .directory _ | .executable _ | .note _ => none

/-- A patch that was worked out at a site lists every file that it writes, and a file that it only
updates is there and is the first that it touches. -/
structure Patch.Fits (s : Site) (p : Patch) : Prop where
  listed : ∀ change ∈ p.changes, ∀ file, change.file? = some file → file ∈ p.files
  updates : ∀ before file text after, p.changes = before ++ .update file text :: after →
    before = [] ∧ ∃ bytes mode, s.read file = .ok (bytes, mode)

namespace Patch

theorem Fits.of_writes {s : Site} {p : Patch}
    (listed : ∀ change ∈ p.changes, ∀ file, change.file? = some file → file ∈ p.files)
    (plain : ∀ file text, .update file text ∉ p.changes) : p.Fits s where
  listed := listed
  updates _ file text _ split := by
    have member := plain file text
    rw [split] at member
    exact absurd (List.mem_append_right _ List.mem_cons_self) member

variable {c : RepairContext} {v : Violation} {p : Patch} {s : Site}

/-- A patch is applied after its remarks, unless this is a dry run. -/
theorem apply_apply (p : Patch) (c : RepairContext) (v : Violation) (s : Site) :
    ∃ s₁, s.Untouched s₁ ∧ p.apply c v s =
      match (if c.dryRun then (.ok (), s₁) else p.changes.forM c.apply s₁) with
        | (.ok _, s') => (.ok (.found v p.description p.files p.diffs c.dryRun), s')
        | (.error e, s') => (.error e, s') := by
  obtain ⟨s₁, untouched, said⟩ := Action.forM_say p.remarks s
  refine ⟨s₁, untouched, ?_⟩
  rw [apply, Action.bind_of_ok said]
  cases c.dryRun with
  | true => rfl
  | false =>
    simp only [Bool.not_false, if_true, Bool.false_eq_true, if_false, Action.bind_apply]
    rcases p.changes.forM c.apply s₁ with ⟨_ | _, _⟩ <;> rfl

end Patch

/-- A text that is read comes from the contents of a file. -/
theorem Site.readText_eq_ok {s : Site} {file : Path} {t : Text} (run : s.readText file = .ok t) :
    ∃ bytes mode decoded, s.read file = .ok (bytes, mode) ∧ Utf8.decode bytes = .ok decoded ∧
      t = Text.unifyBreaks decoded := by
  obtain ⟨bytes, read, run⟩ := Except.bind_eq_ok run
  have read := Except.mapError_eq_ok read
  have run := Except.mapError_eq_ok run
  rcases held : s.read file with f | ⟨contents, mode⟩
  · rw [held] at read
    exact nomatch read
  · rw [held] at read
    cases read
    cases decoded : Utf8.decode contents with
    | error f =>
      rw [decoded] at run
      exact nomatch run
    | ok text =>
      rw [decoded] at run
      cases run
      exact ⟨contents, mode, text, rfl, decoded, rfl⟩

theorem Site.exists_of_read {s : Site} {file : Path} {bytes : Bytes} {mode : Nat}
    (read : s.read file = .ok (bytes, mode)) : s.exists? file = .ok true := by
  obtain ⟨way, entry⟩ := Site.read_eq_ok.mp read
  rw [exists?, Site.entryOf?_of_locate way, entry]
  rfl

namespace RepairContext

variable {c : RepairContext} {s : Site} {v : Violation}

end RepairContext

namespace Scaffolding

variable {c : RepairContext} {s : Site} {v : Violation}

/-- A new module is of the layer that the rule calls for, in the module of the violation. -/
theorem newModule?_eq_some_iff {m : NewModule} : newModule? c v s = .ok (some m) ↔
    ∃ layer root, Entries.get? v.rule Rule.requiredLayers = some layer ∧ c.moduleOf s v = .ok root ∧
      m = ⟨root, componentName root.name, layer, basePackage c.group c.project layer.name⟩ := by
  unfold newModule?
  constructor
  · intro module
    split at module
    · cases module
    next layer known =>
      obtain ⟨root, found, module⟩ := Except.bind_eq_ok module
      cases module
      exact ⟨layer, root, known, Except.mapError_eq_ok found, rfl⟩
  · rintro ⟨layer, root, known, found, rfl⟩
    rw [known, found]
    rfl

/-- What a patch that makes a module was worked out from. -/
structure Worked (c : RepairContext) (v : Violation) (s : Site) (m : NewModule) (content : Text)
    (p : Patch) : Prop where
  module : newModule? c v s = .ok (some m)
  found : s.exists? m.parent = .ok true
  read : s.readText m.parent = .ok content
  aggregator : Descriptor.isAggregator content = true
  free : s.exists? m.directory = .ok false
  patch : p = patch m content

theorem propose_eq_patch {p : Patch} (offered : propose c v s = .ok (.patch p)) :
    ∃ m content, Worked c v s m content p := by
  obtain ⟨module, found, offered⟩ := Except.bind_eq_ok offered
  cases module with
  | none => exact nomatch offered
  | some m =>
    obtain ⟨parent, asked, offered⟩ := Except.bind_eq_ok offered
    cases parent with
    | false => exact nomatch offered
    | true =>
      obtain ⟨content, read, offered⟩ := Except.bind_eq_ok offered
      cases aggregator : Descriptor.isAggregator content with
      | false =>
        rw [aggregator] at offered
        exact nomatch offered
      | true =>
        rw [aggregator] at offered
        obtain ⟨taken, free, offered⟩ := Except.bind_eq_ok offered
        cases taken with
        | true => exact nomatch offered
        | false =>
          cases offered
          exact ⟨m, content, found, Except.mapError_eq_ok asked, read, aggregator,
            Except.mapError_eq_ok free, rfl⟩

/-- What the patch does, but for what it says in the end. -/
def steps (m : NewModule) (content : Text) : List Change :=
  [.directory m.packageInfo.parent,
   .write m.descriptor (Scaffold.descriptor content m.root.name m.name m.component m.layer.name),
   .write m.packageInfo (Scaffold.packageInfo m.package m.name m.layer.name)] ++
  if Descriptor.addModule m.name content = content then []
  else [.write m.parent (Descriptor.addModule m.name content)]

theorem changes_patch (m : NewModule) (content : Text) :
    ∃ notes : List Text, (patch m content).changes = steps m content ++ notes.map .note := by
  unfold patch steps
  generalize Descriptor.addModule m.name content = updated
  by_cases same : updated = content
  · subst same
    simp only [ne_eq, not_true_eq_false, decide_false, if_true]
    exact ⟨[_, _], rfl⟩
  · simp only [ne_eq, same, not_false_eq_true, decide_true, if_true, if_false]
    exact ⟨[_, _, _], rfl⟩

theorem mem_steps {m : NewModule} {content : Text} {change : Change} :
    change ∈ steps m content ↔ change = .directory m.packageInfo.parent ∨
      change = .write m.descriptor
        (Scaffold.descriptor content m.root.name m.name m.component m.layer.name) ∨
      change = .write m.packageInfo (Scaffold.packageInfo m.package m.name m.layer.name) ∨
      Descriptor.addModule m.name content ≠ content ∧
        change = .write m.parent (Descriptor.addModule m.name content) := by
  unfold steps
  by_cases same : Descriptor.addModule m.name content = content
  · simp [same]
  · simp [same]

/-- Every change of the patch is one of its steps, but for what it says in the end. -/
theorem changes_cases {m : NewModule} {content : Text} {change : Change}
    (member : change ∈ (patch m content).changes) :
    change ∈ steps m content ∨ ∃ text, change = .note text := by
  obtain ⟨notes, changes⟩ := changes_patch m content
  rw [changes] at member
  rcases List.mem_append.mp member with step | note
  · exact .inl step
  · obtain ⟨text, _, rfl⟩ := List.mem_map.mp note
    exact .inr ⟨text, rfl⟩

theorem mem_changes_of_mem_steps {m : NewModule} {content : Text} {change : Change}
    (step : change ∈ steps m content) : change ∈ (patch m content).changes := by
  obtain ⟨notes, changes⟩ := changes_patch m content
  rw [changes]
  exact List.mem_append_left _ step

theorem mem_files_patch {m : NewModule} {content : Text} {file : Path} :
    file ∈ (patch m content).files ↔ file = m.descriptor ∨ file = m.packageInfo ∨
      Descriptor.addModule m.name content ≠ content ∧ file = m.parent := by
  unfold patch
  by_cases same : Descriptor.addModule m.name content = content
  · simp [same]
  · simp [same]

end Scaffolding

namespace ReturnTypes

variable {c : RepairContext} {s : Site} {v : Violation}

/-- What a patch that corrects return types was worked out from. -/
structure Worked (c : RepairContext) (v : Violation) (s : Site) (file : Path) (core : Text)
    (mapping : TypeMapping) (content : Text) (p : Patch) : Prop where
  found : source? v s = .ok (some file)
  mentioned : c.mappings.mentioned? v.message = some core
  resolved : c.mappings.resolve? core = some mapping
  read : s.readText file = .ok content
  patch : patch? file core mapping content = some p

theorem propose_eq_patch {p : Patch} (offered : propose c v s = .ok (.patch p)) :
    ∃ file core mapping content, Worked c v s file core mapping content p := by
  obtain ⟨source, found, offered⟩ := Except.bind_eq_ok offered
  cases source with
  | none => exact nomatch offered
  | some file =>
    cases mentioned : c.mappings.mentioned? v.message with
    | none =>
      simp only [mentioned] at offered
      exact nomatch offered
    | some core =>
      cases resolved : c.mappings.resolve? core with
      | none =>
        simp only [mentioned, resolved] at offered
        exact nomatch offered
      | some mapping =>
        simp only [mentioned, resolved] at offered
        obtain ⟨content, read, offered⟩ := Except.bind_eq_ok offered
        cases patch : patch? file core mapping content with
        | none =>
          simp only [patch] at offered
          exact nomatch offered
        | some p' =>
          simp only [patch] at offered
          cases offered
          exact ⟨file, core, mapping, content, found, mentioned, resolved, read, patch⟩

end ReturnTypes

namespace WrapperFiles

variable {c : RepairContext} {s : Site} {v : Violation}

/-- What a patch that installs the wrapper was worked out from. -/
structure Worked (c : RepairContext) (v : Violation) (s : Site) (root : Path) (missing : List Text)
    (hasDirectory : Bool) (p : Patch) : Prop where
  module : c.moduleOf s v = .ok root
  asked : Wrapper.files.filterM (fun file => do return !(← s.exists? (place root file))) =
    .ok missing
  directory : s.isDirectory? (place root Wrapper.directory) = .ok hasDirectory
  incomplete : ¬(missing = [] ∧ hasDirectory = true)
  patch : p = patch root missing hasDirectory

theorem propose_eq_patch {p : Patch} (offered : propose c v s = .ok (.patch p)) :
    ∃ root missing hasDirectory, Worked c v s root missing hasDirectory p := by
  have offered := Except.mapError_eq_ok offered
  obtain ⟨root, module, offered⟩ := Except.bind_eq_ok offered
  obtain ⟨missing, asked, offered⟩ := Except.bind_eq_ok offered
  obtain ⟨hasDirectory, directory, offered⟩ := Except.bind_eq_ok offered
  by_cases complete : (missing = [] && hasDirectory) = true
  · rw [if_pos complete] at offered
    exact nomatch offered
  · rw [if_neg complete] at offered
    cases offered
    refine ⟨root, missing, hasDirectory, module, asked, directory, ?_, rfl⟩
    simpa using complete

theorem mem_changes_patch {root : Path} {missing : List Text} {hasDirectory : Bool}
    {change : Change} : change ∈ (patch root missing hasDirectory).changes ↔
      change = .directory (place root Wrapper.directory) ∨ ∃ file ∈ missing,
        change = .write (place root file) (Wrapper.contents file) ∨
        Wrapper.executables.contains file = true ∧ change = .executable (place root file) ∨
        change = .note ("Generated: " ++ (place root file).text) := by
  constructor
  · intro member
    rcases List.mem_cons.mp member with rfl | inside
    · exact .inl rfl
    · obtain ⟨file, listed, inside⟩ := List.mem_flatMap.mp inside
      refine .inr ⟨file, listed, ?_⟩
      rcases List.mem_append.mp inside with writes | note
      · rcases List.mem_append.mp writes with write | executable
        · exact .inl (List.mem_singleton.mp write)
        · split at executable
          next runs => exact .inr (.inl ⟨runs, List.mem_singleton.mp executable⟩)
          next => exact absurd executable List.not_mem_nil
      · exact .inr (.inr (List.mem_singleton.mp note))
  · rintro (rfl | ⟨file, listed, kinds⟩)
    · exact List.mem_cons_self
    · refine List.mem_cons_of_mem _ (List.mem_flatMap.mpr ⟨file, listed, ?_⟩)
      rcases kinds with rfl | ⟨runs, rfl⟩ | rfl
      · exact List.mem_append_left _ (List.mem_append_left _ List.mem_cons_self)
      · rw [if_pos runs]
        exact List.mem_append_left _ (List.mem_append_right _ List.mem_cons_self)
      · exact List.mem_append_right _ List.mem_cons_self

end WrapperFiles

end Layering
