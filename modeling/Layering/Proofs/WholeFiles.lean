import Layering.Proofs.Effects

/-!
# Files in full or not at all

Whatever is refused while a file is written, it is written in full or no file changes. What may be left
of a write that failed are directories that it made above its path.
-/

namespace Layering

namespace Site

variable {s s' : Site} {p : Path} {bytes : Bytes}

/-- A path with as many names as are left of a parent is the parent or above it. -/
theorem take_mem_above (p : Path) (k : Nat) :
    (⟨p.anchor, p.names.take k⟩ : Path) ∈ p :: p.ancestors := by
  rw [List.mem_cons, Action.mem_ancestors_iff]
  by_cases whole : p.names.take k = p.names
  · left
    rw [whole]
  · right
    exact ⟨rfl, List.take_prefix .., whole⟩

/-- No files but some have changed, and directories are new above a path only. -/
structure ChangesOnly (changed : Location → Prop) (s s' : Site) (p : Path) : Prop where
  beside : s' = { s with tree := s'.tree }
  files : ∀ l, ¬changed l → ∀ bytes mode,
    s'.tree.at? l = some (.file bytes mode) ↔ s.tree.at? l = some (.file bytes mode)
  opens : s.tree.Opens s'.tree
  made : ∀ l, s'.tree.at? l = some .directory →
    s.tree.at? l = some .directory ∨ ∃ q ∈ p.parent :: p.parent.ancestors, l = s.location q

/-- Making directories changes no file. -/
theorem ChangesOnly.of_grows (changed : Location → Prop) (grows : Grows s s' p.parent) :
    ChangesOnly changed s s' p where
  beside := grows.beside
  files l _ bytes mode := by
    rcases grows.entries l with same | ⟨absent, new, _⟩
    · rw [same]
    · simp [absent, new]
  opens := grows.opens
  made l open_ := by
    rcases grows.entries l with same | ⟨_, _, k, way⟩
    · left
      rw [← same, open_]
    · right
      refine ⟨_, take_mem_above p.parent k, ?_⟩
      rw [Tree.eq_walk_of_follow way]
      rfl

/-- A file that is written is the only one that changes. -/
theorem ChangesOnly.of_writes (writes : Writes s s' p bytes) :
    ChangesOnly (· = s.location p) s s' p where
  beside := writes.beside
  files l other bytes mode := by
    rcases writes.others l other with same | ⟨absent, new, _⟩
    · rw [same]
    · simp [absent, new]
  opens := by
    intro l open_
    have other : l ≠ s.location p := by
      rintro rfl
      exact writes.free open_
    rcases writes.others l other with same | ⟨absent, _⟩
    · rw [same, open_]
    · cases open_.symm.trans absent
  made l open_ := by
    have other : l ≠ s.location p := by
      rintro rfl
      cases open_.symm.trans writes.written
    rcases writes.others l other with same | ⟨_, _, k, at_⟩
    · left
      rw [← same, open_]
    · right
      exact ⟨_, take_mem_above p.parent k, at_⟩

theorem Writes.read (writes : Writes s s' p bytes) (leads : s'.locate p = .ok (s.location p)) :
    s'.read p = .ok (bytes, s.modeAt (s.location p)) := by
  unfold Site.read
  rw [leads]
  simp only [writes.written]

end Site

namespace Action

/-- Where nothing but the tree rules an operation out, files are written as ever; whatever else is
refused on the way, a file is written in full, with its old mode if there was one, and no other is
touched, or the write fails and all files are what they were. Nothing is left of the new file that was
on its way, and directories are new above the path only. -/
theorem writes_whole_or_not (r : Refusals) (p : Path) (bytes : Bytes) (s : Site) :
    Refusals.nothing.writeBytes p bytes = writeBytes p bytes ∧
    ((∃ s', r.writeBytes p bytes s = (.ok (), s') ∧
        s'.read p = .ok (bytes, s.modeAt (s.location p)) ∧
        Site.ChangesOnly (· = s.location p) s s' p) ∨
      ∃ f s', r.writeBytes p bytes s = (.error (.fault f), s') ∧
        Site.ChangesOnly (fun _ => False) s s' p) := by
  refine ⟨Refusals.writeBytes_nothing p bytes, ?_⟩
  -- A write that fails has made directories, and has removed what it wrote beside the file.
  rcases refused_writeBytes_cases r p bytes s with ⟨s', run, writes, leads⟩ | ⟨f, s', run, grows, _⟩
  · left
    exact ⟨s', run, writes.read leads, .of_writes writes⟩
  · right
    exact ⟨f, s', run, .of_grows _ grows⟩

end Action

end Layering
