import Layering.Proofs.Confinement
import Layering.Proofs.DirectEffects
import Layering.Proofs.StandingSnapshots

/-!
# Snapshots in one memory

Snapshots in memory of files that none but one lane of work may change: what is taken of them, restored
and forgotten depends on these files alone, and concerns no other.
-/

namespace Layering

open Site

namespace InMemory

variable {due own : Location → Prop} {before s s' : Site} {target : Path} {files : List Path}
variable {l : Location}

/-! ### Taking -/

/-- What there is to remember of a file at a direct path. -/
theorem take_cases (direct : s.Direct target) (sound : s.tree.Sound) :
    (s.entryAt target = none ∧ ∃ stop, take s target = .ok (.absent stop)) ∨
    (∃ bytes mode, s.entryAt target = some (.file bytes mode) ∧
      take s target = .ok (.contents bytes)) ∨
    (s.entryAt target = some .directory ∧
      take s target = .error (.fault (.isDirectory target))) := by
  have asked := direct.exists? sound
  unfold take
  rw [asked]
  rcases entry : s.entryAt target with _ | ⟨_ | ⟨bytes, mode⟩⟩
  · obtain ⟨stop, found⟩ := nearestAncestor_eq_ok asked
    refine .inl ⟨rfl, stop, ?_⟩
    rw [found]
    rfl
  · refine .inr (.inr ⟨rfl, ?_⟩)
    have located := direct.locate sound (by simp [entry])
    have open_ : s.tree.at? (s.location target) = some .directory := entry
    have refused : s.read target = .error (.isDirectory target) := by
      unfold Site.read
      rw [located]
      simp only [open_]
    rw [readBytes, refused]
    rfl
  · refine .inr (.inl ⟨bytes, mode, rfl, ?_⟩)
    rw [readBytes, direct.read sound entry]
    rfl

/-- What is taken of a file depends on what is there. -/
theorem take_twice (sound : s.tree.Sound) (sound' : s'.tree.Sound) (direct : s.Direct target)
    (direct' : s'.Direct target) (same : s'.entryAt target = s.entryAt target) :
    (∃ held held', take s target = .ok held ∧ take s' target = .ok held' ∧
      held'.bytes? = held.bytes?) ∨
    ∃ e, take s target = .error e ∧ take s' target = .error e := by
  rcases take_cases direct sound with ⟨entry, stop, took⟩ | ⟨bytes, mode, entry, took⟩ | ⟨entry, took⟩
  all_goals
    rcases take_cases direct' sound' with ⟨entry', stop', took'⟩ | ⟨bytes', mode', entry', took'⟩ |
      ⟨entry', took'⟩
  all_goals rw [same, entry] at entry'
  -- Of the nine pairs of cases three agree on what is there.
  · exact .inl ⟨_, _, took, took', rfl⟩
  · cases entry'
  · cases entry'
  · cases entry'
  · cases entry'
    exact .inl ⟨_, _, took, took', rfl⟩
  · cases entry'
  · cases entry'
  · cases entry'
  · exact .inr ⟨_, took, took'⟩

/-- Two lists of what was taken tell the same of the same files. -/
def SameTaken (taken taken' : List (Path × Held)) : Prop :=
  List.Forall₂ (fun x x' => x'.1 = x.1 ∧ x'.2.bytes? = x.2.bytes?) taken taken'

/-- What is taken of files depends on what is there. -/
theorem takeAll_twice (sound : s.tree.Sound) (sound' : s'.tree.Sound)
    (direct : ∀ target ∈ files, s.Direct target ∧ s'.Direct target)
    (same : ∀ target ∈ files, s'.entryAt target = s.entryAt target) :
    (∃ taken taken', takeAll s files = .ok taken ∧ takeAll s' files = .ok taken' ∧
      SameTaken taken taken') ∨
    ∃ e, takeAll s files = .error e ∧ takeAll s' files = .error e := by
  induction files with
  | nil => exact .inl ⟨[], [], rfl, rfl, .nil⟩
  | cons target rest ih =>
    obtain ⟨⟨direct₁, direct₁'⟩, direct⟩ := List.forall_mem_cons.mp direct
    obtain ⟨same₁, same⟩ := List.forall_mem_cons.mp same
    unfold takeAll at ih ⊢
    rw [List.mapM_cons, List.mapM_cons]
    rcases take_twice sound sound' direct₁ direct₁' same₁ with ⟨held, held', took, took', alike⟩ | ⟨e, took, took'⟩
    · rw [took, took']
      rcases ih direct same with ⟨taken, taken', all, all', pairs⟩ | ⟨e, all, all'⟩
      · refine .inl ⟨(target, held) :: taken, (target, held') :: taken', ?_, ?_, ?_⟩
        · rw [all]
          rfl
        · rw [all']
          rfl
        · exact .cons ⟨rfl, alike⟩ pairs
      · refine .inr ⟨e, ?_, ?_⟩
        · rw [all]
          rfl
        · rw [all']
          rfl
    · refine .inr ⟨e, ?_, ?_⟩
      · rw [took]
        rfl
      · rw [took']
        rfl

/-- What is remembered after something was taken tells the same if it did before. -/
theorem get?_remembered {taken taken' entries entries' : List (Path × Held)}
    (places : ∀ target, s'.resolve target = s.resolve target) (pairs : SameTaken taken taken')
    {key : Path} (same : (Entries.get? key entries').map Held.bytes? =
      (Entries.get? key entries).map Held.bytes?) :
    (Entries.get? key (taken'.foldl (fun held x => Entries.put (s'.resolve x.1) x.2 held)
      entries')).map Held.bytes? =
    (Entries.get? key (taken.foldl (fun held x => Entries.put (s.resolve x.1) x.2 held)
      entries)).map Held.bytes? := by
  induction pairs generalizing entries entries' with
  | nil => exact same
  | cons pair _ ih =>
    apply ih
    obtain ⟨named, alike⟩ := pair
    rw [Entries.get?_put, Entries.get?_put, places, named]
    split
    · exact congrArg some alike
    · exact same

theorem SameTaken.filterMap {taken taken' : List (Path × Held)} (pairs : SameTaken taken taken')
    {pick : Path × Held → Option Path} (picks : ∀ target held held',
      held'.bytes? = held.bytes? → pick (target, held') = pick (target, held)) :
    taken'.filterMap pick = taken.filterMap pick := by
  induction pairs with
  | nil => rfl
  | @cons x x' _ _ pair _ ih =>
    obtain ⟨target, held⟩ := x
    obtain ⟨target', held'⟩ := x'
    obtain ⟨rfl, alike⟩ := pair
    rw [List.filterMap_cons, List.filterMap_cons, picks target' held held' alike, ih]

section

variable (straight : upName ∉ before.workingDirectory)
variable (direct : ∀ target ∈ files, before.Direct target)
variable (mine : ∀ target ∈ files, own (before.location target))
include straight direct mine

/-- After a snapshot was taken, what is remembered leads to the removal of no directory of before. -/
theorem fares_backup (fares : Fares due before s) (project : Path) :
    Fares due before (backup files project s).2 ∧
      SameBeside own s (backup files project s).2 ∧
      (backup files project s).2.tree = s.tree := by
  rcases run : backup files project s with ⟨e | handle, s₁⟩
  · obtain rfl := site_of_failed_backup run
    exact ⟨fares, .refl own s₁, rfl⟩
  · obtain ⟨beside, _, all⟩ := backup_takes project run
    have tree : s₁.tree = s.tree := by rw [beside]
    have place : s₁.workingDirectory = s.workingDirectory := by rw [beside]
    have others (key : Path) (differ : ∀ target ∈ files, s.resolve target ≠ key) :
        Entries.get? key s₁.held = Entries.get? key s.held := by
      have kept := (get?_backup (s := s) project differ).2
      rwa [run] at kept
    have within : Within due before s₁ := fares.toWithin.of_tree place tree
    refine ⟨{ within with marks := fun l stop here marked => ?_ }, ⟨?_, ?_⟩, tree⟩
    · by_cases taken : ∃ target ∈ files, s.resolve target = ⟨.root, l⟩
      · obtain ⟨target, member, key⟩ := taken
        obtain ⟨target', member', held, same, found, took⟩ := all target member
        rw [key] at found same
        cases found.symm.trans marked
        obtain ⟨base, rest, way, short⟩ :=
          (direct target' member').of_opens fares.opens fares.place
        have records := records_of_take fares.sound way took
        rw [fares.resolve_eq straight] at same
        rw [fares.location, (Path.mk.inj same).2] at records
        cases records with
        | absent _ nearest =>
          -- Between the file and the nearest directory nothing is there, and before there was not more.
          intro m below differ part open_
          rw [fares.location] at nearest
          have gone := nearest.between m below differ part
          cases gone.symm.trans (fares.opens m open_)
      · rw [others _ fun target member key => taken ⟨target, member, key⟩] at marked
        exact fares.marks l stop here marked
    · intro l _ bytes mode
      rw [tree]
    · intro l beside'
      refine others _ fun target member key => beside' ?_
      rw [fares.resolve_eq straight] at key
      exact (Path.mk.inj key).2 ▸ mine target member

/-- A snapshot of the same files is the same. -/
theorem twins_backup (twins : Twins due own before s s') (project : Path) :
    (backup files project s').1 = (backup files project s).1 ∧
      Twins due own before (backup files project s).2 (backup files project s').2 ∧
      SameBeside own s (backup files project s).2 := by
  obtain ⟨fares, beside, tree⟩ := fares_backup straight direct mine twins.first project
  obtain ⟨fares', _, tree'⟩ := fares_backup straight direct mine twins.second project
  have places (target : Path) : s'.resolve target = s.resolve target := by
    rw [twins.first.resolve_eq straight, twins.second.resolve_eq straight]
  have entries (target : Path) (member : target ∈ files) :
      s'.entryAt target = s.entryAt target := by
    rw [entryAt, entryAt, twins.first.location, twins.second.location]
    exact twins.same.entries _ (mine target member)
  have both : ∀ target ∈ files, s.Direct target ∧ s'.Direct target := fun target member =>
    ⟨(direct target member).of_opens twins.first.opens twins.first.place,
      (direct target member).of_opens twins.second.opens twins.second.place⟩
  -- The trees are left as they are, so only what is remembered has to be compared.
  suffices told : (backup files project s').1 = (backup files project s).1 ∧ ∀ l, own l →
      (Entries.get? ⟨.root, l⟩ (backup files project s').2.held).map Held.bytes? =
        (Entries.get? ⟨.root, l⟩ (backup files project s).2.held).map Held.bytes? by
    refine ⟨told.1, ⟨fares, fares', ⟨fun l here => ?_, told.2⟩⟩, beside⟩
    rw [tree, tree']
    exact twins.same.entries l here
  rcases takeAll_twice twins.first.sound twins.second.sound both entries with
    ⟨taken, taken', all, all', pairs⟩ | ⟨e, all, all'⟩
  · unfold backup
    rw [Action.bind_apply, Action.bind_apply, Action.ask_apply, Action.ask_apply, all, all']
    simp only
    rw [Action.bind_apply, Action.bind_apply, Action.modify_apply, Action.modify_apply]
    simp only
    refine ⟨?_, fun l here => get?_remembered places pairs (twins.same.held l here)⟩
    rw [Action.pure_apply, Action.pure_apply, pairs.filterMap]
    intro target held held' alike
    cases held with
    | contents bytes =>
      cases held' with
      | contents bytes' => rfl
      | absent stop => cases alike
    | absent stop =>
      cases held' with
      | contents bytes => cases alike
      | absent stop' => rfl
  · unfold backup
    rw [Action.bind_apply, Action.bind_apply, Action.ask_apply, Action.ask_apply, all, all']
    exact ⟨rfl, twins.same.held⟩

end

/-! ### Forgetting -/

theorem get?_forgotten {key other : Path} (entries : List (Path × Held)) :
    Entries.get? key (entries.filter fun (p, _) => p ≠ other) =
      if key = other then none else Entries.get? key entries := by
  split
  next same =>
    subst same
    induction entries with
    | nil => rfl
    | cons entry rest ih =>
      obtain ⟨first, held⟩ := entry
      by_cases here : first = key
      · rw [List.filter_cons_of_neg (by simp [here])]
        exact ih
      · rw [List.filter_cons_of_pos (by simp [here]), Entries.get?, if_neg (by simpa using here)]
        exact ih
  next differ => exact get?_filter (Ne.symm differ) entries

/-- Of files that are forgotten nothing is remembered, and of others the same as before. -/
theorem forM_forget_get? (files : List Path) (s : Site) :
    ∃ s', files.forM forget s = (.ok (), s') ∧ s' = { s with held := s'.held } ∧
      ∀ key, (key ∈ files.map s.resolve ∧ Entries.get? key s'.held = none) ∨
        (key ∉ files.map s.resolve ∧ Entries.get? key s'.held = Entries.get? key s.held) := by
  induction files generalizing s with
  | nil => exact ⟨s, rfl, rfl, fun key => .inr ⟨List.not_mem_nil, rfl⟩⟩
  | cons target rest ih =>
    obtain ⟨s', run, beside, each⟩ := ih (forget target s).2
    refine ⟨s', (Action.forM_cons_apply target rest s).trans run, by rw [beside]; rfl, ?_⟩
    intro key
    have first : Entries.get? key (forget target s).2.held =
        if key = s.resolve target then none else Entries.get? key s.held := get?_forgotten s.held
    have places : rest.map (forget target s).2.resolve = rest.map s.resolve := rfl
    rw [List.map_cons, List.mem_cons]
    rcases each key with ⟨member, gone⟩ | ⟨beside, same⟩
    · exact .inl ⟨.inr (places ▸ member), gone⟩
    · rw [first] at same
      rw [places] at beside
      by_cases here : key = s.resolve target
      · exact .inl ⟨.inl here, by rw [same, if_pos here]⟩
      · exact .inr ⟨fun member => member.elim here beside, by rw [same, if_neg here]⟩

section

variable (straight : upName ∉ before.workingDirectory)
include straight

/-- Forgetting files changes nothing but what is remembered of them. -/
theorem fares_forget (files : List Path) (fares : Fares due before s) :
    ∃ t, files.forM forget s = (.ok (), t) ∧ Fares due before t ∧ t.tree = s.tree ∧
      ∀ l, ((∃ target ∈ files, before.location target = l) ∧
          Entries.get? ⟨.root, l⟩ t.held = none) ∨
        ((∀ target ∈ files, before.location target ≠ l) ∧
          Entries.get? ⟨.root, l⟩ t.held = Entries.get? ⟨.root, l⟩ s.held) := by
  obtain ⟨t, run, beside, each⟩ := forM_forget_get? files s
  have tree : t.tree = s.tree := by rw [beside]
  have place : t.workingDirectory = s.workingDirectory := by rw [beside]
  have within : Within due before t := fares.toWithin.of_tree place tree
  have told (l : Location) : ((∃ target ∈ files, before.location target = l) ∧
        Entries.get? ⟨.root, l⟩ t.held = none) ∨
      ((∀ target ∈ files, before.location target ≠ l) ∧
        Entries.get? ⟨.root, l⟩ t.held = Entries.get? ⟨.root, l⟩ s.held) := by
    rcases each ⟨.root, l⟩ with ⟨member, gone⟩ | ⟨other, same⟩
    · obtain ⟨target, listed, key⟩ := List.mem_map.mp member
      rw [fares.resolve_eq straight] at key
      exact .inl ⟨⟨target, listed, (Path.mk.inj key).2⟩, gone⟩
    · refine .inr ⟨fun target listed here => other ?_, same⟩
      exact List.mem_map.mpr ⟨target, listed, by rw [fares.resolve_eq straight, here]⟩
  refine ⟨t, run, { within with marks := fun l stop here marked => ?_ }, tree, told⟩
  rcases told l with ⟨_, gone⟩ | ⟨_, same⟩
  · cases gone.symm.trans marked
  · exact fares.marks l stop here (same ▸ marked)

theorem twins_forget (mine : ∀ target ∈ files, own (before.location target))
    (twins : Twins due own before s s') :
    ∃ t t', files.forM forget s = (.ok (), t) ∧ files.forM forget s' = (.ok (), t') ∧
      Twins due own before t t' ∧ SameBeside own s t := by
  obtain ⟨t, run, fares, tree, told⟩ := fares_forget straight files twins.first
  obtain ⟨t', run', fares', tree', told'⟩ := fares_forget straight files twins.second
  refine ⟨t, t', run, run', ⟨fares, fares', ⟨fun l here => ?_, fun l here => ?_⟩⟩, ⟨?_, ?_⟩⟩
  · rw [tree, tree']
    exact twins.same.entries l here
  · rcases told l with ⟨⟨target, listed, at_⟩, gone⟩ | ⟨other, same⟩
    · rcases told' l with ⟨_, gone'⟩ | ⟨other', _⟩
      · rw [gone, gone']
      · exact absurd at_ (other' target listed)
    · rcases told' l with ⟨⟨target, listed, at_⟩, _⟩ | ⟨_, same'⟩
      · exact absurd at_ (other target listed)
      · rw [same, same']
        exact twins.same.held l here
  · intro l _ bytes mode
    rw [tree]
  · intro l beside
    rcases told l with ⟨⟨target, listed, at_⟩, _⟩ | ⟨_, same⟩
    · exact absurd (at_ ▸ mine target listed) beside
    · exact same

end

/-! ### Restoring -/

/-- The mode of a file that is written over what is there. -/
def modeOver : Option Entry → Nat
  | some (.file _ mode) => mode
  | _ => Action.newFileMode

/-- What restoring a file does, where no file is on its way or one is, and its name is short or is not:
whether it says that the file was restored, and what is there then. -/
inductive Brings (free short : Prop) : Option Held → Option Entry → Bool → Option Entry → Prop
  | unknown {e : Option Entry} : Brings free short none e false e
  | removed {stop : Path} {e : Option Entry} (leaf : e ≠ some .directory) (clear : free) :
    Brings free short (some (.absent stop)) e true none
  | unremoved {stop : Path} {e : Option Entry} (stuck : ¬(e ≠ some .directory ∧ free)) :
    Brings free short (some (.absent stop)) e false e
  | written {bytes : Bytes} {e : Option Entry} (leaf : e ≠ some .directory) (clear : free)
    (fits : short) :
    Brings free short (some (.contents bytes)) e true (some (.file bytes (modeOver e)))
  | unwritten {bytes : Bytes} {e : Option Entry} (stuck : ¬(e ≠ some .directory ∧ free ∧ short)) :
    Brings free short (some (.contents bytes)) e false e

theorem Brings.unique {free short : Prop} {held held' : Option Held} {e after after' : Option Entry}
    {done done' : Bool} (h : Brings free short held e done after)
    (h' : Brings free short held' e done' after')
    (same : held'.map Held.bytes? = held.map Held.bytes?) : done' = done ∧ after' = after := by
  cases h with
  | unknown =>
    cases h' with
    | unknown => exact ⟨rfl, rfl⟩
    | _ => cases same
  | removed leaf clear =>
    cases h' with
    | removed => exact ⟨rfl, rfl⟩
    | unremoved stuck => exact absurd ⟨leaf, clear⟩ stuck
    | _ => cases same
  | unremoved stuck =>
    cases h' with
    | removed leaf clear => exact absurd ⟨leaf, clear⟩ stuck
    | unremoved => exact ⟨rfl, rfl⟩
    | _ => cases same
  | written leaf clear fits =>
    cases h' with
    | written =>
      cases same
      exact ⟨rfl, rfl⟩
    | unwritten stuck => exact absurd ⟨leaf, clear, fits⟩ stuck
    | _ => cases same
  | unwritten stuck =>
    cases h' with
    | written leaf clear fits => exact absurd ⟨leaf, clear, fits⟩ stuck
    | unwritten => exact ⟨rfl, rfl⟩
    | _ => cases same

section

/-- Writing a file that is due, or failing to, is confined to it. -/
theorem within_writeBytes (direct : before.Direct target) (within : Within due before s)
    (bytes : Bytes) : Within (· = before.location target) s (Action.writeBytes target bytes s).2 := by
  obtain ⟨base, rest, way, _⟩ := direct.of_opens within.opens within.place
  have place := within.location target
  -- A directory that is made lies above the file: where it is made nothing was.
  have above {m : Location} {k : Nat} (absent : s.tree.at? m = none)
      (made : m = Location.walk (s.start target) (target.parent.names.take k)) :
      m <+: before.location target := by
    rw [Path.parent, List.dropLast_eq_take, List.take_take] at made
    exact place ▸ made ▸ way.firm.prefix_of_absent (made ▸ absent)
  rcases Action.writeBytes_cases target bytes s with ⟨t, run, writes⟩ | ⟨f, t, run, grows, _⟩
  · rw [run]
    refine .of_put (by rw [writes.beside]) (writes.sound within.sound)
      (.inr ⟨?_, bytes, s.modeAt (s.location target), ?_⟩) ?_
    · rw [← place]
      exact writes.free
    · rw [← place]
      exact writes.written
    · intro m other
      refine (writes.others m (place ▸ other)).imp_right ?_
      rintro ⟨absent, made, k, at_⟩
      exact ⟨absent, made, above absent at_⟩
  · rw [run]
    have others (m : Location) : t.tree.at? m = s.tree.at? m ∨ s.tree.at? m = none ∧
        t.tree.at? m = some .directory ∧ m <+: before.location target := by
      refine (grows.entries m).imp_right ?_
      rintro ⟨absent, made, k, at_⟩
      exact ⟨absent, made, above absent (Tree.eq_walk_of_follow at_)⟩
    refine .of_put (by rw [grows.beside]) (grows.sound within.sound) (.inl ?_) fun m _ => others m
    rw [← place]
    exact Action.at?_of_grows_above way grows

variable (straight : upName ∉ before.workingDirectory) (level : Level due before)
variable (direct : before.Direct target) (here : due (before.location target))
include straight level direct here

omit level in
/-- Removing a file that was absent, with the directories that were made for it, is confined to it. -/
theorem fares_remove (fares : Fares due before s) {s₁ : Site} {stop : Path}
    (leaf : s.tree.at? (before.location target) ≠ some .directory) (clears : Clears s s₁ target)
    (unopened : before.Unopened (before.location stop) (before.location target)) :
    Fares due before (Action.pruneUpTo stop target.parent s₁).2 ∧
      (Action.pruneUpTo stop target.parent s₁).2.held = s.held ∧
      SameBeside (· = before.location target) s (Action.pruneUpTo stop target.parent s₁).2 ∧
      (Action.pruneUpTo stop target.parent s₁).2.tree.at? (before.location target) = none := by
  have place := fares.location target
  obtain ⟨base, rest, way, _⟩ := direct.of_opens fares.opens fares.place
  obtain ⟨name, _, _, last⟩ := way.last (way.inner (by rw [entryAt, place]; exact leaf))
  have touches := clears.touches
  have place₁ (p : Path) : s₁.location p = s.location p := location_of_beside touches.beside p
  have straight₁ : upName ∉ s₁.workingDirectory := by
    rw [touches.beside]
    exact fares.place ▸ straight
  have prunes := Action.prunes_pruneUpTo straight₁ stop target.parent
  generalize (Action.pruneUpTo stop target.parent s₁).2 = t at prunes
  have held : t.held = s.held := by rw [prunes.beside, touches.beside]
  have each {m : Location} (differ : m ≠ before.location target) : t.tree.at? m = s.tree.at? m ∨
      s.tree.at? m = some .directory ∧ t.tree.at? m = none ∧ s₁.location stop <+: m ∧
        m ≠ s₁.location stop ∧ m <+: s₁.location target.parent := by
    have same : s₁.tree.at? m = s.tree.at? m := clears.other (place ▸ differ)
    exact same ▸ prunes.entries m
  have gone₁ : s₁.tree.at? (before.location target) = none := by
    rw [← place]
    exact clears.entryAt fares.sound way.firm
  have gone : t.tree.at? (before.location target) = none := by
    rcases prunes.entries (before.location target) with kept | ⟨_, gone, _⟩
    · rw [kept, gone₁]
    · exact gone
  have files (l : Location) (differ : l ≠ before.location target) (bytes : Bytes) (mode : Nat) :
      t.tree.at? l = some (.file bytes mode) ↔ s.tree.at? l = some (.file bytes mode) := by
    rcases each differ with kept | ⟨open_, gone, _⟩
    · rw [kept]
    · simp [open_, gone]
  refine ⟨fares.onward ⟨?_, ?_, ?_, ?_, ?_⟩ held, held, ⟨files, fun l _ => by rw [held]⟩, gone⟩
  · rw [prunes.beside, touches.beside]
    exact fares.place
  · exact prunes.sound (touches.sound fares.sound)
  · intro m open_
    have there := fares.opens m open_
    have differ : m ≠ before.location target := by
      rintro rfl
      exact leaf there
    rcases each differ with kept | ⟨_, _, below, other, part⟩
    · rw [kept, there]
    · -- The directories that are pruned lie below the nearest one that was there.
      rw [place₁, fares.location] at below other part
      rw [fares.location, fares.location] at last
      exact absurd open_ (unopened m below other (part.trans (last ▸ List.prefix_append ..)))
  · intro l undue bytes mode
    have differ : l ≠ before.location target := by
      rintro rfl
      exact undue here
    exact (files l differ bytes mode).trans (fares.files l undue bytes mode)
  · intro l open_
    have differ : l ≠ before.location target := by
      rintro rfl
      cases gone.symm.trans open_
    refine fares.made l ?_
    rcases each differ with kept | ⟨_, gone, _⟩
    · rw [← kept, open_]
    · cases gone.symm.trans open_

omit straight in
/-- Writing over a file that is due depends on what is there. -/
theorem fares_write (fares : Fares due before s) (bytes : Bytes) :
    ∃ t, Fares due before t ∧ t.held = s.held ∧ SameBeside (· = before.location target) s t ∧
      ((Action.writeBytes target bytes s = (.ok (), t) ∧
          s.tree.at? (before.location target) ≠ some .directory ∧
          ¬before.tree.Blocked (before.location target) ∧
          nameSize (Fault.temporaryName target.name) ≤ maxNameSize ∧
          t.tree.at? (before.location target) =
            some (.file bytes (modeOver (s.tree.at? (before.location target))))) ∨
        ∃ f, Action.writeBytes target bytes s = (.error (.fault f), t) ∧
          ¬(s.tree.at? (before.location target) ≠ some .directory ∧
            ¬before.tree.Blocked (before.location target) ∧
            nameSize (Fault.temporaryName target.name) ≤ maxNameSize) ∧
          t.tree.at? (before.location target) = s.tree.at? (before.location target)) := by
  have place := fares.location target
  have direct₁ := direct.of_opens fares.opens fares.place
  have within := within_writeBytes direct fares.toWithin bytes
  have written := Action.writeBytes_ok_iff direct₁ fares.sound bytes
  rw [entryAt, place, fares.blocked_iff level here] at written
  rcases Action.writeBytes_cases target bytes s with ⟨t, run, writes⟩ | ⟨f, t, run, grows, _⟩
  · rw [run] at within written
    have held : t.held = s.held := by rw [writes.beside]
    obtain ⟨leaf, clear, fits⟩ := written.mp rfl
    refine ⟨t, fares.onward (fares.toWithin.trans (within.mono fun _ same => same ▸ here)) held, held,
      within.sameBeside held, .inl ⟨run, leaf, clear, fits, ?_⟩⟩
    have file := writes.written
    rw [place] at file
    rw [file]
    rfl
  · rw [run] at within written
    have held : t.held = s.held := by rw [grows.beside]
    obtain ⟨base, rest, way, _⟩ := direct₁
    have kept := Action.at?_of_grows_above way grows
    rw [place] at kept
    refine ⟨t, fares.onward (fares.toWithin.trans (within.mono fun _ same => same ▸ here)) held, held,
      within.sameBeside held, .inr ⟨f, run, fun able => ?_, kept⟩⟩
    cases written.mpr able

/-- Restoring a file that is due depends on what is remembered of it and on what is there. -/
theorem fares_restore (fares : Fares due before s) :
    ∃ r t, restore target s = (.ok r, t) ∧ Fares due before t ∧ t.held = s.held ∧
      SameBeside (· = before.location target) s t ∧
      Brings (¬before.tree.Blocked (before.location target))
        (nameSize (Fault.temporaryName target.name) ≤ maxNameSize)
        (Entries.get? ⟨.root, before.location target⟩ s.held)
        (s.tree.at? (before.location target)) r.success (t.tree.at? (before.location target)) := by
  have place := fares.location target
  have direct₁ := direct.of_opens fares.opens fares.place
  have free := fares.blocked_iff level here
  unfold restore
  rw [Action.bind_apply, Action.get_apply]
  simp only [fares.resolve_eq straight]
  -- Nothing is remembered of the file, or its contents, or that it was absent.
  rcases found : Entries.get? ⟨.root, before.location target⟩ s.held with _ | ⟨bytes | stop⟩
  all_goals simp only [found]
  · exact ⟨.unknown target, s, rfl, fares, rfl, .refl _ s, .unknown⟩
  · obtain ⟨t, fares₁, held, beside, ⟨run, leaf, clear, fits, file⟩ | ⟨f, run, stuck, kept⟩⟩ :=
      fares_write level direct here fares bytes
    · refine ⟨⟨target, none, true, []⟩, t, Restoration.orFault_ok (Action.bind_of_ok run), fares₁, held,
        beside, ?_⟩
      rw [file]
      exact .written leaf clear fits
    · refine ⟨⟨target, none, false, f.message⟩, t,
        Restoration.orFault_fault (Action.bind_of_error run), fares₁, held, beside, ?_⟩
      rw [kept]
      exact .unwritten stuck
  · have deleted := Action.deleteFile_ok_iff direct₁ fares.sound
    rw [entryAt, place, free] at deleted
    rcases Action.deleteFile_clears target s with ⟨s₁, run, clears⟩ | ⟨f, run⟩
    · rw [run] at deleted
      obtain ⟨leaf, clear⟩ := deleted.mp rfl
      obtain ⟨fares₁, held, beside, gone⟩ :=
        fares_remove straight direct here fares leaf clears (fares.marks _ stop here found)
      refine ⟨.removed target, (Action.pruneUpTo stop target.parent s₁).2, ?_, fares₁, held, beside, ?_⟩
      · refine Restoration.orFault_ok ((Action.bind_of_ok run).trans ?_)
        exact Action.bind_of_ok (Action.pruneUpTo_apply stop target.parent s₁)
      · rw [gone]
        exact .removed leaf clear
    · rw [run] at deleted
      refine ⟨⟨target, none, false, f.message⟩, s,
        Restoration.orFault_fault (Action.bind_of_error run), fares, rfl, .refl _ s, ?_⟩
      refine .unremoved fun able => ?_
      cases deleted.mpr able

omit here in
/-- A file is restored alike at two sites that show the same of it. -/
theorem twins_restore (owned : ∀ l, own l → due l) (mine : own (before.location target))
    (twins : Twins due own before s s') :
    ∃ r r' t t', restore target s = (.ok r, t) ∧ restore target s' = (.ok r', t') ∧
      r'.success = r.success ∧ Twins due own before t t' ∧ SameBeside own s t := by
  have here := owned _ mine
  obtain ⟨r, t, run, fares, held, beside, brings⟩ :=
    fares_restore straight level direct here twins.first
  obtain ⟨r', t', run', fares', held', beside', brings'⟩ :=
    fares_restore straight level direct here twins.second
  rw [twins.same.entries _ mine] at brings'
  -- What is remembered and what is there tell what is restored, and both are the same.
  obtain ⟨success, entry⟩ := brings.unique brings' (twins.same.held _ mine)
  refine ⟨r, r', t, t', run, run', success, ?_, beside.mono fun l same => same ▸ mine⟩
  refine twins.onward level owned fares fares' beside beside' ⟨?_, ?_⟩
  · rintro _ rfl
    exact entry
  · rintro _ rfl
    rw [held, held']
    exact twins.same.held _ mine

end

/-- Files are restored alike at two sites that show the same of them. -/
theorem twins_restoreAll (straight : upName ∉ before.workingDirectory) (level : Level due before)
    (owned : ∀ l, own l → due l) (direct : ∀ target ∈ files, before.Direct target)
    (mine : ∀ target ∈ files, own (before.location target)) (twins : Twins due own before s s') :
    ∃ restored restored' t t', files.mapM restore s = (.ok restored, t) ∧
      files.mapM restore s' = (.ok restored', t') ∧
      restored'.map (·.success) = restored.map (·.success) ∧ Twins due own before t t' ∧
      SameBeside own s t := by
  induction files generalizing s s' with
  | nil => exact ⟨[], [], s, s', rfl, rfl, rfl, twins, .refl own s⟩
  | cons target rest ih =>
    obtain ⟨direct₁, direct⟩ := List.forall_mem_cons.mp direct
    obtain ⟨mine₁, mine⟩ := List.forall_mem_cons.mp mine
    obtain ⟨r, r', s₁, s₁', run, run', success, twins₁, beside₁⟩ :=
      twins_restore straight level direct₁ owned mine₁ twins
    obtain ⟨rs, rs', t, t', all, all', successes, twins₂, beside₂⟩ := ih direct mine twins₁
    refine ⟨r :: rs, r' :: rs', t, t', Action.mapM_cons_apply run all,
      Action.mapM_cons_apply run' all', ?_, twins₂, beside₁.trans beside₂⟩
    rw [List.map_cons, List.map_cons, success, successes]

end InMemory

end Layering
