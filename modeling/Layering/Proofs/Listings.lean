import Layering.Proofs.Lookups

/-!
# Listings

What is listed below a directory stands in the order of its names and is determined by the entries
alone. So a listing is the same in every tree that has the same directories and files there.
-/

namespace Layering

/-- Names are in order, and not the same. -/
def Location.Before (a b : Location) : Prop := Location.order a b = .lt

namespace Location

theorem Before.trans {a b c : Location} (first : a.Before b) (second : b.Before c) : a.Before c :=
  Std.TransCmp.lt_trans first second

theorem not_before_self (a : Location) : ¬a.Before a := by
  have same : order a a = .eq := Std.ReflCmp.compare_self
  rw [Before, same]
  nofun

theorem Before.asymm {a b : Location} (first : a.Before b) : ¬b.Before a :=
  fun second => not_before_self a (first.trans second)

instance : Std.Irrefl Before := ⟨not_before_self⟩

instance : Std.Antisymm Before := ⟨fun _ _ first second => absurd second first.asymm⟩

/-- The order of two locations below a third is that of the names from there. -/
theorem before_append_iff (l a b : Location) : (l ++ a).Before (l ++ b) ↔ a.Before b := by
  induction l with
  | nil => rfl
  | cons name l ih =>
    have same : compare name name = .eq := Std.ReflCmp.compare_self
    unfold Before order at ih ⊢
    rw [List.cons_append, List.cons_append, List.compare_cons_cons, same]
    exact ih

/-- Listings in order with the same members are the same. -/
theorem eq_of_mem_iff {xs ys : List Location} (first : xs.Pairwise Before)
    (second : ys.Pairwise Before) (same : ∀ l, l ∈ xs ↔ l ∈ ys) : xs = ys :=
  first.eq_of_mem_iff second same

end Location

namespace Tree

variable {tree tree' : Tree} {l : Location}

theorem mem_below_iff {names : List Text} {e : Entry} :
    (names, e) ∈ tree.below l ↔ names ≠ [] ∧ tree.at? (l ++ names) = some e := by
  unfold below
  simp only [List.mem_filterMap, Prod.exists, Option.ite_none_right_eq_some, Option.some.injEq,
    Prod.mk.injEq, Bool.and_eq_true, List.isPrefixOf_iff_prefix, decide_eq_true_eq]
  constructor
  · rintro ⟨place, entry, listed, ⟨⟨rest, rfl⟩, other⟩, rfl, rfl⟩
    rw [List.drop_left]
    refine ⟨by simpa using other, ?_⟩
    rw [at?_of_ne_nil (by aesop)]
    exact Std.ExtTreeMap.mem_toList_iff_getElem?_eq_some.mp listed
  · rintro ⟨inner, entry⟩
    rw [at?_of_ne_nil (by simp [inner])] at entry
    exact ⟨l ++ names, e, Std.ExtTreeMap.mem_toList_iff_getElem?_eq_some.mpr entry,
      ⟨List.prefix_append .., by simpa using inner⟩, List.drop_left, rfl⟩

theorem pairwise_below (tree : Tree) (l : Location) :
    (tree.below l).Pairwise fun a b => Location.Before a.1 b.1 := by
  unfold below
  refine List.Pairwise.filterMap _ ?_ Std.ExtTreeMap.ordered_keys_toList
  rintro ⟨place, entry⟩ ⟨place', entry'⟩ before b found b' found'
  simp only [Option.ite_none_right_eq_some, Option.some.injEq, Bool.and_eq_true,
    List.isPrefixOf_iff_prefix] at found found'
  obtain ⟨⟨⟨names, rfl⟩, _⟩, rfl⟩ := found
  obtain ⟨⟨⟨names', rfl⟩, _⟩, rfl⟩ := found'
  rw [List.drop_left, List.drop_left]
  exact (Location.before_append_iff l names names').mp before

end Tree

namespace Site

variable {s s' : Site} {p : Path}

theorem mem_directoriesBelow_iff {names : List Text} (leads : s.LeadsToDirectory p) :
    names ∈ s.directoriesBelow p ↔
      names ≠ [] ∧ s.tree.at? (s.location p ++ names) = some .directory := by
  have open_ : s.tree.isDirectory (s.location p) = true := Tree.isDirectory_iff.mpr leads.2
  unfold directoriesBelow
  rw [leads.1]
  simp only [open_, if_true, List.mem_filterMap, Prod.exists, Option.ite_none_right_eq_some,
    Option.some.injEq]
  constructor
  · rintro ⟨names', e, listed, rfl, rfl⟩
    exact Tree.mem_below_iff.mp listed
  · exact fun there => ⟨names, .directory, Tree.mem_below_iff.mpr there, rfl, rfl⟩

theorem pairwise_directoriesBelow (s : Site) (p : Path) :
    (s.directoriesBelow p).Pairwise Location.Before := by
  unfold directoriesBelow
  split
  · exact .nil
  · split
    · refine List.Pairwise.filterMap _ ?_ (s.tree.pairwise_below _)
      rintro ⟨names, e⟩ ⟨names', e'⟩ before b found b' found'
      simp only [Option.ite_none_right_eq_some, Option.some.injEq] at found found'
      obtain ⟨_, rfl⟩ := found
      obtain ⟨_, rfl⟩ := found'
      exact before
    · exact .nil

/-- The names from a directory to the files below it that end as given. -/
def fileNamesBelow (s : Site) (l : Location) (ending : Text) : List (List Text) :=
  (s.tree.below l).filterMap fun (names, entry) => match entry with
    | .file .. => if ending.isSuffixOf (names.getLast?.getD []) then some names else none
    | .directory => none

theorem filesBelow_of_leads (leads : s.LeadsToDirectory p) (ending : Text) :
    s.filesBelow p ending = .ok ((s.fileNamesBelow (s.location p) ending).map fun names =>
      ⟨p.anchor, p.names ++ names⟩) := by
  unfold filesBelow fileNamesBelow
  rw [isDirectory_iff_leads.mpr leads, leads.1, List.map_filterMap]
  simp only [bind, Except.bind, if_true]
  congr 2
  funext found
  obtain ⟨names, e⟩ := found
  cases e with
  | directory => rfl
  | file bytes mode =>
    simp only
    split <;> rfl

theorem mem_fileNamesBelow_iff {names : List Text} {l : Location} {ending : Text} :
    names ∈ s.fileNamesBelow l ending ↔ names ≠ [] ∧
      (∃ bytes mode, s.tree.at? (l ++ names) = some (.file bytes mode)) ∧
        ending.isSuffixOf (names.getLast?.getD []) = true := by
  unfold fileNamesBelow
  simp only [List.mem_filterMap, Prod.exists]
  constructor
  · rintro ⟨names', e, listed, found⟩
    cases e with
    | directory => cases found
    | file bytes mode =>
      simp only [Option.ite_none_right_eq_some, Option.some.injEq] at found
      obtain ⟨ends, rfl⟩ := found
      obtain ⟨inner, entry⟩ := Tree.mem_below_iff.mp listed
      exact ⟨inner, ⟨bytes, mode, entry⟩, ends⟩
  · rintro ⟨inner, ⟨bytes, mode, entry⟩, ends⟩
    exact ⟨names, .file bytes mode, Tree.mem_below_iff.mpr ⟨inner, entry⟩, by simp [ends]⟩

theorem pairwise_fileNamesBelow (s : Site) (l : Location) (ending : Text) :
    (s.fileNamesBelow l ending).Pairwise Location.Before := by
  unfold fileNamesBelow
  refine List.Pairwise.filterMap _ ?_ (s.tree.pairwise_below _)
  rintro ⟨names, e⟩ ⟨names', e'⟩ before b found b' found'
  cases e with
  | directory => cases found
  | file bytes mode =>
    cases e' with
    | directory => cases found'
    | file bytes' mode' =>
      simp only [Option.ite_none_right_eq_some, Option.some.injEq] at found found'
      obtain ⟨_, rfl⟩ := found
      obtain ⟨_, rfl⟩ := found'
      exact before

namespace Extends

variable (grown : s.Extends s')
include grown

/-- The files below a directory are listed again where no file is new. -/
theorem fileNamesBelow_eq {l : Location} {ending : Text}
    (old : ∀ names bytes mode, ending.isSuffixOf (names.getLast?.getD []) = true →
      s'.tree.at? (l ++ names) = some (.file bytes mode) → s.tree.at? (l ++ names) ≠ none) :
    s'.fileNamesBelow l ending = s.fileNamesBelow l ending := by
  refine Location.eq_of_mem_iff (s'.pairwise_fileNamesBelow ..) (s.pairwise_fileNamesBelow ..) ?_
  intro names
  rw [mem_fileNamesBelow_iff, mem_fileNamesBelow_iff]
  refine and_congr_right fun _ => and_congr_left fun ends => ?_
  constructor
  · rintro ⟨bytes, mode, file⟩
    obtain ⟨e, entry⟩ := Option.ne_none_iff_exists'.mp (old names bytes mode ends file)
    cases e with
    | directory => cases (grown.opens _ entry).symm.trans file
    | file old mode' => exact ⟨old, mode', entry⟩
  · rintro ⟨bytes, mode, entry⟩
    exact grown.files _ bytes mode entry

theorem leads (leads : s.LeadsToDirectory p) : s'.LeadsToDirectory p :=
  leads.of_opens grown.opens grown.place

end Extends

end Site

end Layering
