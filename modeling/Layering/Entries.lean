/-!
# Entries

Key and value pairs in the order in which the keys first appeared.
-/

namespace Layering.Entries

variable {κ α : Type}

/-- Puts a value under a key. The first key that is the `same` keeps its place and its form. -/
def putWhere (same : κ → Bool) (key : κ) (value : α) : List (κ × α) → List (κ × α)
  | [] => [(key, value)]
  | (k, old) :: rest =>
    if same k then (k, value) :: rest else (k, old) :: putWhere same key value rest

variable [BEq κ]

/-- Puts a value under a key. A key that is there already keeps its place. -/
def put (key : κ) (value : α) (entries : List (κ × α)) : List (κ × α) :=
  putWhere (· == key) key value entries

/-- The value under a key. -/
def get? (key : κ) : List (κ × α) → Option α
  | [] => none
  | (k, value) :: rest => if k == key then some value else get? key rest

/-- Adds an element to the list under a key. -/
def add (key : κ) (x : α) (entries : List (κ × List α)) : List (κ × List α) :=
  put key ((get? key entries).getD [] ++ [x]) entries

/-- Elements in groups by key. A group stands where its first element stood. -/
def group (key : α → κ) (xs : List α) : List (κ × List α) :=
  xs.foldl (fun entries x => add (key x) x entries) []

theorem get?_put [LawfulBEq κ] (k key : κ) (value : α) (entries : List (κ × α)) :
    get? k (put key value entries) = if key == k then some value else get? k entries := by
  unfold put
  induction entries with
  | nil => simp [putWhere, get?]
  | cons entry rest ih =>
    obtain ⟨first, old⟩ := entry
    simp only [putWhere]
    split <;> rename_i h
    · have := eq_of_beq h
      subst this
      simp only [get?]
      split <;> rfl
    · simp only [get?, ih]
      grind

theorem mem_of_get? [LawfulBEq κ] {key : κ} {value : α} {entries : List (κ × α)}
    (found : get? key entries = some value) : (key, value) ∈ entries := by
  induction entries with
  | nil => cases found
  | cons entry rest ih =>
    obtain ⟨first, old⟩ := entry
    rw [get?] at found
    split at found
    next same =>
      cases found
      exact beq_iff_eq.mp same ▸ List.mem_cons_self
    next => exact List.mem_cons_of_mem _ (ih found)

end Layering.Entries
