set_option autoImplicit false

/-!
# Maps in key order

A finite map kept as the list of its entries in strictly increasing key order.  The order is part of
the type, so two maps with the same entries are equal, and every listing of a map is in key order.
Inserting an entry replaces the one with the same key.
-/

namespace Parley

/-- A finite map from `κ` to `α`, listed in strictly increasing order of its keys. -/
structure SortedMap (κ : Type) [Ord κ] (α : Type) where
  entries : List (κ × α)
  sorted : entries.Pairwise fun a b => compare a.1 b.1 = .lt

namespace SortedMap

variable {κ α : Type} [Ord κ]

/-- The map without entries. -/
def empty : SortedMap κ α := ⟨[], List.Pairwise.nil⟩

instance : Inhabited (SortedMap κ α) := ⟨empty⟩

instance [DecidableEq κ] [DecidableEq α] : DecidableEq (SortedMap κ α) := fun a b =>
  decidable_of_iff (a.entries = b.entries) (by cases a; cases b; simp)

/-- The value at a key. -/
def get? [DecidableEq κ] (m : SortedMap κ α) (key : κ) : Option α :=
  (m.entries.find? fun entry => entry.1 = key).map (·.2)

/-- Whether a key has a value. -/
def contains [DecidableEq κ] (m : SortedMap κ α) (key : κ) : Bool :=
  m.entries.any fun entry => entry.1 = key

/-- The keys, in order. -/
def keys (m : SortedMap κ α) : List κ := m.entries.map (·.1)

/-- The number of entries. -/
def size (m : SortedMap κ α) : Nat := m.entries.length

/-! ## Insertion -/

/-- The entries with `value` at `key`, in key order if they were. -/
def insertEntry (key : κ) (value : α) : List (κ × α) → List (κ × α)
  | [] => [(key, value)]
  | entry :: rest =>
    match compare key entry.1 with
    | .lt => (key, value) :: entry :: rest
    | .eq => (key, value) :: rest
    | .gt => entry :: insertEntry key value rest

/-- Each entry afterwards is the new one or was there before. -/
theorem mem_insertEntry {key : κ} {value : α} {x : κ × α} {entries : List (κ × α)}
    (h : x ∈ insertEntry key value entries) : x = (key, value) ∨ x ∈ entries := by
  induction entries with
  | nil => simpa [insertEntry] using h
  | cons entry rest ih =>
    simp only [insertEntry] at h
    split at h <;> simp only [List.mem_cons] at h ⊢
    · exact h
    · exact h.imp_right Or.inr
    · rcases h with h | h
      · exact Or.inr (Or.inl h)
      · exact (ih h).imp_right Or.inr

theorem pairwise_insertEntry [Std.TransOrd κ] [Std.LawfulEqOrd κ] (key : κ) (value : α)
    {entries : List (κ × α)} (h : entries.Pairwise fun a b => compare a.1 b.1 = .lt) :
    (insertEntry key value entries).Pairwise fun a b => compare a.1 b.1 = .lt := by
  induction entries with
  | nil => simp [insertEntry]
  | cons entry rest ih =>
    rw [List.pairwise_cons] at h
    simp only [insertEntry]
    split
    · rename_i hlt
      refine List.pairwise_cons.2 ⟨?_, List.pairwise_cons.2 h⟩
      intro x hx
      rcases List.mem_cons.1 hx with rfl | hx
      · exact hlt
      · exact Std.TransCmp.lt_trans hlt (h.1 x hx)
    · rename_i heq
      have hkey : key = entry.1 := Std.LawfulEqCmp.eq_of_compare heq
      exact List.pairwise_cons.2 ⟨fun x hx => by simpa [hkey] using h.1 x hx, h.2⟩
    · rename_i hgt
      refine List.pairwise_cons.2 ⟨?_, ih h.2⟩
      intro x hx
      rcases mem_insertEntry hx with rfl | hx
      · exact Std.OrientedCmp.lt_of_gt hgt
      · exact h.1 x hx

/-- The map with `value` at `key`. -/
def insert [Std.TransOrd κ] [Std.LawfulEqOrd κ] (m : SortedMap κ α) (key : κ) (value : α) :
    SortedMap κ α :=
  ⟨insertEntry key value m.entries, pairwise_insertEntry key value m.sorted⟩

/-- The map with all the entries of a list inserted in turn. -/
def insertAll [Std.TransOrd κ] [Std.LawfulEqOrd κ] (m : SortedMap κ α) (entries : List (κ × α)) :
    SortedMap κ α :=
  entries.foldl (fun m entry => m.insert entry.1 entry.2) m

/-- The map of the entries of a list, where a later entry replaces an earlier one. -/
def ofList [Std.TransOrd κ] [Std.LawfulEqOrd κ] (entries : List (κ × α)) : SortedMap κ α :=
  empty.insertAll entries

/-! ## Removal -/

/-- The map without the entry at `key`. -/
def erase [DecidableEq κ] (m : SortedMap κ α) (key : κ) : SortedMap κ α :=
  ⟨m.entries.filter fun entry => entry.1 ≠ key, m.sorted.filter _⟩

end SortedMap

/-- A finite set, listed in increasing order. -/
abbrev SortedSet (κ : Type) [Ord κ] := SortedMap κ Unit

end Parley
