import Parley.SortedMap
set_option autoImplicit false

/-!
# Entries of maps in key order

The value at a key is that of the only entry with the key, and after an insertion the one that was inserted.
Inserting the entries of a map one after the other, in their order, rebuilds the map.
-/

namespace Parley.SortedMap

variable {κ α : Type} [Ord κ]

theorem ext_entries {m m' : SortedMap κ α} (h : m.entries = m'.entries) : m = m' := by
  cases m
  cases m'
  cases h
  rfl

/-! ## Values -/

/-- The map with every value changed, and the same keys. -/
def mapValues (f : α → α) (m : SortedMap κ α) : SortedMap κ α :=
  ⟨m.entries.map fun entry => (entry.1, f entry.2), m.sorted.map _ fun _ _ h => h⟩

@[simp] theorem entries_mapValues (f : α → α) (m : SortedMap κ α) :
    (m.mapValues f).entries = m.entries.map fun entry => (entry.1, f entry.2) := rfl

theorem mapValues_eq_self_iff {f : α → α} {m : SortedMap κ α} :
    m.mapValues f = m ↔ ∀ entry ∈ m.entries, f entry.2 = entry.2 := by
  have hentries : m.mapValues f = m ↔ (m.mapValues f).entries = m.entries :=
    ⟨congrArg entries, ext_entries⟩
  have hmap := List.map_inj_left (f := fun entry => (entry.1, f entry.2)) (g := id) (l := m.entries)
  rw [List.map_id] at hmap
  rw [hentries, entries_mapValues, hmap]
  simp only [id, Prod.ext_iff, true_and]

/-! ## Lookup -/

theorem mem_of_get? [DecidableEq κ] {m : SortedMap κ α} {key : κ} {value : α}
    (h : m.get? key = some value) : (key, value) ∈ m.entries := by
  obtain ⟨entry, hfind, rfl⟩ := Option.map_eq_some_iff.1 h
  have hkey : entry.1 = key := by simpa using List.find?_some hfind
  rw [← hkey]
  exact List.mem_of_find?_eq_some hfind

/-- No two entries have the same key. -/
theorem pairwise_ne [Std.ReflOrd κ] (m : SortedMap κ α) : m.entries.Pairwise fun a b => a.1 ≠ b.1 := by
  refine m.sorted.imp fun {a b} hlt heq => ?_
  rw [heq, Std.ReflOrd.compare_self] at hlt
  cases hlt

theorem get?_of_mem [DecidableEq κ] [Std.ReflOrd κ] {m : SortedMap κ α} {key : κ} {value : α}
    (h : (key, value) ∈ m.entries) : m.get? key = some value := by
  unfold get?
  have hdistinct := m.pairwise_ne
  generalize m.entries = entries at h hdistinct ⊢
  induction entries with
  | nil => cases h
  | cons entry rest ih =>
    obtain ⟨hfirst, hrest⟩ := List.pairwise_cons.1 hdistinct
    rcases List.mem_cons.1 h with rfl | h
    · simp
    · have hne : entry.1 ≠ key := hfirst _ h
      simpa [hne] using ih h hrest

/-! ## Insertion -/

theorem find?_insertEntry [DecidableEq κ] [Std.LawfulEqOrd κ] (key other : κ) (value : α)
    (entries : List (κ × α)) :
    (insertEntry key value entries).find? (fun entry => entry.1 = other) =
      if key = other then some (key, value) else entries.find? fun entry => entry.1 = other := by
  induction entries with
  | nil =>
    rw [insertEntry, List.find?_cons]
    split <;> simp_all
  | cons entry rest ih =>
    rw [insertEntry]
    split
    · rw [List.find?_cons]
      split <;> simp_all
    · rename_i heq
      have hkey : key = entry.1 := Std.LawfulEqCmp.eq_of_compare heq
      rw [List.find?_cons, List.find?_cons, ← hkey]
      by_cases hother : key = other
      · simp [hother]
      · simp [hother]
    · rename_i hgt
      have hkey : key ≠ entry.1 := by
        intro heq
        rw [heq, Std.ReflOrd.compare_self] at hgt
        cases hgt
      rw [List.find?_cons, List.find?_cons, ih]
      by_cases hother : entry.1 = other
      · simp [hother, hother ▸ hkey]
      · simp [hother]

theorem length_insertEntry_le (key : κ) (value : α) (entries : List (κ × α)) :
    (insertEntry key value entries).length ≤ entries.length + 1 := by
  induction entries with
  | nil => simp [insertEntry]
  | cons entry rest ih =>
    simp only [insertEntry]
    split <;> simp only [List.length_cons] <;> omega

theorem insertEntry_of_behind [Std.OrientedOrd κ] {key : κ} {value : α} {entries : List (κ × α)}
    (h : ∀ entry ∈ entries, compare entry.1 key = .lt) :
    insertEntry key value entries = entries ++ [(key, value)] := by
  induction entries with
  | nil => rfl
  | cons entry rest ih =>
    have hgt : compare key entry.1 = .gt := Std.OrientedCmp.gt_of_lt (h entry List.mem_cons_self)
    rw [insertEntry, hgt, List.cons_append, ih fun x hx => h x (List.mem_cons_of_mem _ hx)]

variable [Std.TransOrd κ] [Std.LawfulEqOrd κ]

theorem size_insert_le (m : SortedMap κ α) (key : κ) (value : α) :
    (m.insert key value).size ≤ m.size + 1 := length_insertEntry_le key value m.entries

theorem get?_insert [DecidableEq κ] (m : SortedMap κ α) (key other : κ) (value : α) :
    (m.insert key value).get? other = if key = other then some value else m.get? other := by
  unfold get? insert
  dsimp only
  rw [find?_insertEntry]
  split <;> rfl

theorem mem_insert {m : SortedMap κ α} {key : κ} {value : α} {entry : κ × α}
    (h : entry ∈ (m.insert key value).entries) : entry = (key, value) ∨ entry ∈ m.entries :=
  mem_insertEntry h

/-- Entries behind all those of a map are put behind them. -/
theorem entries_insertAll {m : SortedMap κ α} {behind : List (κ × α)}
    (h : (m.entries ++ behind).Pairwise fun a b => compare a.1 b.1 = .lt) :
    (m.insertAll behind).entries = m.entries ++ behind := by
  induction behind generalizing m with
  | nil => simp [insertAll]
  | cons entry behind ih =>
    have hentries : (m.insert entry.1 entry.2).entries = m.entries ++ [entry] :=
      insertEntry_of_behind fun x hx =>
        (List.pairwise_append.1 h).2.2 x hx entry List.mem_cons_self
    have hsorted : ((m.insert entry.1 entry.2).entries ++ behind).Pairwise
        fun a b => compare a.1 b.1 = .lt := by
      rwa [hentries, List.append_assoc]
    change ((m.insert entry.1 entry.2).insertAll behind).entries = _
    rw [ih hsorted, hentries, List.append_assoc]
    rfl

/-- The entries of a map make up the map. -/
theorem insertAll_empty_entries (m : SortedMap κ α) : empty.insertAll m.entries = m :=
  ext_entries (entries_insertAll m.sorted)

end Parley.SortedMap
