import Parley.FileTree
set_option autoImplicit false

/-!
# Writing a file and reading it again

A file that is written is found at its path, and has the bytes that were written: the directories on the way
there are others than the file, so the path is followed as before.
-/

namespace Parley

/-- The destination of a path to a file with these bytes, or without any to where a file can be made. -/
def Destination.ofContent (place : List String) : Option (List UInt8) → Destination
  | some bytes => .found place (.file bytes)
  | none => .fresh place

/-- What a command finds of a file with these bytes, or without any where there is none. -/
def FileState.ofContent : Option (List UInt8) → FileState
  | some bytes => .content bytes
  | none => .missing

namespace FileTree

variable {tree : FileTree} {place start : List String} {content : Option (List UInt8)}

theorem lookup_put_self (tree : FileTree) (place : List String) (entry : FileEntry) :
    (tree.put place entry).entries.lookup place = some entry := by
  rw [put, List.lookup_cons_self]

theorem lookup_put_of_ne (tree : FileTree) {place other : List String} (hne : other ≠ place)
    (entry : FileEntry) : (tree.put place entry).entries.lookup other = tree.entries.lookup other := by
  have hfilter (entries : List (List String × FileEntry)) :
      (entries.filter (·.1 ≠ place)).lookup other = entries.lookup other := by
    induction entries with
    | nil => rfl
    | cons first rest ih =>
      by_cases hkey : first.1 = place
      · have hother : (other == first.1) = false := by simpa [hkey] using hne
        rw [List.filter_cons_of_neg (by simpa using hkey), ih, List.lookup_cons, hother]
      · rw [List.filter_cons_of_pos (by simpa using hkey), List.lookup_cons, List.lookup_cons, ih]
  have hother : (other == place) = false := by simpa using hne
  rw [put, List.lookup_cons, hother]
  exact hfilter tree.entries

/-! ## Paths -/

/-- A path that ends at a file goes there by its entry. -/
theorem lookup_of_follow {names : List String}
    (h : tree.follow start names = .ofContent place content) :
    tree.entries.lookup place = content.map .file := by
  fun_induction follow tree start names with
  | case1 => cases content <;> cases h
  | case2 start rest ih => exact ih h
  | case3 start rest ih => exact ih h
  | case4 start rest ih => exact ih h
  | case5 start name rest _ _ _ next _ ih => exact ih h
  | case6 start name rest _ _ _ next entry _ hlookup _ =>
    cases content with
    | none => cases h
    | some bytes =>
      injection h with hplace hentry
      rw [← hplace, hlookup, hentry]
      rfl
  | case7 => cases content <;> cases h
  | case8 start name rest _ _ _ next hlookup _ =>
    cases content with
    | none =>
      injection h with hplace
      rw [← hplace, hlookup]
      rfl
    | some bytes => cases h
  | case9 => cases content <;> cases h

/-- With a file put where it ends, a path leads to that file. -/
theorem follow_put {names : List String} (h : tree.follow start names = .ofContent place content)
    (bytes : List UInt8) :
    (tree.put place (.file bytes)).follow start names = .ofContent place (some bytes) := by
  have hplace := lookup_of_follow h
  fun_induction follow tree start names with
  | case1 => cases content <;> cases h
  | case2 start rest ih => exact ih h
  | case3 start rest ih => exact ih h
  | case4 start rest ih => exact ih h
  | case5 start name rest hblank hdot hdots next hlookup ih =>
    have hne : start ++ [name] ≠ place := by
      intro heq
      rw [← heq, hlookup] at hplace
      cases content <;> cases hplace
    rw [follow, lookup_put_of_ne tree hne, hlookup]
    · exact ih h
    all_goals assumption
  | case6 start name rest hblank hdot hdots next entry hdirectory hlookup hrest =>
    have heq : start ++ [name] = place := by
      cases content with
      | none => cases h
      | some bytes => exact (Destination.found.inj h).1
    rw [follow, heq, lookup_put_self]
    · exact if_pos hrest
    all_goals assumption
  | case7 => cases content <;> cases h
  | case8 start name rest hblank hdot hdots next hlookup hrest =>
    have heq : start ++ [name] = place := by
      cases content with
      | none => exact Destination.fresh.inj h
      | some bytes => cases h
    rw [follow, heq, lookup_put_self]
    · exact if_pos (Bool.and_eq_true_iff.1 hrest).1
    all_goals assumption
  | case9 => cases content <;> cases h

/-! ## Reading and writing -/

variable {path : String}

theorem read_of_find (h : tree.find path = .ofContent place content) :
    FileTree.read path tree = (.ofContent content, tree) := by
  unfold FileTree.read
  rw [h]
  cases content <;> rfl

/-- A file that is written has these bytes afterwards. -/
theorem write_of_find (h : tree.find path = .ofContent place content) (bytes : List UInt8) :
    ∃ written, tree.write? path bytes = some written ∧
      written.find path = .ofContent place (some bytes) := by
  refine ⟨tree.put place (.file bytes), ?_, ?_⟩
  · unfold write?
    rw [h]
    cases content <;> rfl
  · unfold find at h ⊢
    split at h
    · cases content <;> cases h
    · rename_i hpath
      rw [if_neg hpath, follow_put h bytes]

end FileTree

end Parley
