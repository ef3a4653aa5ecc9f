import Parley.CommandLine.Perform
import Parley.Proofs.FileTree
import Parley.Proofs.Globals.Record
set_option autoImplicit false

/-!
# Saving the globals of one conversation

The saved globals of a game hold the words of all conversations in one file.  Saving reads the file, replaces
the words of one slot and writes all of them again; a load of that slot then finds the new words, a load of
any other slot what it found before.  Content that cannot be read, and a save without a slot, stop the saving
before anything is written.
-/

namespace Parley

namespace GlobalStore

/-! ## Files of a tree -/

/-- Load globals from a file of the tree. -/
def loadAt (path : String) (slot : Option UInt16) (tree : FileTree) : Except CommandFault GlobalStore :=
  load path (FileTree.read path tree).1 slot

/-- Save globals in a file of the tree.  The result is the tree afterwards, and what stopped the saving. -/
def saveAt (store : GlobalStore) (path : String) (slot : Option UInt16) (tree : FileTree) :
    FileTree × Option CommandFault :=
  let (file, tree) := FileTree.read path tree
  match store.save path file slot with
  | .error fault => (tree, some fault)
  | .ok bytes =>
    match tree.write? path bytes with
    | some written => (written, none)
    | none => (tree, some (.file path))

end GlobalStore

/-- The tree after what a command writes is written, and what stopped the command. -/
def CommandLine.Effect.writeTo (e : Effect) (tree : FileTree) : FileTree × Option CommandFault :=
  match e.written with
  | none => (tree, e.fault)
  | some (path, bytes) =>
    match tree.write? path bytes with
    | some written => (written, e.fault)
    | none => (tree, some (.file path))

namespace GlobalStore

open CommandLine in
/-- A run saves the globals that it leaves in this way. -/
theorem writeTo_runEffect {path : String} (hgame : isSavedGame path = true) (slot : Option UInt16)
    (store : GlobalStore) (report : RunReport) (tree : FileTree) :
    (fun (effect, after) => effect.writeTo after)
      (runEffect FileTree.read slot store report (some path) tree) = store.saveAt path slot tree := by
  rcases hread : FileTree.read path tree with ⟨file, after⟩
  cases hsave : store.save path file slot with
  | ok bytes =>
    have hrun : runEffect FileTree.read slot store report (some path) tree =
        (⟨report.transcript, some (path, bytes), none⟩, after) := by
      simp only [runEffect, hgame, if_true, bind, StateT.bind, hread, hsave]
      rfl
    simp only [hrun, saveAt, hread, hsave]
    rfl
  | error fault =>
    have hrun : runEffect FileTree.read slot store report (some path) tree =
        (⟨report.transcript, none, some fault⟩, after) := by
      simp only [runEffect, hgame, if_true, bind, StateT.bind, hread, hsave]
      rfl
    simp only [hrun, saveAt, hread, hsave]
    rfl

/-! ## One slot -/

/-- Content of a file that saved globals can be read from, or none. -/
def Accepted (content : Option (List UInt8)) : Prop :=
  ∀ bytes, content = some bytes → ∃ saved, SavedGlobals.ofBytes bytes .saved = .ok saved

theorem savedGame_eq_ok {bytes : List UInt8} {saved : SavedGlobals} :
    savedGame bytes = .ok saved ↔ SavedGlobals.ofBytes bytes .saved = .ok saved := by
  unfold savedGame
  cases SavedGlobals.ofBytes bytes .saved with
  | ok read =>
    constructor
    · intro h
      cases h
      rfl
    · intro h
      cases h
      rfl
  | error fault =>
    constructor
    · intro h
      cases h
    · intro h
      cases h

theorem existingGame_of_accepted {content : Option (List UInt8)} (h : Accepted content) :
    ∃ saved, existingGame (.ofContent content) = .ok saved ∧ saved.Storable := by
  cases content with
  | none => exact ⟨.empty, rfl, SavedGlobals.storable_empty⟩
  | some bytes =>
    obtain ⟨saved, hsaved⟩ := h bytes rfl
    exact ⟨saved, savedGame_eq_ok.2 hsaved, SavedGlobals.storable_ofBytes hsaved⟩

theorem existingGame_of_not_accepted {content : Option (List UInt8)} (h : ¬Accepted content) :
    ∃ fault, existingGame (.ofContent content) = .error fault := by
  cases hgame : existingGame (.ofContent content) with
  | error fault => exact ⟨fault, rfl⟩
  | ok saved =>
    refine absurd (fun bytes hbytes => ?_) h
    rw [hbytes] at hgame
    exact ⟨saved, savedGame_eq_ok.1 hgame⟩

section File

variable {path : String} {tree : FileTree} {place : List String} {content : Option (List UInt8)}
  (hgame : isSavedGame path = true) (hfile : tree.find path = .ofContent place content)
include hgame hfile

/-- A load finds the words of its slot, whether the file is there or not. -/
theorem loadAt_of_existing {saved : SavedGlobals}
    (hsaved : existingGame (.ofContent content) = .ok saved) (slot : UInt16) :
    loadAt path (some slot) tree = .ok ⟨saved.wordsAt slot, .empty⟩ := by
  unfold loadAt
  rw [FileTree.read_of_find hfile]
  cases content with
  | none =>
    cases hsaved
    rw [SavedGlobals.wordsAt_empty]
    rfl
  | some bytes =>
    change savedGame bytes = _ at hsaved
    change (if isSavedGame path then _ else _) = _
    rw [if_pos hgame]
    change (savedGame bytes >>= _) = _
    rw [hsaved]
    rfl

theorem saveAt_of_fault {fault : CommandFault} (hfault : existingGame (.ofContent content) = .error fault)
    (store : GlobalStore) (slot : Option UInt16) : store.saveAt path slot tree = (tree, some fault) := by
  unfold saveAt save
  rw [FileTree.read_of_find hfile]
  dsimp only
  rw [if_pos hgame, hfault]
  rfl

theorem saveAt_none {saved : SavedGlobals} (hsaved : existingGame (.ofContent content) = .ok saved)
    (store : GlobalStore) : ∃ fault, store.saveAt path none tree = (tree, some fault) := by
  unfold saveAt save
  rw [FileTree.read_of_find hfile]
  dsimp only
  rw [if_pos hgame, hsaved]
  exact ⟨_, rfl⟩

/-- A save with a slot replaces the words of the slot. -/
theorem saveAt_some {saved : SavedGlobals} (hsaved : existingGame (.ofContent content) = .ok saved)
    (store : GlobalStore) (slot : UInt16) :
    ∃ written, store.saveAt path (some slot) tree = (written, none) ∧
      written.find path =
        .ofContent place (some (saved.set slot store.privates.toArray).toBytes) := by
  obtain ⟨written, hwrite, hfind⟩ :=
    FileTree.write_of_find hfile (saved.set slot store.privates.toArray).toBytes
  refine ⟨written, ?_, hfind⟩
  unfold saveAt save
  rw [FileTree.read_of_find hfile]
  dsimp only
  rw [if_pos hgame, hsaved]
  change (match tree.write? path (saved.set slot store.privates.toArray).toBytes with
    | some written => (written, none)
    | none => (tree, some (CommandFault.file path))) = _
  rw [hwrite]

end File

/-- A save of globals in the saved globals of a game succeeds if it has a slot and the file, if there is one,
can be read.  A load of the slot then finds exactly the words that were saved, and a load of any other slot what
it found before; a save that does not succeed leaves everything as it was. -/
theorem saving_changes_one_slot {store : GlobalStore} (hsize : store.privates.length ≤ 65535)
    {path : String} (hgame : isSavedGame path = true) {tree : FileTree} {place : List String}
    {content : Option (List UInt8)} (hfile : tree.find path = .ofContent place content) :
    (∀ slot written, store.saveAt path (some slot) tree = (written, none) →
      loadAt path (some slot) written = .ok ⟨store.privates, .empty⟩ ∧
      ∀ other, other ≠ slot →
        ∃ words, loadAt path (some other) tree = .ok ⟨words, .empty⟩ ∧
          loadAt path (some other) written = .ok ⟨words, .empty⟩) ∧
    (∀ slot, (store.saveAt path slot tree).2 = none ↔ slot.isSome = true ∧ Accepted content) ∧
    ∀ slot after fault, store.saveAt path slot tree = (after, some fault) → after = tree := by
  by_cases haccepted : Accepted content
  · obtain ⟨saved, hsaved, hstorable⟩ := existingGame_of_accepted haccepted
    refine ⟨fun slot written hsave => ?_, fun slot => ?_, fun slot after fault hsave => ?_⟩
    · obtain ⟨written', hsave', hfind⟩ := saveAt_some hgame hfile hsaved store slot
      cases hsave'.symm.trans hsave
      have hcount : store.privates.toArray.size < UInt16.size := Nat.lt_succ_of_le hsize
      obtain ⟨reread, hread, hwords⟩ := SavedGlobals.ofBytes_toBytes (hstorable.set slot hcount)
      have hexisting : existingGame
          (.ofContent (some (saved.set slot store.privates.toArray).toBytes)) = .ok reread :=
        savedGame_eq_ok.2 hread
      refine ⟨?_, fun other hne => ⟨saved.wordsAt other, ?_, ?_⟩⟩
      · rw [loadAt_of_existing hgame hfind hexisting, hwords, SavedGlobals.wordsAt_set_self]
      · exact loadAt_of_existing hgame hfile hsaved other
      · rw [loadAt_of_existing hgame hfind hexisting, hwords, SavedGlobals.wordsAt_set_of_ne saved hne]
    · cases slot with
      | none =>
        obtain ⟨fault, hsave⟩ := saveAt_none hgame hfile hsaved store
        rw [hsave]
        simp
      | some slot =>
        obtain ⟨written, hsave, -⟩ := saveAt_some hgame hfile hsaved store slot
        rw [hsave]
        exact ⟨fun _ => ⟨rfl, haccepted⟩, fun _ => rfl⟩
    · cases slot with
      | none =>
        obtain ⟨fault', hsave'⟩ := saveAt_none hgame hfile hsaved store
        cases hsave'.symm.trans hsave
        rfl
      | some slot =>
        obtain ⟨written, hsave', -⟩ := saveAt_some hgame hfile hsaved store slot
        cases hsave'.symm.trans hsave
  · obtain ⟨fault, hfault⟩ := existingGame_of_not_accepted haccepted
    have hsave (slot : Option UInt16) := saveAt_of_fault hgame hfile hfault store slot
    refine ⟨fun slot written h => ?_, fun slot => ?_, fun slot after fault h => ?_⟩
    · cases (hsave (some slot)).symm.trans h
    · rw [hsave slot]
      simp [haccepted]
    · cases (hsave slot).symm.trans h
      rfl

/-- The saved globals of a game with an empty slot and two records of one slot. -/
def repeatedSlot : List UInt8 := Binary.wordsBytes [4, 1, 3, 1, 2, 9, 9, 2, 0, 4, 2, 5, 6]

/-- A working directory with these saved globals in it. -/
def repeatedSlotTree : FileTree where
  entries := [(["tmp"], .directory), (["tmp", "work"], .directory),
    (["tmp", "work", "bglobals.dat"], .file repeatedSlot)]
  input := []
  output := ""

theorem saving_changes_one_slot_repeatedSlot :
    ∃ (written : FileTree) (words : List UInt16),
      isSavedGame "bglobals.dat" = true ∧
      repeatedSlotTree.find "bglobals.dat" =
        .ofContent ["tmp", "work", "bglobals.dat"] (some repeatedSlot) ∧
      saveAt ⟨[7], .empty⟩ "bglobals.dat" (some 1) repeatedSlotTree = (written, none) ∧
      loadAt "bglobals.dat" (some 1) written = .ok ⟨[7], .empty⟩ ∧
      loadAt "bglobals.dat" (some 4) repeatedSlotTree = .ok ⟨words, .empty⟩ ∧
      loadAt "bglobals.dat" (some 4) written = .ok ⟨words, .empty⟩ := by
  have hsize : (GlobalStore.mk [7] .empty).privates.length ≤ 65535 := by decide
  have hgame : isSavedGame "bglobals.dat" = true := by decide +kernel
  have hfile : repeatedSlotTree.find "bglobals.dat" =
      .ofContent ["tmp", "work", "bglobals.dat"] (some repeatedSlot) := by
    have hnames : FileTree.names "bglobals.dat" = ["bglobals.dat"] := by decide +kernel
    have hroot : "bglobals.dat".startsWith "/" = false := by decide +kernel
    rw [FileTree.find, hnames, hroot]
    rfl
  have haccepted : Accepted (some repeatedSlot) := by
    rintro bytes ⟨⟩
    exact ⟨⟨#[#[], #[9, 9], #[], #[], #[5, 6]]⟩, by rfl⟩
  have hsaving := saving_changes_one_slot hsize hgame hfile
  obtain ⟨written, hsave⟩ : ∃ written,
      saveAt ⟨[7], .empty⟩ "bglobals.dat" (some 1) repeatedSlotTree = (written, none) :=
    ⟨_, Prod.ext rfl ((hsaving.2.1 (some 1)).2 ⟨rfl, haccepted⟩)⟩
  obtain ⟨hself, hother⟩ := hsaving.1 1 written hsave
  obtain ⟨words, hbefore, hafter⟩ := hother 4 (by decide)
  exact ⟨written, words, hgame, hfile, hsave, hself, hbefore, hafter⟩

end GlobalStore

end Parley
