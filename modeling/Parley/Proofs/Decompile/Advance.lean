import Parley.Proofs.Listing.Walk
import Parley.Proofs.Listing.Replacement
set_option autoImplicit false

/-!
# Passes that write no line of a block

Most passes leave the frames of the functions and the lines of blocks alone and let the listing grow
otherwise, and they do so whether they succeed or fault.  Such a pass is composed of such parts, where each part
may rely on what the parts before it have kept.
-/

namespace Parley

/-! ## Frames -/

/-- What a function is called and where it stands. -/
structure Frame where
  name : String
  /-- The position of its first instruction. -/
  start : UInt16
  /-- The position of its prologue. -/
  entry : UInt16
  /-- The position of its epilogue. -/
  stop : UInt16
  /-- The item of its front boundary. -/
  startItem : ItemId
  /-- The item of its end boundary. -/
  endItem : ItemId
  deriving DecidableEq

/-- Whether a call to a position enters the function. -/
def Frame.entersAt (f : Frame) (pos : UInt16) : Bool := f.start = pos || f.entry = pos

/-- What the function is called and where it stands. -/
def FunctionInfo.frame (info : FunctionInfo) : Frame :=
  ⟨info.name, info.start, info.entry, info.stop, info.startItem, info.endItem⟩

namespace Decompilation

/-- Where the functions stand, in the order of their discovery. -/
def frames (d : Decompilation) : List Frame := d.functions.toList.map FunctionInfo.frame

theorem getElem?_frames (d : Decompilation) (func : Nat) :
    d.frames[func]? = d.functions[func]?.map FunctionInfo.frame := by
  simp [frames]

/-- The boundary items of a function are part of its frame. -/
theorem bounds_congr {d d' : Decompilation} (h : d'.frames = d.frames) (func : Nat) :
    d'.bounds func = d.bounds func := by
  have hframe := (d'.getElem?_frames func).symm.trans
    ((congrArg (·[func]?) h).trans (d.getElem?_frames func))
  unfold bounds
  cases hold : d.functions[func]? <;> cases hnew : d'.functions[func]? <;>
    simp_all [FunctionInfo.frame]

/-- What is known about the variables of the functions. -/
def variableTable (d : Decompilation) : List Variables := d.functions.toList.map (·.vars)

theorem variableTable_onVariables (d : Decompilation) (func : Nat) (f : Variables → Variables) :
    (d.onVariables func f).variableTable = d.variableTable.modify func f := by
  refine List.ext_getElem? fun other => ?_
  simp only [variableTable, onVariables, onFunction, Array.toList_modify, List.getElem?_map, List.getElem?_modify]
  cases d.functions.toList[other]? with
  | none => rfl
  | some info => split <;> rfl

theorem functionAt?_eq (d : Decompilation) (pos : UInt16) :
    d.functionAt? pos = d.frames.findIdx? (·.entersAt pos) := by
  rw [frames, List.findIdx?_map, ← List.findIdx?_toArray, functionAt?]
  rfl

/-- The second decompilation is the first one with a longer listing and with other knowledge about the
functions. -/
structure Advances (d : Decompilation) (lines : List (ItemId × StatementRole)) (d' : Decompilation) :
    Prop where
  grows : d.graph.Grows lines d'.graph
  frames : d'.frames = d.frames

namespace Advances

variable {d d' d'' : Decompilation} {lines lines' : List (ItemId × StatementRole)} {id : ItemId}

theorem refl (hd : d.graph.Sound) : d.Advances [] d := ⟨Graph.Grows.refl hd, rfl⟩

theorem trans (h : d.Advances lines d') (h' : d'.Advances lines' d'') :
    d.Advances (lines ++ lines') d'' :=
  ⟨h.grows.trans h'.grows, h'.frames.trans h.frames⟩

theorem sound (h : d.Advances lines d') : d'.graph.Sound := h.grows.sound

theorem site (h : d.Advances lines d') (hid : d.graph.Site id) : d'.graph.Site id := h.grows.site hid

theorem begins (h : d.Advances lines d') (hd : d.graph.Sound) (hid : id < d.graph.size)
    {pattern : List Opcode} (hbegins : d.graph.Begins id pattern) : d'.graph.Begins id pattern :=
  hbegins.extends h.grows.extends hd.ordered h.sound.ordered hid

theorem bounds (h : d.Advances lines d') (func : Nat) : d'.bounds func = d.bounds func :=
  bounds_congr h.frames func

end Advances

/-- The decompilation with items marked as replaced. -/
def marking (d : Decompilation) (ids : List ItemId) : Decompilation :=
  d.onGraph (·.modifyAll ids Item.markProcessed)

theorem marking_append (d : Decompilation) (ids more : List ItemId) :
    d.marking (ids ++ more) = (d.marking ids).marking more := by
  simp only [marking, onGraph, Graph.modifyAll, List.foldl_append]

/-- A decompilation advances in the same way when items of it have been marked before. -/
theorem Advances.marking {d d' : Decompilation} {lines : List (ItemId × StatementRole)}
    {ids : List ItemId} (h : d.Advances lines d') (hids : ∀ id ∈ ids, id < d.graph.size)
    (hstatement : ∀ id ∈ ids, (d.graph.item id).statement? = none) :
    (d.marking ids).Advances lines (d'.marking ids) :=
  ⟨h.grows.markAll hids hstatement, h.frames⟩

/-- A decompilation may be advanced with marks and then with more marks. -/
theorem Advances.markMore {d d' d'' : Decompilation} {lines lines' : List (ItemId × StatementRole)}
    {ids more : List ItemId} (h : (d.marking ids).Advances lines d')
    (h' : (d'.marking more).Advances lines' d'')
    (hmore : ∀ id ∈ more, id < d.graph.size ∧ (d.graph.item id).statement? = none) :
    (d.marking (ids ++ more)).Advances (lines ++ lines') d'' := by
  rw [marking_append]
  refine (h.marking (fun id hid => ?_) fun id hid => ?_).trans h'
  · exact Nat.lt_of_lt_of_eq (hmore id hid).1 (Graph.size_markAll d.graph _).symm
  · exact (Graph.markAll_keeps (p := Item.statement?) (fun _ => rfl) d.graph ids id).trans (hmore id hid).2

end Decompilation

namespace Pass

open Fallible

variable {α β : Type} {d d' : Decompilation} {site : ItemId}

/-- A pass writes no line of a block, whether it succeeds or faults. -/
def Quiet (x : Pass α) (d : Decompilation) : Prop := d.graph.Sound → d.Advances [] (final (x d))

theorem Quiet.of_ok {x : Pass α} {a : α} (hx : Quiet x d) (hd : d.graph.Sound) (h : x d = .ok a d') :
    d.Advances [] d' := by
  have hfinal := hx hd
  rwa [h] at hfinal

/-! ## Composition -/

theorem quiet_pure (a : α) : Quiet (pure a) d := Decompilation.Advances.refl

theorem quiet_throw (fault : DecompileFault) : Quiet (throw fault : Pass α) d :=
  Decompilation.Advances.refl

theorem quiet_get_bind {f : Decompilation → Pass α} (h : Quiet (f d) d) : Quiet (get >>= f) d := h

theorem Quiet.bind {x : Pass α} {f : α → Pass β} (hx : Quiet x d)
    (hf : ∀ a d', x d = .ok a d' → d.Advances [] d' → Quiet (f a) d') : Quiet (x >>= f) d := by
  intro hd
  have hfirst := hx hd
  cases h : x d with
  | ok a d' =>
    rw [h] at hfirst
    rw [bind_of_ok h]
    exact hfirst.trans (hf a d' h hfirst hfirst.sound)
  | error fault d' =>
    rw [h] at hfirst
    rw [bind_of_error h]
    exact hfirst

theorem Quiet.of_later {f : α → Pass β} {a : α} (hf : ∀ a d', d.Advances [] d' → Quiet (f a) d') :
    Quiet (f a) d :=
  fun hd => hf a d (Decompilation.Advances.refl hd) hd

/-- A part that is done on a condition. -/
theorem quiet_when {c : Prop} [Decidable c] {x : Pass PUnit} {f : PUnit → Pass β} (hx : c → Quiet x d)
    (hf : ∀ a d', d.Advances [] d' → Quiet (f a) d') : Quiet (if c then x >>= f else f ⟨⟩) d := by
  split
  · rename_i h
    exact (hx h).bind fun a d' _ => hf a d'
  · exact Quiet.of_later hf

/-- A pass along a list writes no line of a block if none of its turns does. -/
theorem quiet_foldlM {f : β → α → Pass β} {ids : List α} {b : β}
    (hf : ∀ id ∈ ids, ∀ b d', d.Advances [] d' → Quiet (f b id) d') : Quiet (ids.foldlM f b) d := by
  induction ids generalizing b d with
  | nil => exact quiet_pure b
  | cons id rest ih =>
    intro hd
    have hstep : Quiet (f b id >>= fun b => rest.foldlM f b) d := by
      refine Quiet.bind (hf id List.mem_cons_self b d (Decompilation.Advances.refl hd))
        fun b' d' _ hfirst => ?_
      exact ih fun other hother b'' d'' hnext =>
        hf other (List.mem_cons_of_mem _ hother) b'' d'' (hfirst.trans hnext)
    exact hstep hd

theorem quiet_forM {f : α → Pass PUnit} {ids : List α}
    (hf : ∀ id ∈ ids, ∀ d', d.Advances [] d' → Quiet (f id) d') : Quiet (ids.forM f) d := by
  induction ids generalizing d with
  | nil => exact quiet_pure _
  | cons id rest ih =>
    intro hd
    have hstep : Quiet (f id >>= fun _ => rest.forM f) d := by
      refine Quiet.bind (hf id List.mem_cons_self d (Decompilation.Advances.refl hd))
        fun _ d' _ hfirst => ?_
      exact ih fun other hother d'' hnext =>
        hf other (List.mem_cons_of_mem _ hother) d'' (hfirst.trans hnext)
    exact hstep hd

/-! ## Changes -/

theorem quiet_onGraph {f : Graph → Graph} (h : d.graph.Sound → d.graph.Grows [] (f d.graph)) :
    Quiet (onGraph f) d :=
  fun hd => ⟨h hd, rfl⟩

theorem quiet_markProcessed (h : d.graph.Site site) : Quiet (onGraph (·.markProcessed site)) d :=
  quiet_onGraph fun hd => Graph.grows_markProcessed hd h

theorem quiet_markAll {ids : List ItemId} (h : ∀ id ∈ ids, d.graph.Site id) :
    Quiet (onGraph (·.modifyAll ids Item.markProcessed)) d :=
  quiet_onGraph fun hd => Graph.grows_markAll hd h

theorem quiet_markOpcodes {pattern : List Opcode} (h : d.graph.Begins site pattern)
    (hcall : Opcode.call ∉ pattern) : Quiet (onGraph (·.markOpcodes site pattern.length)) d :=
  quiet_onGraph fun hd => h.grows_markOpcodes hd hcall

theorem frames_onFunction (d : Decompilation) (func : Nat) {f : FunctionInfo → FunctionInfo}
    (hf : ∀ info, (f info).frame = info.frame) : (d.onFunction func f).frames = d.frames := by
  refine List.ext_getElem? fun other => ?_
  rw [Decompilation.getElem?_frames, Decompilation.getElem?_frames]
  simp only [Decompilation.onFunction, Array.getElem?_modify]
  split
  · cases d.functions[other]? <;> simp [hf]
  · rfl

theorem quiet_onFunction (func : Nat) {f : FunctionInfo → FunctionInfo}
    (hf : ∀ info, (f info).frame = info.frame) : Quiet (modify (·.onFunction func f)) d :=
  fun hd => ⟨Graph.Grows.refl hd, frames_onFunction d func hf⟩

theorem quiet_onVariables (func : Nat) (f : Variables → Variables) :
    Quiet (modify (·.onVariables func f)) d :=
  quiet_onFunction func fun _ => rfl

/-! ## New items -/

theorem quiet_addExpression (h : d.graph.Site site) (expression : Expr) :
    Quiet (addExpression site expression) d := by
  rw [Quiet, addExpression_apply]
  intro hd
  refine ⟨?_, rfl⟩
  have hkept : (d.graph.item site).Kept (d.graph.item site).withoutLabel.markProcessed :=
    (Item.Kept.withoutLabel _).trans (Item.Kept.markProcessed h.statement h.free)
  have hmarked := Graph.grows_modify hd (f := fun old => old.withoutLabel.markProcessed) hkept
    fun _ => rfl
  have hpos : ((d.graph.modify site fun old => old.withoutLabel.markProcessed).item site).pos =
      (d.graph.item site).pos := (hmarked.kept site h.lt_size).pos
  exact hmarked.trans (Graph.grows_insertBefore_of_none hmarked.sound (hmarked.site h).place
    ⟨_, _, _, false, .expression expression⟩ hpos.symm rfl rfl
    ⟨nofun, nofun⟩)

/-- An operation may take the place of an item that has been marked. -/
theorem advances_addOperation (hd : (d.marking [site]).graph.Sound) (h : d.graph.Place site)
    (hstatement : (d.graph.item site).statement? = none) (operation : Operation) :
    (d.marking [site]).Advances [] (final (addOperation site operation d)) := by
  rw [addOperation_apply]
  refine ⟨?_, rfl⟩
  have hmarked : (d.graph.markProcessed site).item site = (d.graph.item site).markProcessed :=
    Graph.item_modify_self h.lt_size _
  have hlt : site < (d.graph.markProcessed site).size :=
    Nat.lt_of_lt_of_eq h.lt_size (Graph.size_modify d.graph site _).symm
  exact Graph.grows_insertBefore_of_none hd
    (Graph.place_of_statement? hlt ((congrArg Item.statement? hmarked).trans hstatement))
    (.ofKind _ (.operation operation)) (congrArg Item.pos hmarked).symm rfl rfl
    ⟨nofun, nofun⟩

theorem quiet_addOperation (h : d.graph.Site site) (operation : Operation) :
    Quiet (addOperation site operation) d := by
  intro hd
  have hmarked : d.Advances [] (d.marking [site]) := ⟨Graph.grows_markProcessed hd h, rfl⟩
  exact hmarked.trans (advances_addOperation hmarked.sound h.place h.statement operation)

/-- A statement that opens, divides or closes no block may take the place of an item. -/
theorem quiet_replaceByStatement (h : d.graph.Site site) {statement : Statement}
    (hrole : statement.role.isBlock = false) : Quiet (replaceByStatement site statement) d := by
  rw [Quiet, replaceByStatement_apply]
  intro hd
  have hgrows := Graph.grows_replaceByStatement hd h (Graph.unlike_of_not_isBlock hrole)
  rw [hrole] at hgrows
  exact ⟨hgrows, rfl⟩

end Pass

end Parley
