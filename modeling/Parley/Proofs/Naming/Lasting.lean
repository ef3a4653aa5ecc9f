import Parley.Proofs.Control.Round
import Parley.Proofs.Effect.Argument
import Parley.Proofs.Naming.Leaf
set_option autoImplicit false

/-!
# What lasts

The address of a local variable that is passed to a call may become a number, a number may be read as the address of a
global, and a line that stores a number may become a comment.  Nothing else that has been written is rewritten, whatever
is decompiled later.
-/

namespace Parley

open Fallible

/-- What is not rewritten: an expression that is neither an address nor a number, and a line in which no number is
stored. -/
def ItemKind.Settled : ItemKind → Prop
  | .expression value => value.isAddress = false ∧ value.immediate? = none
  | .statement line => ∀ name rest, line.text.toList = (name ++ Pass.storeMark).toList ++ rest →
      Pass.isNumeral (Text.dropEndWhile (· == ';') rest) = false
  | _ => True

theorem Item.kind_of_expression? {item : Item} {expression : Expr} (h : item.expression? = some expression) :
    item.kind = .expression expression := by
  unfold expression? at h
  cases hkind : item.kind <;> simp_all

namespace Decompilation

variable {d d' d'' : Decompilation} {id : ItemId}

/-- What is settled in the first decompilation is the same in the second, and functions are named in the same way. -/
structure Lasts (d d' : Decompilation) : Prop where
  size : d.graph.size ≤ d'.graph.size
  kind : ∀ id < d.graph.size, (d.graph.item id).kind.Settled → (d'.graph.item id).kind = (d.graph.item id).kind
  options : d'.options = d.options
  attributed : d.Attributed → d'.Attributed

theorem Lasts.refl (d : Decompilation) : d.Lasts d := ⟨Nat.le_refl _, fun _ _ _ => rfl, rfl, id⟩

theorem Lasts.trans (h : d.Lasts d') (h' : d'.Lasts d'') : d.Lasts d'' where
  size := Nat.le_trans h.size h'.size
  kind id hid hsettled := by
    have hsame := h.kind id hid hsettled
    exact (h'.kind id (Nat.lt_of_lt_of_le hid h.size) (hsame ▸ hsettled)).trans hsame
  options := h'.options.trans h.options
  attributed := h'.attributed ∘ h.attributed

theorem Gains.lasts {func : Nat} {leaves : List Leaf} (h : d.Gains func leaves d') : d.Lasts d' :=
  ⟨h.size, fun id hid _ => h.kind id hid, h.options, h.attributed⟩

/-- The listing gets longer. -/
theorem lasts_onGraph {f : Graph → Graph} (hsize : d.graph.size ≤ (f d.graph).size)
    (hkind : ∀ id < d.graph.size, ((f d.graph).item id).kind = (d.graph.item id).kind) : d.Lasts (d.onGraph f) :=
  ⟨hsize, fun id hid _ => hkind id hid, rfl, id⟩

/-- What is not settled is rewritten. -/
theorem lasts_modify {f : Item → Item} (hid : ¬ (d.graph.item id).kind.Settled) : d.Lasts (d.onGraph (·.modify id f)) :=
  ⟨Nat.le_of_eq (Graph.size_modify d.graph id f).symm, fun _ _ hsettled =>
    congrArg Item.kind (Graph.item_modify_of_ne (ne_of_apply_ne (fun id => (d.graph.item id).kind.Settled) fun hsame =>
      hid (hsame.mp hsettled)) f), rfl, fun h => h⟩

/-- An address or a number is not settled. -/
theorem not_settled_of_expression
    (h : (d.expression id).isAddress = true ∨ (d.expression id).immediate?.isSome = true) :
    ¬ (d.graph.item id).kind.Settled := by
  intro hsettled
  obtain ⟨expression, hexpression⟩ : ∃ expression, (d.graph.item id).expression? = some expression := by
    cases hexpression : (d.graph.item id).expression? with
    | some expression => exact ⟨expression, rfl⟩
    | none =>
      rw [Decompilation.expression, hexpression] at h
      exact absurd h (by decide)
  rw [Decompilation.expression, hexpression, Option.getD_some] at h
  rw [Item.kind_of_expression? hexpression] at hsettled
  rcases h with h | h
  · exact Bool.false_ne_true (hsettled.1.symm.trans h)
  · rw [hsettled.2] at h
    cases h

/-- Neither is a line in which a number is stored. -/
theorem not_settled_of_statement {statement : Statement} {name : String} {rest : List Char}
    (hstatement : (d.graph.item id).statement? = some statement)
    (htext : statement.text.toList = (name ++ Pass.storeMark).toList ++ rest)
    (hnumeral : Pass.isNumeral (Text.dropEndWhile (· == ';') rest) = true) : ¬ (d.graph.item id).kind.Settled := by
  intro hsettled
  rw [Item.kind_of_statement? hstatement] at hsettled
  simp only [ItemKind.Settled] at hsettled
  exact Bool.false_ne_true ((hsettled name rest htext).symm.trans hnumeral)

/-! ### Lines -/

theorem lasts_insertBefore {g : Graph} (h : d.graph.Marks g) (site : ItemId) (item : Item) :
    d.Lasts (d.onGraph fun _ => g.insertBefore site item) := by
  refine lasts_onGraph (f := fun _ => g.insertBefore site item) ?_ fun id hid => kind_insertBefore h site item hid
  exact Nat.le_trans (Nat.le_of_eq h.size.symm)
    (Nat.le_trans (Nat.le_succ _) (Nat.le_of_eq (Graph.size_insertBefore g site item).symm))

theorem lasts_addStatement (d : Decompilation) (site : ItemId) (statement : Statement) :
    d.Lasts (d.onGraph (·.addStatement site statement)) :=
  lasts_insertBefore (.refl _) site _

theorem lasts_replaceByStatement (d : Decompilation) (site : ItemId) (statement : Statement) :
    d.Lasts (d.onGraph (·.replaceByStatement site statement)) :=
  lasts_insertBefore (Graph.marks_markProcessed d.graph site) site _

/-- What is settled lasts when operations are combined. -/
theorem spansAt_lasts (site : ItemId) : SpansAt Lasts site where
  refl := .refl
  trans _ _ _ := .trans
  address _ _ _ himmediate := lasts_modify (not_settled_of_expression (Or.inr himmediate))
  expression d _ := lasts_insertBefore (Graph.marks_modify d.graph site
    (f := fun old => old.withoutLabel.markProcessed) (fun _ => rfl) fun _ _ => rfl) site _
  statement d text := lasts_replaceByStatement d site (.plain text)

theorem lasts_declarations (d : Decompilation) (site : ItemId) (lines : List String) :
    d.Lasts (d.onGraph fun g => lines.foldl (fun g line => g.addStatement site (.plain line)) g) := by
  induction lines generalizing d with
  | nil => exact .refl d
  | cons line rest ih => exact (lasts_addStatement d site (.plain line)).trans (ih _)

theorem lasts_addBlankLine (d : Decompilation) (site : ItemId) : d.Lasts (d.onGraph (·.addBlankLine site)) := by
  change d.Lasts (d.onGraph fun _ => d.graph.addBlankLine site)
  rw [Graph.addBlankLine]
  split
  · exact lasts_addStatement d _ _
  · -- An item at the end is not read in another way than one before the site.
    generalize Item.ofKind (d.graph.item site).pos (.statement (.plain "")) = blank
    have hsize : (d.graph.append blank).size = d.graph.size + 1 := Graph.size_insertBefore d.graph site blank
    exact lasts_onGraph (f := fun _ => d.graph.append blank) (Nat.le_of_succ_le (Nat.le_of_eq hsize.symm))
      fun id hid => congrArg Item.kind (Graph.item_insertBefore_of_ne (Nat.ne_of_lt hid) site blank)

theorem lasts_addSignature (d : Decompilation) (info : FunctionInfo) : d.Lasts (d.onGraph (·.addSignature info)) := by
  have hheaded := lasts_replaceByStatement d info.startItem
    (.plain (info.header (d.graph.item info.startItem).xrefCount))
  have hopened := hheaded.trans (lasts_addStatement _ info.startItem ⟨openBrace, .opens .function⟩)
  have hdeclared := hopened.trans (lasts_declarations _ info.startItem info.declarations)
  have hclosed := hdeclared.trans (lasts_replaceByStatement _ info.endItem
    ⟨closingLine "end-function", .closes .function⟩)
  exact hclosed.trans (lasts_addBlankLine _ info.endItem)

theorem lasts_signature (d : Decompilation) (func : Nat) : d.Lasts (final (Pass.addSignature func d)) := by
  rw [Pass.addSignature, modify_apply, final_ok]
  split
  · exact lasts_addSignature d _
  · exact .refl d

end Decompilation

/-! ## Combination -/

namespace Pass

variable {α β : Type} {d d' : Decompilation} {func : Nat} {site id : ItemId}

/-- What is settled lasts in a pass, whether it succeeds or faults. -/
def Lasting (x : Pass α) (d : Decompilation) : Prop := d.Lasts (final (x d))

theorem lasting_pure (a : α) : Lasting (pure a) d := .refl d

theorem lasting_throw (fault : DecompileFault) : Lasting (throw fault : Pass α) d := .refl d

theorem lasting_get_bind {f : Decompilation → Pass α} (h : Lasting (f d) d) : Lasting (get >>= f) d := h

theorem Lasting.bind {x : Pass α} {f : α → Pass β} (hx : Lasting x d) (hf : ∀ a d', x d = .ok a d' → Lasting (f a) d') :
    Lasting (x >>= f) d :=
  Leads.bind (fun _ _ _ h h' => h.trans h') hx hf

theorem Lasting.bind_pure {x : Pass α} (hx : Lasting x d) (b : β) : Lasting (x >>= fun _ => pure b) d :=
  hx.bind fun _ _ _ => lasting_pure b

/-- A part that is done on a condition. -/
theorem lasting_when {c : Prop} [Decidable c] {x : Pass PUnit} {f : PUnit → Pass β} (hx : c → Lasting x d)
    (hf : ∀ a d', Lasting (f a) d') : Lasting (if c then x >>= f else f ⟨⟩) d := by
  split
  · rename_i h
    exact (hx h).bind fun a d' _ => hf a d'
  · exact hf ⟨⟩ d

theorem lasting_replaceByStatement (statement : Statement) : Lasting (replaceByStatement site statement) d := by
  rw [Lasting, replaceByStatement_apply, final_ok]
  exact Decompilation.lasts_replaceByStatement d site statement

theorem lasting_markAll (ids : List ItemId) : Lasting (onGraph (·.modifyAll ids Item.markProcessed)) d := by
  have hmarks := Graph.marks_markAll d.graph ids
  exact Decompilation.lasts_onGraph (f := (·.modifyAll ids Item.markProcessed)) (Nat.le_of_eq hmarks.size.symm)
    fun id _ => hmarks.kind id

/-- What has been replaced by a number was an address, and the line that supplies the number stores it. -/
theorem lasting_inlineLocal {type : DataType} (haddress : (d.expression id).isAddress = true) :
    Lasting (inlineLocal func id type) d := by
  have hid := Decompilation.not_settled_of_expression (Or.inl haddress)
  refine lasting_get_bind ?_
  dsimp only
  cases hnearest : nearestStore? d.graph (d.expression id).text (d.graph.backBetween (d.bounds func).1 id) with
  | none => exact lasting_pure _
  | some found =>
    obtain ⟨store, rest⟩ := found
    obtain ⟨statement, hstatement, htext⟩ := nearestStore?_eq_some hnearest
    have hne : store ≠ id := fun hsame => by
      rw [hsame, (Graph.inert_of_expression? (expression?_isSome_of_isAddress haddress)).statement] at hstatement
      cases hstatement
    dsimp only
    split
    · rename_i hnumeral
      have hstore := Decompilation.not_settled_of_statement hstatement htext hnumeral
      have hforget (index : Nat) : d.Lasts (d.onVariables func (·.forgetLocal index)) :=
        ⟨Nat.le_refl _, fun _ _ _ => rfl, rfl, fun h => h.onFunction func
          (f := fun info => { info with vars := info.vars.forgetLocal index }) (fun _ => rfl) fun _ => rfl⟩
      have hreplaced (d₀ : Decompilation) (hgraph : d₀.graph = d.graph) (expression : Expr) :
          d₀.Lasts
            ((d₀.onGraph (·.modify id (·.withExpression expression))).onGraph (·.modify store Item.inlined)) := by
        refine (Decompilation.lasts_modify (hgraph ▸ hid)).trans (Decompilation.lasts_modify ?_)
        rwa [Decompilation.onGraph, Graph.item_modify_of_ne hne, hgraph]
      split
      · rename_i index hindex
        exact (hforget index).trans (hreplaced (d.onVariables func (·.forgetLocal index)) rfl _)
      · exact hreplaced d rfl _
    · exact lasting_pure _

theorem lasting_combineKind {pos : UInt16} {operation : Operation} {operands : Operands} :
    Lasting (combineKind func id site pos operation operands) d :=
  (Decompilation.spansAt_lasts site).combineKind fun _ _ _ _ haddress _ => lasting_inlineLocal haddress

theorem lasting_collectOperands (start operation : ItemId) (needed : Nat) :
    Lasting (collectOperands start operation needed) d :=
  lasting_get_bind (lasting_when (fun _ => lasting_throw _) fun _ _ => lasting_pure _)

theorem lasting_moveLabel (earliest combined : ItemId) : Lasting (onGraph (moveLabel earliest combined)) d :=
  Decompilation.lasts_onGraph (f := moveLabel earliest combined)
    (Nat.le_of_eq (relabels_moveLabel (List.mem_singleton_self earliest) combined d.graph).size.symm)
    fun id _ => moveLabel_keeps (p := Item.kind) (fun _ _ _ => rfl) earliest combined d.graph id

theorem lasting_combineOperation (operation : Operation) : Lasting (combineOperation func id operation) d := by
  refine lasting_get_bind ((lasting_collectOperands _ _ _).bind fun operands _ _ => ?_)
  refine lasting_combineKind.bind fun combined _ _ => ?_
  split
  · exact (lasting_moveLabel _ _).bind fun _ _ _ => lasting_markAll _
  · exact lasting_markAll _

theorem lasting_combineItem (id : ItemId) : Lasting (combineItem func id) d := by
  refine lasting_get_bind ?_
  dsimp only
  split
  · exact lasting_combineOperation _
  · exact lasting_pure _

theorem lasting_combine (func : Nat) (d : Decompilation) : Lasting (combine func) d := by
  refine lasting_get_bind ?_
  generalize d.body func = ids
  induction ids generalizing d with
  | nil => exact lasting_pure _
  | cons id rest ih => exact (lasting_combineItem id).bind fun _ d' _ => ih d'

theorem lasting_analyze (func : Nat) (d : Decompilation) : Lasting (analyze func) d := by
  obtain ⟨leaves, hgains⟩ := gaining_analyze func d
  exact hgains.lasts

/-! ## Jumps that are left -/

theorem lasting_addStatement (site : ItemId) (statement : Statement) :
    Lasting (onGraph (·.addStatement site statement)) d :=
  Decompilation.lasts_addStatement d site statement

theorem lasting_addGotoLabel (written : List UInt16) (target : UInt16) (label : String) :
    Lasting (addGotoLabel written target label) d := by
  unfold addGotoLabel
  split
  · exact lasting_pure written
  · refine lasting_get_bind ?_
    split
    · exact (lasting_addStatement _ _).bind_pure _
    · exact lasting_pure _

theorem lasting_writeJump (written : List UInt16) (target : UInt16) (label : String) :
    Lasting (writeJump func written id target label) d := by
  refine lasting_get_bind ?_
  dsimp only
  split
  · exact (lasting_replaceByStatement _).bind_pure _
  · split
    · exact (lasting_replaceByStatement _).bind_pure _
    · exact (lasting_replaceByStatement _).bind fun _ _ _ => lasting_addGotoLabel written target label

theorem lasting_writeBranch (written : List UInt16) (opcode : Opcode) (target : UInt16) (label : String) :
    Lasting (writeBranch func written id opcode target label) d := by
  refine lasting_get_bind ?_
  dsimp only
  split
  · exact lasting_throw _
  · refine Lasting.bind (lasting_markAll [id]) fun _ _ _ => ?_
    exact (lasting_replaceByStatement _).bind fun _ _ _ => lasting_addGotoLabel written target label

theorem lasting_writeLeftover (written : List UInt16) : Lasting (writeLeftover func written id) d := by
  refine lasting_get_bind ?_
  split
  · exact lasting_pure written
  · split
    · dsimp only
      split
      · exact lasting_writeJump written _ _
      · exact lasting_writeJump written _ _
      · exact lasting_writeBranch written _ _ _
      · exact lasting_writeBranch written _ _ _
      · exact lasting_pure written
    · exact lasting_pure written

theorem lasting_writeJumps (func : Nat) : Lasting (writeJumps func) d := by
  refine lasting_get_bind ?_
  dsimp only
  generalize List.filter _ (d.body func) = ids
  have hfold (written : List UInt16) : Lasting (ids.foldlM (writeLeftover func) written) d := by
    induction ids generalizing d written with
    | nil => exact lasting_pure written
    | cons id rest ih =>
      rw [List.foldlM_cons]
      exact (lasting_writeLeftover written).bind fun written _ _ => ih written
  exact (hfold []).bind fun _ _ _ => lasting_pure _

end Pass

/-! ## Rounds -/

namespace Recovery

variable {start stop : ItemId} {w w' : Recovery} {id : ItemId}

/-- The recovery of control structures puts lines, and rewrites none. -/
theorem Leads.kind (h : w.Leads start stop w') (hg : w.graph.Ordered) (hid : id < w.graph.size) :
    (w'.graph.item id).kind = (w.graph.item id).kind := by
  induction h with
  | refl => rfl
  | tail hleads hstep ih =>
    obtain ⟨deed, hdoes⟩ := hstep
    have hlonger := (Leads.retains hleads hg).longer.size
    exact (hdoes.overlays.keeps (p := Item.kind) (fun _ => rfl) (Nat.lt_of_lt_of_le hid hlonger)).trans ih

end Recovery

namespace Round

variable {func : Nat} {f : Frame} {d before after d' : Decompilation} {w : Recovery}
  (h : Round func f d before w after d')

include h

theorem lastsBefore : d.Lasts before := by
  rw [h.preparing]
  exact (Pass.lasting_analyze func d).trans (Pass.lasting_combine func _)

theorem lastsAfter : before.Lasts after where
  size := h.retains.longer.size
  kind id hid _ := by
    have hleads := h.cleared.leads
    rw [h.cleared.reached.graph]
    exact Recovery.Leads.kind hleads h.ready.ordered hid
  options := by
    have hfound :
        (runPhases [.switches func, .whileLoops func, .doWhileLoops func, .conditionals func] before).options =
          before.options := by
      simp only [runPhases, List.foldl_cons, List.foldl_nil, Phase.run, Pass.findSwitches, Pass.findWhileLoops,
        Pass.findDoWhileLoops, Pass.findLoops, Pass.findConditionals, modify_apply, final_ok, Decompilation.onGraph]
    have hrecovering := h.recovering
    rw [show [Phase.switches func, .whileLoops func, .doWhileLoops func, .conditionals func, .jumps func] =
      [.switches func, .whileLoops func, .doWhileLoops func, .conditionals func] ++ [.jumps func] from rfl,
      runPhases_append] at hrecovering
    generalize runPhases [.switches func, .whileLoops func, .doWhileLoops func, .conditionals func] before = found
      at hrecovering hfound
    rw [hrecovering, ← hfound]
    exact Decompilation.Lasts.options (Pass.lasting_writeJumps (d := found) func)
  attributed hbefore := by
    rw [Decompilation.Attributed, Decompilation.frames, h.cleared.functions]
    exact hbefore

/-- What is settled when a function has been prepared lasts to the end of its round. -/
theorem lastsPrepared : before.Lasts d' := by
  refine h.lastsAfter.trans ?_
  rw [h.signing]
  exact Decompilation.lasts_signature after func

theorem lasts : d.Lasts d' := h.lastsBefore.trans h.lastsPrepared

end Round

/-! ## What stays written -/

/-- An item shows a text as a line. -/
def Graph.Prints (g : Graph) (id : ItemId) (text : String) : Prop :=
  (g.item id).processed = false ∧ (g.item id).statement? = some (.plain text)

namespace Graph

variable {g g' : Graph} {id : ItemId} {text : String}

theorem Prints.lt_size (h : g.Prints id text) : id < g.size := by
  refine lt_size_of_kind fun hkind => ?_
  rw [Prints, Item.statement?, hkind] at h
  cases h.2

/-- A line stays, unless it begins like the name of a local variable. -/
theorem Prints.grows {lines : List (ItemId × StatementRole)} (h : g.Prints id text) (hgrows : g.Grows lines g')
    (hletter : text.toList.head? ≠ some 'l') : g'.Prints id text :=
  (hgrows.kept id h.lt_size).shown _ h.1 h.2 hletter

end Graph

namespace Decompilation

variable {d d' d'' : Decompilation} {lines : List (ItemId × StatementRole)} {ids : List ItemId}

/-- What has been written stays where it is: headers, and lines that do not begin like the name of a local variable. -/
structure Persists (d d' : Decompilation) : Prop where
  lasts : d.Lasts d'
  longer : d.graph.Extends d'.graph
  prints : ∀ id text, d.graph.Prints id text → text.toList.head? ≠ some 'l' → d'.graph.Prints id text
  heads : ∀ f header opening, d.graph.Heads f header opening → d'.graph.Heads f header opening

theorem Persists.refl (d : Decompilation) : d.Persists d :=
  ⟨.refl d, Graph.Extends.refl _, fun _ _ h _ => h, fun _ _ _ h => h⟩

theorem Persists.trans (h : d.Persists d') (h' : d'.Persists d'') : d.Persists d'' where
  lasts := h.lasts.trans h'.lasts
  longer := h.longer.trans h'.longer
  prints id text hprints hletter := h'.prints id text (h.prints id text hprints hletter) hletter
  heads f header opening hheads := h'.heads f header opening (h.heads f header opening hheads)

/-- Lines are not marked in a round, and they are not changed by what is put besides them. -/
theorem Advances.persists (h : (d.marking ids).Advances lines d') (hsound : (d.marking ids).graph.Sound)
    (hids : ∀ id ∈ ids, (d.graph.item id).statement? = none) (hlasts : d.Lasts d')
    (hlonger : d.graph.Extends d'.graph) : d.Persists d' where
  lasts := hlasts
  longer := hlonger
  prints id text hprints hletter := by
    have hsame : (d.marking ids).graph.item id = d.graph.item id := by
      refine Graph.item_markAll_of_notMem d.graph fun hmem => ?_
      rw [Graph.Prints, hids id hmem] at hprints
      cases hprints.2
    exact Graph.Prints.grows (by rwa [Graph.Prints, hsame]) h.grows hletter
  heads f header opening hheads := (hheads.markAll hids).grows hsound h.grows

end Decompilation

theorem Round.persists {func : Nat} {f : Frame} {callees : List Nat} {d before after d' : Decompilation} {w : Recovery}
    (h : Round func f d before w after d') (hd : d.Well) (hrun : Pass.decompileFunction func d = .ok callees d') :
    d.Persists d' := by
  have hdecompiled := Pass.decompiled_decompileFunction hd h.frame
  rw [hrun] at hdecompiled
  cases hdecompiled with
  | done _ _ hadvances _ _ =>
    have hcalls : ∀ id ∈ d.openCalls (d.body func), (d.graph.item id).statement? = none :=
      fun id hid => (Decompilation.place_of_mem_openCalls hid).2
    exact hadvances.persists (hd.marking hcalls).well.sound hcalls h.lasts h.longer

namespace Decompilation

variable {found d last : Decompilation} {done : List Nat} {func : Nat}

theorem lasts_dropAllUnreached (d : Decompilation) (reached : List UInt16) : d.Lasts (d.dropAllUnreached reached) := by
  unfold dropAllUnreached
  generalize d.functions.toList = functions
  induction functions generalizing d with
  | nil => exact .refl d
  | cons info rest ih =>
    refine Lasts.trans ?_ (ih (dropUnreached reached d info))
    unfold dropUnreached
    split
    · exact .refl d
    · exact lasts_onGraph (f := (·.modify info.startItem fun item => { item with xrefCount := 0 }))
        (Nat.le_of_eq (Graph.size_modify ..).symm) fun id _ =>
          Graph.modify_keeps (p := Item.kind) (f := fun item => { item with xrefCount := 0 }) (fun _ => rfl) _ _ id

/-- What has been found lasts in all rounds. -/
theorem Rounds.lasts (h : found.Rounds done d) (hfound : found.Surveyed) (hcharted : found.graph.Charted) :
    found.Lasts d := by
  induction h with
  | start => exact .refl _
  | round h hreaches _ hrun ih =>
    obtain ⟨f, hf⟩ := hreaches.exists_frame
    obtain ⟨before, w, after, hround⟩ := (h.account hfound hcharted).exists_round hfound hcharted hf hrun
    exact ih.trans hround.lasts

/-- A function has had its round, and what was written then persists. -/
def HadRound (found : Decompilation) (func : Nat) (last : Decompilation) : Prop :=
  ∃ earlier d callees f before w after d', found.Rounds earlier d ∧ func ∉ earlier ∧
    Pass.decompileFunction func d = .ok callees d' ∧ Round func f d before w after d' ∧ d'.Persists last

/-- A function that has been decompiled has had its round. -/
theorem Rounds.round_of_mem (h : found.Rounds done d) (hfound : found.Surveyed) (hcharted : found.graph.Charted)
    (hfunc : func ∈ done) : found.HadRound func d := by
  refine h.of_mem hfound hcharted hfunc
    (fun done d before w after d' f callees hrounds _ hnew hrun hround => ?_)
    (fun done d before w after d' func' f' callees haccount _ hrun hround hhad => ?_)
  · exact ⟨done, d, callees, f, before, w, after, d', hrounds, hnew, hrun, hround, .refl d'⟩
  · obtain ⟨earlier, d₀, callees₀, f₀, before₀, w₀, after₀, d₁, hearlier, hnew₀, hrun₀, hround₀, hpersists⟩ := hhad
    exact ⟨earlier, d₀, callees₀, f₀, before₀, w₀, after₀, d₁, hearlier, hnew₀, hrun₀, hround₀,
      hpersists.trans (hround.persists haccount.well hrun)⟩

/-- What has been written in the rounds persists to the end. -/
theorem Ended.persists (h : Ended found done last d) : last.Persists d := by
  obtain ⟨reached, rfl⟩ := h.dropped
  have hsound := h.account.well.sound
  have hdropped := advances_dropAllUnreached hsound reached
  have hlasts : last.Lasts (runPhases [.dropping reached, .note .decompiled] last) :=
    (lasts_dropAllUnreached last reached).trans ⟨Nat.le_refl _, fun _ _ _ => rfl, rfl, fun h => h⟩
  have hend : (last.marking []).Advances [] (runPhases [.dropping reached, .note .decompiled] last) :=
    ⟨hdropped.grows, hdropped.frames⟩
  exact hend.persists hsound (fun _ hid => absurd hid List.not_mem_nil) hlasts (h.calm 0 0).longer

end Decompilation

end Parley
