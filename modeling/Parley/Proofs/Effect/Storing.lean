import Parley.Proofs.Control.Round
import Parley.Proofs.Effect.Sequence
set_option autoImplicit false

/-!
# Where stores into local variables are shown

A statement that begins with the name of a local variable is made by the combination of operations and by nothing else:
the analysis of a function writes no such line, neither does the recovery of its control structures, and its signature
begins with a type.  So there is no such statement in a function that has not been decompiled.
-/

namespace Parley

open Fallible

/-! ## Lines that begin with a local variable -/

/-- Whether the item is a statement that begins with the name of a local variable. -/
def Item.namesLocal (item : Item) : Bool :=
  item.statement?.any fun statement => beginsWith Pass.localMark statement.text

namespace Item

theorem namesLocal_congr {item item' : Item} (h : item'.statement? = item.statement?) :
    item'.namesLocal = item.namesLocal := by rw [namesLocal, namesLocal, h]

theorem namesLocal_of_statement? {item : Item} (h : item.statement? = none) : item.namesLocal = false := by
  rw [namesLocal, h]
  rfl

theorem statement?_congr {item item' : Item} (h : item'.kind = item.kind) : item'.statement? = item.statement? := by
  unfold statement?
  rw [h]

/-- A comment does not begin with the name of a local variable. -/
theorem namesLocal_inlined (item : Item) : item.inlined.namesLocal = false := by
  cases hstatement : item.statement? with
  | none =>
    refine namesLocal_of_statement? ?_
    obtain ⟨_, _, _, _, kind⟩ := item
    cases kind with
    | statement old => cases hstatement
    | _ => rfl
  | some statement =>
    rw [namesLocal, statement?_inlined hstatement, Option.any_some]
    simp [Pass.commented, beginsWith, Pass.localMark, List.isPrefixOf]

end Item

/-- No statement that begins with the name of a local variable is new. -/
def Graph.NamesNoMore (g g' : Graph) : Prop :=
  ∀ id, (g'.item id).namesLocal = true → (g.item id).namesLocal = true

namespace Graph

variable {g g' g'' : Graph} {id : ItemId}

theorem statement?_isSome_of_namesLocal (h : (g.item id).namesLocal = true) : (g.item id).statement?.isSome = true := by
  by_contra hnone
  rw [Item.namesLocal_of_statement? (Option.not_isSome_iff_eq_none.1 hnone)] at h
  cases h

theorem lt_size_of_namesLocal (h : (g.item id).namesLocal = true) : id < g.size :=
  lt_size_of_kind fun hkind => by
    have hsome := statement?_isSome_of_namesLocal h
    rw [Item.statement?, hkind] at hsome
    cases hsome

theorem NamesNoMore.trans (h : g.NamesNoMore g') (h' : g'.NamesNoMore g'') : g.NamesNoMore g'' :=
  fun id hid => h id (h' id hid)

theorem Marks.namesNoMore (h : g.Marks g') : g.NamesNoMore g' := fun id hid => by
  rwa [Item.namesLocal_congr (Item.statement?_congr (h.kind id))] at hid

theorem namesNoMore_insertBefore (g : Graph) (site : ItemId) (item : Item) (hitem : item.namesLocal = false) :
    g.NamesNoMore (g.insertBefore site item) := by
  intro id hid
  by_cases hnew : id = g.size
  · rw [hnew, item_insertBefore_new, hitem] at hid
    cases hid
  · rwa [item_insertBefore_of_ne hnew] at hid

theorem namesNoMore_addStatement (g : Graph) (site : ItemId) (statement : Statement)
    (h : beginsWith Pass.localMark statement.text = false) : g.NamesNoMore (g.addStatement site statement) :=
  namesNoMore_insertBefore g site _ h

theorem namesNoMore_replaceByStatement (g : Graph) (site : ItemId) (statement : Statement)
    (h : beginsWith Pass.localMark statement.text = false) : g.NamesNoMore (g.replaceByStatement site statement) :=
  (marks_markProcessed g site).namesNoMore.trans (namesNoMore_addStatement _ site statement h)

/-! ### Signatures -/

theorem beginsWith_typeText (type : DataType) (rest : String) :
    beginsWith Pass.localMark (type.text ++ rest) = false := by
  cases type <;> simp [DataType.text, beginsWith, Pass.localMark, List.isPrefixOf]

/-- Headers and declarations begin with types. -/
theorem beginsWith_header (info : FunctionInfo) (count : Nat) :
    beginsWith Pass.localMark (info.header count) = false := by
  rw [FunctionInfo.header]
  simp only [String.append_assoc]
  exact beginsWith_typeText _ _

theorem beginsWith_declaration {info : FunctionInfo} {line : String} (h : line ∈ info.declarations) :
    beginsWith Pass.localMark line = false := by
  rcases List.mem_append.1 h with h | h
  · obtain ⟨entry, -, hentry⟩ := List.mem_filterMap.1 h
    unfold FunctionInfo.localDeclaration? at hentry
    split at hentry
    · cases hentry
    · cases hentry
      simp only [String.append_assoc]
      exact beginsWith_typeText _ _
  · obtain ⟨array, -, rfl⟩ := List.mem_map.1 h
    simp only [FunctionInfo.arrayDeclaration, String.append_assoc]
    exact beginsWith_typeText _ _

theorem namesNoMore_declarations (g : Graph) (site : ItemId) (lines : List String)
    (h : ∀ line ∈ lines, beginsWith Pass.localMark line = false) :
    g.NamesNoMore (lines.foldl (fun g line => g.addStatement site (.plain line)) g) := by
  induction lines generalizing g with
  | nil => exact fun _ => id
  | cons line rest ih =>
    exact (namesNoMore_addStatement g site _ (h line List.mem_cons_self)).trans
      (ih _ fun other hother => h other (List.mem_cons_of_mem _ hother))

theorem namesNoMore_addBlankLine (g : Graph) (id : ItemId) : g.NamesNoMore (g.addBlankLine id) := by
  unfold addBlankLine
  split
  · exact namesNoMore_addStatement g _ _ rfl
  · exact namesNoMore_insertBefore g id (Item.ofKind (g.item id).pos (.statement (.plain ""))) rfl

theorem namesNoMore_addSignature (g : Graph) (info : FunctionInfo) : g.NamesNoMore (g.addSignature info) := by
  have hbrace : beginsWith Pass.localMark openBrace = false := by decide
  have hend : beginsWith Pass.localMark (closingLine "end-function") = false := by decide
  have hheaded := namesNoMore_replaceByStatement g info.startItem
    (.plain (info.header (g.item info.startItem).xrefCount)) (beginsWith_header _ _)
  have hopened := hheaded.trans (namesNoMore_addStatement _ info.startItem ⟨openBrace, .opens .function⟩ hbrace)
  have hdeclared := hopened.trans (namesNoMore_declarations _ info.startItem info.declarations
    fun _ => beginsWith_declaration)
  have hclosed := hdeclared.trans (namesNoMore_replaceByStatement _ info.endItem
    ⟨closingLine "end-function", .closes .function⟩ hend)
  exact hclosed.trans (namesNoMore_addBlankLine _ info.endItem)

end Graph

/-! ### The recovery of control structures -/

namespace Recovery

variable {start stop : ItemId} {w w' : Recovery} {deed : Deed}

theorem Does.namesNoMore (h : w.Does start stop deed w') (hnames : w.graph.NamesJumps) :
    w.graph.NamesNoMore w'.graph := by
  intro id hid
  by_cases hold : id < w.graph.size
  · rwa [Item.namesLocal_congr (h.overlays.statement?_eq hold)] at hid
  · obtain ⟨i, put, hput, rfl⟩ := h.overlays.exists_put (Nat.le_of_not_lt hold) (Graph.lt_size_of_namesLocal hid)
    rw [(h.overlays.put i put hput).item] at hid
    exact absurd hid (Bool.eq_false_iff.1 (legible_of_fits hnames h.fits put (List.mem_of_getElem? hput)))

theorem Leads.namesNoMore (h : w.Leads start stop w') (hordered : w.graph.Ordered) (hnames : w.graph.NamesJumps) :
    w.graph.NamesNoMore w'.graph := by
  induction h with
  | refl => exact fun _ => id
  | tail hleads hstep ih =>
    obtain ⟨deed, hdoes⟩ := hstep
    exact ih.trans (hdoes.namesNoMore ((Leads.retains hleads hordered).namesJumps hnames))

end Recovery

/-! ## The analysis of a function -/

namespace Pass

variable {α β : Type} {d : Decompilation} {site call stop : ItemId}

/-- A pass writes no line that begins with the name of a local variable. -/
def Storeless (x : Pass α) (d : Decompilation) : Prop := d.graph.NamesNoMore (final (x d)).graph

theorem Marking.storeless {x : Pass α} (hx : Marking x d) : Storeless x d := Graph.Marks.namesNoMore hx

theorem storeless_pure (a : α) : Storeless (pure a) d := (marking_pure a).storeless

theorem storeless_get_bind {f : Decompilation → Pass α} (h : Storeless (f d) d) : Storeless (get >>= f) d := h

theorem Storeless.bind {x : Pass α} {f : α → Pass β} (hx : Storeless x d) (hf : ∀ a d', Storeless (f a) d') :
    Storeless (x >>= f) d := by
  unfold Storeless at hx ⊢
  cases h : x d with
  | ok a d' =>
    rw [h] at hx
    rw [bind_of_ok h]
    exact hx.trans (hf a d')
  | error fault d' =>
    rw [h] at hx
    rw [bind_of_error h]
    exact hx

theorem Storeless.bind_pure {x : Pass α} (hx : Storeless x d) (b : β) : Storeless (x >>= fun _ => pure b) d :=
  hx.bind fun _ _ => storeless_pure b

theorem storeless_addExpression (expression : Expr) : Storeless (addExpression site expression) d := by
  unfold Storeless
  rw [addExpression_apply, final_ok]
  have hmarked := Graph.marks_modify d.graph site (f := fun old => old.withoutLabel.markProcessed)
    (fun _ => rfl) fun _ _ => rfl
  exact hmarked.namesNoMore.trans (Graph.namesNoMore_insertBefore _ site _ rfl)

theorem storeless_addOperation (operation : Operation) : Storeless (addOperation site operation) d := by
  unfold Storeless
  rw [addOperation_apply, final_ok]
  exact (Graph.marks_markProcessed d.graph site).namesNoMore.trans (Graph.namesNoMore_insertBefore _ site _ rfl)

theorem storeless_exit : Storeless (replaceByStatement site (.plain "exit;")) d := by
  unfold Storeless
  rw [replaceByStatement_apply, final_ok]
  exact Graph.namesNoMore_replaceByStatement d.graph site _ (by decide)

theorem storeless_addElement (func : Nat) : Storeless (addElement func site) d := by
  refine storeless_get_bind ((marking_onFunction func _).storeless.bind fun _ _ => ?_)
  exact (storeless_addExpression _).bind fun _ _ => (marking_markOpcodes site _).storeless

theorem storeless_addVariable (func : Nat) : Storeless (addVariable func site) d := by
  refine storeless_get_bind ((marking_consumeLoad site).storeless.bind fun loaded _ => ?_)
  dsimp only
  split <;> exact (marking_onFunction func _).storeless.bind fun _ _ =>
    (storeless_addExpression _).bind_pure _

theorem storeless_addImmediate : Storeless (addImmediate site) d := by
  refine storeless_get_bind ((marking_consumeLoad site).storeless.bind fun loaded _ => ?_)
  exact (storeless_addExpression _).bind_pure _

theorem storeless_addStore : Storeless (addStore site) d := by
  refine storeless_get_bind ?_
  dsimp only
  split
  · refine (marking_markProcessed _).storeless.bind fun _ _ => ?_
    exact (storeless_addOperation _).bind_pure _
  · exact (storeless_addOperation _).bind_pure _

theorem storeless_addIntrinsicCall : Storeless (addIntrinsicCall call stop) d := by
  refine storeless_get_bind ((marking_importedName _ _).storeless.bind fun name _ => ?_)
  dsimp only
  refine (marking_markProcessed call).storeless.bind fun _ _ => ?_
  refine marking_consumeCleanup.storeless.bind fun cleanup _ => ?_
  exact (storeless_addOperation _).bind_pure _

theorem storeless_addLocalCall (func : Nat) : Storeless (addLocalCall func call stop) d := by
  refine storeless_get_bind (marking_consumeCleanup.storeless.bind fun cleanup _ => ?_)
  refine (storeless_addOperation _).bind fun _ _ => (marking_enteredFunction func _ _).storeless.bind fun callee? _ => ?_
  cases callee? with
  | none => exact storeless_pure none
  | some callee => exact (marking_noteCaller func callee).storeless.bind_pure _

theorem storeless_addReturn (func : Nat) : Storeless (addReturn func site) d :=
  (storeless_addOperation _).bind fun _ _ => (marking_markOpcodes site _).storeless.bind fun _ _ =>
    (marking_onFunction func _).storeless

theorem storeless_analyzeOpcode (func : Nat) (opcode : Opcode) : Storeless (analyzeOpcode func stop site opcode) d := by
  cases opcode with
  | exitOp => exact storeless_exit.bind_pure none
  | calli => exact storeless_addIntrinsicCall.bind_pure none
  | call => exact storeless_addLocalCall func
  | sto => exact storeless_addStore.bind_pure none
  | pushiEff => exact (storeless_addVariable func).bind_pure none
  | pushi =>
    refine storeless_get_bind ?_
    dsimp only
    split
    · exact storeless_addImmediate.bind_pure none
    · exact storeless_pure none
  | _ =>
    simp only [analyzeOpcode]
    first
    | with_reducible exact storeless_pure none
    | with_reducible exact (storeless_addOperation _).bind_pure none

theorem storeless_analyzeItem (func : Nat) : Storeless (analyzeItem func stop site) d := by
  refine storeless_get_bind ?_
  dsimp only
  split
  · exact storeless_pure none
  · split
    · exact (storeless_addElement func).bind_pure none
    · split
      · exact (storeless_addReturn func).bind_pure none
      · exact storeless_analyzeOpcode func _

theorem storeless_analyzeNext (func : Nat) (callees : List Nat) :
    Storeless (analyzeNext func stop callees site) d :=
  (storeless_analyzeItem func).bind fun callee? _ => storeless_pure (callees ++ callee?.toList)

/-- The analysis of a function writes no line that begins with the name of a local variable. -/
theorem storeless_analyze (func : Nat) : Storeless (analyze func) d := by
  refine storeless_get_bind ?_
  generalize d.body func = ids
  generalize (d.bounds func).2 = stop
  generalize ([] : List Nat) = callees
  induction ids generalizing d callees with
  | nil => exact storeless_pure callees
  | cons id rest ih =>
    rw [List.foldlM_cons]
    exact (storeless_analyzeNext func callees).bind fun callees' _ => ih callees'

theorem storeless_addSignature (func : Nat) : Storeless (addSignature func) d := by
  unfold Storeless
  rw [addSignature, modify_apply, final_ok]
  split
  · exact Graph.namesNoMore_addSignature d.graph _
  · exact fun _ => id

end Pass

/-! ## The combination of operations -/

namespace Decompilation

variable {d d₁ d' : Decompilation} {func : Nat} {t : Turn} {turns : List Turn} {id stop : ItemId}

/-- No operation and no operand is a statement. -/
theorem Consumes.notMem_of_statement? (h : d.Consumes func t d') (hid : (d.graph.item id).statement?.isSome = true) :
    id ∉ t.id :: t.operands := by
  intro hmem
  have hnone : (d.graph.item id).statement? = none := by
    rcases List.mem_cons.1 hmem with rfl | hoperand
    · exact (Graph.site_of_operation? (Item.operation?_of_openOperation? h.isOpen)).statement
    · exact (Graph.site_of_isOpenExpression (h.isOpenExpression_of_mem hoperand)).statement
  rw [hnone] at hid
  cases hid

/-- Behind a turn a line that begins with the name of a local variable is what the turn leaves, or it has been there
before and nothing has changed in it. -/
theorem Consumes.of_namesLocal (h : d.Consumes func t d') (hid : (d'.graph.item id).namesLocal = true) :
    id = t.result ∨ id < d.graph.size ∧ d'.graph.item id = d.graph.item id := by
  by_cases hold : id < d.graph.size
  · right
    have hstatement := Graph.statement?_isSome_of_namesLocal hid
    rw [(h.advances.grows.kept id hold).statement] at hstatement
    refine ⟨hold, h.others id hold (h.notMem_of_statement? hstatement) fun hstore => ?_⟩
    obtain ⟨-, -, hitem⟩ := h.stores id hstore
    rw [hitem, Item.namesLocal_inlined] at hid
    cases hid
  · left
    have hlt := Graph.lt_size_of_namesLocal hid
    rw [h.size] at hlt
    exact (Nat.le_antisymm (Nat.le_of_lt_succ hlt) (Nat.le_of_not_lt hold)).trans h.result.symm

/-- Behind turns a line that begins with the name of a local variable is what one of them has left, or it has been
there before. -/
theorem Combines.of_namesLocal (h : Combines func d turns d') (hid : (d'.graph.item id).namesLocal = true) :
    (∃ t ∈ turns, t.result = id) ∨ id < d.graph.size ∧ d'.graph.item id = d.graph.item id := by
  induction h with
  | done d => exact Or.inr ⟨Graph.lt_size_of_namesLocal hid, rfl⟩
  | @turn d d₁ d' t turns run h rest ih =>
    rcases ih hid with ⟨t', ht', rfl⟩ | ⟨-, hitem⟩
    · exact Or.inl ⟨t', List.mem_cons_of_mem _ ht', rfl⟩
    · rcases h.of_namesLocal (hitem ▸ hid) with rfl | ⟨hlt, hitem'⟩
      · exact Or.inl ⟨t, List.mem_cons_self, rfl⟩
      · exact Or.inr ⟨hlt, hitem.trans hitem'⟩

/-- The result of an operation of a function stands in the function. -/
theorem Consumes.within (h : d.Consumes func t d') (hd : d.graph.Sound)
    (hid : d.graph.Within (d.bounds func).1 stop t.id) : d'.graph.Within (d.bounds func).1 stop t.result := by
  have hsite : Precedes d.graph.order (d.bounds func).1 t.site := by
    rcases h.site with hsite | ⟨hsite, -⟩
    · rw [hsite]
      exact hid.1
    · have hmem := List.mem_of_getLast? hsite
      rw [h.operands] at hmem
      exact ((hd.ordered.mem_backBetween hid.1).1 (List.mem_of_mem_filter (List.mem_of_mem_take hmem))).1
  exact ⟨h.precedes_result hd hsite, (h.result_precedes hd).trans h.advances.sound.ordered.nodup
    (hid.2.mono h.advances.grows.order)⟩

theorem Combines.within (h : Combines func d turns d') (hd : d.graph.Sound) (stop : ItemId)
    (hids : ∀ t ∈ turns, d.graph.Within (d.bounds func).1 stop t.id) :
    ∀ t ∈ turns, d'.graph.Within (d.bounds func).1 stop t.result := by
  induction h with
  | done d => exact fun _ ht => absurd ht List.not_mem_nil
  | @turn d d₁ d' t turns run h rest ih =>
    have hbounds := h.advances.bounds func
    rw [hbounds] at ih
    refine List.forall_mem_cons.2 ⟨?_, ih h.advances.sound fun t' ht' => ?_⟩
    · exact (h.within hd (hids t List.mem_cons_self)).mono (rest.advances h.advances.sound).grows.order
    · exact (hids t' (List.mem_cons_of_mem _ ht')).mono h.advances.grows.order

theorem Composes.eq_runPhases {d₂ : Decompilation} (h : d.Composes func d₁ turns d₂) :
    d₂ = runPhases [.analysis func, .combination func] d := by
  obtain ⟨callees, hanalyze⟩ := h.analyzed
  simp only [runPhases, List.foldl_cons, List.foldl_nil, Phase.run, hanalyze, h.combined, final_ok]

/-- The analysis writes no line that begins with the name of a local variable. -/
theorem Composes.namesNoMore {d₂ : Decompilation} (h : d.Composes func d₁ turns d₂) : d.graph.NamesNoMore d₁.graph := by
  obtain ⟨_, hanalyze⟩ := h.analyzed
  have hstoreless := Pass.storeless_analyze (d := d) func
  rwa [Pass.Storeless, hanalyze, final_ok] at hstoreless

theorem Composes.frames {d₂ : Decompilation} (h : d.Composes func d₁ turns d₂) (hd : d.Well) :
    d₁.frames = d.frames := by
  obtain ⟨_, hanalyze⟩ := h.analyzed
  have hanalyzed := Pass.analyzed_analyze hd.sound func
  rw [hanalyze] at hanalyzed
  cases hanalyzed with
  | done hpasses _ => exact hpasses.advances.frames

/-- The operations of a function stand in it. -/
theorem Composes.within {d₂ : Decompilation} {f : Frame} (h : d.Composes func d₁ turns d₂) (hd₁ : d₁.Well)
    (hf : d₁.frames[func]? = some f) (ht : t ∈ turns) : d₁.graph.Within f.startItem f.endItem t.id := by
  have hmem : t.id ∈ d₁.openOperations func := h.ids ▸ List.mem_map_of_mem ht
  exact within_of_mem_body hd₁ hf (List.mem_of_mem_filter hmem)

/-- What the turns of a function leave stands in it. -/
theorem Composes.has_result {d₂ : Decompilation} {f : Frame} (h : d.Composes func d₁ turns d₂) (hd₁ : d₁.Well)
    (hf : d₁.frames[func]? = some f) : ∀ t ∈ turns, d₂.Has func t.result := by
  have hbounds := bounds_of_getElem? hf
  have hwithin := h.combines.within hd₁.sound f.endItem fun t ht => by
    rw [hbounds]
    exact h.within hd₁ hf ht
  intro t ht
  have hwithin := hwithin t ht
  rw [hbounds] at hwithin
  exact ⟨f, (h.combines.advances hd₁.sound).frames ▸ hf, hwithin⟩

/-! ## Rounds -/

section Rounds

variable {image : Image} {strings : List String} {options : NamingOptions} {done : List Nat} {callees : List Nat}

/-- A function that is decompiled in a round is taken apart. -/
theorem Rounds.composes (h : (survey image strings options).Rounds done d)
    (hcharted : (survey image strings options).graph.Charted)
    (hrun : Pass.decompileFunction func d = .ok callees d') :
    ∃ d₁ turns d₂, d.Composes func d₁ turns d₂ ∧ d₁.Well ∧ (d₁.graph.item 0).expression? = none := by
  obtain ⟨phases, rfl⟩ := h.exists_phases (surveyed_survey image strings options) hcharted
  rw [survey_eq, ← runPhases_append] at hrun ⊢
  obtain ⟨d₁, turns, d₂, hcomposes, hd₁, -⟩ := composes_decompileFunction hrun
  refine ⟨d₁, turns, d₂, hcomposes, hd₁, ?_⟩
  obtain ⟨_, hanalyze⟩ := hcomposes.analyzed
  have hzero := expression?_zero_runPhases image strings options
    ([.references, .discovery, .relabeling] ++ phases ++ [.analysis func])
  rwa [runPhases_append _ [.analysis func], runPhases, List.foldl_cons, List.foldl_nil, Phase.run, hanalyze,
    final_ok] at hzero

/-- A line that begins with the name of a local variable stands in a function that has been decompiled. -/
theorem Rounds.has_of_namesLocal (h : (survey image strings options).Rounds done d)
    (hcharted : (survey image strings options).graph.Charted) (hid : (d.graph.item id).namesLocal = true) :
    ∃ func ∈ done, d.Has func id := by
  have hfound := surveyed_survey image strings options
  induction h with
  | start =>
    rw [Item.namesLocal_of_statement? (hcharted.unreduced id).2] at hid
    cases hid
  | @round done d d' func callees h hreaches hnew hrun ih =>
    obtain ⟨f, hf⟩ := hreaches.exists_frame
    obtain ⟨before, w, after, hround⟩ := (h.account hfound hcharted).exists_round hfound hcharted hf hrun
    obtain ⟨d₁, turns, d₂, hcomposes, hd₁, -⟩ := h.composes hcharted hrun
    obtain rfl : before = d₂ := hround.preparing.trans hcomposes.eq_runPhases.symm
    have hrecovered : before.graph.NamesNoMore after.graph := by
      rw [hround.cleared.reached.graph]
      exact hround.cleared.leads.namesNoMore hround.ready.ordered hround.names
    have hsigned : after.graph.NamesNoMore d'.graph := by
      rw [hround.signing]
      exact Pass.storeless_addSignature func
    rcases hcomposes.combines.of_namesLocal (hrecovered id (hsigned id hid)) with ⟨t, ht, rfl⟩ | ⟨-, hitem⟩
    · have hf₁ : d₁.frames[func]? = some f :=
        hcomposes.frames (h.account hfound hcharted).well ▸ hround.frame
      refine ⟨func, List.mem_append_right _ List.mem_cons_self, ?_⟩
      exact (hcomposes.has_result hd₁ hf₁ t ht).mono (hround.retains.longer.trans hround.signed.longer)
        (hround.signed.frames.trans hround.framesAfter)
    · have hold : (d₁.graph.item id).namesLocal = true := hitem ▸ hrecovered id (hsigned id hid)
      obtain ⟨func', hfunc', hhas⟩ := ih (hcomposes.namesNoMore id hold)
      exact ⟨func', List.mem_append_left _ hfunc', hhas.mono hround.longer hround.frames⟩

/-- So there is none in a function that has not. -/
theorem Rounds.namesLocal_eq_false (h : (survey image strings options).Rounds done d)
    (hcharted : (survey image strings options).graph.Charted) (hnew : func ∉ done) (hid : d.Has func id) :
    (d.graph.item id).namesLocal = false := by
  by_contra hnames
  obtain ⟨func', hfunc', hhas⟩ := h.has_of_namesLocal hcharted (Bool.not_eq_false _ ▸ hnames)
  have haccount := h.account (surveyed_survey image strings options) hcharted
  exact hnew (haccount.eq_of_has (surveyed_survey image strings options) hhas hid ▸ hfunc')

/-- And there is none when that is analyzed. -/
theorem Rounds.namesLocal_analyzed {d₂ : Decompilation} (h : (survey image strings options).Rounds done d)
    (hcharted : (survey image strings options).graph.Charted) (hnew : func ∉ done)
    (hcomposes : d.Composes func d₁ turns d₂) (hid : d₁.Has func id) : (d₁.graph.item id).namesLocal = false := by
  have hd := (h.account (surveyed_survey image strings options) hcharted).well
  have honward := hd.analyze func
  obtain ⟨_, hanalyze⟩ := hcomposes.analyzed
  rw [hanalyze, final_ok] at honward
  by_contra hnames
  have hold := hcomposes.namesNoMore id (Bool.not_eq_false _ ▸ hnames)
  have hhas := (has_iff_of_extends hd honward.well honward.longer (hcomposes.frames hd)
    (Graph.lt_size_of_namesLocal hold)).1 hid
  rw [h.namesLocal_eq_false hcharted hnew hhas] at hold
  cases hold

end Rounds

end Decompilation

end Parley
