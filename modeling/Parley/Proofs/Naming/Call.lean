import Parley.Proofs.Naming.Function
import Parley.Proofs.Naming.Lasting
import Parley.Proofs.Source.Decompile
set_option autoImplicit false

/-!
# What calls are written with

A call is written with the name that is known for the position where it leads.  A function is named by the position of
its prologue; so a call that leads to the prologue shows the name of the function, and one that leads to a start
instruction before it shows what is known for that.
-/

namespace Parley

open Fallible

/-! ## Calls become operations -/

/-- An operation that nothing has replaced stands for a call. -/
structure Graph.Answers (g : Graph) (call e : ItemId) : Prop where
  opened : ∃ operation, (g.item e).openOperation? = some operation ∧ operation.opcode = .call ∧
    operation.arg = (g.item call).operandOrZero
  causes : g.Causes call e

namespace Graph

variable {g g' : Graph} {call e start stop : ItemId}

theorem openOperation?_congr {item item' : Item} (hkind : item'.kind = item.kind)
    (hprocessed : item'.processed = item.processed) : item'.openOperation? = item.openOperation? := by
  rw [Item.openOperation?, Item.openOperation?, hprocessed, Item.operation?, Item.operation?, hkind]

/-- The operation of a call stands directly before it. -/
theorem Answers.within (h : g.Answers call e) (hg : g.Ordered) (hstart : (g.item start).effect? = none)
    (hcall : g.Within start stop call) : g.Within start stop e := by
  obtain ⟨operation, hopen, hopcode, -⟩ := h.opened
  obtain ⟨front, hleads, -, hadjoins⟩ := h.causes.place
  refine ⟨?_, (h.causes.precedes hg).trans hg.nodup hcall.2⟩
  cases hleads with
  | self =>
    refine (hadjoins.eq_or_precedes_left hg.nodup hcall.1).resolve_left fun hsame => ?_
    rw [hsame] at hstart
    exact Option.isSome_iff_ne_none.1 h.causes.isEffect hstart
  | count hcalli =>
    have heffect := Item.operation?_of_openOperation? hopen
    have hcause := h.causes.opcode.symm.trans (of_decide_eq_true hcalli)
    unfold Item.operation? at heffect
    unfold Item.effect? at hcause
    cases hkind : (g.item e).kind <;> simp_all [Operation.hasEffect]

/-- An operation takes the place of a call, where items have perhaps been marked before. -/
theorem answers_putOperation (hmarks : g.Marks g') (hg : g.Ordered) (hcall : (g.item call).isOpenOpcode .call = true)
    {operation : Operation} (hopcode : operation.opcode = .call) (harg : operation.arg = (g.item call).operandOrZero) :
    (g'.putOperation call operation).Answers call g.size := by
  have hcode := Item.opcode?_of_isOpenOpcode hcall
  have hlt := lt_size_of_isOpcodeItem (Item.isOpcodeItem_of_opcode? hcode)
  have hmarked := hmarks.trans (marks_markProcessed g' call)
  have hreplaced : ((g'.markProcessed call).item call).processed = true :=
    congrArg Item.processed (item_modify_self (hmarks.size ▸ hlt) _)
  have heffect : (Item.ofKind (g'.item call).pos (.operation operation)).effect? = some .call := by
    simp [Item.effect?, Item.ofKind, Operation.hasEffect, hopcode]
  have hcauses := hmarked.causes_insertBefore ((hg.mem_order call).2 hlt) .self (by rw [heffect]; rfl)
    (hcode.trans heffect.symm) hreplaced hreplaced
  have hnew := item_insertBefore_new (g'.markProcessed call) call (.ofKind (g'.item call).pos (.operation operation))
  have hold := item_insertBefore_of_ne (hmarked.size ▸ Nat.ne_of_lt hlt) call
    (.ofKind (g'.item call).pos (.operation operation))
  rw [hmarked.size] at hnew hcauses
  refine ⟨⟨operation, congrArg Item.openOperation? hnew, hopcode, ?_⟩, hcauses⟩
  rw [harg, putOperation, hold, Item.operandOrZero, Item.operandOrZero, Item.opcodeItem?, Item.opcodeItem?,
    hmarked.kind]

end Graph

namespace Decompilation

variable {d d' : Decompilation} {func : Nat} {leaves : List Leaf} {call e : ItemId}

/-- It stays so while other items are analyzed. -/
theorem Gains.answers (h : d.Gains func leaves d') (htraced : d.graph.Traced d'.graph)
    (hanswers : d.graph.Answers call e) : d'.graph.Answers call e := by
  obtain ⟨operation, hopen, hopcode, harg⟩ := hanswers.opened
  have hlt := Graph.lt_size_of_effect? hanswers.causes.isEffect
  have hcall := Graph.lt_size_of_isOpcodeItem hanswers.causes.isOpcodeItem
  have hitem := Item.isOpcodeItem_of_effect? hanswers.causes.isEffect
  refine ⟨⟨operation, ?_, hopcode, ?_⟩, hanswers.causes.mono htraced⟩
  · rw [Graph.openOperation?_congr (h.kind e hlt) (h.spared e hlt hitem), hopen]
  · rw [harg, Item.operandOrZero, Item.operandOrZero, Item.opcodeItem?, Item.opcodeItem?, h.kind call hcall]

end Decompilation

namespace Pass

variable {α : Type} {d d' : Decompilation} {func : Nat} {call e stop : ItemId} {callee? : Option Nat}

theorem Gaining.answers {x : Pass α} {a : α} (hx : Gaining func x d) (htraced : d.graph.Traced (final (x d)).graph)
    (h : x d = .ok a d') (hanswers : d.graph.Answers call e) : d'.graph.Answers call e := by
  obtain ⟨leaves, hgains⟩ := hx
  rw [h] at hgains htraced
  exact hgains.answers htraced hanswers

/-- The call of a local function becomes an operation. -/
theorem answers_addLocalCall (hd : d.graph.Ordered) (hcall : (d.graph.item call).isOpenOpcode .call = true)
    (h : addLocalCall func call stop d = .ok callee? d') : d'.graph.Answers call d.graph.size := by
  unfold addLocalCall at h
  rw [bind_of_ok (get_apply d)] at h
  obtain ⟨cleanup, d₁, hcleanup, h⟩ := bind_eq_ok.1 h
  obtain ⟨_, d₂, hadded, h⟩ := bind_eq_ok.1 h
  obtain ⟨entered?, d₃, hentered, h⟩ := bind_eq_ok.1 h
  have hmarks : d.graph.Marks d₁.graph := by
    have hmarks : Marking (consumeCleanup call stop) d := marking_consumeCleanup
    rwa [Marking, hcleanup, final_ok] at hmarks
  have hadd : d₂.graph.Answers call d.graph.size := by
    rw [addOperation_apply] at hadded
    cases hadded
    exact Graph.answers_putOperation hmarks hd hcall rfl rfl
  have henter := (gaining_enteredFunction _ _).answers (marking_enteredFunction func _ _).traced hentered hadd
  cases entered? with
  | none =>
    cases h
    exact henter
  | some callee =>
    obtain ⟨_, d₄, hnoted, hpure⟩ := bind_eq_ok.1 h
    cases hpure
    exact (gaining_noteCaller callee).answers (marking_noteCaller func callee).traced hnoted henter

/-- The calls among items that are analyzed become operations. -/
theorem answers_foldlM (hd : d.graph.Sound) {ids : List ItemId} (hids : ids.Nodup)
    (hlt : ∀ id ∈ ids, id < d.graph.size) {callees callees' : List Nat}
    (h : ids.foldlM (analyzeNext func stop) callees d = .ok callees' d') :
    ∀ call ∈ d.openCalls ids, ∃ e, d'.graph.Answers call e := by
  induction ids generalizing d callees with
  | nil => exact fun _ hcall => absurd hcall List.not_mem_nil
  | cons id rest ih =>
    rw [List.foldlM_cons] at h
    obtain ⟨callees₁, d₁, hfirst, hrest⟩ := bind_eq_ok.1 h
    have hanalyzed := analyzed_analyzeNext hd func stop callees id
    rw [hfirst] at hanalyzed
    cases hanalyzed with
    | @done entries _ hpasses hsame =>
      have hlater : ∀ other ∈ rest, other < d.graph.size := fun other hother =>
        hlt other (List.mem_cons_of_mem _ hother)
      have hlt₁ : ∀ other ∈ rest, other < d₁.graph.size := fun other hother =>
        Nat.lt_of_lt_of_le (hlater other hother) hpasses.size_le
      intro call hcall
      rw [Decompilation.openCalls, List.mem_filter, List.mem_cons] at hcall
      obtain ⟨rfl | hmem, hopen⟩ := hcall
      · obtain ⟨callee?, d₂, hitem, hpure⟩ := bind_eq_ok.1 hfirst
        obtain ⟨-, rfl⟩ := pure_eq_ok.1 hpure
        rw [analyzeItem_of_call func hopen] at hitem
        refine ⟨d.graph.size, ?_⟩
        exact (gaining_foldlM func stop rest _).answers (traced_foldlM hpasses.advances.sound func stop hlt₁ _) hrest
          (answers_addLocalCall hd.ordered hopen hitem)
      · refine ih hpasses.advances.sound (List.nodup_cons.1 hids).2 hlt₁ hrest call ?_
        rw [hpasses.openCalls_rest hsame hids hlater]
        exact List.mem_filter.2 ⟨hmem, hopen⟩

/-- The calls of a function become operations in its analysis. -/
theorem answers_analyze (hd : d.graph.Sound) {callees : List Nat} (h : analyze func d = .ok callees d') :
    ∀ call ∈ d.openCalls (d.body func), ∃ e, d'.graph.Answers call e := by
  have hsub := d.sublist_body func
  exact answers_foldlM hd (hd.ordered.nodup.sublist hsub) (fun id hid => hd.ordered.lt_of_mem (hsub.subset hid)) h

end Pass

/-! ## Operations become text -/

/-- A call, as it is written. -/
def callText (name : String) (texts : List String) : String := name ++ "(" ++ String.intercalate ", " texts ++ ")"

/-- An item is a call by a name: an expression, or a line. -/
def Item.CallsBy (item : Item) (name : String) : Prop :=
  ∃ texts, item.expression? = some (.atom (callText name texts) false) ∨
    item.statement? = some (.plain (callText name texts ++ ";"))

namespace Item

variable {item item' : Item} {name : String}

theorem CallsBy.congr (h : item.CallsBy name) (hkind : item'.kind = item.kind) : item'.CallsBy name := by
  rw [CallsBy, expression?, statement?, hkind]
  exact h

/-- A call that has been written is not rewritten. -/
theorem CallsBy.settled (h : item.CallsBy name) : item.kind.Settled := by
  obtain ⟨texts, hexpression | hstatement⟩ := h
  · rw [kind_of_expression? hexpression]
    exact ⟨rfl, rfl⟩
  · rw [kind_of_statement? hstatement]
    intro place rest htext
    have hcall : (name ++ "(" ++ String.intercalate ", " texts).toList ++ [')', ';'] =
        (place ++ Pass.storeMark).toList ++ rest := by
      rw [← htext]
      simp [Statement.plain, callText]
    exact Pass.not_isNumeral_of_call hcall

end Item

namespace Pass

variable {d d' : Decompilation} {func : Nat} {t : Turn} {site new : ItemId}

theorem expression?_addExpression {expression : Expr} (h : addExpression site expression d = .ok new d') :
    new = d.graph.size ∧ d'.graph.size = d.graph.size + 1 ∧ (d'.graph.item new).expression? = some expression := by
  rw [addExpression_apply] at h
  cases h
  have hnew := Graph.item_insertBefore_new (d.graph.modify site fun old => old.withoutLabel.markProcessed) site
    { Item.ofKind (d.graph.item site).pos (.expression expression) with
      label := (d.graph.item site).label, xrefCount := (d.graph.item site).xrefCount }
  rw [Graph.size_modify] at hnew
  refine ⟨rfl, ?_, congrArg Item.expression? hnew⟩
  rw [Decompilation.onGraph, Graph.putExpression, Graph.size_insertBefore, Graph.size_modify]

/-- The call of a local function is written with the name that is known for the position where it leads. -/
theorem callsBy_of_call (run : combineItem func t.id d = .ok () d') (h : d.Consumes func t d')
    (hopcode : t.operation.opcode = .call) :
    (d'.graph.item t.result).CallsBy (d.options.functionName t.operation.arg) := by
  obtain ⟨operands, combined, d₁, -, hkind, -, hsize, hsame⟩ := exists_combineKind run h
  simp only [combineKind, hopcode] at hkind
  obtain ⟨name, d₀, hname, hkind⟩ := bind_eq_ok.1 hkind
  have hcalled : name = d.options.functionName t.operation.arg := by
    rw [calledName, if_neg (by rw [hopcode]; decide), bind_of_ok (get_apply d)] at hname
    cases hname
    rfl
  obtain ⟨texts, d₂, -, hkind⟩ := bind_eq_ok.1 hkind
  rw [← hcalled]
  refine ⟨texts, ?_⟩
  split at hkind
  · obtain ⟨rfl, hmore, hexpression⟩ := expression?_addExpression hkind
    have hresult : t.result = d₂.graph.size :=
      h.result.trans (Nat.succ.inj (h.size.symm.trans (hsize.trans hmore)))
    left
    rw [hresult, Item.expression?, hsame, ← Item.expression?, hexpression]
    rfl
  · exact Or.inr (statement_of_put h hsize hsame hkind).1

end Pass

namespace Decompilation

variable {found d d₁ d₂ d' : Decompilation} {func : Nat} {f : Frame} {turns : List Turn} {call : ItemId}
  {target : UInt16} {done : List Nat}

theorem Combines.lasts (h : Combines func d turns d') : d.Lasts d' := by
  induction h with
  | done d => exact .refl d
  | @turn d d₁ d' t turns run h rest ih =>
    have hlasting : Pass.Lasting (Pass.combineItem func t.id) d := Pass.lasting_combineItem t.id
    rw [Pass.Lasting, run, final_ok] at hlasting
    exact hlasting.trans ih

/-- A call that is open when its function is decompiled is written by a turn. -/
theorem Composes.callsBy (h : d.Composes func d₁ turns d₂) (hd : d.Well) (hd₁ : d₁.Well)
    (hf : d.frames[func]? = some f) (hcall : call ∈ d.openCalls (d.body func))
    (htarget : (d.graph.item call).Calls target) :
    ∃ t ∈ turns, d₁.graph.Causes call t.id ∧ (d₂.graph.item t.result).CallsBy (d.options.functionName target) := by
  obtain ⟨callees, hanalyze⟩ := h.analyzed
  obtain ⟨leaves, hgains⟩ := Pass.gaining_analyze func d
  have honward := hd.analyze func
  rw [hanalyze, final_ok] at hgains honward
  have hf₁ : d₁.frames[func]? = some f := by rwa [h.frames hd]
  obtain ⟨e, hanswers⟩ := Pass.answers_analyze hd.sound hanalyze call hcall
  obtain ⟨operation, hopen, hopcode, harg⟩ := hanswers.opened
  -- The operation stands in the function, and so it has its turn.
  have hbody : e ∈ d₁.body func := by
    rw [mem_body_iff hd₁ hf₁, has_iff hf₁]
    refine hanswers.within hd₁.sound.ordered ?_
      ((within_of_mem_body hd hf (List.mem_of_mem_filter hcall)).mono honward.longer.order)
    rw [Item.effect?, (hd₁.fits f (List.mem_of_getElem? hf₁)).front]
  have hmem : e ∈ turns.map (·.id) := h.ids ▸ List.mem_filter.2 ⟨hbody, by rw [hopen]; rfl⟩
  obtain ⟨t, ht, rfl⟩ := List.mem_map.1 hmem
  refine ⟨t, ht, hanswers.causes, ?_⟩
  obtain ⟨front, behind, rfl⟩ := List.append_of_mem ht
  obtain ⟨e, e', hfront, run, hturn, hbehind⟩ := h.combines.exists_turn
  have hsame : t.operation = operation := by
    have hkept := (hfront.advances hd₁.sound).grows.kept t.id (hd₁.sound.ordered.lt_of_mem
      ((d₁.sublist_body func).subset hbody))
    exact Option.some.inj ((Item.operation?_of_openOperation? hturn.isOpen).symm.trans
      (hkept.operation?.trans (Item.operation?_of_openOperation? hopen)))
  have hcallsBy := Pass.callsBy_of_call run hturn (hsame ▸ hopcode)
  have hlt := Graph.lt_size_of_isOpcodeItem (Item.isOpcodeItem_of_isOpcode htarget.1)
  rw [hsame, harg, Item.operandOrZero, Item.opcodeItem?, hgains.kind call hlt, ← Item.opcodeItem?,
    ← Item.operandOrZero, htarget.operandOrZero, hfront.lasts.options, hgains.options] at hcallsBy
  exact hcallsBy.congr (hbehind.lasts.kind _ hturn.result_lt_size hcallsBy.settled)

/-! ## Callers -/

/-- When functions are discovered no callers have been noted. -/
theorem attributed_survey (image : Image) (strings : List String) (options : NamingOptions) :
    (survey image strings options).Attributed := by
  intro callers hcallers caller hcaller
  obtain ⟨info, hinfo, rfl⟩ := List.mem_map.1 hcallers
  rw [(untouched_survey image strings options info hinfo).1] at hcaller
  exact absurd hcaller List.not_mem_nil

/-! ## Rounds -/

/-- The calls of a function are open when its round begins. -/
theorem Rounds.openCalls (h : found.Rounds done d) (hfound : found.Surveyed) (hf : found.frames[func]? = some f)
    (hnew : func ∉ done) : d.openCalls (d.body func) = found.calls func := by
  obtain ⟨hdone, entries, rfl, hprogress⟩ := h.exists_progress hfound
  obtain ⟨lines, hlines, -⟩ := hprogress.advances
  exact openCalls_body hfound hlines hf fun _ => notMem_callsOf hfound hdone hf hnew

/-- A function that has been decompiled has been taken apart in its round, and what was settled then has lasted. -/
theorem Rounds.exists_composes {image : Image} {strings : List String} {options : NamingOptions}
    (h : (survey image strings options).Rounds done d) (hcharted : (survey image strings options).graph.Charted)
    (hfunc : func ∈ done) :
    ∃ earlier d₀ d₁ turns d₂, (survey image strings options).Rounds earlier d₀ ∧ func ∉ earlier ∧
      d₀.Composes func d₁ turns d₂ ∧ d₁.Well ∧ d₂.Lasts d ∧ d₂.graph.Extends d.graph := by
  obtain ⟨earlier, d₀, callees, f, before, w, after, d', hearlier, hnew, hrun, hround, hpersists⟩ :=
    h.round_of_mem (surveyed_survey image strings options) hcharted hfunc
  obtain ⟨d₁, turns, d₂, hcomposes, hd₁, -⟩ := hearlier.composes hcharted hrun
  obtain rfl : before = d₂ := hround.preparing.trans hcomposes.eq_runPhases.symm
  exact ⟨earlier, d₀, d₁, turns, before, hearlier, hnew, hcomposes, hd₁, hround.lastsPrepared.trans hpersists.lasts,
    (hround.retains.longer.trans hround.signed.longer).trans hpersists.longer⟩

/-! ## The end -/

namespace Ended

variable {image : Image} {strings : List String} {options : NamingOptions} {last : Decompilation}
  (h : Ended (survey image strings options) done last d)

include h

theorem longer : (survey image strings options).graph.Extends d.graph :=
  h.account.longer.trans (h.calm 0 0).longer

theorem frames : d.frames = (survey image strings options).frames := (h.calm 0 0).frames.trans h.account.frames

theorem options_eq : d.options = options :=
  h.persists.lasts.options.trans
    ((h.rounds.lasts h.surveyed h.charted).options.trans (options_survey image strings options))

theorem attributed : d.Attributed :=
  h.persists.lasts.attributed
    ((h.rounds.lasts h.surveyed h.charted).attributed (attributed_survey image strings options))

theorem entryName (entry : UInt16) : d.entryName entry = (survey image strings options).entryName entry :=
  entryName_congr (h.options_eq.trans (options_survey image strings options).symm)
    (h.longer.leadsAt h.surveyed.sound.ordered h.well.sound.ordered) entry

/-- A header shows what is known of its function. -/
theorem header (hf : d.frames[func]? = some f) {header : ItemId} (hheader : header ∈ d.headers func) :
    ∃ (info : FunctionInfo) (count : Nat), info.frame = f ∧
      (d.graph.item header).statement? = some (.plain (info.header count)) := by
  obtain ⟨reached, hphases⟩ := h.dropped
  obtain ⟨-, entries, -, hprogress⟩ := h.rounds.exists_progress h.surveyed
  have hdropped := advances_dropAllUnreached h.account.well.sound reached
  have hend : (survey image strings options).Progress entries d :=
    hphases ▸ hprogress.quiet ⟨hdropped.grows, hdropped.frames⟩
  obtain ⟨_, -, hheads⟩ := hend.exists_heads h.surveyed (hend.frames ▸ hf) hheader
  obtain ⟨info, count, hframe, -, hstatement⟩ := hheads.text
  exact ⟨info, count, hframe, hstatement⟩

/-- The calls of a function that has been decompiled are written with the names that are known for where they lead. -/
theorem callsBy (hf : d.frames[func]? = some f) (hfunc : func ∈ done) :
    ∃ earlier d₀ d₁ turns d₂, (survey image strings options).Rounds earlier d₀ ∧ func ∉ earlier ∧
      d₀.Composes func d₁ turns d₂ ∧
      ∀ call ∈ d.body func, ∀ target, (d.graph.item call).Calls target →
        ∃ t ∈ turns, d₁.graph.Causes call t.id ∧ t.result ∈ d.body func ∧
          (d.graph.item t.result).CallsBy (options.functionName target) := by
  have hfound := h.surveyed
  obtain ⟨earlier, d₀, d₁, turns, d₂, hearlier, hnew, hcomposes, hd₁, hlasts, hlonger⟩ :=
    h.rounds.exists_composes h.charted hfunc
  have haccount := hearlier.account hfound h.charted
  have hf₀ : d₀.frames[func]? = some f := by rwa [haccount.frames, ← h.frames]
  have hf₁ : d₁.frames[func]? = some f := by rwa [hcomposes.frames haccount.well]
  refine ⟨earlier, d₀, d₁, turns, d₂, hearlier, hnew, hcomposes, fun call hcall target htarget => ?_⟩
  -- The call is one of the code, and so it has been open when its function was decompiled.
  have hlt := h.longer.lt_of_isOpcodeItem (Item.isOpcodeItem_of_isOpcode htarget.1)
  have hcode := htarget.of_code (h.longer.code call hlt).symm
  have hopen : call ∈ d₀.openCalls (d₀.body func) := by
    rw [hearlier.openCalls hfound (h.frames ▸ hf) hnew, calls, List.mem_filter]
    have hwell : (survey image strings options).Well := ⟨hfound.sound, hfound.placed.framed.fits⟩
    exact ⟨(mem_body_iff hwell (h.frames ▸ hf)).2 ((has_iff_of_extends hwell h.well h.longer h.frames hlt).1
      ((mem_body_iff h.well hf).1 hcall)), hcode.1⟩
  obtain ⟨t, ht, hcauses, hcallsBy⟩ := hcomposes.callsBy haccount.well hd₁ hf₀ hopen
    (hcode.of_code (haccount.longer.code call hlt))
  have hhas := hcomposes.has_result hd₁ hf₁ t ht
  have hresult : t.result < d₂.graph.size := by
    obtain ⟨_, -, hwithin⟩ := hhas
    exact (hcomposes.combines.advances hd₁.sound).sound.ordered.lt_of_mem hwithin.1.right_mem
  have hframes : d.frames = d₂.frames :=
    (h.frames.trans haccount.frames.symm).trans ((hcomposes.combines.advances hd₁.sound).frames.trans
      (hcomposes.frames haccount.well)).symm
  refine ⟨t, ht, hcauses, ?_, ?_⟩
  · exact (mem_body_iff h.well hf).2 (hhas.mono (hlonger.trans (h.calm 0 0).longer) hframes)
  · rw [(hearlier.lasts hfound h.charted).options, options_survey] at hcallsBy
    exact hcallsBy.congr ((hlasts.trans h.persists.lasts).kind _ hresult hcallsBy.settled)

end Ended

/-- A call leads to its target. -/
theorem leadsTo?_of_calls {item : Item} (h : item.Calls target) (hwhere : target ≠ nowhere) :
    item.leadsTo? = some target := by
  obtain ⟨op, hop, hoperand⟩ := Option.bind_eq_some_iff.1 h.2
  have hopcode : op.opcode = some .call := by
    have hcall := of_decide_eq_true h.1
    rwa [Item.opcode?, hop, Option.bind_some] at hcall
  rw [Item.leadsTo?, hop, Option.bind_some, hopcode, Option.bind_some, hoperand]
  simp [Instruction.jumpTarget?, hwhere]

/-- So a function whose prologue is called is not unused, unless it is the start. -/
theorem entryName_of_calls (hd : d.Well) (hf : f ∈ d.frames) (hother : ¬ f.entry ≤ 1)
    (hcall : (d.graph.item call).Calls f.entry) : d.entryName f.entry = d.options.functionName f.entry := by
  have hwhere : f.entry ≠ nowhere := fun hlast => by
    have hbefore := (hd.fits f hf).entry_lt
    rw [hlast] at hbefore
    exact absurd hbefore (UInt16.not_lt.2 (UInt16.le_iff_toNat_le.2 (Nat.le_of_lt_succ f.stop.toNat_lt)))
  rw [entryName, if_neg hother,
    if_pos ((Graph.leadsAt_iff hd.sound.ordered).2 ⟨call, leadsTo?_of_calls hcall hwhere⟩)]

end Decompilation

open Decompilation in
/-- Which names calls and headers show.  When a conversation has been decompiled each function has the name that is
known for the position of its prologue, or one that says that nothing leads there; only at the beginning of the code is
it the start.  The header of a function shows this name, and all callers that have been noted are names of functions.  A
call is written, by a turn of its function, with the name that is known for the position where it leads.  So it shows
the name of the function if it leads to the prologue of any but the start.  If it leads to a start instruction before
the prologue, it shows what is known for that. -/
theorem calls_named {image : Image} {strings : List String} {options : NamingOptions} {d : Decompilation}
    (h : Pass.decompile (.ofImage image strings options) = .ok () d) :
    (∀ f ∈ d.frames, f.name = d.entryName f.entry) ∧ d.Attributed ∧
    ∀ func f, d.frames[func]? = some f → d.headers func ≠ [] →
      (∀ header ∈ d.headers func, ∃ (info : FunctionInfo) (count : Nat), info.frame = f ∧
        (d.graph.item header).statement? = some (.plain (info.header count))) ∧
      ∃ earlier d₀ d₁ turns d₂, (survey image strings options).Rounds earlier d₀ ∧ func ∉ earlier ∧
        d₀.Composes func d₁ turns d₂ ∧
        ∀ call ∈ d.body func, ∀ target, (d.graph.item call).Calls target →
          (∃ t ∈ turns, d₁.graph.Causes call t.id ∧ t.result ∈ d.body func ∧
            (d.graph.item t.result).CallsBy (options.functionName target)) ∧
          ∀ callee ∈ d.frames, callee.name ≠ startFunction → callee.entry = target →
            callee.name = options.functionName target := by
  obtain ⟨collected, hcollect⟩ := exists_collected h
  obtain ⟨done, last, hended⟩ := exists_ended h
  have hnames : ∀ f ∈ d.frames, f.name = d.entryName f.entry := fun f hf =>
    (name_survey hcollect (hended.frames ▸ hf)).trans (hended.entryName f.entry).symm
  refine ⟨hnames, hended.attributed, fun func f hf hheaders => ⟨fun header => hended.header hf, ?_⟩⟩
  obtain ⟨earlier, d₀, d₁, turns, d₂, hearlier, hnew, hcomposes, hcalls⟩ :=
    hended.callsBy hf (hended.headed func f hf hheaders)
  refine ⟨earlier, d₀, d₁, turns, d₂, hearlier, hnew, hcomposes, fun call hcall target htarget =>
    ⟨hcalls call hcall target htarget, fun callee hcallee hother hentry => ?_⟩⟩
  subst hentry
  have hname := hnames callee hcallee
  rw [hname, entryName_of_calls hended.well hcallee (fun hfirst => ?_) htarget, hended.options_eq]
  rw [entryName, if_pos hfirst] at hname
  exact hother hname

/-- The first of two calls to the second function leads to its prologue and is written with its name. -/
theorem calls_named_calledTwice :
    ∃ d call result f, Pass.decompile (.ofImage Decompilation.calledTwice [] ⟨false, .empty⟩) = .ok () d ∧
      d.headers 0 ≠ [] ∧ call ∈ d.body 0 ∧ (d.graph.item call).Calls 13 ∧ f ∈ d.frames ∧ f.name ≠ startFunction ∧
      f.entry = 13 ∧ result ∈ d.body 0 ∧ (d.graph.item result).CallsBy f.name := by
  obtain ⟨d, hd, hasked⟩ := decompilesTo_iff.1 (show decompilesTo Decompilation.calledTwice (fun d =>
      4 ∈ d.body 0 ∧ (d.graph.item 4).isOpcode .call = true ∧
      (d.graph.item 4).opcodeItem?.bind (·.operand) = some 13 ∧ d.frames.length = 2 ∧
      d.headers 0 ≠ [] ∧ ∃ f ∈ d.frames, f.name ≠ startFunction ∧ f.entry = 13) = true by decide +kernel)
  obtain ⟨hbody, hopcode, htarget, hlength, hheaders, f, hf, hother, hentry⟩ := of_decide_eq_true hasked
  have hcaller : d.frames[0]? = some _ := List.getElem?_eq_getElem (hlength ▸ Nat.zero_lt_two)
  obtain ⟨-, -, hcalls⟩ := calls_named hd
  obtain ⟨-, _, _, _, _, _, -, -, -, hcalls⟩ := hcalls 0 _ hcaller hheaders
  obtain ⟨⟨t, -, -, hresult, hcallsBy⟩, hnamed⟩ := hcalls 4 hbody 13 ⟨hopcode, htarget⟩
  exact ⟨d, 4, t.result, f, hd, hheaders, hbody, ⟨hopcode, htarget⟩, hf, hother, hentry, hresult,
    hnamed f hf hother hentry ▸ hcallsBy⟩

/-- The second call leads to the start instruction before the prologue.  It is written with a name that no function
has. -/
theorem misnamed_calledTwice :
    ∃ d call f, Pass.decompile (.ofImage Decompilation.calledTwice [] ⟨false, .empty⟩) = .ok () d ∧
      call ∈ d.body 0 ∧ (d.graph.item call).Calls 12 ∧ f ∈ d.frames ∧ f.entersAt 12 = true ∧ f.name = "func_000d" ∧
      d.graph.liveStatements.map (·.text) = ["void start() // referenced 1 times", openBrace, "func_000d();",
        "func_000c();", closeBrace ++ " // end-function", "", "void func_000d() // referenced 2 times", openBrace,
        closeBrace ++ " // end-function", ""] := by
  obtain ⟨d, hd, hasked⟩ := decompilesTo_iff.1 (show decompilesTo Decompilation.calledTwice (fun d =>
      5 ∈ d.body 0 ∧ (d.graph.item 5).isOpcode .call = true ∧
      (d.graph.item 5).opcodeItem?.bind (·.operand) = some 12 ∧
      (∃ f ∈ d.frames, f.entersAt 12 = true ∧ f.name = "func_000d") ∧
      d.graph.liveStatements.map (·.text) = ["void start() // referenced 1 times", openBrace, "func_000d();",
        "func_000c();", closeBrace ++ " // end-function", "", "void func_000d() // referenced 2 times", openBrace,
        closeBrace ++ " // end-function", ""]) = true by decide +kernel)
  obtain ⟨hbody, hopcode, htarget, ⟨f, hf, hentersAt, hname⟩, hlines⟩ := of_decide_eq_true hasked
  exact ⟨d, 5, f, hd, hbody, ⟨hopcode, htarget⟩, hf, hentersAt, hname, hlines⟩

end Parley
