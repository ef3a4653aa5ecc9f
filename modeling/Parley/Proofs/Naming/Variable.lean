import Parley.Proofs.Naming.Call
import Parley.Proofs.Naming.Declaration
set_option autoImplicit false

/-!
# Variables and their declarations

The variables of a function are the leaves that its analysis puts into it.  All of them are declared, but not always
once.  When the address of a local variable that is passed to a call becomes a number, the variable is no longer known
to be one, even if it is read elsewhere; and a local variable may be noted as a number and as an array.
-/

namespace Parley

open Fallible

/-! ## What turns forget -/

namespace Pass

variable {func : Nat} {id site : ItemId} {pos : UInt16} {operation : Operation} {operands : Operands}

/-- Only calls change what is known of functions. -/
theorem keeps_combineKind (h : operation.isCall = false) :
    Keeps Decompilation.functions (combineKind func id site pos operation operands) := by
  have hspans : SpansAt (fun d d' => d'.functions = d.functions) site := {
    refl _ := rfl
    trans _ _ _ h h' := h'.trans h
    address _ _ _ _ := rfl
    expression _ _ := rfl
    statement _ _ := rfl }
  rw [Operation.isCall, Bool.or_eq_false_iff, decide_eq_false_iff_not, decide_eq_false_iff_not] at h
  exact fun _ => hspans.combineKind fun hopcode => (hopcode.elim h.1 h.2).elim

end Pass

namespace Decompilation

variable {found d d₁ d₂ d' : Decompilation} {func : Nat} {t : Turn} {turns : List Turn} {indices : List Nat} {n : Nat}

/-- In the turn of a call the address of the local variable with this number, or of an element of the array that begins
there, becomes a number. -/
def InlinesIn (d : Decompilation) (t : Turn) (n : Nat) (d' : Decompilation) : Prop :=
  t.operation.isCall = true ∧ ∃ id ∈ t.operands, (d.expression id).isAddress = true ∧
    (d'.expression id).isAddress = false ∧ Pass.localIndex? (d.expression id).text.toList = some n

/-- In one of the turns the address of this local variable becomes a number. -/
def InlinesLocal (d : Decompilation) (func : Nat) (turns : List Turn) (n : Nat) : Prop :=
  ∃ before t after e e', turns = before ++ t :: after ∧ d.Combines func before e ∧
    Pass.combineItem func t.id e = .ok () e' ∧ e.InlinesIn t n e'

theorem not_inlinesLocal_nil : ¬ d.InlinesLocal func [] n := by
  rintro ⟨before, t, after, e, e', hturns, -⟩
  exact List.append_ne_nil_of_right_ne_nil _ (List.cons_ne_nil t after) hturns.symm

theorem inlinesLocal_cons (run : Pass.combineItem func t.id d = .ok () d₁) (h : d.Consumes func t d₁) :
    d.InlinesLocal func (t :: turns) n ↔ d.InlinesIn t n d₁ ∨ d₁.InlinesLocal func turns n := by
  constructor
  · rintro ⟨before, u, after, e, e', hturns, hbefore, hrun, hinlines⟩
    cases hbefore with
    | done =>
      rw [List.nil_append, List.cons.injEq] at hturns
      obtain ⟨rfl, -⟩ := hturns
      cases run.symm.trans hrun
      exact Or.inl hinlines
    | @turn _ d₁' _ t' before run' _ hrest =>
      rw [List.cons_append, List.cons.injEq] at hturns
      obtain ⟨rfl, hturns⟩ := hturns
      cases run.symm.trans run'
      exact Or.inr ⟨before, u, after, e, e', hturns, hrest, hrun, hinlines⟩
  · rintro (hinlines | ⟨before, u, after, e, e', rfl, hbefore, hrun, hinlines⟩)
    · exact ⟨[], t, turns, d, d₁, rfl, .done d, run, hinlines⟩
    · exact ⟨t :: before, u, after, e, e', rfl, .turn run h hbefore, hrun, hinlines⟩

/-- A turn forgets the types of the local variables whose addresses become numbers. -/
theorem Consumes.exists_forgets (run : Pass.combineItem func t.id d = .ok () d') (h : d.Consumes func t d')
    (hd : d.graph.Sound) : ∃ indices, d.Forgets func indices d' ∧ ∀ n, n ∈ indices ↔ d.InlinesIn t n d' := by
  cases hcall : t.operation.isCall with
  | true =>
    obtain ⟨inlinings, hinlined, hforgets⟩ := h.exists_inlined run hd hcall
    refine ⟨_, hforgets, fun n => ?_⟩
    rw [inlinedLocals, List.mem_filterMap]
    constructor
    · rintro ⟨i, hi, hindex⟩
      have hmem := List.mem_map_of_mem (f := Inlining.argument) hi
      have hoperand := hinlined.once.subset hmem
      obtain ⟨haddress, hvalue⟩ := (hinlined.arguments _ hoperand).1 hmem
      exact ⟨hcall, _, hoperand, haddress, hvalue, hindex⟩
    · rintro ⟨-, id, hoperand, haddress, hvalue, hindex⟩
      obtain ⟨i, hi, rfl⟩ := List.mem_map.1 ((hinlined.arguments id hoperand).2 ⟨haddress, hvalue⟩)
      exact ⟨i, hi, hindex⟩
  | false =>
    obtain ⟨operands, combined, d₁, -, hkind, hfunctions, -⟩ := Pass.exists_combineKind run h
    have hkept : d'.functions = d.functions := hfunctions.trans ((Pass.keeps_combineKind hcall).of_ok hkind)
    refine ⟨[], forgets_of_variableTable (congrArg (·.toList.map (·.vars)) hkept), fun n => ?_⟩
    exact iff_of_false List.not_mem_nil fun hin => Bool.false_ne_true (hcall.symm.trans hin.1)

theorem Combines.exists_forgets (h : Combines func d turns d') (hd : d.graph.Sound) :
    ∃ indices, d.Forgets func indices d' ∧ ∀ n, n ∈ indices ↔ d.InlinesLocal func turns n := by
  induction h with
  | done d =>
    exact ⟨[], forgets_of_variableTable rfl, fun n => iff_of_false List.not_mem_nil not_inlinesLocal_nil⟩
  | @turn d d₁ d' t turns run h rest ih =>
    obtain ⟨first, hfirst, hmem⟩ := h.exists_forgets run hd
    obtain ⟨others, hothers, hmem'⟩ := ih h.advances.sound
    refine ⟨first ++ others, hfirst.trans hothers, fun n => ?_⟩
    rw [List.mem_append, hmem, hmem', inlinesLocal_cons run h]

/-! ## What is known when a function gets its signature -/

/-- The leaves of a function are noted, and then the types of local variables are forgotten. -/
theorem Composes.exists_variableTable (h : d.Composes func d₁ turns d₂) (hd₁ : d₁.Well) :
    ∃ (leaves : List Leaf) (indices : List Nat), d.Gains func leaves d₁ ∧
      (∀ n, n ∈ indices ↔ d₁.InlinesLocal func turns n) ∧
      d₂.variableTable = d.variableTable.modify func fun vars =>
        indices.foldl Variables.forgetLocal (leaves.foldl (fun vars leaf => leaf.note vars) vars) := by
  obtain ⟨callees, hanalyze⟩ := h.analyzed
  obtain ⟨leaves, hgains⟩ := Pass.gaining_analyze func d
  rw [hanalyze, final_ok] at hgains
  obtain ⟨indices, hforgets, hmem⟩ := h.combines.exists_forgets hd₁.sound
  refine ⟨leaves, indices, hgains, hmem, ?_⟩
  rw [hforgets, hgains.noted, List.modify_modify_eq]
  rfl

end Decompilation

/-- When a function has been prepared nothing more is found out about variables in its round. -/
theorem Round.variableTable {func : Nat} {f : Frame} {d before after d' : Decompilation} {w : Recovery}
    (h : Round func f d before w after d') : d'.variableTable = before.variableTable := by
  have hsigned : d'.functions = after.functions := by
    rw [h.signing, runPhases, List.foldl_cons, List.foldl_nil, Phase.run, Pass.addSignature, modify_apply, final_ok]
    split <;> rfl
  rw [Decompilation.variableTable, hsigned, h.cleared.functions, Decompilation.variableTable]

namespace Decompilation

variable {image : Image} {strings : List String} {options : NamingOptions} {f : Frame}
  {d d₁ d₂ before after d' : Decompilation} {w : Recovery} {done : List Nat} {func : Nat} {turns : List Turn}
  {info : FunctionInfo} {leaves : List Leaf} {indices : List Nat}

/-- What is known of the variables of a function is what has been found, until the round of the function. -/
theorem Rounds.getElem?_variableTable (h : (survey image strings options).Rounds done d)
    (hcharted : (survey image strings options).graph.Charted) (hnew : func ∉ done) :
    d.variableTable[func]? = (survey image strings options).variableTable[func]? := by
  induction h with
  | start => rfl
  | @round done d d' func' callees h hreaches _ hrun ih =>
    rw [List.mem_append, List.mem_singleton, not_or] at hnew
    obtain ⟨f, hf⟩ := hreaches.exists_frame
    obtain ⟨before, w, after, hround⟩ := (h.account (surveyed_survey image strings options) hcharted).exists_round
      (surveyed_survey image strings options) hcharted hf hrun
    obtain ⟨d₁, turns, d₂, hcomposes, hd₁, -⟩ := h.composes hcharted hrun
    obtain rfl : before = d₂ := hround.preparing.trans hcomposes.eq_runPhases.symm
    obtain ⟨leaves, indices, -, -, htable⟩ := hcomposes.exists_variableTable hd₁
    rw [hround.variableTable, htable, List.getElem?_modify_ne _ _ (Ne.symm hnew.2), ih hnew.1]

/-- A function that has been found has variables of which nothing is known. -/
theorem exists_ofCount (hf : (survey image strings options).frames[func]? = some f) :
    ∃ count, (survey image strings options).variableTable[func]? = some (.ofCount count) := by
  obtain ⟨info, hinfo, -⟩ := Option.map_eq_some_iff.1 ((getElem?_frames _ func).symm.trans hf)
  obtain ⟨-, count, hvars⟩ := untouched_survey image strings options info
    (Array.mem_toList_iff.2 (Array.mem_of_getElem? hinfo))
  refine ⟨count, ?_⟩
  rw [variableTable, List.getElem?_map, Array.getElem?_toList, hinfo, Option.map_some, hvars]

/-- In its round a function gets a signature that shows its leaves. -/
theorem Rounds.exists_declares (h : (survey image strings options).Rounds done d)
    (hcharted : (survey image strings options).graph.Charted) (hnew : func ∉ done)
    (hround : Round func f d before w after d') (hcomposes : d.Composes func d₁ turns before) (hd₁ : d₁.Well) :
    ∃ leaves indices info header opening lines, d.Gains func leaves d₁ ∧
      (∀ n, n ∈ indices ↔ d₁.InlinesLocal func turns n) ∧ info.frame = f ∧ info.vars.Knows leaves indices ∧
      d'.graph.Declares info header opening lines := by
  have haccount := h.account (surveyed_survey image strings options) hcharted
  obtain ⟨leaves, indices, hgains, hmem, htable⟩ := hcomposes.exists_variableTable hd₁
  have hframes : after.frames = d.frames := hround.framesAfter.trans hround.prepared.frames
  obtain ⟨info, hinfo, rfl⟩ := Option.map_eq_some_iff.1 ((after.getElem?_frames func).symm.trans
    ((congrArg (·[func]?) hframes).trans hround.frame))
  -- What is known has been found out in this round.
  have hknows : info.vars.Knows leaves indices := by
    obtain ⟨count, hcount⟩ := exists_ofCount (haccount.frames ▸ hround.frame)
    have hvars : before.variableTable[func]? = some info.vars := by
      rw [variableTable, ← hround.cleared.functions, List.getElem?_map, Array.getElem?_toList, hinfo, Option.map_some]
    rw [htable, List.getElem?_modify_eq, h.getElem?_variableTable hcharted hnew, hcount] at hvars
    rw [← Option.some.inj hvars]
    exact Variables.knows_foldl count leaves indices
  have hwell := hround.wellAfter haccount.well
  obtain ⟨opening, lines, hdeclares⟩ := Graph.declares_addSignature hwell.sound
    (hwell.fits info.frame (hframes ▸ List.mem_of_getElem? hround.frame)) hknows.numeric
  refine ⟨leaves, indices, info, after.graph.size, opening, lines, hgains, hmem, rfl, hknows, ?_⟩
  rw [hround.signing, runPhases, List.foldl_cons, List.foldl_nil, Phase.run, Pass.addSignature, modify_apply, final_ok,
    hinfo]
  exact hdeclares

/-- Where there is one function only its round is the first. -/
theorem Rounds.eq_found {found : Decompilation} (h : found.Rounds done d) (hlength : found.frames.length = 1)
    (hnew : 0 ∉ done) : d = found := by
  cases h with
  | start => rfl
  | @round done _ _ func _ h hreaches =>
    obtain ⟨f, hf⟩ := hreaches.exists_frame
    have hlt := (List.getElem?_eq_some_iff.1 hf).1
    rw [hlength, Nat.lt_one_iff] at hlt
    exact absurd (hlt ▸ List.mem_append_right done List.mem_cons_self) hnew

/-! ## Where variables come from -/

/-- Behind turns an expression is what one of them has left, or it has been there before. -/
theorem Combines.of_expression (h : Combines func d turns d') {id : ItemId}
    (hid : (d'.graph.item id).expression?.isSome = true) :
    (∃ t ∈ turns, t.result = id) ∨ (d.graph.item id).expression?.isSome = true := by
  induction h with
  | done d => exact Or.inr hid
  | @turn d d₁ d' t turns run h rest ih =>
    rcases ih hid with ⟨t', ht', rfl⟩ | hold
    · exact Or.inl ⟨t', List.mem_cons_of_mem _ ht', rfl⟩
    · by_cases hlt : id < d.graph.size
      · exact Or.inr ((h.advances.grows.kept id hlt).expression.symm.trans hold)
      · have hlt₁ := (Graph.inert_of_expression? hold).lt_size
        rw [h.size] at hlt₁
        exact Or.inl ⟨t, List.mem_cons_self,
          h.result.trans (Nat.le_antisymm (Nat.le_of_not_lt hlt) (Nat.le_of_lt_succ hlt₁))⟩

/-- When a function has been analyzed all expressions in it are its leaves. -/
theorem Rounds.exists_leaf (h : (survey image strings options).Rounds done d)
    (hcharted : (survey image strings options).graph.Charted) (hnew : func ∉ done) (hgains : d.Gains func leaves d₁)
    (honward : d.Onward d₁) (hframes : d₁.frames = d.frames) {id : ItemId} (hhas : d₁.Has func id)
    (hid : (d₁.graph.item id).expression?.isSome = true) :
    ∃ leaf ∈ leaves, (d₁.graph.item id).expression? = some leaf.expression := by
  have hfound := surveyed_survey image strings options
  have haccount := h.account hfound hcharted
  obtain ⟨expression, hexpression⟩ := Option.isSome_iff_exists.1 hid
  by_cases hlt : id < d.graph.size
  · have hold : (d.graph.item id).expression?.isSome = true := by
      rwa [Item.expression?, hgains.kind id hlt, ← Item.expression?] at hid
    obtain ⟨func', hfunc', hhas'⟩ := haccount.expressions id hold
    have hsame := haccount.eq_of_has hfound
      ((has_iff_of_extends haccount.well honward.well honward.longer hframes hlt).1 hhas) hhas'
    exact absurd (hsame ▸ hfunc') hnew
  · have hmem : expression ∈ d₁.graph.expressionsFrom d.graph.size := by
      have hlt₁ := (Graph.inert_of_expression? hid).lt_size
      refine List.mem_filterMap.2 ⟨id, List.mem_range'_1.2 ⟨Nat.le_of_not_lt hlt, ?_⟩, hexpression⟩
      rwa [Nat.add_sub_cancel' hgains.size]
    rw [hgains.made] at hmem
    obtain ⟨leaf, hleaf, rfl⟩ := List.mem_map.1 hmem
    exact ⟨leaf, hleaf, hexpression⟩

end Decompilation

open Decompilation in
/-- How often variables are declared.  When a conversation has been decompiled each function with a header has been
taken apart in its round.  What the turns of its operations leave is made of the leaves that its analysis has put into
it, and some of these are its variables.  The header names the parameters, and the lines below it the local variables
and arrays.  A parameter is declared once, unless its ordinal is zero, which is declared nowhere.  A local variable is
declared once if it is either noted as a number and never inlined or noted as an array, and not if it is inlined in one
place while it is read as a number in another.  No name is declared twice unless a local variable is noted both as a
number and as an array and is never inlined. -/
theorem variables_declared {image : Image} {strings : List String} {options : NamingOptions} {d : Decompilation}
    (h : Pass.decompile (.ofImage image strings options) = .ok () d) {func : Nat} {f : Frame}
    (hf : d.frames[func]? = some f) (hheaders : d.headers func ≠ []) :
    ∃ (earlier : List Nat) (d₀ d₁ d₂ : Decompilation) (turns : List Turn) (leaves : List Leaf) (info : FunctionInfo)
      (header opening : ItemId) (lines : List ItemId),
      (survey image strings options).Rounds earlier d₀ ∧ func ∉ earlier ∧ d₀.Composes func d₁ turns d₂ ∧
      d₁.graph.expressionsFrom d₀.graph.size = leaves.map Leaf.expression ∧
      (∀ id, d₂.Has func id → (d₂.graph.item id).expression?.isSome = true → (∃ t ∈ turns, t.result = id) ∨
        ∃ leaf ∈ leaves, (d₁.graph.item id).expression? = some leaf.expression) ∧
      info.frame = f ∧ header ∈ d.headers func ∧ d.graph.Declares info header opening lines ∧
      info.paramText = String.intercalate ", " (info.vars.paramNames.map ("int " ++ ·)) ∧
      info.declarations = info.vars.scalarNames.map (fun name => "int " ++ name ++ ";") ++
        (info.vars.arrays.map fun array =>
          "int " ++ Pass.localName array.start ++ "[" ++ Text.decimal array.size ++ "];") ∧
      info.vars.Tallies leaves (d₁.InlinesLocal func turns) := by
  obtain ⟨done, last, hended⟩ := exists_ended h
  have hfound := hended.surveyed
  obtain ⟨earlier, d₀, callees, f', before, w, after, d', hearlier, hnew, hrun, hround, hpersists⟩ :=
    hended.rounds.round_of_mem hfound hended.charted (hended.headed func f hf hheaders)
  have haccount := hearlier.account hfound hended.charted
  obtain rfl : f' = f := by
    have hframe := hround.frame
    rw [haccount.frames, ← hended.frames, hf] at hframe
    exact (Option.some.inj hframe).symm
  obtain ⟨d₁, turns, d₂, hcomposes, hd₁, -⟩ := hearlier.composes hended.charted hrun
  obtain rfl : before = d₂ := hround.preparing.trans hcomposes.eq_runPhases.symm
  obtain ⟨leaves, indices, info, header, opening, lines, hgains, hmem, rfl, hknows, hdeclares⟩ :=
    hearlier.exists_declares hended.charted hnew hround hcomposes hd₁
  replace hdeclares := (hpersists.trans hended.persists).declares hknows.numeric hdeclares
  have honward : d₀.Onward d₁ := by
    obtain ⟨_, hanalyze⟩ := hcomposes.analyzed
    have honward := haccount.well.analyze func
    rwa [hanalyze, final_ok] at honward
  refine ⟨earlier, d₀, d₁, before, turns, leaves, info, header, opening, lines, hearlier, hnew, hcomposes, hgains.made,
    fun id hhas hid => ?_, rfl, ?_, hdeclares, Variables.paramText_eq hknows.numeric,
    Variables.declarations_eq hknows.numeric, hknows.tallies hmem⟩
  · refine (hcomposes.combines.of_expression hid).imp_right fun hold => ?_
    have hcombined := hcomposes.combines.advances hd₁.sound
    have hwell := hround.wellBefore haccount.well
    refine hearlier.exists_leaf hended.charted hnew hgains honward (hcomposes.frames haccount.well) ?_ hold
    exact (has_iff_of_extends hd₁ hwell hcombined.grows.extends hcombined.frames
      (Graph.inert_of_expression? hold).lt_size).1 hhas
  · exact (mem_headers hended.well.sound.ordered hf).2
      ⟨opening, hdeclares.heads.adjoins, hdeclares.heads.role, hdeclares.heads.pos⟩

/-- A conversation of one function, which may call an imported one. -/
def oneFunction (code : List Instruction) : Image :=
  { Image.ofCode (Source.encode (Source.prologueCode 2 ++ code ++ Source.epilogueCode)).toArray with
    functions := .ofList [(0, ⟨"get_quest", .int⟩)] }

/-- A parameter is copied to a local variable. -/
def copyingParam (offset : UInt16) : Image :=
  oneFunction [⟨.pushiEff, some 1⟩, ⟨.pushiEff, some offset⟩, ⟨.fetchm, none⟩, ⟨.fetchm, none⟩, ⟨.sto, none⟩]

/-- Only a parameter is shown with this name. -/
theorem Leaf.eq_param {leaf : Leaf} (h : leaf.expression = .atom "param1" true) : leaf = .param 1 := by
  have hlocal {index : UInt16} (rest : String) (htext : Pass.localName index ++ rest = "param1") : False := by
    have hheads := congrArg (fun text : String => text.toList.head?) htext
    simp [Pass.localName, Pass.localMark] at hheads
  cases leaf with
  | number value => cases h
  | global name => cases h
  | scalar index loaded =>
    rw [expression, Expr.atom.injEq] at h
    exact (hlocal "" (by rw [String.append_empty, h.1])).elim
  | param ordinal =>
    rw [expression, Expr.atom.injEq] at h
    have hsame : ordinal.toNat = 1 := Variables.injective_toString "param" h.1
    exact congrArg Leaf.param (UInt16.toNat_inj.1 hsame)
  | element start index =>
    rw [expression, Pass.elementText, Expr.atom.injEq, String.append_assoc, String.append_assoc] at h
    exact (hlocal _ h.1).elim

/-- The first parameter is declared once, in the header. -/
theorem variables_declared_copyingParam :
    ∃ (d : Decompilation) (f : Frame) (header : ItemId) (info : FunctionInfo),
      Pass.decompile (.ofImage (copyingParam 65534) [] ⟨false, .empty⟩) = .ok () d ∧ d.frames[0]? = some f ∧
      d.headers 0 ≠ [] ∧ header ∈ d.headers 0 ∧ info.frame = f ∧ info.vars.declaredNames.count "param1" = 1 ∧
      d.graph.liveStatements.map (·.text) = ["void start(int param1) // referenced 1 times", openBrace,
        "int local_1;", "local_1 = param1;", closeBrace ++ " // end-function", ""] := by
  obtain ⟨d, hd, hasked⟩ := decompilesTo_iff.1 (show decompilesTo (copyingParam 65534) (fun d =>
      d.frames.length = 1 ∧ d.headers 0 ≠ [] ∧ d.graph.liveStatements.map (·.text) =
        ["void start(int param1) // referenced 1 times", openBrace, "int local_1;", "local_1 = param1;",
          closeBrace ++ " // end-function", ""]) = true by decide +kernel)
  obtain ⟨hlength, hheaders, hlines⟩ := of_decide_eq_true hasked
  have hf : d.frames[0]? = some _ := List.getElem?_eq_getElem (hlength ▸ Nat.zero_lt_one)
  obtain ⟨earlier, d₀, d₁, d₂, turns, leaves, info, header, opening, lines, hearlier, hnew, hcomposes, hmade, -, hframe,
    hheader, -, -, -, htallies⟩ := variables_declared hd hf hheaders
  obtain ⟨_, _, hended⟩ := Decompilation.exists_ended hd
  obtain rfl := hearlier.eq_found (hended.frames ▸ hlength) hnew
  obtain ⟨_, hanalyze⟩ := hcomposes.analyzed
  -- What the analysis puts into the function can be computed.
  have hleaves : Expr.atom "param1" true ∈ (final (Pass.analyze 0 (Decompilation.survey (copyingParam 65534) []
      ⟨false, .empty⟩))).graph.expressionsFrom (Decompilation.survey (copyingParam 65534) []
        ⟨false, .empty⟩).graph.size := by
    decide +kernel
  rw [hanalyze, final_ok, hmade] at hleaves
  obtain ⟨leaf, hleaf, hparam⟩ := List.mem_map.1 hleaves
  rw [Leaf.eq_param hparam] at hleaf
  exact ⟨d, _, header, info, hd, hf, hheaders, hheader, hframe, (htallies.param 1 hleaf).2 (by decide), hlines⟩

/-- A local variable is not declared when it is read behind a call that has got a number in its place, a variable that
is noted as a number and as an array is declared twice, and there is no declaration of a parameter with the ordinal
zero. -/
theorem misdeclared_oneFunction :
    (∃ d, Pass.decompile (.ofImage (oneFunction [⟨.pushiEff, some 1⟩, ⟨.pushi, some 1⟩, ⟨.sto, none⟩,
        ⟨.pushiEff, some 1⟩, ⟨.pushi, some 1⟩, ⟨.calli, some 0⟩, ⟨.pop, none⟩, ⟨.pop, none⟩, ⟨.pushiEff, some 1⟩,
        ⟨.fetchm, none⟩, ⟨.saveReg, none⟩, ⟨.pop, none⟩]) [] ⟨false, .empty⟩) = .ok () d ∧
      d.graph.liveStatements.map (·.text) = ["int start() // referenced 1 times", openBrace, "get_quest(1);",
        "return local_1;", closeBrace ++ " // end-function", ""]) ∧
    (∃ d, Pass.decompile (.ofImage (oneFunction [⟨.pushiEff, some 1⟩, ⟨.pushi, some 1⟩, ⟨.sto, none⟩,
        ⟨.pushi, some 1⟩, ⟨.pushiEff, some 1⟩, ⟨.offset, none⟩, ⟨.pushi, some 5⟩, ⟨.sto, none⟩]) []
          ⟨false, .empty⟩) = .ok () d ∧
      d.graph.liveStatements.map (·.text) = ["void start() // referenced 1 times", openBrace, "int local_1;",
        "int local_1[1];", "local_1 = 1;", "local_1[1] = 5;", closeBrace ++ " // end-function", ""]) ∧
    ∃ d, Pass.decompile (.ofImage (copyingParam 65535) [] ⟨false, .empty⟩) = .ok () d ∧
      d.graph.liveStatements.map (·.text) = ["void start() // referenced 1 times", openBrace, "int local_1;",
        "local_1 = param0;", closeBrace ++ " // end-function", ""] := by
  have hshown {image : Image} {lines : List String}
      (hasked : decompilesTo image (fun d => d.graph.liveStatements.map (·.text) = lines) = true) :
      ∃ d, Pass.decompile (.ofImage image [] ⟨false, .empty⟩) = .ok () d ∧
        d.graph.liveStatements.map (·.text) = lines := by
    obtain ⟨d, hd, hlines⟩ := decompilesTo_iff.1 hasked
    exact ⟨d, hd, of_decide_eq_true hlines⟩
  refine ⟨hshown ?_, hshown ?_, hshown ?_⟩ <;> decide +kernel

end Parley
