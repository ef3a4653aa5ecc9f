import Parley.Proofs.Effect.Argument
import Parley.Proofs.Source.Decompile
import Parley.Proofs.Text.Encoding
set_option autoImplicit false

/-!
# The number that a call sees

The number that takes the place of an argument has been stored by a turn before the call, into the variable whose
address the argument was.  It is what has been stored there last if the last store is still there for the argument:
stores that earlier calls have made comments are passed over, and so are those that stand between the argument and the
call.
-/

namespace Parley

open Fallible Source

/-! ## What stays through turns -/

namespace Decompilation

variable {d d₁ d₂ d' : Decompilation} {func : Nat} {t u : Turn} {turns front behind : List Turn} {id : ItemId}

/-- An expression that has been consumed stays as it is. -/
theorem Combines.item_of_spent (h : Combines func d turns d') (hprocessed : (d.graph.item id).processed = true)
    (hexpression : (d.graph.item id).expression?.isSome = true) : d'.graph.item id = d.graph.item id := by
  have hinert := Graph.inert_of_expression? hexpression
  induction h with
  | done d => rfl
  | @turn d d₁ d' t turns run h rest ih =>
    have hsame : d₁.graph.item id = d.graph.item id := by
      refine h.others id hinert.lt_size (fun hmem => ?_) fun hmem => ?_
      · rcases List.mem_cons.1 hmem with rfl | hmem
        · have hopen := h.isOpen
          rw [Item.openOperation?, hprocessed, if_pos rfl] at hopen
          cases hopen
        · have hopen := h.isOpenExpression_of_mem hmem
          rw [Item.isOpenExpression, hprocessed] at hopen
          cases hopen
      · obtain ⟨-, ⟨_, -, hinlines⟩, -⟩ := h.stores id hmem
        exact hinlines.statement?_ne_none hinert.statement
    rw [ih (hsame ▸ hprocessed) (hsame ▸ hexpression) (Graph.inert_of_expression? (hsame ▸ hexpression)), hsame]

/-- What stands for an operand stays as the turn has left it.  If there are too few operands the first item of the
listing stands for one, which is no expression. -/
theorem Consumes.expression_operand (h : d.Consumes func t d₁) (rest : Combines func d₁ turns d')
    (hzero : (d.graph.item 0).expression? = none) (index : Nat) :
    d'.expression (t.operands.getD index 0) = d₁.expression (t.operands.getD index 0) := by
  unfold expression
  rw [List.getD_eq_getElem?_getD]
  cases hid : t.operands[index]? with
  | some id =>
    have hmem := List.mem_of_getElem? hid
    have hopen := h.isOpenExpression_of_mem hmem
    rw [Item.isOpenExpression, Bool.and_eq_true] at hopen
    have hlt := (Graph.site_of_isOpenExpression (h.isOpenExpression_of_mem hmem)).lt_size
    rw [Option.getD_some, rest.item_of_spent (h.marked id (List.mem_cons_of_mem _ hmem))
      ((h.advances.grows.kept id hlt).expression.trans hopen.2)]
  | none =>
    have hnone := h.expression?_zero hzero
    rw [Option.getD_none, hnone, rest.expression?_zero hnone]

/-- A statement changes only if it becomes a comment. -/
theorem Combines.item_of_statement? (h : Combines func d turns d') (hid : (d.graph.item id).statement?.isSome = true)
    (hstores : ∀ w ∈ turns, id ∉ w.stores) : d'.graph.item id = d.graph.item id := by
  induction h with
  | done d => rfl
  | @turn d d₁ d' t turns run h rest ih =>
    have hlt : id < d.graph.size := Graph.lt_size_of_kind fun hkind => by simp [Item.statement?, hkind] at hid
    have hsame : d₁.graph.item id = d.graph.item id :=
      h.others id hlt (h.notMem_of_statement? hid) (hstores t List.mem_cons_self)
    rw [ih (hsame ▸ hid) fun w hw => hstores w (List.mem_cons_of_mem _ hw), hsame]

/-- A line that begins with the name of a local variable stays as it has been left. -/
theorem Combines.item_of_namesLocal (h : Combines func d turns d') (hlt : id < d.graph.size)
    (hid : (d'.graph.item id).namesLocal = true) : d'.graph.item id = d.graph.item id := by
  rcases h.of_namesLocal hid with ⟨u, hu, rfl⟩ | ⟨-, hsame⟩
  · exact absurd hlt (Nat.not_lt_of_le (h.size_le_result hu))
  · exact hsame

/-- A line that begins with the name of a local variable has not become a comment. -/
theorem Combines.notMem_stores (h : Combines func d turns d') (hid : (d'.graph.item id).namesLocal = true) :
    ∀ w ∈ turns, id ∉ w.stores := by
  induction h with
  | done d => exact fun _ hw => absurd hw List.not_mem_nil
  | @turn d d₁ d' t turns run h rest ih =>
    refine List.forall_mem_cons.2 ⟨fun hmem => ?_, ih hid⟩
    obtain ⟨-, ⟨_, -, hinlines⟩, hitem⟩ := h.stores id hmem
    have hlt := h.advances.grows.lt_size (Graph.lt_size_of_namesLocal hinlines.namesLocal)
    rw [rest.item_of_namesLocal hlt hid, hitem, Item.namesLocal_inlined] at hid
    cases hid

/-! ## Stores -/

/-- The turn is that of a store to the place with a name. -/
def StoresTo (d : Decompilation) (t : Turn) (name : String) : Prop :=
  t.operation.opcode = .sto ∧ (d.expression t.target).text = name

/-- What a turn stores, as it is written. -/
def storedText (d : Decompilation) (t : Turn) : List Char :=
  Text.dropEndWhile (· == ';') (d.expression t.value).text.toList

/-- The last of some turns that is that of a store to the place with a name. -/
def LastStore (d : Decompilation) (turns : List Turn) (name : String) (u : Turn) : Prop :=
  ∃ front behind, turns = front ++ u :: behind ∧ d.StoresTo u name ∧ ∀ w ∈ behind, ¬ d.StoresTo w name

/-- The number for an argument is what a turn has stored, and what the turn has left becomes a comment. -/
structure Gives (d : Decompilation) (u : Turn) (i : Inlining) : Prop where
  store : u.result = i.store
  value : d.storedText u = i.value

/-- What a turn has left is still there for an argument of a call: no call before has made it a comment, no other
argument takes it, and it stands before the argument. -/
structure Remains (d : Decompilation) (before : List Turn) (inlinings : List Inlining) (i : Inlining) (u : Turn) :
    Prop where
  shown : ∀ w ∈ before, u.result ∉ w.stores
  free : ∀ j ∈ inlinings, j.store = u.result → j = i
  inFront : Precedes d.graph.order u.result i.argument

/-- A line that begins with a local variable without marks in its name, and then stores a number, is left by a store to
that variable of that number. -/
theorem Consumes.storesTo_of_numeral {name : String} {statement : Statement} {rest : List Char}
    (run : Pass.combineItem func t.id d = .ok () d₁) (h : d.Consumes func t d₁) (hlater : Combines func d₁ turns d')
    (hzero : (d.graph.item 0).expression? = none) (hname : Pass.Markless name)
    (hlocal : beginsWith Pass.localMark name = true)
    (hstatement : (d₁.graph.item t.result).statement? = some statement)
    (htext : statement.text.toList = (name ++ Pass.storeMark).toList ++ rest)
    (hnumeral : Pass.isNumeral (Text.dropEndWhile (· == ';') rest) = true) :
    d'.StoresTo t name ∧ d'.storedText t = Text.dropEndWhile (· == ';') rest := by
  have hleaves : t.operation.leavesExpression = false := by
    have hmade := h.made.2.2
    rwa [hstatement, Option.isSome_some, eq_comm, Bool.not_eq_true'] at hmade
  by_cases hsto : t.operation.opcode = .sto
  · obtain ⟨-, stored, hplain, hstored⟩ := Pass.statement_of_sto run h hsto
    cases hstatement.symm.trans hplain
    rw [Statement.plain, String.toList_append] at htext
    obtain ⟨hplace, hrest⟩ := Pass.eq_of_numeral hname hnumeral htext.symm
    have hvalue : stored = (d₁.expression t.value).text ++ ";" := by
      refine hstored.resolve_right fun hquote => ?_
      rw [hrest] at hquote
      have hcases := Pass.forall_of_numeral hnumeral '"' (List.mem_of_head? hquote)
      revert hcases
      decide
    refine ⟨⟨hsto, ?_⟩, ?_⟩
    · rw [← hplace]
      exact congrArg Expr.text (h.expression_operand hlater hzero _)
    · have hsame : d'.expression t.value = d₁.expression t.value := h.expression_operand hlater hzero _
      rw [storedText, hsame, ← hrest, hvalue, String.toList_append]
      exact (Text.dropEndWhile_concat (by decide)).symm
  · obtain ⟨text, hplain, htext' | ⟨front, hcall⟩⟩ := Pass.statement_of_ne_sto run h hleaves hsto
    · cases hstatement.symm.trans hplain
      have hbegins := beginsWith_of_prefix hlocal ⟨rest, htext.symm⟩
      rw [Statement.plain, htext'] at hbegins
      cases hbegins
    · cases hstatement.symm.trans hplain
      rw [Statement.plain, hcall, String.toList_append] at htext
      rw [Pass.not_isNumeral_of_call htext] at hnumeral
      cases hnumeral

/-! ### The stores of a run -/

/-- Statements are left in the order of their turns. -/
theorem Combines.precedes_results (h : Combines func d (front ++ u :: behind) d') (hd : d.graph.Sound)
    (hids : ((front ++ u :: behind).map (·.id)).Sublist d.graph.order) (ht : t ∈ front)
    (hleaves : t.operation.leavesExpression = false) (hleaves' : u.operation.leavesExpression = false) :
    Precedes d'.graph.order t.result u.result := by
  have harranged : Arranged d.graph.size (front ++ u :: behind) d' := (Arranged.start hd).combines h hids
  refine harranged.statements t (List.mem_append_left _ ht) u (by simp) hleaves hleaves' ?_
  have hbefore : Precedes ((front ++ u :: behind).map (·.id)) t.id u.id := by
    obtain ⟨near, far, rfl⟩ := List.append_of_mem ht
    exact precedes_iff.2 ⟨near.map (·.id), (far ++ u :: behind).map (·.id), by simp, by simp⟩
  exact hbefore.mono (hids.trans (h.advances hd).grows.order)

/-- What stores to a variable has left says so, as long as it is no comment. -/
theorem Combines.assigns_of_sto {name : String} (h : Combines func d (front ++ u :: behind) d₁)
    (hlater : Combines func d₁ turns d') (hzero : (d.graph.item 0).expression? = none) (hstores : d'.StoresTo u name)
    (hshown : ∀ w ∈ behind, u.result ∉ w.stores) : d₁.graph.Assigns name u.result := by
  obtain ⟨e, e', hfront, hrun, hconsumes, hbehind⟩ := h.exists_turn
  obtain ⟨-, stored, hstatement, -⟩ := Pass.statement_of_sto hrun hconsumes hstores.1
  have hplace : (e'.expression u.target).text = name := by
    have hsame := hconsumes.expression_operand (hbehind.append hlater) (hfront.expression?_zero hzero)
      (if u.operation.swapsStore then 0 else 1)
    exact (congrArg Expr.text hsame).symm.trans hstores.2
  rw [hplace] at hstatement
  refine ⟨.plain (name ++ Pass.storeMark ++ stored), ?_, stored.toList, ?_⟩
  · rw [hbehind.item_of_statement? (by rw [hstatement]; rfl) hshown, hstatement]
  · exact String.toList_append.symm

/-! ## An argument of a call -/

section Argument

variable {e e' : Decompilation} {before after : List Turn} {inlinings : List Inlining} {i : Inlining}

/-- The store for an argument stands before it in the function, and the argument stands before the call. -/
theorem Inlined.precedes (hinlined : e.Inlined func t inlinings e') (hi : i ∈ inlinings) (hturn : e.Consumes func t e')
    (hordered : e.graph.Ordered) (hfront : Precedes e.graph.order (e.bounds func).1 t.id) :
    Precedes e.graph.order (e.bounds func).1 i.store ∧ Precedes e.graph.order i.store i.argument ∧
      Precedes e.graph.order i.argument t.id := by
  have hargument : i.argument ∈ t.operands := hinlined.once.subset (List.mem_map_of_mem hi)
  rw [hturn.operands] at hargument
  obtain ⟨hbehind, hbefore⟩ :=
    (hordered.mem_backBetween hfront).1 (List.mem_of_mem_filter (List.mem_of_mem_take hargument))
  obtain ⟨hstart, hstore⟩ := (hordered.mem_backBetween hbehind).1 (hinlined.supplied i hi).inlines.within
  exact ⟨hstart, hstore, hbefore⟩

variable (hbefore : Combines func d before e) (run : Pass.combineItem func t.id e = .ok () e')
  (hturn : e.Consumes func t e') (hafter : Combines func e' after d₂) (hzero : (d.graph.item 0).expression? = none)
  (hinlined : e.Inlined func t inlinings e') (hi : i ∈ inlinings)
  (hname : Pass.Markless (e.expression i.argument).text) (hnew : (d.graph.item i.store).namesLocal = false)

include hbefore run hturn hafter hzero hinlined hi hname hnew

/-- The number for an argument has been stored by a turn before the call, to the variable whose address the argument
was. -/
theorem exists_gives : ∃ v ∈ before, d₂.StoresTo v (e.expression i.argument).text ∧ d₂.Gives v i := by
  obtain ⟨hinlines, ⟨statement, rest, hstatement, htext, hvalue⟩, hnumeral, -⟩ := hinlined.supplied i hi
  have hnames := hinlines.namesLocal
  obtain ⟨v, hv, hresult⟩ := (hbefore.of_namesLocal hnames).resolve_right fun ⟨_, hsame⟩ => by
    rw [hsame, hnew] at hnames
    cases hnames
  obtain ⟨front, behind, rfl⟩ := List.append_of_mem hv
  obtain ⟨e₁, e₂, hfront, hrun, hconsumes, hbehind⟩ := hbefore.exists_turn
  have hsame : e.graph.item i.store = e₂.graph.item i.store :=
    hbehind.item_of_namesLocal (hresult ▸ hconsumes.result_lt_size) hnames
  rw [hsame, ← hresult] at hstatement
  obtain ⟨hstores, hstored⟩ := hconsumes.storesTo_of_numeral hrun (hbehind.append (.turn run hturn hafter))
    (hfront.expression?_zero hzero) hname hinlines.isLocal hstatement htext (hvalue ▸ hnumeral)
  exact ⟨v, hv, hstores, hresult, hstored.trans hvalue⟩

/-- The number for an argument is what has been stored last before the call if that is still there for the argument. -/
theorem gives_iff (hd : d.graph.Sound) (hids : (before.map (·.id)).Sublist d.graph.order)
    (hfront : Precedes e.graph.order (e.bounds func).1 t.id)
    (hlast : d₂.LastStore before (e.expression i.argument).text u) :
    d₂.Gives u i ↔ e.Remains before inlinings i u := by
  have hsupplied := hinlined.supplied i hi
  have hordered := (hbefore.advances hd).sound.ordered
  constructor
  · intro hgives
    refine ⟨hgives.store ▸ hbefore.notMem_stores hsupplied.inlines.namesLocal, fun j hj hstore => ?_, ?_⟩
    · exact List.inj_on_of_nodup_map hinlined.distinct hj hi (hstore.trans hgives.store)
    · rw [hgives.store]
      exact (hinlined.precedes hi hturn hordered hfront).2.1
  · intro hremains
    obtain ⟨v, hv, hfound, hgives⟩ := exists_gives hbefore run hturn hafter hzero hinlined hi hname hnew
    obtain ⟨front, behind, rfl, hstores, hnone⟩ := hlast
    rcases List.mem_append.1 hv with hv | hv
    · -- Then what is found stands before what has been stored last, which is nearer.
      have hleaves {w : Turn} (hw : w.operation.opcode = .sto) : w.operation.leavesExpression = false := by
        rw [Operation.leavesExpression, hw]
      have hprecedes := hbefore.precedes_results hd hids hv (hleaves hfound.1) (hleaves hstores.1)
      have hassigns := hbefore.assigns_of_sto (.turn run hturn hafter) hzero hstores fun w hw =>
        hremains.shown w (by simp [hw])
      rw [hgives.store] at hprecedes
      have htaken := (hinlined.stores u.result).1 (hsupplied.nearest u.result hprecedes hremains.inFront hassigns)
      obtain ⟨j, hj, hstore⟩ := List.mem_map.1 htaken
      rw [← hremains.free j hj hstore, hstore] at hprecedes
      exact absurd hprecedes fun h => h.irrefl hordered.nodup
    · rcases List.mem_cons.1 hv with rfl | hv
      · exact hgives
      · exact absurd hfound (hnone v hv)

end Argument

end Decompilation

/-! ## The calls of a function -/

/-- Which number takes the place of an argument.  Let a function be decompiled in a round.  Its operations have their
turns in the order of the instructions whose effects they show.  In the turn of a call some of the arguments that are
addresses of local variables are replaced, and the stores that supply numbers for them, one for each, are all that
become comments.  Such a number is what a turn before the call has stored to the variable.  It is what has been stored
there last before the call exactly if that store is still there for the argument. -/
theorem inlines_nearest_store {image : Image} {strings : List String} {options : NamingOptions} {done : List Nat}
    {d d' : Decompilation} {func : Nat} {callees : List Nat}
    (h : (Decompilation.survey image strings options).Rounds done d)
    (hcharted : (Decompilation.survey image strings options).graph.Charted)
    (hreaches : (Decompilation.survey image strings options).Reaches func) (hnew : func ∉ done)
    (hrun : Pass.decompileFunction func d = .ok callees d') :
    ∃ d₁ turns d₂, d.Composes func d₁ turns d₂ ∧
      (∀ e, d.graph.size ≤ e → (d₁.graph.item e).effect?.isSome = true → ∃ c, d₁.graph.Causes c e) ∧
      turns.Pairwise (fun t t' => ∀ c c', d₁.graph.Causes c t.id → d₁.graph.Causes c' t'.id →
        (d₁.graph.item c).pos < (d₁.graph.item c').pos) ∧
      ∀ before t after, turns = before ++ t :: after → t.operation.isCall = true →
        ∃ e e' inlinings, d₁.Combines func before e ∧ Pass.combineItem func t.id e = .ok () e' ∧
          e.Consumes func t e' ∧ e'.Combines func after d₂ ∧ e.Inlined func t inlinings e' ∧
          ∀ i ∈ inlinings, Pass.Markless (e.expression i.argument).text →
            (∃ v ∈ before, d₂.StoresTo v (e.expression i.argument).text ∧ d₂.Gives v i) ∧
            ∀ u, d₂.LastStore before (e.expression i.argument).text u →
              (d₂.Gives u i ↔ e.Remains before inlinings i u) := by
  obtain ⟨d₁, turns, d₂, hcomposes, hd₁, hzero⟩ := h.composes hcharted hrun
  have hfound := Decompilation.surveyed_survey image strings options
  have haccount := h.account hfound hcharted
  obtain ⟨f, hf⟩ := hreaches.exists_frame
  have hf₁ : d₁.frames[func]? = some f := by
    rwa [hcomposes.frames haccount.well, haccount.frames]
  have hbounds := Decompilation.bounds_of_getElem? hf₁
  have htraced := Pass.traced_analyze haccount.well.sound func
  obtain ⟨_, hanalyze⟩ := hcomposes.analyzed
  rw [hanalyze, final_ok] at htraced
  have hids : (turns.map (·.id)).Sublist d₁.graph.order := hcomposes.ids ▸ d₁.sublist_openOperations func
  refine ⟨d₁, turns, d₂, hcomposes, htraced.causes, ?_, fun before t after hturns hcall => ?_⟩
  · refine List.pairwise_iff_forall_sublist.2 fun {t t'} hsub c c' hcause hcause' => ?_
    have hprecedes : Precedes d₁.graph.order t.id t'.id := (hsub.map Turn.id).trans hids
    exact hcause.pos_lt hcause' hd₁.sound hprecedes
  · subst hturns
    obtain ⟨e, e', hbefore, run, hturn, hafter⟩ := hcomposes.combines.exists_turn
    have hadvances := hbefore.advances hd₁.sound
    have hd := hadvances.sound
    obtain ⟨inlinings, hinlined, -⟩ := hturn.exists_inlined run hd hcall
    have hwithin := hcomposes.within hd₁ hf₁ (List.mem_append_right before List.mem_cons_self)
    have hfront : Precedes e.graph.order (e.bounds func).1 t.id := by
      rw [hadvances.bounds, hbounds]
      exact hwithin.1.mono hadvances.grows.order
    refine ⟨e, e', inlinings, hbefore, run, hturn, hafter, hinlined, fun i hi hname => ?_⟩
    have hnames : (d₁.graph.item i.store).namesLocal = false := by
      by_contra hnames
      have hlt := Graph.lt_size_of_namesLocal (Bool.not_eq_false _ ▸ hnames)
      obtain ⟨hstart, hstore, hargument⟩ := hinlined.precedes hi hturn hd.ordered hfront
      have hstop := (hargument.trans hd.ordered.nodup (hwithin.2.mono hadvances.grows.order))
      rw [hadvances.bounds, hbounds] at hstart
      have hhas : d₁.graph.Within f.startItem f.endItem i.store :=
        (hadvances.grows.extends.within_iff hd₁.sound.ordered hd.ordered (hd₁.fits f (List.mem_of_getElem? hf₁)).ordered
          hlt).1 ⟨hstart, hstore.trans hd.ordered.nodup hstop⟩
      exact hnames (h.namesLocal_analyzed hcharted hnew hcomposes ⟨f, hf₁, hhas⟩)
    refine ⟨Decompilation.exists_gives hbefore run hturn hafter hzero hinlined hi hname hnames, fun u hlast => ?_⟩
    exact Decompilation.gives_iff hbefore run hturn hafter hzero hinlined hi hname hnames hd₁.sound
      (((List.sublist_append_left before (t :: after)).map _).trans hids) hfront hlast

/-! ## Two stores and two calls -/

/-- The address of a local variable is passed to a call. -/
def passCode : List Instruction :=
  [⟨.pushiEff, some 1⟩, ⟨.pushi, some 1⟩, ⟨.calli, some 0⟩, ⟨.pop, none⟩, ⟨.pop, none⟩]

/-- A function that stores two numbers into a local variable, one after the other, and then passes it to two calls. -/
def storedTwice : Image :=
  { Image.ofCode (encode (prologueCode 2 ++ ([⟨.pushiEff, some 1⟩, ⟨.pushi, some 1⟩, ⟨.sto, none⟩, ⟨.pushiEff, some 1⟩,
      ⟨.pushi, some 2⟩, ⟨.sto, none⟩] ++ passCode ++ passCode) ++ epilogueCode)).toArray with
    functions := .ofList [(0, ⟨"get_quest", .int⟩)] }

/-- The functions of the image have been found. -/
def storedTwiceFound : Decompilation := Decompilation.survey storedTwice [] ⟨false, .empty⟩

/-- Some operations of the function have been combined. -/
def storedTwiceAfter (ids : List ItemId) : Decompilation :=
  ids.foldl (fun d id => final (Pass.combineItem 0 id d)) (final (Pass.analyze 0 storedTwiceFound))

/-- The states between the turns can be computed. -/
theorem eq_storedTwiceAfter {d₁ d₂ e : Decompilation} {turns done : List Turn}
    (h : storedTwiceFound.Composes 0 d₁ turns d₂) (hdone : d₁.Combines 0 done e) :
    e = storedTwiceAfter (done.map (·.id)) := by
  obtain ⟨_, hanalyze⟩ := h.analyzed
  rw [hdone.eq_foldl, storedTwiceAfter, hanalyze, final_ok]

/-- The turns of the function. -/
theorem turns_storedTwice {d₁ d₂ : Decompilation} {turns : List Turn} (h : storedTwiceFound.Composes 0 d₁ turns d₂) :
    ∃ one two first second, turns = [one, two, first, second] ∧
      [one.id, two.id, first.id, second.id] = [27, 30, 32, 34] ∧ two.result = 36 ∧
      (first.operands = [31] ∧ first.operation.isCall = true) ∧
      (second.operands = [33] ∧ second.operation.isCall = true ∧ second.operation.paramTypes = []) ∧
      d₂.StoresTo two "local_1" ∧ d₂.storedText two = ['2'] := by
  have hanalyzed : (storedTwiceAfter []).openOperations 0 = [27, 30, 32, 34] ∧ (storedTwiceAfter []).graph.size = 35 ∧
      Decompilation.operandsInTurn 0 [27, 30, 32, 34] (storedTwiceAfter []) = [[26, 25], [29, 28], [31], [33]] := by
    decide +kernel
  have hcombined : (((storedTwiceAfter [27, 30, 32, 34]).graph.item 30).operation?.map fun operation =>
        (operation.opcode, operation.swapsStore)) = some (.sto, false) ∧
      (((storedTwiceAfter [27, 30, 32, 34]).graph.item 32).operation?.map (·.isCall)) = some true ∧
      (((storedTwiceAfter [27, 30, 32, 34]).graph.item 34).operation?.map fun operation =>
        (operation.isCall, operation.paramTypes)) = some (true, []) ∧
      ((storedTwiceAfter [27, 30, 32, 34]).expression 28).text = "local_1" ∧
      ((storedTwiceAfter [27, 30, 32, 34]).expression 29).text = "2" := by
    decide +kernel
  have hsound : d₁.graph.Sound := by
    have hsurveyed := Decompilation.surveyed_survey storedTwice [] ⟨false, .empty⟩
    obtain ⟨_, hanalyze⟩ := h.analyzed
    have honward := Decompilation.Well.analyze ⟨hsurveyed.sound, hsurveyed.placed.framed.fits⟩ 0
    rw [← storedTwiceFound, hanalyze, final_ok] at honward
    exact honward.well.sound
  have hstart := eq_storedTwiceAfter h (.done d₁)
  rw [List.map_nil] at hstart
  rw [← hstart] at hanalyzed
  obtain ⟨hids, hsize, hoperands⟩ := hanalyzed
  have hturns : turns.map (·.id) = [27, 30, 32, 34] := h.ids.symm.trans hids
  have hstop := eq_storedTwiceAfter h h.combines
  rw [hturns] at hstop
  rw [← hstop] at hcombined
  have hmade := ((Decompilation.Arranged.start hsound).combines h.combines
    (h.ids ▸ Decompilation.sublist_openOperations _ 0)).made
  replace hoperands := h.combines.operands_eq.trans (hturns ▸ hoperands)
  have hresults := hsize ▸ h.combines.results_eq
  obtain ⟨one, two, first, second, rfl⟩ : ∃ one two first second, turns = [one, two, first, second] := by
    obtain ⟨one, _, rfl, -, hrest⟩ := List.map_eq_cons_iff.1 hturns
    obtain ⟨two, _, rfl, -, hrest⟩ := List.map_eq_cons_iff.1 hrest
    obtain ⟨first, _, rfl, -, hrest⟩ := List.map_eq_cons_iff.1 hrest
    obtain ⟨second, _, rfl, -, hrest⟩ := List.map_eq_cons_iff.1 hrest
    exact ⟨one, two, first, second, by rw [List.map_eq_nil_iff.1 hrest]⟩
  replace hresults : [one.result, two.result, first.result, second.result] = [35, 36, 37, 38] := hresults
  simp only [List.map_cons, List.map_nil, List.cons.injEq, and_true] at hturns hoperands hresults
  obtain ⟨hstore, hfirst, hsecond, hplace, hvalue⟩ := hcombined
  rw [← hturns.2.1, (hmade two (by simp)).1, Option.map_some, Option.some.injEq, Prod.mk.injEq] at hstore
  rw [← hturns.2.2.1, (hmade first (by simp)).1, Option.map_some, Option.some.injEq] at hfirst
  rw [← hturns.2.2.2, (hmade second (by simp)).1, Option.map_some, Option.some.injEq, Prod.mk.injEq] at hsecond
  refine ⟨one, two, first, second, rfl, ?_, hresults.2.1, ⟨hoperands.2.2.1, hfirst⟩, ⟨hoperands.2.2.2, hsecond⟩,
    ⟨hstore.1, ?_⟩, ?_⟩
  · rw [hturns.1, hturns.2.1, hturns.2.2.1, hturns.2.2.2]
  · rw [Turn.target, hstore.2, hoperands.2.1]
    exact hplace
  · rw [Decompilation.storedText, Turn.value, hstore.2, hoperands.2.1]
    exact congrArg (fun text : String => Text.dropEndWhile (· == ';') text.toList) hvalue

/-- The conversation has one function, which can be decompiled. -/
theorem charted_storedTwice : storedTwiceFound.graph.Charted ∧ storedTwiceFound.Reaches 0 ∧
    ∃ callees d, Pass.decompileFunction 0 storedTwiceFound = .ok callees d := by
  have hasked :
      succeedsWith (fun _ _ => true) (Pass.collectReferences (.ofImage storedTwice [] ⟨false, .empty⟩)) = true ∧
      storedTwiceFound.functionIndex? startFunction = some 0 ∧
      succeedsWith (fun _ _ => true) (Pass.decompileFunction 0 storedTwiceFound) = true := by
    decide +kernel
  obtain ⟨hreferences, hstart, hfunction⟩ := hasked
  obtain ⟨_, _, hreferences, -⟩ := succeedsWith_iff.1 hreferences
  obtain ⟨callees, d, hfunction, -⟩ := succeedsWith_iff.1 hfunction
  exact ⟨Decompilation.charted_survey hreferences, ⟨0, hstart, .refl⟩, callees, d, hfunction⟩

/-- For the first call both stores are still there, and the number is that of the last of them. -/
theorem inlines_nearest_store_storedTwice :
    ∃ d₁ turns d₂ before t after e e' inlinings i u, storedTwiceFound.Composes 0 d₁ turns d₂ ∧
      turns = before ++ t :: after ∧ t.operation.isCall = true ∧ d₁.Combines 0 before e ∧ e.Consumes 0 t e' ∧
      e.Inlined 0 t inlinings e' ∧ i ∈ inlinings ∧ (e.expression i.argument).text = "local_1" ∧
      d₂.LastStore before "local_1" u ∧ d₂.Gives u i := by
  obtain ⟨hcharted, hreaches, callees, d', hrun⟩ := charted_storedTwice
  obtain ⟨d₁, turns, d₂, hcomposes, -, -, hcalls⟩ :=
    inlines_nearest_store .start hcharted hreaches List.not_mem_nil hrun
  obtain ⟨one, two, first, second, rfl, hids, hresult, ⟨hoperands, hcall⟩, -, hstores, -⟩ := turns_storedTwice hcomposes
  obtain ⟨e, e', inlinings, hbefore, run, hturn, hafter, hinlined, harguments⟩ :=
    hcalls [one, two] first [second] rfl hcall
  simp only [List.cons.injEq, and_true] at hids
  have he := eq_storedTwiceAfter hcomposes hbefore
  have he' := eq_storedTwiceAfter hcomposes (hbefore.append (.turn run hturn (.done e')))
  simp only [List.map_cons, List.map_nil, List.cons_append, List.nil_append, hids] at he he'
  have hasked : (storedTwiceAfter [27, 30]).expression 31 = .atom "local_1" true ∧
      (storedTwiceAfter [27, 30, 32]).expression 31 = .atom "2" false ∧
      ((storedTwiceAfter [27, 30]).graph.item 36).namesLocal = true ∧
      Precedes (storedTwiceAfter [27, 30]).graph.order 36 31 := by
    decide +kernel
  rw [← he, ← he'] at hasked
  obtain ⟨haddress, hvalue, hnames, hprecedes⟩ := hasked
  obtain ⟨i, hi, hargument, -⟩ := hinlined.exists_of_atom (by simp [hoperands]) haddress hvalue
  have hname : (e.expression i.argument).text = "local_1" := by rw [hargument, haddress]; rfl
  have hlast : d₂.LastStore [one, two] "local_1" two :=
    ⟨[one], [], rfl, hstores, fun _ hw => absurd hw List.not_mem_nil⟩
  -- There is one argument only.
  have honly (j : Inlining) (hj : j ∈ inlinings) : j = i := by
    have hargument' : j.argument = 31 := by
      have hmem := hinlined.once.subset (List.mem_map_of_mem hj)
      rwa [hoperands, List.mem_singleton] at hmem
    have hnodup : (inlinings.map (·.argument)).Nodup := hinlined.once.nodup (hoperands ▸ List.nodup_singleton 31)
    exact List.inj_on_of_nodup_map hnodup hj hi (hargument'.trans hargument.symm)
  have hlocal : "local_1" = Pass.localName 1 := by decide
  obtain ⟨-, hgives⟩ := harguments i hi (hname.trans hlocal ▸ Pass.markless_localName 1)
  refine ⟨d₁, _, d₂, [one, two], first, [second], e, e', inlinings, i, two, hcomposes, rfl, hcall, hbefore, hturn,
    hinlined, hi, hname, hlast, (hgives two (hname ▸ hlast)).2 ⟨?_, fun j hj _ => honly j hj, ?_⟩⟩
  · exact hbefore.notMem_stores (hresult ▸ hnames)
  · rwa [hresult, hargument]

/-- For the second call the last store is no more there, because the first call has made it a comment.  So the number is
that of the store before it. -/
theorem not_gives_storedTwice :
    (∃ d, Pass.decompile (.ofImage storedTwice [] ⟨false, .empty⟩) = .ok () d ∧ d.graph.liveStatements.map (·.text) =
      ["void start() // referenced 1 times", openBrace, "get_quest(2);", "get_quest(1);",
        closeBrace ++ " // end-function", ""]) ∧
    ∃ d₁ turns d₂ before t after e e' inlinings i u, storedTwiceFound.Composes 0 d₁ turns d₂ ∧
      turns = before ++ t :: after ∧ t.operation.isCall = true ∧ d₁.Combines 0 before e ∧ e.Consumes 0 t e' ∧
      e.Inlined 0 t inlinings e' ∧ i ∈ inlinings ∧ (e.expression i.argument).text = "local_1" ∧
      d₂.LastStore before "local_1" u ∧ d₂.storedText u = ['2'] ∧ i.value = ['1'] := by
  constructor
  · have hasked : decompilesTo storedTwice (fun d => d.graph.liveStatements.map (·.text) =
        ["void start() // referenced 1 times", openBrace, "get_quest(2);", "get_quest(1);",
          closeBrace ++ " // end-function", ""]) = true := by
      decide +kernel
    obtain ⟨d, hrun, hlines⟩ := decompilesTo_iff.1 hasked
    exact ⟨d, hrun, of_decide_eq_true hlines⟩
  obtain ⟨hcharted, hreaches, callees, d', hrun⟩ := charted_storedTwice
  obtain ⟨d₁, turns, d₂, hcomposes, hd₁, -⟩ := Decompilation.Rounds.start.composes hcharted hrun
  rw [← storedTwiceFound] at hcomposes
  obtain ⟨one, two, first, second, rfl, hids, -, ⟨-, hcallFirst⟩, ⟨hoperands, hcall, htypes⟩, hstores, hstored⟩ :=
    turns_storedTwice hcomposes
  have hturns : d₁.Combines 0 ([one, two, first] ++ second :: []) d₂ := hcomposes.combines
  obtain ⟨e, e', hbefore, run, hturn, hafter⟩ := hturns.exists_turn
  simp only [List.cons.injEq, and_true] at hids
  have he := eq_storedTwiceAfter hcomposes hbefore
  have he' := eq_storedTwiceAfter hcomposes (hbefore.append (.turn run hturn (.done e')))
  simp only [List.map_cons, List.map_nil, List.cons_append, List.nil_append, hids] at he he'
  have hasked : (storedTwiceAfter [27, 30, 32]).expression 33 = .atom "local_1" true ∧
      (storedTwiceAfter [27, 30, 32, 34]).expression 33 = .atom "1" false := by
    decide +kernel
  rw [← he, ← he'] at hasked
  obtain ⟨haddress, hvalue⟩ := hasked
  obtain ⟨inlinings, hinlined, -⟩ := hturn.exists_inlined run (hbefore.advances hd₁.sound).sound hcall
  obtain ⟨i, hi, hargument, hwritten⟩ := hinlined.exists_of_atom (by simp [hoperands]) haddress hvalue
  have hlast : d₂.LastStore [one, two, first] "local_1" two := by
    refine ⟨[one], [first], rfl, hstores, fun w hw hsto => ?_⟩
    rw [List.mem_singleton.1 hw] at hsto
    rw [Operation.isCall, hsto.1] at hcallFirst
    cases hcallFirst
  refine ⟨d₁, _, d₂, [one, two, first], second, [], e, e', inlinings, i, two, hcomposes, rfl, hcall, hbefore, hturn,
    hinlined, hi, by rw [hargument, haddress]; rfl, hlast, hstored, ?_⟩
  rw [htypes, List.getD_nil] at hwritten
  replace hwritten : "1" = String.ofList i.value := hwritten
  exact String.toList_ofList.symm.trans (congrArg String.toList hwritten).symm

end Parley
