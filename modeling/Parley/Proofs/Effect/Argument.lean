import Parley.Proofs.Effect.Result
set_option autoImplicit false

/-!
# Arguments that are replaced by numbers

Where the address of a local variable is passed to a call, the nearest statement before it that begins with a store into
the variable is looked for.  If a number is stored there, it takes the place of the argument, and the statement becomes
a comment.
-/

namespace Parley

open Fallible

/-! ## Arguments -/

/-- A text begins with a mark if a name that begins with it stands in front. -/
theorem beginsWith_of_prefix {mark name sign text : String} (hname : beginsWith mark name = true)
    (h : (name ++ sign).toList <+: text.toList) : beginsWith mark text = true := by
  rw [beginsWith, List.isPrefixOf_iff_prefix] at hname ⊢
  rw [String.toList_append] at h
  exact hname.trans ((List.prefix_append _ _).trans h)

/-- How a number is written as an argument depends on the strings alone. -/
theorem Pass.argumentText_congr {d d' : Decompilation} (h : d'.strings = d.strings) (type : DataType)
    (value : List Char) : argumentText d' type value = argumentText d type value := by
  unfold argumentText Decompilation.stringLiteral?
  rw [h]

/-- An item says that something is stored at the place with a name. -/
def Graph.Assigns (g : Graph) (name : String) (id : ItemId) : Prop :=
  ∃ statement, (g.item id).statement? = some statement ∧
    (name ++ Pass.storeMark).toList <+: statement.text.toList

/-- An argument, and the store whose number takes its place. -/
structure Inlining where
  argument : ItemId
  store : ItemId
  /-- The number, as it is written. -/
  value : List Char

namespace Decompilation

variable {d d₁ d' : Decompilation} {func : Nat} {id : ItemId} {i : Inlining} {ids stores more : List ItemId}

/-- A store supplies the number for an argument, which is the address of a local variable: it stands before the argument
in its function, what it says to be stored is the number, and between it and the argument nothing is said to be stored
there but by `stores`. -/
structure Supplies (d : Decompilation) (func : Nat) (stores : List ItemId) (i : Inlining) : Prop where
  inlines : d.Inlines func i.argument i.store
  stored : ∃ statement rest, (d.graph.item i.store).statement? = some statement ∧
    statement.text.toList = ((d.expression i.argument).text ++ Pass.storeMark).toList ++ rest ∧
    Text.dropEndWhile (· == ';') rest = i.value
  numeral : Pass.isNumeral i.value = true
  nearest : ∀ id, Precedes d.graph.order i.store id → Precedes d.graph.order id i.argument →
    d.graph.Assigns (d.expression i.argument).text id → id ∈ stores

theorem Supplies.mono (h : d.Supplies func stores i) (hsub : stores ⊆ more) : d.Supplies func more i :=
  ⟨h.inlines, h.stored, h.numeral, fun id hstore hargument hassigns => hsub (h.nearest id hstore hargument hassigns)⟩

/-- Of the local variables of a function that have these numbers the types have been forgotten. -/
def Forgets (d : Decompilation) (func : Nat) (indices : List Nat) (d' : Decompilation) : Prop :=
  d'.variableTable = d.variableTable.modify func fun vars => indices.foldl Variables.forgetLocal vars

theorem forgets_of_variableTable (h : d'.variableTable = d.variableTable) : d.Forgets func [] d' :=
  h.trans (List.modify_id _ _).symm

theorem Forgets.trans {indices others : List Nat} (h : d.Forgets func indices d₁) (h' : d₁.Forgets func others d') :
    d.Forgets func (indices ++ others) d' := by
  rw [Forgets, h', h, List.modify_modify_eq]
  congr 1
  funext vars
  exact List.foldl_append.symm

/-- The numbers of the local variables that have been replaced, as far as they can be read off. -/
def inlinedLocals (d : Decompilation) (inlinings : List Inlining) : List Nat :=
  inlinings.filterMap fun i => Pass.localIndex? (d.expression i.argument).text.toList

/-- Arguments of known types have been read.  Some of them have been replaced, each by the number that a store supplies,
and these stores have become comments; all other addresses are as they were.  The types of the local variables that have
been replaced have been forgotten. -/
structure ReadsArguments (d : Decompilation) (func : Nat) (types : List DataType) (ids : List ItemId)
    (inlinings : List Inlining) (d' : Decompilation) : Prop where
  reads : d.Reads func ids (inlinings.map (·.store)) d'
  strings : d'.strings = d.strings
  arguments : (inlinings.map (·.argument)).Sublist ids
  distinct : (inlinings.map (·.store)).Nodup
  supplied : ∀ i ∈ inlinings, d.Supplies func (inlinings.map (·.store)) i
  replaced : ∀ i ∈ inlinings, d'.expression i.argument =
    .atom (Pass.argumentText d (types.getD (ids.idxOf i.argument) .int) i.value) false
  others : ∀ id ∈ ids, id ∉ inlinings.map (·.argument) → (d.expression id).isAddress = true →
    d'.expression id = d.expression id
  forgets : d.Forgets func (d.inlinedLocals inlinings) d'

/-- The store that supplies a number begins with the name of a local variable. -/
theorem Inlines.namesLocal {store : ItemId} (h : d.Inlines func id store) :
    (d.graph.item store).namesLocal = true := by
  obtain ⟨statement, hstatement, htext⟩ := h.text
  rw [Item.namesLocal, hstatement, Option.any_some]
  exact beginsWith_of_prefix h.isLocal htext

/-- A store that has become a comment supplies nothing any more. -/
theorem Reads.notMem_of_inlines {argument store : ItemId} (hreads : d.Reads func ids stores d₁)
    (h : d₁.Inlines func argument store) : store ∉ stores := by
  intro hmem
  obtain ⟨⟨_, -, hbefore⟩, hitem⟩ := hreads.stores store hmem
  obtain ⟨statement, hold, -⟩ := hbefore.text
  exact not_inlines_inlined hold hitem h

/-- What a store supplies behind the first argument it supplies before. -/
theorem supplies_of_reads (hreads : d.Reads func [id] stores d₁) (hid : (d.graph.item id).statement? = none)
    (hnone : (d.graph.item i.argument).statement? = none) (hne : i.argument ≠ id) (h : d₁.Supplies func more i) :
    d.Supplies func (stores ++ more) i := by
  have hargument : d₁.graph.item i.argument = d.graph.item i.argument :=
    hreads.item_of_notMem hnone fun hmem => hne (List.mem_singleton.1 hmem)
  have hexpression : d₁.expression i.argument = d.expression i.argument := by
    unfold Decompilation.expression
    rw [hargument]
  have hstore : d₁.graph.item i.store = d.graph.item i.store := by
    refine hreads.others i.store (fun hmem => h.inlines.statement?_ne_none ?_) (hreads.notMem_of_inlines h.inlines)
    rw [List.mem_singleton.1 hmem]
    exact hreads.operands id List.mem_cons_self hid
  refine ⟨hreads.inlines hargument hstore h.inlines, ?_, h.numeral, fun other hbehind hbefore hassigns => ?_⟩
  · rw [← hexpression, ← hstore]
    exact h.stored
  · by_cases hmem : other ∈ stores
    · exact List.mem_append_left _ hmem
    · obtain ⟨statement, hstatement, htext⟩ := hassigns
      have hother : d₁.graph.item other = d.graph.item other := by
        refine hreads.others other (fun hsame => ?_) hmem
        rw [List.mem_singleton.1 hsame, hid] at hstatement
        cases hstatement
      rw [← hreads.order] at hbehind hbefore
      refine List.mem_append_right _ (h.nearest other hbehind hbefore ⟨statement, ?_, ?_⟩)
      · rw [hother, hstatement]
      · rwa [hexpression]

theorem ReadsArguments.congr {types types' : List DataType} {inlinings : List Inlining}
    (h : d.ReadsArguments func types ids inlinings d')
    (htypes : ∀ index, types.getD index .int = types'.getD index .int) :
    d.ReadsArguments func types' ids inlinings d' :=
  { h with replaced := fun i hi => htypes _ ▸ h.replaced i hi }

/-- Arguments are read one after the other. -/
theorem ReadsArguments.cons {type : DataType} {types : List DataType} {first rest : List Inlining}
    (hids : (id :: ids).Nodup) (hnone : ∀ other ∈ id :: ids, (d.graph.item other).statement? = none)
    (h : d.ReadsArguments func [type] [id] first d₁) (hrest : d₁.ReadsArguments func types ids rest d') :
    d.ReadsArguments func (type :: types) (id :: ids) (first ++ rest) d' := by
  obtain ⟨hnew, -⟩ := List.nodup_cons.1 hids
  have hid := hnone id List.mem_cons_self
  have hitem {other : ItemId} (hother : other ∈ ids) : d₁.graph.item other = d.graph.item other :=
    h.reads.item_of_notMem (hnone other (List.mem_cons_of_mem _ hother)) fun hmem =>
      hnew (List.mem_singleton.1 hmem ▸ hother)
  have hexpression {other : ItemId} (hother : other ∈ ids) : d₁.expression other = d.expression other := by
    unfold expression
    rw [hitem hother]
  -- The first argument is an operand, so what the others read leaves it as it is.
  have hkept : d'.expression id = d₁.expression id := by
    unfold expression
    rw [hrest.reads.item_of_notMem (h.reads.operands id List.mem_cons_self hid) hnew]
  have hfirst (i : Inlining) (hi : i ∈ first) : i.argument = id :=
    List.mem_singleton.1 (h.arguments.subset (List.mem_map_of_mem hi))
  have hothers (i : Inlining) (hi : i ∈ rest) : i.argument ∈ ids := hrest.arguments.subset (List.mem_map_of_mem hi)
  have hne {other : ItemId} (hother : other ∈ ids) : other ≠ id := ne_of_mem_of_not_mem hother hnew
  refine ⟨?_, hrest.strings.trans h.strings, ?_, ?_, fun i hi => ?_, fun i hi => ?_,
    fun other hother hnot haddress => ?_, ?_⟩
  · rw [List.map_append]
    exact h.reads.append hrest.reads hnew hnone
  · rw [List.map_append]
    exact h.arguments.append hrest.arguments
  · rw [List.map_append]
    refine List.nodup_append'.2 ⟨h.distinct, hrest.distinct, fun store hstore hlater => ?_⟩
    obtain ⟨i, hi, rfl⟩ := List.mem_map.1 hlater
    exact h.reads.notMem_of_inlines (hrest.supplied i hi).inlines hstore
  · rw [List.map_append]
    rcases List.mem_append.1 hi with hi | hi
    · exact (h.supplied i hi).mono (List.subset_append_left _ _)
    · exact supplies_of_reads h.reads hid (hnone _ (List.mem_cons_of_mem _ (hothers i hi))) (hne (hothers i hi))
        (hrest.supplied i hi)
  · rcases List.mem_append.1 hi with hi | hi
    · have hvalue := h.replaced i hi
      rw [hfirst i hi, List.idxOf_cons_self] at hvalue ⊢
      exact hkept.trans hvalue
    · have hvalue := hrest.replaced i hi
      rw [List.idxOf_cons_ne _ (hne (hothers i hi)).symm, List.getD_cons_succ]
      rwa [Pass.argumentText_congr h.strings] at hvalue
  · rw [List.map_append, List.mem_append, not_or] at hnot
    rcases List.mem_cons.1 hother with rfl | hother
    · exact hkept.trans (h.others other List.mem_cons_self hnot.1 haddress)
    · exact (hrest.others other hother hnot.2 (hexpression hother ▸ haddress)).trans (hexpression hother)
  · have hlocals : d₁.inlinedLocals rest = d.inlinedLocals rest :=
      List.filterMap_congr fun i hi => by rw [hexpression (hothers i hi)]
    rw [inlinedLocals, List.filterMap_append, ← inlinedLocals, ← inlinedLocals, ← hlocals]
    exact h.forgets.trans hrest.forgets

end Decompilation

namespace Pass

variable {d d' : Decompilation} {func : Nat} {id : ItemId} {type : DataType} {text : String}

theorem immediate?_of_isAddress {e : Expr} (h : e.isAddress = true) : e.immediate? = none := by
  cases e with
  | const value => cases h
  | _ => rfl

/-- The nearest store is that of which nothing in front of it says that something is stored at the place. -/
theorem nearest_of_nearestStore? {g : Graph} {name : String} {start store : ItemId} {rest : List Char}
    (hg : g.Ordered) (hid : id < g.size) (h : nearestStore? g name (g.backBetween start id) = some (store, rest)) :
    ∀ other, Precedes g.order store other → Precedes g.order other id → ¬ g.Assigns name other := by
  intro other hstore hbefore ⟨statement, hstatement, behind, htext⟩
  obtain ⟨near, found, far, hsplit, hfound, hnone⟩ := List.findSome?_eq_some_iff.1 h
  obtain rfl : found = store := by
    obtain ⟨_, -, hpair⟩ := Option.map_eq_some_iff.1 hfound
    exact congrArg Prod.fst hpair
  have hother := hnone other (Graph.mem_near hg hid hsplit hstore hbefore)
  rw [hstatement, Option.bind_some, Text.withoutFront?_eq_some.2 htext.symm] at hother
  cases hother

theorem strings_forgettingLocal (d : Decompilation) (func : Nat) (index? : Option Nat) :
    (forgettingLocal d func index?).strings = d.strings := by
  cases index? <;> rfl

theorem forgets_forgettingLocal (d : Decompilation) (func : Nat) (index? : Option Nat) :
    d.Forgets func index?.toList (forgettingLocal d func index?) := by
  cases index? with
  | none => exact Decompilation.forgets_of_variableTable rfl
  | some index => exact d.variableTable_onVariables func _

/-- The address of a local variable is replaced by the number that the nearest store supplies, or nothing happens. -/
theorem exists_inlining_inlineLocal (hd : d.graph.Sound) (haddress : (d.expression id).isAddress = true)
    (hlocal : beginsWith localMark (d.expression id).text = true) (h : inlineLocal func id type d = .ok () d') :
    d' = d ∨ ∃ i : Inlining, i.argument = id ∧ d'.strings = d.strings ∧ d.Reads func [id] [i.store] d' ∧
      d.Supplies func [] i ∧ d'.expression id = .atom (argumentText d type i.value) false ∧
      d.Forgets func (d.inlinedLocals [i]) d' := by
  have hexpression := expression?_isSome_of_isAddress haddress
  have hid : id < d.graph.size := (Graph.inert_of_expression? hexpression).lt_size
  have hnone : (d.graph.item id).statement? = none := (Graph.inert_of_expression? hexpression).statement
  rcases inlineLocal_eq_ok h with rfl | ⟨store, rest, hnearest, hnumeral, rfl⟩
  · exact Or.inl rfl
  · right
    obtain ⟨statement, hstatement, htext⟩ := nearestStore?_eq_some hnearest
    have hinlines : d.Inlines func id store := inlines_of_nearestStore? haddress hlocal hnearest
    have hsupplies : d.Supplies func [] ⟨id, store, Text.dropEndWhile (· == ';') rest⟩ :=
      ⟨hinlines, ⟨statement, rest, hstatement, htext, rfl⟩, hnumeral, fun other hstore hbefore hassigns =>
        absurd hassigns (nearest_of_nearestStore? hd.ordered hid hnearest other hstore hbefore)⟩
    have hne : id ≠ store := fun heq => hinlines.statement?_ne_none (heq ▸ hnone)
    have hgraph := graph_forgettingLocal d func (localIndex? (d.expression id).text.toList)
    have hframes := frames_forgettingLocal d func (localIndex? (d.expression id).text.toList)
    have hstrings := strings_forgettingLocal d func (localIndex? (d.expression id).text.toList)
    have hforgets := forgets_forgettingLocal d func (localIndex? (d.expression id).text.toList)
    generalize forgettingLocal d func (localIndex? (d.expression id).text.toList) = d₀
      at hgraph hframes hstrings hforgets ⊢
    refine ⟨_, rfl, hstrings, reads_inlined hnone hinlines _ d₀ hgraph hframes, hsupplies, ?_, ?_⟩
    -- What the argument becomes is not changed when the store becomes a comment.
    have hread (expression : Expr) :
        (((d₀.graph.modify id (·.withExpression expression)).modify store Item.inlined).item id).expression? =
          some expression := by
      rw [Graph.item_modify_of_ne hne, Graph.item_modify_self (hgraph ▸ hid)]
      rfl
    · exact congrArg (Option.getD · _) (hread _)
    · have hlocals : d.inlinedLocals [⟨id, store, Text.dropEndWhile (· == ';') rest⟩] =
          (localIndex? (d.expression id).text.toList).toList := by
        rw [Decompilation.inlinedLocals, List.filterMap_cons, List.filterMap_nil]
        cases localIndex? (d.expression id).text.toList <;> rfl
      rw [hlocals]
      exact hforgets

/-- How one argument is read: the address of a local variable may be replaced, any other address stays. -/
theorem exists_readsArguments_argument (hd : d.graph.Sound) (h : argument func id type d = .ok text d') :
    ∃ inlinings, d.ReadsArguments func [type] [id] inlinings d' := by
  have hstays {d' : Decompilation} (hreads : d.Reads func [id] [] d') (hstrings : d'.strings = d.strings)
      (hfunctions : d'.functions = d.functions)
      (hsame : (d.expression id).isAddress = true → d'.expression id = d.expression id) :
      ∃ inlinings, d.ReadsArguments func [type] [id] inlinings d' :=
    ⟨[], hreads, hstrings, List.nil_sublist _, List.nodup_nil, fun _ hmem => absurd hmem List.not_mem_nil,
      fun _ hmem => absurd hmem List.not_mem_nil, fun other hother _ => List.mem_singleton.1 hother ▸ hsame,
      Decompilation.forgets_of_variableTable (congrArg (·.toList.map (·.vars)) hfunctions)⟩
  unfold argument at h
  obtain ⟨_, _, hexpression, h⟩ := bind_eq_ok.1 h
  cases hexpression
  dsimp only at h
  split at h
  · rename_i hlocal
    rw [Bool.and_eq_true] at hlocal
    obtain ⟨_, d₁, hinline, h⟩ := bind_eq_ok.1 h
    obtain ⟨address, d₂, hread, hpure⟩ := bind_eq_ok.1 h
    cases hpure
    obtain ⟨-, -, -, hsame⟩ := addressOf_eq_ok hread
    rcases exists_inlining_inlineLocal hd hlocal.1 hlocal.2 hinline with
      rfl | ⟨i, rfl, hstrings, hreads, hsupplies, hvalue, hforgets⟩
    · obtain rfl := hsame (immediate?_of_isAddress hlocal.1)
      exact hstays (.refl _ _ _) rfl rfl fun _ => rfl
    · obtain rfl := hsame (by rw [hvalue]; rfl)
      refine ⟨[i], hreads, hstrings, List.Sublist.refl _, List.nodup_singleton _, fun other hother => ?_,
        fun other hother => ?_, fun other hother hnot => absurd hother hnot, hforgets⟩
      · rw [List.mem_singleton.1 hother]
        exact hsupplies.mono (List.nil_subset _)
      · rw [List.mem_singleton.1 hother, List.idxOf_cons_self]
        exact hvalue
  · obtain ⟨address, d₂, hread, hpure⟩ := bind_eq_ok.1 h
    cases hpure
    obtain ⟨-, hstrings, hfunctions, hsame⟩ := addressOf_eq_ok hread
    refine hstays (reads_addressOf (Or.inl List.mem_cons_self) hread) hstrings hfunctions fun haddress => ?_
    rw [hsame (immediate?_of_isAddress haddress)]

/-- How the arguments of a call are read. -/
theorem exists_readsArguments {types : List DataType} {ids : List ItemId} {texts : List String} (hd : d.graph.Sound)
    (hids : ids.Nodup) (hnone : ∀ id ∈ ids, (d.graph.item id).statement? = none)
    (h : arguments func types ids d = .ok texts d') : ∃ inlinings, d.ReadsArguments func types ids inlinings d' := by
  induction ids generalizing types texts d with
  | nil =>
    cases h
    refine ⟨[], .refl _ _ _, rfl, List.Sublist.refl _, List.nodup_nil, ?_, ?_, ?_,
      Decompilation.forgets_of_variableTable rfl⟩ <;> exact fun _ hmem => absurd hmem List.not_mem_nil
  | cons id rest ih =>
    obtain ⟨text, d₁, hargument, h⟩ := bind_eq_ok.1 h
    obtain ⟨others, d₂, harguments, hpure⟩ := bind_eq_ok.1 h
    cases hpure
    obtain ⟨hnew, hnodup⟩ := List.nodup_cons.1 hids
    obtain ⟨first, hfirst⟩ := exists_readsArguments_argument hd hargument
    have hd₁ : d₁.graph.Sound := ((quiet_argument func id _).of_ok hd hargument).sound
    obtain ⟨inlinings, hrest⟩ := ih hd₁ hnodup (fun other hother => by
      have hother' := hnone other (List.mem_cons_of_mem _ hother)
      rwa [hfirst.reads.item_of_notMem hother' fun hmem => hnew (List.mem_singleton.1 hmem ▸ hother)]) harguments
    refine ⟨_, (hfirst.cons hids hnone hrest).congr fun index => ?_⟩
    cases types with
    | nil => cases index <;> rfl
    | cons type types => rfl

end Pass

/-! ## Calls -/

namespace Decompilation

variable {d d₁ d₂ d' : Decompilation} {func : Nat} {t u : Turn} {turns before after : List Turn} {id : ItemId}

/-- What becomes of the arguments in the turn of a call.  Replaced are those that have been addresses and are none any
more, each by the number that a store of its own supplies, and these stores are all that become comments. -/
structure Inlined (d : Decompilation) (func : Nat) (t : Turn) (inlinings : List Inlining) (d' : Decompilation) :
    Prop where
  once : (inlinings.map (·.argument)).Sublist t.operands
  arguments : ∀ id ∈ t.operands, id ∈ inlinings.map (·.argument) ↔
    (d.expression id).isAddress = true ∧ (d'.expression id).isAddress = false
  distinct : (inlinings.map (·.store)).Nodup
  supplied : ∀ i ∈ inlinings, d.Supplies func t.stores i
  stores : ∀ id, id ∈ t.stores ↔ id ∈ inlinings.map (·.store)
  replaced : ∀ i ∈ inlinings, d'.expression i.argument =
    .atom (Pass.argumentText d (t.operation.paramTypes.getD (t.operands.idxOf i.argument) .int) i.value) false

/-- The turn of a call reads the arguments, and then only marks and labels change in what there is. -/
theorem Consumes.exists_readsArguments (run : Pass.combineItem func t.id d = .ok () d') (h : d.Consumes func t d')
    (hd : d.graph.Sound) (hcall : t.operation.isCall = true) :
    ∃ inlinings d₀, d.ReadsArguments func t.operation.paramTypes t.operands inlinings d₀ ∧
      d'.functions = d₀.functions ∧ ∀ id < d.graph.size, (d'.graph.item id).kind = (d₀.graph.item id).kind := by
  obtain ⟨operands, combined, d₁, hids, hkind, hfunctions, -, hsame⟩ := Pass.exists_combineKind run h
  replace hkind : Pass.combineCall func (operands.site t.id) (d.graph.item t.id).pos t.operation operands d =
      .ok combined d₁ := by
    rw [Operation.isCall, Bool.or_eq_true, decide_eq_true_iff, decide_eq_true_iff] at hcall
    rcases hcall with hopcode | hopcode <;> simpa only [Pass.combineKind, hopcode] using hkind
  obtain ⟨name, d₀, hname, hcalled⟩ := bind_eq_ok.1 hkind
  obtain rfl := Pass.calledName_eq_ok hname
  obtain ⟨texts, d₂, harguments, hput⟩ := bind_eq_ok.1 hcalled
  rw [hids] at harguments
  have hopen (id : ItemId) (hid : id ∈ t.operands) : (d₀.graph.item id).statement? = none :=
    (Graph.site_of_isOpenExpression (h.isOpenExpression_of_mem hid)).statement
  obtain ⟨inlinings, hreads⟩ := Pass.exists_readsArguments hd (h.operands ▸ (Graph.nodup_openBefore hd.ordered).take)
    hopen harguments
  rw [hfunctions]
  refine ⟨inlinings, d₂, hreads, ?_, fun id hid => (hsame id).trans ?_⟩
  · split at hput <;> cases hput <;> rfl
  · rw [← hreads.reads.size] at hid
    split at hput
    · exact Pass.kind_addExpression hput hid
    · exact Pass.kind_replaceByStatement hput hid

/-- What becomes of the arguments in the turn of a call, and of what is known of the local variables. -/
theorem Consumes.exists_inlined (run : Pass.combineItem func t.id d = .ok () d') (h : d.Consumes func t d')
    (hd : d.graph.Sound) (hcall : t.operation.isCall = true) :
    ∃ inlinings, d.Inlined func t inlinings d' ∧ d.Forgets func (d.inlinedLocals inlinings) d' := by
  obtain ⟨inlinings, d₀, hreads, hfunctions, hsame⟩ := h.exists_readsArguments run hd hcall
  have hexpression {id : ItemId} (hid : id ∈ t.operands) : d'.expression id = d₀.expression id :=
    Pass.expression_congr (hsame id (Graph.site_of_isOpenExpression (h.isOpenExpression_of_mem hid)).lt_size)
  have hargument {i : Inlining} (hi : i ∈ inlinings) : i.argument ∈ t.operands :=
    hreads.arguments.subset (List.mem_map_of_mem hi)
  have hnames {id : ItemId} (hid : (d.graph.item id).namesLocal = true) :
      (d'.graph.item id).namesLocal = (d₀.graph.item id).namesLocal :=
    Item.namesLocal_congr (Item.statement?_congr (hsame id (Graph.lt_size_of_namesLocal hid)))
  -- A store that becomes a comment begins with the name of a local variable, and the comment does not.
  have hstores (id : ItemId) : id ∈ t.stores ↔ id ∈ inlinings.map (·.store) := by
    constructor
    · intro hid
      obtain ⟨-, ⟨_, -, hinlines⟩, hitem⟩ := h.stores id hid
      by_contra hnot
      have hstatement := Graph.statement?_isSome_of_namesLocal hinlines.namesLocal
      have hsame₀ : d₀.graph.item id = d.graph.item id := hreads.reads.others id
        (fun hmem => h.notMem_of_statement? hstatement (List.mem_cons_of_mem _ hmem)) hnot
      have hnew := hnames hinlines.namesLocal
      rw [hitem, Item.namesLocal_inlined, hsame₀, hinlines.namesLocal] at hnew
      cases hnew
    · intro hid
      obtain ⟨⟨_, -, hinlines⟩, hitem⟩ := hreads.reads.stores id hid
      by_contra hnot
      have hstatement := Graph.statement?_isSome_of_namesLocal hinlines.namesLocal
      have hsame' : d'.graph.item id = d.graph.item id :=
        h.others id (Graph.lt_size_of_namesLocal hinlines.namesLocal) (h.notMem_of_statement? hstatement) hnot
      have hnew := hnames hinlines.namesLocal
      rw [hitem, Item.namesLocal_inlined, hsame', hinlines.namesLocal] at hnew
      cases hnew
  have hforgets : d.Forgets func (d.inlinedLocals inlinings) d' := by
    rw [Decompilation.Forgets, Decompilation.variableTable, hfunctions]
    exact hreads.forgets
  refine ⟨inlinings, ⟨hreads.arguments, fun id hid => ⟨fun hmem => ?_, fun hreplaced => ?_⟩, hreads.distinct,
    fun i hi => ?_, hstores, fun i hi => ?_⟩, hforgets⟩
  · obtain ⟨i, hi, rfl⟩ := List.mem_map.1 hmem
    refine ⟨(hreads.supplied i hi).inlines.address, ?_⟩
    rw [hexpression hid, hreads.replaced i hi]
    rfl
  · obtain ⟨haddress, hvalue⟩ := hreplaced
    by_contra hnot
    rw [hexpression hid, hreads.others id hid hnot haddress, haddress] at hvalue
    cases hvalue
  · exact (hreads.supplied i hi).mono fun id => (hstores id).2
  · exact (hexpression (hargument hi)).trans (hreads.replaced i hi)

/-- An address that is none any more has been replaced. -/
theorem Inlined.exists_of_atom {inlinings : List Inlining} {name text : String} (h : d.Inlined func t inlinings d')
    (hid : id ∈ t.operands) (haddress : d.expression id = .atom name true)
    (hvalue : d'.expression id = .atom text false) :
    ∃ i ∈ inlinings, i.argument = id ∧
      text = Pass.argumentText d (t.operation.paramTypes.getD (t.operands.idxOf id) .int) i.value := by
  have hreplaced := (h.arguments id hid).2 ⟨by rw [haddress]; rfl, by rw [hvalue]; rfl⟩
  obtain ⟨i, hi, rfl⟩ := List.mem_map.1 hreplaced
  have hsame := h.replaced i hi
  rw [hvalue, Expr.atom.injEq] at hsame
  exact ⟨i, hi, rfl, hsame.1⟩

end Decompilation

end Parley
