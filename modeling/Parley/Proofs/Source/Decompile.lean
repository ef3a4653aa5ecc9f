import Parley.Decompile.Decompile
import Parley.Proofs.Source.Combination
import Parley.Proofs.Source.Discovery
set_option autoImplicit false

/-!
# Decompilation of straight-line source

The code of a straight-line function is decompiled to the lines of its statements, one each and in their
order.  There is nothing to structure in it: what is left after combination is statements.
-/

namespace Parley

/-! ## Live statements -/

/-- The statement that an item shows. -/
def Item.live? (item : Item) : Option Statement := if item.processed then none else item.statement?

/-- The statement in a face. -/
def liveFace? : Bool × ItemKind → Option Statement
  | (false, .statement statement) => some statement
  | _ => none

theorem Item.live?_eq (item : Item) : item.live? = item.face?.bind liveFace? := by
  obtain ⟨pos, label, xrefCount, processed, kind⟩ := item
  cases processed <;> cases kind <;> rfl

namespace Graph

/-- The statements that a list of items shows. -/
def live (g : Graph) (ids : List ItemId) : List Statement := ids.filterMap fun id => (g.item id).live?

theorem live_eq (g : Graph) (ids : List ItemId) : g.live ids = (g.shown ids).filterMap liveFace? := by
  rw [shown, List.filterMap_filterMap, live]
  exact List.filterMap_congr fun id _ => (g.item id).live?_eq

/-- The statements of the whole listing. -/
def liveStatements (g : Graph) : List Statement := g.live g.order

/-! ## Lines before an item -/

section Split

variable {g g' : Graph} {site : ItemId} {consumed : List ItemId} {kind : ItemKind}
  {front rest : List ItemId}

/-- A replacement at an item adds to what is in front of it. -/
theorem Replaced.shown_front (h : Replaced g g' site consumed kind) (hg : g.Ordered)
    (horder : g.order = front ++ site :: rest) (hfront : ∀ id ∈ front, id ∉ consumed) :
    g'.order = (front ++ [g.size]) ++ site :: rest ∧
      g'.shown (front ++ [g.size]) = g.shown front ++ [(false, kind)] := by
  refine ⟨?_, ?_⟩
  · rw [h.order, horder, placeBefore_split (hg.notMem_front horder), List.append_assoc]
    rfl
  · have hnew : g'.shown [g.size] = [(false, kind)] := by
      rw [Graph.shown, List.filterMap_cons_some h.new]
      rfl
    rw [shown_append, hnew, shown_congr fun id hid => h.kept id (hfront id hid) ?_]
    intro hsize
    refine hg.ne_size_of_mem ?_ hsize
    rw [horder]
    exact List.mem_append_left _ hid

theorem replaced_addStatement (hg : g.Ordered) (hsite : site < g.size) (statement : Statement) :
    Replaced g (g.addStatement site statement) site [] (.statement statement) := by
  have h := inserted_insertBefore hsite (.ofKind (g.item site).pos (.statement statement)) rfl rfl
  refine ⟨h.order, h.ordered hg, h.new, nofun, fun id _ hne => ?_⟩
  rw [face?, addStatement, h.items id hne]
  rfl

end Split

end Graph

namespace Source

open Fallible

/-! ## Signatures -/

/-- Statements as items that show them. -/
def lineKinds (lines : List Statement) : List ItemKind := lines.map .statement

/-- Lines were written before an item that has been replaced. -/
structure Headed (g g' : Graph) (site : ItemId) (rest : List ItemId) (lines : List Statement) :
    Prop where
  ordered : g'.Ordered
  order : ∃ front, g'.order = front ++ site :: rest ∧ g'.shown front = opened (lineKinds lines)
  gone : g'.face? site = none
  kept : ∀ id ∈ rest, g'.face? id = g.face? id

section Headed

variable {g g' : Graph} {site : ItemId} {rest : List ItemId} {lines : List Statement}

theorem headed_replaceByStatement (hg : g.Ordered) (horder : g.order = site :: rest)
    (hstatement : (g.item site).statement? = none) (statement : Statement) :
    Headed g (g.replaceByStatement site statement) site rest [statement] := by
  have hsite : site < g.size := hg.lt_of_mem (by rw [horder]; exact List.mem_cons_self)
  have h := Graph.replaced_replaceByStatement hg hsite hstatement statement
  have hsplit : g.order = [] ++ site :: rest := horder
  obtain ⟨horder', hshown⟩ := h.shown_front hg hsplit fun _ hid => absurd hid List.not_mem_nil
  refine ⟨h.ordered, ⟨_, horder', hshown⟩, h.gone site List.mem_cons_self, fun id hid => ?_⟩
  have hnodup := hg.nodup
  rw [horder, List.nodup_cons] at hnodup
  refine h.kept id (fun hmem => hnodup.1 (List.mem_singleton.1 hmem ▸ hid)) ?_
  refine hg.ne_size_of_mem ?_
  rw [horder]
  exact List.mem_cons_of_mem _ hid

theorem Headed.addStatement (h : Headed g g' site rest lines) (statement : Statement) :
    Headed g (g'.addStatement site statement) site rest (lines ++ [statement]) := by
  obtain ⟨front, horder, hshown⟩ := h.order
  have hmem : ∀ id ∈ site :: rest, id ∈ g'.order := fun id hid => by
    rw [horder]
    exact List.mem_append_right _ hid
  have hsite : site < g'.size := h.ordered.lt_of_mem (hmem site List.mem_cons_self)
  have hadd := Graph.replaced_addStatement h.ordered hsite statement
  obtain ⟨horder', hshown'⟩ := hadd.shown_front h.ordered horder fun _ _ => List.not_mem_nil
  have hkept : ∀ id ∈ site :: rest, (g'.addStatement site statement).face? id = g'.face? id :=
    fun id hid => hadd.kept id List.not_mem_nil (h.ordered.ne_size_of_mem (hmem id hid))
  refine ⟨hadd.ordered, ⟨_, horder', ?_⟩, ?_, fun id hid => ?_⟩
  · rw [hshown', hshown, lineKinds, lineKinds, List.map_append, opened_append]
    rfl
  · rw [hkept site List.mem_cons_self]
    exact h.gone
  · rw [hkept id (List.mem_cons_of_mem _ hid)]
    exact h.kept id hid

theorem Headed.addLines (h : Headed g g' site rest lines) (texts : List String) :
    Headed g (texts.foldl (fun g line => g.addStatement site (.plain line)) g') site rest
      (lines ++ texts.map .plain) := by
  induction texts generalizing g' lines with
  | nil => simpa using h
  | cons text texts ih =>
    have hnext := ih (h.addStatement (.plain text))
    rwa [List.append_assoc] at hnext

/-- The lines of a body follow those before it, and then the line that takes the place of its end. -/
theorem Headed.close {ids behind : List ItemId} {stop : ItemId} {more : List Statement}
    (h : Headed g g' site (ids ++ stop :: behind) lines)
    (hshown : g.shown ids = opened (lineKinds more))
    (hstop : g.face? stop = some (false, .functionEnd)) (statement : Statement) :
    Headed g (g'.replaceByStatement stop statement) stop behind
      (lines ++ more ++ [statement]) := by
  obtain ⟨front, horder, hfront⟩ := h.order
  have horder' : g'.order = (front ++ site :: ids) ++ stop :: behind := by
    rw [horder, List.append_assoc]
    rfl
  have hmem : ∀ id ∈ stop :: behind, id ∈ g'.order := fun id hid => by
    rw [horder']
    exact List.mem_append_right _ hid
  have hstatement : (g'.item stop).statement? = none := by
    have hface := (h.kept stop (List.mem_append_right _ List.mem_cons_self)).trans hstop
    rw [Item.statement?, (Item.face?_eq_open.1 hface).2]
  have hclosed := Graph.replaced_replaceByStatement h.ordered
    (h.ordered.lt_of_mem (hmem _ List.mem_cons_self)) hstatement statement
  have hnot := h.ordered.notMem_front horder'
  obtain ⟨hclosedOrder, hclosedShown⟩ := hclosed.shown_front h.ordered horder'
    fun id hid hmem => hnot (List.mem_singleton.1 hmem ▸ hid)
  have hbody : g'.shown (site :: ids) = opened (lineKinds more) := by
    rw [Graph.shown, List.filterMap_cons_none h.gone, ← hshown]
    exact Graph.shown_congr fun id hid => h.kept id (List.mem_append_left _ hid)
  refine ⟨hclosed.ordered, ⟨_, hclosedOrder, ?_⟩, hclosed.gone _ List.mem_cons_self,
    fun id hid => ?_⟩
  · rw [hclosedShown, Graph.shown_append, hfront, hbody]
    simp [lineKinds, opened]
  · have hne : id ∉ [stop] := by
      have hnodup := h.ordered.nodup
      rw [horder', List.nodup_append, List.nodup_cons] at hnodup
      exact fun hmem => hnodup.2.1.1 (List.mem_singleton.1 hmem ▸ hid)
    have hold := hclosed.kept id hne
      (h.ordered.ne_size_of_mem (hmem id (List.mem_cons_of_mem _ hid)))
    exact hold.trans (h.kept id (List.mem_append_right _ (List.mem_cons_of_mem _ hid)))

/-- An empty line stands behind the others. -/
theorem Headed.live_addBlankLine {next : ItemId} {others : List ItemId}
    (h : Headed g g' site (next :: others) lines) (hgone : ∀ id ∈ next :: others, g.face? id = none) :
    (g'.addBlankLine site).liveStatements = lines ++ [.plain ""] := by
  obtain ⟨front, horder, hfront⟩ := h.order
  have hnext : g'.next? site = some next := Graph.next?_split horder (h.ordered.notMem_front horder)
  have horder' : g'.order = (front ++ [site]) ++ next :: others := by
    rw [horder, List.append_assoc]
    rfl
  have hmem : ∀ id ∈ next :: others, id ∈ g'.order := fun id hid => by
    rw [horder']
    exact List.mem_append_right _ hid
  have hblank := Graph.replaced_addStatement h.ordered
    (h.ordered.lt_of_mem (hmem next List.mem_cons_self)) (.plain "")
  obtain ⟨hblankOrder, hblankShown⟩ := hblank.shown_front h.ordered horder'
    fun _ _ => List.not_mem_nil
  have hrest : (g'.addStatement next (.plain "")).shown (next :: others) = [] := by
    refine Graph.shown_eq_nil fun id hid => ?_
    rw [hblank.kept id List.not_mem_nil (h.ordered.ne_size_of_mem (hmem id hid)), h.kept id hid]
    exact hgone id hid
  have hsite : g'.shown [site] = [] :=
    Graph.shown_eq_nil fun id hid => List.mem_singleton.1 hid ▸ h.gone
  have hlines : ∀ lines : List Statement,
      (opened (lineKinds lines)).filterMap liveFace? = lines := by
    intro lines
    simp only [opened, lineKinds, List.map_map, List.filterMap_map]
    exact List.filterMap_some
  have hall : (g'.addStatement next (.plain "")).shown (g'.addStatement next (.plain "")).order =
      opened (lineKinds (lines ++ [.plain ""])) := by
    rw [hblankOrder, Graph.shown_append, hblankShown, hrest, Graph.shown_append, hfront, hsite]
    simp [opened, lineKinds]
  unfold Graph.addBlankLine Graph.liveStatements
  rw [hnext]
  simp only
  rw [Graph.live_eq, hall, hlines]

end Headed

/-- The lines of a function around those of its body. -/
def signedLines (info : FunctionInfo) (count : Nat) (lines : List Statement) : List Statement :=
  [.plain (info.header count), ⟨openBrace, .opens .function⟩] ++ info.declarations.map .plain ++
    lines ++ [⟨closingLine "end-function", .closes .function⟩] ++ [.plain ""]

/-- A signature is written around what the body shows. -/
theorem live_addSignature {scene : Scene} {g : Graph} {ids : List ItemId} {info : FunctionInfo}
    (hlayout : Layout scene g ids) (hbehind : scene.behind ≠ []) {lines : List Statement}
    (hshown : g.shown ids = opened (lineKinds lines)) (hstart : info.startItem = scene.start)
    (hstop : info.endItem = scene.stop) :
    ∃ count, (g.addSignature info).liveStatements = signedLines info count lines := by
  have hstatement : (g.item scene.start).statement? = none := by
    rw [Item.statement?, (Item.face?_eq_open.1 hlayout.start).2]
  obtain ⟨next, others, hnext⟩ := List.exists_cons_of_ne_nil hbehind
  have hheaded := ((headed_replaceByStatement hlayout.ordered hlayout.order hstatement
    (.plain (info.header (g.item scene.start).xrefCount))).addStatement
      ⟨openBrace, .opens .function⟩).addLines info.declarations
  have hclosed := hheaded.close hshown hlayout.stop ⟨closingLine "end-function", .closes .function⟩
  have hgone := hlayout.behind
  rw [hnext] at hclosed hgone
  refine ⟨(g.item scene.start).xrefCount, ?_⟩
  unfold Graph.addSignature
  simp only [hstart, hstop]
  exact hclosed.live_addBlankLine hgone

/-! ## Nothing to structure -/

/-- The lines of the statements of a body. -/
def plainLines (names : Names) (body : List Stmt) : List Statement :=
  body.map fun stmt => .plain (stmt.render names)

theorem lineKinds_plainLines (names : Names) (body : List Stmt) :
    lineKinds (plainLines names body) = bodyLines names body := by
  rw [lineKinds, plainLines, List.map_map]
  rfl

section Structure

variable {scene : Scene} {d : Decompilation} {ids : List ItemId} {lines : List Statement}

theorem face?_of_lines {g : Graph} (hshown : g.shown ids = opened (lineKinds lines)) {id : ItemId}
    (hid : id ∈ ids) : g.face? id = none ∨ ∃ statement, g.face? id = some (false, .statement statement) := by
  cases hface : g.face? id with
  | none => exact Or.inl rfl
  | some face =>
    have hmem : face ∈ g.shown ids := List.mem_filterMap.2 ⟨id, hid, hface⟩
    rw [hshown] at hmem
    obtain ⟨kind, hkind, rfl⟩ := List.mem_map.1 hmem
    obtain ⟨statement, -, rfl⟩ := List.mem_map.1 hkind
    exact Or.inr ⟨statement, rfl⟩

/-- Lines are no conditions. -/
theorem openExpressions_lines {g : Graph} (hshown : g.shown ids = opened (lineKinds lines)) :
    g.openExpressions ids = [] := by
  refine List.filter_eq_nil_iff.2 fun id hid => ?_
  rcases face?_of_lines hshown hid with hface | ⟨statement, hface⟩
  · simp [Item.isOpenExpression, (Item.face?_eq_none.1 hface).1]
  · simp [Item.isOpenExpression, Item.expression?, (Item.face?_eq_open.1 hface).2]

theorem structureFunction_lines (hlayout : Layout scene d.graph ids) (hsetting : Setting scene d)
    (hshown : d.graph.shown ids = opened (lineKinds lines)) :
    Pass.structureFunction 0 d = .ok () d := by
  have hbody : d.body 0 = ids := hsetting.body hlayout
  have hconditions : d.graph.openExpressions (d.body 0) = [] := by
    rw [hbody]
    exact openExpressions_lines hshown
  have hswitches : Pass.findSwitches 0 d = .ok () d := by
    rw [Pass.findSwitches, modify_apply, hconditions]
    rfl
  have hloops : ∀ write, Pass.findLoops 0 write d = .ok () d := by
    intro write
    rw [Pass.findLoops, modify_apply, hconditions]
    rfl
  have hconditionals : Pass.findConditionals 0 d = .ok () d := by
    rw [Pass.findConditionals, modify_apply, hconditions]
    rfl
  have hleft : ids.filter (fun id =>
      !(d.graph.item id).processed && (d.graph.item id).isOpcodeItem) = [] := by
    refine List.filter_eq_nil_iff.2 fun id hid => ?_
    rcases face?_of_lines hshown hid with hface | ⟨statement, hface⟩
    · simp [(Item.face?_eq_none.1 hface).1]
    · simp [Item.isOpcodeItem, Item.opcodeItem?, (Item.face?_eq_open.1 hface).2]
  have hjumps : Pass.writeJumps 0 d = .ok () d := by
    unfold Pass.writeJumps
    rw [bind_of_ok (get_apply d), hbody, hleft]
    rfl
  unfold Pass.structureFunction Pass.findWhileLoops Pass.findDoWhileLoops
  rw [bind_of_ok hswitches, bind_of_ok (hloops _), bind_of_ok (hloops _), bind_of_ok hconditionals]
  exact hjumps

end Structure

/-! ## Decompilation -/

/-- The only function of a straight-line code is decompiled to the lines of its statements. -/
theorem decompileFunction_straight {scene : Scene} (hnames : scene.names.WellNamed)
    (hbehind : scene.behind ≠ []) {body : List Stmt}
    (hspeakable : ∀ stmt ∈ body, stmt.Speakable scene.names) {d : Decompilation}
    {front raws : List ItemId} (h : Progress scene d [] front raws (bodyCode body))
    (hgone : ∀ id ∈ front, d.graph.face? id = none) :
    ∃ d' info count, Pass.decompileFunction 0 d = .ok [] d' ∧ d'.functions = #[info] ∧
      d'.graph.liveStatements = signedLines info count (plainLines scene.names body) := by
  obtain ⟨d₁, ids₁, hanalyze, hlayout₁, hsetting₁, hshown₁⟩ := analyze_straight h hgone
  obtain ⟨d₂, ids₂, hcombine, hlayout₂, hsetting₂, hshown₂⟩ :=
    combine_straight hnames hspeakable hlayout₁ hsetting₁ hshown₁
  rw [← lineKinds_plainLines] at hshown₂
  have hstructure := structureFunction_lines hlayout₂ hsetting₂ hshown₂
  obtain ⟨info, hfunctions, hstart, hstop, -⟩ := hsetting₂.functions
  obtain ⟨count, hlive⟩ := live_addSignature hlayout₂ hbehind hshown₂ hstart hstop
  have hsign : Pass.addSignature 0 d₂ = .ok () (d₂.onGraph (·.addSignature info)) := by
    rw [Pass.addSignature, modify_apply, hfunctions]
    rfl
  refine ⟨d₂.onGraph (·.addSignature info), info, count, ?_, hfunctions, hlive⟩
  unfold Pass.decompileFunction
  rw [bind_of_ok hanalyze, bind_of_ok hcombine, bind_of_ok hstructure, bind_of_ok hsign]
  rfl

/-- Dropping references changes no line. -/
theorem live_dropAllUnreached (reached : List UInt16) (d : Decompilation) :
    (d.dropAllUnreached reached).graph.liveStatements = d.graph.liveStatements ∧
      (d.dropAllUnreached reached).functions = d.functions := by
  have hstep : ∀ (d : Decompilation) (info : FunctionInfo),
      Graph.SameBut [] d.graph (Decompilation.dropUnreached reached d info).graph ∧
        (Decompilation.dropUnreached reached d info).functions = d.functions := by
    intro d info
    unfold Decompilation.dropUnreached
    split
    · exact ⟨Graph.SameBut.refl _ _, rfl⟩
    · exact ⟨Graph.sameBut_modify_label [] d.graph _ fun _ => ⟨rfl, rfl, rfl⟩, rfl⟩
  have hfold : ∀ (infos : List FunctionInfo) (d : Decompilation),
      Graph.SameBut [] d.graph (infos.foldl (Decompilation.dropUnreached reached) d).graph ∧
        (infos.foldl (Decompilation.dropUnreached reached) d).functions = d.functions := by
    intro infos
    induction infos with
    | nil => exact fun d => ⟨Graph.SameBut.refl _ _, rfl⟩
    | cons info rest ih =>
      intro d
      obtain ⟨hgraph, hfunctions⟩ := hstep d info
      obtain ⟨hgraph', hfunctions'⟩ := ih (Decompilation.dropUnreached reached d info)
      exact ⟨hgraph.trans hgraph', hfunctions'.trans hfunctions⟩
  obtain ⟨hgraph, hfunctions⟩ := hfold d.functions.toList d
  refine ⟨?_, hfunctions⟩
  unfold Graph.liveStatements
  rw [Graph.live_eq, Graph.live_eq]
  rw [Decompilation.dropAllUnreached, hgraph.order,
    Graph.shown_congr fun id _ => hgraph.faces id List.not_mem_nil]

/-- A function that calls no others is the only one to be decompiled. -/
theorem decompileQueue_of_single {func : Nat} {d d' : Decompilation}
    (h : Pass.decompileFunction func d = .ok [] d') (fuel : Nat) :
    Pass.decompileQueue (fuel + 1) [func] [] d = .ok [Pass.functionStart d func] d' := by
  unfold Pass.decompileQueue
  rw [bind_of_ok (get_apply d)]
  refine (bind_of_ok h).trans ((bind_of_ok (get_apply d')).trans ?_)
  cases fuel <;> rfl

theorem decompile_of_single {d d₁ d' : Decompilation} (hstage : d.stage = .fresh)
    (hcollect : Pass.collectReferences d = .ok () d₁)
    (hindex : d₁.discoverFunctions.relabelCalls.functionIndex? startFunction = some 0)
    (hfunction : Pass.decompileFunction 0 d₁.discoverFunctions.relabelCalls = .ok [] d') :
    Pass.decompile d = .ok () { d'.dropAllUnreached
      [Pass.functionStart d₁.discoverFunctions.relabelCalls 0] with stage := .decompiled } := by
  have hqueue := decompileQueue_of_single hfunction d₁.discoverFunctions.relabelCalls.graph.size
  unfold Pass.decompile
  rw [bind_of_ok (get_apply d)]
  simp only [hstage, if_true]
  refine (bind_of_ok hcollect).trans ((bind_of_ok (modify_apply _ d₁)).trans
    ((bind_of_ok (get_apply _)).trans ?_))
  simp only [hindex]
  rw [bind_of_ok hqueue]
  rfl

/-- The first item of code stands at its first word. -/
theorem pos_first {code : CodeWords} {entry : ItemId} {rest : List ItemId}
    (horder : (Graph.ofCode code).order = entry :: rest) :
    ((Graph.ofCode code).item entry).pos = 0 := by
  rw [Graph.order_ofCode] at horder
  cases hstarts : Graph.starts code with
  | nil =>
    rw [hstarts] at horder
    cases horder
  | cons start starts =>
    have hmem : start ∈ Graph.starts code := by
      rw [hstarts]
      exact List.mem_cons_self
    have hzero := Graph.head?_starts (Nat.zero_lt_of_lt (Graph.lt_of_mem_starts hmem).1)
    have hentry : entry = 0 := by
      rw [hstarts, List.length_cons, List.range_succ_eq_map] at horder
      exact (List.cons.inj horder).1.symm
    rw [List.head?_eq_getElem?] at hzero
    rw [hentry, Graph.item_ofCode hzero]
    rfl

/-- Decompilation succeeds and leaves one function, with these lines as its body. -/
def DecompilesTo (image : Image) (strings : List String) (options : NamingOptions)
    (lines : List Statement) : Prop :=
  ∃ d info count, Pass.decompile (.ofImage image strings options) = .ok () d ∧
    d.functions = #[info] ∧ d.graph.liveStatements = signedLines info count lines

theorem decompilesTo_functionCode {image : Image} {strings : List String} {locals : UInt16}
    {body : List Stmt} (options : NamingOptions)
    (hcode : image.code = (encode (functionCode locals body)).toArray)
    (hsize : (encode (functionCode locals body)).length ≤ 65535)
    (hnames : (Names.ofImage image strings).WellNamed)
    (hspeakable : ∀ stmt ∈ body, stmt.Speakable (Names.ofImage image strings)) :
    DecompilesTo image strings options (plainLines (Names.ofImage image strings) body) := by
  have hordered := Graph.ofCode_ordered image.code
  have hraws := raws_ofCode (wellFormed_functionCode locals body) hsize
  have hquiet := quiet_functionCode locals body
  rw [← hcode] at hraws
  obtain ⟨entry, front, middle, exit, behind, hparts⟩ := exists_parts hordered hraws
  have hcollect := collectReferences_quiet (d := .ofImage image strings options) hparts.order hraws
    hquiet
  -- The listing with its references.
  have hlabel := sameBut_labelStart (Graph.ofCode image.code) entry
  have hpos := (pos_labelStart (Graph.ofCode image.code) entry entry).trans (pos_first hparts.order)
  have hcalls := noCall_labelStart (noCall_of_raws hordered hraws hquiet) entry
  have hglobals : image.globals = (Names.ofImage image strings).globals := rfl
  obtain ⟨scene, hscene, hbehind, hprogress, hgone⟩ :=
    discover_straight (d := (Decompilation.ofImage image strings options).onGraph (labelStart · entry))
      (hparts.sameBut hlabel) hpos rfl hglobals rfl hcalls
  -- The only function and its lines.
  rw [← hscene] at hnames hspeakable ⊢
  obtain ⟨d', info, count, hfunction, hfunctions, hlive⟩ :=
    decompileFunction_straight hnames hbehind hspeakable hprogress hgone
  have hindex : ((Decompilation.ofImage image strings options).onGraph
      (labelStart · entry)).discoverFunctions.relabelCalls.functionIndex? startFunction = some 0 := by
    obtain ⟨info, hinfo, -, -, hname⟩ := hprogress.setting.functions
    simp [Decompilation.functionIndex?, hinfo, hname]
  obtain ⟨hdropped, hkept⟩ := live_dropAllUnreached _ d'
  exact ⟨_, info, count, decompile_of_single rfl hcollect hindex hfunction,
    hkept.trans hfunctions, hdropped.trans hlive⟩

/-- Straight-line code is decompiled to its source, one line for each statement, as the reference printer
writes it. -/
theorem decompile_straight {image : Image} {strings : List String} {locals : UInt16}
    {body : List Stmt} (options : NamingOptions)
    (hcode : image.code = (encode (functionCode locals body)).toArray)
    (hsize : (encode (functionCode locals body)).length ≤ 65535)
    (hnames : (Names.ofImage image strings).WellNamed)
    (hspeakable : ∀ stmt ∈ body, stmt.Speakable (Names.ofImage image strings)) :
    ∃ d info count, Pass.decompile (.ofImage image strings options) = .ok () d ∧
      d.functions = #[info] ∧
      d.graph.liveStatements =
        signedLines info count (plainLines (Names.ofImage image strings) body) :=
  decompilesTo_functionCode options hcode hsize hnames hspeakable

/-- The lines of a small conversation: a comparison whose sides change, a parameter, and a string. -/
def bargain : List Stmt :=
  [.assign (.localVar ⟨1, by decide⟩)
    (.binary ⟨.testEq, rfl⟩ (.const 5) (.param ⟨0xfffe, by decide⟩)) true,
   .assign (.global 32)
    (.binary ⟨.mul, rfl⟩ (.binary ⟨.add, rfl⟩ (.global 32) (.const 2)) (.localVar ⟨1, by decide⟩)) false,
   .say 0, .return (.unary ⟨.neg, rfl⟩ (.const 1))]

/-- A conversation with one function and one imported global. -/
def bargainImage : Image where
  slot := none
  stringBlock := 0
  reservedGlobals := 64
  functions := .empty
  globals := ⟨[(32, ⟨"gold", .int⟩)], by simp⟩
  code := (encode (functionCode 1 bargain)).toArray

theorem decompile_straight_bargain : ∃ d info count,
    Pass.decompile (.ofImage bargainImage ["Good day."] ⟨false, .empty⟩) = .ok () d ∧
      d.functions = #[info] ∧
      d.graph.liveStatements = signedLines info count [.plain "local_1 = param1 == 5;",
        .plain "gold = (gold + 2) * local_1;", .plain "say(\"Good day.\");", .plain "return -1;"] := by
  have hcode : bargainImage.code = (encode (functionCode 1 bargain)).toArray := rfl
  have hnames : (Names.ofImage bargainImage ["Good day."]).WellNamed := by decide
  obtain ⟨d, info, count, hrun, hfunctions, hlive⟩ :=
    decompile_straight ⟨false, .empty⟩ hcode (by decide) hnames (by decide)
  refine ⟨d, info, count, hrun, hfunctions, ?_⟩
  rw [hlive]
  rfl

end Source

end Parley
