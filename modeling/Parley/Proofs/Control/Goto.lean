import Parley.Proofs.Control.Round
import Parley.Proofs.Source.Tree
set_option autoImplicit false

/-!
# Every line that goes to a label has its label

A line that goes to a label names the place that a jump in its function leads to, and in each function the label of a
place is written once, before what stands there.  When all jumps stay inside of their functions no two functions have a
label in common.
-/

namespace Parley

open Fallible Source

/-! ## Destinations -/

/-- Places are called differently. -/
theorem placeLabel_inj {a b : UInt16} : placeLabel a = placeLabel b ↔ a = b := by
  refine ⟨fun h => ?_, fun h => h ▸ rfl⟩
  unfold placeLabel at h
  split at h <;> split at h
  · rename_i ha hb
    exact ha.trans hb.symm
  · exact absurd h.symm (labelName_ne_startFunction _)
  · exact absurd h (labelName_ne_startFunction _)
  · exact labelName_inj.1 h

/-- The line that is the label of a place. -/
def labelLine (pos : UInt16) : Statement := ⟨placeLabel pos ++ ":;", .label (placeLabel pos)⟩

/-- A position that lines in a function between two boundaries go to. -/
structure Goal where
  start : ItemId
  stop : ItemId
  pos : UInt16

/-- A line goes to the destination, and a jump in the function leads there. -/
structure Goal.Sought (goal : Goal) (g : Graph) : Prop where
  goto : ∃ id, (g.item id).goesTo? = some (placeLabel goal.pos)
  jump : ∃ jump, g.Within goal.start goal.stop jump ∧ (g.item jump).isJump = true ∧
    (g.item jump).targetPos? = some goal.pos

/-- A line is the label of the destination.  Of the first `n` items it stands before those that stand at the position or
behind. -/
structure Goal.Signed (n : Nat) (goal : Goal) (line : ItemId) (g : Graph) : Prop where
  shown : (g.item line).controlLine? = some (labelLine goal.pos)
  pos : (g.item line).pos = goal.pos
  before : ∀ id < n, goal.pos ≤ (g.item id).pos → Precedes g.order line id

/-- Lines go to the destinations `goals`, and some of the destinations have labels, each of them one. -/
structure Graph.Signposted (n : Nat) (goals : List Goal) (labels : List (Goal × ItemId)) (g : Graph) :
    Prop where
  gotos : ∀ id name, (g.item id).goesTo? = some name →
    ∃ goal ∈ goals, name = placeLabel goal.pos ∧ g.Within goal.start goal.stop id
  sought : ∀ goal ∈ goals, goal.Sought g
  lines : ∀ id name, (g.item id).labels? = some name ↔ ∃ goal, (goal, id) ∈ labels ∧ name = placeLabel goal.pos
  distinct : (labels.map Prod.fst).Nodup
  justified : ∀ goal line, (goal, line) ∈ labels → goal ∈ goals
  signed : ∀ goal line, (goal, line) ∈ labels → goal.Signed n line g

namespace Item

theorem goesTo?_of_controlLine? {a b : Item} (h : b.controlLine? = a.controlLine?) : b.goesTo? = a.goesTo? := by
  rw [goesTo?, h, goesTo?]

theorem labels?_of_controlLine? {a b : Item} (h : b.controlLine? = a.controlLine?) : b.labels? = a.labels? := by
  rw [labels?, h, labels?]

theorem exists_line_of_goesTo? {item : Item} {name : String} (h : item.goesTo? = some name) :
    ∃ line, item.controlLine? = some line := by
  obtain ⟨line, hline, -⟩ := Option.bind_eq_some_iff.1 h
  exact ⟨line, hline⟩

end Item

/-! ### Longer listings -/

section Longer

variable {g g' : Graph} {n : Nat} {goal : Goal} {goals : List Goal}
  {labels : List (Goal × ItemId)} {line : ItemId}

theorem Goal.Sought.mono (h : goal.Sought g) (hcarries : g.Carries g') : goal.Sought g' := by
  obtain ⟨⟨id, hgoto⟩, jump, hwithin, hjump, htarget⟩ := h
  obtain ⟨line, hline⟩ := Item.exists_line_of_goesTo? hgoto
  have hline := hcarries.controlLine? id (Item.lt_size_of_controlLine? hline)
  have hop := hcarries.opcodeItem? jump (Graph.lt_size_of_isOpcodeItem (Item.isOpcodeItem_of_isJump hjump))
  exact ⟨⟨id, (Item.goesTo?_of_controlLine? hline).trans hgoto⟩, jump, hwithin.mono hcarries.longer.order,
    (Item.isJump_of_opcodeItem? hop).trans hjump, (Item.targetPos?_of_opcodeItem? hop).trans htarget⟩

theorem Goal.Signed.mono (h : goal.Signed n line g) (hn : n ≤ g.size) (hcarries : g.Carries g') :
    goal.Signed n line g' := by
  have hpos {id : ItemId} (hid : id < g.size) : (g'.item id).pos = (g.item id).pos :=
    congrArg Prod.fst (hcarries.longer.code id hid)
  have hlt := Item.lt_size_of_controlLine? h.shown
  refine ⟨(hcarries.controlLine? line hlt).trans h.shown, (hpos hlt).trans h.pos, fun id hid hle => ?_⟩
  rw [hpos (Nat.lt_of_lt_of_le hid hn)] at hle
  exact (h.before id hid hle).mono hcarries.longer.order

/-- A listing that gets longer by no lines of the control structure is signposted as before. -/
theorem Graph.Signposted.mono (h : g.Signposted n goals labels) (hn : n ≤ g.size) (hcarries : g.Carries g')
    (hlines : ∀ id, (g'.item id).controlLine? = (g.item id).controlLine?) : g'.Signposted n goals labels where
  gotos id name hgoto := by
    rw [Item.goesTo?_of_controlLine? (hlines id)] at hgoto
    obtain ⟨goal, hgoal, hname, hwithin⟩ := h.gotos id name hgoto
    exact ⟨goal, hgoal, hname, hwithin.mono hcarries.longer.order⟩
  sought goal hgoal := (h.sought goal hgoal).mono hcarries
  lines id name := by rw [Item.labels?_of_controlLine? (hlines id), h.lines]
  distinct := h.distinct
  justified := h.justified
  signed goal line hline := (h.signed goal line hline).mono hn hcarries

end Longer

/-! ## What a deed goes to -/

/-- A part of the role of lines in the control structure is that of a line from before or of a line that is put. -/
theorem Graph.Overlays.role_iff {g g' : Graph} {marks : List ItemId} {puts : List Put} (h : g.Overlays marks puts g')
    {p : StatementRole → Option String} (hp : ∀ role name, p role = some name → role.isControl = true) {id : ItemId}
    {name : String} :
    (g'.item id).controlLine?.bind (fun line => p line.role) = some name ↔
      (g.item id).controlLine?.bind (fun line => p line.role) = some name ∨
        ∃ i put, puts[i]? = some put ∧ p put.statement.role = some name ∧ id = g.size + i := by
  simp only [Option.bind_eq_some_iff, h.controlLine?_iff]
  constructor
  · rintro ⟨line, hold | ⟨-, i, site, hput, rfl⟩, hname⟩
    · exact Or.inl ⟨line, hold, hname⟩
    · exact Or.inr ⟨i, _, hput, hname, rfl⟩
  · rintro (⟨line, hold, hname⟩ | ⟨i, put, hput, hname, rfl⟩)
    · exact ⟨line, Or.inl hold, hname⟩
    · exact ⟨_, Or.inr ⟨hp _ name hname, i, put.site, hput, rfl⟩, hname⟩

/-- A label that is put before the foremost item of its position stands before all that stands there or behind. -/
theorem Graph.Overlays.signed {g g' : Graph} {marks : List ItemId} {puts : List Put} {start stop site : ItemId}
    {target : UInt16} {n : Nat} (h : g.Overlays marks puts g') (hg : g.Ordered) (hn : n ≤ g.size)
    (hputs : puts = [⟨site, labelLine target⟩]) (hsite : g.findPos? target = some site) :
    Goal.Signed n ⟨start, stop, target⟩ g.size g' := by
  have hput : puts[0]? = some ⟨site, labelLine target⟩ := by rw [hputs]; rfl
  have hholds := h.put 0 _ hput
  have hpos := (hg.of_findPos? hsite).2
  refine ⟨h.controlLine?_iff.2 (Or.inr ⟨rfl, 0, site, hput, rfl⟩), ?_, fun id hid hle => ?_⟩
  · exact (congrArg Item.pos hholds.item).trans hpos
  · have hlt := Nat.lt_of_lt_of_le hid hn
    rw [h.pos_eq hlt] at hle
    rcases hg.eq_or_precedes_of_findPos? hsite hlt hle with rfl | hbehind
    · exact hholds.before
    · exact hholds.before.trans h.ordered.nodup (hbehind.mono h.order)

/-- The lines of a deed that is neither a jump nor a label do not go to labels and are none. -/
theorem Deed.unlabelled {deed : Deed} {put : Put} (hneeds : deed.needs? = none) (hwrites : deed.writes? = none)
    (hmem : put ∈ deed.puts) : put.statement.role.goesTo? = none ∧ put.statement.role.labels? = none := by
  cases deed with
  | goto | gotoIf => cases hneeds
  | label => cases hwrites
  | conditional =>
    simp only [puts, List.cons_append, List.nil_append, List.mem_cons, List.mem_append, List.mem_map,
      List.not_mem_nil, or_false] at hmem
    rcases hmem with rfl | ⟨site, -, rfl⟩ | rfl <;> exact ⟨rfl, rfl⟩
  | _ =>
    simp only [puts, caseLines, List.mem_cons, List.not_mem_nil, or_false] at hmem
    rcases hmem with rfl | rfl | rfl <;> exact ⟨rfl, rfl⟩

namespace Deed.Fits

variable {deed : Deed} {start stop : ItemId} {w : Recovery} {i : Nat} {put : Put} {name : String} {target : UInt16}

/-- A line of a deed that goes to a label is put in the function, and it goes to what the deed needs. -/
theorem of_goesTo? (h : deed.Fits start stop w) (hnames : w.graph.NamesJumps) (hput : deed.puts[i]? = some put)
    (hname : put.statement.role.goesTo? = some name) :
    ∃ target, deed.needs? = some target ∧ name = placeLabel target ∧ w.graph.Within start stop put.site := by
  have hmem := List.mem_of_getElem? hput
  cases h with
  | goto _ haims =>
    rw [List.mem_singleton.1 hmem] at hname ⊢
    exact ⟨_, rfl, (Option.some.inj hname).symm.trans (haims.label_eq hnames), haims.within⟩
  | gotoIf condition haims =>
    rw [List.mem_singleton.1 hmem] at hname ⊢
    exact ⟨_, rfl, (Option.some.inj hname).symm.trans (haims.label_eq hnames), condition.within⟩
  | label =>
    rw [List.mem_singleton.1 hmem] at hname
    cases hname
  | _ =>
    rw [(unlabelled rfl rfl hmem).1] at hname
    cases hname

/-- What a deed needs is what its line goes to, and a jump in the function leads there. -/
theorem of_needs? (h : deed.Fits start stop w) (hnames : w.graph.NamesJumps) (hneeds : deed.needs? = some target) :
    (∃ put, deed.puts = [put] ∧ put.statement.role.goesTo? = some (placeLabel target)) ∧
      ∃ jump, w.graph.Within start stop jump ∧ (w.graph.item jump).isJump = true ∧
        (w.graph.item jump).targetPos? = some target := by
  cases h with
  | goto _ haims =>
    cases hneeds
    exact ⟨⟨_, rfl, congrArg some (haims.label_eq hnames)⟩, _, haims.within, haims.isJump, haims.leads⟩
  | gotoIf _ haims =>
    cases hneeds
    exact ⟨⟨_, rfl, congrArg some (haims.label_eq hnames)⟩, _, haims.within, haims.isJump, haims.leads⟩
  | _ => cases hneeds

/-- A deed that puts a label writes one. -/
theorem of_labels? (h : deed.Fits start stop w) (hput : deed.puts[i]? = some put)
    (hname : put.statement.role.labels? = some name) : ∃ target, deed.writes? = some target := by
  have hmem := List.mem_of_getElem? hput
  cases h with
  | label => exact ⟨_, rfl⟩
  | goto | gotoIf =>
    rw [List.mem_singleton.1 hmem] at hname
    cases hname
  | _ =>
    rw [(unlabelled rfl rfl hmem).2] at hname
    cases hname

/-- The label that a deed writes is needed and new, and it is put before the foremost item at its position. -/
theorem of_writes? (h : deed.Fits start stop w) (hnames : w.graph.NamesJumps) (hwrites : deed.writes? = some target) :
    ∃ site, deed.puts = [⟨site, labelLine target⟩] ∧ w.graph.findPos? target = some site ∧ target ∈ w.needed ∧
      target ∉ w.written := by
  cases h with
  | label haims hsite hneeded hnew =>
    cases hwrites
    rw [haims.label_eq hnames]
    exact ⟨_, rfl, hsite, hneeded, hnew⟩
  | _ => cases hwrites

/-- The only label that a deed puts is the one that it writes. -/
theorem labels?_iff (h : deed.Fits start stop w) (hnames : w.graph.NamesJumps) {id size : Nat} :
    (∃ i put, deed.puts[i]? = some put ∧ put.statement.role.labels? = some name ∧ id = size + i) ↔
      ∃ target, deed.writes? = some target ∧ id = size ∧ name = placeLabel target := by
  constructor
  · rintro ⟨i, put, hput, hname, rfl⟩
    obtain ⟨target, hwrites⟩ := h.of_labels? hput hname
    obtain ⟨site, hputs, -⟩ := h.of_writes? hnames hwrites
    rw [hputs] at hput
    obtain ⟨hi, rfl⟩ := List.getElem?_eq_some_iff.1 hput
    obtain rfl : i = 0 := Nat.lt_one_iff.1 hi
    exact ⟨target, hwrites, rfl, (Option.some.inj hname).symm⟩
  · rintro ⟨target, hwrites, rfl, rfl⟩
    obtain ⟨site, hputs, -⟩ := h.of_writes? hnames hwrites
    exact ⟨0, ⟨site, labelLine target⟩, by rw [hputs]; rfl, rfl, rfl⟩

end Deed.Fits

namespace Recovery

variable {start stop : ItemId} {w w' : Recovery} {deed : Deed} {n : Nat} {goals : List Goal}
  {labels : List (Goal × ItemId)}

section Does

variable (h : w.Does start stop deed w') (hnames : w.graph.NamesJumps)

include h hnames

/-- A line that goes to a label does so from before, or it is the line of the deed and goes to what that needs. -/
theorem Does.goesTo? {id : ItemId} {name : String} (hgoto : (w'.graph.item id).goesTo? = some name) :
    (w.graph.item id).goesTo? = some name ∨
      ∃ target, deed.needs? = some target ∧ name = placeLabel target ∧ w'.graph.Within start stop id := by
  refine ((h.overlays.role_iff fun _ _ => StatementRole.isControl_of_goesTo?).1 hgoto).imp_right ?_
  rintro ⟨i, put, hput, hname, rfl⟩
  obtain ⟨target, hneeds, hname, hwithin⟩ := h.fits.of_goesTo? hnames hput hname
  have hholds := h.overlays.put i put hput
  exact ⟨target, hneeds, hname, hholds.behind start hwithin.1,
    hholds.before.trans h.overlays.ordered.nodup (hwithin.2.mono h.overlays.retains.longer.order)⟩

/-- What a deed needs is sought by its line. -/
theorem Does.sought {target : UInt16} (hneeds : deed.needs? = some target) :
    Goal.Sought ⟨start, stop, target⟩ w'.graph := by
  have hretains := h.overlays.retains
  obtain ⟨⟨put, hputs, hrole⟩, jump, hwithin, hjump, hleads⟩ := h.fits.of_needs? hnames hneeds
  have hop := hretains.opcodeItem? jump (Graph.lt_size_of_isOpcodeItem (Item.isOpcodeItem_of_isJump hjump))
  exact ⟨⟨_, (h.overlays.role_iff fun _ _ => StatementRole.isControl_of_goesTo?).2
      (Or.inr ⟨0, put, by rw [hputs]; rfl, hrole, rfl⟩)⟩, jump, hwithin.mono hretains.longer.order,
    (Item.isJump_of_opcodeItem? hop).trans hjump, (Item.targetPos?_of_opcodeItem? hop).trans hleads⟩

/-- A label is one from before or the one that the deed writes. -/
theorem Does.labels?_iff {id : ItemId} {name : String} :
    (w'.graph.item id).labels? = some name ↔ (w.graph.item id).labels? = some name ∨
      ∃ target, deed.writes? = some target ∧ id = w.graph.size ∧ name = placeLabel target := by
  have hcontrol (role : StatementRole) (name : String) (hrole : role.labels? = some name) : role.isControl = true := by
    rw [StatementRole.eq_label_of_labels? hrole]
    rfl
  rw [Item.labels?, h.overlays.role_iff hcontrol, h.fits.labels?_iff hnames, ← Item.labels?]

/-- The label that a deed writes is a sign of its target. -/
theorem Does.signed {target : UInt16} (hg : w.graph.Ordered) (hn : n ≤ w.graph.size)
    (hwrites : deed.writes? = some target) : Goal.Signed n ⟨start, stop, target⟩ w.graph.size w'.graph := by
  obtain ⟨site, hputs, hsite, -⟩ := h.fits.of_writes? hnames hwrites
  exact h.overlays.signed hg hn hputs hsite

/-- The labels that lines go to are written for the deeds of a function. -/
theorem Does.signposted (hg : w.graph.Ordered) (hn : n ≤ w.graph.size) (hsigned : w.graph.Signposted n goals labels)
    (hneeded : ∀ target ∈ w.needed, ⟨start, stop, target⟩ ∈ goals)
    (hwritten : ∀ target line, (⟨start, stop, target⟩, line) ∈ labels → target ∈ w.written) :
    w'.graph.Signposted n (deed.needs?.toList.map (⟨start, stop, ·⟩) ++ goals)
      (deed.writes?.toList.map (fun target => (⟨start, stop, target⟩, w.graph.size)) ++ labels) := by
  have hretains := h.overlays.retains
  -- Each part is one of what the deed needs or writes, and one of what was there.
  refine ⟨fun id name hgoto => ?_, fun goal hgoal => ?_, fun id name => ?_, ?_, fun goal line hline => ?_,
    fun goal line hline => ?_⟩
  · rcases h.goesTo? hnames hgoto with hold | ⟨target, hneeds, hname, hwithin⟩
    · obtain ⟨goal, hgoal, hname, hwithin⟩ := hsigned.gotos id name hold
      exact ⟨goal, List.mem_append_right _ hgoal, hname, hwithin.mono hretains.longer.order⟩
    · exact ⟨⟨start, stop, target⟩, by simp [hneeds], hname, hwithin⟩
  · rcases List.mem_append.1 hgoal with hnew | hold
    · obtain ⟨target, htarget, rfl⟩ := List.mem_map.1 hnew
      exact h.sought hnames (Option.mem_toList.1 htarget)
    · exact (hsigned.sought goal hold).mono hretains.toCarries
  · rw [h.labels?_iff hnames, hsigned.lines]
    simp only [List.mem_append, List.mem_map, Option.mem_toList, Prod.mk.injEq]
    constructor
    · rintro (⟨goal, hgoal, rfl⟩ | ⟨target, hwrites, rfl, rfl⟩)
      · exact ⟨goal, Or.inr hgoal, rfl⟩
      · exact ⟨_, Or.inl ⟨target, hwrites, rfl, rfl⟩, rfl⟩
    · rintro ⟨goal, ⟨target, hwrites, rfl, rfl⟩ | hgoal, rfl⟩
      · exact Or.inr ⟨target, hwrites, rfl, rfl⟩
      · exact Or.inl ⟨goal, hgoal, rfl⟩
  · rw [List.map_append, List.map_map]
    refine List.Nodup.append ?_ hsigned.distinct fun goal hnew hold => ?_
    · cases deed.writes? <;> simp
    · obtain ⟨target, htarget, rfl⟩ := List.mem_map.1 hnew
      obtain ⟨⟨_, line⟩, hline, rfl⟩ := List.mem_map.1 hold
      obtain ⟨-, -, -, -, hfresh⟩ := h.fits.of_writes? hnames (Option.mem_toList.1 htarget)
      exact hfresh (hwritten target line hline)
  · refine List.mem_append_right _ ?_
    rcases List.mem_append.1 hline with hnew | hold
    · obtain ⟨target, htarget, hsame⟩ := List.mem_map.1 hnew
      cases hsame
      obtain ⟨-, -, -, htarget, -⟩ := h.fits.of_writes? hnames (Option.mem_toList.1 htarget)
      exact hneeded target htarget
    · exact hsigned.justified goal line hold
  · rcases List.mem_append.1 hline with hnew | hold
    · obtain ⟨target, htarget, hsame⟩ := List.mem_map.1 hnew
      cases hsame
      exact h.signed hnames hg hn (Option.mem_toList.1 htarget)
    · exact (hsigned.signed goal line hold).mono hn hretains.toCarries

end Does

/-- When the recovery of a function goes on, lines go to what it needs, and the labels that it writes are signs of
that. -/
theorem Leads.exists_signposted (h : w.Leads start stop w') (hg : w.graph.Ordered) (hnames : w.graph.NamesJumps)
    (hn : n ≤ w.graph.size) (hneeded : w.needed = []) (hwritten : w.written = [])
    (hsigned : w.graph.Signposted n goals labels) (hnew : ∀ goal ∈ goals, goal.start ≠ start) :
    ∃ signs, w'.graph.Signposted n (w'.needed.map (⟨start, stop, ·⟩) ++ goals) (signs ++ labels) ∧
      signs.map Prod.fst = w'.written.map (⟨start, stop, ·⟩) := by
  induction h with
  | refl => exact ⟨[], by rwa [hneeded], by rw [hwritten]; rfl⟩
  | @tail w₁ w₂ hleads hstep ih =>
    obtain ⟨deed, hdoes⟩ := hstep
    obtain ⟨signs, hsigned₁, hsigns⟩ := ih
    have hretains := Leads.retains hleads hg
    have hmine (target : UInt16) (line : ItemId) (hline : (⟨start, stop, target⟩, line) ∈ signs ++ labels) :
        target ∈ w₁.written := by
      rcases List.mem_append.1 hline with hline | hline
      · have hmem := List.mem_map_of_mem (f := Prod.fst) hline
        rw [hsigns] at hmem
        obtain ⟨other, hother, hsame⟩ := List.mem_map.1 hmem
        cases hsame
        exact hother
      · exact absurd rfl (hnew _ (hsigned.justified _ line hline))
    have hnext := hdoes.signposted (hretains.namesJumps hnames) hretains.ordered (hn.trans hretains.longer.size)
      hsigned₁ (fun target htarget => List.mem_append_left _ (List.mem_map_of_mem htarget)) hmine
    refine ⟨deed.writes?.toList.map (fun target => (⟨start, stop, target⟩, w₁.graph.size)) ++ signs, ?_, ?_⟩
    · rw [hdoes.needed, List.map_append, List.append_assoc, List.append_assoc]
      exact hnext
    · rw [hdoes.written, List.map_append, List.map_append, hsigns, List.map_map]
      rfl

end Recovery

/-! ## The labels of all functions -/

/-- No two functions have the same boundary. -/
theorem Graph.Framed.eq_of_startItem {g : Graph} {frames : List Frame} {func func' : Nat} {f f' : Frame}
    (h : g.Framed frames) (hf : frames[func]? = some f) (hf' : frames[func']? = some f')
    (hsame : f.startItem = f'.startItem) : func = func' := by
  have hfits := h.fits f (List.mem_of_getElem? hf)
  have hfits' := h.fits f' (List.mem_of_getElem? hf')
  have hstart : f.start = f'.start := by rw [← hfits.posFront, ← hfits'.posFront, hsame]
  have hle {f : Frame} (hfits : f.Fits g) : f.start ≤ f.stop :=
    UInt16.le_trans hfits.start_le (UInt16.le_of_lt hfits.entry_lt)
  exact h.unique hf hf' ⟨UInt16.le_refl _, hle hfits⟩ ⟨UInt16.le_of_eq hstart.symm, hstart ▸ hle hfits'⟩

namespace Decompilation

/-- Lines go to the destinations `goals`, all of which are in functions of `done`, and have labels. -/
structure Signposted (found : Decompilation) (done : List Nat) (goals : List Goal)
    (labels : List (Goal × ItemId)) (d : Decompilation) : Prop where
  listing : d.graph.Signposted found.graph.size goals labels
  written : goals ⊆ labels.map Prod.fst
  owned : ∀ goal ∈ goals, ∃ func ∈ done, ∃ f, found.frames[func]? = some f ∧ goal.start = f.startItem ∧
    goal.stop = f.endItem

variable {found d d' before after last : Decompilation} {done : List Nat} {func : Nat} {f : Frame} {w : Recovery}
  {goals : List Goal} {labels : List (Goal × ItemId)} {goal goal' : Goal} {line : ItemId}

theorem signposted_start (hcharted : found.graph.Charted) : found.Signposted [] [] [] found := by
  have hline (id : ItemId) : (found.graph.item id).controlLine? = none :=
    Item.controlLine?_of_statement? (hcharted.unreduced id).2
  refine ⟨⟨fun id name hgoto => ?_, fun _ h => absurd h List.not_mem_nil, fun id name => ?_, List.nodup_nil,
    fun _ _ h => absurd h List.not_mem_nil, fun _ _ h => absurd h List.not_mem_nil⟩, List.nil_subset _,
    fun _ h => absurd h List.not_mem_nil⟩
  · rw [Item.goesTo?, hline] at hgoto
    cases hgoto
  · rw [Item.labels?, hline]
    simp

theorem Signposted.calm {start stop : ItemId} (h : found.Signposted done goals labels d)
    (hn : found.graph.size ≤ d.graph.size) (hcalm : d.Calm start stop d') : found.Signposted done goals labels d' :=
  ⟨h.listing.mono hn hcalm.carries hcalm.lines, h.written, h.owned⟩

/-- In the round of a function all labels are written that its lines go to. -/
theorem Signposted.concat (h : found.Signposted done goals labels d) (hfound : found.Surveyed)
    (haccount : found.Account done d) (hnew : func ∉ done) (hround : Round func f d before w after d') :
    ∃ goals labels, found.Signposted (done ++ [func]) goals labels d' := by
  have hn := haccount.longer.size
  have hnBefore := hn.trans hround.prepared.longer.size
  obtain ⟨hlisting, hwritten, howned⟩ := h.calm hn hround.prepared
  have hf : found.frames[func]? = some f := haccount.frames ▸ hround.frame
  have hapart : ∀ goal ∈ goals, goal.start ≠ f.startItem := by
    intro goal hgoal hsame
    obtain ⟨func', hfunc', f', hf', hstart, -⟩ := howned goal hgoal
    rw [hfound.placed.framed.eq_of_startItem hf hf' (hsame.symm.trans hstart)] at hnew
    exact hnew hfunc'
  obtain ⟨signs, hafter, hsigns⟩ := hround.cleared.leads.exists_signposted hround.ready.ordered hround.names hnBefore
    rfl rfl hlisting hapart
  have hlabelled := hround.cleared.labelled (List.nil_subset _)
  rw [← hround.cleared.reached.graph] at hafter
  refine ⟨_, _, Signposted.calm ⟨hafter, fun goal hgoal => ?_, fun goal hgoal => ?_⟩
    (hnBefore.trans hround.retains.longer.size) hround.signed⟩
  · rw [List.map_append, List.mem_append, hsigns]
    rcases List.mem_append.1 hgoal with hgoal | hgoal
    · obtain ⟨target, htarget, rfl⟩ := List.mem_map.1 hgoal
      exact Or.inl (List.mem_map_of_mem (hlabelled htarget))
    · exact Or.inr (hwritten hgoal)
  · rcases List.mem_append.1 hgoal with hgoal | hgoal
    · obtain ⟨target, htarget, rfl⟩ := List.mem_map.1 hgoal
      exact ⟨func, List.mem_append_right _ List.mem_cons_self, f, hf, rfl, rfl⟩
    · obtain ⟨func', hfunc', hframe⟩ := howned goal hgoal
      exact ⟨func', List.mem_append_left _ hfunc', hframe⟩

theorem Rounds.exists_signposted (h : found.Rounds done d) (hfound : found.Surveyed) (hcharted : found.graph.Charted) :
    ∃ goals labels, found.Signposted done goals labels d := by
  induction h with
  | start => exact ⟨[], [], signposted_start hcharted⟩
  | round h hreaches hnew hrun ih =>
    obtain ⟨f, hf⟩ := hreaches.exists_frame
    obtain ⟨goals, labels, hsigned⟩ := ih
    have haccount := h.account hfound hcharted
    obtain ⟨before, w, after, hround⟩ := haccount.exists_round hfound hcharted hf hrun
    exact hsigned.concat hfound haccount hnew hround

/-! ## Labels and their positions -/

/-- A line is the label called `name`, and the only one.  The label is that of a position to which a jump in a function
leads, and all lines that go to it stand in the function.  So does the label itself, with nothing from before the
position behind it and with all instructions from there on behind it. -/
structure Labels (d : Decompilation) (name : String) (func : Nat) (target : UInt16) (line : ItemId) : Prop where
  only : ∀ id, (d.graph.item id).labels? = some name ↔ id = line
  shown : (d.graph.item line).controlLine? = some ⟨name ++ ":;", .label name⟩
  inside : line ∈ d.body func
  gotos : ∀ id, (d.graph.item id).goesTo? = some name → id ∈ d.body func
  named : name = labelName target
  jump : ∃ jump ∈ d.body func, (d.graph.item jump).isJump = true ∧ (d.graph.item jump).targetPos? = some target
  behind : ∀ id, Precedes d.graph.order line id → target ≤ (d.graph.item id).pos
  before : ∀ id, (d.graph.item id).isOpcodeItem = true → target ≤ (d.graph.item id).pos → Precedes d.graph.order line id

namespace Ended

variable (h : Ended found done last d)

include h

theorem frames_eq : d.frames = found.frames := (h.calm 0 0).frames.trans h.account.frames

theorem exists_signposted : ∃ goals labels, found.Signposted done goals labels d := by
  obtain ⟨goals, labels, hsigned⟩ := h.rounds.exists_signposted h.surveyed h.charted
  exact ⟨goals, labels, hsigned.calm h.account.longer.size (h.calm 0 0)⟩

variable (hinside : d.JumpsInside) (hsigned : found.Signposted done goals labels d)

include hinside hsigned

/-- What lines go to lies in a function. -/
theorem exists_frame_of_mem (hgoal : goal ∈ goals) :
    ∃ (func : Nat) (f : Frame), d.frames[func]? = some f ∧ goal.start = f.startItem ∧ goal.stop = f.endItem ∧
      f.start < goal.pos ∧ goal.pos ≤ f.stop := by
  obtain ⟨func, -, f, hf, hstart, hstop⟩ := hsigned.owned goal hgoal
  rw [← h.frames_eq] at hf
  obtain ⟨-, jump, hwithin, hjump, htarget⟩ := hsigned.listing.sought goal hgoal
  rw [hstart, hstop] at hwithin
  obtain ⟨hlow, hhigh⟩ := hinside func f hf jump ((mem_body_iff h.well hf).2 ⟨f, hf, hwithin⟩) hjump goal.pos htarget
  have hentry := UInt16.le_iff_toNat_le.1 (h.well.fits f (List.mem_of_getElem? hf)).start_le
  exact ⟨func, f, hf, hstart, hstop, UInt16.lt_iff_toNat_lt.2 (by omega), hhigh⟩

/-- Lines that go to the same position are in the same function. -/
theorem eq_of_pos (hgoal : goal ∈ goals) (hgoal' : goal' ∈ goals) (hpos : goal.pos = goal'.pos) : goal = goal' := by
  obtain ⟨func, f, hf, hstart, hstop, hlow, hhigh⟩ := h.exists_frame_of_mem hinside hsigned hgoal
  obtain ⟨func', f', hf', hstart', hstop', hlow', hhigh'⟩ := h.exists_frame_of_mem hinside hsigned hgoal'
  have hframed : found.graph.Framed found.frames := h.surveyed.placed.framed
  rw [h.frames_eq] at hf hf'
  obtain rfl : func = func' := hframed.unique hf hf' ⟨UInt16.le_of_lt hlow, hhigh⟩
    ⟨hpos ▸ UInt16.le_of_lt hlow', hpos ▸ hhigh'⟩
  obtain rfl : f = f' := Option.some.inj (hf.symm.trans hf')
  obtain ⟨start, stop, pos⟩ := goal
  obtain ⟨start', stop', pos'⟩ := goal'
  dsimp only at hstart hstop hstart' hstop' hpos
  rw [hstart, hstop, hstart', hstop', hpos]

/-- The label of a destination. -/
theorem exists_labels_of_mem (hlabel : (goal, line) ∈ labels) :
    ∃ func, d.Labels (placeLabel goal.pos) func goal.pos line := by
  have hgoal := hsigned.listing.justified goal line hlabel
  obtain ⟨func, f, hf, hstart, hstop, hlow, hhigh⟩ := h.exists_frame_of_mem hinside hsigned hgoal
  obtain ⟨hshown, hpos, hbefore⟩ := hsigned.listing.signed goal line hlabel
  have hordered := h.well.sound.ordered
  have hlonger := h.account.longer.trans (h.calm 0 0).longer
  have hfits := h.well.fits f (List.mem_of_getElem? hf)
  have hfitsFound := h.surveyed.placed.framed.fits f (List.mem_of_getElem? (h.frames_eq ▸ hf))
  have hin (id : ItemId) (hwithin : d.graph.Within goal.start goal.stop id) : id ∈ d.body func :=
    (mem_body_iff h.well hf).2 ⟨f, hf, hstart ▸ hstop ▸ hwithin⟩
  have hone {goal' : Goal} (hgoal' : goal' ∈ goals) (hsame : placeLabel goal.pos = placeLabel goal'.pos) :
      goal' = goal :=
    h.eq_of_pos hinside hsigned hgoal' hgoal (placeLabel_inj.1 hsame).symm
  refine ⟨func, fun id => ?_, hshown, hin line ⟨?_, ?_⟩, fun id hgoto => ?_, if_neg fun hzero => ?_, ?_,
    fun id hid => hpos ▸ hordered.pos_le hid, fun id hop hle => hbefore id ?_ hle⟩
  · rw [hsigned.listing.lines]
    constructor
    · rintro ⟨goal', hlabel', hsame⟩
      obtain rfl := hone (hsigned.listing.justified goal' id hlabel') hsame
      exact congrArg Prod.snd (List.inj_on_of_nodup_map hsigned.listing.distinct hlabel' hlabel rfl)
    · rintro rfl
      exact ⟨goal, hlabel, rfl⟩
  · refine hordered.precedes_of_pos_lt (hordered.lt_of_mem (hstart ▸ hfits.ordered.left_mem))
      (Item.lt_size_of_controlLine? hshown) ?_
    rwa [hstart, hfits.posFront, hpos]
  · rw [hstop]
    refine hbefore _ (h.surveyed.sound.ordered.lt_of_mem hfitsFound.ordered.right_mem) ?_
    rwa [hfits.posBack]
  · obtain ⟨goal', hgoal', hsame, hwithin⟩ := hsigned.listing.gotos id _ hgoto
    exact hin id (hone hgoal' hsame ▸ hwithin)
  · rw [hzero] at hlow
    exact UInt16.not_lt_zero hlow
  · obtain ⟨jump, hwithin, hjump⟩ := (hsigned.listing.sought goal hgoal).jump
    exact ⟨jump, hin jump hwithin, hjump⟩
  · exact hlonger.lt_of_isOpcodeItem hop

end Ended

end Decompilation

/-- A function that jumps to an instruction inside of it twice, and from there to its end. -/
def jumpingTwice : Image := .ofCode (encode (prologueCode 0 ++
  ([⟨.jmp, some 9⟩, ⟨.jmp, some 9⟩, ⟨.jmp, some 11⟩] ++ epilogueCode))).toArray

end Parley
