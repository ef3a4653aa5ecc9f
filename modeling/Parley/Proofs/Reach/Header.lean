import Parley.Decompile.Render
import Parley.Proofs.Reach.Worklist
import Parley.Proofs.Source.Tree
set_option autoImplicit false

/-!
# Headers in the decompiled listing

The functions that are reached have one header each, and the others none.  The listing may leave out functions that
have not been reached, but a function that is left out ends before the next one begins; so all headers are shown.
-/

namespace Parley

/-! ## What the listing shows of each item -/

namespace Item

theorem kind_of_statement? {item : Item} {statement : Statement} (h : item.statement? = some statement) :
    item.kind = .statement statement := by
  unfold statement? at h
  cases hkind : item.kind <;> simp_all

/-- A header is shown as a line of its own. -/
theorem sourceLines_header (item : Item) {info : FunctionInfo} {count : Nat} (hopen : item.processed = false)
    (hstatement : item.statement? = some (.plain (info.header count))) (layout : RenderOptions) (level : Int) :
    item.sourceLines layout level = [indentation layout.indentWidth level ++ info.header count] := by
  have htext : (info.header count).isEmpty = false := by
    rw [String.isEmpty_eq_false_iff, FunctionInfo.header]
    simp
  unfold sourceLines
  rw [kind_of_statement? hstatement, hopen]
  simp [Statement.plain, htext, StatementRole.indentBefore]

end Item

namespace Decompilation

variable {d : Decompilation}

/-- The lines of the decompiled listing from items on, each with the item that it shows, at a level of indentation
and where a function may be being left out. -/
def linesFrom (d : Decompilation) (layout : RenderOptions) : Int → Bool → List ItemId → List (ItemId × String)
  | _, _, [] => []
  | indent, true, id :: rest => d.linesFrom layout indent ((d.graph.item id).kind ≠ .functionEnd) rest
  | indent, false, id :: rest =>
    if (d.graph.item id).startsUnused then d.linesFrom layout indent true rest
    else ((d.graph.item id).sourceLines layout indent).map (id, ·) ++
      d.linesFrom layout (indent + (d.graph.item id).indentChange) false rest

/-- The lines of the decompiled listing, each with the item that it shows. -/
def sourceLines (d : Decompilation) (layout : RenderOptions) : List (ItemId × String) :=
  d.linesFrom layout 0 false d.graph.order

theorem renderSource_eq (d : Decompilation) (layout : RenderOptions) :
    d.renderSource layout =
      unlines (listingHead d.slot layout ++ (d.sourceLines layout).map Prod.snd) := by
  have hfoldl (ids : List ItemId) (indent : Int) (skips : Bool) (lines : List String) :
      ((ids.map d.graph.item).foldl (ListingState.write layout) ⟨indent, skips, lines⟩).lines.reverse =
        lines.reverse ++ (d.linesFrom layout indent skips ids).map Prod.snd := by
    induction ids generalizing indent skips lines with
    | nil => simp [linesFrom]
    | cons id rest ih =>
      rw [List.map_cons, List.foldl_cons]
      cases skips with
      | true => exact ih _ _ _
      | false =>
        rw [ListingState.write, if_neg Bool.false_ne_true, linesFrom]
        split
        · exact ih _ _ _
        · rw [ih, List.reverse_append, List.reverse_reverse, List.append_assoc, List.map_append, List.map_map,
            Function.comp_def, List.map_id']
  rw [renderSource, sourceLines, itemList, hfoldl, List.reverse_nil, List.nil_append]

theorem fst_mem_of_mem_linesFrom {layout : RenderOptions} {indent : Int} {skips : Bool} {ids : List ItemId}
    {line : ItemId × String} (h : line ∈ d.linesFrom layout indent skips ids) : line.1 ∈ ids := by
  induction ids generalizing indent skips with
  | nil => cases h
  | cons id rest ih =>
    cases skips with
    | true => exact List.mem_cons_of_mem _ (ih h)
    | false =>
      rw [linesFrom] at h
      split at h
      · exact List.mem_cons_of_mem _ (ih h)
      · rcases List.mem_append.1 h with h | h
        · obtain ⟨text, -, rfl⟩ := List.mem_map.1 h
          exact List.mem_cons_self
        · exact List.mem_cons_of_mem _ (ih h)

/-- Where a function is left out behind items, it begins with one of them and does not end with a later one, or it
has been left out from the first of them on. -/
def LeftOut (d : Decompilation) (skips : Bool) (ids : List ItemId) : Prop :=
  (skips = true ∧ ∀ id ∈ ids, (d.graph.item id).kind ≠ .functionEnd) ∨
    ∃ before start behind, ids = before ++ start :: behind ∧ (d.graph.item start).startsUnused = true ∧
      ∀ id ∈ behind, (d.graph.item id).kind ≠ .functionEnd

theorem LeftOut.cons {skips : Bool} {ids : List ItemId} {id : ItemId}
    (h : ∃ before start behind, ids = before ++ start :: behind ∧ (d.graph.item start).startsUnused = true ∧
      ∀ id ∈ behind, (d.graph.item id).kind ≠ .functionEnd) : d.LeftOut skips (id :: ids) := by
  obtain ⟨before, start, behind, rfl, hrest⟩ := h
  exact Or.inr ⟨id :: before, start, behind, rfl, hrest⟩

/-- The lines behind items are those at some level, where a function is being left out only if it begins with one
of the items and does not end with a later one. -/
theorem linesFrom_append (layout : RenderOptions) (indent : Int) (skips : Bool) (front behind : List ItemId) :
    ∃ indent' skips', d.linesFrom layout indent skips (front ++ behind) =
      d.linesFrom layout indent skips front ++ d.linesFrom layout indent' skips' behind ∧
      (skips' = true → d.LeftOut skips front) := by
  induction front generalizing indent skips with
  | nil => exact ⟨indent, skips, rfl, fun h => Or.inl ⟨h, fun _ hid => absurd hid List.not_mem_nil⟩⟩
  | cons id rest ih =>
    rw [List.cons_append]
    cases skips with
    | true =>
      obtain ⟨indent', skips', hlines, hout⟩ := ih indent ((d.graph.item id).kind ≠ .functionEnd)
      refine ⟨indent', skips', hlines, fun h => ?_⟩
      rcases hout h with ⟨hkind, hrest⟩ | hrest
      · exact Or.inl ⟨rfl, List.forall_mem_cons.2 ⟨of_decide_eq_true hkind, hrest⟩⟩
      · exact .cons hrest
    | false =>
      rw [linesFrom, linesFrom]
      split
      · rename_i hstart
        obtain ⟨indent', skips', hlines, hout⟩ := ih indent true
        refine ⟨indent', skips', hlines, fun h => ?_⟩
        rcases hout h with ⟨-, hrest⟩ | hrest
        · exact Or.inr ⟨[], id, rest, rfl, hstart, hrest⟩
        · exact .cons hrest
      · obtain ⟨indent', skips', hlines, hout⟩ := ih (indent + (d.graph.item id).indentChange) false
        refine ⟨indent', skips', by rw [hlines, List.append_assoc], fun h => ?_⟩
        rcases hout h with ⟨hfalse, -⟩ | hrest
        · cases hfalse
        · exact .cons hrest

/-! ## Headers -/

/-- The headers of the function `func`: what stands directly above a line that opens a function at its start. -/
def headers (d : Decompilation) (func : Nat) : List ItemId :=
  d.graph.order.filter fun id => (d.graph.next? id).any fun opening =>
    d.graph.blockRole? opening = some (.opens .function) &&
      (d.graph.item opening).pos = Pass.functionStart d func

/-- The lines of the decompiled listing that show headers of the function `func`. -/
def headerLines (d : Decompilation) (layout : RenderOptions) (func : Nat) : List String :=
  ((d.sourceLines layout).filter fun line => line.1 ∈ d.headers func).map Prod.snd

variable {found : Decompilation} {done : List (Nat × ItemId)} {func : Nat} {f : Frame} {header opening : ItemId}

theorem mem_headers (hd : d.graph.Ordered) (hf : d.frames[func]? = some f) : header ∈ d.headers func ↔
    ∃ opening, Adjoins d.graph.order header opening ∧ d.graph.blockRole? opening = some (.opens .function) ∧
      (d.graph.item opening).pos = f.start := by
  rw [headers, List.mem_filter, functionStart_of_getElem? hf]
  simp only [Option.any_eq_true, Bool.and_eq_true, decide_eq_true_eq]
  constructor
  · rintro ⟨hmem, opening, hnext, hrole, hpos⟩
    exact ⟨opening, hd.adjoins_next? (hd.lt_of_mem hmem) hnext, hrole, hpos⟩
  · rintro ⟨opening, hadjoins, hrole, hpos⟩
    exact ⟨hadjoins.precedes.left_mem, opening, hd.next?_of_adjoins hadjoins, hrole, hpos⟩

namespace Progress

variable (hfound : found.Surveyed) (h : found.Progress done d)

include hfound h

/-- All lines that open functions are those of functions that have been decompiled. -/
theorem exists_entry (hopening : opening ∈ d.graph.order)
    (hrole : d.graph.blockRole? opening = some (.opens .function)) : ∃ func, (func, opening) ∈ done := by
  obtain ⟨lines, hlines, hopenings⟩ := h.advances
  have hentries : (found.marking (found.callsOf (done.map Prod.fst))).graph.entries = [] := by
    rw [← hfound.entries]
    exact Graph.entries_congr (Graph.size_markAll _ _) fun id _ =>
      Graph.blockLine?_markAll (fun _ => statement?_of_mem_callsOf) id
  have hmem : (opening, .opens .function) ∈ d.graph.entries :=
    Graph.mem_entries.2 ⟨hlines.sound.ordered.lt_of_mem hopening, hrole⟩
  rw [hlines.grows.entries, hentries, List.nil_append, ← mem_openings, hopenings] at hmem
  obtain ⟨⟨func, _⟩, hentry, rfl⟩ := List.mem_map.1 hmem
  exact ⟨func, hentry⟩

/-- A header belongs to a function that has been decompiled. -/
theorem exists_heads (hf : found.frames[func]? = some f) (hheader : header ∈ d.headers func) :
    ∃ opening, (func, opening) ∈ done ∧ d.graph.Heads f header opening := by
  obtain ⟨opening, hadjoins, hrole, hpos⟩ := (mem_headers h.sound.ordered (h.frames ▸ hf)).1 hheader
  obtain ⟨func', hentry⟩ := h.exists_entry hfound hadjoins.precedes.right_mem hrole
  obtain ⟨f', header', hf', hheads⟩ := h.heads _ hentry
  have hstart : f'.start = f.start := hheads.pos.symm.trans hpos
  have hsame : func' = func := hfound.placed.framed.eq_of_entersAt hf' hf f'.entersAt_start
    (hstart ▸ f.entersAt_start)
  subst hsame
  obtain rfl : f' = f := Option.some.inj (hf'.symm.trans hf)
  obtain rfl : header = header' := hheads.adjoins.left_unique hadjoins h.sound.ordered.nodup
  exact ⟨opening, hentry, hheads⟩

/-- A function that has not been decompiled has no header. -/
theorem headers_eq_nil (hf : found.frames[func]? = some f) (hnew : func ∉ done.map Prod.fst) :
    d.headers func = [] := by
  refine List.eq_nil_iff_forall_not_mem.2 fun header hheader => ?_
  obtain ⟨opening, hentry, -⟩ := h.exists_heads hfound hf hheader
  exact hnew (List.mem_map_of_mem hentry)

/-- A function that has been decompiled has one header. -/
theorem headers_eq_singleton (hnodup : (done.map Prod.fst).Nodup) (hf : found.frames[func]? = some f)
    (hdone : func ∈ done.map Prod.fst) :
    ∃ header opening, d.headers func = [header] ∧ d.graph.Heads f header opening := by
  obtain ⟨⟨_, opening⟩, hentry, rfl⟩ := List.mem_map.1 hdone
  obtain ⟨f', header, hf', hheads⟩ := h.heads _ hentry
  obtain rfl : f' = f := Option.some.inj (hf'.symm.trans hf)
  refine ⟨header, opening, List.perm_singleton.1 ((List.perm_ext_iff_of_nodup
    (h.sound.ordered.nodup.filter _) (List.nodup_singleton header)).2 fun other => ?_), hheads⟩
  rw [List.mem_singleton]
  constructor
  · intro hother
    obtain ⟨opening', hentry', hheads'⟩ := h.exists_heads hfound hf hother
    have hsame := List.inj_on_of_nodup_map hnodup hentry hentry' rfl
    rw [Prod.mk.injEq] at hsame
    obtain rfl := hsame.2
    exact hheads.adjoins.left_unique hheads'.adjoins h.sound.ordered.nodup
  · rintro rfl
    exact (mem_headers h.sound.ordered (h.frames ▸ hf)).2 ⟨opening, hheads.adjoins, hheads.role, hheads.pos⟩

/-! ## Headers are shown -/

/-- There are no boundaries before functions but those that have been found. -/
theorem fronts {id : ItemId} (hid : (d.graph.item id).kind = .functionStart) :
    ∃ f ∈ found.frames, id = f.startItem := by
  obtain ⟨lines, hlines, -⟩ := h.advances
  exact hfound.placed.fronts id ((Graph.markAll_keeps (p := Item.kind) (fun _ => rfl) found.graph _ id).symm.trans
    (hlines.grows.kind_functionStart hid))

/-- No function is being left out where a header stands. -/
theorem not_leftOut (hf : found.frames[func]? = some f) (hheads : d.graph.Heads f header opening)
    {front behind : List ItemId} (horder : d.graph.order = front ++ header :: behind) :
    ¬ d.LeftOut false front := by
  rintro (⟨hfalse, -⟩ | ⟨before, start, between, rfl, hstart, hends⟩)
  · cases hfalse
  have hd := h.sound.ordered
  have hsplit : d.graph.order = before ++ start :: (between ++ header :: behind) := by
    rw [horder, List.append_assoc, List.cons_append]
  simp only [Item.startsUnused, Bool.and_eq_true, decide_eq_true_eq, Bool.not_eq_true'] at hstart
  obtain ⟨⟨hkind, hopen⟩, -⟩ := hstart
  -- What is left out begins with the boundary before another function.
  obtain ⟨f', hmem, rfl⟩ := h.fronts hfound hkind
  obtain ⟨func', hf'⟩ := List.getElem?_of_mem hmem
  have hne : func ≠ func' := by
    rintro rfl
    rw [Option.some.inj (hf'.symm.trans hf), hheads.marked] at hopen
    cases hopen
  have hfits' : f'.Fits d.graph := (h.well hfound).fits f' (h.frames ▸ hmem)
  have hposHeader := hheads.pos_header h.sound
  have hbefore : Precedes d.graph.order f'.startItem header := by
    rw [hsplit, precedes_split_right (hsplit ▸ hd.nodup)]
    exact List.mem_append_right _ List.mem_cons_self
  have hapart : f'.stop < f.start := by
    refine (hfound.placed.framed.apart_of_ne hf hf' hne).resolve_left fun hapart => ?_
    have hle := hd.pos_le hbefore
    rw [hfits'.posFront, hposHeader] at hle
    obtain ⟨-, hlt⟩ := (hfound.placed.framed.fits f (List.mem_of_getElem? hf)).lt_stop f.entersAt_start
    exact UInt16.not_lt.2 hle (UInt16.lt_trans hlt hapart)
  -- So the end of that function stands between its boundary and the header.
  have hend : Precedes d.graph.order f'.endItem header := by
    refine hd.precedes_of_pos_lt (hfits'.back_site h.sound).lt_size (hd.lt_of_mem hbefore.right_mem) ?_
    rw [hfits'.posBack, hposHeader]
    exact hapart
  have hordered := hfits'.ordered
  rw [hsplit, precedes_split_right (hsplit ▸ hd.nodup)] at hordered
  rcases List.mem_append.1 hordered with hbetween | hbehind
  · exact hends _ hbetween hfits'.back
  · rcases List.mem_cons.1 hbehind with hsame | hbehind
    · exact hend.ne hd.nodup hsame
    · refine hend.asymm hd.nodup ?_
      rw [horder, precedes_split_right (horder ▸ hd.nodup)]
      exact hbehind

/-- The listing shows the header of a function in one line. -/
theorem headerLines_eq (hf : found.frames[func]? = some f) (hheads : d.graph.Heads f header opening)
    (hheader : d.headers func = [header]) (layout : RenderOptions) :
    ∃ (info : FunctionInfo) (count : Nat) (level : Int), info.frame = f ∧
      d.headerLines layout func = [indentation layout.indentWidth level ++ info.header count] := by
  obtain ⟨info, count, hframe, hopen, hstatement⟩ := hheads.text
  obtain ⟨front, behind, horder, hfront, hbehind⟩ :=
    h.sound.ordered.split (h.sound.ordered.lt_of_mem hheads.adjoins.precedes.left_mem)
  obtain ⟨level, skips, hlines, hout⟩ := d.linesFrom_append layout 0 false front (header :: behind)
  have hskips : skips = false := by
    cases skips with
    | false => rfl
    | true => exact absurd (hout rfl) (h.not_leftOut hfound hf hheads horder)
  refine ⟨info, count, level, hframe, ?_⟩
  have hothers {ids : List ItemId} {indent : Int} {skips : Bool} (hids : header ∉ ids) :
      (d.linesFrom layout indent skips ids).filter (fun line => line.1 ∈ d.headers func) = [] := by
    refine List.filter_eq_nil_iff.2 fun line hline => ?_
    rw [hheader, decide_eq_true_eq, List.mem_singleton]
    exact fun hsame => hids (hsame ▸ fst_mem_of_mem_linesFrom hline)
  rw [headerLines, sourceLines, horder, hlines, hskips, linesFrom, if_neg, List.filter_append,
    List.filter_append, hothers hfront, hothers hbehind, List.nil_append, List.append_nil,
    (d.graph.item header).sourceLines_header hopen hstatement layout level]
  · simp [hheader]
  · rw [Item.startsUnused, Item.kind_of_statement? hstatement]
    exact Bool.false_ne_true

end Progress

end Decompilation

/-! ## The functions of a decompiled conversation -/

/-- Exactly the functions that calls reach from the start are decompiled.  When decompilation ends without a fault
a function that is reached has one header, which the listing shows in one line, and one that is not reached has
none.  If a call in a function that is reached leads to where there is no function, decompilation does end with a
fault: with that of a function that is unknown, or with one by which the call has not been replaced yet.  Names
that were given may not begin like the label of a call that leads nowhere. -/
theorem decompile_reached {image : Image} {strings : List String} {options : NamingOptions}
    (hnames : ∀ pos name, options.functionNames.get? pos = some name → beginsWith "invalid_" name = false) :
    let found := Decompilation.survey image strings options
    (∀ d, Pass.decompile (.ofImage image strings options) = .ok () d →
      d.frames = found.frames ∧
      (∀ func f, d.frames[func]? = some f →
        (found.Reaches func → (∃ header, d.headers func = [header]) ∧
          ∀ layout, ∃ (info : FunctionInfo) (count : Nat) (level : Int), info.frame = f ∧
            d.headerLines layout func = [indentation layout.indentWidth level ++ info.header count]) ∧
        (¬ found.Reaches func → d.headers func = [] ∧ ∀ layout, d.headerLines layout func = [])) ∧
      ∀ layout, d.renderSource layout =
        unlines (listingHead d.slot layout ++ (d.sourceLines layout).map Prod.snd)) ∧
    ∀ func, found.Reaches func → ∀ call ∈ found.body func, ∀ target, (found.graph.item call).Calls target →
      target ≠ nowhere → (∀ f ∈ found.frames, f.entersAt target = false) →
      ∃ fault d, Pass.decompile (.ofImage image strings options) = .error fault d ∧
        ((∃ name, fault = .unknownFunction name) ∨ (d.graph.item call).processed = false) := by
  have houtcome : (Decompilation.survey image strings options).Outcome
      (Pass.decompile (.ofImage image strings options)) := Decompilation.outcome_decompile hnames
  have hfound := Decompilation.surveyed_survey image strings options
  have hshown (id : ItemId) : (Decompilation.survey image strings options).Shown id :=
    Decompilation.shown_survey hnames id
  intro found
  refine ⟨fun d hd => ?_, fun func hreaches call hbody target hcalls hwhere hnone => ?_⟩
  · rw [hd] at houtcome
    cases houtcome with
    | @done done d hsearched h =>
      refine ⟨h.frames, fun func f hf => ⟨fun hreaches => ?_, fun hreaches => ?_⟩, d.renderSource_eq⟩ <;>
        rw [h.frames] at hf
      · obtain ⟨header, opening, hheader, hheads⟩ :=
          h.headers_eq_singleton hfound hsearched.nodup hf (hsearched.mem_iff.2 hreaches)
        exact ⟨⟨header, hheader⟩, h.headerLines_eq hfound hf hheads hheader⟩
      · have hnil := h.headers_eq_nil hfound hf fun hdone => hreaches (hsearched.mem_iff.1 hdone)
        refine ⟨hnil, fun layout => ?_⟩
        simp [Decompilation.headerLines, hnil]
  · -- What such a call enters is never found out.
    have hstuck {func : Nat} {callee? : Option Nat} (henters : found.Enters func (found.graph.item call) callee?) :
        False := by
      obtain ⟨callee, hcallee, -⟩ := hfound.entered (hshown call) henters hcalls hwhere
      obtain ⟨f, hf, hentersAt⟩ := (Decompilation.functionAt?_eq_some_iff hfound.placed.framed).1 hcallee
      rw [hnone f (List.mem_of_getElem? hf)] at hentersAt
      cases hentersAt
    generalize Pass.decompile (.ofImage image strings options) = result at *
    cases houtcome with
    | @done done d hsearched h =>
      have hcall : call ∈ found.calls func := List.mem_filter.2 ⟨hbody, hcalls.1⟩
      obtain ⟨callee?, henters⟩ := h.enters func (hsearched.mem_iff.2 hreaches) call hcall
      exact (hstuck henters).elim
    | @failed fault d h =>
      refine ⟨fault, d, rfl, h.imp_right fun henters => ?_⟩
      by_contra hmarked
      obtain ⟨func', callee?, henters⟩ := henters call (Bool.not_eq_false _ ▸ hmarked) hcalls.1
      exact hstuck henters

/-- The code of a function that calls what is at a position. -/
def callerCode (target : UInt16) : List Instruction :=
  Source.prologueCode 0 ++ ([⟨.call, some target⟩] ++ Source.epilogueCode)

/-- Three functions: the start calls what is at a position, the second calls the start, and the third the
second. -/
def threeCallers (target : UInt16) : Image :=
  .ofCode (Source.encode (callerCode target ++ callerCode 0 ++ callerCode 10)).toArray

/-- When the start calls the second function, the third is the only one that is not reached; when it calls an
instruction of the second, decompilation fails. -/
theorem decompile_reached_threeCallers :
    (∃ d, Pass.decompile (.ofImage (threeCallers 10) [] ⟨false, .empty⟩) = .ok () d ∧
      ((Decompilation.survey (threeCallers 10) [] ⟨false, .empty⟩).Reaches 1 ∧ ∃ header, d.headers 1 = [header]) ∧
      ¬ (Decompilation.survey (threeCallers 10) [] ⟨false, .empty⟩).Reaches 2 ∧ d.headers 2 = []) ∧
    ∃ fault d, Pass.decompile (.ofImage (threeCallers 12) [] ⟨false, .empty⟩) = .error fault d ∧
      ((∃ name, fault = .unknownFunction name) ∨ (d.graph.item 4).processed = false) := by
  have hnames : ∀ pos name, (⟨false, .empty⟩ : NamingOptions).functionNames.get? pos = some name →
      beginsWith "invalid_" name = false := fun _ _ h => nomatch h
  constructor
  · obtain ⟨d, hd, hasked⟩ := decompilesTo_iff.1 (show decompilesTo (threeCallers 10) (fun d =>
      d.frames.length = 3 ∧ (d.headers 1).length = 1 ∧ d.headers 2 = []) = true by decide +kernel)
    obtain ⟨hlength, hone, hnone⟩ := of_decide_eq_true hasked
    obtain ⟨-, hheaders, -⟩ := (decompile_reached hnames).1 d hd
    have hframe {func : Nat} (hfunc : func < 3) : ∃ f, d.frames[func]? = some f :=
      ⟨_, List.getElem?_eq_getElem (hlength ▸ hfunc)⟩
    obtain ⟨f, hf⟩ := hframe (show 1 < 3 by decide)
    obtain ⟨f', hf'⟩ := hframe (show 2 < 3 by decide)
    refine ⟨d, hd, ⟨?_, List.length_eq_one_iff.1 hone⟩, fun hreaches => ?_, hnone⟩
    · by_contra hreaches
      rw [((hheaders 1 f hf).2 hreaches).1] at hone
      cases hone
    · obtain ⟨⟨header, hheader⟩, -⟩ := (hheaders 2 f' hf').1 hreaches
      rw [hnone] at hheader
      cases hheader
  · refine (decompile_reached hnames).2 0 ⟨0, by decide +kernel, .refl⟩ 4 (by decide +kernel) 12
      ⟨by decide +kernel, by decide +kernel⟩ (by decide) (by decide +kernel)

end Parley
