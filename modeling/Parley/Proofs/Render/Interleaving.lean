import Parley.Proofs.Render.Boundary
set_option autoImplicit false

/-!
# The decompiled listing with replaced instructions as comments

The listing with comments is the plain listing with further lines, one for each instruction that has been replaced and
stands in no function that is left out.  A function is left out from the boundary before it up to the one before its
epilogue.
-/

namespace Parley

/-- A layout with or without the replaced instructions as comments. -/
def RenderOptions.showing (layout : RenderOptions) (shows : Bool) : RenderOptions :=
  { layout with showsInstructions := shows }

namespace Item

variable {item : Item} {layout : RenderOptions} {indent : Int}

/-- What nothing has replaced is shown alike in both listings. -/
theorem sourceLines_showing (hopen : item.processed = false) (shows shows' : Bool) :
    item.sourceLines (layout.showing shows) indent = item.sourceLines (layout.showing shows') indent := by
  unfold sourceLines
  rw [hopen]
  rfl

/-- What has been replaced is not shown in the plain listing. -/
theorem sourceLines_replaced (hprocessed : item.processed = true) :
    item.sourceLines (layout.showing false) indent = [] := by
  unfold sourceLines
  rw [hprocessed]
  rfl

/-- What has been replaced is a comment in the other listing if it is an instruction. -/
theorem sourceLines_comment (hprocessed : item.processed = true) :
    item.sourceLines (layout.showing true) indent =
      item.opcodeLine?.toList.map fun text => indentation layout.indentWidth indent ++ "// " ++ text := by
  unfold sourceLines
  rw [hprocessed]
  rfl

end Item

namespace Decompilation

variable {d : Decompilation} {layout : RenderOptions} {f : Frame} {id : ItemId}

/-! ## Comments -/

/-- Without the lines of what has been replaced the listing with comments is the plain one. -/
theorem filter_linesFrom (indent : Int) (skips : Bool) (ids : List ItemId) :
    (d.linesFrom (layout.showing true) indent skips ids).filter (fun line => !(d.graph.item line.1).processed) =
      d.linesFrom (layout.showing false) indent skips ids := by
  induction ids generalizing indent skips with
  | nil => cases skips <;> rfl
  | cons id rest ih =>
    cases skips with
    | true => exact ih _ _
    | false =>
      rw [linesFrom, linesFrom]
      split
      · exact ih _ _
      · rw [List.filter_append, ih]
        congr 1
        cases hprocessed : (d.graph.item id).processed with
        | true =>
          rw [Item.sourceLines_replaced hprocessed, List.map_nil, List.filter_eq_nil_iff]
          intro line hline
          obtain ⟨text, -, rfl⟩ := List.mem_map.1 hline
          simp [hprocessed]
        | false =>
          rw [Item.sourceLines_showing hprocessed true false, List.filter_eq_self]
          intro line hline
          obtain ⟨text, -, rfl⟩ := List.mem_map.1 hline
          simp [hprocessed]

/-- A line shows its item at some level of indentation. -/
theorem exists_level {indent : Int} {skips : Bool} {ids : List ItemId} {line : ItemId × String}
    (h : line ∈ d.linesFrom layout indent skips ids) :
    ∃ level, line.2 ∈ (d.graph.item line.1).sourceLines layout level := by
  induction ids generalizing indent skips with
  | nil => cases skips <;> cases h
  | cons id rest ih =>
    cases skips with
    | true => exact ih h
    | false =>
      rw [linesFrom] at h
      split at h
      · exact ih h
      · rcases List.mem_append.1 h with h | h
        · obtain ⟨text, htext, rfl⟩ := List.mem_map.1 h
          exact ⟨indent, htext⟩
        · exact ih h

/-! ## What is left out -/

/-- Up to the end of a function that is left out nothing is shown. -/
theorem linesFrom_leftOut {indent : Int} {middle behind : List ItemId} {stop : ItemId}
    (hmiddle : ∀ id ∈ middle, (d.graph.item id).kind ≠ .functionEnd)
    (hstop : (d.graph.item stop).kind = .functionEnd) :
    d.linesFrom layout indent true (middle ++ stop :: behind) = d.linesFrom layout indent false behind := by
  induction middle with
  | nil =>
    rw [List.nil_append, linesFrom, hstop]
    simp
  | cons id rest ih =>
    rw [List.cons_append, linesFrom, decide_eq_true (hmiddle id List.mem_cons_self)]
    exact ih fun other hother => hmiddle other (List.mem_cons_of_mem _ hother)

/-- Different functions stand one before the other. -/
theorem apart_of_mem (hframed : d.graph.Framed d.frames) {f' : Frame} (hf : f ∈ d.frames) (hf' : f' ∈ d.frames)
    (hne : f ≠ f') : f.stop < f'.start ∨ f'.stop < f.start := by
  obtain ⟨func, hfunc⟩ := List.getElem?_of_mem hf
  obtain ⟨func', hfunc'⟩ := List.getElem?_of_mem hf'
  refine hframed.apart_of_ne hfunc hfunc' fun hsame => hne ?_
  rw [hsame, hfunc'] at hfunc
  exact (Option.some.inj hfunc).symm

section Bordered

variable (hsound : d.graph.Sound) (hframed : d.graph.Framed d.frames) (hbordered : d.graph.Bordered d.frames)

include hsound hframed hbordered

/-- Where something is left out, a function that is left out has begun and not ended. -/
theorem LeftOut.exists_frame {front behind : List ItemId} (h : d.LeftOut false front)
    (horder : d.graph.order = front ++ id :: behind) :
    ∃ f ∈ d.frames, (d.graph.item f.startItem).startsUnused = true ∧ Precedes d.graph.order f.startItem id ∧
      ¬ Precedes d.graph.order f.endItem id := by
  rcases h with ⟨hfalse, -⟩ | ⟨before, start, between, rfl, hstart, hends⟩
  · cases hfalse
  have hnodup := hsound.ordered.nodup
  have hkind : (d.graph.item start).kind = .functionStart := by
    simp only [Item.startsUnused, Bool.and_eq_true, decide_eq_true_eq] at hstart
    exact hstart.1.1
  have hmem : start ∈ d.graph.order := by simp [horder]
  obtain ⟨f, hf, rfl⟩ := hbordered.fronts start hmem hkind
  refine ⟨f, hf, hstart, ?_, fun hend => ?_⟩
  · rw [horder, precedes_split_left (horder ▸ hnodup)]
    simp
  · have hfits := hframed.fits f hf
    have hsplit : d.graph.order = before ++ f.startItem :: (between ++ id :: behind) := by
      rw [horder, List.append_assoc]
      rfl
    have hordered := hfits.ordered
    rw [hsplit, precedes_split_right (hsplit ▸ hnodup)] at hordered
    rcases List.mem_append.1 hordered with hbetween | hbehind
    · exact hends _ hbetween hfits.back
    · rcases List.mem_cons.1 hbehind with hsame | hbehind
      · exact hend.ne hnodup hsame
      · refine hend.asymm hnodup ?_
        rw [horder, precedes_split_right (horder ▸ hnodup)]
        exact hbehind

/-- What stands in no function that is left out is shown. -/
theorem exists_shown (hid : id ∈ d.graph.order) (hopen : (d.graph.item id).startsUnused = false)
    (hout : ∀ f ∈ d.frames, (d.graph.item f.startItem).startsUnused = true → Precedes d.graph.order f.startItem id →
      Precedes d.graph.order f.endItem id) (layout : RenderOptions) :
    ∃ level, ∀ text ∈ (d.graph.item id).sourceLines layout level, (id, text) ∈ d.sourceLines layout := by
  obtain ⟨front, behind, horder⟩ := List.append_of_mem hid
  obtain ⟨level, skips, hlines, hleft⟩ := d.linesFrom_append layout 0 false front (id :: behind)
  have hskips : skips = false := by
    cases skips with
    | false => rfl
    | true =>
      obtain ⟨f, hf, hstart, hbefore, hend⟩ := (hleft rfl).exists_frame hsound hframed hbordered horder
      exact absurd (hout f hf hstart hbefore) hend
  refine ⟨level, fun text htext => ?_⟩
  rw [sourceLines, horder, hlines, hskips, linesFrom, if_neg (Bool.eq_false_iff.1 hopen)]
  exact List.mem_append_right _ (List.mem_append_left _ (List.mem_map_of_mem htext))

omit hbordered in
/-- A function that begins before another one ends before that. -/
theorem endItem_precedes {f' : Frame} (hf : f ∈ d.frames) (hf' : f' ∈ d.frames)
    (hfirst : Precedes d.graph.order f'.startItem f.startItem) : Precedes d.graph.order f'.endItem f.startItem := by
  have hfits := hframed.fits f hf
  have hfits' := hframed.fits f' hf'
  have hne : f' ≠ f := fun hsame => hfirst.ne hsound.ordered.nodup (by rw [hsame])
  refine hsound.ordered.precedes_of_pos_lt (hsound.ordered.lt_of_mem hfits'.ordered.right_mem)
    (hsound.ordered.lt_of_mem hfits.ordered.left_mem) ?_
  rw [hfits'.posBack, hfits.posFront]
  refine (apart_of_mem hframed hf' hf hne).resolve_right fun hapart => ?_
  have hle := hsound.ordered.pos_le hfirst
  rw [hfits'.posFront, hfits.posFront] at hle
  obtain ⟨-, hlt⟩ := hfits.lt_stop f.entersAt_start
  exact UInt16.lt_irrefl _ (UInt16.lt_of_lt_of_le (UInt16.lt_trans hlt hapart) hle)

/-- No function ends between the boundaries of another one. -/
theorem kind_ne_functionEnd (hf : f ∈ d.frames) (hafter : Precedes d.graph.order f.startItem id)
    (hahead : Precedes d.graph.order id f.endItem) : (d.graph.item id).kind ≠ .functionEnd := by
  intro hkind
  obtain ⟨f', hf', rfl⟩ := hbordered.backs id hafter.right_mem hkind
  have hfits := hframed.fits f hf
  have hfits' := hframed.fits f' hf'
  have hne : f' ≠ f := fun hsame => hahead.ne hsound.ordered.nodup (by rw [hsame])
  have hafterPos := hsound.ordered.pos_le hafter
  have haheadPos := hsound.ordered.pos_le hahead
  rw [hfits.posFront, hfits'.posBack] at hafterPos
  rw [hfits.posBack, hfits'.posBack] at haheadPos
  rcases apart_of_mem hframed hf' hf hne with hapart | hapart
  · exact UInt16.lt_irrefl _ (UInt16.lt_of_le_of_lt hafterPos hapart)
  · obtain ⟨-, hlt⟩ := hfits'.lt_stop f'.entersAt_start
    exact UInt16.lt_irrefl _ (UInt16.lt_of_le_of_lt haheadPos (UInt16.lt_trans hapart hlt))

/-- Of a function that is left out nothing is shown from the boundary before it up to the one before its epilogue. -/
theorem notMem_sourceLines (hf : f ∈ d.frames) (hstart : (d.graph.item f.startItem).startsUnused = true)
    {line : ItemId × String} (hline : line ∈ d.sourceLines layout)
    (hbefore : line.1 = f.startItem ∨ Precedes d.graph.order f.startItem line.1) :
    Precedes d.graph.order f.endItem line.1 := by
  have hnodup := hsound.ordered.nodup
  have hfits := hframed.fits f hf
  obtain ⟨front, rest, horder⟩ := List.append_of_mem hfits.ordered.left_mem
  have hordered := hfits.ordered
  rw [horder, precedes_split_right (horder ▸ hnodup)] at hordered
  obtain ⟨middle, behind, rfl⟩ := List.append_of_mem hordered
  have horder' : d.graph.order = (front ++ f.startItem :: middle) ++ f.endItem :: behind := by
    rw [horder, List.append_assoc]
    rfl
  obtain ⟨level, skips, hlines, hleft⟩ :=
    d.linesFrom_append layout 0 false front (f.startItem :: (middle ++ f.endItem :: behind))
  have hskips : skips = false := by
    cases skips with
    | false => rfl
    | true =>
      obtain ⟨f', hf', -, hfirst, hend⟩ := (hleft rfl).exists_frame hsound hframed hbordered horder
      exact absurd (endItem_precedes hsound hframed hf hf' hfirst) hend
  have hmiddle : ∀ id ∈ middle, (d.graph.item id).kind ≠ .functionEnd := by
    intro id hid
    refine kind_ne_functionEnd hsound hframed hbordered hf ?_ ?_
    · rw [horder, precedes_split_right (horder ▸ hnodup)]
      exact List.mem_append_left _ hid
    · rw [horder', precedes_split_left (horder' ▸ hnodup)]
      simp [hid]
  rw [sourceLines, horder, hlines, hskips, linesFrom, if_pos hstart, linesFrom_leftOut hmiddle hfits.back] at hline
  rcases List.mem_append.1 hline with hline | hline
  · have hmem := fst_mem_of_mem_linesFrom hline
    have hahead : Precedes d.graph.order line.1 f.startItem := by
      rw [horder, precedes_split_left (horder ▸ hnodup)]
      exact hmem
    rcases hbefore with hsame | hbefore
    · exact absurd hsame (hahead.ne hnodup)
    · exact (hahead.asymm hnodup hbefore).elim
  · rw [horder', precedes_split_right (horder' ▸ hnodup)]
    exact fst_mem_of_mem_linesFrom hline

/-- No instruction before the epilogue of a function that is left out is shown. -/
theorem not_shown (hf : f ∈ d.frames) (hstart : (d.graph.item f.startItem).startsUnused = true)
    {line : ItemId × String} (hline : line ∈ d.sourceLines layout)
    (hitem : (d.graph.item line.1).isOpcodeItem = true) :
    ¬ (f.start ≤ (d.graph.item line.1).pos ∧ (d.graph.item line.1).pos < f.stop) := by
  rintro ⟨hle, hlt⟩
  have hfits := hframed.fits f hf
  have hsize := Graph.lt_size_of_isOpcodeItem hitem
  have hbefore : Precedes d.graph.order f.startItem line.1 := by
    rcases UInt16.lt_or_eq_of_le hle with hless | hsame
    · refine hsound.ordered.precedes_of_pos_lt (hsound.ordered.lt_of_mem hfits.ordered.left_mem) hsize ?_
      rwa [hfits.posFront]
    · exact hbordered.opened f hf _ ((hsound.ordered.mem_order _).2 hsize) hitem hsame.symm
  have hend := hsound.ordered.pos_le
    (notMem_sourceLines hsound hframed hbordered hf hstart hline (Or.inr hbefore))
  rw [hfits.posBack] at hend
  exact UInt16.lt_irrefl _ (UInt16.lt_of_le_of_lt hend hlt)

/-- The epilogue of a function stands in no function that is left out. -/
theorem epilogue_shown (hf : f ∈ d.frames)
    (hid : id ∈ (d.graph.instructionsFrom f.endItem).take epilogue.length) (layout : RenderOptions) :
    ∃ level, ∀ text ∈ (d.graph.item id).sourceLines layout level, (id, text) ∈ d.sourceLines layout := by
  have hmem := List.mem_of_mem_take hid
  have hsize := Graph.lt_of_mem_instructionsFrom hmem
  have hitem : (d.graph.item id).isOpcodeItem = true := (List.mem_filter.1 hmem).2
  have hfits := hframed.fits f hf
  have hend : Precedes d.graph.order f.endItem id := by
    obtain ⟨hwhere, -⟩ :=
      (hsound.ordered.mem_instructionsFrom (hsound.ordered.lt_of_mem hfits.ordered.right_mem)).1 hmem
    refine hwhere.resolve_left ?_
    rintro rfl
    rw [Item.isOpcodeItem, Item.opcodeItem?, hfits.back] at hitem
    cases hitem
  have hle := hsound.ordered.pos_le hend
  rw [hfits.posBack] at hle
  refine exists_shown hsound hframed hbordered ((hsound.ordered.mem_order id).2 hsize) ?_
    (fun f' hf' _ hbefore => ?_) layout
  · obtain ⟨op, hop⟩ := Option.isSome_iff_exists.1 hitem
    unfold Item.opcodeItem? at hop
    unfold Item.startsUnused
    cases hkind : (d.graph.item id).kind <;> simp_all
  · by_cases hsame : f' = f
    · rwa [hsame]
    have hfits' := hframed.fits f' hf'
    rcases apart_of_mem hframed hf' hf hsame with hapart | hapart
    · refine hsound.ordered.precedes_of_pos_lt (hsound.ordered.lt_of_mem hfits'.ordered.right_mem) hsize ?_
      obtain ⟨-, hlt⟩ := hfits.lt_stop f.entersAt_start
      rw [hfits'.posBack]
      exact UInt16.lt_of_lt_of_le (UInt16.lt_trans hapart hlt) hle
    · have hpos := hsound.ordered.pos_le hbefore
      rw [hfits'.posFront] at hpos
      exact absurd (hbordered.apart f hf f' hf' hapart id hid) (UInt16.not_lt.2 hpos)

end Bordered

/-! ## The two listings -/

/-- The listing with comments is the plain one with further lines, which are the comments for instructions that have
been replaced.  A function that is left out is left out up to its epilogue: the instructions before that are in
neither listing, and those of the epilogue are comments. -/
theorem renderSource_comments {image : Image} {strings : List String} {options : NamingOptions} {d : Decompilation}
    (h : Pass.decompile (.ofImage image strings options) = .ok () d) (layout : RenderOptions) :
    let plain := d.sourceLines (layout.showing false)
    let commented := d.sourceLines (layout.showing true)
    d.renderSource (layout.showing false) = unlines (listingHead d.slot layout ++ plain.map Prod.snd) ∧
    d.renderSource (layout.showing true) = unlines (listingHead d.slot layout ++ commented.map Prod.snd) ∧
    commented.filter (fun line => !(d.graph.item line.1).processed) = plain ∧
    (∀ line ∈ commented, (d.graph.item line.1).processed = true → ∃ level text,
      (d.graph.item line.1).opcodeLine? = some text ∧
        line.2 = indentation layout.indentWidth level ++ "// " ++ text) ∧
    ∀ f ∈ d.frames, (d.graph.item f.startItem).startsUnused = true →
      (∀ line ∈ commented, (d.graph.item line.1).isOpcodeItem = true →
        ¬ (f.start ≤ (d.graph.item line.1).pos ∧ (d.graph.item line.1).pos < f.stop)) ∧
      ((d.graph.instructionsFrom f.endItem).take 3).map (fun id => (d.graph.item id).opcode?) =
        [some .bpToSp, some .popBp, some .ret] ∧
      ∀ id ∈ (d.graph.instructionsFrom f.endItem).take 3,
        (∀ line ∈ plain, line.1 ≠ id) ∧
        ∃ level text, (d.graph.item id).opcodeLine? = some text ∧
          (id, indentation layout.indentWidth level ++ "// " ++ text) ∈ commented := by
  obtain ⟨hsound, hframed, hbordered⟩ := bordered_decompile h
  have hfilter : (d.sourceLines (layout.showing true)).filter (fun line => !(d.graph.item line.1).processed) =
      d.sourceLines (layout.showing false) := filter_linesFrom 0 false d.graph.order
  refine ⟨d.renderSource_eq _, d.renderSource_eq _, hfilter, fun line hline hprocessed => ?_,
    fun f hf hstart => ⟨fun line hline hitem => not_shown hsound hframed hbordered hf hstart hline hitem, ?_,
      fun id hid => ⟨fun line hline hsame => ?_, ?_⟩⟩⟩
  · obtain ⟨level, hlevel⟩ := exists_level hline
    rw [Item.sourceLines_comment hprocessed] at hlevel
    obtain ⟨text, htext, heq⟩ := List.mem_map.1 hlevel
    exact ⟨level, text, Option.mem_toList.1 htext, heq.symm⟩
  · have htake := List.prefix_iff_eq_take.1 (hbordered.closed f hf)
    rw [List.map_take]
    exact htake.symm
  · -- The plain listing shows nothing that has been replaced.
    have hprocessed := hbordered.replaced f hf id hid
    rw [← hfilter] at hline
    have hopen := (List.mem_filter.1 hline).2
    rw [hsame, hprocessed] at hopen
    cases hopen
  · obtain ⟨level, hlevel⟩ := epilogue_shown hsound hframed hbordered hf hid (layout.showing true)
    have hitem : (d.graph.item id).isOpcodeItem = true := (List.mem_filter.1 (List.mem_of_mem_take hid)).2
    obtain ⟨op, hop⟩ := Option.isSome_iff_exists.1 hitem
    obtain ⟨text, htext⟩ : ∃ text, (d.graph.item id).opcodeLine? = some text := by
      rw [Item.opcodeLine?, hop]
      exact ⟨_, rfl⟩
    refine ⟨level, text, htext, hlevel _ ?_⟩
    rw [Item.sourceLines_comment (hbordered.replaced f hf id hid), htext]
    exact List.mem_cons_self

/-- A function that stores a number in its local variable, and another one that nothing calls. -/
def uncalled : Image := .ofCode (Source.encode (storingCode 5 ++ storingCode 7)).toArray
where
  storingCode (value : UInt16) : List Instruction :=
    Source.prologueCode 2 ++ [⟨.pushiEff, some 1⟩, ⟨.pushi, some value⟩, ⟨.sto, none⟩] ++ Source.epilogueCode

/-- In neither listing stands an instruction before the epilogue of the function that nothing calls. -/
theorem renderSource_comments_uncalled : ∃ d,
    Pass.decompile (.ofImage uncalled [] ⟨false, .empty⟩) = .ok () d ∧
    (d.sourceLines (RenderOptions.standard.showing true)).filter (fun line => !(d.graph.item line.1).processed) =
      d.sourceLines (RenderOptions.standard.showing false) ∧
    ∃ f ∈ d.frames, (f.start, f.stop) = (0x000d, 0x0017) ∧ (d.graph.item f.startItem).startsUnused = true ∧
      ∀ line ∈ d.sourceLines (RenderOptions.standard.showing true), (d.graph.item line.1).isOpcodeItem = true →
        ¬ (f.start ≤ (d.graph.item line.1).pos ∧ (d.graph.item line.1).pos < f.stop) := by
  obtain ⟨d, hrun, f, hf, hplace, hstart⟩ : ∃ d,
      Pass.decompile (.ofImage uncalled [] ⟨false, .empty⟩) = .ok () d ∧
      ∃ f ∈ d.frames, (f.start, f.stop) = (0x000d, 0x0017) ∧ (d.graph.item f.startItem).startsUnused = true :=
    exists_decompile (by decide +kernel)
  obtain ⟨-, -, hfilter, -, hout⟩ := renderSource_comments hrun .standard
  exact ⟨d, hrun, hfilter, f, hf, hplace, hstart, (hout f hf hstart).1⟩

/-- The listing with comments shows the epilogue of the function that nothing calls. -/
theorem epilogue_commented_uncalled : ∃ d,
    Pass.decompile (.ofImage uncalled [] ⟨false, .empty⟩) = .ok () d ∧
    (d.sourceLines (RenderOptions.standard.showing true)).map Prod.snd =
      ["void start() // referenced 1 times", openBrace, "   int local_1;", "   // 0000 PUSHBP",
        "   // 0001 SPTOBP", "   // 0002 PUSHI 0x0002", "   // 0004 ADDSP", "   local_1 = 5;",
        "   // 0005 PUSHI_EFF 0x0001", "   // 0007 PUSHI 0x0005", "   // 0009 STO", closeBrace ++ " // end-function", "",
        "// 000a BPTOSP", "// 000b POPBP", "// 000c RET", "// 0017 BPTOSP", "// 0018 POPBP", "// 0019 RET"] ∧
    ∃ f ∈ d.frames, (d.graph.item f.startItem).startsUnused = true ∧
      ∃ line ∈ d.sourceLines (RenderOptions.standard.showing true), (d.graph.item line.1).opcode? = some .bpToSp ∧
        (d.graph.item line.1).pos = f.stop :=
  exists_decompile (by decide +kernel)

end Decompilation

end Parley
