import Parley.Proofs.Decompile.Phase
set_option autoImplicit false

/-!
# The decompilation of one function

A function is decompiled when all calls in it are replaced and it has a header, once.  If there is a fault some of
its calls have been replaced.
-/

namespace Parley

open Fallible

/-! ## Lines that open functions -/

/-- The lines that open functions. -/
def openings (lines : List (ItemId × StatementRole)) : List ItemId :=
  (lines.filter fun line => line.2 = .opens .function).map Prod.fst

theorem openings_append (lines lines' : List (ItemId × StatementRole)) :
    openings (lines ++ lines') = openings lines ++ openings lines' := by
  rw [openings, List.filter_append, List.map_append, openings, openings]

theorem mem_openings {lines : List (ItemId × StatementRole)} {id : ItemId} :
    id ∈ openings lines ↔ (id, .opens .function) ∈ lines := by
  simp [openings]

theorem Written.openings_eq_nil {lines : List (ItemId × StatementRole)} {blocks : List Block}
    (h : Written lines blocks) (hkinds : ∀ b ∈ blocks, b.kind ≠ .function) : openings lines = [] := by
  refine List.eq_nil_iff_forall_not_mem.2 fun id hid => ?_
  obtain ⟨b, hb, hline⟩ := h.mem_lines.1 (mem_openings.1 hid)
  refine hkinds b hb ?_
  simp only [Block.lines, List.cons_append, List.mem_cons, List.mem_append, List.mem_map, Prod.mk.injEq,
    reduceCtorEq, and_false, exists_false, StatementRole.opens.injEq, List.not_mem_nil, or_false] at hline
  exact hline.2.symm

namespace Decompilation

variable {d d' : Decompilation} {func : Nat} {f : Frame}

theorem Writes.exists_advances (h : d.Writes d') : ∃ lines, openings lines = [] ∧ d.Advances lines d' := by
  obtain ⟨lines, blocks, hwritten, hkinds, hgrows⟩ := h.graph
  exact ⟨lines, hwritten.openings_eq_nil hkinds, hgrows, h.frames⟩

theorem Writes.sound (h : d.Writes d') : d'.graph.Sound := h.graph.sound

/-- What comes of the decompilation of the function `func`, which has the frame `f`: all of its calls are replaced
and one header is written, or a part of the calls is replaced before a fault.  If that is none of the search for a
function all of the part enter what they should. -/
inductive Decompiled (d : Decompilation) (func : Nat) (f : Frame) :
    EStateM.Result DecompileFault Decompilation (List Nat) → Prop where
  | done {entries : List (ItemId × Option Nat)} {lines : List (ItemId × StatementRole)}
      {header opening : ItemId} {d' : Decompilation} (hcalls : entries.map Prod.fst = d.openCalls (d.body func))
      (henters : ∀ entry ∈ entries, d.Enters func (d.graph.item entry.1) entry.2)
      (h : (d.marking (d.openCalls (d.body func))).Advances lines d') (hopening : openings lines = [opening])
      (hheads : d'.graph.Heads f header opening) :
      Decompiled d func f (.ok (entries.filterMap Prod.snd) d')
  | failed {front : List ItemId} {lines : List (ItemId × StatementRole)} {fault : DecompileFault}
      {d' : Decompilation} (hfront : front ⊆ d.openCalls (d.body func)) (h : (d.marking front).Advances lines d')
      (henters : (∃ name, fault = .unknownFunction name) ∨
        ∀ call ∈ front, ∃ callee?, d.Enters func (d.graph.item call) callee?) :
      Decompiled d func f (.error fault d')

end Decompilation

namespace Pass

variable {d : Decompilation} {func : Nat} {f : Frame}

/-- All that is done to a function between its analysis and its signature writes whole blocks, none of which is a
function. -/
theorem writes_structure (hd : d.graph.Sound) (func : Nat) :
    d.Writes (final ((combine func >>= fun _ => structureFunction func) d)) := by
  have hbind {α β : Type} {x : Pass α} {y : α → Pass β} {d : Decompilation} :=
    Leads.bind (r := fun d d' : Decompilation => d.graph.Sound → d.Writes d')
      (fun _ _ _ h h' hd => (h hd).trans (h' (h hd).sound)) (x := x) (f := y) (s := d)
  have hcombine : Leads (fun d d' : Decompilation => d.graph.Sound → d.Writes d')
      (combine func >>= fun _ => structureFunction func) d := by
    refine hbind (fun hd => (quiet_combine func hd).writes) fun _ _ _ => ?_
    refine hbind (fun hd => writes_findSwitches hd func) fun _ _ _ => ?_
    refine hbind (fun hd => writes_findWhileLoops hd func) fun _ _ _ => ?_
    refine hbind (fun hd => writes_findDoWhileLoops hd func) fun _ _ _ => ?_
    refine hbind (fun hd => writes_findConditionals hd func) fun _ _ _ hd => ?_
    exact (quiet_writeJumps func hd).writes
  exact hcombine hd

/-- What comes of the decompilation of a function. -/
theorem decompiled_decompileFunction (hd : d.Well) (hf : d.frames[func]? = some f) :
    d.Decompiled func f (decompileFunction func d) := by
  have hanalyzed := analyzed_analyze hd.sound func
  have hassoc (callees : List Nat) : (combine func >>= fun _ => structureFunction func >>= fun _ =>
      addSignature func >>= fun _ => pure callees) =
      (combine func >>= fun _ => structureFunction func) >>= fun _ =>
        addSignature func >>= fun _ => (pure callees : Pass (List Nat)) := (bind_assoc _ _ _).symm
  rw [decompileFunction]
  cases hresult : analyze func d with
  | error fault d₁ =>
    rw [hresult] at hanalyzed
    rw [bind_of_error hresult]
    cases hanalyzed with
    | failed hfront h henters => exact .failed hfront.subset h henters
  | ok callees d₁ =>
    rw [hresult] at hanalyzed
    rw [bind_of_ok hresult, hassoc]
    cases hanalyzed with
    | @done entries d₁ hpasses hcalls =>
      have h₁ := hpasses.advances
      rw [hcalls] at h₁
      have hwrites := writes_structure h₁.sound func
      have hmarked : (d.marking (d.openCalls (d.body func))).Well :=
        (hd.marking fun id hid => (Decompilation.place_of_mem_openCalls hid).2).well
      have hwell := ((hmarked.quiet h₁).well.writes hwrites).well
      obtain ⟨lines, hopenings, h₂⟩ := hwrites.exists_advances
      have h₁₂ := h₁.trans h₂
      rw [List.nil_append] at h₁₂
      cases hstructure : (combine func >>= fun _ => structureFunction func) d₁ with
      | error fault d₂ =>
        -- Behind the analysis all calls of the function are marked, also if something fails.
        rw [hstructure] at h₁₂
        rw [bind_of_error hstructure]
        refine .failed (List.Subset.refl _) h₁₂ (Or.inr fun call hcall => ?_)
        rw [← hcalls] at hcall
        obtain ⟨entry, hentry, rfl⟩ := List.mem_map.1 hcall
        exact ⟨entry.2, hpasses.enters entry hentry⟩
      | ok _ d₂ =>
        rw [hstructure] at h₁₂ hwell
        rw [bind_of_ok hstructure]
        have hf₂ : d₂.frames[func]? = some f := (congrArg (·[func]?) h₁₂.frames).trans hf
        obtain ⟨header, opening, closing, h₃, hheads⟩ :=
          heads_addSignature hwell.sound hf₂ (hwell.fits f (List.mem_of_getElem? hf₂))
        refine .done hcalls hpasses.enters (h₁₂.trans h₃) ?_ hheads
        rw [openings_append, hopenings]
        rfl

end Pass

end Parley
