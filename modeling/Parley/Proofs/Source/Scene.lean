import Parley.Proofs.Listing.Replacement
import Parley.Proofs.Source.Rendering
import Parley.Proofs.Fallible
set_option autoImplicit false

/-!
# A function under work

While a straight-line function is decompiled, its listing consists of the two boundaries, the items of its
body between them, and what is left of the epilogue behind.  A replacement within the body keeps this
layout.  The neighbours of an item are read off the body.
-/

namespace Parley.Source

/-- What stays the same while the body of the only function is worked on. -/
structure Scene where
  /-- The front boundary. -/
  start : ItemId
  /-- The end boundary. -/
  stop : ItemId
  /-- The items behind the end boundary. -/
  behind : List ItemId
  names : Names

/-- The listing is a function with this body. -/
structure Layout (scene : Scene) (g : Graph) (body : List ItemId) : Prop where
  ordered : g.Ordered
  order : g.order = scene.start :: (body ++ scene.stop :: scene.behind)
  start : g.face? scene.start = some (false, .functionStart)
  stop : g.face? scene.stop = some (false, .functionEnd)
  behind : ∀ id ∈ scene.behind, g.face? id = none

/-- There is one function, and the names are those of the scene. -/
structure Setting (scene : Scene) (d : Decompilation) : Prop where
  functions : ∃ info, d.functions = #[info] ∧ info.startItem = scene.start ∧
    info.endItem = scene.stop ∧ info.name = startFunction
  globals : d.importedGlobals = scene.names.globals
  strings : d.strings = scene.names.strings.toArray

namespace Layout

variable {scene : Scene} {g g' : Graph} {body : List ItemId}

theorem nodup (h : Layout scene g body) :
    scene.start ∉ body ∧ scene.start ≠ scene.stop ∧ scene.start ∉ scene.behind ∧ body.Nodup ∧
      scene.stop ∉ body ∧ ∀ id ∈ body, id ∉ scene.behind := by
  have hnodup := h.ordered.nodup
  rw [h.order] at hnodup
  simp only [List.nodup_cons, List.nodup_append, List.mem_append, List.mem_cons] at hnodup
  grind

theorem lt_size (h : Layout scene g body) {id : ItemId} (hid : id ∈ body) : id < g.size := by
  refine h.ordered.lt_of_mem ?_
  rw [h.order]
  exact List.mem_cons_of_mem _ (List.mem_append_left _ hid)

theorem ne_size (h : Layout scene g body) {id : ItemId} (hid : id ∈ body) : id ≠ g.size :=
  Nat.ne_of_lt (h.lt_size hid)

/-! ## Neighbours -/

section Neighbours

variable {front rest : List ItemId} {id : ItemId}

theorem split (h : Layout scene g (front ++ id :: rest)) :
    g.order = (scene.start :: front) ++ id :: (rest ++ scene.stop :: scene.behind) ∧
      id ∉ scene.start :: front := by
  obtain ⟨hstart, -, -, hnodup, -, -⟩ := h.nodup
  refine ⟨?_, ?_⟩
  · rw [h.order, List.append_assoc]
    rfl
  · rw [List.nodup_append] at hnodup
    rw [List.mem_cons, not_or]
    refine ⟨fun hid => hstart ?_, fun hid => hnodup.2.2 id hid id List.mem_cons_self rfl⟩
    rw [← hid]
    exact List.mem_append_right _ List.mem_cons_self

theorem next? (h : Layout scene g (front ++ id :: rest)) :
    g.next? id = (rest ++ scene.stop :: scene.behind).head? :=
  Graph.next?_split h.split.1 h.split.2

theorem prev? (h : Layout scene g (front ++ id :: rest)) :
    g.prev? id = (scene.start :: front).getLast? :=
  Graph.prev?_split h.split.1 h.split.2

theorem startingAt (h : Layout scene g (front ++ id :: rest)) :
    g.startingAt id = id :: (rest ++ scene.stop :: scene.behind) :=
  Graph.startingAt_split h.split.1 h.split.2

theorem backBetween (h : Layout scene g (front ++ id :: rest)) :
    g.backBetween scene.start id = front.reverse := by
  have hstart : scene.start ∉ front := fun hmem => h.nodup.1 (List.mem_append_left _ hmem)
  rw [Graph.backBetween, Graph.before_split h.split.1 h.split.2, List.reverse_cons,
    List.takeWhile_append_of_pos]
  · simp
  · intro other hother
    have hne : other ≠ scene.start := fun he => hstart (he ▸ List.mem_reverse.1 hother)
    simpa using hne

end Neighbours

theorem between (h : Layout scene g body) : g.between scene.start scene.stop = body := by
  have hsplit : g.order = [] ++ scene.start :: (body ++ scene.stop :: scene.behind) := h.order
  rw [Graph.between, Graph.after_split hsplit (by simp), List.takeWhile_append_of_pos]
  · simp
  · intro other hother
    have hne : other ≠ scene.stop := fun he => h.nodup.2.2.2.2.1 (he ▸ hother)
    simpa using hne

/-! ## Changes within the body -/

/-- A replacement within the body keeps the layout. -/
theorem replaced (h : Layout scene g body) {site : ItemId} {consumed : List ItemId}
    {kind : ItemKind} (hg : Graph.Replaced g g' site consumed kind) (hsite : site ∈ body)
    (hconsumed : ∀ id ∈ consumed, id ∈ body) :
    Layout scene g' (Graph.placeBefore g.size site body) := by
  obtain ⟨hstart, -, -, -, hstop, hbehind⟩ := h.nodup
  have hlt : ∀ id ∈ g.order, id ≠ g.size := fun id hid => h.ordered.ne_size_of_mem hid
  rw [h.order] at hlt
  simp only [List.mem_cons, List.mem_append] at hlt
  refine ⟨hg.ordered, ?_, ?_, ?_, fun id hid => ?_⟩
  · have hne : scene.start ≠ site := fun he => hstart (he ▸ hsite)
    rw [hg.order, h.order, Graph.placeBefore, if_neg hne, Graph.placeBefore_append_of_mem hsite]
  · rw [hg.kept _ (fun hmem => hstart (hconsumed _ hmem)) (hlt _ (Or.inl rfl))]
    exact h.start
  · rw [hg.kept _ (fun hmem => hstop (hconsumed _ hmem)) (hlt _ (Or.inr (Or.inr (Or.inl rfl))))]
    exact h.stop
  · rw [hg.kept _ (fun hmem => hbehind _ (hconsumed _ hmem) hid)
      (hlt _ (Or.inr (Or.inr (Or.inr hid))))]
    exact h.behind id hid

/-- A replacement of a block of the body by a single item. -/
theorem block {front block rest : List ItemId} (h : Layout scene g (front ++ (block ++ rest)))
    {site : ItemId} {consumed : List ItemId} {kind : ItemKind}
    (hg : Graph.Replaced g g' site consumed kind) (hsite : site ∈ block)
    (hconsumed : ∀ id ∈ consumed, id ∈ block)
    (hblock : ∀ id ∈ block, id ∉ consumed → g.face? id = none) :
    Layout scene g' (front ++ Graph.placeBefore g.size site block ++ rest) ∧
      g'.shown (front ++ Graph.placeBefore g.size site block) = g.shown front ++ [(false, kind)] ∧
      ∀ id ∈ rest, g'.face? id = g.face? id := by
  have hnodup := h.nodup.2.2.2.1
  rw [List.nodup_append, List.nodup_append] at hnodup
  obtain ⟨-, ⟨-, -, hrest⟩, hfront⟩ := hnodup
  have hsize : ∀ id ∈ front ++ (block ++ rest), id ≠ g.size := fun id hid => h.ne_size hid
  have hnot : site ∉ front := fun hmem =>
    hfront site hmem site (List.mem_append_left _ hsite) rfl
  refine ⟨?_, ?_, fun id hid => ?_⟩
  · have hlayout := h.replaced hg (List.mem_append_right _ (List.mem_append_left _ hsite))
      fun id hid => List.mem_append_right _ (List.mem_append_left _ (hconsumed id hid))
    rwa [Graph.placeBefore_append_of_notMem hnot, Graph.placeBefore_append_of_mem hsite,
      ← List.append_assoc] at hlayout
  · have hshown := hg.shown front block [] hsite
      (fun id hid =>
        ⟨fun hmem => hfront id hid id (List.mem_append_left _ (hconsumed id hmem)) rfl,
          hsize id (List.mem_append_left _ hid)⟩)
      (fun id hid => ⟨hsize id (List.mem_append_right _ (List.mem_append_left _ hid)),
        hblock id hid⟩)
      (by simp) hnot
    rwa [Graph.placeBefore_append_of_notMem hnot, List.append_nil] at hshown
  · exact hg.kept id (fun hmem => hrest id (hconsumed id hmem) id hid rfl)
      (hsize id (List.mem_append_right _ (List.mem_append_right _ hid)))

end Layout

namespace Setting

variable {scene : Scene} {d : Decompilation}

theorem bounds (h : Setting scene d) : d.bounds 0 = (scene.start, scene.stop) := by
  obtain ⟨info, hfunctions, hstart, hstop, -⟩ := h.functions
  simp [Decompilation.bounds, hfunctions, hstart, hstop]

theorem body (h : Setting scene d) {body : List ItemId} (hlayout : Layout scene d.graph body) :
    d.body 0 = body := by
  rw [Decompilation.body, h.bounds]
  exact hlayout.between

theorem globalName (h : Setting scene d) (slot : UInt16) :
    d.globalName slot = scene.names.global slot := by
  rw [Decompilation.globalName, h.globals]
  rfl

theorem onGraph (h : Setting scene d) (f : Graph → Graph) : Setting scene (d.onGraph f) :=
  ⟨h.functions, h.globals, h.strings⟩

/-- What changes the variables and the type of the function alone keeps the setting. -/
theorem onFunction (h : Setting scene d) {f : FunctionInfo → FunctionInfo}
    (hf : ∀ info, (f info).startItem = info.startItem ∧ (f info).endItem = info.endItem ∧
      (f info).name = info.name) : Setting scene (d.onFunction 0 f) := by
  obtain ⟨info, hfunctions, hstart, hstop, hname⟩ := h.functions
  obtain ⟨hstart', hstop', hname'⟩ := hf info
  refine ⟨⟨f info, ?_, hstart'.trans hstart, hstop'.trans hstop, hname'.trans hname⟩, h.globals,
    h.strings⟩
  simp [Decompilation.onFunction, hfunctions]

end Setting

end Parley.Source
