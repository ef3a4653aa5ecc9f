import Parley.Proofs.Listing.Precedence
import Mathlib.Data.List.Induction
set_option autoImplicit false

/-!
# Nesting of blocks

A listing is nested by its lines alone when every line that closes a block closes the innermost one that is
open.  Where the lines are known to belong to blocks, every block may be asked to be closed by its own
line.  Blocks are closed so if and only if none crosses another one.  By the lines alone blocks of one kind may
cross.
-/

namespace Parley

/-! ## Nested lines -/

/-- The kinds of the blocks that are open behind a line, innermost first; there are none if the line is out
of place.  A function stands outside of all blocks. -/
def nest (opened : List BlockKind) : StatementRole → Option (List BlockKind)
  | .opens .function => if opened = [] then some [.function] else none
  | .opens kind => some (kind :: opened)
  | .alternative => if opened.head? = some .ifThen then some opened else none
  | .closes kind => if opened.head? = some kind then some opened.tail else none
  | _ => some opened

/-- Every line that closes or divides a block stands where the innermost block is of its kind, and no block
is left open. -/
def Nested (roles : List StatementRole) : Prop := roles.foldlM nest [] = some []

instance (roles : List StatementRole) : Decidable (Nested roles) :=
  inferInstanceAs (Decidable (_ = _))

/-! ## Blocks -/

/-- The lines of a block. -/
structure Block where
  kind : BlockKind
  opening : ItemId
  /-- The line between the halves of a conditional. -/
  middle : Option ItemId
  closing : ItemId
  deriving DecidableEq

namespace Block

/-- The stretches between the lines of a block. -/
def stretches (b : Block) : List (ItemId × ItemId) :=
  match b.middle with
  | none => [(b.opening, b.closing)]
  | some middle => [(b.opening, middle), (middle, b.closing)]

/-- The lines of a block stand in their order. -/
def Upright (order : List ItemId) (b : Block) : Prop :=
  Precedes order b.opening b.closing ∧
    ∀ middle ∈ b.middle, Precedes order b.opening middle ∧ Precedes order middle b.closing

/-- A block lies in one stretch of another. -/
def Inside (order : List ItemId) (b c : Block) : Prop :=
  ∃ stretch ∈ c.stretches, Precedes order stretch.1 b.opening ∧ Precedes order b.closing stretch.2

/-- Two blocks do not cross: they lie one behind the other or one inside the other. -/
def Apart (order : List ItemId) (b c : Block) : Prop :=
  Precedes order b.closing c.opening ∨ Precedes order c.closing b.opening ∨
    b.Inside order c ∨ c.Inside order b

instance (order : List ItemId) (b : Block) : Decidable (b.Upright order) :=
  inferInstanceAs (Decidable (_ ∧ ∀ middle ∈ b.middle, _))

instance (order : List ItemId) (b c : Block) : Decidable (b.Inside order c) :=
  inferInstanceAs (Decidable (∃ stretch ∈ c.stretches, _))

instance (order : List ItemId) (b c : Block) : Decidable (b.Apart order c) :=
  inferInstanceAs (Decidable (_ ∨ _ ∨ _ ∨ _))

theorem Apart.symm {order : List ItemId} {b c : Block} (h : b.Apart order c) : c.Apart order b := by
  rcases h with h | h | h | h
  · exact Or.inr (Or.inl h)
  · exact Or.inl h
  · exact Or.inr (Or.inr (Or.inr h))
  · exact Or.inr (Or.inr (Or.inl h))

end Block

/-- The block with this opening line. -/
def openedAt? (blocks : List Block) (id : ItemId) : Option Block := blocks.find? (·.opening = id)

/-- The blocks that are open behind a line, innermost first, when every block is to be closed and divided by
its own lines; there are none if the line is out of place. -/
def nestOwn (blocks opened : List Block) (id : ItemId) : Option (List Block) :=
  match openedAt? blocks id, blocks.find? (·.closing = id), blocks.find? (·.middle = some id) with
  | some b, _, _ => some (b :: opened)
  | none, some b, _ => if opened.head? = some b then some opened.tail else none
  | none, none, some b => if opened.head? = some b then some opened else none
  | none, none, none => some opened

/-- Every block is closed and divided by its own lines, while it is the innermost one. -/
def NestedOwn (blocks : List Block) (order : List ItemId) : Prop :=
  order.foldlM (nestOwn blocks) [] = some []

instance (blocks : List Block) (order : List ItemId) : Decidable (NestedOwn blocks order) :=
  inferInstanceAs (Decidable (_ = _))

/-- The lines of a listing that open, divide and close blocks are those of `blocks`, each a line of one
block. -/
structure Lists (order : List ItemId) (role? : ItemId → Option StatementRole) (blocks : List Block) :
    Prop where
  nodup : order.Nodup
  opens : ∀ id ∈ order, ∀ kind, role? id = some (.opens kind) →
    ∃ b ∈ blocks, b.opening = id ∧ b.kind = kind
  divides : ∀ id ∈ order, role? id = some .alternative →
    ∃ b ∈ blocks, b.middle = some id ∧ b.kind = .ifThen
  closes : ∀ id ∈ order, ∀ kind, role? id = some (.closes kind) →
    ∃ b ∈ blocks, b.closing = id ∧ b.kind = kind
  opening : ∀ b ∈ blocks, b.opening ∈ order ∧ role? b.opening = some (.opens b.kind)
  middle : ∀ b ∈ blocks, ∀ id ∈ b.middle, id ∈ order ∧ role? id = some .alternative
  closing : ∀ b ∈ blocks, b.closing ∈ order ∧ role? b.closing = some (.closes b.kind)
  unique : ∀ b ∈ blocks, ∀ c ∈ blocks,
    b.opening = c.opening ∨ b.closing = c.closing ∨ (b.middle = c.middle ∧ b.middle.isSome) → b = c

/-! ## The blocks that are open -/

/-- The blocks that were opened and not closed by the lines of a front, the last one first. -/
def openBehind (blocks : List Block) (front : List ItemId) : List Block :=
  (front.reverse.filterMap (openedAt? blocks)).filter fun b => !front.contains b.closing

namespace Lists

variable {order : List ItemId} {role? : ItemId → Option StatementRole} {blocks : List Block}
  {front behind : List ItemId} {id : ItemId} {b c : Block}

theorem openedAt?_opening (h : Lists order role? blocks) (hb : b ∈ blocks) :
    openedAt? blocks b.opening = some b := by
  cases hfound : openedAt? blocks b.opening with
  | none =>
    have hnone := List.find?_eq_none.1 hfound b hb
    simp at hnone
  | some c =>
    have hopening := List.find?_some hfound
    have hc := List.mem_of_find?_eq_some hfound
    rw [h.unique c hc b hb (Or.inl (by simpa using hopening))]

theorem openedAt?_eq_some (hfound : openedAt? blocks id = some b) : b ∈ blocks ∧ b.opening = id :=
  ⟨List.mem_of_find?_eq_some hfound, by simpa using List.find?_some hfound⟩

theorem openedAt?_of_role (h : Lists order role? blocks)
    (hrole : ∀ kind, role? id ≠ some (.opens kind)) : openedAt? blocks id = none := by
  cases hfound : openedAt? blocks id with
  | none => rfl
  | some b =>
    obtain ⟨hb, rfl⟩ := openedAt?_eq_some hfound
    exact absurd (h.opening b hb).2 (hrole _)

theorem mem_openBehind : b ∈ openBehind blocks front ↔
    (∃ id ∈ front, openedAt? blocks id = some b) ∧ b.closing ∉ front := by
  simp [openBehind]

theorem mem_openBehind_iff (h : Lists order role? blocks) (hb : b ∈ blocks) :
    b ∈ openBehind blocks front ↔ b.opening ∈ front ∧ b.closing ∉ front := by
  rw [mem_openBehind]
  refine and_congr_left fun _ => ⟨?_, fun hopening => ⟨_, hopening, h.openedAt?_opening hb⟩⟩
  rintro ⟨id, hid, hfound⟩
  rwa [(openedAt?_eq_some hfound).2]

theorem mem_of_mem_openBehind (hb : b ∈ openBehind blocks front) : b ∈ blocks := by
  obtain ⟨⟨id, -, hfound⟩, -⟩ := mem_openBehind.1 hb
  exact (openedAt?_eq_some hfound).1

/-- A line that opens a block makes it the innermost one. -/
theorem openBehind_opening (h : Lists order role? blocks) (hb : b ∈ blocks)
    (hclosing : b.closing ∉ front) :
    openBehind blocks (front ++ [b.opening]) = b :: openBehind blocks front := by
  have hne : ∀ c ∈ blocks, c.closing ≠ b.opening := by
    intro c hc heq
    have hrole := (h.closing c hc).2
    rw [heq, (h.opening b hb).2] at hrole
    cases hrole
  have hsame : ∀ c ∈ front.reverse.filterMap (openedAt? blocks),
      (!(front ++ [b.opening]).contains c.closing) = !front.contains c.closing := by
    intro c hc
    obtain ⟨id, -, hfound⟩ := List.mem_filterMap.1 hc
    simp [hne c (openedAt?_eq_some hfound).1]
  have hkept : (!(front ++ [b.opening]).contains b.closing) = true := by
    simp [hclosing, hne b hb]
  rw [openBehind, List.reverse_append, List.reverse_singleton, List.singleton_append,
    List.filterMap_cons, h.openedAt?_opening hb]
  simp only [List.filter_cons, hkept, if_true]
  rw [List.filter_congr hsame, openBehind]

/-- A line that opens no block takes away those that it closes. -/
theorem openBehind_of_not_opens (h : Lists order role? blocks)
    (hrole : ∀ kind, role? id ≠ some (.opens kind)) :
    openBehind blocks (front ++ [id]) =
      (openBehind blocks front).filter fun c => decide (c.closing ≠ id) := by
  rw [openBehind, List.reverse_append, List.reverse_singleton, List.singleton_append,
    List.filterMap_cons, h.openedAt?_of_role hrole]
  simp only [openBehind, List.filter_filter]
  refine List.filter_congr fun c _ => ?_
  by_cases hfront : c.closing ∈ front <;> by_cases hid : c.closing = id <;> simp [hfront, hid]

theorem openBehind_of_no_closing (h : Lists order role? blocks)
    (hopens : ∀ kind, role? id ≠ some (.opens kind)) (hcloses : ∀ kind, role? id ≠ some (.closes kind)) :
    openBehind blocks (front ++ [id]) = openBehind blocks front := by
  rw [h.openBehind_of_not_opens hopens, List.filter_eq_self]
  intro c hc
  have hne : c.closing ≠ id := by
    rintro rfl
    exact hcloses _ (h.closing c (mem_of_mem_openBehind hc)).2
  simpa using hne

/-- The blocks opened behind an open block stand before it in the list. -/
theorem openBehind_split (h : Lists order role? blocks) (hnodup : front.Nodup)
    (hb : b ∈ openBehind blocks front) :
    ∃ inner outer, openBehind blocks front = inner ++ b :: outer ∧
      (∀ c ∈ inner, Precedes front b.opening c.opening) ∧
      ∀ c ∈ outer, Precedes front c.opening b.opening := by
  have hmem := mem_of_mem_openBehind hb
  obtain ⟨hopening, hclosing⟩ := (h.mem_openBehind_iff hmem).1 hb
  obtain ⟨before, after, rfl⟩ := List.append_of_mem hopening
  have hkept : (!(before ++ b.opening :: after).contains b.closing) = true := by simpa using hclosing
  have hsplit : openBehind blocks (before ++ b.opening :: after) =
      ((after.reverse.filterMap (openedAt? blocks)).filter fun c =>
        !(before ++ b.opening :: after).contains c.closing) ++
      b :: ((before.reverse.filterMap (openedAt? blocks)).filter fun c =>
        !(before ++ b.opening :: after).contains c.closing) := by
    rw [openBehind, List.reverse_append, List.reverse_cons, List.append_assoc, List.singleton_append,
      List.filterMap_append, List.filterMap_cons, h.openedAt?_opening hmem]
    simp only [List.filter_append, List.filter_cons, hkept, if_true]
  have hopened {ids : List ItemId} {c : Block} {p : Block → Bool}
      (hc : c ∈ (ids.reverse.filterMap (openedAt? blocks)).filter p) : c.opening ∈ ids := by
    obtain ⟨id, hid, hfound⟩ := List.mem_filterMap.1 (List.mem_filter.1 hc).1
    rw [(openedAt?_eq_some hfound).2]
    exact List.mem_reverse.1 hid
  exact ⟨_, _, hsplit, fun c hc => (precedes_split_right hnodup).2 (hopened hc),
    fun c hc => (precedes_split_left hnodup).2 (hopened hc)⟩

/-- The line that closes an open block takes no other block away. -/
theorem filter_closing (h : Lists order role? blocks) {inner outer : List Block}
    (hsplit : openBehind blocks front = inner ++ b :: outer) (hnot : b ∉ inner ++ outer) :
    (openBehind blocks front).filter (fun c => decide (c.closing ≠ b.closing)) = inner ++ outer := by
  have hopen {c : Block} (hc : c ∈ b :: (inner ++ outer)) : c ∈ blocks := by
    have hmem : c ∈ openBehind blocks front := by
      rw [hsplit]
      exact List.perm_middle.mem_iff.2 hc
    exact mem_of_mem_openBehind hmem
  have hkeep : (inner ++ outer).filter (fun c => decide (c.closing ≠ b.closing)) = inner ++ outer := by
    refine List.filter_eq_self.2 fun c hc => decide_eq_true fun heq => hnot ?_
    have hsame := h.unique c (hopen (List.mem_cons_of_mem _ hc)) b (hopen List.mem_cons_self)
      (Or.inr (Or.inl heq))
    exact hsame ▸ hc
  rw [hsplit, List.filter_append, List.filter_cons, if_neg (by simp), ← List.filter_append, hkeep]

/-- No block is open behind the whole listing. -/
theorem openBehind_order (h : Lists order role? blocks) : openBehind blocks order = [] := by
  refine List.eq_nil_iff_forall_not_mem.2 fun c hc => ?_
  have hmem := mem_of_mem_openBehind hc
  exact ((h.mem_openBehind_iff hmem).1 hc).2 (h.closing c hmem).1

/-! ## Crossing blocks -/

/-- The first line of every stretch of a block is its opening line or behind it. -/
theorem stretch_behind_opening (hb : b.Upright order) {stretch : ItemId × ItemId}
    (hstretch : stretch ∈ b.stretches) :
    stretch.1 = b.opening ∨ Precedes order b.opening stretch.1 := by
  cases hmiddle : b.middle with
  | none =>
    rw [Block.stretches, hmiddle, List.mem_singleton] at hstretch
    exact Or.inl (by rw [hstretch])
  | some middle =>
    simp only [Block.stretches, hmiddle, List.mem_cons, List.not_mem_nil, or_false] at hstretch
    rcases hstretch with rfl | rfl
    · exact Or.inl rfl
    · exact Or.inr (hb.2 middle hmiddle).1

/-- No line of a block that closes or divides it is inside one of its stretches. -/
theorem line_not_in_stretch (horder : order.Nodup) (hb : b.Upright order) {line : ItemId}
    (hline : b.closing = line ∨ b.middle = some line) {stretch : ItemId × ItemId}
    (hstretch : stretch ∈ b.stretches) (hfirst : Precedes order stretch.1 line)
    (hlast : Precedes order line stretch.2) : False := by
  cases hmiddle : b.middle with
  | none =>
    rw [Block.stretches, hmiddle, List.mem_singleton] at hstretch
    subst hstretch
    rcases hline with rfl | hline
    · exact hlast.irrefl horder
    · rw [hmiddle] at hline
      cases hline
  | some middle =>
    have hbehind := (hb.2 middle hmiddle).2
    simp only [Block.stretches, hmiddle, List.mem_cons, List.not_mem_nil, or_false] at hstretch
    rw [hmiddle, Option.some.injEq] at hline
    rcases hstretch with rfl | rfl <;> rcases hline with rfl | rfl
    · exact hlast.asymm horder hbehind
    · exact hlast.irrefl horder
    · exact hlast.irrefl horder
    · exact hfirst.irrefl horder

/-- A block that is opened inside another one and still open at one of its lines crosses it. -/
theorem not_apart (horder : order.Nodup) (hb : b.Upright order) (hc : c.Upright order) {line : ItemId}
    (hline : b.closing = line ∨ b.middle = some line) (hopening : Precedes order b.opening c.opening)
    (hinside : Precedes order c.opening line) (hclosing : Precedes order line c.closing) :
    ¬ b.Apart order c := by
  have hend : line = b.closing ∨ Precedes order line b.closing := by
    rcases hline with rfl | hline
    · exact Or.inl rfl
    · exact Or.inr (hb.2 line hline).2
  rintro (hbehind | hbefore | ⟨stretch, hstretch, hfirst, -⟩ | ⟨stretch, hstretch, hfirst, hlast⟩)
  · rcases hend with rfl | hend
    · exact hbehind.asymm horder hinside
    · exact (hend.trans horder hbehind).asymm horder hinside
  · exact ((hopening.trans horder hc.1).trans horder hbefore).irrefl horder
  · rcases stretch_behind_opening hc hstretch with heq | hstart
    · exact (heq ▸ hfirst).asymm horder hopening
    · exact (hstart.trans horder hfirst).asymm horder hopening
  · exact line_not_in_stretch horder hb hline hstretch (hfirst.trans horder hinside)
      (hclosing.trans horder hlast)

/-- The blocks that are open behind a block at one of its lines cross it. -/
theorem not_apart_of_inner (h : Lists order role? blocks) (horder : order = front ++ id :: behind)
    (hupright : ∀ b ∈ blocks, b.Upright order) (hb : b ∈ blocks) (hc : c ∈ openBehind blocks front)
    (hid : b.closing = id ∨ b.middle = some id) (hopening : Precedes front b.opening c.opening) :
    ¬ b.Apart order c := by
  have hnodup := h.nodup
  have hmem := mem_of_mem_openBehind hc
  obtain ⟨hopened, hclosed⟩ := (h.mem_openBehind_iff hmem).1 hc
  have hne : c.closing ≠ id := by
    intro heq
    rcases hid with hid | hid
    · have hsame := h.unique b hb c hmem (Or.inr (Or.inl (hid.trans heq.symm)))
      subst hsame
      exact hopening.irrefl (by rw [horder] at hnodup; exact (List.nodup_append.1 hnodup).1)
    · have hrole := (h.middle b hb id hid).2
      rw [← heq, (h.closing c hmem).2] at hrole
      cases hrole
  have hbehind : c.closing ∈ behind := by
    have hin := (h.closing c hmem).1
    rw [horder] at hin
    rcases List.mem_append.1 hin with hin | hin
    · exact absurd hin hclosed
    · exact (List.mem_cons.1 hin).resolve_left hne
  refine not_apart hnodup (hupright b hb) (hupright c hmem) hid ?_ ?_ ?_
  · exact hopening.mono (horder ▸ List.sublist_append_left front _)
  · rw [horder] at hnodup ⊢
    exact (precedes_split_left hnodup).2 hopened
  · rw [horder] at hnodup ⊢
    exact (precedes_split_right hnodup).2 hbehind

theorem notMem_front_of_mem_behind (hnodup : order.Nodup) (horder : order = front ++ id :: behind)
    {other : ItemId} (hother : other ∈ id :: behind) : other ∉ front := by
  rw [horder, List.nodup_append] at hnodup
  exact fun hmem => hnodup.2.2 other hmem other hother rfl

/-- A block is open before every line that closes or divides it. -/
theorem mem_openBehind_of_line (h : Lists order role? blocks) (horder : order = front ++ id :: behind)
    (hb : b ∈ blocks) (hupright : b.Upright order) (hid : b.closing = id ∨ b.middle = some id) :
    b ∈ openBehind blocks front := by
  have hnodup := h.nodup
  rw [h.mem_openBehind_iff hb]
  rcases hid with rfl | hid
  · have hopening := hupright.1
    rw [horder] at hnodup hopening
    exact ⟨(precedes_split_left hnodup).1 hopening,
      notMem_front_of_mem_behind h.nodup horder List.mem_cons_self⟩
  · obtain ⟨hopening, hclosing⟩ := hupright.2 id hid
    rw [horder] at hnodup hopening hclosing
    exact ⟨(precedes_split_left hnodup).1 hopening,
      notMem_front_of_mem_behind h.nodup horder
        (List.mem_cons_of_mem _ ((precedes_split_right hnodup).1 hclosing))⟩

/-! ## Nesting by the lines alone -/

theorem map_kind_append {inner outer : List Block} {kind : BlockKind}
    (h : ∀ c ∈ inner, c.kind = kind) :
    (inner.map (·.kind)) ++ kind :: outer.map (·.kind) =
      kind :: (inner ++ outer).map (·.kind) := by
  induction inner with
  | nil => rfl
  | cons c inner ih =>
    rw [List.map_cons, List.cons_append, ih fun other hother => h other (List.mem_cons_of_mem _ hother),
      h c List.mem_cons_self]
    simp [h c List.mem_cons_self]

section Kinds

variable (h : Lists order role? blocks) (hupright : ∀ b ∈ blocks, b.Upright order)
  (hapart : ∀ b ∈ blocks, ∀ c ∈ blocks, b.kind ≠ c.kind → b.Apart order c)

include h hupright hapart

/-- The kinds of the open blocks at a line of one of them, with that block brought to the front. -/
theorem kinds_at_line (horder : order = front ++ id :: behind) (hb : b ∈ blocks)
    (hid : b.closing = id ∨ b.middle = some id) :
    ∃ inner outer, openBehind blocks front = inner ++ b :: outer ∧
      (openBehind blocks front).map (·.kind) = b.kind :: (inner ++ outer).map (·.kind) ∧
      b ∉ inner ++ outer := by
  have hnodup := h.nodup
  have hfront : front.Nodup := by
    rw [horder, List.nodup_append] at hnodup
    exact hnodup.1
  obtain ⟨inner, outer, hsplit, hinner, houter⟩ :=
    h.openBehind_split hfront (h.mem_openBehind_of_line horder hb (hupright b hb) hid)
  refine ⟨inner, outer, hsplit, ?_, ?_⟩
  · rw [hsplit, List.map_append, List.map_cons]
    refine map_kind_append fun c hc => ?_
    have hopen : c ∈ openBehind blocks front := hsplit ▸ List.mem_append_left _ hc
    by_contra hne
    exact h.not_apart_of_inner horder hupright hb hopen hid (hinner c hc)
      (hapart b hb c (mem_of_mem_openBehind hopen) (Ne.symm hne))
  · intro hmem
    rcases List.mem_append.1 hmem with hmem | hmem
    · exact (hinner b hmem).irrefl hfront
    · exact (houter b hmem).irrefl hfront

/-- A line that divides or closes a block finds it to be the innermost one by its kind. -/
theorem nest_line (horder : order = front ++ id :: behind) {role : StatementRole} (hrole : role? id = some role)
    (hopens : ∀ kind, role ≠ .opens kind) :
    nest ((openBehind blocks front).map (·.kind)) role =
      some ((openBehind blocks (front ++ [id])).map (·.kind)) := by
  have hid : id ∈ order := horder ▸ List.mem_append_right _ List.mem_cons_self
  cases role with
  | opens kind => exact absurd rfl (hopens kind)
  | alternative =>
    obtain ⟨b, hb, hmiddle, hkind⟩ := h.divides id hid hrole
    obtain ⟨inner, outer, -, hkinds, -⟩ := h.kinds_at_line hupright hapart horder hb (Or.inr hmiddle)
    rw [h.openBehind_of_no_closing (by simp [hrole]) (by simp [hrole]), hkinds, hkind]
    rfl
  | closes kind =>
    obtain ⟨b, hb, rfl, rfl⟩ := h.closes id hid kind hrole
    obtain ⟨inner, outer, hsplit, hkinds, hnot⟩ := h.kinds_at_line hupright hapart horder hb (Or.inl rfl)
    rw [hkinds, h.openBehind_of_not_opens (by simp [hrole]), h.filter_closing hsplit hnot]
    simp [nest]
  | _ =>
    rw [h.openBehind_of_no_closing (by simp [hrole]) (by simp [hrole])]
    rfl

variable (hfunction : ∀ b ∈ blocks, b.kind = .function → ∀ c ∈ blocks,
  Precedes order c.opening b.opening → Precedes order c.closing b.opening)

include hfunction

omit hupright hapart in
/-- No block is open where a function starts. -/
theorem openBehind_function (horder : order = front ++ b.opening :: behind) (hb : b ∈ blocks)
    (hkind : b.kind = .function) : openBehind blocks front = [] := by
  have hnodup := h.nodup
  rw [horder] at hnodup
  refine List.eq_nil_iff_forall_not_mem.2 fun c hc => ?_
  have hmem := mem_of_mem_openBehind hc
  obtain ⟨hopened, hclosed⟩ := (h.mem_openBehind_iff hmem).1 hc
  have hbefore := hfunction b hb hkind c hmem (horder ▸ (precedes_split_left hnodup).2 hopened)
  rw [horder] at hbefore
  exact hclosed ((precedes_split_left hnodup).1 hbefore)

omit hapart in
/-- A line that opens a block opens it by its kind, functions where no block is open. -/
theorem nest_opening (horder : order = front ++ b.opening :: behind) (hb : b ∈ blocks) :
    nest ((openBehind blocks front).map (·.kind)) (.opens b.kind) =
      some ((openBehind blocks (front ++ [b.opening])).map (·.kind)) := by
  have hclosed : b.closing ∉ front := by
    have hnodup := h.nodup
    have hclosing := (hupright b hb).1
    rw [horder] at hnodup hclosing
    have hlater := (precedes_split_right hnodup).1 hclosing
    exact notMem_front_of_mem_behind h.nodup horder (List.mem_cons_of_mem _ hlater)
  rw [h.openBehind_opening hb hclosed, List.map_cons]
  cases hkind : b.kind with
  | function =>
    rw [h.openBehind_function hfunction horder hb hkind]
    rfl
  | _ => rfl

/-- The kinds of the open blocks behind every front of the listing. -/
theorem foldlM_nest (front : List ItemId) : ∀ behind, order = front ++ behind →
    (front.filterMap role?).foldlM nest [] = some ((openBehind blocks front).map (·.kind)) := by
  induction front using List.reverseRecOn with
  | nil => exact fun _ _ => rfl
  | append_singleton front id ih =>
    intro behind horder
    rw [List.append_assoc, List.singleton_append] at horder
    rw [List.filterMap_append, List.foldlM_append, ih (id :: behind) horder, Option.bind_eq_bind,
      Option.bind_some]
    cases hrole : role? id with
    | none =>
      rw [h.openBehind_of_no_closing (by simp [hrole]) (by simp [hrole])]
      simp [hrole]
    | some role =>
      have hline : nest ((openBehind blocks front).map (·.kind)) role =
          some ((openBehind blocks (front ++ [id])).map (·.kind)) := by
        cases role with
        | opens kind =>
          obtain ⟨b, hb, rfl, rfl⟩ := h.opens id (horder ▸ List.mem_append_right _ List.mem_cons_self) kind hrole
          exact h.nest_opening hupright hfunction horder hb
        | _ => exact h.nest_line hupright hapart horder hrole nofun
      simp [hrole, hline]

/-- A listing is nested by its lines if its blocks are upright, blocks of different kinds do not cross, and
every function starts behind the blocks that start before it. -/
theorem nested : Nested (order.filterMap role?) := by
  have hfold := h.foldlM_nest hupright hapart hfunction order [] (List.append_nil order).symm
  rw [h.openBehind_order] at hfold
  exact hfold

end Kinds

/-! ## Nesting by the blocks -/

section Own

variable (h : Lists order role? blocks)

include h

theorem find?_closing (hb : b ∈ blocks) : blocks.find? (·.closing = b.closing) = some b := by
  cases hfound : blocks.find? (·.closing = b.closing) with
  | none =>
    have hnone := List.find?_eq_none.1 hfound b hb
    simp at hnone
  | some c =>
    have hclosing : c.closing = b.closing := by simpa using List.find?_some hfound
    rw [h.unique c (List.mem_of_find?_eq_some hfound) b hb (Or.inr (Or.inl hclosing))]

theorem find?_closing_of_role (hrole : ∀ kind, role? id ≠ some (.closes kind)) :
    blocks.find? (·.closing = id) = none := by
  refine List.find?_eq_none.2 fun c hc => ?_
  have hne : c.closing ≠ id := by
    rintro rfl
    exact hrole _ (h.closing c hc).2
  simpa using hne

/-- A line that closes or divides a block asks for it to be the innermost one. -/
theorem nestOwn_line (hb : b ∈ blocks) (hid : b.closing = id ∨ b.middle = some id)
    (opened : List Block) : (nestOwn blocks opened id).isSome ↔ opened.head? = some b := by
  rcases hid with rfl | hid
  · have hrole := (h.closing b hb).2
    rw [nestOwn, h.openedAt?_of_role (by simp [hrole]), h.find?_closing hb]
    split <;> simp_all
  · have hrole := (h.middle b hb id hid).2
    have hfound : blocks.find? (fun c => c.middle = some id) = some b := by
      cases hfind : blocks.find? (fun c => c.middle = some id) with
      | none =>
        have hnone := List.find?_eq_none.1 hfind b hb
        simp [hid] at hnone
      | some c =>
        have hmiddle : c.middle = some id := by simpa using List.find?_some hfind
        have hsame : c.middle = b.middle ∧ c.middle.isSome := by simp [hmiddle, hid]
        rw [h.unique c (List.mem_of_find?_eq_some hfind) b hb (Or.inr (Or.inr hsame))]
    rw [nestOwn, h.openedAt?_of_role (by simp [hrole]), h.find?_closing_of_role (by simp [hrole]), hfound]
    split <;> simp_all

theorem opens_of_openedAt?_eq_none (hid : id ∈ order) (hnone : openedAt? blocks id = none)
    (kind : BlockKind) : role? id ≠ some (.opens kind) := by
  intro hrole
  obtain ⟨b, hb, rfl, -⟩ := h.opens id hid kind hrole
  rw [h.openedAt?_opening hb] at hnone
  cases hnone

theorem closes_of_find?_eq_none (hid : id ∈ order)
    (hnone : blocks.find? (fun b => b.closing = id) = none) (kind : BlockKind) :
    role? id ≠ some (.closes kind) := by
  intro hrole
  obtain ⟨b, hb, rfl, -⟩ := h.closes id hid kind hrole
  rw [h.find?_closing hb] at hnone
  cases hnone

/-- Closing the innermost block leaves the others open. -/
theorem openBehind_tail (hfront : front.Nodup) (hb : b ∈ openBehind blocks front)
    (hhead : (openBehind blocks front).head? = some b) :
    (openBehind blocks front).filter (fun c => decide (c.closing ≠ b.closing)) =
      (openBehind blocks front).tail := by
  obtain ⟨inner, outer, hsplit, hinner, houter⟩ := h.openBehind_split hfront hb
  cases inner with
  | nil =>
    have hnot : b ∉ [] ++ outer := fun hmem => (houter b hmem).irrefl hfront
    rw [h.filter_closing hsplit hnot, hsplit]
    rfl
  | cons c inner =>
    have hbehind := hinner c List.mem_cons_self
    rw [hsplit, List.cons_append, List.head?_cons, Option.some.injEq] at hhead
    rw [hhead] at hbehind
    exact (hbehind.irrefl hfront).elim

/-- While every line is in place the open blocks are those that were opened and not closed. -/
theorem nestOwn_openBehind (hfront : front.Nodup) (hid : id ∈ order)
    (hclosed : ∀ b ∈ blocks, b.opening = id → b.closing ∉ front) {opened : List Block}
    (hnest : nestOwn blocks (openBehind blocks front) id = some opened) :
    opened = openBehind blocks (front ++ [id]) := by
  unfold nestOwn at hnest
  cases hopened : openedAt? blocks id with
  | some b =>
    obtain ⟨hb, rfl⟩ := openedAt?_eq_some hopened
    rw [h.openBehind_opening hb (hclosed b hb rfl)]
    simpa [hopened] using hnest.symm
  | none =>
    have hopens := h.opens_of_openedAt?_eq_none hid hopened
    cases hclosing : blocks.find? (fun b => b.closing = id) with
    | some b =>
      simp only [hopened, hclosing, Option.ite_none_right_eq_some, Option.some.injEq] at hnest
      obtain ⟨hhead, rfl⟩ := hnest
      have hb : b.closing = id := by simpa using List.find?_some hclosing
      rw [h.openBehind_of_not_opens hopens, ← hb,
        h.openBehind_tail hfront (List.mem_of_head? hhead) hhead]
    | none =>
      have hcloses := h.closes_of_find?_eq_none hid hclosing
      rw [h.openBehind_of_no_closing hopens hcloses]
      cases hmiddle : blocks.find? (fun b => b.middle = some id) with
      | some b =>
        simp only [hopened, hclosing, hmiddle, Option.ite_none_right_eq_some, Option.some.injEq] at hnest
        exact hnest.2.symm
      | none => simpa [hopened, hclosing, hmiddle] using hnest.symm

/-- The line of a block stands where the block is the innermost one. -/
def InPlace (blocks : List Block) (order : List ItemId) (b : Block) (id : ItemId) : Prop :=
  ∃ front behind, order = front ++ id :: behind ∧ (openBehind blocks front).head? = some b

theorem inPlace_iff (horder : order = front ++ id :: behind) :
    InPlace blocks order b id ↔ (openBehind blocks front).head? = some b := by
  constructor
  · rintro ⟨front', behind', horder', hhead⟩
    have hnodup := h.nodup
    rw [horder] at hnodup horder'
    rwa [(split_unique hnodup horder').1]
  · exact fun hhead => ⟨front, behind, horder, hhead⟩

omit h in
theorem isSome_nestOwn {opened : List Block}
    (hlines : ∀ b ∈ blocks, b.closing = id ∨ b.middle = some id → opened.head? = some b) :
    (nestOwn blocks opened id).isSome := by
  unfold nestOwn
  cases hopened : openedAt? blocks id with
  | some b => rfl
  | none =>
    cases hclosing : blocks.find? (fun b => b.closing = id) with
    | some b =>
      have hline : b.closing = id := by simpa using List.find?_some hclosing
      simp [hlines b (List.mem_of_find?_eq_some hclosing) (Or.inl hline)]
    | none =>
      cases hmiddle : blocks.find? (fun b => b.middle = some id) with
      | some b =>
        have hline : b.middle = some id := by simpa using List.find?_some hmiddle
        simp [hlines b (List.mem_of_find?_eq_some hmiddle) (Or.inr hline)]
      | none => rfl

/-- Blocks are closed and divided by their own lines if and only if all those lines are in place. -/
theorem foldlM_nestOwn (front : List ItemId) : ∀ behind, order = front ++ behind → ∀ opened,
    (front.foldlM (nestOwn blocks) [] = some opened ↔ opened = openBehind blocks front ∧
      ∀ b ∈ blocks, ∀ id ∈ front, b.closing = id ∨ b.middle = some id →
        InPlace blocks order b id) := by
  have hnodup := h.nodup
  induction front using List.reverseRecOn with
  | nil => simp [openBehind, eq_comm]
  | append_singleton front id ih =>
    intro behind horder opened
    rw [List.append_assoc, List.singleton_append] at horder
    have hid : id ∈ order := horder ▸ List.mem_append_right _ List.mem_cons_self
    have hfront : front.Nodup := by
      rw [horder, List.nodup_append] at hnodup
      exact hnodup.1
    have hfold : (front ++ [id]).foldlM (nestOwn blocks) [] = some opened ↔
        ∃ before, front.foldlM (nestOwn blocks) [] = some before ∧
          nestOwn blocks before id = some opened := by
      rw [List.foldlM_append]
      simp [Option.bind_eq_some_iff]
    -- A block that starts here has not been closed, for its closing line was in place.
    have hclosed (hplace : ∀ b ∈ blocks, ∀ other ∈ front, b.closing = other ∨ b.middle = some other →
        InPlace blocks order b other) : ∀ b ∈ blocks, b.opening = id → b.closing ∉ front := by
      rintro b hb rfl hmem
      obtain ⟨before, between, hsplit, hhead⟩ := hplace b hb _ hmem (Or.inl rfl)
      have hopening := ((h.mem_openBehind_iff hb).1 (List.mem_of_head? hhead)).1
      have hfirst : Precedes order b.opening b.closing := by
        rw [hsplit] at hnodup ⊢
        exact (precedes_split_left hnodup).2 hopening
      have hsecond : Precedes order b.closing b.opening := by
        rw [horder] at hnodup ⊢
        exact (precedes_split_left hnodup).2 hmem
      exact hfirst.asymm h.nodup hsecond
    rw [hfold]
    constructor
    · rintro ⟨before, hbefore, hnest⟩
      obtain ⟨rfl, hplace⟩ := (ih (id :: behind) horder before).1 hbefore
      refine ⟨h.nestOwn_openBehind hfront hid (hclosed hplace) hnest, fun b hb other hother hline => ?_⟩
      rcases List.mem_append.1 hother with hother | hother
      · exact hplace b hb other hother hline
      · rw [List.mem_singleton] at hother
        subst hother
        exact (h.inPlace_iff horder).2 ((h.nestOwn_line hb hline _).1 (by rw [hnest]; rfl))
    · rintro ⟨rfl, hplace⟩
      have hplace' : ∀ b ∈ blocks, ∀ other ∈ front, b.closing = other ∨ b.middle = some other →
          InPlace blocks order b other :=
        fun b hb other hother => hplace b hb other (List.mem_append_left _ hother)
      refine ⟨_, (ih (id :: behind) horder _).2 ⟨rfl, hplace'⟩, ?_⟩
      obtain ⟨after, hafter⟩ := Option.isSome_iff_exists.1 (isSome_nestOwn fun b hb hline =>
        (h.inPlace_iff horder).1 (hplace b hb id (List.mem_append_right _ List.mem_cons_self) hline))
      rw [hafter, h.nestOwn_openBehind hfront hid (hclosed hplace') hafter]

theorem nestedOwn_iff_inPlace : NestedOwn blocks order ↔ ∀ b ∈ blocks, ∀ id ∈ order,
    b.closing = id ∨ b.middle = some id → InPlace blocks order b id := by
  rw [NestedOwn, h.foldlM_nestOwn order [] (List.append_nil order).symm, h.openBehind_order]
  exact and_iff_right rfl

/-- A line in place stands behind the opening line of its block and not behind its closing line. -/
theorem InPlace.precedes (hb : b ∈ blocks) (hplace : InPlace blocks order b id) :
    Precedes order b.opening id ∧ (b.closing = id ∨ Precedes order id b.closing) := by
  obtain ⟨front, behind, horder, hhead⟩ := hplace
  obtain ⟨hopening, hclosing⟩ := (h.mem_openBehind_iff hb).1 (List.mem_of_head? hhead)
  have hnodup := h.nodup
  have hmem := (h.closing b hb).1
  rw [horder] at hnodup hmem ⊢
  refine ⟨(precedes_split_left hnodup).2 hopening, ?_⟩
  rcases List.mem_append.1 hmem with hmem | hmem
  · exact absurd hmem hclosing
  · rcases List.mem_cons.1 hmem with heq | hbehind
    · exact Or.inl heq
    · exact Or.inr ((precedes_split_right hnodup).2 hbehind)

theorem not_behind_head (hfront : front.Nodup) (hhead : (openBehind blocks front).head? = some b)
    (hc : c ∈ openBehind blocks front) : ¬ Precedes front b.opening c.opening := by
  intro hbehind
  obtain ⟨inner, outer, hsplit, hinner, -⟩ := h.openBehind_split hfront hc
  cases inner with
  | nil =>
    rw [hsplit, List.nil_append, List.head?_cons, Option.some.injEq] at hhead
    rw [hhead] at hbehind
    exact hbehind.irrefl hfront
  | cons other inner =>
    rw [hsplit, List.cons_append, List.head?_cons, Option.some.injEq] at hhead
    rw [← hhead] at hbehind
    exact hbehind.asymm hfront (hinner other List.mem_cons_self)

/-- A block that is opened between the opening line of another and a line of it that is in place is closed
there as well. -/
theorem InPlace.closes_inner (hb : b ∈ blocks) (hc : c ∈ blocks) (hplace : InPlace blocks order b id)
    (hopening : Precedes order b.opening c.opening) (hinside : Precedes order c.opening id) :
    Precedes order c.closing id := by
  obtain ⟨front, behind, horder, hhead⟩ := hplace
  have hnodup := h.nodup
  rw [horder] at hnodup hopening hinside ⊢
  have hmem := (precedes_split_left hnodup).1 hinside
  by_contra hopen
  have hc' : c ∈ openBehind blocks front := (h.mem_openBehind_iff hc).2
    ⟨hmem, fun hclosed => hopen ((precedes_split_left hnodup).2 hclosed)⟩
  have hfront : front.Nodup := (List.nodup_append.1 hnodup).1
  have hbefore : Precedes front b.opening c.opening := by
    have hb' := ((h.mem_openBehind_iff hb).1 (List.mem_of_head? hhead)).1
    exact Precedes.of_sublist hnodup (List.sublist_append_left front _) hb' hmem hopening
  exact h.not_behind_head hfront hhead hc' hbefore

/-- A block that is opened behind another one does not cross it if the lines of both are in place. -/
theorem apart_of_inPlace (hplace : ∀ b ∈ blocks, ∀ id ∈ order, b.closing = id ∨ b.middle = some id →
      InPlace blocks order b id) (hb : b ∈ blocks) (hc : c ∈ blocks)
    (hopening : Precedes order b.opening c.opening) : b.Apart order c := by
  have hother {id : ItemId} (hid : id ∈ order) (hrole : role? id ≠ some (.opens c.kind)) :
      Precedes order id c.opening ∨ Precedes order c.opening id := by
    refine precedes_total hid (h.opening c hc).1 ?_
    rintro rfl
    exact hrole (h.opening c hc).2
  have hclosing := h.closing b hb
  rcases hother hclosing.1 (by simp [hclosing.2]) with hbehind | hinside
  · exact Or.inl hbehind
  · have hend := InPlace.closes_inner h hb hc (hplace b hb _ hclosing.1 (Or.inl rfl)) hopening hinside
    refine Or.inr (Or.inr (Or.inr ?_))
    cases hmiddle : b.middle with
    | none => exact ⟨(b.opening, b.closing), by simp [Block.stretches, hmiddle], hopening, hend⟩
    | some middle =>
      obtain ⟨hmem, hrole⟩ := h.middle b hb middle hmiddle
      rcases hother hmem (by simp [hrole]) with hsecond | hfirst
      · exact ⟨(middle, b.closing), by simp [Block.stretches, hmiddle], hsecond, hend⟩
      · have hhalf :=
          InPlace.closes_inner h hb hc (hplace b hb middle hmem (Or.inr hmiddle)) hopening hfirst
        exact ⟨(b.opening, middle), by simp [Block.stretches, hmiddle], hopening, hhalf⟩

/-- Blocks are closed and divided by their own lines if and only if they are upright and no two of them
cross. -/
theorem nestedOwn_iff : NestedOwn blocks order ↔ (∀ b ∈ blocks, b.Upright order) ∧
    ∀ b ∈ blocks, ∀ c ∈ blocks, b ≠ c → b.Apart order c := by
  rw [h.nestedOwn_iff_inPlace]
  constructor
  · intro hplace
    have hupright : ∀ b ∈ blocks, b.Upright order := by
      intro b hb
      refine ⟨(InPlace.precedes h hb (hplace b hb _ (h.closing b hb).1 (Or.inl rfl))).1,
        fun middle hmiddle => ?_⟩
      obtain ⟨hmem, hrole⟩ := h.middle b hb middle hmiddle
      obtain ⟨hfirst, hlast⟩ := InPlace.precedes h hb (hplace b hb middle hmem (Or.inr hmiddle))
      refine ⟨hfirst, hlast.resolve_left ?_⟩
      rintro rfl
      rw [(h.closing b hb).2] at hrole
      cases hrole
    refine ⟨hupright, fun b hb c hc hne => ?_⟩
    have hopening : b.opening ≠ c.opening := fun heq => hne (h.unique b hb c hc (Or.inl heq))
    rcases precedes_total (h.opening b hb).1 (h.opening c hc).1 hopening with hfirst | hfirst
    · exact h.apart_of_inPlace hplace hb hc hfirst
    · exact (h.apart_of_inPlace hplace hc hb hfirst).symm
  · rintro ⟨hupright, hapart⟩ b hb id hid hline
    obtain ⟨front, behind, horder⟩ := List.append_of_mem hid
    rw [h.inPlace_iff horder]
    have hnodup := h.nodup
    have hfront : front.Nodup := by
      rw [horder, List.nodup_append] at hnodup
      exact hnodup.1
    obtain ⟨inner, outer, hsplit, hinner, -⟩ :=
      h.openBehind_split hfront (h.mem_openBehind_of_line horder hb (hupright b hb) hline)
    cases inner with
    | nil => rw [hsplit, List.nil_append, List.head?_cons]
    | cons c inner =>
      have hc : c ∈ openBehind blocks front := hsplit ▸ List.mem_cons_self
      have hbehind := hinner c List.mem_cons_self
      have hne : b ≠ c := by
        rintro rfl
        exact hbehind.irrefl hfront
      exact absurd (hapart b hb c (mem_of_mem_openBehind hc) hne)
        (h.not_apart_of_inner horder hupright hb hc hline hbehind)

end Own

end Lists

end Parley
