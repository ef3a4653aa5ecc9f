import Parley.Decompile.Signature
import Parley.Proofs.Naming.Lasting
import Mathlib.Data.List.Count
import Mathlib.Data.List.Forall2
import Mathlib.Data.List.Induction
set_option autoImplicit false

/-!
# What is declared

A function declares the variables that have been noted: the parameters up to the highest one in its header, each local
variable that is a number in a line, and behind these each local array.  A variable that is noted both as a number and
as an array is declared in two lines.
-/

namespace Parley

namespace Variables

variable {vars : Variables} {leaves : List Leaf} {indices : List Nat}

/-- A local variable is known to be a number. -/
def IsNumber (vars : Variables) (n : Nat) : Prop := vars.locals[n]? = some .int

/-- Numbers are all that is known: parameters are numbers, and so are local variables of which anything is known. -/
structure Numeric (vars : Variables) : Prop where
  params : ∀ type ∈ vars.params, type = .int
  locals : ∀ type ∈ vars.locals, type = .unknown ∨ type = .int

/-! ## What is noted -/

theorem mem_padTo {α : Type} {filler : α} {size : Nat} {xs : List α} {x : α} (h : x ∈ padTo filler size xs) :
    x ∈ xs ∨ x = filler :=
  (List.mem_append.1 h).imp_right List.eq_of_mem_replicate

theorem length_padTo {α : Type} (filler : α) (size : Nat) (xs : List α) :
    (padTo filler size xs).length = max xs.length size := by
  rw [padTo, List.length_append, List.length_replicate]
  omega

theorem numeric_ofCount (count : Nat) : (ofCount count).Numeric :=
  ⟨fun _ h => absurd h List.not_mem_nil, fun _ h => Or.inl (List.eq_of_mem_replicate h)⟩

theorem Numeric.note (h : vars.Numeric) (leaf : Leaf) : (leaf.note vars).Numeric := by
  cases leaf with
  | number | global => exact h
  | scalar index loaded =>
    refine ⟨h.params, fun type htype => ?_⟩
    rcases List.mem_or_eq_of_mem_set htype with hold | rfl
    · exact (mem_padTo hold).elim (h.locals type) Or.inl
    · exact Or.inr rfl
  | param ordinal => exact ⟨fun type htype => (mem_padTo htype).elim (h.params type) id, h.locals⟩
  | element start index =>
    change (vars.noteArray start index).Numeric
    unfold noteArray
    split <;> exact ⟨h.params, h.locals⟩

theorem Numeric.forgetLocal (h : vars.Numeric) (n : Nat) : (vars.forgetLocal n).Numeric :=
  ⟨h.params, fun type htype => (List.mem_or_eq_of_mem_set htype).elim (h.locals type) Or.inl⟩

/-- A local variable is a number from when it is noted as one. -/
theorem isNumber_useLocal (vars : Variables) (index : UInt16) (n : Nat) :
    (vars.useLocal index).IsNumber n ↔ vars.IsNumber n ∨ index.toNat = n := by
  simp only [IsNumber, useLocal, List.getElem?_set, length_padTo]
  by_cases hsame : index.toNat = n
  · simp [hsame]
  · rw [if_neg hsame, padTo, List.getElem?_append, List.getElem?_replicate]
    split
    · simp [hsame]
    · rename_i hge
      rw [List.getElem?_eq_none (Nat.le_of_not_lt hge)]
      simp [hsame]

theorem length_params_useParam (vars : Variables) (ordinal : UInt16) :
    (vars.useParam ordinal).params.length = max vars.params.length ordinal.toNat := length_padTo _ _ _

theorem starts_noteArray (vars : Variables) (start index : UInt16) :
    (vars.noteArray start index).arrays.map (·.start) =
      if start ∈ vars.arrays.map (·.start) then vars.arrays.map (·.start)
      else vars.arrays.map (·.start) ++ [start] := by
  have hnoted : vars.arrays.any (·.start = start) = true ↔ start ∈ vars.arrays.map (·.start) := by simp
  unfold noteArray
  split
  · rename_i hany
    rw [if_pos (hnoted.1 hany), List.map_map]
    refine List.map_congr_left fun array _ => ?_
    rw [Function.comp_apply]
    split <;> rfl
  · rename_i hany
    rw [if_neg fun hmem => hany (hnoted.2 hmem), List.map_append]
    rfl

theorem isNumber_forgetLocal (vars : Variables) (index n : Nat) :
    (vars.forgetLocal index).IsNumber n ↔ vars.IsNumber n ∧ n ≠ index := by
  simp only [IsNumber, forgetLocal, List.getElem?_set]
  by_cases hsame : index = n
  · simp [hsame]
  · simp [hsame, Ne.symm hsame]

/-! ## Leaves that are noted -/

/-- What is known of the variables of a function when leaves have been noted, and then local variables forgotten. -/
structure Knows (leaves : List Leaf) (indices : List Nat) (vars : Variables) : Prop where
  numeric : vars.Numeric
  params : ∀ k, k ≤ vars.params.length ↔ k = 0 ∨ ∃ ordinal, .param ordinal ∈ leaves ∧ k ≤ ordinal.toNat
  scalars : ∀ n, vars.IsNumber n ↔ (∃ index loaded, .scalar index loaded ∈ leaves ∧ index.toNat = n) ∧ n ∉ indices
  arrays : ∀ start, start ∈ vars.arrays.map (·.start) ↔ ∃ index, .element start index ∈ leaves
  nodup : (vars.arrays.map (·.start)).Nodup

theorem knows_ofCount (count : Nat) : Knows [] [] (ofCount count) where
  numeric := numeric_ofCount count
  params k := by simp [ofCount]
  scalars n := by
    rw [IsNumber, ofCount, List.getElem?_replicate]
    split <;> simp
  arrays start := by simp [ofCount]
  nodup := List.nodup_nil

/-- One more leaf is noted. -/
theorem Knows.note (h : Knows leaves [] vars) (leaf : Leaf) : Knows (leaves ++ [leaf]) [] (leaf.note vars) where
  numeric := h.numeric.note leaf
  params k := by
    cases leaf with
    | param ordinal =>
      rw [Leaf.note, length_params_useParam, show k ≤ max vars.params.length ordinal.toNat ↔
        k ≤ vars.params.length ∨ k ≤ ordinal.toNat by omega, h.params]
      simp [or_assoc, or_and_right, exists_or]
    | element start index =>
      have hsame : (vars.noteArray start index).params = vars.params := by
        unfold noteArray
        split <;> rfl
      rw [Leaf.note, hsame, h.params]
      simp
    | _ => simpa [Leaf.note, useLocal] using h.params k
  scalars n := by
    cases leaf with
    | scalar index loaded =>
      rw [Leaf.note, isNumber_useLocal, h.scalars]
      simp [or_and_right, exists_or]
    | element start index =>
      have hsame : (vars.noteArray start index).locals = vars.locals := by
        unfold noteArray
        split <;> rfl
      rw [Leaf.note, IsNumber, hsame, ← IsNumber, h.scalars]
      simp
    | _ => simpa [Leaf.note, useParam, IsNumber] using h.scalars n
  arrays start := by
    cases leaf with
    | element other index =>
      rw [Leaf.note, starts_noteArray]
      split
      · rename_i hmem
        rw [h.arrays]
        simp only [List.mem_append, List.mem_singleton, Leaf.element.injEq, exists_or]
        refine ⟨Or.inl, fun hstart => hstart.elim id ?_⟩
        rintro ⟨_, rfl, -⟩
        exact (h.arrays start).1 hmem
      · rw [List.mem_append, h.arrays]
        simp [exists_or]
    | _ => simpa [Leaf.note, useParam, useLocal] using h.arrays start
  nodup := by
    cases leaf with
    | element other index =>
      rw [Leaf.note, starts_noteArray]
      split
      · exact h.nodup
      · rename_i hnew
        exact List.nodup_append'.2 ⟨h.nodup, List.nodup_singleton _, by simpa using hnew⟩
    | _ => exact h.nodup

theorem Knows.forgetLocal (h : Knows leaves indices vars) (index : Nat) :
    Knows leaves (indices ++ [index]) (vars.forgetLocal index) where
  numeric := h.numeric.forgetLocal index
  params := h.params
  scalars n := by
    rw [isNumber_forgetLocal, h.scalars, and_assoc, List.mem_append, List.mem_singleton, not_or]
  arrays := h.arrays
  nodup := h.nodup

/-- What is known when leaves have been noted one after the other and then local variables forgotten. -/
theorem knows_foldl (count : Nat) (leaves : List Leaf) (indices : List Nat) :
    Knows leaves indices (indices.foldl Variables.forgetLocal
      (leaves.foldl (fun vars leaf => leaf.note vars) (ofCount count))) := by
  have hnoted : Knows leaves [] (leaves.foldl (fun vars leaf => leaf.note vars) (ofCount count)) := by
    induction leaves using List.reverseRecOn with
    | nil => exact knows_ofCount count
    | append_singleton front leaf ih =>
      rw [List.foldl_append]
      exact ih.note leaf
  generalize leaves.foldl (fun vars leaf => leaf.note vars) (ofCount count) = vars at hnoted
  induction indices using List.reverseRecOn with
  | nil => exact hnoted
  | append_singleton front index ih =>
    rw [List.foldl_append]
    exact ih.forgetLocal index

/-! ## The names that are declared -/

/-- The local variables that are known to be numbers. -/
def scalars (vars : Variables) : List Nat := (List.range vars.locals.length).filter fun n => vars.locals[n]? = some .int

/-- The names of the parameters. -/
def paramNames (vars : Variables) : List String :=
  (List.range' 1 vars.params.length).map fun k => "param" ++ toString k

/-- The names of the local variables that are numbers. -/
def scalarNames (vars : Variables) : List String := vars.scalars.map fun n => "local_" ++ toString n

/-- The names of the local arrays. -/
def arrayNames (vars : Variables) : List String := vars.arrays.map fun array => Pass.localName array.start

/-- All names that a function declares. -/
def declaredNames (vars : Variables) : List String := vars.paramNames ++ (vars.scalarNames ++ vars.arrayNames)

theorem mem_scalars {n : Nat} : n ∈ vars.scalars ↔ vars.IsNumber n := by
  rw [scalars, List.mem_filter, List.mem_range, decide_eq_true_eq, IsNumber]
  exact and_iff_right_of_imp fun h => (List.getElem?_eq_some_iff.1 h).1

theorem nodup_scalars (vars : Variables) : vars.scalars.Nodup := List.nodup_range.filter _

/-- The header shows the parameters by their names. -/
theorem paramText_eq {info : FunctionInfo} (h : info.vars.Numeric) :
    info.paramText = String.intercalate ", " (info.vars.paramNames.map ("int " ++ ·)) := by
  rw [FunctionInfo.paramText, paramNames, List.map_map]
  congr 1
  refine List.ext_getElem (by simp) fun i hi _ => ?_
  rw [List.length_map, List.length_zipIdx] at hi
  have hint := h.params _ (List.getElem_mem hi)
  simp only [List.getElem_map, List.getElem_zipIdx, List.getElem_range', Function.comp_apply, hint, DataType.text,
    Nat.zero_add, Nat.one_mul, Nat.add_comm 1 i]
  rw [← String.append_assoc]
  rfl

/-- The lines behind the header declare numbers and arrays by their names. -/
theorem declarations_eq {info : FunctionInfo} (h : info.vars.Numeric) :
    info.declarations = info.vars.scalarNames.map (fun name => "int " ++ name ++ ";") ++
      info.vars.arrays.map fun array =>
        "int " ++ Pass.localName array.start ++ "[" ++ Text.decimal array.size ++ "];" := by
  have hentries : info.vars.locals.zipIdx =
      (List.range info.vars.locals.length).map fun n => (info.vars.locals.getD n .unknown, n) :=
    List.ext_getElem (by simp) fun n hn _ => by
      rw [List.length_zipIdx] at hn
      simp [List.getElem?_eq_getElem hn]
  rw [FunctionInfo.declarations, hentries, List.filterMap_map]
  congr 1
  · rw [scalarNames, List.map_map, scalars, ← List.filterMap_eq_map, List.filterMap_filter]
    refine List.filterMap_congr fun n hn => ?_
    have hlt := List.mem_range.1 hn
    rw [Function.comp_apply, List.getD_eq_getElem?_getD, List.getElem?_eq_getElem hlt, Option.getD_some,
      FunctionInfo.localDeclaration?]
    rcases h.locals _ (List.getElem_mem hlt) with htype | htype
    · simp [htype]
    · simp only [htype, reduceCtorEq, if_false, decide_true, if_true, Function.comp_apply, DataType.text]
      rw [← String.append_assoc]
      rfl
  · refine List.map_congr_left fun array _ => ?_
    have hint : FunctionInfo.elementType info.vars array = .int := by
      unfold FunctionInfo.elementType
      split
      · rfl
      · rfl
      · rename_i type hne htype
        exact (h.locals type (List.mem_of_getElem? htype)).resolve_left hne
    rw [FunctionInfo.arrayDeclaration, hint, Pass.localName, ← String.append_assoc]
    rfl

/-! ## How often a name is declared -/

/-- Different numbers make different names. -/
theorem injective_toString (mark : String) : Function.Injective fun n : Nat => mark ++ toString n := by
  intro m n h
  have hdigits : Nat.toDigits 10 m = Nat.toDigits 10 n := String.ofList_inj.1 ((String.append_right_inj mark).1 h)
  rw [← Nat.ofDigitChars_ten_toDigits (n := m), hdigits, Nat.ofDigitChars_ten_toDigits]

/-- A parameter is no local variable. -/
theorem param_ne_local (k n : Nat) : "param" ++ toString k ≠ "local_" ++ toString n := fun h => by
  have hheads := congrArg (fun text : String => text.toList.head?) h
  simp at hheads

theorem arrayNames_eq (vars : Variables) :
    vars.arrayNames = (vars.arrays.map (·.start.toNat)).map fun n => "local_" ++ toString n := by
  rw [arrayNames, List.map_map]
  rfl

/-- A local variable is declared as a number and as an array. -/
theorem count_local (vars : Variables) (n : Nat) : vars.declaredNames.count ("local_" ++ toString n) =
    vars.scalars.count n + (vars.arrays.map (·.start.toNat)).count n := by
  have hparams : vars.paramNames.count ("local_" ++ toString n) = 0 := by
    refine List.count_eq_zero.2 fun hmem => ?_
    obtain ⟨k, -, hname⟩ := List.mem_map.1 hmem
    exact param_ne_local k n hname
  rw [declaredNames, List.count_append, List.count_append, hparams, Nat.zero_add, scalarNames, arrayNames_eq,
    List.count_map_of_injective _ _ (injective_toString "local_"),
    List.count_map_of_injective _ _ (injective_toString "local_")]

theorem count_param (vars : Variables) (k : Nat) :
    vars.declaredNames.count ("param" ++ toString k) = if 0 < k ∧ k ≤ vars.params.length then 1 else 0 := by
  have hlocals {ns : List Nat} : (ns.map fun n => "local_" ++ toString n).count ("param" ++ toString k) = 0 := by
    refine List.count_eq_zero.2 fun hmem => ?_
    obtain ⟨n, -, hname⟩ := List.mem_map.1 hmem
    exact param_ne_local k n hname.symm
  rw [declaredNames, List.count_append, List.count_append, scalarNames, hlocals, arrayNames_eq, hlocals, paramNames,
    List.count_map_of_injective _ _ (injective_toString "param"), Nat.add_zero,
    List.Nodup.count (List.nodup_range' 1)]
  congr 1
  rw [List.mem_range'_1]
  exact propext ⟨fun h => by omega, fun h => by omega⟩

theorem mem_starts {start : UInt16} :
    start.toNat ∈ vars.arrays.map (·.start.toNat) ↔ start ∈ vars.arrays.map (·.start) := by
  simp only [List.mem_map]
  exact exists_congr fun array => and_congr_right fun _ => UInt16.toNat_inj

namespace Knows

variable {index start ordinal : UInt16}

theorem mem_scalars (h : Knows leaves indices vars) :
    index.toNat ∈ vars.scalars ↔ (∃ loaded, .scalar index loaded ∈ leaves) ∧ index.toNat ∉ indices := by
  rw [Variables.mem_scalars, h.scalars]
  refine and_congr_left fun _ => ⟨?_, fun ⟨loaded, hleaf⟩ => ⟨index, loaded, hleaf, rfl⟩⟩
  rintro ⟨other, loaded, hleaf, hsame⟩
  exact ⟨loaded, UInt16.toNat_inj.1 hsame ▸ hleaf⟩

theorem mem_starts (h : Knows leaves indices vars) :
    start.toNat ∈ vars.arrays.map (·.start.toNat) ↔ ∃ index, .element start index ∈ leaves :=
  Variables.mem_starts.trans (h.arrays start)

theorem nodup_starts (h : Knows leaves indices vars) : (vars.arrays.map (·.start.toNat)).Nodup := by
  have hnodup := h.nodup.map (f := UInt16.toNat) fun _ _ => UInt16.toNat_inj.1
  rwa [List.map_map] at hnodup

/-- A parameter is declared once, unless it has the ordinal zero. -/
theorem count_param (h : Knows leaves indices vars) (hleaf : .param ordinal ∈ leaves) :
    vars.declaredNames.count ("param" ++ Text.decimal ordinal) = 1 ↔ 0 < ordinal := by
  have hle := (h.params ordinal.toNat).2 (Or.inr ⟨ordinal, hleaf, Nat.le_refl _⟩)
  rw [Text.decimal, Variables.count_param, UInt16.lt_iff_toNat_lt]
  simp [hle]

/-- How often a local variable is declared. -/
theorem count_local (h : Knows leaves indices vars) (index : UInt16) :
    vars.declaredNames.count (Pass.localName index) =
      (if index.toNat ∈ vars.scalars then 1 else 0) +
        if index.toNat ∈ vars.arrays.map (·.start.toNat) then 1 else 0 := by
  rw [← h.nodup_starts.count, ← vars.nodup_scalars.count]
  exact vars.count_local index.toNat

/-- A local variable that is read or written as a number is declared once unless it is forgotten and no array, or an
array and not forgotten. -/
theorem count_scalar {loaded : Bool} (h : Knows leaves indices vars) (hleaf : .scalar index loaded ∈ leaves) :
    vars.declaredNames.count (Pass.localName index) = 1 ↔
      (index.toNat ∈ indices ↔ ∃ i, .element index i ∈ leaves) := by
  have hscalar : index.toNat ∈ vars.scalars ↔ index.toNat ∉ indices := by
    rw [h.mem_scalars, and_iff_right ⟨loaded, hleaf⟩]
  rw [h.count_local, ← h.mem_starts]
  by_cases hindices : index.toNat ∈ indices <;>
    by_cases hstart : index.toNat ∈ vars.arrays.map (·.start.toNat) <;> simp [hscalar, hindices, hstart]

/-- A local array is declared once unless it is a number, too, and not forgotten as such. -/
theorem count_element {i : UInt16} (h : Knows leaves indices vars) (hleaf : .element start i ∈ leaves) :
    vars.declaredNames.count (Pass.localName start) = 1 ↔
      ((∃ loaded, .scalar start loaded ∈ leaves) → start.toNat ∈ indices) := by
  have hstart := h.mem_starts.2 ⟨i, hleaf⟩
  have hscalar : start.toNat ∈ vars.scalars ↔ (∃ loaded, .scalar start loaded ∈ leaves) ∧ start.toNat ∉ indices :=
    h.mem_scalars
  rw [h.count_local, if_pos hstart]
  split
  · rename_i hmem
    obtain ⟨hpushed, hkept⟩ := hscalar.1 hmem
    exact iff_of_false (by decide) fun hforgotten => hkept (hforgotten hpushed)
  · rename_i hmem
    exact iff_of_true rfl fun hpushed => by_contra fun hkept => hmem (hscalar.2 ⟨hpushed, hkept⟩)

/-- No name is declared twice if each local variable that is noted as a number and as an array is forgotten as such. -/
theorem nodup_declaredNames (h : Knows leaves indices vars) : vars.declaredNames.Nodup ↔
    ∀ index loaded i, .scalar index loaded ∈ leaves → .element index i ∈ leaves → index.toNat ∈ indices := by
  constructor
  · intro hnodup index loaded i hscalar helement
    by_contra hkept
    have hcount := List.nodup_iff_count_le_one.1 hnodup (Pass.localName index)
    rw [h.count_local, if_pos (h.mem_scalars.2 ⟨⟨loaded, hscalar⟩, hkept⟩), if_pos (h.mem_starts.2 ⟨i, helement⟩)]
      at hcount
    exact absurd hcount (by decide)
  · intro hforgotten
    have hlocal := injective_toString "local_"
    have hapart {n : Nat} (hn : n ∈ vars.scalars) : n ∉ vars.arrays.map (·.start.toNat) := fun hstart => by
      obtain ⟨array, harray, rfl⟩ := List.mem_map.1 hstart
      obtain ⟨⟨loaded, hscalar⟩, hkept⟩ := h.mem_scalars.1 hn
      obtain ⟨i, helement⟩ := h.mem_starts.1 hstart
      exact hkept (hforgotten _ loaded i hscalar helement)
    rw [declaredNames, arrayNames_eq, scalarNames, ← List.map_append, paramNames]
    refine List.nodup_append'.2 ⟨(List.nodup_range' 1).map (injective_toString "param"), ?_, ?_⟩
    · exact (List.nodup_append'.2 ⟨vars.nodup_scalars, h.nodup_starts, fun _ => hapart⟩).map hlocal
    · intro name hparam hname
      obtain ⟨k, -, rfl⟩ := List.mem_map.1 hparam
      obtain ⟨n, -, hsame⟩ := List.mem_map.1 hname
      exact param_ne_local k n hsame.symm

end Knows

/-- How often the leaves of a function are declared by their names, where some local variables are inlined.  A parameter
is declared once, unless its ordinal is zero.  A local variable that is read or written as a number is declared once
unless it is inlined or an array, and it is, too, if it is both.  A local array is declared once if it is not noted as a
number, or is inlined. -/
structure Tallies (vars : Variables) (leaves : List Leaf) (inlined : Nat → Prop) : Prop where
  param : ∀ ordinal, .param ordinal ∈ leaves →
    (vars.declaredNames.count ("param" ++ Text.decimal ordinal) = 1 ↔ 0 < ordinal)
  scalar : ∀ index loaded, .scalar index loaded ∈ leaves →
    (vars.declaredNames.count (Pass.localName index) = 1 ↔
      (inlined index.toNat ↔ ∃ i, .element index i ∈ leaves))
  element : ∀ start i, .element start i ∈ leaves →
    (vars.declaredNames.count (Pass.localName start) = 1 ↔
      ((∃ loaded, .scalar start loaded ∈ leaves) → inlined start.toNat))
  distinct : vars.declaredNames.Nodup ↔
    ∀ index loaded i, .scalar index loaded ∈ leaves → .element index i ∈ leaves → inlined index.toNat

theorem Knows.tallies {inlined : Nat → Prop} (h : Knows leaves indices vars) (hmem : ∀ n, n ∈ indices ↔ inlined n) :
    vars.Tallies leaves inlined where
  param _ := h.count_param
  scalar _ _ hleaf := (h.count_scalar hleaf).trans (iff_congr (hmem _) Iff.rfl)
  element _ _ hleaf := (h.count_element hleaf).trans (imp_congr_right fun _ => hmem _)
  distinct := h.nodup_declaredNames.trans (by simp only [hmem])

end Variables

/-! ## The lines of a signature -/

/-- A declaration does not begin like the name of a local variable. -/
theorem FunctionInfo.head?_declaration {info : FunctionInfo} (h : info.vars.Numeric) {line : String}
    (hline : line ∈ info.declarations) : line.toList.head? ≠ some 'l' := by
  rw [Variables.declarations_eq h, List.mem_append, List.mem_map, List.mem_map] at hline
  rcases hline with ⟨name, -, rfl⟩ | ⟨array, -, rfl⟩ <;> simp

namespace Graph

variable {g g' : Graph} {info : FunctionInfo} {header opening site : ItemId} {lines front behind : List ItemId}

/-- A function is written with its header, and with its declarations in lines below that. -/
structure Declares (g : Graph) (info : FunctionInfo) (header opening : ItemId) (lines : List ItemId) : Prop where
  heads : g.Heads info.frame header opening
  headed : ∃ count, g.Prints header (info.header count)
  declared : List.Forall₂ g.Prints lines info.declarations
  order : (header :: opening :: (lines ++ [info.startItem])).Sublist g.order

/-- Lines are put before an item, one below the other. -/
theorem exists_lines (hsite : site ∉ front) (hlt : site < g.size) (horder : g.order = front ++ site :: behind)
    (texts : List String) :
    ∃ lines, List.Forall₂ (texts.foldl (fun g text => g.addStatement site (.plain text)) g).Prints lines texts ∧
      (texts.foldl (fun g text => g.addStatement site (.plain text)) g).order = front ++ (lines ++ site :: behind) ∧
      ∀ id < g.size, (texts.foldl (fun g text => g.addStatement site (.plain text)) g).item id = g.item id := by
  induction texts generalizing g front with
  | nil => exact ⟨[], .nil, horder, fun _ _ => rfl⟩
  | cons text rest ih =>
    have hsize : (g.addStatement site (.plain text)).size = g.size + 1 := size_insertBefore ..
    have horder' : (g.addStatement site (.plain text)).order = (front ++ [g.size]) ++ site :: behind := by
      rw [addStatement, order_insertBefore, horder, placeBefore_split hsite, List.append_assoc]
      rfl
    have hsite' : site ∉ front ++ [g.size] := by
      rw [List.mem_append, List.mem_singleton, not_or]
      exact ⟨hsite, Nat.ne_of_lt hlt⟩
    obtain ⟨lines, hlines, hall, hitems⟩ := ih hsite' (hsize ▸ Nat.lt_succ_of_lt hlt) horder'
    refine ⟨g.size :: lines, .cons ?_ hlines, ?_, fun id hid => ?_⟩
    · rw [Prints, List.foldl_cons, hitems g.size (hsize ▸ Nat.lt_succ_self _), addStatement, item_insertBefore_new]
      exact ⟨rfl, rfl⟩
    · rw [List.foldl_cons, hall, List.append_assoc]
      rfl
    · rw [List.foldl_cons, hitems id (hsize ▸ Nat.lt_succ_of_lt hid)]
      exact item_insertBefore_of_ne (Nat.ne_of_lt hid) _ _

/-- A signature stays where its header and its lines stay. -/
theorem Declares.mono (h : g.Declares info header opening lines) (hvars : info.vars.Numeric)
    (hheads : g'.Heads info.frame header opening)
    (hprints : ∀ id text, g.Prints id text → text.toList.head? ≠ some 'l' → g'.Prints id text)
    (horder : g.order.Sublist g'.order) : g'.Declares info header opening lines where
  heads := hheads
  headed := h.headed.imp fun count hprinted => hprints _ _ hprinted (info.head?_header count)
  declared := by
    obtain ⟨hlength, hprinted⟩ := List.forall₂_iff_zip.1 h.declared
    exact List.forall₂_iff_zip.2 ⟨hlength, fun hmem => hprints _ _ (hprinted hmem)
      (FunctionInfo.head?_declaration hvars (List.of_mem_zip hmem).2)⟩
  order := h.order.trans horder

/-- A header is put before an item, and a line between it and the item. -/
theorem prints_header (hsite : site ∉ front) (hlt : site < g.size) (horder : g.order = front ++ site :: behind)
    (header : String) (line : Statement) :
    (g.replaceByStatement site (.plain header)).size = g.size + 1 ∧
      ((g.replaceByStatement site (.plain header)).addStatement site line).Prints g.size header ∧
      ((g.replaceByStatement site (.plain header)).addStatement site line).order =
        (front ++ [g.size, g.size + 1]) ++ site :: behind := by
  have hmarked : (g.markProcessed site).size = g.size := size_modify g site _
  have hsize : (g.replaceByStatement site (.plain header)).size = g.size + 1 :=
    (size_insertBefore ..).trans (congrArg (· + 1) hmarked)
  refine ⟨hsize, ?_, ?_⟩
  · rw [Prints, addStatement, item_insertBefore_of_ne (hsize ▸ Nat.ne_of_lt (Nat.lt_succ_self _)), replaceByStatement,
      addStatement, ← hmarked, item_insertBefore_new]
    exact ⟨rfl, rfl⟩
  · have hnotMem : site ∉ front ++ [g.size] := by
      rw [List.mem_append, List.mem_singleton, not_or]
      exact ⟨hsite, Nat.ne_of_lt hlt⟩
    have hheaded : (g.replaceByStatement site (.plain header)).order = (front ++ [g.size]) ++ site :: behind := by
      rw [replaceByStatement, addStatement, order_insertBefore, hmarked, List.append_assoc]
      exact (congrArg _ horder).trans (placeBefore_split hsite)
    rw [addStatement, order_insertBefore, hheaded, placeBefore_split hnotMem, hsize]
    simp

/-- The signature of a function shows what is known of its variables. -/
theorem declares_addSignature (hg : g.Sound) (hfits : info.frame.Fits g) (hvars : info.vars.Numeric) :
    ∃ opening lines, (g.addSignature info).Declares info g.size opening lines := by
  have hstart : g.Site info.startItem := hfits.front_site hg
  have hstop : g.Site info.endItem := hfits.back_site hg
  obtain ⟨other, hother, -⟩ := hfits.behind
  change Precedes g.order info.endItem other at hother
  have hlt := hstart.lt_size
  obtain ⟨front, behind, horder, hfront, -⟩ := hg.ordered.split hlt
  obtain ⟨hopened, hheads⟩ := heads_opening hg hfits (g.item info.startItem).xrefCount
  obtain ⟨hsize, hprints, horder'⟩ := prints_header hfront hlt horder
    (info.header (g.item info.startItem).xrefCount) ⟨openBrace, .opens .function⟩
  rw [hsize] at hopened hheads
  unfold addSignature
  dsimp only
  generalize (g.replaceByStatement info.startItem (.plain (info.header (g.item info.startItem).xrefCount))).addStatement
    info.startItem ⟨openBrace, .opens .function⟩ = opened at *
  -- The declarations stand below the brace.
  have hnotMem : info.startItem ∉ front ++ [g.size, g.size + 1] := by
    simp only [List.mem_append, List.mem_cons, List.not_mem_nil, or_false, not_or]
    exact ⟨hfront, Nat.ne_of_lt hlt, Nat.ne_of_lt (Nat.lt_succ_of_lt hlt)⟩
  obtain ⟨lines, hlines, hall, -⟩ := exists_lines hnotMem (hopened.lt_size hlt) horder' info.declarations
  have hdeclared := grows_foldl_addStatement hopened.sound (hopened.site hstart).place info.declarations
  have hheads' := hheads.grows hopened.sound hdeclared
  have hprints' := hprints.grows hdeclared (info.head?_header _)
  have hback := hdeclared.site (hopened.site hstop)
  replace hother := (hopened.trans hdeclared).precedes hother
  generalize info.declarations.foldl (fun g line => g.addStatement info.startItem (.plain line)) opened = declared at *
  have hdeclares : declared.Declares info g.size (g.size + 1) lines := {
    heads := hheads'
    headed := ⟨_, hprints'⟩
    declared := hlines
    order := by
      have hsplit : declared.order =
          front ++ (g.size :: (g.size + 1) :: (lines ++ [info.startItem])) ++ behind := by simp [hall]
      rw [hsplit]
      exact (List.infix_append _ _ _).sublist }
  have hclosed := grows_replaceByLine hdeclared.sound hback ⟨closingLine "end-function", .closes .function⟩ rfl
    (by simp) (by simp [closingLine, closeBrace])
  have hgrows := hclosed.trans (grows_addBlankLine hclosed.sound (hclosed.site hback) ⟨other, hclosed.precedes hother⟩)
  exact ⟨g.size + 1, lines, hdeclares.mono hvars (hdeclares.heads.grows hdeclared.sound hgrows)
    (fun _ _ hprinted => hprinted.grows hgrows) hgrows.order⟩

end Graph

theorem Decompilation.Persists.declares {d d' : Decompilation} {info : FunctionInfo} {header opening : ItemId}
    {lines : List ItemId} (h : d.Persists d') (hvars : info.vars.Numeric)
    (hdeclares : d.graph.Declares info header opening lines) : d'.graph.Declares info header opening lines :=
  hdeclares.mono hvars (h.heads _ _ _ hdeclares.heads) h.prints h.longer.order

end Parley
