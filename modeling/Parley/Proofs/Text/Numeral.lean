import Mathlib.Data.List.Induction
import Parley.Decompile.Naming
set_option autoImplicit false

/-!
# Numerals

The digits of a numeral are read by their places.  The value of the hexadecimal digits that are written for a number
is that number, whatever number of zeros stands before them.  So different words have different numerals, and
different positions have different labels.
-/

namespace Parley.Text

variable {base : Nat} {cs : List Char} {c : Char}

theorem digitsFrom?_append (value : Nat) (more : List Char) :
    digitsFrom? base value (cs ++ more) =
      (digitsFrom? base value cs).bind fun value => digitsFrom? base value more := by
  induction cs generalizing value with
  | nil => rfl
  | cons c cs ih =>
    rw [List.cons_append, digitsFrom?, digitsFrom?]
    cases digit? base c with
    | none => rfl
    | some d => exact ih _

/-! ## The value of digits -/

/-- The digits of a number in a base: the last one is worth itself, and those before it the base times as much as they
are on their own. -/
inductive Numeral (base : Nat) : List Char → Nat → Prop
  | digit {c : Char} {d : Nat} (hdigit : digit? base c = some d) : Numeral base [c] d
  | more {cs : List Char} {c : Char} {n d : Nat} (hfront : Numeral base cs n) (hdigit : digit? base c = some d) :
      Numeral base (cs ++ [c]) (n * base + d)

theorem digits?_of_ne_nil (h : cs ≠ []) : digits? base cs = digitsFrom? base 0 cs := by
  obtain ⟨c, rest, rfl⟩ := List.exists_cons_of_ne_nil h
  rfl

theorem digitsFrom?_concat (value : Nat) :
    digitsFrom? base value (cs ++ [c]) =
      (digitsFrom? base value cs).bind fun n => (digit? base c).map fun d => n * base + d := by
  rw [digitsFrom?_append]
  congr 1
  funext n
  rw [digitsFrom?]
  cases digit? base c <;> rfl

/-- Digits are read as the number that they spell. -/
theorem digits?_eq_some_iff {n : Nat} : digits? base cs = some n ↔ Numeral base cs n := by
  constructor
  · induction cs using List.reverseRecOn generalizing n with
    | nil => intro h; cases h
    | append_singleton cs c ih =>
      intro h
      rw [digits?_of_ne_nil (List.concat_ne_nil c cs), digitsFrom?_concat] at h
      obtain ⟨front, hfront, hlast⟩ := Option.bind_eq_some_iff.1 h
      obtain ⟨d, hdigit, rfl⟩ := Option.map_eq_some_iff.1 hlast
      by_cases hnil : cs = []
      · subst hnil
        cases hfront
        rw [Nat.zero_mul, Nat.zero_add]
        exact .digit hdigit
      · rw [← digits?_of_ne_nil hnil] at hfront
        exact .more (ih hfront) hdigit
  · intro h
    induction h with
    | digit hdigit => simp [digits?, digitsFrom?, hdigit]
    | @more cs c n d hfront hdigit ih =>
      have hne : cs ≠ [] := by
        rintro rfl
        cases ih
      rw [digits?_of_ne_nil hne] at ih
      rw [digits?_of_ne_nil (List.concat_ne_nil c cs), digitsFrom?_concat, ih, hdigit]
      rfl

theorem Numeral.ne_nil {n : Nat} (h : Numeral base cs n) : cs ≠ [] := by
  rintro rfl
  cases digits?_eq_some_iff.2 h

theorem Numeral.value_unique {n n' : Nat} (h : Numeral base cs n) (h' : Numeral base cs n') : n = n' :=
  Option.some.inj ((digits?_eq_some_iff.2 h).symm.trans (digits?_eq_some_iff.2 h'))

theorem Numeral.isSome_digit? {n : Nat} (h : Numeral base cs n) : ∀ c ∈ cs, (digit? base c).isSome = true := by
  induction h with
  | digit hdigit =>
    intro x hx
    rw [List.mem_singleton.1 hx, hdigit]
    rfl
  | more hfront hdigit ih =>
    intro x hx
    rcases List.mem_append.1 hx with hx | hx
    · exact ih x hx
    · rw [List.mem_singleton.1 hx, hdigit]
      rfl

/-- Any digits spell a number. -/
theorem exists_numeral (hne : cs ≠ []) (h : ∀ c ∈ cs, (digit? base c).isSome = true) : ∃ n, Numeral base cs n := by
  induction cs using List.reverseRecOn with
  | nil => exact absurd rfl hne
  | append_singleton cs c ih =>
    obtain ⟨hfront, hlast⟩ := List.forall_mem_append.1 h
    obtain ⟨d, hdigit⟩ := Option.isSome_iff_exists.1 (hlast c List.mem_cons_self)
    by_cases hnil : cs = []
    · subst hnil
      exact ⟨d, .digit hdigit⟩
    · obtain ⟨n, hn⟩ := ih hnil hfront
      exact ⟨n * base + d, .more hn hdigit⟩

/-! ## Numerals with a sign -/

theorem digit?_plus (base : Nat) : digit? base '+' = none := rfl

theorem digit?_minus (base : Nat) : digit? base '-' = none := rfl

/-- A numeral has no character that is no digit of its base. -/
theorem Numeral.notMem {n : Nat} (h : Numeral base cs n) (hc : digit? base c = none) : c ∉ cs := by
  intro hmem
  have hdigit := h.isSome_digit? c hmem
  rw [hc] at hdigit
  cases hdigit

theorem Numeral.head?_ne {n : Nat} (h : Numeral base cs n) (hc : digit? base c = none) : cs.head? ≠ some c :=
  fun hhead => h.notMem hc (List.mem_of_head? hhead)

/-- A number is spelled by digits, and a plus sign may stand before them. -/
theorem natural?_eq_some_iff {limit n : Nat} : natural? base limit cs = some n ↔
    n ≤ limit ∧ (Numeral base cs n ∨ ∃ digits, cs = '+' :: digits ∧ Numeral base digits n) := by
  unfold natural?
  rw [Option.filter_eq_some_iff, decide_eq_true_iff, and_comm, digits?_eq_some_iff]
  refine and_congr_right fun _ => ?_
  split
  · rename_i rest
    constructor
    · exact fun h => Or.inr ⟨rest, rfl, h⟩
    · rintro (h | ⟨digits, heq, h⟩)
      · exact absurd rfl (h.head?_ne (digit?_plus base))
      · rwa [(List.cons.inj heq).2]
  · rename_i hplus
    constructor
    · exact Or.inl
    · rintro (h | ⟨digits, rfl, -⟩)
      · exact h
      · exact absurd rfl (hplus digits)

theorem natural?_of_numeral {limit n : Nat} (h : Numeral base cs n) :
    natural? base limit cs = if n ≤ limit then some n else none := by
  split
  · rename_i hle
    exact natural?_eq_some_iff.2 ⟨hle, Or.inl h⟩
  · rename_i hgt
    rw [Option.eq_none_iff_forall_ne_some]
    intro n' hn'
    obtain ⟨hle, h' | ⟨digits, rfl, -⟩⟩ := natural?_eq_some_iff.1 hn'
    · exact hgt (h.value_unique h' ▸ hle)
    · exact absurd rfl (h.head?_ne (digit?_plus base))

theorem integer32?_minus (digits : List Char) :
    integer32? ('-' :: digits) =
      ((digits? 10 digits).filter (· ≤ 0x80000000)).map fun n : Nat => -(n : Int) := by
  unfold integer32?
  simp only [bind_pure_comp, Option.map_eq_map, Option.map_map]
  rfl

theorem integer32?_of_ne (h : cs.head? ≠ some '-') :
    integer32? cs = (natural? 10 0x7fffffff cs).map fun n : Nat => (n : Int) := by
  unfold integer32?
  split
  · exact absurd rfl h
  · simp only [bind_pure_comp, Option.map_eq_map, Option.map_map]
    rfl

/-- An integer is a number, or digits behind a minus sign. -/
theorem integer32?_eq_some_iff {z : Int} : integer32? cs = some z ↔
    (∃ n : Nat, natural? 10 0x7fffffff cs = some n ∧ z = n) ∨
      ∃ digits n, cs = '-' :: digits ∧ Numeral 10 digits n ∧ n ≤ 0x80000000 ∧ z = -(n : Int) := by
  by_cases hminus : cs.head? = some '-'
  · obtain ⟨digits, rfl⟩ := List.head?_eq_some_iff.1 hminus
    rw [integer32?_minus, Option.map_eq_some_iff]
    constructor
    · rintro ⟨n, hn, rfl⟩
      obtain ⟨hdigits, hle⟩ := Option.filter_eq_some_iff.1 hn
      exact Or.inr ⟨digits, n, rfl, digits?_eq_some_iff.1 hdigits, of_decide_eq_true hle, rfl⟩
    · rintro (⟨n, hn, -⟩ | ⟨digits', n, heq, hdigits, hle, rfl⟩)
      · obtain ⟨-, h | ⟨digits', heq, -⟩⟩ := natural?_eq_some_iff.1 hn
        · exact absurd rfl (h.head?_ne (digit?_minus 10))
        · cases heq
      · obtain rfl := (List.cons.inj heq).2
        exact ⟨n, Option.filter_eq_some_iff.2 ⟨digits?_eq_some_iff.2 hdigits, decide_eq_true hle⟩, rfl⟩
  · rw [integer32?_of_ne hminus, Option.map_eq_some_iff]
    constructor
    · rintro ⟨n, hn, rfl⟩
      exact Or.inl ⟨n, hn, rfl⟩
    · rintro (⟨n, hn, rfl⟩ | ⟨digits, n, rfl, -⟩)
      · exact ⟨n, hn, rfl⟩
      · exact absurd rfl hminus

/-! ## Hexadecimal numerals are read back -/

/-- The digit that is written for a number below the base stands for it. -/
theorem digit?_digitChar {d : Nat} (h : d < 16) : digit? 16 (Nat.digitChar d) = some d := by
  have hall : ∀ d : Fin 16, digit? 16 (Nat.digitChar d) = some d.val := by decide
  exact hall ⟨d, h⟩

theorem digitsFrom?_toDigits (n : Nat) : digitsFrom? 16 0 (Nat.toDigits 16 n) = some n := by
  induction n using Nat.strongRecOn with
  | ind n ih =>
    by_cases h : n < 16
    · rw [Nat.toDigits_of_lt_base h, digitsFrom?, digit?_digitChar h]
      simp [digitsFrom?]
    · have hle : 16 ≤ n := Nat.le_of_not_lt h
      rw [Nat.toDigits_of_base_le (by decide) hle, digitsFrom?_append, ih (n / 16) (by omega),
        Option.bind_some, digitsFrom?, digit?_digitChar (Nat.mod_lt n (by decide)), Option.bind_some,
        digitsFrom?]
      exact congrArg some (Nat.div_add_mod' n 16)

/-- Zeros before digits add nothing to their value. -/
theorem digitsFrom?_zeros (count : Nat) (cs : List Char) :
    digitsFrom? 16 0 (List.replicate count '0' ++ cs) = digitsFrom? 16 0 cs := by
  induction count with
  | zero => rfl
  | succ count ih =>
    rw [List.replicate_succ, List.cons_append, digitsFrom?]
    exact ih

/-- A hexadecimal numeral has the value of the number that it was written for. -/
theorem digits?_hexDigits (width n : Nat) : digits? 16 (hexDigits width n) = some n := by
  have hvalue : digitsFrom? 16 0 (hexDigits width n) = some n :=
    (digitsFrom?_zeros _ _).trans (digitsFrom?_toDigits n)
  have hne : hexDigits width n ≠ [] := fun h =>
    Nat.toDigits_ne_nil (List.append_eq_nil_iff.1 h).2
  unfold digits?
  split
  · contradiction
  · exact hvalue

theorem toList_hexWord (word : UInt16) : (hexWord word).toList = hexDigits 4 word.toNat :=
  String.toList_ofList

theorem digits?_hexWord (word : UInt16) : digits? 16 (hexWord word).toList = some word.toNat := by
  rw [toList_hexWord, digits?_hexDigits]

theorem hexWord_inj {a b : UInt16} : hexWord a = hexWord b ↔ a = b := by
  refine ⟨fun h => ?_, congrArg hexWord⟩
  have hvalue := digits?_hexWord a
  rw [h, digits?_hexWord, Option.some.injEq] at hvalue
  exact UInt16.toNat_inj.1 hvalue.symm

/-- Characters that have a value together are digits. -/
theorem isSome_digit?_of_digitsFrom? {value n : Nat} (h : digitsFrom? base value cs = some n) (hc : c ∈ cs) :
    (digit? base c).isSome = true := by
  induction cs generalizing value with
  | nil => cases hc
  | cons first rest ih =>
    rw [digitsFrom?] at h
    obtain ⟨d, hd, hrest⟩ := Option.bind_eq_some_iff.1 h
    rcases List.mem_cons.1 hc with rfl | hc
    · rw [hd]
      rfl
    · exact ih hrest hc

/-- A character that is no digit does not stand in a numeral. -/
theorem notMem_hexWord {word : UInt16} (h : digit? 16 c = none) : c ∉ (hexWord word).toList := by
  intro hc
  have hvalue := digits?_hexWord word
  unfold digits? at hvalue
  split at hvalue
  · cases hvalue
  · have hdigit := isSome_digit?_of_digitsFrom? hvalue hc
    rw [h] at hdigit
    cases hdigit

/-- Every word takes four digits. -/
theorem length_hexWord (word : UInt16) : (hexWord word).toList.length = 4 := by
  have hle : (Nat.toDigits 16 word.toNat).length ≤ 4 :=
    (Nat.length_toDigits_le_iff (by decide) (by decide)).2 word.toNat_lt
  rw [toList_hexWord, hexDigits, List.length_append, List.length_replicate]
  omega

end Parley.Text

namespace Parley

/-- Different positions have different labels. -/
theorem labelName_inj {a b : UInt16} : labelName a = labelName b ↔ a = b := by
  rw [labelName, labelName, String.append_right_inj, Text.hexWord_inj]

/-- No label of a position is that of the start. -/
theorem labelName_ne_startFunction (pos : UInt16) : labelName pos ≠ startFunction := by
  intro h
  have hfirst := congrArg (fun name => name.toList.head?) h
  simp [labelName, startFunction] at hfirst

end Parley
