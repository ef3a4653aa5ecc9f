import Parley.Decompile.Condition
import Parley.Proofs.Decompile.Phase
import Parley.Proofs.Source.ReadBack
set_option autoImplicit false

/-!
# Negated conditions

A condition is negated by its text: a sign in front is taken away, with the parentheses behind it, if the text looks as
if the sign governed the whole of it.  The looks are right wherever each name in a condition closes the parentheses that
it opens.  The literals of a call are part of a name here, and need not do so.
-/

namespace Parley.Source

open Fallible

/-! ## Parentheses -/

/-- A text that closes each parenthesis that it opens, and no other. -/
inductive IsClosed : List Char → Prop
  | nil : IsClosed []
  | char {c : Char} {rest : List Char} (hopening : c ≠ '(') (hclosing : c ≠ ')') (hrest : IsClosed rest) :
    IsClosed (c :: rest)
  | group {inner rest : List Char} (hinner : IsClosed inner) (hrest : IsClosed rest) :
    IsClosed ('(' :: (inner ++ ')' :: rest))

/-- No character of a text is a parenthesis. -/
def IsBare (text : List Char) : Prop := ∀ c ∈ text, c ≠ '(' ∧ c ≠ ')'

instance (text : List Char) : Decidable (IsBare text) := List.decidableBAll _ text

namespace IsClosed

variable {first second text : List Char}

theorem of_bare (h : IsBare text) : IsClosed text := by
  induction text with
  | nil => exact nil
  | cons c rest ih =>
    obtain ⟨hopening, hclosing⟩ := h c List.mem_cons_self
    exact char hopening hclosing (ih fun d hd => h d (List.mem_cons_of_mem _ hd))

theorem append (hfirst : IsClosed first) (hsecond : IsClosed second) : IsClosed (first ++ second) := by
  induction hfirst with
  | nil => exact hsecond
  | char hopening hclosing _ ih => exact char hopening hclosing ih
  | @group inner rest hinner _ _ ih =>
    have hsplit : '(' :: (inner ++ ')' :: rest) ++ second = '(' :: (inner ++ ')' :: (rest ++ second)) := by simp
    rw [hsplit]
    exact group hinner ih

/-- Behind a closed text as many parentheses are open as in front of it. -/
theorem closesAtEnd_append (h : IsClosed first) (depth : Nat) (behind : List Char) :
    closesAtEnd (depth + 1) (first ++ behind) = closesAtEnd (depth + 1) behind := by
  induction h generalizing depth behind with
  | nil => rfl
  | char hopening hclosing _ ih =>
    rw [List.cons_append, closesAtEnd]
    · exact ih depth behind
    · exact hopening
    · exact hclosing
  | @group inner rest _ _ ihInner ihRest =>
    have hsplit : '(' :: (inner ++ ')' :: rest) ++ behind = '(' :: (inner ++ ')' :: (rest ++ behind)) := by simp
    rw [hsplit, closesAtEnd, ihInner, closesAtEnd, if_neg (by omega), Nat.add_sub_cancel]
    exact ihRest depth behind

/-- A closed text in parentheses is one group if nothing stands behind it. -/
theorem isWrapped_group (h : IsClosed first) (behind : List Char) :
    isWrapped ('(' :: (first ++ ')' :: behind)) = behind.isEmpty := by
  have hclose : closesAtEnd 0 ('(' :: (first ++ ')' :: behind)) = behind.isEmpty := by
    rw [closesAtEnd, h.closesAtEnd_append, closesAtEnd, if_pos rfl]
  cases behind with
  | nil =>
    have hlast : ('(' :: (first ++ [')'])).getLast? = some ')' := List.getLast?_concat (l := '(' :: first)
    simp [isWrapped, hclose, hlast]
  | cons c rest => simp [isWrapped, hclose]

end IsClosed

/-! ## Expressions as they are written -/

namespace Written

/-- How decompilation writes an expression.  What is no operator has a source form of its own. -/
def ofExpr : Expr → Written
  | .const value => number value
  | .atom source _ => name source
  | .unary opcode operand =>
    if h : opcode.opcodeClass = .unary then
      unary ⟨opcode, h⟩ (grouped unaryPrecedence operand.precedence (ofExpr operand))
    else name (Expr.unary opcode operand).text
  | .binary opcode left right =>
    if h : opcode.opcodeClass = .binary then
      binary ⟨opcode, h⟩ (grouped opcode.precedence left.precedence (ofExpr left))
        (grouped opcode.precedence right.precedence (ofExpr right))
    else name (Expr.binary opcode left right).text

theorem text_ofExpr (e : Expr) : (ofExpr e).text = e.text := by
  induction e with
  | const value => rfl
  | atom source isAddress => rfl
  | unary opcode operand ih =>
    rw [ofExpr]
    split
    · rw [text, text_grouped, ih, Expr.text, Tree.wrapFor_eq_enclose]
    · rfl
  | binary opcode left right ihLeft ihRight =>
    rw [ofExpr]
    split
    · rw [text, text_grouped, text_grouped, ihLeft, ihRight, Expr.text, Tree.wrapFor_eq_enclose,
        Tree.wrapFor_eq_enclose]
    · rfl

/-- An expression binds no tighter than the outermost operator that it is written with. -/
theorem precedence_le_binds_ofExpr (e : Expr) : e.precedence ≤ (ofExpr e).binds := by
  have hatom (e : Expr) : e.precedence ≤ atomPrecedence := by
    induction e with
    | const value => exact Nat.le_refl _
    | atom source isAddress => exact Nat.le_refl _
    | unary opcode operand ih => exact Nat.le_trans (Nat.min_le_left _ _) ih
    | binary opcode left right ihLeft _ =>
      exact Nat.le_trans (Nat.min_le_left _ _) (Nat.le_trans (Nat.min_le_left _ _) ihLeft)
  cases e with
  | const value => exact Nat.le_refl _
  | atom source isAddress => exact Nat.le_refl _
  | unary opcode operand =>
    rw [ofExpr]
    split
    · exact Nat.min_le_right _ _
    · exact hatom _
  | binary opcode left right =>
    rw [ofExpr]
    split
    · exact Nat.min_le_right _ _
    · exact hatom _

/-- Operands of unary operators are no binary operations. -/
def Signed : Written → Prop
  | number _ | name _ => True
  | unary _ operand => unaryPrecedence ≤ operand.binds ∧ operand.Signed
  | binary _ left right => left.Signed ∧ right.Signed
  | group inner => inner.Signed

theorem signed_grouped {w : Written} (h : w.Signed) (outer own : Nat) : (grouped outer own w).Signed := by
  unfold grouped
  split <;> exact h

theorem signed_ofExpr (e : Expr) : (ofExpr e).Signed := by
  induction e with
  | const value => trivial
  | atom source isAddress => trivial
  | unary opcode operand ih =>
    rw [ofExpr]
    split
    · exact ⟨binds_grouped (by decide) (precedence_le_binds_ofExpr operand), signed_grouped ih _ _⟩
    · trivial
  | binary opcode left right ihLeft ihRight =>
    rw [ofExpr]
    split
    · exact ⟨signed_grouped ihLeft _ _, signed_grouped ihRight _ _⟩
    · trivial

/-! ## Closed names -/

/-- Each name closes the parentheses that it opens, and none begins with one or with a sign. -/
def Closed : Written → Prop
  | number _ => True
  | name text => IsClosed text.toList ∧ text.toList.head? ≠ some '!' ∧ text.toList.head? ≠ some '('
  | unary _ operand => operand.Closed
  | binary _ left right => left.Closed ∧ right.Closed
  | group inner => inner.Closed

theorem isBare_of_word {word : List Char} (h : ∀ c ∈ word, isWordChar c = true) : IsBare word := by
  intro c hc
  constructor
  · rintro rfl
    exact absurd (h _ hc) (by decide)
  · rintro rfl
    exact absurd (h _ hc) (by decide)

theorem isBare_binarySign (opcode : BinaryOpcode) : IsBare opcode.1.operatorText.toList := by
  have hsign := mem_binarySigns opcode
  have hbare : ∀ sign ∈ [['+'], ['*'], ['-'], ['/'], ['%'], ['>'], ['<'], ['|', '|'], ['&', '&'], ['>', '='],
      ['<', '='], ['=', '='], ['!', '=']], IsBare sign := by decide
  exact hbare _ hsign

theorem isBare_unarySign (opcode : UnaryOpcode) : IsBare opcode.1.operatorText.toList := by
  obtain ⟨sign, htext, hsign⟩ := operatorText_unary opcode
  rw [htext]
  rcases hsign with rfl | rfl <;> decide

/-- The text of an expression with closed names is closed. -/
theorem Closed.isClosed {w : Written} (h : w.Closed) : IsClosed w.text.toList := by
  induction w with
  | number value => exact .of_bare (isBare_of_word (isWordChar_decimal value))
  | name text => exact h.1
  | unary opcode operand ih =>
    rw [text, String.toList_append]
    exact (IsClosed.of_bare (isBare_unarySign opcode)).append (ih h)
  | binary opcode left right ihLeft ihRight =>
    have hblank : IsClosed " ".toList := .of_bare (by decide)
    simp only [text, String.toList_append]
    have hsign : IsClosed opcode.1.operatorText.toList := .of_bare (isBare_binarySign opcode)
    exact ((((ihLeft h.1).append hblank).append hsign).append hblank).append (ihRight h.2)
  | group inner ih =>
    have hsplit : (group inner).text.toList = '(' :: (inner.text.toList ++ ')' :: []) := by simp [text]
    rw [hsplit]
    exact .group (ih h) .nil

/-! ## What a sign governs -/

/-- The operator that negates a truth value. -/
def notSign : UnaryOpcode := ⟨.not, rfl⟩

theorem text_notSign (operand : Written) : (unary notSign operand).text.toList = '!' :: operand.text.toList := by
  rw [text, String.toList_append]
  rfl

theorem text_group (inner : Written) : (group inner).text.toList = '(' :: (inner.text.toList ++ [')']) := by
  simp [text]

theorem eq_notSign {opcode : UnaryOpcode} {rest inner : List Char}
    (h : opcode.1.operatorText.toList ++ rest = '!' :: inner) : opcode = notSign ∧ rest = inner := by
  obtain ⟨opcode, hclass⟩ := opcode
  cases opcode with
  | not =>
    rw [show Opcode.not.operatorText.toList = ['!'] by decide] at h
    exact ⟨rfl, (List.cons.inj h).2⟩
  | neg =>
    rw [show Opcode.neg.operatorText.toList = ['-'] by decide] at h
    exact absurd (List.cons.inj h).1 (by decide)
  | _ => cases hclass

/-- A number begins with a digit. -/
theorem head?_decimal (value : UInt16) {c : Char} (hc : isWordChar c = false) :
    (Text.decimal value).toList.head? ≠ some c := by
  intro h
  have hword := isWordChar_decimal value c (List.mem_of_mem_head? (Option.mem_def.2 h))
  rw [hc] at hword
  cases hword

/-- A tight expression with closed names that begins with a parenthesis is a group. -/
theorem eq_group {w : Written} (hclosed : w.Closed) (hbinds : unaryPrecedence ≤ w.binds)
    (h : w.text.toList.head? = some '(') : ∃ inner, w = group inner := by
  cases w with
  | number value => exact absurd h (head?_decimal value (by decide))
  | name text => exact absurd h hclosed.2.2
  | unary opcode operand =>
    obtain ⟨sign, htext, hsign⟩ := operatorText_unary opcode
    rw [text, String.toList_append, htext] at h
    rcases hsign with rfl | rfl <;> cases h
  | binary opcode left right => exact absurd (precedence_binary opcode) (Nat.not_lt_of_le hbinds)
  | group inner => exact ⟨inner, rfl⟩

/-- What a sign in front of the first operand governs is not all that follows it. -/
theorem isWrapped_behind_sign {w : Written} (hclosed : w.Closed) (hsigned : w.Signed) {inner : List Char}
    (h : w.text.toList = '!' :: inner) (behind : List Char) : isWrapped (inner ++ ' ' :: behind) = false := by
  induction w generalizing inner behind with
  | number value => exact absurd (congrArg List.head? h) (head?_decimal value (by decide))
  | name text => exact absurd (congrArg List.head? h) hclosed.2.1
  | unary opcode operand _ =>
    rw [text, String.toList_append] at h
    obtain ⟨rfl, rfl⟩ := eq_notSign h
    cases hhead : operand.text.toList.head? with
    | none =>
      rw [List.head?_eq_none_iff.1 hhead]
      rfl
    | some c =>
      by_cases hc : c = '('
      · subst hc
        have hoperand : operand.Closed := hclosed
        obtain ⟨inner, rfl⟩ := eq_group hoperand hsigned.1 hhead
        have hinner : inner.Closed := hoperand
        rw [text_group, List.cons_append, List.append_assoc]
        exact hinner.isClosed.isWrapped_group (' ' :: behind)
      · simp [isWrapped, List.head?_append, hhead, hc]
  | binary opcode left right ihLeft _ =>
    have htext : (binary opcode left right).text.toList =
        left.text.toList ++ ' ' :: (opcode.1.operatorText.toList ++ ' ' :: right.text.toList) := by
      simp [text]
    rw [htext] at h
    cases hleft : left.text.toList with
    | nil =>
      rw [hleft] at h
      exact absurd (List.cons.inj h).1 (by decide)
    | cons c rest =>
      rw [hleft, List.cons_append] at h
      obtain ⟨rfl, rfl⟩ := List.cons.inj h
      rw [List.append_assoc]
      exact ihLeft hclosed.1 hsigned.1 hleft _
  | group inner _ =>
    rw [text_group] at h
    exact absurd (List.cons.inj h).1 (by decide)

/-- A sign in front of an expression of some precedence is taken away only from a negation, and parentheses behind the
sign only where they are those of its operand. -/
def SignGoverns (w : Written) (precedence : Nat) : Prop :=
  ∀ inner, w.text.toList = '!' :: inner →
    (isWrapped inner = true → ∃ operand, w = unary notSign (group operand)) ∧
    (unaryPrecedence ≤ precedence → ∃ operand, w = unary notSign operand)

/-- Where the names are closed a sign is what it looks like. -/
theorem Closed.signGoverns {w : Written} (hclosed : w.Closed) (hsigned : w.Signed) {precedence : Nat}
    (hle : precedence ≤ w.binds) : w.SignGoverns precedence := by
  intro inner h
  cases w with
  | number value => exact absurd (congrArg List.head? h) (head?_decimal value (by decide))
  | name text => exact absurd (congrArg List.head? h) hclosed.2.1
  | unary opcode operand =>
    rw [text, String.toList_append] at h
    obtain ⟨rfl, rfl⟩ := eq_notSign h
    refine ⟨fun hwrapped => ?_, fun _ => ⟨operand, rfl⟩⟩
    have hhead : operand.text.toList.head? = some '(' := by
      simp only [isWrapped, Bool.and_eq_true, decide_eq_true_eq] at hwrapped
      exact hwrapped.1.1
    have hoperand : operand.Closed := hclosed
    obtain ⟨inner, rfl⟩ := eq_group hoperand hsigned.1 hhead
    exact ⟨inner, rfl⟩
  | binary opcode left right =>
    have htext : (binary opcode left right).text.toList =
        left.text.toList ++ ' ' :: (opcode.1.operatorText.toList ++ ' ' :: right.text.toList) := by
      simp [text]
    rw [htext] at h
    refine ⟨fun hwrapped => ?_, fun htight => ?_⟩
    · cases hleft : left.text.toList with
      | nil =>
        rw [hleft] at h
        exact absurd (List.cons.inj h).1 (by decide)
      | cons c rest =>
        rw [hleft, List.cons_append] at h
        obtain ⟨rfl, rfl⟩ := List.cons.inj h
        rw [isWrapped_behind_sign hclosed.1 hsigned.1 hleft] at hwrapped
        cases hwrapped
    · exact absurd (precedence_binary opcode) (Nat.not_lt_of_le (Nat.le_trans htight hle))
  | group inner =>
    rw [text_group] at h
    exact absurd (List.cons.inj h).1 (by decide)

/-! ## Negations -/

/-- The ways to negate an expression: its sign is taken away, with the parentheses that it does not need then, or it gets
a sign and parentheses. -/
inductive Negation : Written → Written → Prop
  | sign (w : Written) : Negation w (unary notSign (group w))
  | operand (w : Written) : Negation (unary notSign w) w
  | inner (w : Written) : Negation (unary notSign (group w)) w

/-- One expression is true where the other is false, whatever the names stand for, by its parentheses and as it is
read. -/
def Contradicts (n w : Written) : Prop :=
  ∀ words : String → UInt16,
    (n.plain.value? words).map (decide <| · ≠ 0) = (w.plain.value? words).map (decide <| · = 0) ∧
    ((n.readBehind none).value? words).map (decide <| · ≠ 0) = ((w.readBehind none).value? words).map (decide <| · = 0)

theorem value?_notSign (words : String → UInt16) (operand : Reading) :
    ((Reading.unary notSign operand).value? words).map (decide <| · ≠ 0) =
        (operand.value? words).map (decide <| · = 0) ∧
      (operand.value? words).map (decide <| · ≠ 0) =
        ((Reading.unary notSign operand).value? words).map (decide <| · = 0) := by
  rw [Reading.value?]
  cases operand.value? words with
  | none => exact ⟨rfl, rfl⟩
  | some value =>
    by_cases hvalue : value = 0 <;> simp [notSign, Machine.evalUnary, Machine.truth, hvalue]

/-- A negation is true where the expression is false. -/
theorem Negation.contradicts {w n : Written} (h : w.Negation n) : n.Contradicts w := by
  intro words
  cases h with
  | sign => exact ⟨(value?_notSign words w.plain).1, (value?_notSign words (w.readBehind none)).1⟩
  | operand => exact ⟨(value?_notSign words n.plain).2, (value?_notSign words (n.readBehind none)).2⟩
  | inner => exact ⟨(value?_notSign words n.plain).2, (value?_notSign words (n.readBehind none)).2⟩

end Written

theorem negateText_sign (inner : List Char) (precedence : Nat) :
    negateText ('!' :: inner) precedence =
      if isWrapped inner = true then inner.tail.dropLast
      else if unaryPrecedence ≤ precedence then inner
      else '!' :: '(' :: ('!' :: inner ++ [')']) := rfl

theorem negateText_other {text : List Char} (h : text.head? ≠ some '!') (precedence : Nat) :
    negateText text precedence = '!' :: '(' :: (text ++ [')']) := by
  rw [negateText.eq_def]
  split
  · rename_i inner
    exact absurd rfl h
  · rfl

theorem length_of_isWrapped {text : List Char} (h : isWrapped text = true) :
    text.tail.dropLast.length + 2 = text.length := by
  simp only [isWrapped, Bool.and_eq_true, decide_eq_true_eq] at h
  match text with
  | [] => cases h.1.1
  | [c] =>
    have hopening : c = '(' := Option.some.inj h.1.1
    have hclosing : c = ')' := Option.some.inj h.1.2
    exact absurd (hopening.symm.trans hclosing) (by decide)
  | c :: d :: rest => simp

namespace Written

/-- Where the text of a negation is written, the sign governs what is taken away with it. -/
theorem Negation.signGoverns {w n : Written} {precedence : Nat} (hnegation : w.Negation n)
    (htext : n.text.toList = negateText w.text.toList precedence) : w.SignGoverns precedence := by
  intro inner h
  rw [h, negateText_sign] at htext
  -- What is taken away makes the text too short for that of another negation.
  have hlength := congrArg List.length htext
  have hown := congrArg List.length h
  refine ⟨fun hwrapped => ?_, fun htight => ?_⟩
  · have hinner := length_of_isWrapped hwrapped
    rw [if_pos hwrapped] at hlength
    cases hnegation with
    | sign =>
      rw [text_notSign, text_group] at hlength
      simp only [List.length_cons, List.length_append] at hlength hown
      omega
    | operand =>
      rw [text_notSign] at hown
      simp only [List.length_cons] at hown
      omega
    | inner => exact ⟨n, rfl⟩
  · cases hnegation with
    | sign =>
      rw [text_notSign, text_group] at hlength
      simp only [List.length_cons, List.length_append] at hlength hown
      by_cases hwrapped : isWrapped inner = true
      · have hinner := length_of_isWrapped hwrapped
        rw [if_pos hwrapped] at hlength
        omega
      · rw [if_neg hwrapped, if_pos htight] at hlength
        omega
    | operand => exact ⟨n, rfl⟩
    | inner => exact ⟨group n, rfl⟩

/-- Where the sign governs what is taken away with it, the text of a negation is written. -/
theorem SignGoverns.exists_negation {w : Written} {precedence : Nat} (hgoverns : w.SignGoverns precedence) :
    ∃ n, w.Negation n ∧ n.text.toList = negateText w.text.toList precedence := by
  have hsign (h : negateText w.text.toList precedence = '!' :: '(' :: (w.text.toList ++ [')'])) :
      ∃ n, w.Negation n ∧ n.text.toList = negateText w.text.toList precedence :=
    ⟨_, .sign w, by rw [h, text_notSign, text_group]⟩
  by_cases hhead : w.text.toList.head? = some '!'
  · obtain ⟨inner, h⟩ := List.head?_eq_some_iff.1 hhead
    obtain ⟨hgroup, htight⟩ := hgoverns inner h
    by_cases hwrapped : isWrapped inner = true
    · obtain ⟨operand, rfl⟩ := hgroup hwrapped
      refine ⟨operand, .inner operand, ?_⟩
      rw [text_notSign, text_group] at h ⊢
      obtain ⟨-, rfl⟩ := List.cons.inj h
      rw [negateText_sign, if_pos hwrapped]
      simp
    · by_cases hprecedence : unaryPrecedence ≤ precedence
      · obtain ⟨operand, rfl⟩ := htight hprecedence
        refine ⟨operand, .operand operand, ?_⟩
        rw [text_notSign] at h ⊢
        obtain ⟨-, rfl⟩ := List.cons.inj h
        rw [negateText_sign, if_neg hwrapped, if_pos hprecedence]
      · refine hsign ?_
        rw [h, negateText_sign, if_neg hwrapped, if_neg hprecedence]
  · exact hsign (negateText_other hhead precedence)

/-- The text of a negation is written exactly where the sign governs what is taken away with it. -/
theorem exists_negation_iff (w : Written) (precedence : Nat) :
    (∃ n, w.Negation n ∧ n.text.toList = negateText w.text.toList precedence) ↔ w.SignGoverns precedence :=
  ⟨fun ⟨_, hnegation, htext⟩ => hnegation.signGoverns htext, SignGoverns.exists_negation⟩

/-! ## Names that matter -/

/-- Where names stand for the same words that the text of an expression goes through, the expression has the same
value. -/
theorem value?_plain_congr {w : Written} {words words' : String → UInt16}
    (h : ∀ name : String, name.toList <:+: w.text.toList → words name = words' name) :
    w.plain.value? words = w.plain.value? words' := by
  induction w with
  | number value => rfl
  | name text => exact congrArg some (h text (List.infix_refl _))
  | unary opcode operand ih =>
    have hoperand := ih fun name hname => h name (hname.trans
      ⟨opcode.1.operatorText.toList, [], by simp [text]⟩)
    rw [plain, Reading.value?, Reading.value?, hoperand]
  | binary opcode left right ihLeft ihRight =>
    have hleft := ihLeft fun name hname => h name (hname.trans
      ⟨[], ' ' :: (opcode.1.operatorText.toList ++ ' ' :: right.text.toList), by simp [text]⟩)
    have hright := ihRight fun name hname => h name (hname.trans
      ⟨left.text.toList ++ ' ' :: (opcode.1.operatorText.toList ++ [' ']), [], by simp [text]⟩)
    rw [plain, Reading.value?, Reading.value?, hleft, hright]
  | group inner ih =>
    exact ih fun name hname => h name (hname.trans ⟨['('], [')'], by simp [text]⟩)

end Written

/-! ## Negation by text -/

/-- What negation by text makes of a condition, and when it is right.  It writes a negation of the expression exactly if
the expression governs by its own sign what is taken away, and a negation is true where the expression is false.  So it is
in every expression whose names close the parentheses that they open. -/
theorem negate_negates (e : Expr) :
    (Written.ofExpr e).text = e.text ∧
    ((∃ n, (Written.ofExpr e).Negation n ∧ n.text = negate e.text e.precedence) ↔
      (Written.ofExpr e).SignGoverns e.precedence) ∧
    (∀ n, (Written.ofExpr e).Negation n → n.Contradicts (Written.ofExpr e)) ∧
    ((Written.ofExpr e).Closed → (Written.ofExpr e).SignGoverns e.precedence) := by
  refine ⟨Written.text_ofExpr e, ?_, fun n hnegation => hnegation.contradicts, fun hclosed =>
    hclosed.signGoverns (Written.signed_ofExpr e) (Written.precedence_le_binds_ofExpr e)⟩
  rw [← Written.exists_negation_iff, Written.text_ofExpr]
  have htext (n : Written) : n.text = negate e.text e.precedence ↔
      n.text.toList = negateText e.text.toList e.precedence := by
    rw [negate, String.ext_iff, String.toList_ofList]
  simp only [htext]

/-! ## Literals with parentheses -/

/-- The length of what a local variable is the id of is asked for. -/
def lengthCode (index : UInt16) : List Instruction :=
  [⟨.pushiEff, some index⟩, ⟨.pushi, some 1⟩, ⟨.calli, some 0⟩, ⟨.pop, none⟩, ⟨.pop, none⟩, ⟨.pushReg, none⟩]

/-- Two strings are stored, and something is said unless the first has another length than one and the second is not
empty. -/
def comparingLengths : Image :=
  { Image.ofCode (encode (prologueCode 2 ++
      ([⟨.pushiEff, some 1⟩, ⟨.pushi, some 1⟩, ⟨.sto, none⟩, ⟨.pushiEff, some 2⟩, ⟨.pushi, some 2⟩, ⟨.sto, none⟩] ++
        lengthCode 1 ++ [⟨.pushi, some 1⟩, ⟨.testEq, none⟩, ⟨.not, none⟩] ++ lengthCode 2 ++
        [⟨.and, none⟩, ⟨.beq, some 3⟩, ⟨.jmp, some 45⟩, ⟨.pushi, some 3⟩, ⟨.sayOp, none⟩]) ++
      epilogueCode)).toArray with
    functions := ⟨[(0, ⟨"length", .int⟩)], by simp⟩ }

/-- The length of a literal. -/
def lengthOf (literal : String) : Expr := .atom ("length(" ++ literal ++ ")") false

/-- The first literal has another length than one, and the second is not empty. -/
def lengthsCompared (first second : String) : Expr :=
  .binary .and (.unary .not (.binary .testEq (lengthOf first) (.const 1))) (lengthOf second)

/-- The condition of the image. -/
def literalsCompared : Expr := lengthsCompared "\"(\" /* 1 */" "\")\" /* 2 */"

theorem closed_lengthOf {literal : String} (h : IsClosed literal.toList) :
    (Written.ofExpr (lengthOf literal)).Closed := by
  have hname : ("length(" ++ literal ++ ")").toList = "length".toList ++ '(' :: (literal.toList ++ ')' :: []) := by
    simp
  have hword : IsClosed "length".toList := .of_bare (by decide)
  refine ⟨?_, ?_, ?_⟩
  · rw [hname]
    exact hword.append (.group h .nil)
  · simp
  · simp

/-- Literals without parentheses leave a condition its sign. -/
theorem negate_negates_lengthsCompared :
    ∃ n, (Written.ofExpr (lengthsCompared "\"a\"" "\"b\"")).Negation n ∧
      n.text = "!(!(length(\"a\") == 1) && length(\"b\"))" ∧
      n.Contradicts (Written.ofExpr (lengthsCompared "\"a\"" "\"b\"")) := by
  obtain ⟨-, hiff, hcontradicts, hgoverns⟩ := negate_negates (lengthsCompared "\"a\"" "\"b\"")
  have hclosed : (Written.ofExpr (lengthsCompared "\"a\"" "\"b\"")).Closed :=
    ⟨⟨closed_lengthOf (.of_bare (by decide)), trivial⟩, closed_lengthOf (.of_bare (by decide))⟩
  obtain ⟨n, hnegation, htext⟩ := hiff.2 (hgoverns hclosed)
  exact ⟨n, hnegation, htext.trans (by decide +kernel), hcontradicts n hnegation⟩

/-- Literals with parentheses make it look as if the sign of the first operand governed the whole condition.  What is
written then says nothing of the length of the second literal, so it is no negation. -/
theorem not_negated_literalsCompared :
    (∃ d, Pass.decompile (.ofImage comparingLengths ["zero", "(", ")", "three"] ⟨false, .empty⟩) = .ok () d ∧
      d.graph.liveStatements.map (·.text) = ["void start() // referenced 1 times", openBrace,
        "if (length(\"(\" /* 1 */) == 1) && length(\")\" /* 2 */) " ++ openBrace, "say(\"three\");",
        closeBrace ++ " // end-if", closeBrace ++ " // end-function", ""]) ∧
    (∃ d id, d = runPhases [.references, .discovery, .relabeling, .analysis 0, .combination 0, .switches 0, .whileLoops 0,
        .doWhileLoops 0] (.ofImage comparingLengths ["zero", "(", ")", "three"] ⟨false, .empty⟩) ∧
      (d.graph.item id).isOpenExpression = true ∧ (d.graph.item id).expression? = some literalsCompared) ∧
    ∀ n : Written, n.text = negate literalsCompared.text literalsCompared.precedence →
      ¬ n.Contradicts (Written.ofExpr literalsCompared) := by
  refine ⟨?_, ⟨_, 57, rfl, by decide +kernel⟩, fun n htext hcontradicts => ?_⟩
  · obtain ⟨_, d, hrun, hlines⟩ := succeedsWith_iff.1 (show succeedsWith (fun _ d =>
      d.graph.liveStatements.map (·.text) = ["void start() // referenced 1 times", openBrace,
        "if (length(\"(\" /* 1 */) == 1) && length(\")\" /* 2 */) " ++ openBrace, "say(\"three\");",
        closeBrace ++ " // end-if", closeBrace ++ " // end-function", ""])
      (Pass.decompile (.ofImage comparingLengths ["zero", "(", ")", "three"] ⟨false, .empty⟩)) = true by decide +kernel)
    exact ⟨d, hrun, of_decide_eq_true hlines⟩
  · let second := "length(\")\" /* 2 */)"
    have hstripped : negate literalsCompared.text literalsCompared.precedence =
        "length(\"(\" /* 1 */) == 1) && length(\")\" /* 2 */" := by decide +kernel
    -- The values of the text do not change with the length of the second literal, and those of the condition do.
    have hsame : n.plain.value? (fun name => if name = second then 1 else 0) = n.plain.value? fun _ => 0 := by
      refine Written.value?_plain_congr fun name hname => if_neg ?_
      rintro rfl
      rw [htext, hstripped] at hname
      exact absurd hname (by decide +kernel)
    have htrue := (hcontradicts fun name => if name = second then 1 else 0).1
    have hfalse := (hcontradicts fun _ => 0).1
    rw [hsame, hfalse] at htrue
    exact absurd htrue (by decide +kernel)

end Parley.Source
