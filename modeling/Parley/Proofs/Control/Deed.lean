import Parley.Decompile.Loop
import Parley.Decompile.Switch
import Parley.Decompile.Conditional
import Parley.Proofs.Control.Overlay
import Parley.Proofs.Decompile.Census
import Mathlib.Logic.Relation
set_option autoImplicit false

/-!
# What the recovery of control structures does

The recovery of the control structures of a function is a sequence of deeds.  Each writes a loop, a conditional, a
case or another line, or replaces a jump that is left, and it says which condition its line shows a test of.  What is
to be known about a recovery can be proved deed by deed.
-/

namespace Parley

/-- A condition with the branch that tests it. -/
structure Condition where
  item : ItemId
  expression : Expr
  branch : ItemId

/-- What the recovery of the control structures of a function works on. -/
structure Recovery extends LoopWork where
  /-- The positions that lines go to by labels. -/
  needed : List UInt16
  /-- Those whose labels are written. -/
  written : List UInt16

/-- What is done at once. -/
inductive Deed where
  | whileLoop (condition : Condition) (back : ItemId)
  | doWhile (condition : Condition) (loop : LoopWork.DoWhile) (extra : Option ItemId)
  | conditional (condition : Condition) (text : String) (jumps : List ItemId) (alternative : Option ItemId)
      (endAt : ItemId)
  | switch (subject value : String) (condition : Condition) (exits : List ItemId) (last : ItemId)
  | case (value : String) (condition : Condition) (exits : List ItemId) (last : ItemId)
  | endSwitch (site : ItemId)
  | returns (jump : ItemId)
  | continues (jump : ItemId)
  | goto (jump : ItemId) (target : UInt16) (label : String)
  | gotoIf (condition : Condition) (opcode : Opcode) (target : UInt16) (label : String)
  | label (site : ItemId) (target : UInt16) (label : String)

namespace Deed

/-- The items that are marked. -/
def marks : Deed → List ItemId
  | whileLoop c back => [c.item, c.branch, back]
  | doWhile c loop extra => [c.item, c.branch, loop.jump] ++ extra.toList
  | conditional c _ jumps _ _ => jumps ++ [c.branch, c.item]
  | switch _ _ c exits last => [c.item, c.item, c.branch] ++ exits ++ [last]
  | case _ c exits last => [c.item, c.branch] ++ exits ++ [last]
  | endSwitch _ | label _ _ _ => []
  | returns jump | continues jump | goto jump _ _ => [jump]
  | gotoIf c _ _ _ => [c.branch, c.item]

/-- The lines of a case. -/
def caseLines (value : String) (condition last : ItemId) : List Put :=
  [⟨condition, ⟨"case " ++ value ++ ":", .opens .case⟩⟩, ⟨last, ⟨"break;", .closes .case⟩⟩]

/-- The lines that are put. -/
def puts : Deed → List Put
  | whileLoop c back => [⟨c.item, ⟨openingLine "while" c.expression.text, .opens .whileLoop⟩⟩,
      ⟨back, ⟨closingLine "end-while", .closes .whileLoop⟩⟩]
  | doWhile c loop _ => [⟨loop.bodyItem, ⟨"do " ++ openBrace, .opens .doWhile⟩⟩,
      ⟨c.item, ⟨closeBrace ++ " while (" ++ c.expression.text ++ ");", .closes .doWhile⟩⟩]
  | conditional c text _ alternative endAt => [⟨c.item, ⟨openingLine "if" text, .opens .ifThen⟩⟩] ++
      alternative.toList.map (fun site => ⟨site, ⟨closeBrace ++ " else " ++ openBrace, .alternative⟩⟩) ++
      [⟨endAt, ⟨closingLine "end-if", .closes .ifThen⟩⟩]
  | switch subject value c _ last =>
      ⟨c.item, ⟨openingLine "switch" subject, .opens .switch⟩⟩ :: caseLines value c.item last
  | case value c _ last => caseLines value c.item last
  | endSwitch site => [⟨site, ⟨closingLine "end-switch", .closes .switch⟩⟩]
  | returns jump => [⟨jump, .plain "return;"⟩]
  | continues jump => [⟨jump, ⟨"continue;", .continues⟩⟩]
  | goto jump _ name => [⟨jump, ⟨"goto " ++ name ++ ";", .goto name⟩⟩]
  | gotoIf c opcode _ name => [⟨c.item, ⟨Pass.gotoIfText opcode c.expression.text name, .gotoIf name⟩⟩]
  | label site _ name => [⟨site, ⟨name ++ ":;", .label name⟩⟩]

/-- The condition that a line shows a test of, and which of the lines does. -/
def test? : Deed → Option (Condition × Nat)
  | whileLoop c _ | conditional c _ _ _ _ | case _ c _ _ | gotoIf c _ _ _ => some (c, 0)
  | doWhile c _ _ | switch _ _ c _ _ => some (c, 1)
  | _ => none

/-- The code range of the loop that is written. -/
def range? (g : Graph) : Deed → Option (UInt16 × UInt16)
  | whileLoop c back => some ((g.item c.item).pos, (g.item back).pos)
  | doWhile _ loop _ => some (loop.body, (g.item loop.jump).pos)
  | _ => none

/-- The position that a line goes to by its label. -/
def needs? : Deed → Option UInt16
  | goto _ target _ | gotoIf _ _ target _ => some target
  | _ => none

/-- The position whose label is written. -/
def writes? : Deed → Option UInt16
  | label _ target _ => some target
  | _ => none

end Deed

/-! ## Fitting deeds -/

/-- The condition is one in a function between two boundaries, and neither it nor its branch has been consumed. -/
structure Condition.Fits (start stop : ItemId) (g : Graph) (c : Condition) : Prop where
  opened : (g.item c.item).processed = false
  expression : (g.item c.item).expression? = some c.expression
  within : g.Within start stop c.item
  openedBranch : (g.item c.branch).processed = false
  conditional : (g.item c.branch).isConditional = true
  withinBranch : g.Within start stop c.branch

/-- A jump or branch in a function leads to a position by a label. -/
structure Graph.Aims (start stop : ItemId) (g : Graph) (jump : ItemId) (target : UInt16) (label : String) : Prop where
  within : g.Within start stop jump
  isJump : (g.item jump).isJump = true
  leads : (g.item jump).targetPos? = some target
  named : label = (g.item jump).targetLabel?.getD (labelName target)

/-- An unconditional jump that nothing has replaced. -/
def Item.isOpenJump (item : Item) : Bool := item.isOpenOpcode .jmp || item.isOpenOpcode .bra

theorem Item.isConditional_of_isOpenJump {item : Item} (h : item.isOpenJump = true) : item.isConditional = false := by
  rw [isOpenJump, Bool.or_eq_true] at h
  rcases h with h | h <;> rw [isConditional, opcode?_of_isOpenOpcode h] <;> rfl

theorem Item.isJump_of_isOpenJump {item : Item} (h : item.isOpenJump = true) :
    item.isJump = true ∧ item.processed = false := by
  rw [isOpenJump, Bool.or_eq_true] at h
  rcases h with h | h <;> have hopcode := opcode?_of_isOpenOpcode h <;>
    rw [isOpenOpcode, Bool.and_eq_true, Bool.not_eq_true'] at h <;>
    exact ⟨by rw [isJump, hopcode]; rfl, h.1⟩

/-- What a deed presupposes. -/
inductive Deed.Fits (start stop : ItemId) (w : Recovery) : Deed → Prop where
  | whileLoop {c : Condition} {branch : Branch} {back : ItemId} (condition : c.Fits start stop w.graph)
      (hbranch : c.branch = branch.item)
      (hloop : LoopWork.whileLoop? w.graph c.item stop = some (branch, back)) : Fits start stop w (.whileLoop c back)
  | doWhile {c : Condition} {loop : LoopWork.DoWhile} {extra : Option ItemId}
      (condition : c.Fits start stop w.graph) (hbranch : c.branch = loop.branch.item)
      (hloop : LoopWork.doWhile? w.graph c.item stop = some loop)
      (hextra : ∀ id, extra = some id →
        (w.graph.item id).isOpenJump = true ∧ Adjoins w.graph.order loop.jump id) :
      Fits start stop w (.doWhile c loop extra)
  | conditional {c : Condition} {text : String} {jumps : List ItemId} {alternative : Option ItemId}
      {endAt : ItemId} (condition : c.Fits start stop w.graph)
      (htext : text = c.expression.text ∨ text = negate c.expression.text c.expression.precedence)
      (hjumps : ∀ id ∈ jumps, (w.graph.item id).isOpenJump = true) :
      Fits start stop w (.conditional c text jumps alternative endAt)
  | switch {subject value : String} {c : Condition} {exits : List ItemId} {last : ItemId}
      (condition : c.Fits start stop w.graph)
      (hvalue : splitComparison? c.expression.text = some (subject, value))
      (hexits : ∀ id ∈ exits, (w.graph.item id).isOpenJump = true) (hlast : last ∈ exits) :
      Fits start stop w (.switch subject value c exits last)
  | case {subject value : String} {c : Condition} {exits : List ItemId} {last : ItemId}
      (condition : c.Fits start stop w.graph)
      (hvalue : splitComparison? c.expression.text = some (subject, value))
      (hexits : ∀ id ∈ exits, (w.graph.item id).isOpenJump = true) (hlast : last ∈ exits) :
      Fits start stop w (.case value c exits last)
  | endSwitch (site : ItemId) : Fits start stop w (.endSwitch site)
  | returns {jump : ItemId} (hjump : (w.graph.item jump).isOpenJump = true) : Fits start stop w (.returns jump)
  | continues {jump : ItemId} {target : UInt16} (hjump : (w.graph.item jump).isOpenJump = true)
      (htarget : (w.graph.item jump).targetPos? = some target)
      (hrange : Pass.isContinue w.ranges (w.graph.item jump).pos target = true) :
      Fits start stop w (.continues jump)
  | goto {jump : ItemId} {target : UInt16} {label : String} (hjump : (w.graph.item jump).isOpenJump = true)
      (haims : w.graph.Aims start stop jump target label) : Fits start stop w (.goto jump target label)
  | gotoIf {c : Condition} {opcode : Opcode} {target : UInt16} {label : String}
      (condition : c.Fits start stop w.graph) (haims : w.graph.Aims start stop c.branch target label) :
      Fits start stop w (.gotoIf c opcode target label)
  | label {jump site : ItemId} {target : UInt16} {label : String} (haims : w.graph.Aims start stop jump target label)
      (hsite : w.graph.findPos? target = some site) (hneeded : target ∈ w.needed) (hnew : target ∉ w.written) :
      Fits start stop w (.label site target label)

/-- A deed leads from one stage of the recovery to the next. -/
structure Recovery.Does (start stop : ItemId) (w : Recovery) (deed : Deed) (w' : Recovery) : Prop where
  fits : deed.Fits start stop w
  overlays : w.graph.Overlays deed.marks deed.puts w'.graph
  ranges : w'.ranges = (deed.range? w.graph).toList ++ w.ranges
  needed : w'.needed = deed.needs?.toList ++ w.needed
  written : w'.written = deed.writes?.toList ++ w.written

/-- Deeds lead from one stage of the recovery to another. -/
def Recovery.Leads (start stop : ItemId) : Recovery → Recovery → Prop :=
  Relation.ReflTransGen fun w w' => ∃ deed, w.Does start stop deed w'

end Parley
