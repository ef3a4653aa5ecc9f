import Parley.Decompile.Condition
set_option autoImplicit false

/-!
# Signatures

A function is written with its header, its declarations and the braces around its body.  Local variables
of unknown type are not declared; a local array is declared with the type of its first element.
-/

namespace Parley

namespace FunctionInfo

/-- The parameter list of a header. -/
def paramText (info : FunctionInfo) : String :=
  String.intercalate ", " <| info.vars.params.zipIdx.map fun (type, index) =>
    type.text ++ " param" ++ toString (index + 1)

/-- The header of a function that is referred to `count` times. -/
def header (info : FunctionInfo) (count : Nat) : String :=
  info.returnType.text ++ " " ++ info.name ++ "(" ++ info.paramText ++ ") // referenced " ++
    toString count ++ " times"

/-- The declaration of a local variable. -/
def localDeclaration? (entry : DataType × Nat) : Option String :=
  if entry.1 = .unknown then none
  else some (entry.1.text ++ " local_" ++ toString entry.2 ++ ";")

/-- The type of the elements of a local array. -/
def elementType (vars : Variables) (array : LocalArray) : DataType :=
  match vars.locals[array.start.toNat]? with
  | some .unknown | none => .int
  | some type => type

/-- The declaration of a local array. -/
def arrayDeclaration (vars : Variables) (array : LocalArray) : String :=
  (elementType vars array).text ++ " local_" ++ Text.decimal array.start ++ "[" ++
    Text.decimal array.size ++ "];"

/-- The declarations of a function, variables before arrays. -/
def declarations (info : FunctionInfo) : List String :=
  info.vars.locals.zipIdx.filterMap localDeclaration? ++
    info.vars.arrays.map (arrayDeclaration info.vars)

end FunctionInfo

namespace Graph

/-- Write an empty line behind an item. -/
def addBlankLine (g : Graph) (id : ItemId) : Graph :=
  match g.next? id with
  | some next => g.addStatement next (.plain "")
  | none => g.append (.ofKind (g.item id).pos (.statement (.plain "")))

/-- Write a function around its body. -/
def addSignature (g : Graph) (info : FunctionInfo) : Graph :=
  let header := info.header (g.item info.startItem).xrefCount
  let headed := g.replaceByStatement info.startItem (.plain header)
  let opened := headed.addStatement info.startItem ⟨openBrace, .opens .function⟩
  let declared := info.declarations.foldl
    (fun g line => g.addStatement info.startItem (.plain line)) opened
  let closed :=
    declared.replaceByStatement info.endItem ⟨closingLine "end-function", .closes .function⟩
  closed.addBlankLine info.endItem

end Graph

namespace Pass

/-- Write the function `func` around its body. -/
def addSignature (func : Nat) : Pass Unit := modify fun d =>
  match d.functions[func]? with
  | some info => d.onGraph (·.addSignature info)
  | none => d

end Pass

end Parley
