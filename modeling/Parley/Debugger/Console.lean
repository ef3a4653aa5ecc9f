import Parley.Machine.Step
import Parley.Text.Lossy
set_option autoImplicit false

/-!
# The console

The user's end of a debugging session: lines that are still to be read, and text that was printed.  The
console is also the host of the debugged conversation, which prints what is spoken and called and takes
menu choices from the same lines as the commands.
-/

namespace Parley

/-- The input and output of a debugging session. -/
structure Console where
  /-- The lines still to be read, without blanks around them.  There is nothing for a line that is no
  well-formed UTF-8. -/
  input : List (Option String)
  /-- The pieces of text printed so far, the latest first. -/
  printed : List String
  /-- The number of pieces printed before the first line that was asked for behind the end of the
  input. -/
  starvedAt : Option Nat
  /-- Whether the instructions behind speech and calls are shown. -/
  verbose : Bool

namespace Console

/-- The line that bytes hold, without blanks around it. -/
def line? (bytes : List UInt8) : Option String :=
  (Text.decodeStrict? bytes).map fun text => String.ofList (Text.trim text.toList)

/-- The lines of the input; behind a last line feed there is none. -/
def linesOf (bytes : List UInt8) : List (Option String) :=
  let pieces := bytes.splitOn 10
  let lines := if pieces.getLast? = some [] then pieces.dropLast else pieces
  lines.map line?

/-- A console with some input and nothing printed. -/
def ofBytes (bytes : List UInt8) : Console := ⟨linesOf bytes, [], none, false⟩

/-- Everything printed so far. -/
def output (console : Console) : String := String.join console.printed.reverse

/-- Print a piece of text. -/
def print (console : Console) (text : String) : Console :=
  { console with printed := text :: console.printed }

/-- Take note that a line is asked for behind the end of the input. -/
def starve (console : Console) : Console :=
  { console with starvedAt := console.starvedAt.or (some console.printed.length) }

/-- Read a line; there is nothing at the end of the input and for a line that is no text. -/
def readLine (console : Console) : Option String × Console :=
  match console.input with
  | [] => (none, console.starve)
  | line? :: rest => (line?, { console with input := rest })

/-! ## Menus -/

/-- The number of an answer among `count`, as the user writes it. -/
def choice? (count : Nat) (line : String) : Option UInt16 :=
  (Text.word? 10 line.toList).filter fun answer => 1 ≤ answer.toNat ∧ answer.toNat ≤ count

/-- Ask for one of `count` answers until a line names one, where `input` are the lines of the console.  Where
no line can be read, the first answer is taken. -/
def askFrom (console : Console) (count : Nat) (input : List (Option String)) : UInt16 × Console :=
  let asked := console.print "what do you respond? "
  match input with
  | [] => (1, { asked with input := [] }.starve.print "\nno answer, choosing 1\n")
  | none :: rest => (1, { asked with input := rest }.print "\nno answer, choosing 1\n")
  | some line :: rest =>
    match choice? count line with
    | some answer =>
      let response := "response: " ++ Text.decimal answer ++ "\n\n"
      (answer, { asked with input := rest }.print response)
    | none => askFrom asked count rest

/-- Print the answers of a menu, each with its number. -/
def offer (console : Console) (answers : List String) : Console :=
  (answers.zipIdx 1).foldl (fun console (text, number) =>
    console.print (toString number ++ ". " ++ text ++ "\n")) console

/-- Let the user choose an answer of a menu. -/
def choose (console : Console) (answers : List String) : UInt16 × Console :=
  let console := console.offer answers
  console.askFrom answers.length console.input

/-! ## The host -/

/-- Print a piece of text when details are wanted. -/
def printDetail (console : Console) (text : String) : Console :=
  if console.verbose then console.print text else console

/-- Print a line that is spoken. -/
def say (id : UInt16) (text : String) (console : Console) : Console :=
  (console.printDetail ("SAY (" ++ Text.hexWord id ++ ")\n")).print (text ++ "\n\n")

/-- Offer the answers of a menu; without answers the result is zero. -/
def answerMenu (call : IntrinsicCall) (kind : MenuKind) (console : Console) : UInt16 × Console :=
  match call.offered kind with
  | [] => (0, console)
  | ids => console.choose (ids.map fun id => (call.strings.get? id).getD "")

/-- The line for the call of an imported function. -/
def callLine (call : IntrinsicCall) : String :=
  "calling intrinsic " ++ call.name ++ "(" ++
    String.intercalate ", " (call.argValues.map Text.hexWord) ++ ")\n"

/-- Carry out an imported function: menus by asking the user, all others by printing the call. -/
def invoke (call : IntrinsicCall) (console : Console) : IntrinsicReply Console :=
  let console := console.printDetail
    (Text.hexWord call.pos ++ ": CALLI " ++ Text.hexWord call.id ++ ": \"" ++ call.name ++ "\"\n")
  match MenuKind.ofName? call.name with
  | some kind =>
    let (chosen, console) := answerMenu call kind console
    ⟨chosen, [], console⟩
  | none => ⟨0, [], console.print (callLine call)⟩

/-- Print the read of an imported global. -/
def readGlobal (access : GlobalAccess) (console : Console) : UInt16 × Console :=
  match access.name with
  | some name => (access.value, console.print ("querying global value: " ++ name ++ "\n"))
  | none => (access.value, console)

/-- Print the write of an imported global. -/
def writeGlobal (access : GlobalAccess) (console : Console) : Console :=
  match access.name with
  | some name =>
    console.print
      ("setting global value: " ++ name ++ " to value " ++ Text.decimal access.value ++ "\n")
  | none => console

end Console

/-- The host that talks to the console. -/
def Host.console : Host Console where
  say := Console.say
  invoke := Console.invoke
  readGlobal := Console.readGlobal
  writeGlobal := Console.writeGlobal

end Parley
