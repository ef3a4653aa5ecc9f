import Parley.CommandLine.Option
import Parley.Decompile.Written
import Parley.Settings
set_option autoImplicit false

/-!
# Requests

What the user asks the tool for, and how its arguments say so: options of the tool, the name of a command,
and the options and operands of the command.  The options of the tool may stand behind the name of the
command too, where they come before those in front of it.
-/

namespace Parley.CommandLine

/-- The files of the conversation that a command works on. -/
structure ConversationFiles where
  image : String
  /-- The string block. -/
  strings : Option String
  slot : Option UInt16

/-- A command. -/
inductive Command where
  /-- Write a listing to a file, or print it. -/
  | list (kind : ListingKind) (files : ConversationFiles) (name : Option String)
      (showsInstructions : Bool) (output : Option String)
  /-- Run the conversation with prepared menu answers. -/
  | run (files : ConversationFiles) (globals : Option String) (answers : List UInt16)
      (maxSteps : Option Nat)
  /-- Debug the conversation. -/
  | debug (files : ConversationFiles) (globals : Option String)

/-- What the user asks for. -/
inductive Request where
  /-- An explanation of the arguments. -/
  | help
  /-- A command, under the settings in a file. -/
  | command (settings : Option String) (task : Command)

/-! ## Options -/

/-- An option with a value. -/
def valueOption (name : String) (letter : Option Char) : OptionSpec := ⟨name, letter, true, false⟩

/-- An option without a value. -/
def flagOption (name : String) (letter : Option Char) : OptionSpec := ⟨name, letter, false, false⟩

/-- The options of the tool.  How much is logged has no influence on what a command does. -/
def toolOptions : List OptionSpec := [
  valueOption "config" none,
  flagOption "verbose" (some 'v'),
  flagOption "quiet" (some 'q'),
  flagOption helpName (some 'h')]

/-- The options of all commands. -/
def fileOptions : List OptionSpec := [valueOption "strings" none, valueOption "slot" none]

/-- The options of a command by its name. -/
def commandOptions : List (String × List OptionSpec) := [
  ("decompile", fileOptions ++ [valueOption "name" none, flagOption "disassembly" none,
    valueOption "output" (some 'o')]),
  ("disassemble", fileOptions ++ [valueOption "name" none, valueOption "output" (some 'o')]),
  ("run", fileOptions ++ [valueOption "globals" none, ⟨"answers", none, true, true⟩,
    valueOption "max-steps" none]),
  ("debug", fileOptions ++ [valueOption "globals" none])]

/-! ## Values -/

/-- The path that is the value of an option; it must not be empty. -/
def path? (args : Arguments) (name : String) : Option (Option String) :=
  match args.value? name with
  | none => some none
  | some path => if path.isEmpty then none else some (some path)

/-- The value of an option, read by `read?`. -/
def read? {α : Type} (read : String → Option α) (args : Arguments) (name : String) :
    Option (Option α) :=
  match args.value? name with
  | none => some none
  | some text => (read text).map some

/-- A menu answer: a word in decimal digits, with an optional sign. -/
def answer? (cs : List Char) : Option UInt16 :=
  match cs with
  | '-' :: digits => ((Text.digits? 10 digits).filter (· = 0)).map fun _ => 0
  | _ => Text.word? 10 cs

/-- The menu answers in the values of an option, separated by commas. -/
def answers? (args : Arguments) : Option (List UInt16) :=
  ((args.values "answers").flatMap fun text => text.toList.splitOn ',').mapM answer?

/-- The largest limit of a run. -/
def stepLimit : Nat := UInt64.size - 1

/-- The limit of a run. -/
def maxSteps? (text : String) : Option Nat := Text.natural? 10 stepLimit text.toList

/-- The files of the conversation; the image is the only operand. -/
def conversationFiles? (args : Arguments) : Option ConversationFiles := do
  let strings ← path? args "strings"
  let slot ← read? parseNumber args "slot"
  match args.operands with
  | [image] => if image.isEmpty then none else some ⟨image, strings, slot⟩
  | _ => none

/-- The command with a name and arguments. -/
def command? (name : String) (args : Arguments) : Option Command := do
  let files ← conversationFiles? args
  let output ← path? args "output"
  let globals ← path? args "globals"
  match name with
  | "decompile" =>
    pure (.list .source files (args.value? "name") (args.has "disassembly") output)
  | "disassemble" => pure (.list .instructions files (args.value? "name") false output)
  | "run" => do
    let answers ← answers? args
    let maxSteps ← read? maxSteps? args "max-steps"
    pure (.run files globals answers maxSteps)
  | "debug" => pure (.debug files globals)
  | _ => none

/-! ## Requests -/

/-- Whether options stand together as they may: none too often, and not both more and less log. -/
def isConsistent (specs : List OptionSpec) (args : Arguments) : Bool :=
  args.countsAllowed specs && !(args.has "verbose" && args.has "quiet")

/-- The request for an explanation of the tool or of one command. -/
def helpRequest? : List String → Option Request
  | [] => some .help
  | [name] => (commandOptions.lookup name).map fun _ => .help
  | _ => none

/-- The request of a command, where `settings` was given in front of its name. -/
def commandRequest? (settings : Option String) (name : String) (rest : List String) :
    Option Request := do
  let specs := (← commandOptions.lookup name) ++ toolOptions
  let (args, _) ← scan specs .all .empty none rest
  if args.has helpName then pure .help
  else if isConsistent specs args then
    let own ← path? args "config"
    let command ← command? name args
    pure (.command (own.or settings) command)
  else none

/-- The request that arguments make, if they make one. -/
def request? (arguments : List String) : Option Request := do
  let (args, rest) ← scan toolOptions .options .empty none arguments
  if args.has helpName then pure .help
  else if isConsistent toolOptions args then
    let settings ← path? args "config"
    match rest with
    | [] => none
    | name :: rest => if name = helpName then helpRequest? rest else commandRequest? settings name rest
  else none

end Parley.CommandLine
