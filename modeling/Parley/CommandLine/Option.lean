set_option autoImplicit false

/-!
# Options and operands

The arguments of a command are options, which begin with a dash, and operands.  An option has a long
name behind two dashes and may have a short one behind one dash; short options may stand together.  The
value of an option stands behind an equals sign, directly behind a short name, or in the next argument,
which then does not begin with a dash.  Behind two dashes alone there are operands only.
-/

namespace Parley.CommandLine

/-- An option that a command knows. -/
structure OptionSpec where
  /-- The long name, without dashes. -/
  name : String
  /-- The short name. -/
  letter : Option Char
  takesValue : Bool
  /-- Whether the option may be given more than once. -/
  repeats : Bool

/-- The arguments of a command, taken apart. -/
structure Arguments where
  /-- The options by long name, in order, with their values. -/
  options : List (String × Option String)
  operands : List String

namespace Arguments

/-- No arguments. -/
def empty : Arguments := ⟨[], []⟩

/-- The values of an option, in order. -/
def values (args : Arguments) (name : String) : List String :=
  args.options.filterMap fun (given, value?) => if given = name then value? else none

/-- The value of an option that is given once at most. -/
def value? (args : Arguments) (name : String) : Option String := (args.values name).head?

/-- Whether an option is given. -/
def has (args : Arguments) (name : String) : Bool := args.options.any fun given => given.1 = name

/-- The arguments with one more option. -/
def addOption (args : Arguments) (spec : OptionSpec) (value? : Option String) : Arguments :=
  { args with options := args.options ++ [(spec.name, value?)] }

/-- The arguments with one more operand. -/
def addOperand (args : Arguments) (operand : String) : Arguments :=
  { args with operands := args.operands ++ [operand] }

/-- Whether no option is given more often than it may be. -/
def countsAllowed (args : Arguments) (specs : List OptionSpec) : Bool :=
  specs.all fun spec =>
    spec.repeats || (args.options.filter fun given => given.1 = spec.name).length ≤ 1

end Arguments

/-! ## Single arguments -/

/-- What an argument is by its dashes. -/
inductive ArgumentForm where
  /-- Two dashes alone. -/
  | separator
  /-- A long name, with the value behind an equals sign. -/
  | long (name : String) (value? : Option String)
  /-- Short names. -/
  | short (letters : List Char)
  /-- Anything else, a dash alone included. -/
  | operand

/-- The form of an argument. -/
def ArgumentForm.of (arg : String) : ArgumentForm :=
  match arg.toList with
  | ['-', '-'] => separator
  | '-' :: '-' :: rest =>
    let name := rest.takeWhile (· ≠ '=')
    let value? := match rest.drop name.length with
      | [] => none
      | _ :: value => some (String.ofList value)
    long (String.ofList name) value?
  | ['-'] => operand
  | '-' :: letters => short letters
  | _ => operand

/-- An argument in which options were found, and the option whose value is the next argument. -/
structure Scanned where
  args : Arguments
  pending? : Option OptionSpec

/-- Take the options in a group of short names.  Behind an option with a value, the rest of the group is
the value; an equals sign in front of it does not belong to it. -/
def scanLetters (specs : List OptionSpec) (args : Arguments) : List Char → Option Scanned
  | [] => some ⟨args, none⟩
  | letter :: rest => do
    let spec ← specs.find? fun spec => spec.letter == some letter
    if spec.takesValue then
      match rest with
      | [] => some ⟨args, some spec⟩
      | '=' :: value => some ⟨args.addOption spec (some (String.ofList value)), none⟩
      | value => some ⟨args.addOption spec (some (String.ofList value)), none⟩
    else scanLetters specs (args.addOption spec none) rest

/-- Take the option with a long name. -/
def scanLong (specs : List OptionSpec) (args : Arguments) (name : String) (value? : Option String) :
    Option Scanned := do
  let spec ← specs.find? fun spec => spec.name = name
  match spec.takesValue, value? with
  | true, some value => some ⟨args.addOption spec (some value), none⟩
  | true, none => some ⟨args, some spec⟩
  | false, none => some ⟨args.addOption spec none, none⟩
  | false, some _ => none

/-! ## All arguments -/

/-- How far arguments are taken apart. -/
inductive ScanMode where
  /-- Up to the first operand. -/
  | options
  /-- To the end, or up to the option `help`. -/
  | all
  deriving DecidableEq

/-- The name of the option that asks for an explanation, behind which nothing is looked at. -/
def helpName : String := "help"

/-- Take arguments apart, behind those in `args`, where `pending?` is the option whose value comes next.
The result comes with the arguments that are left. -/
def scan (specs : List OptionSpec) (mode : ScanMode) (args : Arguments)
    (pending? : Option OptionSpec) : List String → Option (Arguments × List String)
  | [] => if pending?.isSome then none else some (args, [])
  | arg :: rest =>
    match pending?, ArgumentForm.of arg with
    | some spec, .operand => scan specs mode (args.addOption spec (some arg)) none rest
    | some _, _ => none
    | none, .operand =>
      match mode with
      | .options => some (args, arg :: rest)
      | .all => scan specs mode (args.addOperand arg) none rest
    | none, .separator =>
      match mode with
      | .options => none
      | .all => some (rest.foldl Arguments.addOperand args, [])
    | none, .long name value? =>
      match scanLong specs args name value? with
      | none => none
      | some found =>
        if found.args.has helpName then some (found.args, [])
        else scan specs mode found.args found.pending? rest
    | none, .short letters =>
      match scanLetters specs args letters with
      | none => none
      | some found =>
        if found.args.has helpName then some (found.args, [])
        else scan specs mode found.args found.pending? rest

end Parley.CommandLine
