import Bringup.Text.Blank

/-!
# Arguments of the command line

The command line names what to do, `plan` or `up`, and before that, in options, the file with the
deployment and the name of the project. An option takes its value from behind an equals sign, from the
rest of its letters, or from the next argument; that one counts once the next option or the end is
reached, so of two errors the one that is seen first wins.
-/

namespace Bringup.CommandLine

/-- What the command line can do. -/
inductive Action where
  /-- Prints the order of starts and stops. -/
  | plan
  /-- Starts everything, and stops it when interrupted. -/
  | up
  deriving DecidableEq, Inhabited, Repr

/-- What is to be done, and with what. -/
structure Arguments where
  file : String := "stackup.toml"
  project : String := "stackup"
  action : Action
  deriving DecidableEq, Inhabited, Repr

/-- Why arguments ask for nothing that can be done. -/
inductive UsageError where
  /-- They ask for help. -/
  | help
  /-- There are none. -/
  | nothing
  | missingAction
  | unknownAction
  | unknownArgument
  /-- An option has no value, or one that it does not take. -/
  | invalidValue
  /-- An option has a value that takes none. -/
  | needlessValue
  /-- An option is given twice. -/
  | repeated
  deriving DecidableEq, Inhabited, Repr

/-- An option that takes a value. -/
inductive Setting where
  | file
  | project
  deriving DecidableEq, Inhabited, Repr

/-- The option with a name. -/
def Setting.ofName? : List Char → Option Setting
  | ['f', 'i', 'l', 'e'] => some .file
  | ['p', 'r', 'o', 'j', 'e', 'c', 't'] => some .project
  | _ => none

/-- The option with a letter. -/
def Setting.ofLetter? : Char → Option Setting
  | 'f' => some .file
  | 'p' => some .project
  | _ => none

/-- The options read so far. -/
structure Given where
  file : Option String := none
  project : Option String := none
  /-- The last option, if its value does not count yet, and that value, if it was there. -/
  pending : Option (Setting × Option String) := none
  deriving DecidableEq, Inhabited, Repr

namespace Given

/-- The value of an option. -/
def get? (given : Given) : Setting → Option String
  | .file => given.file
  | .project => given.project

/-- Gives an option its value. It must not have one, and a file needs a name. -/
def put (given : Given) (setting : Setting) (value : String) : Except UsageError Given :=
  if (given.get? setting).isSome then .error .repeated
  else
    match setting with
    | .file => if value = "" then .error .invalidValue else .ok { given with file := some value }
    | .project => .ok { given with project := some value }

/-- Lets the value of the last option count. -/
def settle (given : Given) : Except UsageError Given :=
  match given.pending with
  | none => .ok given
  | some (_, none) => .error .invalidValue
  | some (setting, some value) => { given with pending := none }.put setting value

/-- Reads an option, whose value may stand with it. -/
def setting (given : Given) (setting : Setting) (value : Option String) :
    Except UsageError Given := do
  let given ← given.settle
  match value with
  | some value => given.put setting value
  | none => return { given with pending := some (setting, none) }

/-- Reads an option with a name, and with a value where an equals sign follows. -/
def long (given : Given) (option : List Char) : Except UsageError Given :=
  let (name, value) :=
    match Text.splitAt? '=' option with
    | some (name, value) => (name, some (String.ofList value))
    | none => (option, none)
  match Setting.ofName? name with
  | some setting => given.setting setting value
  | none =>
    if name ≠ "help".toList then .error .unknownArgument
    else if value.isSome then .error .needlessValue
    else given.settle.bind fun _ => .error .help

/-- Reads an option with a letter, behind which its value may stand. -/
def short (given : Given) (letter : Char) (rest : List Char) : Except UsageError Given :=
  match Setting.ofLetter? letter with
  | some setting =>
    let value :=
      match rest with
      | [] => none
      | '=' :: rest => some (String.ofList rest)
      | rest => some (String.ofList rest)
    given.setting setting value
  | none =>
    if letter = 'h' then given.settle.bind fun _ => .error .help else .error .unknownArgument

/-- The end of arguments that name no action. -/
def withoutAction (given : Given) : Except UsageError Arguments := do
  let given ← given.settle
  if given.file.isNone ∧ given.project.isNone then throw .nothing else throw .missingAction

/-- The arguments, once the action is known. -/
def arguments (given : Given) (action : Action) : Except UsageError Arguments := do
  let given ← given.settle
  let defaults : Arguments := { action }
  return {
    file := given.file.getD defaults.file
    project := given.project.getD defaults.project
    action }

end Given

/-! ### Reading -/

/-- The actions, and the word that asks for help. -/
def Action.ofWord? : String → Option (Option Action)
  | "plan" => some (some .plan)
  | "up" => some (some .up)
  | "help" => some none
  | _ => none

/-- Reads what follows the word that asks for help: at most one word that can be helped with. -/
def readTopics : List String → UsageError
  | [] => .help
  | word :: rest => if (Action.ofWord? word).isSome ∧ rest = [] then .help else .unknownAction

/-- Reads what follows an action, which takes no arguments of its own. -/
def readRest : List String → Except UsageError Unit
  | [] => .ok ()
  | ["--"] => .ok ()
  | word :: _ =>
    match word.toList with
    | '-' :: 'h' :: _ => .error .help
    | '-' :: '-' :: 'h' :: 'e' :: 'l' :: 'p' :: rest =>
      match rest with
      | [] => .error .help
      | '=' :: _ => .error .needlessValue
      | _ => .error .unknownArgument
    | _ => .error .unknownArgument

/-- Reads what follows two dashes, behind which there are no options. -/
def readOperands (given : Given) : List String → Except UsageError Arguments
  | [] => given.withoutAction
  | word :: _ =>
    if (Action.ofWord? word).isSome then .error .unknownArgument else .error .unknownAction

/-- Reads arguments behind the options read so far. -/
def readFrom (given : Given) : List String → Except UsageError Arguments
  | [] => given.withoutAction
  | word :: rest => do
    let expected :=
      match given.pending with
      | some (setting, none) => some setting
      | _ => none
    match expected, Action.ofWord? word with
    | none, some none => throw (readTopics rest)
    | none, some (some action) =>
      readRest rest
      given.arguments action
    | _, _ =>
      match word.toList with
      | ['-', '-'] => readOperands given rest
      | '-' :: '-' :: option => readFrom (← given.long option) rest
      | '-' :: letter :: letters => readFrom (← given.short letter letters) rest
      | _ =>
        match expected with
        | some setting => readFrom { given with pending := some (setting, some word) } rest
        | none => throw .unknownAction

/-- Reads the arguments of the program. -/
def Arguments.read (words : List String) : Except UsageError Arguments := readFrom {} words

end Bringup.CommandLine
