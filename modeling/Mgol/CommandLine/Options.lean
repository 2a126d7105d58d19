/-! # Command line options

* **`Options`, `Options.ofArguments`** — what the arguments of a run ask for.
* **`UsageError`** — what is wrong with the arguments. -/

namespace Mgol

/-- **What the arguments of a run ask for.** -/
structure Options where
  input : Option String := none
  output : Option String := none
  showTokens : Bool := false
  showRegistry : Bool := false
  tableDirectory : Option String := none
  exportDirectory : Option String := none
  settingsFile : Option String := none
  showStatus : Bool := false
  help : Bool := false
  deriving DecidableEq, Repr

/-- **What is wrong with the arguments.** -/
inductive UsageError where
  | unknownOption (argument : String)
  | unexpectedArgument (argument : String)
  | missingPath (option : String)
  deriving DecidableEq, Repr

/-- The text of the error. -/
def UsageError.message : UsageError → String
  | unknownOption argument => "unknown option '" ++ argument ++ "'"
  | unexpectedArgument argument => "unexpected argument '" ++ argument ++ "'"
  | missingPath option => option ++ " requires a path"

namespace Options

/-- The options that stand alone. -/
def switch? (o : Options) : String → Option Options
  | "--help" | "-h" => some { o with help := true }
  | "--tokens" => some { o with showTokens := true }
  | "--symbols" => some { o with showRegistry := true }
  | "--diagnostics" => some { o with showStatus := true }
  | _ => none

/-- The options that a path follows. The last path given counts. -/
def setting? (o : Options) : String → Option (String → Options)
  | "-o" | "--output" => some fun path => { o with output := some path }
  | "--tables" => some fun path => { o with tableDirectory := some path }
  | "--export-tables" => some fun path => { o with exportDirectory := some path }
  | "--config" => some fun path => { o with settingsFile := some path }
  | _ => none

/-- Takes an argument that is no option: the input, of which there is one. -/
def takeInput (o : Options) (argument : String) : Except UsageError Options :=
  if argument.startsWith "-" then .error (.unknownOption argument)
  else
    match o.input with
    | some _ => .error (.unexpectedArgument argument)
    | none => .ok { o with input := some argument }

/-- **Adds what some arguments ask for.** The first that is wrong decides the error. -/
def addArguments (o : Options) : List String → Except UsageError Options
  | [] => .ok o
  | argument :: rest =>
    match o.switch? argument, o.setting? argument with
    | some o, _ => addArguments o rest
    | none, some set =>
      match rest with
      | [] => .error (.missingPath argument)
      | path :: rest => addArguments (set path) rest
    | none, none =>
      match o.takeInput argument with
      | .ok o => addArguments o rest
      | .error e => .error e

/-- **What arguments ask for.** -/
def ofArguments (arguments : List String) : Except UsageError Options :=
  addArguments {} arguments

end Options

end Mgol
