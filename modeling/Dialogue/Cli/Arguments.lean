/-!
The arguments of the command line. Options have a long name, some also a letter; letters may be
joined behind one dash, and the value of an option may follow its name directly. After two dashes
alone every argument is an input. Nothing may be given twice.
-/

set_option autoImplicit false
set_option relaxedAutoImplicit false

namespace Dialogue.Cli

structure Settings where
  input : String
  output : Option String := none
  check : Bool := false
  quiet : Bool := false
  emitDatabase : Bool := false
  emitTrees : Bool := false
  verbose : Bool := false
deriving DecidableEq, Repr, Inhabited

inductive Request
  | help
  | version
  | process (settings : Settings)
deriving DecidableEq, Repr, Inhabited

/-- An option without a value. -/
inductive Flag
  | check
  | quiet
  | emitDatabase
  | emitTrees
  | verbose
  | help
  | version
deriving DecidableEq, Repr, Inhabited

def Flag.ofName? : String → Option Flag
  | "check" => some .check
  | "quiet" => some .quiet
  | "emit-db" => some .emitDatabase
  | "emit-ast" => some .emitTrees
  | "verbose" => some .verbose
  | "help" => some .help
  | "version" => some .version
  | _ => none

def Flag.ofLetter? : Char → Option Flag
  | 'q' => some .quiet
  | 'v' => some .verbose
  | 'h' => some .help
  | 'V' => some .version
  | _ => none

/-- Why the reading of arguments ends early. -/
inductive Halt
  /-- The arguments make no request. -/
  | usage
  | help
  | version
deriving DecidableEq, Repr, Inhabited

/-- What the arguments so far have given. -/
structure Progress where
  input : Option String := none
  output : Option String := none
  flags : List Flag := []
  /-- Whether the next argument is the output. -/
  awaitsOutput : Bool := false
  /-- Whether every further argument is an input. -/
  inputsOnly : Bool := false
deriving DecidableEq, Repr, Inhabited

namespace Progress

def addFlag (p : Progress) (flag : Flag) : Except Halt Progress :=
  match flag with
  | .help => .error .help
  | .version => .error .version
  | _ => if p.flags.contains flag then .error .usage else .ok { p with flags := flag :: p.flags }

def addOutput (p : Progress) (path : String) : Except Halt Progress :=
  if p.output.isSome || path = "" then .error .usage
  else .ok { p with output := some path, awaitsOutput := false }

def addInput (p : Progress) (path : String) : Except Halt Progress :=
  if p.input.isSome || path = "" then .error .usage else .ok { p with input := some path }

def awaitOutput (p : Progress) : Except Halt Progress :=
  if p.output.isSome then .error .usage else .ok { p with awaitsOutput := true }

/-- Takes an option by its long name. -/
def addLong (p : Progress) (body : List Char) : Except Halt Progress :=
  let name := String.ofList (body.takeWhile (· ≠ '='))
  let value := (body.dropWhile (· ≠ '=')).tail?.map String.ofList
  match name, value with
  | "output", some path => p.addOutput path
  | "output", none => p.awaitOutput
  | _, some _ => .error .usage
  | _, none => match Flag.ofName? name with
    | some flag => p.addFlag flag
    | none => .error .usage

/-- Takes the options of joined letters. The letter of the output ends them. -/
def addLetters (p : Progress) : List Char → Except Halt Progress
  | [] => .ok p
  | 'o' :: [] => p.awaitOutput
  | 'o' :: '=' :: path => p.addOutput (String.ofList path)
  | 'o' :: path => p.addOutput (String.ofList path)
  | letter :: rest => match Flag.ofLetter? letter with
    | some flag => do (← p.addFlag flag).addLetters rest
    | none => .error .usage

def add (p : Progress) (argument : String) : Except Halt Progress :=
  if p.inputsOnly then p.addInput argument
  else match argument.toList with
    | '-' :: '-' :: body =>
      if p.awaitsOutput then .error .usage
      else if body.isEmpty then .ok { p with inputsOnly := true }
      else p.addLong body
    | '-' :: letter :: rest =>
      if p.awaitsOutput then .error .usage else p.addLetters (letter :: rest)
    | _ => if p.awaitsOutput then p.addOutput argument else p.addInput argument

/-- What all arguments together ask for. -/
def finish (p : Progress) : Except Halt Settings :=
  match p.input with
  | some input =>
    if p.awaitsOutput then .error .usage
    else .ok {
      input
      output := p.output
      check := p.flags.contains .check
      quiet := p.flags.contains .quiet
      emitDatabase := p.flags.contains .emitDatabase
      emitTrees := p.flags.contains .emitTrees
      verbose := p.flags.contains .verbose }
  | none => .error .usage

end Progress

/-- What a list of arguments asks for, if it asks for something. -/
def request? (arguments : List String) : Option Request :=
  match (do (← arguments.foldlM Progress.add {}).finish : Except Halt Settings) with
  | .ok settings => some (.process settings)
  | .error .help => some .help
  | .error .version => some .version
  | .error .usage => none

end Dialogue.Cli
