import Dialogue.Bundle.Codec
import Dialogue.Bundle.Read
import Dialogue.Cli.Arguments
import Dialogue.Compile
import Dialogue.Database.Codec
import Dialogue.Json.Printer
import Dialogue.Json.Reader
import Dialogue.Manifest.Search
import Dialogue.Script.Outline

/-!
What the program does with its arguments, on any file system: it reads a bundle and the manifest for
it, compiles, reports, and prints or writes the database.
-/

set_option autoImplicit false
set_option relaxedAutoImplicit false

namespace Dialogue.Cli

/-- The code with which the program ends, and what it prints. -/
structure Outcome where
  code : Nat := 0
  output : String := ""
  errors : String := ""
deriving DecidableEq, Repr, Inhabited

/-- The end of a run on an error. -/
def Outcome.failure (message : String) : Outcome :=
  { code := 1, errors := "error: " ++ message ++ "\n" }

/-- The version that the program prints. -/
def versionText : String := "spindlec 0.1.0\n"

def usageText : String := "Usage: spindlec [OPTIONS] <INPUT>\n"

/-- What the program prints when it is asked for help. -/
def helpText : String :=
  "Spindle dialogue compiler.\n\n" ++
  "Compiles a reader bundle (parsed narrative scripts as JSON) into a\n" ++
  ".dialogue.json database for the dialogue runtime.\n\n" ++ usageText ++ "\n" ++
  "Arguments:\n" ++
  "  <INPUT>  Input reader bundle\n\n" ++
  "Options:\n" ++
  "  -o, --output <OUTPUT>  Output file path (default: <input>.dialogue.json)\n" ++
  "      --check            Check for errors without writing the database\n" ++
  "  -q, --quiet            Suppress warning output\n" ++
  "      --emit-db          Emit database JSON to stdout instead of writing to file\n" ++
  "      --emit-ast         Emit statement trees to stdout (debug)\n" ++
  "  -v, --verbose          Log compiler progress\n" ++
  "  -h, --help             Print help\n" ++
  "  -V, --version          Print version\n"

/-- The script files of a bundle's text. -/
def scriptFiles (text : String) : Except String (List ScriptFile) :=
  match (Json.parse? text).bind Bundle.ofJson? with
  | none => .error "invalid bundle: not a reader bundle"
  | some bundle => bundle.read.mapError Bundle.ReadError.message

/-- The outlines of all scripts, under the names of their files. -/
def treeText (files : List ScriptFile) : String :=
  String.join (files.map fun file => "// " ++ file.file ++ "\n" ++
    String.join (file.scripts.map fun s => s.outline.text ++ "\n"))

/-- A report with the line that it is about, if that line is known. -/
def reportText (report : Diagnostic) (line : Option String) : String :=
  report.text ++ "\n" ++ (line.elim "" fun line => "   | " ++ line ++ "\n") ++
    (report.suggestion.elim "" fun help => "   = help: " ++ help ++ "\n") ++ "\n"

variable {m : Type → Type} [Monad m]

/-- The line that a report is about. Script files stand beside the bundle. -/
def sourceLine (fs : FileSystem m) (directory : String) (report : Diagnostic) :
    m (Option String) := do
  match report.place with
  | none => return none
  | some place => match ← fs.read (Path.join directory place.file) with
    | .ok source => return place.lineOf? source
    | .error _ => return none

def reportAll (fs : FileSystem m) (directory : String) : List Diagnostic → m String
  | [] => return ""
  | report :: rest => do
    let line ← sourceLine fs directory report
    let others ← reportAll fs directory rest
    return reportText report line ++ others

def deliver (fs : FileSystem m) (settings : Settings) (database : Database) (errors : String)
    (code : Nat) : m Outcome := do
  let json := database.toJson.pretty
  if settings.emitDatabase then return { code, output := json ++ "\n", errors }
  else
    let path := settings.output.getD (Path.withExtension settings.input "dialogue.json")
    match ← fs.write path json with
    | .ok () =>
      let summary := "Compiled " ++ settings.input ++ " -> " ++ path ++ " (" ++
        toString database.conversations.length ++ " conversations, " ++
        toString json.utf8ByteSize ++ " bytes)\n"
      return { code, output := summary, errors }
    | .error e =>
      let refusal := Outcome.failure ("could not write '" ++ path ++ "': " ++ e.message)
      return { refusal with errors := errors ++ refusal.errors }

/-- Compiles script files and reports. -/
def build (fs : FileSystem m) (settings : Settings) (directory : String) (manifest : Manifest)
    (files : List ScriptFile) : m Outcome := do
  let result := compile files manifest.options
  let shown := result.diagnostics.filter fun report => report.isError || !settings.quiet
  let errors ← reportAll fs directory shown
  let code := if Diagnostic.hasErrors result.diagnostics then 1 else 0
  if settings.check then
    return { code, output := if code = 0 then "No errors found.\n" else "", errors }
  else deliver fs settings result.database errors code

def process (fs : FileSystem m) (settings : Settings) : m Outcome := do
  match ← fs.read settings.input with
  | .error e => return .failure ("could not read '" ++ settings.input ++ "': " ++ e.message)
  | .ok text =>
    let path := match ← fs.resolve settings.input with
      | .ok path => path
      | .error _ => settings.input
    let manifest ← match ← Manifest.loadFor fs path with
      | .ok manifest => pure (Except.ok manifest)
      | .error (.notFound _) => pure (.ok {})
      | .error e => pure (.error e)
    match manifest, scriptFiles text with
    | .error e, _ => return .failure e.message
    | .ok _, .error message => return .failure (settings.input ++ ": " ++ message)
    | .ok manifest, .ok files =>
      if settings.emitTrees then return { output := treeText files }
      else build fs settings (Manifest.startFor path) manifest files

def run (fs : FileSystem m) (arguments : List String) : m Outcome :=
  match request? arguments with
  | none => return { code := 2, errors := "error: invalid arguments\n\n" ++ usageText }
  | some .help => return { output := helpText }
  | some .version => return { output := versionText }
  | some (.process settings) => process fs settings

end Dialogue.Cli
