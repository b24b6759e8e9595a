import Dialogue.Bundle.Basic
import Dialogue.Script.Builder
import Dialogue.Script.File

/-!
Reading bundles: the nested statements of each node are walked and handed to a builder.
-/

set_option autoImplicit false
set_option relaxedAutoImplicit false

namespace Dialogue.Bundle

/-- Why a bundle cannot be read. -/
inductive ReadError
  /-- A statement where the builder does not take it. -/
  | misplaced (file : String) (error : Script.BuilderError)
  | hasChildren (file : String) (line : Nat) (kind : String)
  | noDestination (file : String) (line : Nat)
  | notAssignment (file : String) (line : Nat) (symbol : String)
deriving DecidableEq, Repr, Inhabited

def ReadError.message : ReadError → String
  | .misplaced file error => file ++ ": " ++ error.message
  | .hasChildren file line kind =>
    file ++ ":" ++ toString line ++ ": " ++ kind ++ " statement has children"
  | .noDestination file line => file ++ ":" ++ toString line ++ ": jump without a destination"
  | .notAssignment file line symbol =>
    file ++ ":" ++ toString line ++ ": '" ++ symbol ++ "' is not an assignment operator"

open Script (Kind Builder)

/-- The statement that a bundle's description stands for. -/
def readKind (file : String) (kind : Form) (line : Nat) (expression : Option Expression) :
    Except ReadError Kind :=
  match kind with
  | .node name headers => .ok (.block (.node name headers))
  | .line lineId hashtags => .ok (.basic (.line ⟨lineId, hashtags⟩))
  | .command name arguments text =>
    .ok (.basic (.command name arguments (if text = "" then name else text)))
  | .call name => .ok (.basic (.call name))
  | .jump (some node) => .ok (.basic (.jump (.node node)))
  | .jump none =>
    match expression.filter (!·.isEmpty) with
    | some tokens => .ok (.basic (.jump (.computed tokens)))
    | none => .error (.noDestination file line)
  | .set name symbol =>
    match Update.ofSymbol? symbol with
    | some op => .ok (.basic (.set name op))
    | none => .error (.notAssignment file line symbol)
  | .declare name => .ok (.basic (.declare name))
  | .ifBlock => .ok (.block .ifBlock)
  | .ifClause clause => .ok (.block (.ifClause clause))
  | .options => .ok (.block .options)
  | .option => .ok (.block .option)

/-- The builder with the guard and payload of a statement, where there are any. -/
def describe (b : Builder) (id : Nat) (conditions expression : Option Expression) : Builder :=
  let guarded := conditions.elim b (b.setConditions id)
  expression.elim guarded (guarded.setExpression id)

mutual

/-- Hand a statement and all it holds to the builder. -/
def buildNode (file : String) (b : Builder) : Node → Except ReadError Builder
  | .mk kind line conditions expression children => do
    let statement ← readKind file kind line expression
    if statement.isBlock then
      let opened ← (b.openBlock statement line).mapError (.misplaced file)
      let filled ← buildNodes file (describe opened b.nextId conditions expression) children
      let (closed, _) ← filled.closeBlock.mapError (.misplaced file)
      return closed
    else if !children.isEmpty then throw (.hasChildren file line statement.name)
    else
      let added ← (b.add statement line).mapError (.misplaced file)
      return describe added b.nextId conditions expression

/-- Hand a list of statements to the builder. -/
def buildNodes (file : String) (b : Builder) : List Node → Except ReadError Builder
  | [] => .ok b
  | node :: rest => do buildNodes file (← buildNode file b node) rest

end

def script (file : String) (root : Node) : Except ReadError Script := do
  let built ← buildNode file {} root
  built.finish.mapError (.misplaced file)

def File.lineIndex (f : File) : LineIndex :=
  let placed := f.lineIds.foldl (fun t l => t.insertId l.conversation l.line l.lineId) {}
  f.strings.entries.foldl (fun t entry => t.insertText entry.1 entry.2) placed

/-- The script file of a bundle's file. -/
def File.read (f : File) : Except ReadError ScriptFile := do
  let scripts ← f.conversations.mapM (script f.file)
  return ⟨f.file, scripts, f.lineIndex⟩

def read (b : Bundle) : Except ReadError (List ScriptFile) :=
  b.files.mapM File.read

end Dialogue.Bundle
