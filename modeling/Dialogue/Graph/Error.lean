import Dialogue.Diagnostic
import Dialogue.Script.Grammar

/-!
Why a script has no conversation graph. A broken expression and a tree outside the grammar condemn
the whole file; a construct that graphs cannot express only the node it stands in.
-/

set_option autoImplicit false
set_option relaxedAutoImplicit false

namespace Dialogue

/-- What went wrong at a statement. -/
inductive Cause
  | expression (error : ExprError)
  | noFunction (name : String)
  | noValue (name : String)
  | grammar (flaw : Script.Flaw)
  | computedJump
  | unknownNode (name : String)
deriving DecidableEq, Repr, Inhabited

inductive ErrorKind
  | malformedExpression
  | invalidTree
  | unsupported
deriving DecidableEq, Repr, Inhabited

namespace Cause

def kind : Cause → ErrorKind
  | .expression error => if error.isMalformed then .malformedExpression else .unsupported
  | .noFunction _ | .noValue _ => .malformedExpression
  | .grammar _ => .invalidTree
  | .computedJump | .unknownNode _ => .unsupported

/-- The text of an error, without its place. -/
def message : Cause → String
  | .expression error => error.message
  | .noFunction name => "call of '" ++ name ++ "' without a function expression"
  | .noValue name => "assignment to '" ++ name ++ "' without a value"
  | .grammar flaw => flaw.message
  | .computedJump => "jump to a computed destination"
  | .unknownNode name => "jump to unknown node '" ++ name ++ "'"

end Cause

/-- An error with the node and source line it was found at. -/
structure CompileError where
  conversation : String
  line : Nat
  cause : Cause
deriving DecidableEq, Repr, Inhabited

namespace CompileError

def kind (e : CompileError) : ErrorKind :=
  e.cause.kind

/-- Whether an error condemns its whole file. -/
def isFatal (e : CompileError) : Bool :=
  e.kind ≠ .unsupported

def text (e : CompileError) : String :=
  let what := match e.kind with
    | .malformedExpression => "malformed expression"
    | .invalidTree => "invalid statement tree"
    | .unsupported => "unsupported construct"
  what ++ " in node '" ++ e.conversation ++ "' at line " ++ toString e.line ++
    ": " ++ e.cause.message

def diagnostic (e : CompileError) (file : String) : Diagnostic :=
  let message := match e.kind with
    | .malformedExpression => "malformed expression: " ++ e.cause.message
    | .invalidTree => "invalid statement tree: " ++ e.cause.message
    | .unsupported => e.cause.message
  { severity := .error
    message := message
    place := some ⟨file, e.line⟩
    conversation := some e.conversation }

end CompileError

end Dialogue
