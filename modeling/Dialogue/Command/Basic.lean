import Dialogue.Command.Words
import Dialogue.Decimal.Reader
import Dialogue.Lua.Fragment

/-!
Commands: their arguments, the kinds that the compiler treats apart, and the Lua call of any other.
-/

set_option autoImplicit false
set_option relaxedAutoImplicit false

namespace Dialogue

namespace Command

/-- A piece of a command: plain text, or an expression between braces. -/
inductive Argument
  | text (s : String)
  | expression (tokens : Expression)
deriving DecidableEq, Inhabited

inductive Kind
  /-- Ends the conversation. -/
  | stop
  /-- Delays the transition from the entry before it. -/
  | wait
  /-- Gives the transition from the entry before it. -/
  | playSequence
  /-- Calls a Lua function of the command's name. -/
  | custom
deriving DecidableEq, Repr, Inhabited

def Kind.ofName : String → Kind
  | "stop" => .stop
  | "wait" => .wait
  | "seq" | "sequence" => .playSequence
  | _ => .custom

def Kind.name : Kind → String
  | .stop => "Stop"
  | .wait => "Wait"
  | .playSequence => "PlaySequence"
  | .custom => "Custom"

/-- The Lua numeral of a word that is a finite decimal. -/
def numeral? (word : String) : Option String :=
  (Decimal.readFinite? word.toList).map Lua.number

/-- The Lua spelling of a word: numbers and truth values as such, anything else as a string. -/
def wordFragment (word : String) : String :=
  if word = "true" || word = "false" then word else (numeral? word).getD (Lua.text word)

def Argument.fragments : Argument → Except ExprError (List String)
  | .text s => .ok ((words s).map wordFragment)
  | .expression tokens => do return [← tokens.fragment]

def call (name : String) (arguments : List Argument) : Except ExprError String := do
  let spelled ← arguments.mapM Argument.fragments
  return name ++ "(" ++ String.intercalate ", " spelled.flatten ++ ")"

end Command

end Dialogue
