/-!
The names that the dialogue runtime gives meaning to in Lua: the functions built into it, the table
of script variables, and the directives of its sequencer.
-/

set_option autoImplicit false
set_option relaxedAutoImplicit false

namespace Dialogue.Lua

/-- A script function that the runtime provides itself. -/
inductive Builtin
  | visited
  | visitedCount
  | random
  | randomRange
  | dice
  | round
  | roundPlaces
  | floor
  | ceil
  | inc
  | dec
  | decimal
  | int
deriving DecidableEq, Repr, Inhabited

namespace Builtin

def all : List Builtin :=
  [.visited, .visitedCount, .random, .randomRange, .dice, .round, .roundPlaces, .floor, .ceil, .inc,
    .dec, .decimal, .int]

/-- The name of a built-in function in the script. -/
def scriptName : Builtin → String
  | .visited => "visited"
  | .visitedCount => "visited_count"
  | .random => "random"
  | .randomRange => "random_range"
  | .dice => "dice"
  | .round => "round"
  | .roundPlaces => "round_places"
  | .floor => "floor"
  | .ceil => "ceil"
  | .inc => "inc"
  | .dec => "dec"
  | .decimal => "decimal"
  | .int => "int"

/-- The name of a built-in function in Lua. -/
def luaName (b : Builtin) : String :=
  "ds_" ++ b.scriptName

/-- The built-in function of a script name. -/
def ofScriptName? (name : String) : Option Builtin :=
  all.find? (·.scriptName = name)

end Builtin

def variableTable : String := "Variable"

/-- The function that calls a script function which is not built in. -/
def customCall : String := "ds_call"

/-- The function that drops the format arguments of an entry and adds the first new one. -/
def clearAndAddFormatArgument : String := "ds_clr_add_fmt_arg"

/-- The function that adds a further format argument to an entry. -/
def addFormatArgument : String := "ds_add_fmt_arg"

/-- The call that sets the format argument with an index, of an entry of a conversation. -/
def formatCall (conversation entry index : Nat) (fragment : String) : String :=
  (if index = 0 then clearAndAddFormatArgument else addFormatArgument) ++ "(" ++
    toString conversation ++ ", " ++ toString entry ++ ", tostring(" ++ fragment ++ "))"

/-- The calls that set the format arguments of an entry. -/
def formatCalls (conversation entry : Nat) (fragments : List String) : List String :=
  fragments.mapIdx (formatCall conversation entry)

/-- The function that ends the conversation. -/
def stopConversation : String := "ds_stop"

/-- The directive that goes on without waiting. -/
def continueSequence : String := "Continue()"

end Dialogue.Lua
