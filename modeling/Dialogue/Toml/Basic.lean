/-!
Documents of keys and values in tables. A table is opened by a header, named on the way to another
header, or opened by a dotted key; which of these it was decides what may still be added to it.
Adding fails where a key would be set twice, a table opened twice, or a value used as a table.
-/

set_option autoImplicit false
set_option relaxedAutoImplicit false

namespace Dialogue.Toml

inductive Origin
  /-- By a header of its own, as an element of a list of tables, or as the document itself. -/
  | header
  /-- Named only on the way to another header: a header of its own may still follow. -/
  | way
  /-- By a dotted key. -/
  | dotted
deriving DecidableEq, Repr, Inhabited

/-- A value. Dates and times are recognised and their value is not kept. -/
inductive Value
  | text (content : String)
  | integer (value : Int)
  | real (value : Float)
  | boolean (value : Bool)
  | moment
  | array (items : List Value)
  /-- A table written in braces, to which nothing can be added later. -/
  | record (members : List (String × Value))
  | table (origin : Origin) (members : List (String × Value))
  /-- The tables of one repeated header, of which the last is open. -/
  | tables (items : List (List (String × Value)))

/-- What a table holds, in the order of writing. -/
abbrev Members := List (String × Value)

namespace Members

def replace (members : Members) (key : String) (value : Value) : Members :=
  members.map fun member => if member.1 = key then (key, value) else member

def add? (members : Members) (key : String) (value : Value) : Option Members :=
  if (members.lookup key).isSome then none else some (members ++ [(key, value)])

/-- Changes the members of the table at the end of a path of keys, and opens the tables that the
path lacks. A dotted path may not enter a table that has a header of its own. -/
def changeAt (dotted : Bool) (change : Origin → Members → Option Members) :
    List String → Origin → Members → Option Members
  | [], origin, members => change origin members
  | key :: path, _, members =>
    match members.lookup key with
    | none =>
      let origin := if dotted then Origin.dotted else Origin.way
      (changeAt dotted change path origin []).map fun inner =>
        members ++ [(key, .table origin inner)]
    | some (.table origin inner) =>
      if dotted && origin = .header then none
      else (changeAt dotted change path origin inner).map fun inner =>
        replace members key (.table origin inner)
    | some (.tables items) =>
      match items.getLast? with
      | none => none
      | some inner => (changeAt dotted change path .header inner).map fun inner =>
        replace members key (.tables (items.dropLast ++ [inner]))
    | some _ => none

def openTable? (key : String) (members : Members) : Option Members :=
  match members.lookup key with
  | none => some (members ++ [(key, .table .header [])])
  | some (.table .way inner) => some (replace members key (.table .header inner))
  | some _ => none

/-- Opens one more table of a list of tables. -/
def openElement? (key : String) (members : Members) : Option Members :=
  match members.lookup key with
  | none => some (members ++ [(key, .tables [[]])])
  | some (.tables items) => some (replace members key (.tables (items ++ [[]])))
  | some _ => none

/-- Sets a key that is reached by a dotted path. A dotted path ends in a table that dotted keys
opened. -/
def set? (path : List String) (key : String) (value : Value) (origin : Origin)
    (members : Members) : Option Members :=
  changeAt true
    (fun origin members =>
      if (origin = .dotted) = (path = []) then none else members.add? key value)
    path origin members

end Members

end Dialogue.Toml
