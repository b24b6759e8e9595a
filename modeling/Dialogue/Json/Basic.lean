import Dialogue.Dict

/-!
JSON values. An object keeps its members in the order they were written, repeated names included;
what a repeated name means is for the reader of the object to say.
-/

set_option autoImplicit false
set_option relaxedAutoImplicit false

namespace Dialogue

namespace Json

/-- A number: an integer of the 64-bit ranges, or a finite binary64 number. -/
inductive Number
  | int (n : Int)
  | real (x : Float) (finite : x.isFinite = true)
deriving DecidableEq, Inhabited

end Json

inductive Json
  | null
  | bool (b : Bool)
  | num (n : Json.Number)
  | str (s : String)
  | arr (items : List Json)
  | obj (members : List (String × Json))
  /-- Well-formed text that denotes no value: a number out of range, a string with half of a
  surrogate pair, or arrays and objects nested too deep. -/
  | unreadable
deriving Inhabited

namespace Json

def ofNat (n : Nat) : Json := .num (.int n)

/-- The number `x`, or `null` if it is not finite. -/
def ofFloat (x : Float) : Json :=
  if finite : x.isFinite then .num (.real x finite) else .null

/-- The object of a dictionary, its members in key order. -/
def ofDict {α : Type} (f : α → Json) (d : Dict α) : Json :=
  .obj (d.entries.map fun entry => (entry.1, f entry.2))

/-- The text, or `null` if there is none. -/
def ofText? : Option String → Json
  | some s => .str s
  | none => .null

mutual

/-- Whether a value denotes something in all its parts. -/
def readable : Json → Bool
  | .arr items => readableItems items
  | .obj members => readableMembers members
  | .unreadable => false
  | _ => true

def readableItems : List Json → Bool
  | [] => true
  | item :: rest => readable item && readableItems rest

def readableMembers : List (String × Json) → Bool
  | [] => true
  | (_, value) :: rest => readable value && readableMembers rest

end

mutual

/-- The value with the members of every object in increasing order of their names, the last of
several members with one name kept. -/
def sorted : Json → Json
  | .arr items => .arr (sortedItems items)
  | .obj members => .obj (Dict.ofList (sortedMembers members)).entries
  | value => value

def sortedItems : List Json → List Json
  | [] => []
  | item :: rest => sorted item :: sortedItems rest

def sortedMembers : List (String × Json) → List (String × Json)
  | [] => []
  | (name, value) :: rest => (name, sorted value) :: sortedMembers rest

end

end Json

end Dialogue
