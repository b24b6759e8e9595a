import Dialogue.Json.Basic

/-!
Decoding JSON values into the types of the library. A record is an object in which each known name
stands at most once, unknown names being ignored, or an array of the values of its known names in
order. A variant is a name alone, or an object whose only member has that name.
-/

set_option autoImplicit false
set_option relaxedAutoImplicit false

namespace Dialogue.Json

variable {α : Type}

def text? : Json → Option String
  | .str s => some s
  | _ => none

def bool? : Json → Option Bool
  | .bool b => some b
  | _ => none

def natBelow? (bound : Nat) : Json → Option Nat
  | .num (.int n) => if 0 ≤ n && n < bound then some n.toNat else none
  | _ => none

/-- A natural number of 32 bits. -/
def word32? : Json → Option Nat := natBelow? (Nat.pow 2 32)

/-- A natural number of 64 bits. -/
def word64? : Json → Option Nat := natBelow? (Nat.pow 2 64)

/-- A finite number, the nearest binary64 one in place of an integer. -/
def float? : Json → Option Float
  | .num (.int n) => if (Float.ofInt n).isFinite then some (Float.ofInt n) else none
  | .num (.real x _) => some x
  | _ => none

def list? (f : Json → Option α) : Json → Option (List α)
  | .arr items => items.mapM f
  | _ => none

/-- A value that may be `null`. -/
def nullable? (f : Json → Option α) : Json → Option (Option α)
  | .null => some none
  | value => (f value).map some

/-- A dictionary, the last of several members with one name kept. -/
def dict? (f : Json → Option α) : Json → Option (Dict α)
  | .obj members =>
    (members.mapM fun (member : String × Json) => (f member.2).map (Prod.mk member.1)).map
      Dict.ofList
  | _ => none

/-- Any value that is readable, its objects in name order. -/
def value? (value : Json) : Option Json :=
  if value.readable then some value.sorted else none

/-- The members of a record, each of the known names at most once among them. -/
structure Record where
  members : List (String × Json)

namespace Record

/-- The record of an object in which no known name is repeated, or of an array that lists the values
of the known names. Those of the last names may be missing. -/
def of? (known : List String) : Json → Option Record
  | .obj members =>
    if known.all fun name => (members.filter (·.1 = name)).length ≤ 1 then some ⟨members⟩ else none
  | .arr items => if items.length ≤ known.length then some ⟨known.zip items⟩ else none
  | _ => none

/-- The value of a member that must be present. -/
def required? (r : Record) (name : String) (f : Json → Option α) : Option α :=
  (r.members.lookup name).bind f

/-- The value of a member, or a default if it is absent. -/
def withDefault? (r : Record) (name : String) (default : α) (f : Json → Option α) : Option α :=
  match r.members.lookup name with
  | some value => f value
  | none => some default

/-- The value of a member that may be absent or `null`. -/
def optional? (r : Record) (name : String) (f : Json → Option α) : Option (Option α) :=
  r.withDefault? name none (nullable? f)

end Record

/-- How the payload of a name without content is written besides being left out: `null`, and inside
a tagged object also the empty object. -/
inductive Setting
  | plain
  | tagged
deriving DecidableEq

/-- Whether a value stands for no content. -/
def isUnit (setting : Setting) : Json → Bool
  | .null => true
  | .obj [] => setting = .tagged
  | _ => false

/-- The name of a variant, and its payload unless the name stands alone. -/
def variant? : Json → Option (String × Option Json)
  | .str name => some (name, none)
  | .obj [(name, payload)] => some (name, some payload)
  | _ => none

/-- A variant without content, found by its name. -/
def name? (setting : Setting) (f : String → Option α) (value : Json) : Option α := do
  let (name, payload) ← variant? value
  if payload.all (isUnit setting) then f name else none

end Dialogue.Json
