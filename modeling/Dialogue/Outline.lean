import Dialogue.Decimal.Layout
import Dialogue.Text.Quoted

/-!
Outlines of nested data, one item on a line. A group opens on one line, has its items on lines of
their own, four blanks further in and each with a comma at its end, and closes on another line; a
group without items stands on one line.
-/

set_option autoImplicit false
set_option relaxedAutoImplicit false

namespace Dialogue

/-- Nested data, ready to be written. -/
inductive Outline
  | leaf (text : String)
  /-- Items between an opening and a closing; each item has a label, which may be empty. -/
  | group (opening closing : String) (items : List (String × Outline))
deriving Inhabited

namespace Outline

def margin (level : Nat) : String :=
  String.ofList (List.replicate (4 * level) ' ')

mutual

/-- The lines of an outline, with a label before the first and an ending after the last. -/
def lines (level : Nat) (label ending : String) : Outline → List String
  | .leaf text => [margin level ++ label ++ text ++ ending]
  | .group opening closing [] => [margin level ++ label ++ opening ++ closing ++ ending]
  | .group opening closing (item :: items) =>
    (margin level ++ label ++ opening) :: (itemLines (level + 1) (item :: items) ++
      [margin level ++ closing ++ ending])

def itemLines (level : Nat) : List (String × Outline) → List String
  | [] => []
  | (label, item) :: items => lines level label "," item ++ itemLines level items

end

def text (o : Outline) : String :=
  String.intercalate "\n" (o.lines 0 "" "")

def ofText (s : String) : Outline :=
  .leaf (Text.quote s)

def ofNat (n : Nat) : Outline :=
  .leaf (toString n)

/-- Numbers keep a point, and have no exponent from `1e-4` on and below `1e16`. -/
def numberLayout : Decimal.Layout where
  positional e := -4 ≤ e && e < 16
  wholeMark := ['.', '0']
  plusSign := []
  tie := .up

def ofFloat (x : Float) : Outline :=
  .leaf (String.ofList (numberLayout.write x))

def list (items : List Outline) : Outline :=
  .group "[" "]" (items.map (Prod.mk ""))

def tagged (name : String) (value : Outline) : Outline :=
  .group (name ++ "(") ")" [("", value)]

def record (name : String) (fields : List (String × Outline)) : Outline :=
  .group (name ++ " \x7b") "\x7d" (fields.map fun field => (field.1 ++ ": ", field.2))

/-- Named values in braces, the names in quotes. -/
def table (entries : List (String × Outline)) : Outline :=
  .group "\x7b" "\x7d" (entries.map fun field => (Text.quote field.1 ++ ": ", field.2))

/-- A value that may be missing. -/
def optional : Option Outline → Outline
  | none => .leaf "None"
  | some value => tagged "Some" value

end Outline

end Dialogue
