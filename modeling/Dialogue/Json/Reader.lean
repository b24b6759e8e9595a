import Dialogue.Decimal.Reader
import Dialogue.Json.Basic
import Dialogue.Text.Digit

/-!
Reading JSON text. The text is cut into tokens, one character at a time, and the tokens are gathered
by a machine with a stack of the open arrays and objects; both passes recurse on their input.

A string with half of a surrogate pair, a number out of range, an object with an unreadable name and
anything nested deeper than `depthLimit` are well formed but denote nothing: they become
`unreadable`, so that a reader which skips them accepts the text.
-/

set_option autoImplicit false
set_option relaxedAutoImplicit false

namespace Dialogue.Json

/-- A token of JSON text. A string without a text holds half of a surrogate pair. -/
inductive Token
  | openArray
  | closeArray
  | openObject
  | closeObject
  | comma
  | colon
  | string (s : Option String)
  | scalar (value : Json)

/-- The literal of a number: its sign and digits, and whether it is written as an integer. -/
structure Numeral where
  negative : Bool
  whole : List Char
  fraction : List Char
  exponent : Int
  integral : Bool

/-- A numeral: a sign, digits without a leading zero, and then an optional fraction and exponent. -/
def Numeral.ofChars? (cs : List Char) : Option Numeral :=
  let (negative, body) := match cs with
    | '-' :: body => (true, body)
    | body => (false, body)
  let (whole, afterWhole) := body.span Char.isDigit
  if whole.isEmpty || (whole.head? = some '0' && 1 < whole.length) then none
  else match afterWhole with
    | [] => some ⟨negative, whole, [], 0, true⟩
    | '.' :: afterPoint =>
      let (fraction, rest) := afterPoint.span Char.isDigit
      if fraction.isEmpty then none
      else (Decimal.exponent? rest).map fun e => ⟨negative, whole, fraction, e, false⟩
    | rest => (Decimal.exponent? rest).map fun e => ⟨negative, whole, [], e, false⟩

/-- The value of a numeral. An integer outside the 64-bit ranges, and negative zero, are binary64
numbers; beyond the largest of those there is no value. -/
def Numeral.value (n : Numeral) : Json :=
  let digits := Decimal.natOfDigits n.whole
  if n.integral && !n.negative && digits < Nat.pow 2 64 then .num (.int digits)
  else if n.integral && n.negative && 0 < digits && digits ≤ Nat.pow 2 63 then .num (.int (-digits))
  else
    let x := Decimal.toFloat n.negative (Decimal.natOfDigits (n.whole ++ n.fraction))
      (n.exponent - n.fraction.length)
    if finite : x.isFinite then .num (.real x finite) else .unreadable

/-- The value of a word or numeral. -/
def scalar? (cs : List Char) : Option Json :=
  if cs = "null".toList then some .null
  else if cs = "true".toList then some (.bool true)
  else if cs = "false".toList then some (.bool false)
  else (Numeral.ofChars? cs).map Numeral.value

/-- The text of a string read so far, last character first. A high half of a surrogate pair waits
for its low half; a half that stands alone spoils the text. -/
structure Quoted where
  chars : List Char
  high : Option Nat
  spoiled : Bool

namespace Quoted

/-- The string just after its opening quote. -/
def start : Quoted := ⟨[], none, false⟩

/-- The string with one more character. -/
def push (q : Quoted) (c : Char) : Quoted :=
  ⟨c :: q.chars, none, q.spoiled || q.high.isSome⟩

/-- The string with one more UTF-16 unit. -/
def pushUnit (q : Quoted) (unit : Nat) : Quoted :=
  if 0xDC00 ≤ unit && unit < 0xE000 then
    match q.high with
    | some high =>
      ⟨Char.ofNat (0x10000 + (high - 0xD800) * 0x400 + (unit - 0xDC00)) :: q.chars, none,
        q.spoiled⟩
    | none => ⟨q.chars, none, true⟩
  else if 0xD800 ≤ unit && unit < 0xDC00 then ⟨q.chars, some unit, q.spoiled || q.high.isSome⟩
  else q.push (Char.ofNat unit)

def text? (q : Quoted) : Option String :=
  if q.spoiled || q.high.isSome then none else some (String.ofList q.chars.reverse)

end Quoted

/-- Where the cutting of the text stands. -/
inductive Lexing
  | between
  | word (chars : List Char)
  | quoted (q : Quoted)
  | escaped (q : Quoted)
  | unit (q : Quoted) (digits value : Nat)

/-- The character that a one-letter escape stands for. -/
def escaped? : Char → Option Char
  | '"' => some '"'
  | '\\' => some '\\'
  | '/' => some '/'
  | 'b' => some '\x08'
  | 'f' => some '\x0c'
  | 'n' => some '\n'
  | 'r' => some '\r'
  | 't' => some '\t'
  | _ => none

def mark? : Char → Option Token
  | '[' => some .openArray
  | ']' => some .closeArray
  | '{' => some .openObject
  | '}' => some .closeObject
  | ',' => some .comma
  | ':' => some .colon
  | _ => none

/-- A character between tokens: a blank, a mark, or the first of a string or word. -/
def lexBetween (c : Char) (done : List Token) : Option (Lexing × List Token) :=
  if c = ' ' || c = '\t' || c = '\n' || c = '\r' then some (.between, done)
  else if c = '"' then some (.quoted .start, done)
  else if c.isAlphanum || c = '-' then some (.word [c], done)
  else (mark? c).map fun token => (.between, token :: done)

/-- One character more. The tokens are kept last first. -/
def lexStep (state : Lexing) (c : Char) (done : List Token) : Option (Lexing × List Token) :=
  match state with
  | .between => lexBetween c done
  | .word chars =>
    if c.isAlphanum || c = '-' || c = '+' || c = '.' then some (.word (c :: chars), done)
    else do
      let value ← scalar? chars.reverse
      lexBetween c (.scalar value :: done)
  | .quoted q =>
    if c = '"' then some (.between, .string q.text? :: done)
    else if c = '\\' then some (.escaped q, done)
    else if c.toNat < 0x20 then none
    else some (.quoted (q.push c), done)
  | .escaped q =>
    if c = 'u' then some (.unit q 0 0, done)
    else (escaped? c).map fun plain => (.quoted (q.push plain), done)
  | .unit q digits value => (Text.hexValue? c).map fun digit =>
    let value := 16 * value + digit
    if digits = 3 then (.quoted (q.pushUnit value), done) else (.unit q (digits + 1) value, done)

/-- The tokens of a text, if it is made of tokens. -/
def lex (state : Lexing) (done : List Token) : List Char → Option (List Token)
  | [] => match state with
    | .between => some done.reverse
    | .word chars => (scalar? chars.reverse).map fun value => (Token.scalar value :: done).reverse
    | _ => none
  | c :: rest =>
    match lexStep state c done with
    | some (next, done) => lex next done rest
    | none => none

/-- The number of arrays and objects that may enclose one another. -/
def depthLimit : Nat := 127

/-- An open array or object, with what it holds so far, last first. -/
inductive Frame
  | array (items : List Json)
  | object (members : List (String × Json)) (spoiled : Bool) (name : Option String)

/-- What may follow in the token list. -/
inductive Expecting
  | value
  | firstItem
  | firstName
  | name
  | colon
  | separator
  | done (value : Json)

/-- A complete value takes its place in the innermost open array or object. -/
def settle (value : Json) : List Frame → Expecting × List Frame
  | [] => (.done value, [])
  | .array items :: stack => (.separator, .array (value :: items) :: stack)
  | .object members spoiled (some name) :: stack =>
    (.separator, .object ((name, value) :: members) spoiled none :: stack)
  | .object members _ none :: stack => (.separator, .object members true none :: stack)

/-- The value of the innermost array or object at its closing bracket. -/
def closed (frame : Frame) (outer : List Frame) : Json :=
  if depthLimit ≤ outer.length then .unreadable
  else match frame with
    | .array items => .arr items.reverse
    | .object members spoiled _ => if spoiled then .unreadable else .obj members.reverse

def parseStep : Expecting → List Frame → Token → Option (Expecting × List Frame)
  | .firstItem, frame :: stack, .closeArray => some (settle (closed frame stack) stack)
  | .value, stack, token | .firstItem, stack, token =>
    match token with
    | .scalar value => some (settle value stack)
    | .string (some s) => some (settle (.str s) stack)
    | .string none => some (settle .unreadable stack)
    | .openArray => some (.firstItem, .array [] :: stack)
    | .openObject => some (.firstName, .object [] false none :: stack)
    | _ => none
  | .firstName, .object members spoiled _ :: stack, .string s
  | .name, .object members spoiled _ :: stack, .string s =>
    some (.colon, .object members (spoiled || s.isNone) s :: stack)
  | .firstName, frame :: stack, .closeObject => some (settle (closed frame stack) stack)
  | .colon, stack, .colon => some (.value, stack)
  | .separator, .array items :: stack, .comma => some (.value, .array items :: stack)
  | .separator, .object members spoiled _ :: stack, .comma =>
    some (.name, .object members spoiled none :: stack)
  | .separator, .array items :: stack, .closeArray =>
    some (settle (closed (.array items) stack) stack)
  | .separator, .object members spoiled name :: stack, .closeObject =>
    some (settle (closed (.object members spoiled name) stack) stack)
  | _, _, _ => none

/-- The value that a list of tokens makes up, in a state of the machine. -/
def gather (state : Expecting) (stack : List Frame) : List Token → Option Json
  | [] => match state with
    | .done value => some value
    | _ => none
  | token :: rest =>
    match parseStep state stack token with
    | some (state, stack) => gather state stack rest
    | none => none

def parse? (text : String) : Option Json :=
  (lex .between [] text.toList).bind (gather .value [])

end Dialogue.Json
