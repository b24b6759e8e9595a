import Dialogue.Decimal.Reader
import Dialogue.Text.Digit
import Dialogue.Toml.Basic
import Dialogue.Toml.Parser

/-!
The values without parts: strings in four forms, numbers, truth values, dates and times; and the
keys, which share the two short forms of strings.
-/

set_option autoImplicit false
set_option relaxedAutoImplicit false

namespace Dialogue.Toml

open Dialogue.Toml.Parser

/-- Blanks within a line. -/
def isSpace (c : Char) : Bool :=
  c = ' ' || c = '\t'

/-- What a comment and a string may hold as it is: no control character but the tabulator. -/
def isPlain (c : Char) : Bool :=
  c = '\t' || (0x20 ≤ c.toNat && c.toNat ≠ 0x7F)

/-- Blanks within a line, if there are any. -/
def spaces : Parser Unit := do
  let _ ← run isSpace

def newline : Parser Unit :=
  char '\n' <|> word ['\r', '\n']

def charOf? (code : Nat) : Option Char :=
  if h : code.isValidChar then some ⟨code.toUInt32, by
    have small : code < 4294967296 := by
      rcases h with h | h <;> omega
    rw [Nat.toUInt32_eq, UInt32.isValidChar, UInt32.toNat_ofNat_of_lt' small]
    exact h⟩ else none

/-- A character given by so many hexadecimal digits. -/
def codePoint (digits : Nat) : Parser Char := do
  let code ← exactly (Text.isDigitOf 16) digits
  match charOf? (Text.natOfDigits 16 code) with
  | some c => pure c
  | none => failure

/-- A backslash and what it stands for with the next characters. -/
def escape : Parser Char := do
  char '\\'
  match ← satisfy fun _ => true with
  | 'b' => pure '\x08'
  | 't' => pure '\t'
  | 'n' => pure '\n'
  | 'f' => pure '\x0c'
  | 'r' => pure '\r'
  | '"' => pure '"'
  | '\\' => pure '\\'
  | 'u' => codePoint 4
  | 'U' => codePoint 8
  | _ => failure

def basicString : Parser String := do
  char '"'
  let content ← many (escape <|> satisfy fun c => isPlain c && c ≠ '"' && c ≠ '\\')
  char '"'
  return String.ofList content

/-- A string in apostrophes, without escapes. -/
def literalString : Parser String := do
  char '\''
  let content ← many (satisfy fun c => isPlain c && c ≠ '\'')
  char '\''
  return String.ofList content

/-- One or two marks inside a string that three marks close. -/
def loneMarks (mark : Char) : Parser (List Char) := do
  let marks ← run (· == mark)
  if marks.length = 1 || marks.length = 2 then pure marks else failure

/-- Three marks that close a string, after one or two that still belong to it. -/
def closingMarks (mark : Char) : Parser (List Char) := do
  let marks ← run (· == mark)
  if marks.length < 3 || 5 < marks.length then failure else pure (marks.drop 3)

/-- A backslash at the end of a line, which joins the lines. -/
def joinedLines : Parser Unit := do
  char '\\'
  spaces
  newline
  let _ ← many (spaces *> newline)
  spaces

/-- The content of a string over several lines, up to its closing marks. -/
def stringBody (mark : Char) (piece : Parser (List Char)) : Parser String := do
  word [mark, mark, mark]
  let _ ← option newline
  let content ← many (piece <|> loneMarks mark)
  let last ← closingMarks mark
  return String.ofList (content.flatten ++ last)

/-- A line end inside a string is one character, however it is written. -/
def lineBreak : Parser (List Char) := do
  newline
  return ['\n']

/-- A string in three quotes, over several lines. -/
def basicLines : Parser String :=
  stringBody '"'
    ((do let c ← satisfy fun c => isPlain c && c ≠ '"' && c ≠ '\\'
         return [c]) <|>
      lineBreak <|> (do joinedLines; return []) <|> (do return [← escape]))

/-- A string in three apostrophes, over several lines. -/
def literalLines : Parser String :=
  stringBody '\'' ((do return [← satisfy fun c => isPlain c && c ≠ '\'']) <|> lineBreak)

def string : Parser String :=
  basicLines <|> basicString <|> literalLines <|> literalString

/-- A key without points: a bare word or a short string. -/
def simpleKey : Parser String :=
  basicString <|> literalString <|> do
    let name ← run fun c => c.isAlphanum || c = '_' || c = '-'
    if name.isEmpty then failure else pure (String.ofList name)

/-- Tables, arrays and the parts of a key are nested less deep than this. -/
def nestingLimit : Nat := 80

/-- A key: the parts before the last, and the last. -/
def key : Parser (List String × String) := do
  spaces
  let first ← simpleKey
  spaces
  let more ← many do
    char '.'
    spaces
    let part ← simpleKey
    spaces
    return part
  if more.length + 1 < nestingLimit then
    return ((first :: more).dropLast, more.getLast?.getD first)
  else failure

/-- Digits of a base, between which single underscores may stand. -/
def digits (base : Nat) : Parser (List Char) := do
  let digit := satisfy (Text.isDigitOf base)
  let first ← digit
  let more ← many do
    let _ ← option (char '_')
    digit
  return first :: more

/-- An optional sign: whether it is negative. -/
def sign : Parser Bool :=
  (char '-' *> pure true) <|> (char '+' *> pure false) <|> pure false

/-- A sign and digits without a leading zero. -/
def signedDigits : Parser (Bool × List Char) := do
  let negative ← sign
  if (← peek) = some '0' then
    char '0'
    return (negative, ['0'])
  else return (negative, ← digits 10)

def integer : Parser Int := do
  let value : Int ← (do
      char '0'
      let base ← (char 'x' *> pure 16) <|> (char 'o' *> pure 8) <|> (char 'b' *> pure 2)
      return Int.ofNat (Text.natOfDigits base (← digits base))) <|> do
    let (negative, body) ← signedDigits
    let size := Int.ofNat (Decimal.natOfDigits body)
    return if negative then -size else size
  if -Int.ofNat (Nat.pow 2 63) ≤ value && value < Int.ofNat (Nat.pow 2 63)
    then pure value else failure

/-- A power of ten: a mark, a sign and digits. -/
def power : Parser Int := do
  char 'e' <|> char 'E'
  let negative ← sign
  let size := Int.ofNat (Decimal.natOfDigits (← digits 10))
  return if negative then -size else size

/-- A number with a fraction or a power of ten; too large a positive one is refused. -/
def real : Parser Float := do
  let (negative, whole) ← signedDigits
  let fraction ← option (char '.' *> digits 10)
  let exponent ← option power
  if fraction.isNone && exponent.isNone then failure
  else
    let places := fraction.getD []
    let value := Decimal.toFloat negative (Decimal.natOfDigits (whole ++ places))
      (exponent.getD 0 - places.length)
    if !negative && value.isInf then failure else pure value

/-- The words for infinity and for no number, with an optional sign. -/
def specialReal : Parser Float := do
  let negative ← sign
  let size ← (word ['i', 'n', 'f'] *> pure (1.0 / 0.0)) <|>
    (word ['n', 'a', 'n'] *> pure (0.0 / 0.0))
  return if negative then -size else size

/-- A number of so many decimal digits, within bounds. -/
def field (width least greatest : Nat) : Parser Nat := do
  let value := Decimal.natOfDigits (← exactly Char.isDigit width)
  if least ≤ value && value ≤ greatest then pure value else failure

def daysOf (year month : Nat) : Nat :=
  if month = 2 then
    if year % 4 = 0 && (year % 100 ≠ 0 || year % 400 = 0) then 29 else 28
  else if month = 4 || month = 6 || month = 9 || month = 11 then 30
  else 31

def date : Parser Unit := do
  let year ← field 4 0 9999
  char '-'
  let month ← field 2 1 12
  char '-'
  let _ ← field 2 1 (daysOf year month)

def time : Parser Unit := do
  let _ ← field 2 0 23
  char ':'
  let _ ← field 2 0 59
  char ':'
  let _ ← field 2 0 60
  let _ ← option do
    char '.'
    satisfy Char.isDigit *> run Char.isDigit

/-- The distance of a time from universal time. -/
def offset : Parser Unit :=
  char 'Z' <|> char 'z' <|> do
    char '+' <|> char '-'
    let _ ← field 2 0 23
    char ':'
    let _ ← field 2 0 59

/-- A date, a time, or both. -/
def moment : Parser Unit :=
  (do date
      let _ ← option do
        char 'T' <|> char 't' <|> char ' '
        time
        option offset) <|> time

def scalar : Parser Value :=
  (.text <$> string) <|> (moment *> pure .moment) <|> (.real <$> real) <|>
    (.real <$> specialReal) <|>
    (.integer <$> integer) <|> (word ['t', 'r', 'u', 'e'] *> pure (.boolean true)) <|>
    (word ['f', 'a', 'l', 's', 'e'] *> pure (.boolean false))

end Dialogue.Toml
