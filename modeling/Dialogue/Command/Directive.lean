import Dialogue.Command.Basic

/-!
Directives of the sequencer that commands ask for. A `seq` command gives its text, in which a number
between braces stands for the expression argument of that index; a `wait` command gives a delay.
-/

set_option autoImplicit false
set_option relaxedAutoImplicit false

namespace Dialogue.Command

/-- A Lua expression as part of a directive. -/
def embedded (fragment : String) : String :=
  "[lua(" ++ fragment ++ ")]"

/-- The index that digits stand for, if it fits a word of 64 bits. -/
def index? (digits : List Char) : Option Nat :=
  let n := Decimal.natOfDigits digits
  if n < Nat.pow 2 64 then some n else none

/-- The fragment that a placeholder stands for whose opening brace comes just before the text, and
the text after its closing brace. -/
def placeholder? (fragments : List String) (cs : List Char) : Option (String × List Char) :=
  match cs.takeWhile Char.isDigit, cs.dropWhile Char.isDigit with
  | digit :: digits, '}' :: rest => do
    let fragment ← fragments[← index? (digit :: digits)]?
    return (fragment, rest)
  | _, _ => none

theorem length_of_placeholder? {fragments : List String} {cs rest : List Char} {fragment : String}
    (h : placeholder? fragments cs = some (fragment, rest)) : rest.length < cs.length := by
  unfold placeholder? at h
  split at h
  · next digit digits rest' _ dropped =>
    obtain ⟨_, _, h⟩ := Option.bind_eq_some_iff.mp h
    obtain ⟨_, _, found⟩ := Option.bind_eq_some_iff.mp h
    obtain ⟨_, rfl⟩ := Prod.mk.inj (Option.some.inj found)
    have shorter := (List.dropWhile_sublist (l := cs) Char.isDigit).length_le
    rw [dropped] at shorter
    simp only [List.length_cons] at shorter
    omega
  · simp at h

/-- The directive with every placeholder replaced by its fragment. What is put in is not read again,
and a brace that opens no placeholder stays. -/
def substitute (fragments : List String) : List Char → List Char
  | [] => []
  | c :: rest =>
    if c = '{' then
      match _found : placeholder? fragments rest with
      | some (fragment, after) => (embedded fragment).toList ++ substitute fragments after
      | none => c :: substitute fragments rest
    else c :: substitute fragments rest
termination_by cs => cs.length
decreasing_by
  · have := length_of_placeholder? _found
    simp only [List.length_cons]
    omega
  · simp
  · simp

/-- The text of a command without the command's name. -/
def directiveText (rawText : String) : List Char :=
  Text.trim ((Text.trim rawText.toList).dropWhile (fun c => !Text.isBlank c))

def Argument.expression? : Argument → Option Expression
  | .expression tokens => some tokens
  | .text _ => none

/-- The directive of a `seq` command. -/
def sequenceText (rawText : String) (arguments : List Argument) : Except ExprError String := do
  let fragments ← (arguments.filterMap Argument.expression?).mapM Expression.fragment
  return String.ofList (substitute fragments (directiveText rawText))

def delay (seconds : String) : String :=
  "Delay(" ++ seconds ++ ")"

/-- The delay that an expression gives: its number if it is constant, else its value at run time. -/
def expressionDelay (tokens : Expression) : Except ExprError String := do
  match ← tokens.trees with
  | [single] =>
    match single.constant? with
    | some (.number x) => return delay (Lua.number x)
    | _ => return delay (embedded (← tokens.fragment))
  | _ => return delay (embedded (← tokens.fragment))

def wordDelay (word : String) : Except ExprError String :=
  match numeral? word with
  | some seconds => .ok (delay seconds)
  | none => .error (.badDuration word)

/-- The directive of a `wait` command: the delay of its first word or expression. -/
def waitText : List Argument → Except ExprError String
  | [] => .error .noDuration
  | .expression tokens :: _ => expressionDelay tokens
  | .text s :: rest =>
    match words s with
    | word :: _ => wordDelay word
    | [] => waitText rest

end Dialogue.Command
