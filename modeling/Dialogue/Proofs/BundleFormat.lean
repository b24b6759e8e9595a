import Dialogue.Bundle.Codec
import Dialogue.Proofs.Json.Format
import Mathlib.Data.List.Nodup

/-!
The JSON format of bundles: which values denote a bundle, and which one. Tokens and command
arguments are told apart by the name of their only member, kinds of statements by the member `type`;
a member that is left out has a default. Main statement: decoding accepts exactly the values that
denote a bundle, and decoding what was encoded gives the bundle back for exactly the bundles whose
numbers are finite and whose counts fit their words, among them all that were decoded.
-/

set_option autoImplicit false
set_option relaxedAutoImplicit false

namespace Dialogue

namespace Json

/-- A token is an object with its name as the only member, or a name without content. -/
inductive IsToken (setting : Setting) : Format Token
  | bool {payload : Json} {b : Bool} (h : IsBool payload b) :
    IsToken setting (.obj [("Bool", payload)]) (.bool b)
  | number {payload : Json} {x : Float} (h : IsNumber payload x) :
    IsToken setting (.obj [("Number", payload)]) (.number x)
  | null {value : Json} (h : IsName setting value "Null") : IsToken setting value .null
  | text {payload : Json} {s : String} (h : IsText payload s) :
    IsToken setting (.obj [("Text", payload)]) (.text s)
  | stored {payload : Json} {name : String} (h : IsText payload name) :
    IsToken setting (.obj [("Variable", payload)]) (.variable name)
  | function {payload : Json} {members : List (String × Json)} {name : String} {arity : Nat}
    (fields : IsRecord ["name", "arity"] payload members)
    (named : Required members "name" IsText name)
    (takes : Required members "arity" (IsWord 64) arity) :
    IsToken setting (.obj [("Function", payload)]) (.function name arity)
  | operator {payload : Json} {members : List (String × Json)} {op : Operator} {arity : Nat}
    (fields : IsRecord ["kind", "arity"] payload members)
    (named : Required members "kind" (fun value op => IsName setting value (Operator.name op)) op)
    (takes : Required members "arity" (IsWord 64) arity) :
    IsToken setting (.obj [("Operator", payload)]) (.operator op arity)
  | group {value : Json} (h : IsName setting value "ParenGroup") : IsToken setting value .group

abbrev IsExpression (setting : Setting) : Format Expression := IsList (IsToken setting)

/-- A command argument is an object with its name as the only member. -/
inductive IsArgument (setting : Setting) : Format Command.Argument
  | text {payload : Json} {s : String} (h : IsText payload s) :
    IsArgument setting (.obj [("Text", payload)]) (.text s)
  | expression {payload : Json} {tokens : Expression} (h : IsExpression setting payload tokens) :
    IsArgument setting (.obj [("Expression", payload)]) (.expression tokens)

/-- The kind of statement with a tag, by the fields beside the tag. -/
inductive IsKind (content : Json) : String → Bundle.Form → Prop
  | node {members : List (String × Json)} {name : String} {headers : Dict String}
    (fields : IsRecord ["name", "headers"] content members)
    (named : Required members "name" IsText name)
    (listed : Defaulted members "headers" .empty (IsDict IsText) headers) :
    IsKind content "node" (.node name headers)
  | line {members : List (String × Json)} {lineId : Option String} {hashtags : List String}
    (fields : IsRecord ["line_id", "hashtags"] content members)
    (named : Optional members "line_id" IsText lineId)
    (marked : Defaulted members "hashtags" [] (IsList IsText) hashtags) :
    IsKind content "line" (.line lineId hashtags)
  | command {members : List (String × Json)} {name : String} {arguments : List Command.Argument}
    {text : String} (fields : IsRecord ["name", "arguments", "text"] content members)
    (named : Required members "name" IsText name)
    (applied : Defaulted members "arguments" [] (IsList (IsArgument .tagged)) arguments)
    (spelled : Defaulted members "text" "" IsText text) :
    IsKind content "command" (.command name arguments text)
  | call {members : List (String × Json)} {name : String}
    (fields : IsRecord ["name"] content members) (named : Required members "name" IsText name) :
    IsKind content "call" (.call name)
  | jump {members : List (String × Json)} {destination : Option String}
    (fields : IsRecord ["node"] content members)
    (named : Optional members "node" IsText destination) :
    IsKind content "jump" (.jump destination)
  | set {members : List (String × Json)} {name symbol : String}
    (fields : IsRecord ["variable", "operator"] content members)
    (named : Required members "variable" IsText name)
    (stored : Defaulted members "operator" "=" IsText symbol) :
    IsKind content "set" (.set name symbol)
  | declare {members : List (String × Json)} {name : String}
    (fields : IsRecord ["variable"] content members)
    (named : Required members "variable" IsText name) : IsKind content "declare" (.declare name)
  | ifBlock {members : List (String × Json)} (fields : IsRecord [] content members) :
    IsKind content "if" .ifBlock
  | ifClause {members : List (String × Json)} {clause : Script.ClauseKind}
    (fields : IsRecord ["clause"] content members)
    (named : Required members "clause"
      (fun value clause => IsName .tagged value (Script.ClauseKind.name clause)) clause) :
    IsKind content "if_clause" (.ifClause clause)
  | options {members : List (String × Json)} (fields : IsRecord [] content members) :
    IsKind content "options" .options
  | option {members : List (String × Json)} (fields : IsRecord [] content members) :
    IsKind content "option" .option

/-- The kind of a statement is an object with a tag, or an array with a tag in front, all of whose
values are readable. -/
inductive IsForm : Format Bundle.Form
  | obj {members : List (String × Json)} {tag : String} {form : Bundle.Form}
    (readable : (Json.obj members).readable = true) (once : Once members ["type"])
    (tagged : Required members "type" IsText tag) (kind : IsKind (.obj members) tag form) :
    IsForm (.obj members) form
  | arr {first : Json} {rest : List Json} {tag : String} {form : Bundle.Form}
    (readable : (Json.arr (first :: rest)).readable = true) (tagged : IsText first tag)
    (kind : IsKind (.arr rest) tag form) : IsForm (.arr (first :: rest)) form

/-- The fields of a statement besides the statements it holds. -/
structure IsHeader (members : List (String × Json)) (kind : Bundle.Form) (line : Nat)
    (conditions expression : Option Expression) : Prop where
  kind : Required members "kind" IsForm kind
  line : Defaulted members "line" 0 (IsWord 32) line
  conditions : Optional members "conditions" (IsExpression .plain) conditions
  expression : Optional members "expression" (IsExpression .plain) expression

/-- A statement is a record; it holds no statements if it has no field that lists them. -/
inductive IsNode : Format Bundle.Node
  | leaf {value : Json} {members : List (String × Json)} {kind : Bundle.Form} {line : Nat}
    {conditions expression : Option Expression}
    (fields : IsRecord ["kind", "line", "conditions", "expression", "children"] value members)
    (header : IsHeader members kind line conditions expression)
    (absent : members.lookup "children" = none) :
    IsNode value (.mk kind line conditions expression [])
  | parent {value : Json} {members : List (String × Json)} {kind : Bundle.Form} {line : Nat}
    {conditions expression : Option Expression} {items : List Json} {children : List Bundle.Node}
    (fields : IsRecord ["kind", "line", "conditions", "expression", "children"] value members)
    (header : IsHeader members kind line conditions expression)
    (present : members.lookup "children" = some (.arr items))
    (each : List.Forall₂ IsNode items children) :
    IsNode value (.mk kind line conditions expression children)

/-- A line id is a record without optional fields. -/
inductive IsLineId : Format Bundle.LineId
  | mk {value : Json} {members : List (String × Json)} {l : Bundle.LineId}
    (fields : IsRecord ["conversation", "line", "line_id"] value members)
    (conversation : Required members "conversation" IsText l.conversation)
    (line : Required members "line" (IsWord 32) l.line)
    (named : Required members "line_id" IsText l.lineId) : IsLineId value l

/-- A script file is a record in which only its name has to be there. -/
inductive IsFile : Format Bundle.File
  | mk {value : Json} {members : List (String × Json)} {f : Bundle.File}
    (fields : IsRecord ["file", "conversations", "line_ids", "strings"] value members)
    (named : Required members "file" IsText f.file)
    (conversations : Defaulted members "conversations" [] (IsList IsNode) f.conversations)
    (lineIds : Defaulted members "line_ids" [] (IsList IsLineId) f.lineIds)
    (strings : Defaulted members "strings" .empty (IsDict (IsDict IsText)) f.strings) :
    IsFile value f

/-- A bundle is a record that lists its script files. -/
inductive IsBundle : Format Bundle
  | mk {value : Json} {members : List (String × Json)} {b : Bundle}
    (fields : IsRecord ["units"] value members)
    (files : Defaulted members "units" [] (IsList IsFile) b.files) : IsBundle value b

end Json

open Json

/-- A token whose number is finite and whose number of operands fits 64 bits. -/
def Token.Encodable : Token → Prop
  | .number x => x.isFinite = true
  | .function _ arity => arity < 2 ^ 64
  | .operator _ arity => arity < 2 ^ 64
  | _ => True

def Expression.Encodable (tokens : Expression) : Prop :=
  ∀ token ∈ tokens, token.Encodable

def Command.Argument.Encodable : Command.Argument → Prop
  | .text _ => True
  | .expression tokens => tokens.Encodable

namespace Bundle

/-- A kind without other tokens. -/
def Form.Encodable : Form → Prop
  | .command _ arguments _ => ∀ argument ∈ arguments, argument.Encodable
  | _ => True

/-- A statement without other tokens, at a line that fits 32 bits, and so all statements in it. -/
inductive Node.Encodable : Node → Prop
  | mk {kind : Form} {line : Nat} {conditions expression : Option Expression} {children : List Node}
    (form : kind.Encodable) (place : line < 2 ^ 32)
    (guard : ∀ tokens ∈ conditions, tokens.Encodable)
    (payload : ∀ tokens ∈ expression, tokens.Encodable)
    (each : ∀ child ∈ children, Node.Encodable child) :
    Node.Encodable (.mk kind line conditions expression children)

/-- A script file of such statements whose line ids are at lines that fit 32 bits. -/
structure File.Encodable (f : File) : Prop where
  conversations : ∀ node ∈ f.conversations, node.Encodable
  lineIds : ∀ l ∈ f.lineIds, l.line < 2 ^ 32

def Encodable (b : Bundle) : Prop :=
  ∀ f ∈ b.files, f.Encodable

end Bundle

private theorem Operator.ofName?_eq_some_iff (s : String) (op : Operator) :
    Operator.ofName? s = some op ↔ s = op.name := by
  constructor
  · intro h
    have named := List.find?_some h
    exact (of_decide_eq_true named).symm
  · rintro rfl
    exact Operator.ofName?_name op

private theorem Script.ClauseKind.ofName?_eq_some_iff (s : String) (clause : Script.ClauseKind) :
    Script.ClauseKind.ofName? s = some clause ↔ s = clause.name := by
  constructor
  · intro h
    unfold ClauseKind.ofName? at h
    split at h <;> cases h <;> rfl
  · rintro rfl
    cases clause <;> rfl

private theorem Token.isToken_of_ofJson? {setting : Setting} {value : Json} {token : Token}
    (decoded : Token.ofJson? setting value = some token) : IsToken setting value token := by
  have reads_operator := reads_name setting Operator.ofName?_eq_some_iff
  obtain ⟨⟨tag, payload⟩, named, h⟩ := Option.bind_eq_some_iff.mp decoded
  clear decoded
  split at h
  all_goals simp only [Option.bind_eq_bind, Option.bind_eq_some_iff, Option.pure_def,
    Option.some.injEq, Option.ite_none_right_eq_some, reads_bool _ _, reads_float _ _,
    reads_text _ _, Record.of?_eq_some_iff, Record.required?_eq_some_iff reads_text,
    Record.required?_eq_some_iff reads_operator, Record.required?_eq_some_iff reads_word64,
    reduceCtorEq] at h
  · next inner same =>
    cases same
    cases (variant?_tagged_iff value inner _).mp named
    obtain ⟨b, h, rfl⟩ := h
    exact .bool h
  · next inner same =>
    cases same
    cases (variant?_tagged_iff value inner _).mp named
    obtain ⟨x, h, rfl⟩ := h
    exact .number h
  · next inner same =>
    cases same
    cases (variant?_tagged_iff value inner _).mp named
    obtain ⟨s, h, rfl⟩ := h
    exact .text h
  · next inner same =>
    cases same
    cases (variant?_tagged_iff value inner _).mp named
    obtain ⟨name, h, rfl⟩ := h
    exact .stored h
  · next inner same =>
    cases same
    cases (variant?_tagged_iff value inner _).mp named
    obtain ⟨r, fields, name, named, arity, takes, rfl⟩ := h
    exact .function fields named takes
  · next inner same =>
    cases same
    cases (variant?_tagged_iff value inner _).mp named
    obtain ⟨r, fields, op, named, arity, takes, rfl⟩ := h
    exact .operator fields named takes
  · next same =>
    cases same
    obtain ⟨unit, rfl⟩ := h
    exact .null ((isName_iff _ _ _).mpr ⟨payload, named, unit⟩)
  · next same =>
    cases same
    obtain ⟨unit, rfl⟩ := h
    exact .group ((isName_iff _ _ _).mpr ⟨payload, named, unit⟩)

private theorem Token.ofJson?_of_isToken {setting : Setting} {value : Json} {token : Token}
    (h : IsToken setting value token) : Token.ofJson? setting value = some token := by
  have reads_operator := reads_name setting Operator.ofName?_eq_some_iff
  cases h with
  | bool h => simp [Token.ofJson?, variant?, (reads_bool _ _).mpr h]
  | number h => simp [Token.ofJson?, variant?, (reads_float _ _).mpr h]
  | text h => simp [Token.ofJson?, variant?, (reads_text _ _).mpr h]
  | stored h => simp [Token.ofJson?, variant?, (reads_text _ _).mpr h]
  | function fields named takes =>
    simp only [Token.ofJson?, variant?, Option.bind_eq_bind, Option.bind_some,
      Option.bind_eq_some_iff, Record.of?_eq_some_iff, Record.required?_eq_some_iff reads_text,
      Record.required?_eq_some_iff reads_word64]
    exact ⟨⟨_⟩, fields, _, named, _, takes, rfl⟩
  | operator fields named takes =>
    simp only [Token.ofJson?, variant?, Option.bind_eq_bind, Option.bind_some,
      Option.bind_eq_some_iff, Record.of?_eq_some_iff, Record.required?_eq_some_iff reads_operator,
      Record.required?_eq_some_iff reads_word64]
    exact ⟨⟨_⟩, fields, _, named, _, takes, rfl⟩
  | null h =>
    obtain ⟨payload, named, unit⟩ := (isName_iff _ _ _).mp h
    simp [Token.ofJson?, named, unit]
  | group h =>
    obtain ⟨payload, named, unit⟩ := (isName_iff _ _ _).mp h
    simp [Token.ofJson?, named, unit]

private theorem Token.reads_ofJson? (setting : Setting) :
    Reads (Token.ofJson? setting) (IsToken setting) :=
  fun _ _ => ⟨Token.isToken_of_ofJson?, Token.ofJson?_of_isToken⟩

private theorem Expression.reads_ofJson? (setting : Setting) :
    Reads (Expression.ofJson? setting) (IsExpression setting) :=
  (Token.reads_ofJson? setting).list

private theorem Command.Argument.reads_ofJson? (setting : Setting) :
    Reads (Command.Argument.ofJson? setting) (IsArgument setting) := by
  intro value argument
  constructor
  · intro decoded
    obtain ⟨⟨tag, payload⟩, named, h⟩ := Option.bind_eq_some_iff.mp decoded
    clear decoded
    split at h
    all_goals simp only [Option.bind_eq_bind, Option.bind_eq_some_iff, Option.pure_def,
      Option.some.injEq, reads_text _ _, Expression.reads_ofJson? setting _ _, reduceCtorEq] at h
    · next inner same =>
      cases same
      cases (variant?_tagged_iff value inner _).mp named
      obtain ⟨s, h, rfl⟩ := h
      exact .text h
    · next inner same =>
      cases same
      cases (variant?_tagged_iff value inner _).mp named
      obtain ⟨tokens, h, rfl⟩ := h
      exact .expression h
  · intro h
    cases h with
    | text h => simp [Command.Argument.ofJson?, variant?, (reads_text _ _).mpr h]
    | expression h =>
      simp [Command.Argument.ofJson?, variant?, (Expression.reads_ofJson? setting _ _).mpr h]

private theorem Bundle.Form.ofTag?_eq_some_iff (content : Json) (tag : String) (form : Form) :
    ofTag? content tag = some form ↔ IsKind content tag form := by
  have reads_arguments := (Command.Argument.reads_ofJson? .tagged).list
  have reads_clause := reads_name .tagged Script.ClauseKind.ofName?_eq_some_iff
  constructor
  · intro h
    unfold ofTag? at h
    split at h
    all_goals simp only [Option.bind_eq_bind, Option.bind_eq_some_iff, Option.pure_def,
      Option.map_eq_some_iff, Option.some.injEq, Record.of?_eq_some_iff,
      Record.required?_eq_some_iff reads_text, Record.required?_eq_some_iff reads_clause,
      Record.withDefault?_eq_some_iff reads_text, Record.withDefault?_eq_some_iff reads_text.list,
      Record.withDefault?_eq_some_iff reads_text.dict,
      Record.withDefault?_eq_some_iff reads_arguments, Record.optional?_eq_some_iff reads_text,
      reduceCtorEq] at h
    · obtain ⟨r, fields, name, named, headers, listed, rfl⟩ := h
      exact .node fields named listed
    · obtain ⟨r, fields, lineId, named, hashtags, marked, rfl⟩ := h
      exact .line fields named marked
    · obtain ⟨r, fields, name, named, arguments, applied, text, spelled, rfl⟩ := h
      exact .command fields named applied spelled
    · obtain ⟨r, fields, name, named, rfl⟩ := h
      exact .call fields named
    · obtain ⟨r, fields, destination, named, rfl⟩ := h
      exact .jump fields named
    · obtain ⟨r, fields, name, named, symbol, stored, rfl⟩ := h
      exact .set fields named stored
    · obtain ⟨r, fields, name, named, rfl⟩ := h
      exact .declare fields named
    · obtain ⟨r, fields, rfl⟩ := h
      exact .ifBlock fields
    · obtain ⟨r, fields, clause, named, rfl⟩ := h
      exact .ifClause fields named
    · obtain ⟨r, fields, rfl⟩ := h
      exact .options fields
    · obtain ⟨r, fields, rfl⟩ := h
      exact .option fields
  · intro h
    cases h
    all_goals simp only [ofTag?, Option.bind_eq_bind, Option.bind_eq_some_iff,
      Option.map_eq_some_iff, Record.of?_eq_some_iff,
      Record.required?_eq_some_iff reads_text, Record.required?_eq_some_iff reads_clause,
      Record.withDefault?_eq_some_iff reads_text, Record.withDefault?_eq_some_iff reads_text.list,
      Record.withDefault?_eq_some_iff reads_text.dict,
      Record.withDefault?_eq_some_iff reads_arguments, Record.optional?_eq_some_iff reads_text]
    case node fields named listed => exact ⟨⟨_⟩, fields, _, named, _, listed, rfl⟩
    case line fields named marked => exact ⟨⟨_⟩, fields, _, named, _, marked, rfl⟩
    case command fields named applied spelled =>
      exact ⟨⟨_⟩, fields, _, named, _, applied, _, spelled, rfl⟩
    case call fields named => exact ⟨⟨_⟩, fields, _, named, rfl⟩
    case jump fields named => exact ⟨⟨_⟩, fields, _, named, rfl⟩
    case set fields named stored => exact ⟨⟨_⟩, fields, _, named, _, stored, rfl⟩
    case declare fields named => exact ⟨⟨_⟩, fields, _, named, rfl⟩
    case ifBlock fields => exact ⟨⟨_⟩, fields, trivial⟩
    case ifClause fields named => exact ⟨⟨_⟩, fields, _, named, rfl⟩
    case options fields => exact ⟨⟨_⟩, fields, trivial⟩
    case option fields => exact ⟨⟨_⟩, fields, trivial⟩

private theorem Bundle.Form.ofJson?_arr_eq_some_iff (first : Json)
    (rest : List Json) (form : Form) :
    ofJson? (.arr (first :: rest)) = some form ↔ (Json.arr (first :: rest)).readable = true ∧
      ∃ tag, text? first = some tag ∧ ofTag? (.arr rest) tag = some form := by
  unfold ofJson?
  cases (Json.arr (first :: rest)).readable <;> simp [Option.bind_eq_some_iff]

private theorem Bundle.Form.ofJson?_eq_some_iff {value : Json}
    (bare : ∀ first rest, value ≠ .arr (first :: rest)) (form : Form) :
    ofJson? value = some form ↔ value.readable = true ∧
      ∃ r, Record.of? ["type"] value = some r ∧
        ∃ tag, r.required? "type" text? = some tag ∧ ofTag? value tag = some form := by
  unfold ofJson?
  cases value.readable with
  | false => simp
  | true =>
    split
    · exact absurd rfl (bare _ _)
    · simp [Option.bind_eq_some_iff]

private theorem Bundle.Form.reads_ofJson? : Reads Bundle.Form.ofJson? IsForm := by
  intro value form
  by_cases positional : ∃ first rest, value = .arr (first :: rest)
  · obtain ⟨first, rest, rfl⟩ := positional
    rw [ofJson?_arr_eq_some_iff]
    constructor
    · rintro ⟨readable, tag, tagged, h⟩
      exact .arr readable ((reads_text _ _).mp tagged) ((ofTag?_eq_some_iff _ _ _).mp h)
    · intro h
      cases h with
      | arr readable tagged kind =>
        exact ⟨readable, _, (reads_text _ _).mpr tagged, (ofTag?_eq_some_iff _ _ _).mpr kind⟩
  · rw [ofJson?_eq_some_iff fun first rest same => positional ⟨first, rest, same⟩]
    constructor
    · rintro ⟨readable, r, known, tag, tagged, h⟩
      rw [Record.of?_eq_some_iff] at known
      rw [Record.required?_eq_some_iff reads_text] at tagged
      obtain ⟨members⟩ := r
      cases known with
      | obj once => exact .obj readable once tagged ((ofTag?_eq_some_iff _ _ _).mp h)
      | @arr items fits =>
        cases items with
        | nil =>
          obtain ⟨_, found, -⟩ := tagged
          cases found
        | cons first rest => exact absurd ⟨first, rest, rfl⟩ positional
    · intro h
      cases h with
      | obj readable once tagged kind =>
        rw [← Record.required?_eq_some_iff reads_text ⟨_⟩] at tagged
        exact ⟨readable, ⟨_⟩, (Record.of?_eq_some_iff _ _ _).mpr (.obj once), _, tagged,
          (ofTag?_eq_some_iff _ _ _).mpr kind⟩
      | arr => exact absurd ⟨_, _, rfl⟩ positional

namespace Bundle

/-- The statements that a record lists, if it lists any. -/
def Node.Holds (members : List (String × Json)) (children : List Node) : Prop :=
  members.lookup "children" = none ∧ children = [] ∨
    ∃ items, members.lookup "children" = some (.arr items) ∧ List.Forall₂ IsNode items children

private theorem Node.isNode_iff (value : Json) (kind : Form) (line : Nat)
    (conditions expression : Option Expression) (children : List Node) :
    IsNode value (.mk kind line conditions expression children) ↔
      ∃ members, IsRecord Node.known value members ∧
        IsHeader members kind line conditions expression ∧ Node.Holds members children := by
  constructor
  · intro h
    cases h with
    | leaf fields header absent => exact ⟨_, fields, header, .inl ⟨absent, rfl⟩⟩
    | parent fields header present each => exact ⟨_, fields, header, .inr ⟨_, present, each⟩⟩
  · rintro ⟨members, fields, header, ⟨absent, rfl⟩ | ⟨items, present, each⟩⟩
    · exact .leaf fields header absent
    · exact .parent fields header present each

private theorem Node.ofRecord?_eq_some_iff {r : Record}
    {children : Option (List Node)} {node : Node} :
    ofRecord? r children = some node ↔ ∃ kind line conditions expression held,
      IsHeader r.members kind line conditions expression ∧ children = some held ∧
        node = .mk kind line conditions expression held := by
  have reads_expression := Expression.reads_ofJson? .plain
  simp only [ofRecord?, Option.bind_eq_bind, Option.bind_eq_some_iff, Option.pure_def,
    Option.some.injEq, Record.required?_eq_some_iff Form.reads_ofJson?,
    Record.withDefault?_eq_some_iff reads_word32, Record.optional?_eq_some_iff reads_expression]
  constructor
  · rintro ⟨kind, isKind, line, isLine, conditions, guarded, expression, carried, held, holds, rfl⟩
    exact ⟨kind, line, conditions, expression, held, ⟨isKind, isLine, guarded, carried⟩, holds, rfl⟩
  · rintro ⟨kind, line, conditions, expression, held, header, holds, rfl⟩
    exact ⟨kind, header.kind, line, header.line, conditions, header.conditions, expression,
      header.expression, held, holds, rfl⟩

/-- A statement is what its record says, if the statements that it holds are found as they are
listed. -/
theorem Node.decoded_iff {value : Json} {found : Option (List Node)}
    (listed : ∀ members children, IsRecord Node.known value members →
      (found = some children ↔ Node.Holds members children)) (node : Node) :
    ((Record.of? Node.known value).bind fun r => Node.ofRecord? r found) = some node ↔
      IsNode value node := by
  simp only [Option.bind_eq_some_iff, Record.of?_eq_some_iff, Node.ofRecord?_eq_some_iff]
  constructor
  · rintro ⟨r, fields, kind, line, conditions, expression, held, header, holds, rfl⟩
    exact (Node.isNode_iff ..).mpr ⟨r.members, fields, header, (listed _ _ fields).mp holds⟩
  · intro h
    obtain ⟨kind, line, conditions, expression, children⟩ := node
    obtain ⟨members, fields, header, holds⟩ := (Node.isNode_iff ..).mp h
    exact ⟨⟨members⟩, fields, kind, line, conditions, expression, children, header,
      (listed _ _ fields).mpr holds, rfl⟩

private theorem Node.ofJson?_eq_some_iff_of_bare {value : Json}
    (refused : Node.ofJson? value = none)
    (bare : ∀ members, ¬ IsRecord Node.known value members) (node : Node) :
    Node.ofJson? value = some node ↔ IsNode value node := by
  rw [refused]
  refine iff_of_false (by rintro ⟨⟩) fun h => ?_
  obtain ⟨kind, line, conditions, expression, children⟩ := node
  obtain ⟨members, fields, -⟩ := (Node.isNode_iff ..).mp h
  exact bare members fields

private theorem Node.lookup_positional (items : List Json) :
    (Node.known.zip items).lookup "children" = items[4]? := by
  match items with
  | [] | [_] | [_, _] | [_, _, _] | [_, _, _, _] | _ :: _ :: _ :: _ :: _ :: _ => rfl

-- The induction is on the JSON value, along the decoder's own recursion through members and arrays.
mutual

private theorem Node.ofJson?_eq_some_iff : ∀ (value : Json) (node : Node),
    Node.ofJson? value = some node ↔ IsNode value node
  | .obj members, node => by
    rw [Node.ofJson?]
    refine Node.decoded_iff (fun members children fields => ?_) node
    cases fields with
    | obj => exact Node.childrenOf?_eq_some_iff _ children
  | .arr items, node => by
    rw [Node.ofJson?]
    refine Node.decoded_iff (fun members children fields => ?_) node
    cases fields with
    | arr =>
      rw [Node.Holds, Node.lookup_positional]
      exact Node.childrenAt?_eq_some_iff 4 items children
  | .null, _ => Node.ofJson?_eq_some_iff_of_bare rfl (by rintro _ ⟨⟩) _
  | .bool _, _ => Node.ofJson?_eq_some_iff_of_bare rfl (by rintro _ ⟨⟩) _
  | .num _, _ => Node.ofJson?_eq_some_iff_of_bare rfl (by rintro _ ⟨⟩) _
  | .str _, _ => Node.ofJson?_eq_some_iff_of_bare rfl (by rintro _ ⟨⟩) _
  | .unreadable, _ => Node.ofJson?_eq_some_iff_of_bare rfl (by rintro _ ⟨⟩) _

private theorem Node.childrenAt?_eq_some_iff :
    ∀ (n : Nat) (items : List Json) (children : List Node),
    Node.childrenAt? n items = some children ↔
      items[n]? = none ∧ children = [] ∨
      ∃ listed, items[n]? = some (.arr listed) ∧ List.Forall₂ IsNode listed children
  | _, [], children => by simp [Node.childrenAt?, eq_comm]
  | 0, value :: _, children => by
    cases value with
    | arr items =>
      have listed := Node.ofJsonList?_eq_some_iff items children
      simpa [Node.childrenAt?] using listed
    | _ => simp [Node.childrenAt?]
  | n + 1, _ :: rest, children => by
    have later := Node.childrenAt?_eq_some_iff n rest children
    rwa [Node.childrenAt?, List.getElem?_cons_succ]

private theorem Node.childrenOf?_eq_some_iff :
    ∀ (members : List (String × Json)) (children : List Node),
    Node.childrenOf? members = some children ↔ Node.Holds members children
  | [], children => by simp [Node.childrenOf?, Node.Holds, eq_comm]
  | (name, value) :: rest, children => by
    by_cases here : name = "children"
    · subst here
      cases value with
      | arr items =>
        have listed := Node.ofJsonList?_eq_some_iff items children
        simpa [Node.childrenOf?, Node.Holds, List.lookup_cons] using listed
      | _ => simp [Node.childrenOf?, Node.Holds]
    · have later := Node.childrenOf?_eq_some_iff rest children
      have other : ("children" == name) = false := beq_false_of_ne (Ne.symm here)
      have skipped : Node.childrenOf? ((name, value) :: rest) = Node.childrenOf? rest := by
        cases value <;> simp [Node.childrenOf?, here]
      rw [skipped, Node.Holds, List.lookup_cons, other]
      exact later

private theorem Node.ofJsonList?_eq_some_iff : ∀ (items : List Json) (nodes : List Node),
    Node.ofJsonList? items = some nodes ↔ List.Forall₂ IsNode items nodes
  | [], nodes => by simp [Node.ofJsonList?, eq_comm]
  | value :: rest, nodes => by
    have first := Node.ofJson?_eq_some_iff value
    have later := Node.ofJsonList?_eq_some_iff rest
    simp only [Node.ofJsonList?, Option.bind_eq_bind, Option.bind_eq_some_iff, Option.pure_def,
      Option.some.injEq, first, later, List.forall₂_cons_left_iff]
    constructor
    · rintro ⟨node, here, others, each, rfl⟩
      exact ⟨node, others, here, each, rfl⟩
    · rintro ⟨node, others, here, each, rfl⟩
      exact ⟨node, here, others, each, rfl⟩

end

private theorem LineId.reads_ofJson? : Reads LineId.ofJson? IsLineId := by
  intro value l
  simp only [LineId.ofJson?, Option.bind_eq_bind, Option.bind_eq_some_iff, Option.pure_def,
    Option.some.injEq, Record.of?_eq_some_iff, Record.required?_eq_some_iff reads_text,
    Record.required?_eq_some_iff reads_word32]
  constructor
  · rintro ⟨r, fields, conversation, inConversation, line, atLine, lineId, named, rfl⟩
    exact .mk fields inConversation atLine named
  · intro h
    cases h with
    | mk fields inConversation atLine named =>
      exact ⟨⟨_⟩, fields, _, inConversation, _, atLine, _, named, rfl⟩

private theorem File.reads_ofJson? : Reads File.ofJson? IsFile := by
  have reads_nodes : Reads (list? Node.ofJson?) (IsList IsNode) :=
    Reads.list Node.ofJson?_eq_some_iff
  intro value f
  simp only [File.ofJson?, Option.bind_eq_bind, Option.bind_eq_some_iff, Option.pure_def,
    Option.some.injEq, Record.of?_eq_some_iff, Record.required?_eq_some_iff reads_text,
    Record.withDefault?_eq_some_iff reads_nodes,
    Record.withDefault?_eq_some_iff LineId.reads_ofJson?.list,
    Record.withDefault?_eq_some_iff reads_text.dict.dict]
  constructor
  · rintro ⟨r, fields, file, named, conversations, nodes, lineIds, lines, strings, texts, rfl⟩
    exact .mk fields named nodes lines texts
  · intro h
    cases h with
    | mk fields named nodes lines texts =>
      exact ⟨⟨_⟩, fields, _, named, _, nodes, _, lines, _, texts, rfl⟩

private theorem reads_ofJson? : Reads ofJson? IsBundle := by
  intro value b
  simp only [ofJson?, Option.bind_eq_bind, Option.bind_eq_some_iff, Option.pure_def,
    Option.some.injEq, Record.of?_eq_some_iff,
    Record.withDefault?_eq_some_iff File.reads_ofJson?.list]
  constructor
  · rintro ⟨r, fields, files, listed, rfl⟩
    exact .mk fields listed
  · intro h
    cases h with
    | mk fields listed => exact ⟨⟨_⟩, fields, _, listed, rfl⟩

end Bundle

private theorem Token.isToken_toJson {token : Token} (setting : Setting) (h : token.Encodable) :
    IsToken setting token.toJson token := by
  cases token with
  | bool b => exact .bool rfl
  | number x => exact .number (isNumber_ofFloat h)
  | null => exact .null (.alone "Null")
  | text s => exact .text rfl
  | «variable» name => exact .stored rfl
  | function name arity => exact .function (.obj (by simp [Once])) ⟨_, rfl, rfl⟩ ⟨_, rfl, rfl, h⟩
  | operator op arity => exact .operator (.obj (by simp [Once])) ⟨_, rfl, .alone _⟩ ⟨_, rfl, rfl, h⟩
  | group => exact .group (.alone "ParenGroup")

private theorem Expression.isExpression_toJson {tokens : Expression} (setting : Setting)
    (h : tokens.Encodable) : IsExpression setting tokens.toJson tokens :=
  isList_map fun token member => Token.isToken_toJson setting (h token member)

private theorem Command.Argument.isArgument_toJson {argument : Command.Argument} (setting : Setting)
    (h : argument.Encodable) : IsArgument setting argument.toJson argument := by
  cases argument with
  | text s => exact .text rfl
  | expression tokens => exact .expression (Expression.isExpression_toJson setting h)

private theorem Token.readable_toJson (token : Token) : token.toJson.readable = true := by
  cases token with
  | number x =>
    rw [Token.toJson, Json.ofFloat]
    split <;> rfl
  | _ => rfl

private theorem Command.Argument.readable_toJson (argument : Command.Argument) :
    argument.toJson.readable = true := by
  cases argument with
  | text s => rfl
  | expression tokens =>
    have items : readableItems (tokens.map Token.toJson) = true :=
      readableItems_map fun token _ => token.readable_toJson
    simp [toJson, Expression.toJson, readable, readableMembers, items]

namespace Bundle

private theorem Form.readable_toJson (form : Form) : form.toJson.readable = true := by
  have readable_text (s : Option String) : (Json.ofText? s).readable = true := by
    cases s <;> rfl
  cases form with
  | node name headers =>
    have members : (Json.ofDict .str headers).readable = true :=
      readable_ofDict (fun _ => rfl) headers
    simp [toJson, readable, readableMembers, members]
  | line lineId hashtags =>
    have items : readableItems (hashtags.map .str) = true := readableItems_map fun _ _ => rfl
    simp [toJson, readable, readableMembers, readable_text, items]
  | command name arguments text =>
    have items : readableItems (arguments.map Command.Argument.toJson) = true :=
      readableItems_map fun argument _ => argument.readable_toJson
    simp [toJson, readable, readableMembers, items]
  | jump destination => simp [toJson, readable, readableMembers, readable_text]
  | _ => rfl

private theorem Form.isForm_toJson {form : Form} (h : form.Encodable) :
    IsForm form.toJson form := by
  have readable := form.readable_toJson
  cases form
  all_goals refine .obj readable (by simp [Once]) ⟨_, rfl, rfl⟩ ?_
  case node name headers =>
    exact .node (.obj (by simp [Once])) ⟨_, rfl, rfl⟩
      (isDict_ofDict (F := IsText) (fun _ => rfl) headers)
  case line lineId hashtags =>
    exact .line (.obj (by simp [Once])) (isNullable_ofText? lineId)
      (isList_map (F := IsText) fun _ _ => rfl)
  case command name arguments text =>
    have applied : IsList (IsArgument .tagged)
        (.arr (arguments.map Command.Argument.toJson)) arguments :=
      isList_map fun argument member => Command.Argument.isArgument_toJson
        .tagged (h argument member)
    exact .command (.obj (by simp [Once])) ⟨_, rfl, rfl⟩ applied rfl
  case call name => exact .call (.obj (by simp [Once])) ⟨_, rfl, rfl⟩
  case jump destination => exact .jump (.obj (by simp [Once])) (isNullable_ofText? destination)
  case set name symbol => exact .set (.obj (by simp [Once])) ⟨_, rfl, rfl⟩ rfl
  case declare name => exact .declare (.obj (by simp [Once])) ⟨_, rfl, rfl⟩
  case ifBlock => exact .ifBlock (.obj (by simp [Once]))
  case ifClause clause => exact .ifClause (.obj (by simp [Once])) ⟨_, rfl, .alone _⟩
  case options => exact .options (.obj (by simp [Once]))
  case option => exact .option (.obj (by simp [Once]))

private theorem Node.toJsonList_eq_map (nodes : List Node) :
    Node.toJsonList nodes = nodes.map Node.toJson := by
  induction nodes with
  | nil => rfl
  | cons node rest ih => rw [Node.toJsonList, ih, List.map_cons]

/-- The members of a statement, those that it may lack among them. -/
def Node.members (kind line : Json) (conditions expression children : Option Json) :
    List (String × Json) :=
  [("kind", kind), ("line", line)] ++ Node.member "conditions" conditions ++
    Node.member "expression" expression ++ Node.member "children" children

private theorem Node.toJson_mk (kind : Form) (line : Nat)
    (conditions expression : Option Expression) (children : List Node) :
    (Node.mk kind line conditions expression children).toJson =
      .obj (Node.members kind.toJson (.ofNat line) (conditions.map Expression.toJson)
        (expression.map Expression.toJson)
        (if children.isEmpty then none else some (.arr (children.map Node.toJson)))) := by
  rw [Node.toJson, Node.toJsonList_eq_map, Node.members]
  cases children.isEmpty <;> rfl

section Members

variable (kind line : Json) (conditions expression children : Option Json)

private theorem Node.lookup_member (name key : String) (value : Option Json) :
    (Node.member name value).lookup key = if key = name then value else none := by
  cases value with
  | none => simp [Node.member]
  | some value =>
    by_cases same : key = name
    · simp [Node.member, same]
    · have other : (key == name) = false := beq_false_of_ne same
      simp [Node.member, List.lookup_cons, same, other]

private theorem Node.lookup_members_conditions :
    (Node.members kind line conditions expression children).lookup "conditions" = conditions := by
  simp [Node.members, List.lookup_append, List.lookup_cons, Node.lookup_member]

private theorem Node.lookup_members_expression :
    (Node.members kind line conditions expression children).lookup "expression" = expression := by
  simp [Node.members, List.lookup_append, List.lookup_cons, Node.lookup_member]

private theorem Node.lookup_members_children :
    (Node.members kind line conditions expression children).lookup "children" = children := by
  simp [Node.members, List.lookup_append, List.lookup_cons, Node.lookup_member]

/-- A statement's members have different names. -/
theorem Node.once_members :
    Once (Node.members kind line conditions expression children) Node.known := by
  have named (name : String) (value : Option Json) :
      ((Node.member name value).map Prod.fst).Sublist [name] := by
    cases value with
    | none => exact List.nil_sublist _
    | some _ => exact List.Sublist.refl _
  have names : ((Node.members kind line conditions expression children).map Prod.fst).Sublist
      Node.known := by
    simp only [Node.members, List.map_append]
    exact (((List.Sublist.refl ["kind", "line"]).append (named "conditions" conditions)).append
      (named "expression" expression)).append (named "children" children)
  have different : Node.known.Nodup := by decide
  intro name _
  exact List.nodup_iff_count_le_one.mp (names.nodup different) name

end Members

private theorem Node.isHeader_members {kind : Form} {line : Nat}
    {conditions expression : Option Expression} (children : Option Json) (form : kind.Encodable)
    (place : line < 2 ^ 32)
    (guard : ∀ tokens ∈ conditions, tokens.Encodable)
    (payload : ∀ tokens ∈ expression, tokens.Encodable) :
    IsHeader (Node.members kind.toJson (.ofNat line) (conditions.map Expression.toJson)
      (expression.map Expression.toJson) children) kind line conditions expression := by
  have optional {name : String} {members : List (String × Json)} {tokens : Option Expression}
      (found : members.lookup name = tokens.map Expression.toJson)
      (each : ∀ written ∈ tokens, written.Encodable) :
      Optional members name (IsExpression .plain) tokens := by
    unfold Optional Defaulted
    rw [found]
    cases tokens with
    | none => rfl
    | some tokens =>
      have written := Expression.isExpression_toJson .plain (each tokens rfl)
      exact .value (fun same => nomatch same) written
  exact {
    kind := ⟨_, rfl, Form.isForm_toJson form⟩
    line := ⟨rfl, place⟩
    conditions := optional (Node.lookup_members_conditions _ _ _ _ _) guard
    expression := optional (Node.lookup_members_expression _ _ _ _ _) payload }

private theorem Node.isNode_toJson {node : Node} (h : node.Encodable) :
    IsNode node.toJson node := by
  induction h with
  | @mk kind line conditions expression children form place guard payload _ ih =>
    rw [Node.toJson_mk]
    have header (held : Option Json) := Node.isHeader_members held form place guard payload
    have fields (held : Option Json) := IsRecord.obj (Node.once_members kind.toJson (.ofNat line)
      (conditions.map Expression.toJson) (expression.map Expression.toJson) held)
    cases children with
    | nil => exact .leaf (fields none) (header none) (Node.lookup_members_children _ _ _ _ _)
    | cons first rest =>
      have each : List.Forall₂ IsNode ((first :: rest).map Node.toJson) (first :: rest) :=
        List.forall₂_map_left_iff.mpr (List.forall₂_same.mpr ih)
      exact .parent (fields (some _)) (header (some _)) (Node.lookup_members_children _ _ _ _ _)
        each

private theorem File.isFile_toJson {f : File} (h : f.Encodable) : IsFile f.toJson f := by
  have nodes : IsList IsNode (.arr (Node.toJsonList f.conversations)) f.conversations := by
    rw [Node.toJsonList_eq_map]
    exact isList_map fun node member => Node.isNode_toJson (h.conversations node member)
  have lines : IsList IsLineId (.arr (f.lineIds.map LineId.toJson)) f.lineIds :=
    isList_map fun l member => .mk (.obj (by simp [Once])) ⟨_, rfl, rfl⟩
      ⟨_, rfl, rfl, h.lineIds l member⟩ ⟨_, rfl, rfl⟩
  have texts : IsDict (IsDict IsText) (.ofDict (.ofDict .str) f.strings) f.strings :=
    isDict_ofDict (isDict_ofDict (F := IsText) fun _ => rfl) f.strings
  exact .mk (.obj (by simp [Once])) ⟨_, rfl, rfl⟩ nodes lines texts

private theorem isBundle_toJson {b : Bundle} (h : b.Encodable) : IsBundle b.toJson b :=
  .mk (.obj (by simp [Once])) (isList_map fun f member => File.isFile_toJson (h f member))

end Bundle

private theorem Token.encodable_of_isToken {setting : Setting} (value : Json) (token : Token)
    (h : IsToken setting value token) : token.Encodable := by
  cases h with
  | number h => exact h.isFinite
  | function _ _ takes => exact takes.holds fun _ _ h => h.2
  | operator _ _ takes => exact takes.holds fun _ _ h => h.2
  | _ => trivial

private theorem Expression.encodable_of_isExpression {setting : Setting} (value : Json)
    (tokens : Expression) (h : IsExpression setting value tokens) : tokens.Encodable :=
  h.forall_mem Token.encodable_of_isToken

private theorem Command.Argument.encodable_of_isArgument {setting : Setting} (value : Json)
    (argument : Command.Argument) (h : IsArgument setting value argument) : argument.Encodable := by
  cases h with
  | text => trivial
  | expression h => exact Expression.encodable_of_isExpression _ _ h

namespace Bundle

private theorem Form.encodable_of_isForm (value : Json) (form : Form) (h : IsForm value form) :
    form.Encodable := by
  have encodable {content : Json} {tag : String} (kind : IsKind content tag form) :
      form.Encodable := by
    cases kind with
    | command _ _ applied _ =>
      exact applied.holds (fun _ member => nomatch member)
        fun _ _ h => h.forall_mem Command.Argument.encodable_of_isArgument
    | _ => trivial
  cases h with
  | obj _ _ _ kind => exact encodable kind
  | arr _ _ kind => exact encodable kind

mutual

private theorem Node.encodable_of_isNode :
    ∀ (node : Node) (value : Json), IsNode value node → node.Encodable
  | .mk kind line conditions expression children, value, h => by
    have encodable {members : List (String × Json)}
        (header : IsHeader members kind line conditions expression)
        (each : ∀ child ∈ children, Node.Encodable child) :
        Node.Encodable (.mk kind line conditions expression children) :=
      .mk (header.kind.holds Form.encodable_of_isForm)
        (header.line.holds (by decide) fun _ _ h => h.2)
        (header.conditions.forall_mem Expression.encodable_of_isExpression)
        (header.expression.forall_mem Expression.encodable_of_isExpression) each
    cases h with
    | leaf _ header _ => exact encodable header fun _ member => nomatch member
    | parent _ header _ each => exact encodable header (Node.encodable_of_forall₂ children _ each)

private theorem Node.encodable_of_forall₂ : ∀ (nodes : List Node) (items : List Json),
    List.Forall₂ IsNode items nodes → ∀ node ∈ nodes, node.Encodable
  | [], _, _ => fun _ member => nomatch member
  | node :: rest, _, h => by
    cases h with
    | cons here later =>
      exact List.forall_mem_cons.mpr ⟨Node.encodable_of_isNode node _ here,
        Node.encodable_of_forall₂ rest _ later⟩

end

private theorem File.encodable_of_isFile (value : Json) (f : File) (h : IsFile value f) :
    f.Encodable := by
  cases h with
  | mk _ _ conversations lineIds _ =>
    constructor
    · exact conversations.holds (fun _ member => nomatch member)
        fun _ _ h => h.forall_mem fun value node => Node.encodable_of_isNode node value
    · have inRange (value : Json) (l : LineId) (h : IsLineId value l) : l.line < 2 ^ 32 := by
        cases h with
        | mk _ _ line _ => exact line.holds fun _ _ h => h.2
      exact lineIds.holds (P := fun lineIds => ∀ l ∈ lineIds, l.line < 2 ^ 32)
        (fun _ member => nomatch member) fun _ _ h => h.forall_mem inRange

private theorem encodable_of_isBundle {value : Json} {b : Bundle} (h : IsBundle value b) :
    b.Encodable := by
  cases h with
  | mk _ files =>
    exact files.holds (fun _ member => nomatch member)
      fun _ _ h => h.forall_mem File.encodable_of_isFile

/-- Decoding accepts exactly the values that denote a bundle by the format, in which a record is an
object or the array of its fields and every field that is left out has its default. Encoding and
then decoding gives a bundle back exactly if its numbers are finite and its counts fit their words,
and so it does for every bundle that was decoded. -/
theorem format_faithful :
    (∀ b : Bundle, ofJson? b.toJson = some b ↔ b.Encodable) ∧
    (∀ (value : Json) (b : Bundle), ofJson? value = some b ↔ IsBundle value b) ∧
    ∀ (value : Json) (b : Bundle), ofJson? value = some b → ofJson? b.toJson = some b := by
  have returns : ∀ b : Bundle, ofJson? b.toJson = some b ↔ b.Encodable := by
    intro b
    rw [reads_ofJson? b.toJson b]
    exact ⟨encodable_of_isBundle, isBundle_toJson⟩
  refine ⟨returns, reads_ofJson?, ?_⟩
  intro value b decoded
  have denoted : IsBundle value b := (reads_ofJson? value b).mp decoded
  exact (returns b).mpr (encodable_of_isBundle denoted)

/-- A bundle with most of its optional fields left out, one guard empty, one token spelled with a
payload, and a file, a statement, a kind and a call of a function written as arrays. -/
def Sample.sparseJson : Json :=
  let command := Json.obj [("kind", .obj [("name", .str "give"), ("type", .str "command"),
      ("arguments", .arr [.obj [("Expression", .arr [.obj [("Bool", .bool true)]])]])]),
    ("line", .ofNat 4), ("expression", .null)]
  let assignment := Json.arr [.arr [.str "set", .str "gold"], .ofNat 5, .arr [],
    .arr [.obj [("Number", .ofFloat 0.5)], .obj [("Null", .null)],
      .obj [("Function", .arr [.str "max", .ofNat 2])]]]
  let start := Json.obj [("kind", .obj [("type", .str "node"), ("name", .str "Start")]),
    ("children", .arr [command, assignment])]
  .obj [("units", .arr [.arr [.str "a.yarn", .arr [start]]])]

def Sample.sparse : Bundle where
  files := [{
    file := "a.yarn"
    conversations := [.mk (.node "Start" .empty) 0 none none [
      .mk (.command "give" [.expression [.bool true]] "") 4 none none [],
      .mk (.set "gold" "=") 5 (some []) (some [.number 0.5, .null, .function "max" 2]) []]] }]

theorem format_faithful_sample :
    ofJson? Sample.sparseJson = some Sample.sparse ∧ IsBundle Sample.sparseJson Sample.sparse ∧
      ofJson? Sample.sparse.toJson = some Sample.sparse ∧ Sample.sparse.Encodable := by
  have decoded : ofJson? Sample.sparseJson = some Sample.sparse := by rfl
  have returned := format_faithful.2.2 Sample.sparseJson Sample.sparse decoded
  exact ⟨decoded, (format_faithful.2.1 _ _).mp decoded, returned, (format_faithful.1 _).mp returned⟩

end Bundle

end Dialogue
