import Dialogue.Script.Grammar

/-!
Scripts executed as the structured programs that they are. A statement whose guard is false is
passed over. Of an if block the first clause is executed whose guard holds, or that has none; of a
menu the option that the player takes among those on offer, if there are any. A jump ends the
execution, and so does a stop if a flag says so. Guards belong to basic statements, clauses and
options: one on a node, an if block or a menu has no meaning, and neither has one on a directive,
which belongs to the entry before.

The truth of guards is given by statement. `Script.origins` lists, for each entry of the script's
conversation, the statements that it is made from. An option and the line it shows make one entry,
which has room for one guard: that of the line, if it has one. So next to `Script.execute`, where
both guards have to hold, there is `Script.executeShown`, where the guard of the line stands for
both.
-/

set_option autoImplicit false
set_option relaxedAutoImplicit false

namespace Dialogue.Script

/-- How an execution ends before the last statement. -/
inductive Halt
  | jumped (target : Target)
  | waiting
  | stopped
deriving DecidableEq

/-- A part of an execution: what is executed, the options of the menus that it comes to, the choices
that are left after it, and how it ends unless the statements that follow are executed too. -/
structure Progress where
  executed : List Nat
  met : List Tree
  choices : List Nat
  halt : Option Halt

namespace Progress

def idle (choices : List Nat) : Progress := ⟨[], [], choices, none⟩

def wait (choices : List Nat) : Progress := ⟨[], [], choices, some .waiting⟩

def single (statement : Nat) (halt : Option Halt) (choices : List Nat) : Progress :=
  ⟨[statement], [], choices, halt⟩

def meeting (options : List Tree) (p : Progress) : Progress :=
  { p with met := options ++ p.met }

/-- One part of an execution and then another. -/
def andThen (p : Progress) (next : List Nat → Progress) : Progress :=
  match p.halt with
  | some _ => p
  | none =>
    { next p.choices with
      executed := p.executed ++ (next p.choices).executed
      met := p.met ++ (next p.choices).met }

end Progress

/-- Whether the guard of a statement lets it be executed. -/
def Content.holds {κ : Type} (c : Content κ) (truth : Bool) : Bool :=
  !c.hasConditions || truth

/-- What a basic statement does when it is executed. Directives for the entry before do nothing of
their own. -/
def Basic.perform (b : Basic) (stops : Bool) (statement : Nat) (choices : List Nat) : Progress :=
  match b with
  | .command name _ _ =>
    match Command.Kind.ofName name with
    | .wait => .idle choices
    | .playSequence => .idle choices
    | .stop => .single statement (if stops then some .stopped else none) choices
    | .custom => .single statement none choices
  | .jump target => .single statement (some (.jumped target)) choices
  | _ => .single statement none choices

namespace Tree

/-- Whether an option is on offer: its guard holds, and that of the line it shows. -/
def isOffered (truth : Nat → Bool) : Tree → Bool
  | .node id option [] => option.holds (truth id)
  | .node id option (.node lineId shown _ :: _) =>
    option.holds (truth id) && shown.holds (truth lineId)

/-- Whether an option is shown: the guard of its line holds, or its own if the line has none. -/
def isShown (truth : Nat → Bool) : Tree → Bool
  | .node id option [] => option.holds (truth id)
  | .node id option (.node lineId shown _ :: _) =>
    if shown.hasConditions then truth lineId else option.holds (truth id)

/-- Whether an option is shown although its own guard is false. -/
def isOverridden (truth : Nat → Bool) (t : Tree) : Bool :=
  t.isShown truth && !t.isOffered truth

private theorem isShown_of_isOffered {truth : Nat → Bool} {t : Tree}
    (offered : t.isOffered truth = true) :
    t.isShown truth = true := by
  obtain ⟨id, option, _ | ⟨⟨lineId, shown, below⟩, following⟩⟩ := t
  · exact offered
  · obtain ⟨own, line⟩ := Bool.and_eq_true_iff.mp offered
    cases guarded : shown.hasConditions with
    | false => simpa [isShown, guarded] using own
    | true => simpa [isShown, guarded, Content.holds] using line

private theorem isOffered_eq_isShown {truth : Nat → Bool} {t : Tree}
    (kept : t.isOverridden truth = false) : t.isOffered truth = t.isShown truth := by
  cases offered : t.isOffered truth with
  | true => exact (isShown_of_isOffered offered).symm
  | false => simpa [isOverridden, offered] using kept.symm

mutual

def execute (offers : Tree → Bool) (truth : Nat → Bool) (stops : Bool) (choices : List Nat) :
    Tree → Progress
  | .node id content children =>
    match content.kind with
    | .basic b => if content.holds (truth id) then b.perform stops id choices else .idle choices
    | .block .ifBlock => executeClauses offers truth stops choices children
    | .block .options => .meeting children
      (if children.any offers then
        match choices with
        | [] => .wait []
        | choice :: later => executeChoice offers truth stops choice later children
      else .idle choices)
    | .block _ => .idle choices

def executeList (offers : Tree → Bool) (truth : Nat → Bool) (stops : Bool) (choices : List Nat) :
    List Tree → Progress
  | [] => .idle choices
  | t :: rest => (execute offers truth stops choices t).andThen fun later =>
    executeList offers truth stops later rest

/-- Execute the first clause whose guard holds. -/
def executeClauses (offers : Tree → Bool) (truth : Nat → Bool) (stops : Bool)
    (choices : List Nat) : List Tree → Progress
  | [] => .idle choices
  | .node id content body :: rest =>
    if content.holds (truth id) then executeList offers truth stops choices body
    else executeClauses offers truth stops choices rest

/-- Execute the option with a number among those on offer. -/
def executeChoice (offers : Tree → Bool) (truth : Nat → Bool) (stops : Bool) (choice : Nat)
    (choices : List Nat) : List Tree → Progress
  | [] => .wait choices
  | t :: rest =>
    if offers t then
      match choice with
      | 0 => executeOption offers truth stops choices t
      | choice + 1 => executeChoice offers truth stops choice choices rest
    else executeChoice offers truth stops choice choices rest

/-- Execute an option: the line it shows, then what follows. -/
def executeOption (offers : Tree → Bool) (truth : Nat → Bool) (stops : Bool)
    (choices : List Nat) : Tree → Progress
  | .node _ _ [] => .idle choices
  | .node _ _ (.node lineId _ _ :: body) =>
    (Progress.single lineId none choices).andThen fun later =>
      executeList offers truth stops later body

end

abbrev Origin := Nat × Content Kind

/-- What the entries of a basic statement are made from. The second entry of a jump is made from no
statement, and a directive has no entry. -/
def basicOrigins (origin : Origin) : Basic → List (List Origin)
  | .command name _ _ =>
    match Command.Kind.ofName name with
    | .wait => []
    | .playSequence => []
    | .stop => [[origin]]
    | .custom => [[origin]]
  | .jump _ => [[origin], []]
  | _ => [[origin]]

mutual

/-- What the entries of a statement are made from, in the order of the entries. -/
def origins : Tree → List (List Origin)
  | .node id content children =>
    match content.kind with
    | .basic b => basicOrigins (id, content) b
    | .block .ifBlock => [] :: [] :: clauseOrigins children
    | .block .options => [] :: [] :: optionOrigins children
    | .block _ => []

/-- What the entries of a body are made from. -/
def originsList : List Tree → List (List Origin)
  | [] => []
  | t :: rest => origins t ++ originsList rest

/-- What the entries of clauses are made from. The first entry of a clause has its guard; its last
one, and its fallback if it is guarded, are made from no statement. -/
def clauseOrigins : List Tree → List (List Origin)
  | [] => []
  | .node id content body :: rest =>
    [(id, content)] :: [] :: (originsList body ++
      ((if content.hasConditions then [[]] else []) ++ clauseOrigins rest))

/-- What the entries of options are made from. The first entry of an option is made from the option
and from the line it shows. -/
def optionOrigins : List Tree → List (List Origin)
  | [] => []
  | .node _ _ [] :: rest => optionOrigins rest
  | .node id option (.node lineId shown _ :: body) :: rest =>
    [(id, option), (lineId, shown)] :: (originsList body ++ optionOrigins rest)

end

/-- No jump among basic statements is guarded. -/
def JumpsUnguarded (leaves : List Origin) : Prop :=
  ∀ leaf ∈ leaves, ∀ target, leaf.2.kind = .basic (.jump target) → leaf.2.hasConditions = false

/-- Of the statements that an entry is made from, the one whose guard it has. -/
def guarding? (origin : List Origin) : Option Origin :=
  (origin.filter fun statement => statement.2.hasConditions).getLast?

section Agreement

variable {offers offers' : Tree → Bool} {truth : Nat → Bool} {stops : Bool}

private theorem forall_met_of_andThen {p : Progress} {next : List Nat → Progress}
    {good : Tree → Prop} (h : ∀ t ∈ (p.andThen next).met, good t) :
    (∀ t ∈ p.met, good t) ∧ (p.halt = none → ∀ t ∈ (next p.choices).met, good t) := by
  unfold Progress.andThen at h
  split at h
  · next halted => exact ⟨h, fun goesOn => by rw [halted] at goesOn; cases goesOn⟩
  · exact ⟨fun t member => h t (List.mem_append_left _ member),
      fun _ t member => h t (List.mem_append_right _ member)⟩

private theorem andThen_congr {p p' : Progress} {next next' : List Nat → Progress}
    (first : p' = p) (second : p.halt = none → next' p.choices = next p.choices) :
    p'.andThen next' = p.andThen next := by
  subst first
  unfold Progress.andThen
  split
  · rfl
  · next goesOn => rw [second goesOn]

mutual

private theorem execute_congr : ∀ (t : Tree) (choices : List Nat),
    (∀ option ∈ (execute offers truth stops choices t).met, offers option = offers' option) →
    execute offers' truth stops choices t = execute offers truth stops choices t
  | .node id content children, choices, same => by
    cases kind : content.kind with
    | basic b => simp only [execute, kind]
    | block b =>
      cases b with
      | node name headers | ifClause clause | option => simp only [execute, kind]
      | ifBlock =>
        simp only [execute, kind] at same ⊢
        exact executeClauses_congr children choices same
      | options =>
        simp only [execute, kind] at same ⊢
        have listed : ∀ option ∈ children, offers option = offers' option :=
          fun option member => same option (List.mem_append_left _ member)
        have offered : children.any offers' = children.any offers := by
          rw [Bool.eq_iff_iff, List.any_eq_true, List.any_eq_true]
          exact exists_congr fun option =>
            and_congr_right fun member => by rw [listed option member]
        rw [offered]
        refine congrArg _ (ite_congr rfl (fun some => ?_) fun _ => rfl)
        rw [if_pos some] at same
        cases choices with
        | nil => rfl
        | cons choice later =>
          exact executeChoice_congr children choice later listed
            fun option member => same option (List.mem_append_right _ member)

private theorem executeList_congr : ∀ (ts : List Tree) (choices : List Nat),
    (∀ option ∈ (executeList offers truth stops choices ts).met, offers option = offers' option) →
    executeList offers' truth stops choices ts = executeList offers truth stops choices ts
  | [], _, _ => rfl
  | t :: rest, choices, same => by
    rw [executeList] at same
    obtain ⟨first, second⟩ := forall_met_of_andThen same
    rw [executeList, executeList]
    exact andThen_congr (execute_congr t choices first)
      fun goesOn => executeList_congr rest _ (second goesOn)

private theorem executeClauses_congr : ∀ (ts : List Tree) (choices : List Nat),
    (∀ option ∈ (executeClauses offers truth stops choices ts).met,
      offers option = offers' option) →
    executeClauses offers' truth stops choices ts = executeClauses offers truth stops choices ts
  | [], _, _ => rfl
  | .node id content body :: rest, choices, same => by
    rw [executeClauses] at same
    rw [executeClauses, executeClauses]
    split at same
    · next holds =>
      rw [if_pos holds, if_pos holds]
      exact executeList_congr body choices same
    · next fails =>
      rw [if_neg fails, if_neg fails]
      exact executeClauses_congr rest choices same

private theorem executeChoice_congr : ∀ (ts : List Tree) (choice : Nat) (choices : List Nat),
    (∀ option ∈ ts, offers option = offers' option) →
    (∀ option ∈ (executeChoice offers truth stops choice choices ts).met,
      offers option = offers' option) →
    executeChoice offers' truth stops choice choices ts =
      executeChoice offers truth stops choice choices ts
  | [], _, _, _, _ => by rw [executeChoice, executeChoice]
  | t :: rest, choice, choices, listed, same => by
    obtain ⟨here, others⟩ := List.forall_mem_cons.mp listed
    cases offered : offers t with
    | false =>
      rw [offered] at here
      simp only [executeChoice, offered, ← here, Bool.false_eq_true, if_false] at same ⊢
      exact executeChoice_congr rest choice choices others same
    | true =>
      rw [offered] at here
      simp only [executeChoice, offered, ← here, if_true] at same ⊢
      cases choice with
      | zero => exact executeOption_congr t choices same
      | succ choice => exact executeChoice_congr rest choice choices others same

private theorem executeOption_congr : ∀ (t : Tree) (choices : List Nat),
    (∀ option ∈ (executeOption offers truth stops choices t).met,
      offers option = offers' option) →
    executeOption offers' truth stops choices t = executeOption offers truth stops choices t
  | .node _ _ [], _, _ => by rw [executeOption, executeOption]
  | .node _ _ (.node lineId _ _ :: body), choices, same => by
    rw [executeOption] at same
    rw [executeOption, executeOption]
    exact andThen_congr rfl
      fun goesOn => executeList_congr body _ ((forall_met_of_andThen same).2 goesOn)

end

end Agreement

end Tree

/-- What the entries of a script's conversation are made from. The entry where it starts is made
from no statement. -/
def origins (s : Script) : List (List Tree.Origin) :=
  [] :: Tree.originsList s.tree.children

def statementAt? (s : Script) (entry : Nat) : Option Nat :=
  ((s.origins[entry]?).bind List.getLast?).map Prod.fst

/-- The truth of conditions by entry and the truth of guards by statement agree: an entry has its
truth from the statement whose guard it has. -/
def Shares (s : Script) (entryTruth truth : Nat → Bool) : Prop :=
  ∀ entry origin statement, s.origins[entry]? = some origin →
    Tree.guarding? origin = some statement → entryTruth entry = truth statement.1

/-- The truth of conditions by entry that a truth of guards by statement gives. -/
def entryTruth (s : Script) (truth : Nat → Bool) (entry : Nat) : Bool :=
  (s.origins[entry]?.bind Tree.guarding?).all fun statement => truth statement.1

theorem shares_entryTruth (s : Script) (truth : Nat → Bool) :
    s.Shares (s.entryTruth truth) truth := by
  intro entry origin statement found guarding
  rw [entryTruth, found, Option.bind_some, guarding, Option.all_some]

def JumpsUnguarded (s : Script) : Prop :=
  Tree.JumpsUnguarded s.tree.leaves

/-- Execute a script. An option is on offer if its guard holds and that of its line. -/
def execute (s : Script) (truth : Nat → Bool) (stops : Bool) (choices : List Nat) : Progress :=
  Tree.executeList (Tree.isOffered truth) truth stops choices s.tree.children

/-- Execute a script in which the guard of a line stands for that of its option. -/
def executeShown (s : Script) (truth : Nat → Bool) (stops : Bool) (choices : List Nat) :
    Progress :=
  Tree.executeList (Tree.isShown truth) truth stops choices s.tree.children

/-- As long as an execution comes to no option that is shown although its own guard is false, the
guard of the line may stand for both. -/
theorem executeShown_eq {s : Script} {truth : Nat → Bool} {stops : Bool} {choices : List Nat}
    (kept : ∀ option ∈ (s.execute truth stops choices).met, option.isOverridden truth = false) :
    s.executeShown truth stops choices = s.execute truth stops choices :=
  Tree.executeList_congr s.tree.children choices
    fun option member => Tree.isOffered_eq_isShown (kept option member)

end Dialogue.Script
