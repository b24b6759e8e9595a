import Dialogue.Graph.Basic

/-!
Runs through a conversation. From an entry its normal links are tried in order, then the others. A
link whose target has no conditions, or true ones, leads there; a target with false conditions is
left out, or its own links are tried in its place. At a menu the player takes one of the normal
links that can be followed. A connector leaves the conversation.

The truth of conditions is given by entry, the choices of the player by their number among those on
offer. Whether the script of a stop ends the run is left to a flag.
-/

set_option autoImplicit false
set_option relaxedAutoImplicit false

namespace Dialogue

/-- Where a link that is followed leads: to an entry, or out of the conversation. -/
inductive Hop
  | enter (entry : Nat)
  | leave (conversation : Nat)
deriving DecidableEq, Repr

inductive Ending
  /-- There is no link to follow. -/
  | finished
  /-- The player makes no choice among those on offer. -/
  | waiting
  /-- A stop ended the run. -/
  | stopped
  /-- A connector led to another conversation. -/
  | left (conversation : Nat)
deriving DecidableEq, Repr

inductive Turn
  | follow (hop : Hop) (choices : List Nat)
  | wait
  | finish
deriving DecidableEq, Repr

/-- The turn at an entry whose normal and other links lead where they do. At a menu on which
something is on offer it is the player's. -/
def Turn.of (isMenu : Bool) (normal lower : List Hop) (choices : List Nat) : Turn :=
  if isMenu && !normal.isEmpty then
    match choices with
    | [] => .wait
    | choice :: later =>
      match normal[choice]? with
      | some hop => .follow hop later
      | none => .wait
  else
    match normal ++ lower with
    | hop :: _ => .follow hop choices
    | [] => .finish

/-- Where a link leads if it can be followed. -/
def Link.hop (l : Link) : Hop :=
  if l.isConnector then .leave l.destinationConversation else .enter l.destinationEntry

namespace Entry

/-- Where the links of a priority lead. -/
def hops (e : Entry) (priority : Priority) : List Hop :=
  (e.links.filter fun link => link.priority = priority).map Link.hop

/-- Whether an entry can be entered, given the truth of its conditions. -/
def isOpen (e : Entry) (truth : Bool) : Bool :=
  e.conditions = "" || truth

/-- Whether an entry offers choices to the player. -/
def isMenu (e : Entry) : Bool :=
  e.title = "Shortcut Option List Start"

/-- Whether the script of an entry ends the conversation. -/
def isStop (e : Entry) : Bool :=
  e.title = "Stop"

/-- Whether an entry shows or does what a statement says, rather than guide the flow. -/
def isContent (e : Entry) : Bool :=
  ["Line", "Shortcut Option Start", "Run Command", "Stop", "Call Function", "Store Variable",
    "Jump to Conversation"].contains e.title

end Entry

namespace Conversation

/-- Of the hops of a list, tried in order, those that can be made. -/
inductive Offers (c : Conversation) (truth : Nat → Bool) : List Hop → List Hop → Prop
  | nil : Offers c truth [] []
  | leave {k : Nat} {hops found : List Hop} : Offers c truth hops found →
      Offers c truth (.leave k :: hops) (.leave k :: found)
  | enter {i : Nat} {e : Entry} {hops found : List Hop} : c.entryById? i = some e →
      e.isOpen (truth i) = true → Offers c truth hops found →
      Offers c truth (.enter i :: hops) (.enter i :: found)
  | block {i : Nat} {e : Entry} {hops found : List Hop} : c.entryById? i = some e →
      e.isOpen (truth i) = false → e.falseAction = .block → Offers c truth hops found →
      Offers c truth (.enter i :: hops) found
  | skip {i : Nat} {e : Entry} {hops normal lower found : List Hop} : c.entryById? i = some e →
      e.isOpen (truth i) = false → e.falseAction = .passthrough →
      Offers c truth (e.hops .normal) normal → Offers c truth (e.hops .belowNormal) lower →
      Offers c truth hops found → Offers c truth (.enter i :: hops) (normal ++ lower ++ found)

def Turns (c : Conversation) (truth : Nat → Bool) (i : Nat) (choices : List Nat)
    (turn : Turn) : Prop :=
  ∃ e normal lower, c.entryById? i = some e ∧ c.Offers truth (e.hops .normal) normal ∧
    c.Offers truth (e.hops .belowNormal) lower ∧ turn = .of e.isMenu normal lower choices

/-- Whether a run ends when it enters an entry. -/
def haltsAt (c : Conversation) (stops : Bool) (i : Nat) : Bool :=
  stops && (c.entryById? i).any Entry.isStop

/-- A run from an entry on: the entries that it enters after it, and how it ends. -/
inductive Plays (c : Conversation) (truth : Nat → Bool) (stops : Bool) :
    Nat → List Nat → List Nat → Ending → Prop
  | enter {i j : Nat} {choices later visited : List Nat} {ending : Ending} :
      c.Turns truth i choices (.follow (.enter j) later) → c.haltsAt stops j = false →
      Plays c truth stops j later visited ending →
      Plays c truth stops i choices (j :: visited) ending
  | halt {i j : Nat} {choices later : List Nat} :
      c.Turns truth i choices (.follow (.enter j) later) → c.haltsAt stops j = true →
      Plays c truth stops i choices [j] .stopped
  | leave {i k : Nat} {choices later : List Nat} :
      c.Turns truth i choices (.follow (.leave k) later) →
      Plays c truth stops i choices [] (.left k)
  | wait {i : Nat} {choices : List Nat} : c.Turns truth i choices .wait →
      Plays c truth stops i choices [] .waiting
  | finish {i : Nat} {choices : List Nat} : c.Turns truth i choices .finish →
      Plays c truth stops i choices [] .finished

variable {c : Conversation} {truth : Nat → Bool} {stops : Bool}

private theorem Offers.unique {hops found found' : List Hop} (h : c.Offers truth hops found)
    (h' : c.Offers truth hops found') : found = found' := by
  induction h generalizing found' with
  | nil =>
    cases h'
    rfl
  | leave _ ih =>
    cases h' with
    | leave rest => rw [ih rest]
  | enter known isOpen _ ih =>
    cases h' with
    | enter _ _ rest => rw [ih rest]
    | block known' isClosed | skip known' isClosed =>
      obtain rfl := Option.some.inj (known.symm.trans known')
      simp [isOpen] at isClosed
  | block known isClosed block _ ih =>
    cases h' with
    | enter known' isOpen =>
      obtain rfl := Option.some.inj (known.symm.trans known')
      simp [isClosed] at isOpen
    | block _ _ _ rest => exact ih rest
    | skip known' _ pass =>
      obtain rfl := Option.some.inj (known.symm.trans known')
      simp [block] at pass
  | skip known isClosed pass _ _ _ ihNormal ihLower ih =>
    cases h' with
    | enter known' isOpen =>
      obtain rfl := Option.some.inj (known.symm.trans known')
      simp [isClosed] at isOpen
    | block known' _ block =>
      obtain rfl := Option.some.inj (known.symm.trans known')
      simp [pass] at block
    | skip known' _ _ normal lower rest =>
      obtain rfl := Option.some.inj (known.symm.trans known')
      rw [ihNormal normal, ihLower lower, ih rest]

private theorem Turns.unique {i : Nat} {choices : List Nat} {turn turn' : Turn}
    (h : c.Turns truth i choices turn) (h' : c.Turns truth i choices turn') : turn = turn' := by
  obtain ⟨e, normal, lower, found, hn, hl, rfl⟩ := h
  obtain ⟨e', normal', lower', found', hn', hl', rfl⟩ := h'
  obtain rfl := Option.some.inj (found.symm.trans found')
  rw [hn.unique hn', hl.unique hl']

/-- The truth of conditions and the choices of the player leave one run. -/
theorem Plays.unique {i : Nat} {choices visited visited' : List Nat} {ending ending' : Ending}
    (h : c.Plays truth stops i choices visited ending)
    (h' : c.Plays truth stops i choices visited' ending') :
    visited = visited' ∧ ending = ending' := by
  induction h generalizing visited' ending' with
  | enter turn goesOn _ ih =>
    cases h' with
    | enter turn' _ rest =>
      obtain ⟨rfl, rfl⟩ : _ ∧ _ := by simpa using turn.unique turn'
      obtain ⟨rfl, rfl⟩ := ih rest
      exact ⟨rfl, rfl⟩
    | halt turn' halts =>
      obtain ⟨rfl, rfl⟩ : _ ∧ _ := by simpa using turn.unique turn'
      simp [goesOn] at halts
    | leave turn' | wait turn' | finish turn' => simpa using turn.unique turn'
  | halt turn halts =>
    cases h' with
    | enter turn' goesOn =>
      obtain ⟨rfl, rfl⟩ : _ ∧ _ := by simpa using turn.unique turn'
      simp [halts] at goesOn
    | halt turn' =>
      obtain ⟨rfl, rfl⟩ : _ ∧ _ := by simpa using turn.unique turn'
      exact ⟨rfl, rfl⟩
    | leave turn' | wait turn' | finish turn' => simpa using turn.unique turn'
  | leave turn =>
    cases h' with
    | leave turn' =>
      obtain ⟨rfl, rfl⟩ : _ ∧ _ := by simpa using turn.unique turn'
      exact ⟨rfl, rfl⟩
    | enter turn' | halt turn' | wait turn' | finish turn' => simpa using turn.unique turn'
  | wait turn =>
    cases h' with
    | wait => exact ⟨rfl, rfl⟩
    | enter turn' | halt turn' | leave turn' | finish turn' => simpa using turn.unique turn'
  | finish turn =>
    cases h' with
    | finish => exact ⟨rfl, rfl⟩
    | enter turn' | halt turn' | leave turn' | wait turn' => simpa using turn.unique turn'

end Conversation

end Dialogue
