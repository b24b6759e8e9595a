import Dialogue.Proofs.ControlFlow
import Dialogue.Proofs.Posts

/-!
The shape of a lowered conversation. Its inner links make an acyclic graph with one entry and one
exit: every entry is on a way from the start to the entry that the lowering ends with. How many
inner links an entry has follows from its post.

Ends are created before the bodies that lead to them, so links do not go from lower to higher
numbers. Instead, `Conversation.LeadsTo` says of an entry that all ways from it lead to another one,
and is put together along the wiring.
-/

set_option autoImplicit false
set_option relaxedAutoImplicit false

namespace Dialogue

open Relation Script

/-- The entries that the inner links of an entry lead to. -/
def Entry.successors (e : Entry) : List Nat :=
  (e.links.filter fun l => !l.isConnector).map Link.destinationEntry

/-- The entry that a hop leads to, unless it leaves the conversation. -/
def Hop.entry? : Hop → Option Nat
  | .enter i => some i
  | .leave _ => none

def Ways.successors (w : Ways) : List Nat :=
  (w.normal ++ w.lower).filterMap Hop.entry?

private theorem Entry.successors_perm (e : Entry) : e.successors.Perm e.ways.successors := by
  have listed : e.successors = e.links.filterMap fun l => l.hop.entry? := by
    rw [Entry.successors, ← List.filterMap_eq_map, List.filterMap_filter]
    congr 1
    funext l
    cases connector : l.isConnector <;> simp [Link.hop, Hop.entry?, connector]
  have below : (fun l : Link => decide (l.priority = .belowNormal)) =
      fun l => !decide (l.priority = .normal) := by
    funext l
    cases l.priority <;> rfl
  rw [listed, Ways.successors, Entry.ways, Entry.hops, Entry.hops, below, ← List.map_append,
    List.filterMap_map]
  exact (List.filter_append_perm _ e.links).symm.filterMap _

namespace Conversation

variable {c : Conversation}

/-- An inner link leads from one entry to another. -/
def LinksTo (c : Conversation) (i j : Nat) : Prop :=
  ∃ e, c.entryById? i = some e ∧ j ∈ e.successors

/-- The number of inner links of an entry. -/
def outDegree? (c : Conversation) (i : Nat) : Option Nat :=
  (c.entryById? i).map fun e => e.successors.length

private theorem linksTo_iff {i : Nat} {w : Ways} (h : c.waysAt? i = some w) (j : Nat) :
    c.LinksTo i j ↔ j ∈ w.successors := by
  obtain ⟨e, found, rfl⟩ := Option.map_eq_some_iff.mp h
  constructor
  · rintro ⟨e', found', member⟩
    obtain rfl := Option.some.inj (found.symm.trans found')
    exact e.successors_perm.mem_iff.mp member
  · intro member
    exact ⟨e, found, e.successors_perm.mem_iff.mpr member⟩

private theorem outDegree?_of_ways {i : Nat} {w : Ways} (h : c.waysAt? i = some w) :
    c.outDegree? i = some w.successors.length := by
  obtain ⟨e, found, rfl⟩ := Option.map_eq_some_iff.mp h
  rw [outDegree?, found, Option.map_some, e.successors_perm.length_eq]

/-- All ways from an entry lead to an entry `x`. -/
inductive LeadsTo (c : Conversation) (x : Nat) : Nat → Prop
  | here : LeadsTo c x x
  | step {i : Nat} {w : Ways} : c.waysAt? i = some w → w.successors ≠ [] →
      (∀ j ∈ w.successors, LeadsTo c x j) → LeadsTo c x i

namespace LeadsTo

variable {x y i j : Nat}

private theorem trans (first : c.LeadsTo y i) (second : c.LeadsTo x y) : c.LeadsTo x i := by
  induction first with
  | here => exact second
  | step ways some _ ih => exact .step ways some ih

private theorem only (ways : c.waysAt? i = some (.only j)) (next : c.LeadsTo x j) :
    c.LeadsTo x i := by
  refine .step ways (List.cons_ne_nil j []) ?_
  intro k member
  obtain rfl := List.mem_singleton.mp member
  exact next

private theorem reaches (h : c.LeadsTo x i) : ReflTransGen c.LinksTo i x := by
  induction h with
  | here => exact .refl
  | @step i w ways some _ ih =>
    obtain ⟨j, member⟩ := List.exists_mem_of_ne_nil _ some
    exact .head ((linksTo_iff ways j).mpr member) (ih j member)

/-- If nothing follows `x`, then an entry whose ways lead there is on no cycle. -/
theorem not_cycle (last : c.waysAt? x = some .loose) (h : c.LeadsTo x i) :
    ¬ TransGen c.LinksTo i i := by
  induction h with
  | here =>
    intro cycle
    obtain ⟨j, link, -⟩ := TransGen.head'_iff.mp cycle
    have member := (linksTo_iff last j).mp link
    cases member
  | step ways _ _ ih =>
    intro cycle
    obtain ⟨j, link, back⟩ := TransGen.head'_iff.mp cycle
    exact ih j ((linksTo_iff ways j).mp link) (TransGen.tail' back link)

end LeadsTo

private theorem linksTo_only {i j : Nat} (ways : c.waysAt? i = some (.only j)) : c.LinksTo i j :=
  (linksTo_iff ways j).mpr List.mem_cons_self

/-- The entries from `base` on, so many of them, lie between two entries: they are reached from the
first, and all ways from them and from the first lead to the second. -/
structure Spans (c : Conversation) (base count pred exit : Nat) : Prop where
  leads : ∀ i, i = pred ∨ base ≤ i ∧ i < base + count → c.LeadsTo exit i
  reached : ∀ i, base ≤ i → i < base + count → ReflTransGen c.LinksTo pred i

namespace Spans

variable {base count pred exit i : Nat}

private theorem nil : c.Spans base 0 exit exit where
  leads i place := by
    obtain rfl : i = exit := by omega
    exact .here
  reached i low high := by omega

private theorem single (ways : c.waysAt? pred = some (.only exit)) : c.Spans base 0 pred exit where
  leads i place := by
    obtain rfl : i = pred := by omega
    exact .only ways .here
  reached i low high := by omega

/-- What lies between two entries, and then what lies between the second and a third. -/
theorem append {middle more : Nat} (first : c.Spans base count pred middle)
    (second : c.Spans (base + count) more middle exit) : c.Spans base (count + more) pred exit where
  leads i place := by
    by_cases early : i = pred ∨ base ≤ i ∧ i < base + count
    · exact (first.leads i early).trans (second.leads middle (.inl rfl))
    · exact second.leads i (.inr (by omega))
  reached i low high := by
    by_cases early : i < base + count
    · exact first.reached i low early
    · exact (first.leads pred (.inl rfl)).reaches.trans (second.reached i (by omega) (by omega))

/-- The body of a clause with the two entries around it, of which the second is created first. -/
theorem arm {start finish last : Nat} (body : c.Spans (start + 2) count start last)
    (close : c.waysAt? last = some (.only (start + 1)))
    (leave : c.waysAt? (start + 1) = some (.only finish)) (low : start ≤ i)
    (high : i < start + 2 + count) :
    c.LeadsTo finish i ∧ ReflTransGen c.LinksTo start i := by
  have ends : c.LeadsTo finish (start + 1) := .only leave .here
  by_cases closing : i = start + 1
  · subst closing
    refine ⟨ends, ?_⟩
    exact (body.leads start (.inl rfl)).reaches.tail (linksTo_only close)
  · refine ⟨(body.leads i (by omega)).trans (.only close ends), ?_⟩
    by_cases opening : i = start
    · subst opening
      exact .refl
    · exact body.reached i (by omega) high

end Spans

variable {targets : Dict Nat}

private theorem spans_basic {s : Content Basic} {base pred exit : Nat}
    (wired : c.WiredBasic targets base pred s exit) : c.Spans base s.kind.entryCount pred exit := by
  cases wired with
  | directive none =>
    rw [none]
    exact .nil
  | entry one ways stand =>
    rw [one]
    refine ⟨fun i place => ?_, fun i low high => ?_⟩
    · rcases place with rfl | place
      · exact .only ways .here
      · obtain rfl : i = base := by omega
        exact .here
    · obtain rfl : i = base := by omega
      exact .single (linksTo_only ways)
  | jump kind known ways stand atJump placeholder =>
    have count : s.kind.entryCount = 2 := by rw [kind]; rfl
    have next : c.LeadsTo (base + 1) base := by
      refine .step atJump (List.cons_ne_nil (base + 1) []) ?_
      intro j member
      obtain rfl := List.mem_singleton.mp member
      exact .here
    have link : c.LinksTo base (base + 1) := (linksTo_iff atJump _).mpr List.mem_cons_self
    rw [count]
    refine ⟨fun i place => ?_, fun i low high => ?_⟩
    · rcases place with rfl | place
      · exact .only ways next
      · obtain rfl | rfl : i = base ∨ i = base + 1 := by omega
        · exact next
        · exact .here
    · obtain rfl | rfl : i = base ∨ i = base + 1 := by omega
      · exact .single (linksTo_only ways)
      · exact .head (linksTo_only ways) (.single link)

/-- The last clause of a branch, behind the fallback before it. -/
theorem spans_last {body : List Item} {base previous finish : Nat}
    (wired : c.WiredLast targets base (some body))
    (linked : ArmsLinked c.waysAt? finish previous (Scene.lastArm base (some body)))
    (ih : ∀ {last : Nat}, c.WiredBody targets (base + 2) base last body →
      c.Spans (base + 2) (bodyCount body) base last) :
    c.Spans base (Scene.otherwiseCount (some body)) previous finish := by
  obtain ⟨-, -, last, wiredBody, close⟩ := wired
  obtain ⟨enter, leave⟩ := linked
  have inside := fun i => (ih wiredBody).arm (i := i) close leave
  rw [Scene.otherwiseCount]
  refine ⟨fun i place => ?_, fun i low high => ?_⟩
  · rcases place with rfl | ⟨low, high⟩
    · exact .only enter (inside base (Nat.le_refl _) (by omega)).1
    · exact (inside i low (by omega)).1
  · exact .head (linksTo_only enter) (inside i low (by omega)).2

/-- A guarded clause with its fallback, and the clauses behind the fallback. -/
theorem spans_clause {base previous finish fallback last more : Nat} {body : List Item}
    (found : fallback = base + 2 + bodyCount body)
    (spansBody : c.Spans (base + 2) (bodyCount body) base last)
    (close : c.waysAt? last = some (.only (base + 1)))
    (leave : c.waysAt? (base + 1) = some (.only finish))
    (enter : c.waysAt? previous = some ⟨false, [.enter base], [.enter fallback]⟩)
    (others : c.Spans (fallback + 1) more fallback finish) :
    c.Spans base (3 + bodyCount body + more) previous finish := by
  have inside := fun i => spansBody.arm (i := i) close leave
  have toClause : c.LinksTo previous base :=
    (linksTo_iff enter _).mpr (by simp [Ways.successors, Hop.entry?])
  have toFallback : c.LinksTo previous fallback :=
    (linksTo_iff enter _).mpr (by simp [Ways.successors, Hop.entry?])
  refine ⟨fun i place => ?_, fun i low high => ?_⟩
  · rcases place with rfl | ⟨low, high⟩
    · refine .step enter (List.cons_ne_nil base [fallback]) ?_
      intro j member
      rcases List.mem_cons.mp member with rfl | member
      · exact (inside j (Nat.le_refl _) (by omega)).1
      · obtain rfl := List.mem_singleton.mp member
        exact others.leads j (.inl rfl)
    · by_cases early : i < fallback
      · exact (inside i low (by omega)).1
      · exact others.leads i (by omega)
  · by_cases early : i < fallback
    · exact .head toClause (inside i low (by omega)).2
    · by_cases here : i = fallback
      · subst here
        exact .single toFallback
      · exact .head toFallback (others.reached i (by omega) (by omega))

/-- A choice, from the start of its menu to the end. -/
theorem spans_choice {base start finish last more : Nat} {body : List Item}
    (spansBody : c.Spans (base + 1) (bodyCount body) base last)
    (close : c.waysAt? last = some (.only finish)) (offered : c.LinksTo start base)
    (others : ∀ i, base + 1 + bodyCount body ≤ i → i < base + 1 + bodyCount body + more →
      c.LeadsTo finish i ∧ ReflTransGen c.LinksTo start i) (i : Nat) (low : base ≤ i)
    (high : i < base + (1 + bodyCount body + more)) :
    c.LeadsTo finish i ∧ ReflTransGen c.LinksTo start i := by
  have ends : c.LeadsTo finish last := .only close .here
  by_cases head : i = base
  · subst head
    exact ⟨(spansBody.leads i (.inl rfl)).trans ends, .single offered⟩
  · by_cases early : i < base + 1 + bodyCount body
    · exact ⟨(spansBody.leads i (by omega)).trans ends,
        .head offered (spansBody.reached i (by omega) early)⟩
    · exact others i (by omega) (by omega)

private theorem mem_heads : ∀ {choices : List Choice} {base j : Nat}, j ∈ heads base choices →
    base ≤ j ∧ j < base + choicesCount choices
  | [], _, _, member => by cases member
  | .mk _ _ body :: rest, base, j, member => by
    rw [choicesCount]
    rcases List.mem_cons.mp member with rfl | member
    · omega
    · have bounds := mem_heads member
      omega

private theorem length_heads : ∀ (choices : List Choice) (base : Nat),
    (heads base choices).length = choices.length
  | [], _ => rfl
  | .mk _ _ body :: rest, base => by rw [heads, List.length_cons,
      List.length_cons, length_heads rest]

private theorem successors_menu (choices : List Choice) (base : Nat) :
    Ways.successors ⟨true, (heads (base + 2) choices).map .enter,
        if choices.all Scene.isGuarded then [.enter (base + 1)] else []⟩ =
      heads (base + 2) choices ++ if choices.all Scene.isGuarded then [base + 1] else [] := by
  have entered : ((heads (base + 2) choices).map Hop.enter).filterMap Hop.entry? =
      heads (base + 2) choices := by
    rw [List.filterMap_map]
    exact List.filterMap_some
  rw [Ways.successors, List.filterMap_append, entered]
  split <;> rfl

/-- A menu whose choices lie between its start and its end. -/
theorem spans_menu {choices : List Choice} {base pred exit : Nat}
    (wired : c.WiredItem targets base pred exit (.menu choices))
    (inside : (∀ j ∈ heads (base + 2) choices, c.LinksTo base j) →
      ∀ i, base + 2 ≤ i → i < base + 2 + choicesCount choices →
        c.LeadsTo (base + 1) i ∧ ReflTransGen c.LinksTo base i) :
    c.Spans base (2 + choicesCount choices) pred exit := by
  obtain ⟨rfl, enter, -, -, ways, -⟩ := wired
  have successors := successors_menu choices base
  have offered : ∀ j ∈ heads (base + 2) choices, c.LinksTo base j := by
    intro j member
    rw [linksTo_iff ways, successors]
    exact List.mem_append_left _ member
  have leads : c.LeadsTo (base + 1) base := by
    refine .step ways ?_ ?_
    · rw [successors]
      cases choices with
      | nil => exact List.cons_ne_nil _ _
      | cons choice rest =>
        obtain ⟨option, shown, body⟩ := choice
        exact List.cons_ne_nil _ _
    · intro j member
      rw [successors] at member
      rcases List.mem_append.mp member with member | member
      · have bounds := mem_heads member
        exact (inside offered j bounds.1 bounds.2).1
      · obtain rfl : j = base + 1 := by
          split at member
          · exact List.mem_singleton.mp member
          · cases member
        exact .here
  refine ⟨fun i place => ?_, fun i low high => ?_⟩
  · rcases place with rfl | ⟨low, high⟩
    · exact .only enter leads
    · obtain rfl | rfl | later : i = base ∨ i = base + 1 ∨ base + 2 ≤ i := by omega
      · exact leads
      · exact .here
      · exact (inside offered i later (by omega)).1
  · refine .head (linksTo_only enter) ?_
    obtain rfl | rfl | later : i = base ∨ i = base + 1 ∨ base + 2 ≤ i := by omega
    · exact .refl
    · exact leads.reaches
    · exact (inside offered i later (by omega)).2

private theorem arms_ne_nil {clauses : List Clause} {otherwise : Option (List Item)} {base : Nat}
    (filled : clauses ≠ []) : arms base clauses otherwise ≠ [] := by
  obtain ⟨⟨line, guard, body⟩, rest, rfl⟩ := List.exists_cons_of_ne_nil filled
  exact List.cons_ne_nil _ _

/-- A branch whose clauses lie between its start and its end. -/
theorem spans_branch {clauses : List Clause} {otherwise : Option (List Item)} {base pred exit : Nat}
    (wired : c.WiredItem targets base pred exit (.branch clauses otherwise)) (filled : clauses ≠ [])
    (inside : ArmsLinked c.waysAt? (base + 1) base (arms base clauses otherwise) →
      c.Spans (base + 2) (clausesCount clauses + Scene.otherwiseCount otherwise) base (base + 1)) :
    c.Spans base (Item.branch clauses otherwise).entryCount pred exit := by
  obtain ⟨rfl, enter, -, -, -, -, linked⟩ := wired
  have spans := inside (linked (arms_ne_nil filled))
  have leads := spans.leads base (.inl rfl)
  rw [Scene.entryCount_branch]
  refine ⟨fun i place => ?_, fun i low high => ?_⟩
  · rcases place with rfl | ⟨low, high⟩
    · exact .only enter leads
    · obtain rfl | rfl | later : i = base ∨ i = base + 1 ∨ base + 2 ≤ i := by omega
      · exact leads
      · exact .here
      · exact spans.leads i (.inr (by omega))
  · refine .head (linksTo_only enter) ?_
    obtain rfl | rfl | later : i = base ∨ i = base + 1 ∨ base + 2 ≤ i := by omega
    · exact .refl
    · exact leads.reaches
    · exact spans.reached i later (by omega)

mutual

private theorem spans_item : ∀ (item : Item) {base pred exit : Nat}, item.Opens →
    c.WiredItem targets base pred exit item → c.Spans base item.entryCount pred exit
  | .basic s, base, pred, exit, _, wired => spans_basic wired
  | .branch clauses none, base, pred, exit, opens, wired => by
    have ⟨_, _, _, _, wiredClauses, _, _⟩ := wired
    refine spans_branch wired opens.1 fun linked => ?_
    exact spans_clauses clauses opens.2 wiredClauses linked fun linked => .single linked
  | .branch clauses (some body), base, pred, exit, opens, wired => by
    have ⟨_, _, _, _, wiredClauses, wiredLast, _⟩ := wired
    refine spans_branch wired opens.1 fun linked => ?_
    refine spans_clauses clauses opens.2.1 wiredClauses linked fun linked => ?_
    exact spans_last wiredLast linked (spans_body body opens.2.2)
  | .menu choices, base, pred, exit, opens, wired => by
    have ⟨_, _, _, _, _, wiredChoices⟩ := wired
    exact spans_menu wired (spans_choices choices opens wiredChoices)

private theorem spans_body : ∀ (items : List Item) {base pred exit : Nat}, BodyOpens items →
    c.WiredBody targets base pred exit items → c.Spans base (bodyCount items) pred exit
  | [], base, pred, exit, _, wired => by
    obtain rfl : exit = pred := wired
    exact .nil
  | item :: rest, base, pred, exit, opens, wired => by
    obtain ⟨middle, first, others⟩ := wired
    exact (spans_item item opens.1 first).append (spans_body rest opens.2 others)

private theorem spans_clauses : ∀ (clauses : List Clause) {otherwise : Option (List Item)}
    {base previous finish : Nat}, ClausesOpen clauses → c.WiredClauses targets base clauses →
    ArmsLinked c.waysAt? finish previous
      (Scene.armsFrom base clauses ++ Scene.lastArm (base + clausesCount clauses) otherwise) →
    (∀ {previous : Nat}, ArmsLinked c.waysAt? finish previous
        (Scene.lastArm (base + clausesCount clauses) otherwise) →
      c.Spans (base + clausesCount clauses) (Scene.otherwiseCount otherwise) previous finish) →
    c.Spans base (clausesCount clauses + Scene.otherwiseCount otherwise) previous finish
  | [], otherwise, base, previous, finish, _, _, linked, last => by
    rw [clausesCount, Nat.zero_add]
    exact last linked
  | .mk line guard body :: rest, otherwise, base, previous, finish, opens, wired, linked, last => by
    obtain ⟨-, -, -, ⟨exit, wiredBody, close⟩, wiredRest⟩ := wired
    obtain ⟨enter, leave, linkedRest⟩ := linked
    have next : base + 3 + bodyCount body = base + 2 + bodyCount body + 1 := by omega
    rw [add_clausesCount_cons] at linkedRest last
    have others := spans_clauses rest opens.2 wiredRest linkedRest last
    rw [next] at others
    rw [clausesCount, Nat.add_assoc (3 + bodyCount body)]
    exact spans_clause rfl (spans_body body opens.1 wiredBody) close leave enter others

private theorem spans_choices : ∀ (choices : List Choice) {base start finish : Nat},
    ChoicesOpen choices →
    c.WiredChoices targets finish base choices → (∀ j ∈ heads base choices, c.LinksTo start j) →
    ∀ i, base ≤ i → i < base + choicesCount choices →
      c.LeadsTo finish i ∧ ReflTransGen c.LinksTo start i
  | [], base, start, finish, _, _, _ => by
    intro i low high
    rw [choicesCount] at high
    omega
  | .mk option shown body :: rest, base, start, finish, opens, wired, offered => by
    obtain ⟨-, ⟨exit, wiredBody, close⟩, wiredRest⟩ := wired
    rw [choicesCount]
    refine spans_choice (spans_body body opens.1 wiredBody) close
      (offered base List.mem_cons_self) ?_
    exact spans_choices rest opens.2 wiredRest fun j member =>
      offered j (List.mem_cons_of_mem _ member)

end

end Conversation

/-- The number of inner links of the entry at a post, unless the conversation ends there. -/
def Script.Post.outDegree : Post → Nat
  | .branchStart => 2
  | .fallback _ isLast => if isLast then 1 else 2
  | .menuStart choices => choices.length + if choices.all Scene.isGuarded then 1 else 0
  | .start | .statement _ | .placeholder | .branchEnd | .clauseStart _ | .clauseEnd _ | .menuEnd
  | .choice => 1

namespace Conversation

variable {c : Conversation} {targets : Dict Nat}

/-- The entries from `base` on have as many inner links as their posts ask for. The one that is yet
to be linked, if it is among them, will have one. -/
def Posted (c : Conversation) (open_ : Nat) : Nat → List Post → Prop
  | _, [] => True
  | base, post :: rest =>
    (if base = open_ then post.outDegree = 1 else c.outDegree? base = some post.outDegree) ∧
      Posted c open_ (base + 1) rest

private theorem posted_append {open_ : Nat} : ∀ (posts more : List Post) (base : Nat),
    c.Posted open_ base (posts ++ more) ↔
      c.Posted open_ base posts ∧ c.Posted open_ (base + posts.length) more
  | [], more, base => by simp [Posted]
  | post :: posts, more, base => by
    have next : base + 1 + posts.length = base + (posts.length + 1) := by omega
    rw [List.cons_append, Posted, Posted, posted_append posts more,
      List.length_cons, next, and_assoc]

/-- Once the open entry has its link, another one may be open that is not among the posts. -/
theorem Posted.settle {last open_ : Nat} : ∀ {posts : List Post} {base : Nat},
    c.Posted last base posts → (last ≠ open_ → c.outDegree? last = some 1) →
    open_ = last ∨ open_ < base ∨ base + posts.length ≤ open_ → c.Posted open_ base posts
  | [], _, _, _, _ => trivial
  | post :: rest, base, posted, linked, place => by
    rw [List.length_cons] at place
    refine ⟨?_, posted.2.settle linked (by omega)⟩
    have here := posted.1
    by_cases same : open_ = last
    · rw [same]
      exact here
    · rw [if_neg (by omega)]
      split at here
      · next at_last => rw [at_last, here, linked (Ne.symm same)]
      · exact here

private theorem Posted.outDegree?_eq {open_ : Nat} :
    ∀ {posts : List Post} {base k : Nat} {post : Post},
    c.Posted open_ base posts → posts[k]? = some post → base + k ≠ open_ →
    c.outDegree? (base + k) = some post.outDegree
  | first :: rest, base, 0, post, posted, found, other => by
    cases found
    have here := posted.1
    rw [if_neg (by exact other)] at here
    exact here
  | first :: rest, base, k + 1, post, posted, found, other => by
    have next : base + (k + 1) = base + 1 + k := by omega
    rw [next] at other ⊢
    exact posted.2.outDegree?_eq found other

private theorem outDegree?_only {i j : Nat} (ways : c.waysAt? i = some (.only j)) :
    c.outDegree? i = some 1 :=
  outDegree?_of_ways ways

/-- The entry before an item has one link, to the item, unless the item has no entries. -/
theorem outDegree?_before_item {item : Item} {base pred exit : Nat}
    (wired : c.WiredItem targets base pred exit item) (moved : pred ≠ exit) :
    c.outDegree? pred = some 1 := by
  cases item with
  | basic s =>
    cases wired with
    | directive => exact absurd rfl moved
    | entry _ ways _ => exact outDegree?_only ways
    | jump _ _ ways _ _ _ => exact outDegree?_only ways
  | branch clauses otherwise => exact outDegree?_only wired.2.1
  | menu choices => exact outDegree?_only wired.2.1

private theorem outDegree?_before_body : ∀ {items : List Item} {base pred exit : Nat},
    c.WiredBody targets base pred exit items → pred ≠ exit → c.outDegree? pred = some 1
  | [], base, pred, exit, wired, moved => absurd (Eq.symm wired) moved
  | item :: rest, base, pred, exit, wired, moved => by
    obtain ⟨middle, first, others⟩ := wired
    by_cases stays : pred = middle
    · subst stays
      exact outDegree?_before_body others moved
    · exact outDegree?_before_item first stays

private theorem exit_of_wiredItem {item : Item} {base pred exit : Nat}
    (wired : c.WiredItem targets base pred exit item) :
    exit = pred ∨ base ≤ exit ∧ exit < base + item.entryCount := by
  cases item with
  | basic s =>
    rw [Item.entryCount]
    cases wired with
    | directive => exact .inl rfl
    | entry one => omega
    | jump kind =>
      rw [kind, Basic.entryCount]
      omega
  | branch clauses otherwise =>
    rw [Scene.entryCount_branch, wired.1]
    omega
  | menu choices =>
    rw [Item.entryCount, wired.1]
    omega

private theorem exit_of_wiredBody : ∀ {items : List Item} {base pred exit : Nat},
    c.WiredBody targets base pred exit items →
    exit = pred ∨ base ≤ exit ∧ exit < base + bodyCount items
  | [], _, _, _, wired => .inl wired
  | item :: rest, base, pred, exit, wired => by
    obtain ⟨middle, first, others⟩ := wired
    have here := exit_of_wiredItem first
    have later := exit_of_wiredBody others
    rw [bodyCount]
    omega

/-- A body whose last entry is linked to what closes it. -/
theorem posted_closed {items : List Item} {base pred last close open_ : Nat}
    (wired : c.WiredBody targets base pred last items) (ways : c.waysAt? last = some (.only close))
    (before : open_ < base) (posted : c.Posted last base (bodyPosts items)) :
    c.outDegree? pred = some 1 ∧ c.Posted open_ base (bodyPosts items) := by
  refine ⟨?_, posted.settle (fun _ => outDegree?_only ways) (.inr (.inl before))⟩
  by_cases stays : pred = last
  · subst stays
    exact outDegree?_only ways
  · exact outDegree?_before_body wired stays

/-- What stands before the clauses of a branch has two links, if any of them has a guard. -/
theorem outDegree?_before_arms {clauses : List Clause} {otherwise : Option (List Item)}
    {base last previous finish : Nat}
    (linked : ArmsLinked c.waysAt? finish previous
      (Scene.armsFrom base clauses ++ Scene.lastArm last otherwise)) :
    c.outDegree? previous = some (if clauses.isEmpty then 1 else 2) := by
  cases clauses with
  | nil =>
    cases otherwise with
    | none => exact outDegree?_only linked
    | some body => exact outDegree?_only linked.1
  | cons clause rest =>
    obtain ⟨line, guard, body⟩ := clause
    exact outDegree?_of_ways linked.1

private theorem ArmsLinked.last {ways : Nat → Option Ways} {finish : Nat}
    {others : List Scene.Arm} :
    ∀ {clauses : List Clause} {base previous : Nat},
      ArmsLinked ways finish previous (Scene.armsFrom base clauses ++ others) →
      ∃ previous, ArmsLinked ways finish previous others
  | [], _, previous, linked => ⟨previous, linked⟩
  | .mk _ _ _ :: _, _, _, ⟨_, _, linked⟩ => linked.last

private theorem posted_basic {s : Content Basic} {base pred exit : Nat}
    (wired : c.WiredBasic targets base pred s exit) : c.Posted exit base s.kind.posts := by
  cases wired with
  | directive none =>
    rw [Basic.posts_of_directive none]
    trivial
  | entry one =>
    rw [Basic.posts_of_entry one]
    exact ⟨by rw [if_pos rfl]; rfl, trivial⟩
  | jump kind _ _ _ atJump _ =>
    rw [kind]
    refine ⟨?_, by rw [if_pos rfl]; rfl, trivial⟩
    rw [if_neg (by omega)]
    exact outDegree?_of_ways atJump

private theorem posted_last {body : List Item} {base previous finish open_ : Nat}
    (wired : c.WiredLast targets base (some body))
    (linked : ArmsLinked c.waysAt? finish previous (Scene.lastArm base (some body)))
    (before : open_ < base)
    (ih : ∀ {last : Nat}, c.WiredBody targets (base + 2) base last body →
      c.Posted last (base + 2) (bodyPosts body)) :
    c.Posted open_ base (otherwisePosts (some body)) := by
  obtain ⟨-, -, last, wiredBody, close⟩ := wired
  have earlier : open_ < base + 2 := by omega
  obtain ⟨start, posted⟩ := posted_closed wiredBody close earlier (ih wiredBody)
  refine ⟨?_, ?_, posted⟩
  · rw [if_neg (by omega)]
    exact start
  · rw [if_neg (by omega)]
    exact outDegree?_only linked.2

private theorem posted_branch {clauses : List Clause} {otherwise : Option (List Item)}
    {base pred exit : Nat} (wired : c.WiredItem targets base pred exit (.branch clauses otherwise))
    (filled : clauses ≠ [])
    (inside : ArmsLinked c.waysAt? (base + 1) base (arms base clauses otherwise) →
      c.Posted (base + 1) (base + 2) (clausePosts .if_ clauses) ∧
        c.Posted (base + 1) (base + 2 + clausesCount clauses) (otherwisePosts otherwise)) :
    c.Posted exit base (Item.branch clauses otherwise).posts := by
  obtain ⟨rfl, -, -, -, -, -, linked⟩ := wired
  have linked := linked (arms_ne_nil filled)
  have degree := outDegree?_before_arms linked
  rw [List.isEmpty_eq_false_iff.mpr filled] at degree
  rw [Item.posts_branch]
  refine ⟨?_, ?_, ?_⟩
  · rw [if_neg (by omega)]
    exact degree
  · rw [if_pos rfl]
    rfl
  · rw [posted_append, length_clausePosts]
    exact inside linked

mutual

private theorem posted_item : ∀ (item : Item) {base pred exit : Nat}, item.Opens →
    c.WiredItem targets base pred exit item → c.Posted exit base item.posts
  | .basic s, base, pred, exit, _, wired => posted_basic wired
  | .branch clauses none, base, pred, exit, opens, wired => by
    have ⟨_, _, _, _, wiredClauses, _, _⟩ := wired
    refine posted_branch wired opens.1 fun linked => ⟨?_, trivial⟩
    exact posted_clauses clauses (Nat.lt_succ_self _) opens.2 wiredClauses linked
  | .branch clauses (some body), base, pred, exit, opens, wired => by
    have ⟨_, _, _, _, wiredClauses, wiredLast, _⟩ := wired
    refine posted_branch wired opens.1 fun linked => ⟨?_, ?_⟩
    · exact posted_clauses clauses (Nat.lt_succ_self _) opens.2.1 wiredClauses linked
    · obtain ⟨previous, linkedLast⟩ := linked.last
      exact posted_last wiredLast linkedLast (by omega) (posted_body body opens.2.2)
  | .menu choices, base, pred, exit, opens, wired => by
    obtain ⟨rfl, -, -, -, ways, wiredChoices⟩ := wired
    refine ⟨?_, by rw [if_pos rfl]; rfl, posted_choices choices (by omega) opens wiredChoices⟩
    rw [if_neg (by omega), outDegree?_of_ways ways, successors_menu,
      List.length_append, length_heads, Post.outDegree]
    split <;> rfl

private theorem posted_body : ∀ (items : List Item) {base pred exit : Nat}, BodyOpens items →
    c.WiredBody targets base pred exit items → c.Posted exit base (bodyPosts items)
  | [], _, _, _, _, _ => trivial
  | item :: rest, base, pred, exit, opens, wired => by
    obtain ⟨middle, first, others⟩ := wired
    have later := exit_of_wiredBody others
    rw [bodyPosts, posted_append, item.length_posts]
    refine ⟨?_, posted_body rest opens.2 others⟩
    refine (posted_item item opens.1 first).settle (outDegree?_before_body others) ?_
    rw [item.length_posts]
    omega

private theorem posted_clauses : ∀ (clauses : List Clause) {kind : ClauseKind}
    {otherwise : Option (List Item)} {base previous finish last open_ : Nat}, open_ < base →
    ClausesOpen clauses → c.WiredClauses targets base clauses →
    ArmsLinked c.waysAt? finish previous
      (Scene.armsFrom base clauses ++ Scene.lastArm last otherwise) →
    c.Posted open_ base (clausePosts kind clauses)
  | [], _, _, _, _, _, _, _, _, _, _, _ => trivial
  | .mk line guard body :: rest, kind, otherwise, base, previous, finish, last, open_, before,
      opens, wired, linked => by
    obtain ⟨-, -, -, ⟨exit, wiredBody, close⟩, wiredRest⟩ := wired
    obtain ⟨-, leave, linkedRest⟩ := linked
    have next : base + 3 + bodyCount body = base + 1 + 1 + bodyCount body + 1 := by omega
    rw [next] at wiredRest linkedRest
    have earlier : open_ < base + 2 := by omega
    obtain ⟨start, posted⟩ :=
      posted_closed wiredBody close earlier (posted_body body opens.1 wiredBody)
    refine ⟨?_, ?_, ?_⟩
    · rw [if_neg (by omega)]
      exact start
    · rw [if_neg (by omega)]
      exact outDegree?_only leave
    · rw [posted_append, length_bodyPosts]
      refine ⟨posted, ?_, posted_clauses rest (by omega) opens.2 wiredRest linkedRest⟩
      rw [if_neg (by omega)]
      exact outDegree?_before_arms linkedRest

private theorem posted_choices : ∀ (choices : List Choice) {base finish open_ : Nat}, open_ < base →
    ChoicesOpen choices → c.WiredChoices targets finish base choices →
    c.Posted open_ base (choicePosts choices)
  | [], _, _, _, _, _, _ => trivial
  | .mk option shown body :: rest, base, finish, open_, before, opens, wired => by
    obtain ⟨-, ⟨exit, wiredBody, close⟩, wiredRest⟩ := wired
    have earlier : open_ < base + 1 := by omega
    obtain ⟨start, posted⟩ :=
      posted_closed wiredBody close earlier (posted_body body opens.1 wiredBody)
    refine ⟨by rw [if_neg (by omega)]; exact start, ?_⟩
    rw [posted_append, length_bodyPosts]
    exact ⟨posted, posted_choices rest (by omega) opens.2 wiredRest⟩

end

end Conversation

/-- The entries that a body is lowered to are on the ways from the start to the last of them, and no
way goes on from there. -/
theorem Scene.opening_spans {scene : Scene} {id exit : Nat} {items : List Item} {complete : Draft}
    (added : scene.addItems (scene.opening id) Conversation.startId items = .ok (complete, exit))
    (opens : BodyOpens items) {i : Nat} (lt : i < complete.nextId) :
    complete.conversation.LeadsTo exit i ∧
      ReflTransGen complete.conversation.LinksTo Conversation.startId i := by
  have count : complete.nextId = 1 + bodyCount items :=
    (Scene.addItems_grown items Nat.zero_lt_one added).nextId
  have spans := Conversation.spans_body items opens (opening_wired added).1
  by_cases start : i = Conversation.startId
  · subst start
    exact ⟨spans.leads _ (.inl rfl), .refl⟩
  · have low : 1 ≤ i := Nat.pos_of_ne_zero start
    exact ⟨spans.leads i (.inr (by omega)), spans.reached i low (by omega)⟩

/-- The entries that a body is lowered to have the titles and the inner links of their posts, but
the last one has no links. -/
theorem Scene.opening_posted {scene : Scene} {id exit : Nat} {items : List Item} {complete : Draft}
    (added : scene.addItems (scene.opening id) Conversation.startId items = .ok (complete, exit))
    (opens : BodyOpens items) {i : Nat} {e : Entry}
    (found : complete.conversation.entryById? i = some e) (at_i : complete.entryAt? i = some e) :
    ∃ post, (Post.start :: bodyPosts items)[i]? = some post ∧ e.title = post.title ∧
      e.successors.length = if i = exit then 0 else post.outDegree := by
  obtain ⟨wired, loose⟩ := opening_wired added
  have titles : complete.view Entry.title = (Post.start :: bodyPosts items).map Post.title :=
    addItems_titles items added
  have title : (complete.view Entry.title)[i]? = some e.title := by
    rw [Draft.getElem?_view]
    exact congrArg (Option.map Entry.title) at_i
  rw [titles, List.getElem?_map] at title
  obtain ⟨post, place, title⟩ := Option.map_eq_some_iff.mp title
  have degree : complete.conversation.outDegree? i = some e.successors.length := by
    rw [Conversation.outDegree?, found]
    rfl
  refine ⟨post, place, title.symm, ?_⟩
  split
  · next last =>
    rw [last, Conversation.outDegree?_of_ways loose] at degree
    exact (Option.some.inj degree).symm
  · next other =>
    have start : if 0 = exit then Post.start.outDegree = 1
        else complete.conversation.outDegree? 0 = some Post.start.outDegree := by
      split
      · rfl
      · next moved => exact Conversation.outDegree?_before_body wired moved
    have posted : complete.conversation.Posted exit 0 (.start :: bodyPosts items) :=
      ⟨start, Conversation.posted_body items opens wired⟩
    have same := posted.outDegree?_eq place (by omega)
    rw [Nat.zero_add, degree] at same
    exact Option.some.inj same

/-- A lowered conversation is an acyclic graph with one entry and one exit. The exit is where the
lowering of the node's body ends, and has no inner links; all others have as many as their posts ask
for. -/
theorem Script.lower_single_exit {s : Script} {ctx : Context} {id : Nat} {c : Conversation}
    (lowered : s.lower ctx id = .ok c) :
    ∃ (node : Node) (complete : Draft) (exit : Nat), s.tree.check = .ok node ∧
      (Scene.ofNode ctx node).addItems ((Scene.ofNode ctx node).opening id) Conversation.startId
        node.body = .ok (complete, exit) ∧
      c = complete.conversation ∧ (∃ e ∈ c.entries, e.id = exit) ∧
      (∀ i, ¬ TransGen c.LinksTo i i) ∧
      (∀ e ∈ c.entries,
        ReflTransGen c.LinksTo Conversation.startId e.id ∧ ReflTransGen c.LinksTo e.id exit) ∧
      c.entries.length = (Post.start :: bodyPosts node.body).length ∧
      ∀ e ∈ c.entries, ∃ post, (Post.start :: bodyPosts node.body)[e.id]? = some post ∧
        e.title = post.title ∧ e.successors.length = if e.id = exit then 0 else post.outDegree := by
  obtain ⟨node, complete, exit, checked, added, rfl⟩ := lower_ok lowered
  have opens : BodyOpens node.body := Tree.itemList_opens _ (Tree.check_ok checked).2
  have grown := Scene.addItems_grown node.body Nat.zero_lt_one added
  have fits := Draft.Steps.fits grown.steps (Scene.opening_fits _ id)
  have same := Scene.opening_entryById? added
  have numbered : ∀ e ∈ complete.entries, complete.entryAt? e.id = some e := by
    intro e member
    obtain ⟨i, found⟩ := List.getElem?_of_mem member
    rw [(fits.entry i e found).id]
    exact found
  have inside : ∀ {i : Nat} {e : Entry}, complete.entryAt? i = some e → i < complete.nextId :=
    fun found => (List.getElem?_eq_some_iff.mp found).1
  obtain ⟨wired, loose⟩ := Scene.opening_wired added
  refine ⟨node, complete, exit, checked, added, rfl, ?_, ?_, ?_, ?_, ?_⟩
  · obtain ⟨e, found, -⟩ := Option.map_eq_some_iff.mp loose
    rw [same] at found
    exact ⟨e, List.mem_of_getElem? found, (fits.entry exit e found).id⟩
  · intro i cycle
    obtain ⟨j, ⟨e, found, -⟩, -⟩ := TransGen.head'_iff.mp cycle
    rw [same] at found
    exact (Scene.opening_spans added opens (inside found)).1.not_cycle loose cycle
  · intro e member
    obtain ⟨leads, reached⟩ := Scene.opening_spans added opens (inside (numbered e member))
    exact ⟨reached, leads.reaches⟩
  · have count : complete.entries.length = 1 + bodyCount node.body := grown.nextId
    rw [List.length_cons, length_bodyPosts, Nat.add_comm]
    exact count
  · intro e member
    have found := numbered e member
    exact Scene.opening_posted added opens ((same e.id).trans found) found

open Sample in
theorem Script.lower_single_exit_sample : ∃ c, script.lower context 1 = .ok c ∧
    c.entries.length = 17 ∧ (∀ i, ¬ TransGen c.LinksTo i i) ∧
    ∀ e ∈ c.entries, ReflTransGen c.LinksTo e.id 16 ∧ (e.successors = [] ↔ e.id = 16) := by
  have facts : ∃ c, script.lower context 1 = .ok c ∧ c.entries.length = 17 ∧
      ∀ e ∈ c.entries, e.successors = [] ↔ e.id = 16 := by
    have evaluated : (script.lower context 1).toOption.any (fun c =>
        decide (c.entries.length = 17 ∧ ∀ e ∈ c.entries, e.successors = [] ↔ e.id = 16)) =
          true := by
      decide +kernel
    cases lowered : script.lower context 1 with
    | error e =>
      rw [lowered] at evaluated
      cases evaluated
    | ok c =>
      rw [lowered] at evaluated
      exact ⟨c, rfl, of_decide_eq_true evaluated⟩
  obtain ⟨c, lowered, length, last⟩ := facts
  obtain ⟨node, complete, exit, -, -, -, ⟨e, member, rfl⟩, acyclic, ways, -, degrees⟩ :=
    Script.lower_single_exit lowered
  have exit_eq : e.id = 16 := by
    obtain ⟨post, -, -, degree⟩ := degrees e member
    rw [if_pos rfl] at degree
    exact (last e member).mp (List.eq_nil_of_length_eq_zero degree)
  rw [exit_eq] at ways
  exact ⟨c, lowered, length, acyclic, fun e member => ⟨(ways e member).2, last e member⟩⟩

end Dialogue
