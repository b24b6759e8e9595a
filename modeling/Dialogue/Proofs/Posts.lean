import Dialogue.Proofs.Grammar
import Dialogue.Proofs.Lowering

/-!
The entries of a conversation by what they are there for. `Script.bodyPosts` lists the posts of a
body in the order of the entries, whatever the guards, texts and expressions in it. The lowering of
a body adds entries with the titles of these posts.
-/

set_option autoImplicit false
set_option relaxedAutoImplicit false

namespace Dialogue

namespace Script

inductive Post
  | start
  | statement (b : Basic)
  /-- What follows a jump in its body. -/
  | placeholder
  | branchStart
  | branchEnd
  | clauseStart (kind : ClauseKind)
  | clauseEnd (kind : ClauseKind)
  /-- What is tried when the guard of a clause fails; the next clause may have a guard, and then a
  fallback, too. -/
  | fallback (kind : ClauseKind) (isLast : Bool)
  | menuStart (choices : List Choice)
  | menuEnd
  | choice

def Post.title : Post → String
  | .start => Draft.startTitle
  | .statement b => b.title
  | .placeholder => "Unreachable Entry"
  | .branchStart => "If Block Start"
  | .branchEnd => "If Block End"
  | .clauseStart kind => kind.name ++ " Clause Start"
  | .clauseEnd kind => kind.name ++ " Clause End"
  | .fallback kind _ => kind.name ++ " Clause Fallback"
  | .menuStart _ => "Shortcut Option List Start"
  | .menuEnd => "Shortcut Option List End"
  | .choice => "Shortcut Option Start"

def Basic.posts (b : Basic) : List Post :=
  match b.entryCount with
  | 0 => []
  | 1 => [.statement b]
  | _ => [.statement b, .placeholder]

mutual

def Item.posts : Item → List Post
  | .basic s => s.kind.posts
  | .branch clauses none => .branchStart :: .branchEnd :: clausePosts .if_ clauses
  | .branch clauses (some body) =>
    .branchStart :: .branchEnd ::
      (clausePosts .if_ clauses ++ .clauseStart .else_ :: .clauseEnd .else_ :: bodyPosts body)
  | .menu choices => .menuStart choices :: .menuEnd :: choicePosts choices

def bodyPosts : List Item → List Post
  | [] => []
  | item :: rest => item.posts ++ bodyPosts rest

/-- The posts of guarded clauses, of which the first has a kind. -/
def clausePosts (kind : ClauseKind) : List Clause → List Post
  | [] => []
  | .mk _ _ body :: rest =>
    .clauseStart kind :: .clauseEnd kind ::
      (bodyPosts body ++ .fallback kind rest.isEmpty :: clausePosts .elseIf rest)

def choicePosts : List Choice → List Post
  | [] => []
  | .mk _ _ body :: rest => .choice :: (bodyPosts body ++ choicePosts rest)

end

/-- The posts of the last clause of a branch, which has no guard. -/
def otherwisePosts : Option (List Item) → List Post
  | none => []
  | some body => .clauseStart .else_ :: .clauseEnd .else_ :: bodyPosts body

theorem Item.posts_branch (clauses : List Clause) (otherwise : Option (List Item)) :
    (Item.branch clauses otherwise).posts =
      .branchStart :: .branchEnd :: (clausePosts .if_ clauses ++ otherwisePosts otherwise) := by
  cases otherwise <;> simp [Item.posts, otherwisePosts]

theorem Basic.posts_of_directive {b : Basic} (h : b.entryCount = 0) : b.posts = [] := by
  simp [Basic.posts, h]

theorem Basic.posts_of_entry {b : Basic} (h : b.entryCount = 1) : b.posts = [.statement b] := by
  simp [Basic.posts, h]

private theorem Basic.length_posts (b : Basic) : b.posts.length = b.entryCount := by
  cases b with
  | command name arguments rawText =>
    cases sort : Command.Kind.ofName name <;> simp [Basic.posts, Basic.entryCount, sort]
  | line | call | jump | set | declare => rfl

mutual

theorem Item.length_posts : ∀ item : Item, item.posts.length = item.entryCount
  | .basic s => s.kind.length_posts
  | .branch clauses none => by
    simp only [Item.posts, Item.entryCount, List.length_cons, length_clausePosts]
    omega
  | .branch clauses (some body) => by
    simp only [Item.posts, Item.entryCount, List.length_cons,
      List.length_append, length_clausePosts, length_bodyPosts]
    omega
  | .menu choices => by
    simp only [Item.posts, Item.entryCount, List.length_cons, length_choicePosts]
    omega

theorem length_bodyPosts : ∀ items : List Item, (bodyPosts items).length = bodyCount items
  | [] => rfl
  | item :: rest => by
    rw [bodyPosts, bodyCount, List.length_append, Item.length_posts item, length_bodyPosts rest]

theorem length_clausePosts : ∀ (kind : ClauseKind) (clauses : List Clause),
    (clausePosts kind clauses).length = clausesCount clauses
  | _, [] => rfl
  | _, .mk _ _ body :: rest => by
    simp only [clausePosts, clausesCount, List.length_cons, List.length_append,
      length_bodyPosts body, length_clausePosts .elseIf rest]
    omega

private theorem length_choicePosts : ∀ choices : List Choice,
    (choicePosts choices).length = choicesCount choices
  | [] => rfl
  | .mk _ _ body :: rest => by
    simp only [choicePosts, choicesCount, List.length_cons, List.length_append,
      length_bodyPosts body, length_choicePosts rest]
    omega

end

mutual

/-- Every branch in an item opens with a guarded clause. -/
def Item.Opens : Item → Prop
  | .basic _ => True
  | .branch clauses none => clauses ≠ [] ∧ ClausesOpen clauses
  | .branch clauses (some body) => clauses ≠ [] ∧ ClausesOpen clauses ∧ BodyOpens body
  | .menu choices => ChoicesOpen choices

def BodyOpens : List Item → Prop
  | [] => True
  | item :: rest => item.Opens ∧ BodyOpens rest

def ClausesOpen : List Clause → Prop
  | [] => True
  | .mk _ _ body :: rest => BodyOpens body ∧ ClausesOpen rest

def ChoicesOpen : List Choice → Prop
  | [] => True
  | .mk _ _ body :: rest => BodyOpens body ∧ ChoicesOpen rest

end

/-- What `Item.Opens` asks of the last clause of a branch. -/
def OtherwiseOpens : Option (List Item) → Prop
  | none => True
  | some body => BodyOpens body

private theorem Item.opens_branch {clauses : List Clause} {otherwise : Option (List Item)} :
    (Item.branch clauses otherwise).Opens ↔
      clauses ≠ [] ∧ ClausesOpen clauses ∧ OtherwiseOpens otherwise := by
  cases otherwise <;> simp [Item.Opens, OtherwiseOpens]

namespace Tree

/-- The first clause of a sound if block is guarded. -/
theorem guarded_of_first {t : Tree} {rest : List Tree} {clauses : List Clause}
    {otherwise : Option (List Item)} (sound : clausesFlaw? true (t :: rest) = none)
    (h : clauseList (t :: rest) = .ok (clauses, otherwise)) : clauses ≠ [] := by
  obtain ⟨id, content, children⟩ := t
  obtain ⟨body, -, ⟨_, _, -, -, -, rfl⟩ | ⟨bare, -, rfl, -⟩⟩ := clauseList_cons sound h
  · exact List.cons_ne_nil _ _
  · have here := (Option.or_eq_none_iff.mp sound).1
    have unguarded : content.hasConditions = false := by simp [Content.hasConditions, bare]
    unfold clauseFlaw? at here
    split at here
    · simp [Tree.content, unguarded] at here
    · simp at here
    · simp at here
    · cases here

mutual

private theorem item_opens : ∀ (t : Tree) {i : Item}, item t = .ok i → i.Opens
  | .node id content children, i, h => by
    cases stands_of_item h with
    | basic => trivial
    | branch kind filled sound listed =>
      obtain ⟨first, rest, rfl⟩ := List.exists_cons_of_ne_nil filled
      exact Item.opens_branch.mpr
        ⟨guarded_of_first sound listed, clauseList_opens (first :: rest) sound listed⟩
    | menu kind options listed => exact choiceList_opens children listed

theorem itemList_opens : ∀ (ts : List Tree) {items : List Item}, itemList ts = .ok items →
    BodyOpens items
  | [], items, h => by
    cases h
    trivial
  | t :: rest, items, h => by
    obtain ⟨first, others, one, more, rfl⟩ := itemList_cons h
    exact ⟨item_opens t one, itemList_opens rest more⟩

private theorem clauseList_opens : ∀ (ts : List Tree) {isFirst : Bool} {clauses : List Clause}
    {otherwise : Option (List Item)}, clausesFlaw? isFirst ts = none →
    clauseList ts = .ok (clauses, otherwise) → ClausesOpen clauses ∧ OtherwiseOpens otherwise
  | [], _, clauses, otherwise, _, h => by
    cases h
    exact ⟨trivial, trivial⟩
  | .node id content children :: rest, isFirst, clauses, otherwise, sound, h => by
    obtain ⟨body, listed, guarded | last⟩ := clauseList_cons sound h
    · obtain ⟨guard, others, -, soundRest, listedRest, rfl⟩ := guarded
      obtain ⟨opens, last⟩ := clauseList_opens rest soundRest listedRest
      exact ⟨⟨itemList_opens children listed, opens⟩, last⟩
    · obtain ⟨-, -, rfl, rfl⟩ := last
      exact ⟨trivial, itemList_opens children listed⟩

private theorem choiceList_opens : ∀ (ts : List Tree) {choices : List Choice},
    choiceList ts = .ok choices → ChoicesOpen choices
  | [], choices, h => by
    cases h
    trivial
  | .node id option [] :: rest, choices, h => by cases h
  | .node id option (.node lineId shown below :: following) :: rest, choices, h => by
    obtain ⟨_, _, _, spoken, body, others, same, -, listed, listedRest, rfl⟩ := choiceList_cons h
    cases same
    exact ⟨itemList_opens following listed, choiceList_opens rest listedRest⟩

end

end Tree

end Script

open Script

namespace Scene

variable {scene : Scene}

private theorem titles_withJump (d : Draft) (pred : Nat)
    (condition : Option String) (target : Nat) :
    (withJump d pred condition target).view Entry.title =
      d.view Entry.title ++ ["Jump to Conversation", "Unreachable Entry"] := by
  simp [withJump, Draft.scriptEntry, Draft.fresh]

private theorem titles_openMenu (d : Draft) (pred : Nat) (choices : List Choice) :
    (openMenu d pred choices).view Entry.title =
      d.view Entry.title ++ ["Shortcut Option List Start", "Shortcut Option List End"] := by
  unfold openMenu
  split <;> simp

private theorem Adds.titles {d d' : Draft} {pred exit : Nat} {s : Content Basic}
    (h : Adds scene d pred s d' exit) : d'.view Entry.title = d.view Entry.title ++
      s.kind.posts.map Post.title := by
  cases h with
  | directive count => simp [Basic.posts_of_directive count]
  | entry count guarded joins title bare =>
    rw [view_withEntry, Entry.title_guarded, title, Basic.posts_of_entry count]
    rfl
  | jump kind known guarded =>
    rw [titles_withJump, kind]
    rfl

mutual

private theorem addItem_titles : ∀ (item : Item) {d d' : Draft} {pred exit : Nat},
    scene.addItem d pred item = .ok (d', exit) →
    d'.view Entry.title = d.view Entry.title ++ item.posts.map Post.title
  | .basic s, d, d', pred, exit, h => by
    simp only [addItem] at h
    exact (addBasic_adds h).titles
  | .branch clauses none, d, d', pred, exit, h => by
    obtain ⟨guarded, arms, complete, last, added, addedLast, rfl, -⟩ := addItem_branch_ok h
    obtain ⟨rfl, rfl⟩ := Prod.mk.inj (Except.ok.inj addedLast)
    rw [view_linkArms, view_enterArms, addClauses_titles clauses added]
    simp [openBranch, Item.posts, Post.title]
  | .branch clauses (some body), d, d', pred, exit, h => by
    obtain ⟨guarded, arms, complete, last, added, addedLast, rfl, -⟩ := addItem_branch_ok h
    simp only [addOtherwise, bind_eq_ok_iff, pure_eq_ok_iff, Prod.mk.injEq] at addedLast
    obtain ⟨⟨grown, exit⟩, addedBody, rfl, -⟩ := addedLast
    rw [view_linkArms, view_enterArms, Draft.view_link, addItems_titles body addedBody]
    simp [openArm, addClauses_titles clauses added, openBranch, Item.posts, Post.title]
  | .menu choices, d, d', pred, exit, h => by
    obtain ⟨complete, _, added, rfl, -⟩ := addItem_menu_ok h
    rw [view_closeMenu, addChoices_titles choices added, titles_openMenu]
    simp [Item.posts, Post.title]

theorem addItems_titles : ∀ (items : List Item) {d d' : Draft} {pred exit : Nat},
    scene.addItems d pred items = .ok (d', exit) →
    d'.view Entry.title = d.view Entry.title ++ (bodyPosts items).map Post.title
  | [], d, d', pred, exit, h => by
    simp only [addItems, Except.ok.injEq, Prod.mk.injEq] at h
    rw [← h.1, bodyPosts, List.map_nil, List.append_nil]
  | item :: rest, d, d', pred, exit, h => by
    simp only [addItems, bind_eq_ok_iff] at h
    obtain ⟨⟨grown, middle⟩, first, h⟩ := h
    rw [addItems_titles rest h, addItem_titles item first, bodyPosts, List.map_append,
      List.append_assoc]

private theorem addClauses_titles : ∀ (clauses : List Clause) {d d' : Draft} {kind : ClauseKind}
    {arms : List Arm}, scene.addClauses d kind clauses = .ok (d', arms) →
    d'.view Entry.title = d.view Entry.title ++ (clausePosts kind clauses).map Post.title
  | [], d, d', kind, arms, h => by
    simp only [addClauses, Except.ok.injEq, Prod.mk.injEq] at h
    rw [← h.1, clausePosts, List.map_nil, List.append_nil]
  | .mk line guard body :: rest, d, d', kind, arms, h => by
    obtain ⟨grown, exit, condition, others, added, -, addedRest, -⟩ := addClauses_cons_ok h
    rw [addClauses_titles rest addedRest]
    simp [closeClause, addItems_titles body added, openArm, clausePosts, Post.title]

private theorem addChoices_titles {allGuarded : Bool} :
    ∀ (choices : List Choice) {d d' : Draft} {start finish : Nat},
    scene.addChoices d start finish choices = .ok (d', allGuarded) →
    d'.view Entry.title = d.view Entry.title ++ (choicePosts choices).map Post.title
  | [], d, d', start, finish, h => by
    cases h
    rw [choicePosts, List.map_nil, List.append_nil]
  | .mk option shown body :: rest, d, d', start, finish, h => by
    obtain ⟨condition, fragments, grown, exit, _, -, -, added, h⟩ := addChoices_cons_ok h
    have headed : (scene.withChoice d start option shown condition fragments).view Entry.title =
        d.view Entry.title ++ ["Shortcut Option Start"] := by
      rw [withChoice, view_withEntry, Entry.title_guarded, lineEntry_title]
      rfl
    rw [addChoices_titles rest h, Draft.view_link, addItems_titles body added, headed]
    simp [choicePosts, Post.title]

end

end Scene

end Dialogue
