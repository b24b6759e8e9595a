import Dialogue.Command.Directive
import Mathlib.Logic.ExistsUnique

/-!
Placeholders in the text of a `seq` command. A directive has one cut into placeholders and single
characters, in which no character that is left begins a placeholder. `substitute_fills_cut` says
that the substitution fills the placeholders of this cut, all at once, and leaves everything else.
-/

set_option autoImplicit false
set_option relaxedAutoImplicit false

namespace Dialogue.Command

/-- Digits between braces that stand for the index of a fragment. -/
@[ext]
structure Placeholder (fragments : List String) where
  digits : List Char
  filled : digits ≠ []
  isDigit : ∀ c ∈ digits, c.isDigit = true
  fits : Decimal.natOfDigits digits < Nat.pow 2 64
  known : Decimal.natOfDigits digits < fragments.length

inductive Piece (fragments : List String)
  | char (c : Char)
  | placeholder (p : Placeholder fragments)

variable {fragments : List String}

namespace Placeholder

def text (p : Placeholder fragments) : List Char :=
  '{' :: (p.digits ++ ['}'])

def fragment (p : Placeholder fragments) : String :=
  fragments.get ⟨Decimal.natOfDigits p.digits, p.known⟩

end Placeholder

namespace Piece

/-- A piece as it stands in the directive. -/
def text : Piece fragments → List Char
  | .char c => [c]
  | .placeholder p => p.text

def filled : Piece fragments → List Char
  | .char c => [c]
  | .placeholder p => (embedded p.fragment).toList

end Piece

/-- The pieces make up the directive, and no character that is a piece of its own begins a
placeholder. -/
structure Cut (fragments : List String) (directive : List Char) (pieces : List (Piece fragments)) :
    Prop where
  text : pieces.flatMap Piece.text = directive
  left : ∀ before c after, pieces = before ++ .char c :: after →
    ∀ p : Placeholder fragments, ¬ p.text <+: c :: after.flatMap Piece.text

namespace Placeholder

private theorem text_append (p : Placeholder fragments) (rest : List Char) :
    p.text ++ rest = '{' :: (p.digits ++ '}' :: rest) := by
  simp [text]

/-- The digits go up to the closing brace. -/
theorem span_digits (p : Placeholder fragments) (rest : List Char) :
    (p.digits ++ '}' :: rest).takeWhile Char.isDigit = p.digits ∧
      (p.digits ++ '}' :: rest).dropWhile Char.isDigit = '}' :: rest := by
  rw [List.takeWhile_append_of_pos p.isDigit, List.dropWhile_append_of_pos p.isDigit]
  simp

/-- The text of a placeholder and what comes after it tell the placeholder. -/
theorem text_append_inj {p q : Placeholder fragments} {rest rest' : List Char}
    (h : p.text ++ rest = q.text ++ rest') : p = q ∧ rest = rest' := by
  rw [text_append, text_append, List.cons_inj_right] at h
  obtain ⟨digits, closed⟩ := p.span_digits rest
  obtain ⟨digits', closed'⟩ := q.span_digits rest'
  rw [h, digits'] at digits
  rw [h, closed'] at closed
  exact ⟨Placeholder.ext digits.symm, (List.cons.inj closed).2.symm⟩

private theorem placeholder?_text (p : Placeholder fragments) (rest : List Char) :
    placeholder? fragments (p.digits ++ '}' :: rest) = some (p.fragment, rest) := by
  obtain ⟨digits, closed⟩ := p.span_digits rest
  have index : index? p.digits = some (Decimal.natOfDigits p.digits) := if_pos p.fits
  have known : fragments[Decimal.natOfDigits p.digits]? = some p.fragment :=
    List.getElem?_eq_getElem p.known
  unfold placeholder?
  rw [digits, closed]
  cases shape : p.digits with
  | nil => exact absurd shape p.filled
  | cons digit more =>
    rw [shape] at index known
    simp only [index, known, Option.bind_eq_bind, Option.bind_some]
    rfl

end Placeholder

private theorem exists_of_placeholder? {cs rest : List Char} {fragment : String}
    (h : placeholder? fragments cs = some (fragment, rest)) :
    ∃ p : Placeholder fragments, '{' :: cs = p.text ++ rest ∧ p.fragment = fragment := by
  unfold placeholder? at h
  split at h
  · next digit digits rest' taken dropped =>
    obtain ⟨i, index, h⟩ := Option.bind_eq_some_iff.mp h
    obtain ⟨found, known, h⟩ := Option.bind_eq_some_iff.mp h
    obtain ⟨rfl, rfl⟩ := Prod.mk.inj (Option.some.inj h)
    obtain ⟨fits, index⟩ := Option.ite_none_right_eq_some.mp index
    obtain rfl := Option.some.inj index
    obtain ⟨lt, rfl⟩ := List.getElem?_eq_some_iff.mp known
    have isDigit : ∀ c ∈ digit :: digits, c.isDigit = true := by
      rw [← taken]
      exact List.all_eq_true.mp List.all_takeWhile
    have whole : cs = digit :: digits ++ '}' :: rest' := by
      rw [← taken, ← dropped, List.takeWhile_append_dropWhile]
    refine ⟨⟨digit :: digits, List.cons_ne_nil _ _, isDigit, fits, lt⟩, ?_, rfl⟩
    rw [Placeholder.text_append, whole]
  · cases h

private theorem substitute_placeholder (p : Placeholder fragments) (rest : List Char) :
    substitute fragments (p.text ++ rest) = (embedded p.fragment).toList ++
      substitute fragments rest := by
  rw [p.text_append, substitute, if_pos rfl]
  split
  · next fragment after found =>
    rw [p.placeholder?_text] at found
    cases found
    rfl
  · next none =>
    rw [p.placeholder?_text] at none
    cases none

private theorem substitute_char {c : Char} {rest : List Char}
    (left : ∀ p : Placeholder fragments, ¬ p.text <+: c :: rest) :
    substitute fragments (c :: rest) = c :: substitute fragments rest := by
  rw [substitute]
  split
  · next opens =>
    split
    · next fragment after found =>
      obtain ⟨p, text, -⟩ := exists_of_placeholder? found
      exact absurd ⟨after, (opens ▸ text).symm⟩ (left p)
    · rfl
  · rfl

/-- The character after the brace of a placeholder is a digit. -/
theorem Placeholder.not_text_brace (p : Placeholder fragments) (rest : List Char) :
    ¬ p.text <+: '{' :: '{' :: rest := by
  rintro ⟨more, same⟩
  rw [p.text_append, List.cons_inj_right] at same
  cases shape : p.digits with
  | nil => exact p.filled shape
  | cons digit digits =>
    rw [shape] at same
    have isDigit := p.isDigit digit (shape ▸ List.mem_cons_self)
    obtain ⟨rfl, -⟩ := List.cons.inj same
    cases isDigit

private theorem substitute_brace (p : Placeholder fragments) (rest : List Char) :
    substitute fragments ('{' :: (p.text ++ rest)) =
      '{' :: ((embedded p.fragment).toList ++ substitute fragments rest) := by
  rw [substitute_char, substitute_placeholder]
  rw [p.text_append]
  exact fun q => q.not_text_brace _

private theorem substitute_of_none {directive : List Char}
    (none : ∀ p : Placeholder fragments, ¬ p.text <:+: directive) :
    substitute fragments directive = directive := by
  induction directive with
  | nil => exact substitute.eq_1 fragments
  | cons c rest ih =>
    rw [substitute_char fun p begins => none p begins.isInfix,
      ih fun p within => none p (within.trans (List.suffix_cons c rest).isInfix)]

namespace Cut

variable {directive rest : List Char} {pieces : List (Piece fragments)}

private theorem nil : Cut fragments [] [] :=
  ⟨rfl, fun _ _ _ h => by simp at h⟩

private theorem placeholder (p : Placeholder fragments) (h : Cut fragments rest pieces) :
    Cut fragments (p.text ++ rest) (.placeholder p :: pieces) where
  text := congrArg (p.text ++ ·) h.text
  left before c after split := by
    cases before with
    | nil => cases split
    | cons piece before => exact h.left before c after (List.cons.inj split).2

private theorem char {c : Char} (left : ∀ p : Placeholder fragments, ¬ p.text <+: c :: rest)
    (h : Cut fragments rest pieces) : Cut fragments (c :: rest) (.char c :: pieces) where
  text := congrArg (c :: ·) h.text
  left before c' after split := by
    cases before with
    | nil =>
      cases split
      rw [h.text]
      exact left
    | cons piece before => exact h.left before c' after (List.cons.inj split).2

private theorem tail {piece : Piece fragments} (h : Cut fragments directive (piece :: pieces)) :
    Cut fragments (pieces.flatMap Piece.text) pieces :=
  ⟨rfl, fun before c after split => h.left (piece :: before) c after (congrArg (piece :: ·) split)⟩

private theorem left_head {c : Char} (h : Cut fragments directive (.char c :: pieces))
    (p : Placeholder fragments) :
    ¬ p.text <+: directive := by
  rw [← h.text]
  exact h.left [] c pieces rfl p

private theorem exists_cut (fragments : List String) (directive : List Char) :
    ∃ pieces, Cut fragments directive pieces := by
  -- A placeholder takes several characters off the directive, so the induction is on its length.
  induction length : directive.length using Nat.strongRecOn generalizing directive with
  | ind n ih =>
    subst length
    by_cases begins : ∃ p : Placeholder fragments, p.text <+: directive
    · obtain ⟨p, rest, rfl⟩ := begins
      have shorter : rest.length < (p.text ++ rest).length := by
        simp [Placeholder.text]
        omega
      obtain ⟨pieces, cut⟩ := ih rest.length shorter rest rfl
      exact ⟨_, cut.placeholder p⟩
    · cases directive with
      | nil => exact ⟨[], nil⟩
      | cons c rest =>
        obtain ⟨pieces, cut⟩ := ih rest.length (Nat.lt_succ_self _) rest rfl
        exact ⟨_, cut.char (not_exists.mp begins)⟩

/-- Two cuts of one directive begin with the same piece, since a placeholder is never cut up. -/
theorem unique {others : List (Piece fragments)} (h : Cut fragments directive pieces)
    (h' : Cut fragments directive others) : others = pieces := by
  induction pieces generalizing directive others with
  | nil =>
    have empty := h'.text.trans h.text.symm
    cases others with
    | nil => rfl
    | cons piece others => cases piece <;> simp [Piece.text, Placeholder.text] at empty
  | cons piece pieces ih =>
    have same := h'.text.trans h.text.symm
    cases others with
    | nil => cases piece <;> simp [Piece.text, Placeholder.text] at same
    | cons other others =>
      have agree (rest : others.flatMap Piece.text = pieces.flatMap Piece.text) : others = pieces :=
        ih h.tail (rest ▸ h'.tail)
      cases piece with
      | char c =>
        cases other with
        | char c' =>
          obtain ⟨rfl, rest⟩ : c' = c ∧ others.flatMap Piece.text = pieces.flatMap Piece.text :=
            List.cons.inj same
          rw [agree rest]
        | placeholder p => exact absurd ⟨_, h'.text⟩ (h.left_head p)
      | placeholder p =>
        cases other with
        | char c => exact absurd ⟨_, h.text⟩ (h'.left_head p)
        | placeholder q =>
          obtain ⟨rfl, rest⟩ := Placeholder.text_append_inj same
          rw [agree rest]

private theorem substitute_eq (h : Cut fragments directive pieces) :
    substitute fragments directive = pieces.flatMap Piece.filled := by
  induction pieces generalizing directive with
  | nil =>
    rw [← h.text]
    exact substitute.eq_1 fragments
  | cons piece pieces ih =>
    have rest := ih h.tail
    rw [List.flatMap_cons, ← rest]
    cases piece with
    | char c =>
      have left := h.left [] c pieces rfl
      rw [← h.text]
      exact substitute_char left
    | placeholder p =>
      rw [← h.text]
      exact substitute_placeholder p _

end Cut

/-- A directive has one cut, and the substitution fills its placeholders and leaves its other
characters. So a brace before a placeholder stays, and so does a directive that holds no
placeholder. -/
theorem substitute_fills_cut (fragments : List String) (directive : List Char) :
    (∃! pieces, Cut fragments directive pieces) ∧
    (∀ pieces, Cut fragments directive pieces →
      substitute fragments directive = pieces.flatMap Piece.filled) ∧
    (∀ (p : Placeholder fragments) (rest : List Char),
      substitute fragments ('{' :: (p.text ++ rest)) =
      '{' :: ((embedded p.fragment).toList ++ substitute fragments rest)) ∧
    ((∀ p : Placeholder fragments, ¬ p.text <:+: directive) →
      substitute fragments directive = directive) := by
  obtain ⟨pieces, cut⟩ := Cut.exists_cut fragments directive
  exact ⟨⟨pieces, cut, fun _ other => cut.unique other⟩, fun _ other => other.substitute_eq,
    substitute_brace, substitute_of_none⟩

/-- The fragment looks like a placeholder and stands as it is. -/
theorem substitute_fills_cut_sample :
    (∀ p : Placeholder ["\x7b1\x7d", "x"], ¬ p.text <:+: ['!']) ∧
      substitute ["\x7b1\x7d", "x"] "\x7b\x7b0\x7d!".toList = "\x7b[lua(\x7b1\x7d)]!".toList := by
  have none : ∀ p : Placeholder ["\x7b1\x7d", "x"], ¬ p.text <:+: ['!'] := by
    intro p within
    have brace : '{' ∈ ['!'] := within.subset List.mem_cons_self
    revert brace
    decide
  have filled := (substitute_fills_cut ["\x7b1\x7d", "x"] ['!']).2.2.1
    ⟨['0'], by decide, by simp, by decide, by decide⟩ ['!']
  rw [(substitute_fills_cut ["\x7b1\x7d", "x"] ['!']).2.2.2 none] at filled
  exact ⟨none, filled⟩

end Dialogue.Command
