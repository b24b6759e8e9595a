import Dialogue.Lua.Fragment
import Dialogue.Proofs.Draft

/-!
The Lua source of an expression is never empty, so an entry whose conditions are empty is one
without a guard.
-/

set_option autoImplicit false
set_option relaxedAutoImplicit false

namespace Dialogue

namespace Decimal

private theorem positional_ne_nil (d : Digits) (wholeMark : List Char) :
    d.positional wholeMark ≠ [] := by
  unfold Digits.positional
  split
  · simp
  · split
    · next positive short =>
      intro empty
      have filled := congrArg List.length empty
      simp only [List.length_append, List.length_replicate, List.length_nil] at filled
      omega
    · simp

private theorem text_ne_empty (x : Float) : text x ≠ "" := by
  have magnitude : plain.magnitude x ≠ [] := by
    unfold Layout.magnitude
    split
    · exact List.cons_ne_nil _ _
    · simp only
      split
      · exact positional_ne_nil _ _
      · next never => exact absurd rfl never
  have written : plain.write x ≠ [] := by
    unfold Layout.write
    split
    · simp
    · simp only
      split
      · simp
      · split
        · simp
        · exact magnitude
  intro empty
  exact written (String.ofList_eq_empty_iff.mp empty)

end Decimal

namespace Lua

theorem append_ne_empty {s t : String} (h : t ≠ "") : s ++ t ≠ "" := by
  intro empty
  exact h (String.append_eq_empty_iff.mp empty).2

private theorem number_ne_empty (x : Float) : number x ≠ "" := by
  unfold number
  split
  · decide
  · split
    · split <;> decide
    · exact Decimal.text_ne_empty x

private theorem text_ne_empty (s : String) : text s ≠ "" := by
  intro empty
  have := String.ofList_eq_empty_iff.mp empty
  simp at this

private theorem literal_ne_empty (value : Literal) : literal value ≠ "" := by
  cases value with
  | bool b => cases b <;> decide
  | number x => exact number_ne_empty x
  | null => decide
  | text s => exact text_ne_empty s

private theorem unaryFragment_ne_empty {op : Operator} {operand t : String} (written : operand ≠ "")
    (h : unaryFragment op operand = .ok t) : t ≠ "" := by
  unfold unaryFragment at h
  split at h
  · cases h
    exact append_ne_empty written
  · cases h
    split <;> exact append_ne_empty written
  · cases h

private theorem call_ne_empty (name : String) (arguments : List String) :
    call name arguments ≠ "" := by
  unfold call
  split <;> exact append_ne_empty (by decide)

end Lua

private theorem Expr.lua_ne_empty : ∀ (e : Expr) {t : String}, e.lua = .ok t → t ≠ ""
  | .literal value, t, h => by
    simp only [Expr.lua, Except.ok.injEq] at h
    exact h ▸ Lua.literal_ne_empty value
  | .variable name, t, h => by
    simp only [Expr.lua, Except.ok.injEq] at h
    exact h ▸ Lua.append_ne_empty (by decide)
  | .group inner, t, h => by
    simp only [Expr.lua, bind_eq_ok_iff, pure_eq_ok_iff] at h
    obtain ⟨_, _, rfl⟩ := h
    exact Lua.append_ne_empty (by decide)
  | .unary op operand, t, h => by
    simp only [Expr.lua, bind_eq_ok_iff] at h
    obtain ⟨s, written, h⟩ := h
    exact Lua.unaryFragment_ne_empty (Expr.lua_ne_empty operand written) h
  | .binary op left right, t, h => by
    simp only [Expr.lua, bind_eq_ok_iff, pure_eq_ok_iff] at h
    obtain ⟨_, _, _, _, s, written, rfl⟩ := h
    exact Lua.append_ne_empty (Expr.lua_ne_empty right written)
  | .call name arguments, t, h => by
    simp only [Expr.lua, bind_eq_ok_iff, pure_eq_ok_iff] at h
    obtain ⟨_, _, rfl⟩ := h
    exact Lua.call_ne_empty name _

/-- The only fragment of a token list is that of a tree. -/
theorem Expression.fragment_ne_empty {tokens : Expression} {t : String}
    (h : tokens.fragment = .ok t) :
    t ≠ "" := by
  simp only [Expression.fragment, Expression.fragments, bind_eq_ok_iff] at h
  obtain ⟨found, ⟨trees, _, written⟩, h⟩ := h
  split at h
  · cases h
    cases trees with
    | nil => cases written
    | cons e rest =>
      simp only [Expr.luaList, bind_eq_ok_iff, pure_eq_ok_iff, List.cons.injEq] at written
      obtain ⟨s, first, _, _, rfl, _⟩ := written
      exact e.lua_ne_empty first
  · cases h

end Dialogue
