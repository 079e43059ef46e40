import Mathlib.Data.List.Infix

/-!
# The last separator

A sequence cut in two at the last occurrence of a separator.

* `splitAtLast`: the cut, with the separator at the head of the second part;
* `splitAtLast_eq_none_iff`, `splitAtLast_append`: what it answers without a separator, and
  with one;
* `exists_last`: the last occurrence there is.
-/

namespace HfmcBot
namespace Foundation

section Separator

variable {α : Type} [DecidableEq α]

/-- The part before the last `sep`, and the part from it on. -/
def splitAtLast (sep : α) : List α → Option (List α × List α)
  | [] => none
  | x :: rest =>
      match splitAtLast sep rest with
      | some (head, tail) => some (x :: head, tail)
      | none => if x = sep then some ([], x :: rest) else none

variable {sep : α} {xs head tail : List α}

theorem splitAtLast_eq_none_iff : splitAtLast sep xs = none ↔ sep ∉ xs := by
  induction xs with
  | nil => simp [splitAtLast]
  | cons x rest ih =>
      unfold splitAtLast
      cases hrest : splitAtLast sep rest with
      | some parts =>
          have hin : sep ∈ rest := by
            by_contra hout
            rw [ih.mpr hout] at hrest
            cases hrest
          simp [hin]
      | none =>
          have hout : sep ∉ rest := ih.mp hrest
          by_cases hx : x = sep
          · simp [hx]
          · simp [hx, hout, Ne.symm hx]

/-- Behind the separator of the cut there is no other one. -/
theorem splitAtLast_append (h : sep ∉ tail) :
    splitAtLast sep (head ++ sep :: tail) = some (head, sep :: tail) := by
  induction head with
  | nil => simp [splitAtLast, splitAtLast_eq_none_iff.mpr h]
  | cons x head ih => simp [splitAtLast, ih]

/-- Where the separator occurs at all, it occurs for the last time. -/
theorem exists_last (h : sep ∈ xs) : ∃ head tail, xs = head ++ sep :: tail ∧ sep ∉ tail := by
  induction xs with
  | nil => cases h
  | cons x rest ih =>
      by_cases hin : sep ∈ rest
      · obtain ⟨head, tail, rfl, hout⟩ := ih hin
        exact ⟨x :: head, tail, rfl, hout⟩
      · have hx : sep = x := by simpa [hin] using h
        exact ⟨[], rest, by rw [hx]; rfl, hin⟩

end Separator

end Foundation
end HfmcBot
