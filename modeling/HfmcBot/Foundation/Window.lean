import Mathlib.Data.List.Basic
import Mathlib.Order.Defs.PartialOrder

/-!
# Sliding windows over a sorted history

A history grows at its end with non-decreasing entries, and a queue keeps a
final part of it: entries are pushed at the end and expired ones are dropped from
the front.  As long as everything that has left the queue is expired, dropping
the expired front leaves exactly the unexpired entries of the history.
-/

namespace HfmcBot
namespace Foundation

variable {α : Type} [Preorder α]

/-- Where expiry is inherited by smaller entries, dropping the expired front of a
sorted list drops all expired entries. -/
theorem dropWhile_eq_filter_of_sorted {expired : α → Bool}
    (hmono : ∀ a b, a ≤ b → expired b = true → expired a = true) {l : List α}
    (hl : l.Pairwise (· ≤ ·)) : l.dropWhile expired = l.filter fun a => !expired a := by
  induction l with
  | nil => rfl
  | cons a l ih =>
      rw [List.pairwise_cons] at hl
      cases ha : expired a with
      | true =>
          rw [List.dropWhile_cons_of_pos ha, List.filter_cons_of_neg (by simp [ha])]
          exact ih hl.2
      | false =>
          rw [List.dropWhile_cons_of_neg (by simp [ha]), List.filter_cons_of_pos (by simp [ha])]
          have hall : ∀ b ∈ l, (!expired b) = true := by
            intro b hb
            cases hexp : expired b with
            | false => rfl
            | true => exact absurd (hmono a b (hl.1 b hb) hexp) (by simp [ha])
          rw [List.filter_eq_self.mpr hall]

/-- The queue after its expired front has been dropped is the window of the
history. -/
theorem dropWhile_queue_eq_window {expired : α → Bool}
    (hmono : ∀ a b, a ≤ b → expired b = true → expired a = true) {gone queue : List α}
    (hsorted : (gone ++ queue).Pairwise (· ≤ ·)) (hgone : ∀ a ∈ gone, expired a = true) :
    queue.dropWhile expired = (gone ++ queue).filter fun a => !expired a := by
  have hnone : gone.filter (fun a => !expired a) = [] :=
    List.filter_eq_nil_iff.mpr fun a ha => by simp [hgone a ha]
  rw [List.filter_append, hnone, List.nil_append]
  exact dropWhile_eq_filter_of_sorted hmono (List.pairwise_append.mp hsorted).2.1

end Foundation
end HfmcBot
