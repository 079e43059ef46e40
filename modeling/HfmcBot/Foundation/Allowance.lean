import Mathlib.Algebra.BigOperators.Group.List.Basic
import Mathlib.Algebra.Order.Ring.Nat

/-!
# Allowances

Something is spent from a credit that grows with time.  Credit is counted in fractions,
`unit` of which pay for one thing spent, and it grows by `rate` fractions in one tick of the
clock.

* `spentIn`: what a log spends in a window of time;
* `Covered`: a log in the order of its times that its credit pays for, where nothing is
  spent from more than `burst`;
* `Covered.window`: such a log spends no more in any window than `burst` and what the window
  earns.
-/

namespace HfmcBot
namespace Foundation

/-- How much was spent, and when. -/
structure Spent where
  time : Nat
  amount : Nat
  deriving DecidableEq

/-- What is spent in a window, both ends included. -/
def spentIn (s t : Nat) (log : List Spent) : Nat :=
  ((log.filter fun e => s ≤ e.time ∧ e.time ≤ t).map Spent.amount).sum

theorem spentIn_cons (s t : Nat) (e : Spent) (log : List Spent) :
    spentIn s t (e :: log) =
      (if s ≤ e.time ∧ e.time ≤ t then e.amount else 0) + spentIn s t log := by
  unfold spentIn
  by_cases hin : s ≤ e.time ∧ e.time ≤ t
  · rw [List.filter_cons_of_pos (by simpa using hin), if_pos hin]
    simp
  · rw [List.filter_cons_of_neg (by simpa using hin), if_neg hin]
    simp

/-- The credit at some time pays for the log: each entry leaves what is left of the credit,
and what is really spent is never taken from more than `burst`. -/
inductive Covered (unit rate burst : Nat) : Nat → Nat → List Spent → Prop
  | nil (credit now : Nat) : Covered unit rate burst credit now []
  | cons {credit now left : Nat} {e : Spent} {log : List Spent} (horder : now ≤ e.time)
      (hpaid : unit * e.amount + left ≤ credit + rate * (e.time - now))
      (hburst : 0 < e.amount → unit * e.amount + left ≤ burst)
      (hrest : Covered unit rate burst left e.time log) :
      Covered unit rate burst credit now (e :: log)

section Credit

variable {unit rate burst : Nat}

/-- Nothing is spent before the time the log starts at. -/
theorem Covered.spentIn_eq_zero {credit now : Nat} {log : List Spent}
    (h : Covered unit rate burst credit now log) {s t : Nat} (ht : t < now) :
    spentIn s t log = 0 := by
  induction h with
  | nil => rfl
  | cons horder _ _ _ ih =>
      rw [spentIn_cons, if_neg (by omega), ih (by omega)]

/-- Two stretches of time earn what they earn together. -/
theorem earned_add {a b c : Nat} (hab : a ≤ b) (hbc : b ≤ c) :
    rate * (b - a) + rate * (c - b) = rate * (c - a) := by
  rw [← Nat.mul_add]
  congr 1
  omega

/-- Up to any time, no more is spent than the credit and what was earned since. -/
theorem Covered.spent_le {credit now : Nat} {log : List Spent}
    (h : Covered unit rate burst credit now log) (s : Nat) {t : Nat} (ht : now ≤ t) :
    unit * spentIn s t log ≤ credit + rate * (t - now) := by
  induction h with
  | nil =>
      rw [show spentIn s t [] = 0 from rfl, Nat.mul_zero]
      exact Nat.zero_le _
  | @cons credit now left e log horder hpaid _ hrest ih =>
      rw [spentIn_cons, Nat.mul_add]
      by_cases hlate : e.time ≤ t
      · have hleft := ih hlate
        have hsplit : rate * (e.time - now) + rate * (t - e.time) = rate * (t - now) :=
          earned_add horder hlate
        have hentry : unit * (if s ≤ e.time ∧ e.time ≤ t then e.amount else 0) ≤
            unit * e.amount := by
          split
          · exact Nat.le_refl _
          · exact Nat.zero_le _
        omega
      · rw [if_neg (by omega), hrest.spentIn_eq_zero (by omega)]
        exact Nat.zero_le _

/-- A window spends no more than `burst` and what it earns. -/
theorem Covered.window {credit now : Nat} {log : List Spent}
    (h : Covered unit rate burst credit now log) (s t : Nat) :
    unit * spentIn s t log ≤ burst + rate * (t - s) := by
  induction h with
  | nil =>
      rw [show spentIn s t [] = 0 from rfl, Nat.mul_zero]
      exact Nat.zero_le _
  | @cons credit now left e log _ _ hburst hrest ih =>
      rw [spentIn_cons, Nat.mul_add]
      by_cases hfirst : (s ≤ e.time ∧ e.time ≤ t) ∧ 0 < e.amount
      · -- The window starts to spend here, from no more than `burst`.
        obtain ⟨⟨hs, ht⟩, hspent⟩ := hfirst
        have hleft := hrest.spent_le s ht
        have hstart := hburst hspent
        have hearned : rate * (e.time - s) + rate * (t - e.time) = rate * (t - s) :=
          earned_add hs ht
        rw [if_pos ⟨hs, ht⟩]
        omega
      · have hnothing : (if s ≤ e.time ∧ e.time ≤ t then e.amount else 0) = 0 := by
          split
          · rename_i hin
            have hzero : ¬ 0 < e.amount := fun hspent => hfirst ⟨hin, hspent⟩
            omega
          · rfl
        rw [hnothing]
        omega

end Credit

end Foundation
end HfmcBot
