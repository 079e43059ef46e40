import Mathlib.Data.List.Basic

/-!
# A rate limit

A limiter remembers when it last let something through, and lets the next one through
when that is long enough ago.  What it turns away leaves no trace in it.

* `admitted`: what it lets through;
* `admitted_spaced`: that is spaced by the interval;
* `admitted_eq_self_iff`: it lets everything through exactly if everything is spaced
  already.
-/

namespace HfmcBot
namespace Foundation

variable {β : Type}

/-- Is the last time at least an interval ago?  A clock that runs backwards counts as
standing still. -/
def admits (interval : Nat) (last : Option Nat) (now : Nat) : Bool :=
  last.all fun t => decide (interval ≤ now - t)

/-- What the limiter lets through, after it last did so at `last`. -/
def admitted (interval : Nat) (time : β → Nat) : Option Nat → List β → List β
  | _, [] => []
  | last, b :: bs =>
      if admits interval last (time b) then b :: admitted interval time (some (time b)) bs
      else admitted interval time last bs

/-- Any two of these are at least the interval apart. -/
def Spaced (interval : Nat) (time : β → Nat) (bs : List β) : Prop :=
  bs.Pairwise fun a b => time a + interval ≤ time b

instance (interval : Nat) (time : β → Nat) (bs : List β) : Decidable (Spaced interval time bs) := by
  unfold Spaced
  infer_instance

section Limit

variable {interval : Nat} {time : β → Nat}

theorem admitted_sublist (last : Option Nat) (bs : List β) :
    (admitted interval time last bs).Sublist bs := by
  induction bs generalizing last with
  | nil => exact List.Sublist.refl _
  | cons b bs ih =>
      unfold admitted
      split
      · exact (ih _).cons_cons b
      · exact (ih _).cons b

/-- In the order of their times, with nothing before the last one let through. -/
def Later (time : β → Nat) (last : Option Nat) (bs : List β) : Prop :=
  (∀ t ∈ last, ∀ b ∈ bs, t ≤ time b) ∧ bs.Pairwise fun a b => time a ≤ time b

theorem Later.tail {last : Option Nat} {b : β} {bs : List β} (h : Later time last (b :: bs)) :
    Later time last bs :=
  ⟨fun t ht c hc => h.1 t ht c (List.mem_cons_of_mem b hc), (List.pairwise_cons.mp h.2).2⟩

theorem Later.next {last : Option Nat} {b : β} {bs : List β} (h : Later time last (b :: bs)) :
    Later time (some (time b)) bs := by
  refine ⟨fun t ht c hc => ?_, (List.pairwise_cons.mp h.2).2⟩
  obtain rfl := Option.some.inj ht
  exact (List.pairwise_cons.mp h.2).1 c hc

theorem admits_iff {last : Option Nat} {now : Nat} (h : ∀ t ∈ last, t ≤ now) :
    admits interval last now = true ↔ ∀ t ∈ last, t + interval ≤ now := by
  cases last with
  | none => simp [admits]
  | some t =>
      have hle : t ≤ now := h t rfl
      simp [admits]
      omega

/-- What is let through is spaced, also from what was let through before. -/
theorem admitted_spaced {last : Option Nat} {bs : List β} (h : Later time last bs) :
    (∀ t ∈ last, ∀ b ∈ admitted interval time last bs, t + interval ≤ time b) ∧
      Spaced interval time (admitted interval time last bs) := by
  induction bs generalizing last with
  | nil => exact ⟨by simp [admitted], List.Pairwise.nil⟩
  | cons b bs ih =>
      unfold admitted
      split
      · rename_i hadmits
        have hgap := (admits_iff fun t ht => h.1 t ht b (by simp)).mp hadmits
        obtain ⟨hfirst, hrest⟩ := ih h.next
        refine ⟨fun t ht c hc => ?_, List.pairwise_cons.mpr ⟨hfirst _ rfl, hrest⟩⟩
        have hb := hgap t ht
        rcases List.mem_cons.mp hc with rfl | hlater
        · exact hb
        · have hc' := hfirst _ rfl c hlater
          omega
      · exact ih h.tail

/-- Everything goes through exactly if it is spaced, also from what went through
before. -/
theorem admitted_eq_self_iff {last : Option Nat} {bs : List β} (h : Later time last bs) :
    admitted interval time last bs = bs ↔
      (∀ t ∈ last, ∀ b ∈ bs, t + interval ≤ time b) ∧ Spaced interval time bs := by
  constructor
  · intro hsame
    have hspaced : (∀ t ∈ last, ∀ b ∈ admitted interval time last bs, t + interval ≤ time b) ∧
        Spaced interval time (admitted interval time last bs) := admitted_spaced h
    rw [hsame] at hspaced
    exact hspaced
  · induction bs generalizing last with
    | nil => exact fun _ => rfl
    | cons b bs ih =>
        rintro ⟨hlast, hspaced⟩
        obtain ⟨hfirst, hrest⟩ := List.pairwise_cons.mp hspaced
        have hadmits : admits interval last (time b) = true :=
          (admits_iff fun t ht => h.1 t ht b (by simp)).mpr fun t ht => hlast t ht b (by simp)
        unfold admitted
        rw [if_pos hadmits, ih h.next ⟨fun t ht c hc => ?_, hrest⟩]
        obtain rfl := Option.some.inj ht
        exact hfirst c hc

end Limit

end Foundation
end HfmcBot
