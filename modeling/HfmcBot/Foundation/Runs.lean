import Mathlib.Data.List.Induction
import Mathlib.Data.List.Nodup
import Mathlib.Logic.Relation
import Mathlib.Order.Defs.PartialOrder

/-!
# Invariants of runs

A run is a left fold of a step function over its inputs, and one input may be
worked off in small steps of a relation.  A few rules carry an invariant from a
single step to the whole run:

* `steps_invariant`, over the reflexive-transitive closure of a step relation;
* `run_invariant`, over a fold, and `run_invariant_along`, over a fold whose
  steps meet a condition;
* `nodup_run_iff_along`, for runs that collect marks;
* `timed_run_invariant_along`, over a fold whose inputs carry non-decreasing
  times, for invariants that speak about the time reached so far.
-/

namespace HfmcBot
namespace Foundation

open Relation

variable {α β : Type}

/-- What one step preserves, any number of steps preserve. -/
theorem steps_invariant {r : α → α → Prop} {P : α → Prop} (hstep : ∀ a b, r a b → P a → P b)
    {a b : α} (hsteps : ReflTransGen r a b) (ha : P a) : P b := by
  induction hsteps with
  | refl => exact ha
  | tail _ hlast ih => exact hstep _ _ hlast ih

/-- What one input preserves, a run preserves. -/
theorem run_invariant {f : α → β → α} {P : α → Prop} (hstep : ∀ a b, P a → P (f a b)) {a : α}
    (ha : P a) (bs : List β) : P (bs.foldl f a) := by
  induction bs generalizing a with
  | nil => exact ha
  | cons b bs ih => exact ih (hstep a b ha)

/-! ## Runs whose steps meet a condition -/

/-- Every step of the run meets the condition `C`, which may look at the state
before the step and at its input. -/
def Along (f : α → β → α) (C : α → β → Prop) : α → List β → Prop
  | _, [] => True
  | a, b :: bs => C a b ∧ Along f C (f a b) bs

instance decidableAlong (f : α → β → α) (C : α → β → Prop) [∀ a b, Decidable (C a b)] :
    ∀ (a : α) (bs : List β), Decidable (Along f C a bs)
  | _, [] => inferInstanceAs (Decidable True)
  | a, b :: bs =>
      have := decidableAlong f C (f a b) bs
      inferInstanceAs (Decidable (C a b ∧ Along f C (f a b) bs))

theorem along_append {f : α → β → α} {C : α → β → Prop} {a : α} {bs cs : List β} :
    Along f C a (bs ++ cs) ↔ Along f C a bs ∧ Along f C (bs.foldl f a) cs := by
  induction bs generalizing a with
  | nil => simp [Along]
  | cons b bs ih => simp only [List.cons_append, Along, ih, List.foldl_cons, and_assoc]

theorem along_concat {f : α → β → α} {C : α → β → Prop} {a : α} {bs : List β} {b : β} :
    Along f C a (bs ++ [b]) ↔ Along f C a bs ∧ C (bs.foldl f a) b := by
  rw [along_append]
  simp [Along]

theorem along_of_forall {f : α → β → α} {C : α → β → Prop} (h : ∀ a b, C a b) (a : α)
    (bs : List β) : Along f C a bs := by
  induction bs generalizing a with
  | nil => trivial
  | cons b bs ih => exact ⟨h a b, ih (f a b)⟩

/-- Where the condition decides whether one input preserves `P`, a run stays in `P`
all the way exactly if it runs along the condition. -/
theorem run_stays_iff_along {f : α → β → α} {C : α → β → Prop} {P : α → Prop}
    (hstep : ∀ a b, P a → (P (f a b) ↔ C a b)) {a : α} (ha : P a) (bs : List β) :
    (∀ before after, bs = before ++ after → P (before.foldl f a)) ↔ Along f C a bs := by
  induction bs generalizing a with
  | nil =>
      refine iff_of_true (fun before after hbs => ?_) trivial
      rw [(List.append_eq_nil_iff.mp hbs.symm).1]
      exact ha
  | cons b bs ih =>
      constructor
      · intro h
        have hfirst : P (f a b) := h [b] bs rfl
        refine ⟨(hstep a b ha).mp hfirst, (ih hfirst).mp fun before after hbs => ?_⟩
        exact h (b :: before) after (by rw [hbs, List.cons_append])
      · rintro ⟨hb, hrest⟩ before after hbs
        cases before with
        | nil => exact ha
        | cons c before =>
            obtain ⟨rfl, htail⟩ := List.cons.inj hbs
            exact (ih ((hstep a b ha).mpr hb)).mpr hrest before after htail

/-- What one input preserves under the condition, a run along it preserves. -/
theorem run_invariant_along {f : α → β → α} {C : α → β → Prop} {P : α → Prop}
    (hstep : ∀ a b, C a b → P a → P (f a b)) {a : α} (ha : P a) {bs : List β}
    (hbs : Along f C a bs) : P (bs.foldl f a) := by
  induction bs generalizing a with
  | nil => exact ha
  | cons b bs ih => exact ih (hstep a b hbs.1 ha) hbs.2

/-- Where each step adds at most one mark, no mark occurs twice in a run exactly if
every step adds a mark that was not there. -/
theorem nodup_run_iff_along {γ : Type} {f : α → β → α} (marks : α → List γ)
    {next : α → β → Option γ} (hstep : ∀ a b, marks (f a b) = marks a ++ (next a b).toList) {a : α}
    (ha : (marks a).Nodup) {bs : List β} :
    (marks (bs.foldl f a)).Nodup ↔ Along f (fun a b => ∀ m ∈ next a b, m ∉ marks a) a bs := by
  induction bs using List.reverseRecOn with
  | nil => exact iff_of_true ha trivial
  | append_singleton bs b ih =>
      rw [along_concat, ← ih, List.foldl_append, List.foldl_cons, List.foldl_nil, hstep]
      cases next (bs.foldl f a) b with
      | none => simp
      | some m =>
          rw [Option.toList_some, List.nodup_append_comm, List.singleton_append, List.nodup_cons]
          simp [and_comm]

/-! ## Runs against the clock -/

section Timed

variable {T : Type} [Preorder T]

/-- The inputs that carry a time arrive in the order of their times. -/
def InOrderOf (time : β → Option T) (bs : List β) : Prop := (bs.filterMap time).Pairwise (· ≤ ·)

theorem InOrderOf.of_append {time : β → Option T} {bs cs : List β}
    (h : InOrderOf time (bs ++ cs)) : InOrderOf time bs := by
  rw [InOrderOf, List.filterMap_append] at h
  exact (List.pairwise_append.mp h).1

theorem InOrderOf.le_last {time : β → Option T} {bs : List β} {c : β} {t : T}
    (h : InOrderOf time (bs ++ [c])) (ht : time c = some t) :
    ∀ s ∈ bs.filterMap time, s ≤ t := by
  rw [InOrderOf, List.filterMap_append] at h
  intro s hs
  exact (List.pairwise_append.mp h).2.2 s hs t (by simp [ht])

/-- An invariant `P t` of states at time `t` that survives waiting and single
inputs holds after a run, at any time no earlier than its inputs. -/
theorem timed_run_invariant_along (time : β → Option T) {f : α → β → α} {C : α → β → Prop}
    {P : T → α → Prop} (hwait : ∀ s t a, s ≤ t → P s a → P t a)
    (hstep : ∀ a b t, C a b → (time b = some t ∨ time b = none) → P t a → P t (f a b))
    {a : α} (ha : ∀ t, P t a) {bs : List β} (hbs : InOrderOf time bs) (hC : Along f C a bs) {t : T}
    (ht : ∀ s ∈ bs.filterMap time, s ≤ t) : P t (bs.foldl f a) := by
  induction bs using List.reverseRecOn generalizing t with
  | nil => exact ha t
  | append_singleton bs b ih =>
      rw [List.foldl_append, List.foldl_cons, List.foldl_nil]
      obtain ⟨hCbs, hCb⟩ := along_concat.mp hC
      rw [List.filterMap_append] at ht
      cases hb : time b with
      | none =>
          have hbefore : P t (bs.foldl f a) :=
            ih hbs.of_append hCbs fun s hs => ht s (List.mem_append_left _ hs)
          exact hstep _ _ _ hCb (Or.inr hb) hbefore
      | some s =>
          have hbefore : P s (bs.foldl f a) := ih hbs.of_append hCbs (hbs.le_last hb)
          exact hwait s t _ (ht s (by simp [hb])) (hstep _ _ _ hCb (Or.inl hb) hbefore)

/-- The inputs arrive in the order of their times. -/
def InTimeOrder (time : β → T) (bs : List β) : Prop := (bs.map time).Pairwise (· ≤ ·)

theorem InTimeOrder.of_append {time : β → T} {bs cs : List β} (h : InTimeOrder time (bs ++ cs)) :
    InTimeOrder time bs := by
  rw [InTimeOrder, List.map_append] at h
  exact (List.pairwise_append.mp h).1

/-- Every input of an initial part is no later than the input that follows it. -/
theorem InTimeOrder.le_last {time : β → T} {bs : List β} {c : β}
    (h : InTimeOrder time (bs ++ [c])) : ∀ b ∈ bs, time b ≤ time c := by
  rw [InTimeOrder, List.map_append] at h
  intro b hb
  exact (List.pairwise_append.mp h).2.2 _ (List.mem_map_of_mem hb) _ (by simp)

/-- The rule for runs in which every input carries a time. -/
theorem timed_run_invariant (time : β → T) {f : α → β → α} {P : T → α → Prop}
    (hwait : ∀ s t a, s ≤ t → P s a → P t a) (hstep : ∀ a b, P (time b) a → P (time b) (f a b))
    {a : α} (ha : ∀ t, P t a) {bs : List β} (hbs : InTimeOrder time bs) {t : T}
    (ht : ∀ b ∈ bs, time b ≤ t) : P t (bs.foldl f a) := by
  have htimes : bs.filterMap (fun b => some (time b)) = bs.map time :=
    congrFun List.filterMap_eq_map bs
  refine timed_run_invariant_along (fun b => some (time b)) (C := fun _ _ => True) hwait ?_ ha
    ?_ (along_of_forall (fun _ _ => trivial) a bs) ?_
  · rintro a b t - (hb | hb) hP
    · obtain rfl := Option.some.inj hb
      exact hstep a b hP
    · exact absurd hb (by simp)
  · rw [InOrderOf, htimes]
    exact hbs
  · rw [htimes]
    intro s hs
    obtain ⟨b, hb, rfl⟩ := List.mem_map.mp hs
    exact ht b hb

end Timed

end Foundation
end HfmcBot
