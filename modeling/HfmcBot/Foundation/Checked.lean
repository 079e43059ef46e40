import Mathlib.Algebra.Order.Field.Rat
import Mathlib.Algebra.BigOperators.Group.List.Basic
import Mathlib.Data.List.Perm.Subperm
import Mathlib.Data.List.Sublists
import Mathlib.Data.Rat.Cast.Order

/-!
# Checked arithmetic

Arithmetic on numbers with a largest magnitude.  An operator computes the exact
result, stops if that is beyond the limit or if a divisor is zero, and rounds it
otherwise; the rounding is a parameter.

* `fit`, `add`, `sub`, `mul`, `div`: the operators, and `sum` over a list;
* `fit_of_lt`, `fit_of_le`, `div_of_ne`: when they stop, and what they give otherwise;
* `Finishes`: a sequence of them gets through; the rules for it turn a sequence into the
  ranges of its results;
* `SumsExactly.sum_eq`: a sum in which nothing has to be rounded.
-/

namespace HfmcBot
namespace Foundation

/-- Why an operator stops. -/
inductive ArithStop
  | overflow
  | divisionByZero
  deriving DecidableEq

/-- A number format: its largest magnitude and its rounding. -/
structure NumberFormat where
  limit : ℚ
  round : ℚ → ℚ

namespace NumberFormat

variable (fmt : NumberFormat)

/-- The exact result, if it is within the limit. -/
def fit (x : ℚ) : Except ArithStop ℚ :=
  if fmt.limit < |x| then .error .overflow else .ok (fmt.round x)

def add (x y : ℚ) : Except ArithStop ℚ := fmt.fit (x + y)

def sub (x y : ℚ) : Except ArithStop ℚ := fmt.fit (x - y)

def mul (x y : ℚ) : Except ArithStop ℚ := fmt.fit (x * y)

def div (x y : ℚ) : Except ArithStop ℚ :=
  if y = 0 then .error .divisionByZero else fmt.fit (x / y)

/-- The sum of a list, from zero and in its order. -/
def sum (xs : List ℚ) : Except ArithStop ℚ := xs.foldlM fmt.add 0

variable {fmt} {x y z : ℚ}

theorem fit_of_lt (h : fmt.limit < |x|) : fmt.fit x = .error .overflow := by
  rw [fit, if_pos h]

theorem fit_of_le (h : |x| ≤ fmt.limit) : fmt.fit x = .ok (fmt.round x) := by
  rw [fit, if_neg (not_lt.mpr h)]

theorem div_of_ne (h : y ≠ 0) : fmt.div x y = fmt.fit (x / y) := by
  rw [div, if_neg h]

end NumberFormat

/-- Nothing is rounded in any sum of some of the numbers. -/
def NumberFormat.SumsExactly (fmt : NumberFormat) (xs : List ℚ) : Prop :=
  ∀ ys : List ℚ, ys.Subperm xs → fmt.fit ys.sum = .ok ys.sum

namespace NumberFormat

variable {fmt : NumberFormat} {xs ys : List ℚ}

/-- It is enough to look at the sums of the sublists. -/
theorem sumsExactly_of_sublists
    (h : ∀ ys ∈ xs.sublists, fmt.fit ys.sum = .ok ys.sum) : fmt.SumsExactly xs := by
  rintro ys ⟨zs, hperm, hsub⟩
  rw [← hperm.sum_eq]
  exact h zs (List.mem_sublists.mpr hsub)

theorem SumsExactly.perm (h : fmt.SumsExactly xs) (hperm : xs.Perm ys) : fmt.SumsExactly ys :=
  fun zs hzs => h zs (hzs.trans hperm.symm.subperm)

/-- Nothing is rounded in any running sum from a start. -/
def RunsExactly (fmt : NumberFormat) (start : ℚ) (xs : List ℚ) : Prop :=
  ∀ ys, ys <+: xs → fmt.fit (start + ys.sum) = .ok (start + ys.sum)

/-- The first running sum is exact, and the others are those from there. -/
theorem RunsExactly.step (h : fmt.RunsExactly x (y :: xs)) :
    fmt.add x y = .ok (x + y) ∧ fmt.RunsExactly (x + y) xs := by
  constructor
  · have hfirst := h [y] (by simp)
    rwa [List.sum_singleton] at hfirst
  · intro ys hys
    have hnext := h (y :: ys) (List.prefix_cons_inj y |>.mpr hys)
    rwa [List.sum_cons, ← add_assoc] at hnext

/-- Where no sum of some is rounded, no running sum is, in any order. -/
theorem SumsExactly.runs (h : fmt.SumsExactly (x :: xs)) (hperm : ys.Perm xs) :
    fmt.RunsExactly x ys := by
  intro zs hzs
  have hsub : zs.Subperm xs := hzs.sublist.subperm.trans hperm.subperm
  have hexact := h (x :: zs) ((List.subperm_cons x).mpr hsub)
  rwa [List.sum_cons] at hexact

theorem RunsExactly.foldlM_eq (h : fmt.RunsExactly x xs) :
    xs.foldlM fmt.add x = .ok (x + xs.sum) := by
  induction xs generalizing x with
  | nil => rw [List.sum_nil, add_zero]; rfl
  | cons y xs ih =>
      obtain ⟨hfirst, hrest⟩ := h.step
      rw [List.foldlM_cons, hfirst]
      show xs.foldlM fmt.add (x + y) = _
      rw [ih hrest, List.sum_cons, add_assoc]

/-- The sum of such numbers is exact. -/
theorem SumsExactly.sum_eq (h : fmt.SumsExactly xs) : fmt.sum xs = .ok xs.sum := by
  have hruns : fmt.RunsExactly 0 xs := by
    intro ys hys
    rw [zero_add]
    exact h ys hys.sublist.subperm
  have hfold := hruns.foldlM_eq
  rwa [zero_add] at hfold

end NumberFormat

/-- A sequence that gets through has got through its first part. -/
theorem exists_of_except_bind {ε α β : Type} {x : Except ε α} {f : α → Except ε β} {b : β}
    (h : (x >>= f) = .ok b) : ∃ a, x = .ok a ∧ f a = .ok b := by
  cases x with
  | error e => cases h
  | ok a => exact ⟨a, rfl, h⟩

/-! ## Getting through -/

/-- The sequence does not stop. -/
def Finishes {ε α : Type} (x : Except ε α) : Prop := ∃ a, x = .ok a

section Finishes

variable {ε α β : Type}

@[simp] theorem finishes_ok (a : α) : Finishes (.ok a : Except ε α) := ⟨a, rfl⟩

@[simp] theorem finishes_pure (a : α) : Finishes (pure a : Except ε α) := ⟨a, rfl⟩

@[simp] theorem not_finishes_error (e : ε) : ¬ Finishes (.error e : Except ε α) :=
  fun ⟨_, h⟩ => nomatch h

theorem finishes_iff_isOk {x : Except ε α} : Finishes x ↔ x.isOk = true := by
  cases x with
  | error e => exact iff_of_false (not_finishes_error e) Bool.false_ne_true
  | ok a => exact iff_of_true (finishes_ok a) rfl

theorem finishes_ite {p : Prop} [Decidable p] {x y : Except ε α} :
    Finishes (if p then x else y) ↔ (p → Finishes x) ∧ (¬ p → Finishes y) := by
  by_cases h : p
  · simp [h]
  · simp [h]

/-- A sequence gets through if its first part does, and the rest from what that gives. -/
theorem finishes_bind_iff {x : Except ε α} {f : α → Except ε β} :
    Finishes (x >>= f) ↔ Finishes x ∧ ∀ a, x = .ok a → Finishes (f a) := by
  cases x with
  | error e => exact iff_of_false (not_finishes_error e) fun h => not_finishes_error e h.1
  | ok a =>
      constructor
      · exact fun h => ⟨finishes_ok a, fun a' ha' => Except.ok.inj ha' ▸ h⟩
      · exact fun h => h.2 a rfl

@[simp] theorem finishes_map {x : Except ε α} {f : α → β} :
    Finishes (f <$> x) ↔ Finishes x := by
  cases x with
  | error e => exact iff_of_false (not_finishes_error e) (not_finishes_error e)
  | ok a => exact iff_of_true (finishes_ok (f a)) (finishes_ok a)

/-- A rest that does not look at what it is given. -/
theorem finishes_bind_const_iff {x : Except ε α} {f : α → Except ε β} {P : Prop}
    (hf : ∀ a, Finishes (f a) ↔ P) : Finishes (x >>= f) ↔ Finishes x ∧ P := by
  rw [finishes_bind_iff]
  constructor
  · rintro ⟨⟨a, ha⟩, hrest⟩
    exact ⟨⟨a, ha⟩, (hf a).mp (hrest a ha)⟩
  · rintro ⟨hx, hP⟩
    exact ⟨hx, fun a _ => (hf a).mpr hP⟩

end Finishes

namespace NumberFormat

/-- A result the operators do not stop at. -/
def Fits (fmt : NumberFormat) (x : ℚ) : Prop := |x| ≤ fmt.limit

section Operators

variable {fmt : NumberFormat} {β : Type} {x y : ℚ} {f : ℚ → Except ArithStop β}

theorem finishes_fit_iff : Finishes (fmt.fit x) ↔ fmt.Fits x := by
  unfold Fits
  rcases lt_or_ge fmt.limit |x| with hbeyond | hwithin
  · rw [fit_of_lt hbeyond]
    exact iff_of_false (not_finishes_error _) (not_le.mpr hbeyond)
  · rw [fit_of_le hwithin]
    exact iff_of_true (finishes_ok _) hwithin

theorem finishes_fit_bind_iff :
    Finishes (fmt.fit x >>= f) ↔ fmt.Fits x ∧ Finishes (f (fmt.round x)) := by
  rw [finishes_bind_iff, finishes_fit_iff]
  constructor
  · rintro ⟨hfits, hrest⟩
    exact ⟨hfits, hrest _ (fit_of_le hfits)⟩
  · rintro ⟨hfits, hrest⟩
    refine ⟨hfits, fun a ha => ?_⟩
    rw [fit_of_le hfits] at ha
    exact Except.ok.inj ha ▸ hrest

@[simp] theorem finishes_add_bind_iff :
    Finishes (fmt.add x y >>= f) ↔ fmt.Fits (x + y) ∧ Finishes (f (fmt.round (x + y))) :=
  finishes_fit_bind_iff

@[simp] theorem finishes_sub_bind_iff :
    Finishes (fmt.sub x y >>= f) ↔ fmt.Fits (x - y) ∧ Finishes (f (fmt.round (x - y))) :=
  finishes_fit_bind_iff

@[simp] theorem finishes_mul_bind_iff :
    Finishes (fmt.mul x y >>= f) ↔ fmt.Fits (x * y) ∧ Finishes (f (fmt.round (x * y))) :=
  finishes_fit_bind_iff

@[simp] theorem finishes_add_iff : Finishes (fmt.add x y) ↔ fmt.Fits (x + y) := finishes_fit_iff

@[simp] theorem finishes_sub_iff : Finishes (fmt.sub x y) ↔ fmt.Fits (x - y) := finishes_fit_iff

@[simp] theorem finishes_mul_iff : Finishes (fmt.mul x y) ↔ fmt.Fits (x * y) := finishes_fit_iff

@[simp] theorem finishes_div_iff : Finishes (fmt.div x y) ↔ y ≠ 0 ∧ fmt.Fits (x / y) := by
  by_cases hy : y = 0
  · rw [div, if_pos hy]
    exact iff_of_false (not_finishes_error _) fun h => h.1 hy
  · rw [div_of_ne hy, finishes_fit_iff]
    exact (and_iff_right hy).symm

@[simp] theorem finishes_div_bind_iff :
    Finishes (fmt.div x y >>= f) ↔
      y ≠ 0 ∧ fmt.Fits (x / y) ∧ Finishes (f (fmt.round (x / y))) := by
  by_cases hy : y = 0
  · rw [div, if_pos hy]
    exact iff_of_false (not_finishes_error _) fun h => h.1 hy
  · rw [div_of_ne hy, finishes_fit_bind_iff]
    exact (and_iff_right hy).symm

end Operators

end NumberFormat

/-- What every step preserves holds after a loop that gets through. -/
theorem foldlM_invariant {ε α β : Type} {P : β → Prop} {f : β → α → Except ε β}
    (hstep : ∀ b a b', P b → f b a = .ok b' → P b') {as : List α} {b b' : β} (hb : P b)
    (h : as.foldlM f b = .ok b') : P b' := by
  induction as generalizing b with
  | nil =>
      cases h
      exact hb
  | cons a as ih =>
      obtain ⟨m, hm, hrest⟩ := exists_of_except_bind h
      exact ih (hstep b a m hb hm) hrest

end Foundation
end HfmcBot
