import HfmcBot.Foundation.Allowance
import HfmcBot.Foundation.Runs
import HfmcBot.Live.Upstream

/-!
# The governor over a schedule

A schedule of `try_take` calls on a clock that never runs backwards, and the tokens it is
granted.  A call happens at the reading it computes the elapsed time from.

The mark only moves when something was earned.  A full bucket therefore keeps the time
since its mark, and a call that takes a token from it there starts from more than the
capacity (`CarriesFraction`).

* `governor_bounded`: without such a call, a window is granted no more than the capacity and
  what it earns;
* `carried_overAdmits`: any such call can be continued to a window that is granted more.
-/

namespace HfmcBot

open Foundation

/-- A call of `try_take`: the tokens and the two clock readings of its refill. -/
structure TakeCall where
  n : Nat
  read : Nat
  reread : Nat

/-- The clock never runs backwards, neither within a call nor between two. -/
def Clocked : Nat → List TakeCall → Prop
  | _, [] => True
  | now, k :: ks => now ≤ k.read ∧ k.read ≤ k.reread ∧ Clocked k.reread ks

namespace TokenBucket

/-- The time mark of the last refill that earned something. -/
def mark (b : TokenBucket) : Nat := b.lastRefill

/-- Whole tokens earned since the mark. -/
def earned (b : TokenBucket) (read : Nat) : Nat :=
  (read - b.mark) * b.refillPerSec / 1000000000 % 2 ^ 64

/-- The bucket after a call. -/
def after (b : TokenBucket) (k : TakeCall) : TokenBucket := (b.tryTake k.n k.read k.reread).2

/-- The tokens a call is granted. -/
def granted (b : TokenBucket) (k : TakeCall) : Nat :=
  if (b.tryTake k.n k.read k.reread).1 then k.n else 0

/-- What each call of a schedule is granted. -/
def grants : TokenBucket → List TakeCall → List Spent
  | _, [] => []
  | b, k :: ks => ⟨k.read, b.granted k⟩ :: (b.after k).grants ks

/-- The call takes from a full bucket that has earned a fraction of a token. -/
def CarriesFraction (b : TokenBucket) (k : TakeCall) : Prop :=
  b.available = b.capacity ∧ b.mark < k.read ∧ b.earned k.read = 0 ∧
    0 < k.n ∧ k.n ≤ b.capacity

/-! ## One refill -/

theorem refill_eq (b : TokenBucket) (read reread : Nat) :
    b.refill read reread =
      if read - b.mark = 0 then b
      else if 0 < b.earned read then
        { b with
          available := min (min (b.available + b.earned read) (2 ^ 64 - 1)) b.capacity
          lastRefill := reread }
      else b := rfl

theorem refill_of_earned {b : TokenBucket} {read : Nat} (reread : Nat)
    (h : 0 < b.earned read) :
    b.refill read reread =
      { b with
        available := min (min (b.available + b.earned read) (2 ^ 64 - 1)) b.capacity
        lastRefill := reread } := by
  have helapsed : read - b.mark ≠ 0 := by
    intro hzero
    simp [earned, hzero] at h
  rw [refill_eq, if_neg helapsed, if_pos h]

theorem refill_of_nothing {b : TokenBucket} {read : Nat} (reread : Nat)
    (h : b.earned read = 0) : b.refill read reread = b := by
  rw [refill_eq, h]
  simp

/-! ## The credit of a bucket -/

/-- What a bucket is worth at some time, in billionths of a token: the tokens in it, and
what accrued since the mark. -/
def credit (b : TokenBucket) (now : Nat) : Nat :=
  1000000000 * b.available + (now - b.mark) * b.refillPerSec % (2 ^ 64 * 1000000000)

/-- Nothing accrued before the mark. -/
theorem credit_of_le_mark {b : TokenBucket} {now : Nat} (h : now ≤ b.mark) :
    b.credit now = 1000000000 * b.available := by
  have helapsed : now - b.mark = 0 := by omega
  unfold credit
  rw [helapsed, Nat.zero_mul, Nat.zero_mod, Nat.add_zero]

/-- The whole tokens of what accrued are those earned. -/
theorem accrued_eq (b : TokenBucket) (read : Nat) :
    1000000000 * b.earned read ≤
        (read - b.mark) * b.refillPerSec % (2 ^ 64 * 1000000000) ∧
      (b.earned read = 0 →
        (read - b.mark) * b.refillPerSec % (2 ^ 64 * 1000000000) < 1000000000) := by
  unfold earned
  rw [← Nat.mod_mul_left_div_self]
  omega

theorem credit_grows (b : TokenBucket) {now later : Nat} (h : now ≤ later) :
    b.credit later ≤ b.credit now + b.refillPerSec * (later - now) := by
  have hmod : ∀ x y m : Nat, (x + y) % m ≤ x % m + y := by
    intro x y m
    rw [Nat.add_mod]
    exact (Nat.mod_le _ _).trans (Nat.add_le_add_left (Nat.mod_le y m) _)
  unfold credit
  by_cases hmark : b.mark ≤ now
  · have hsplit : (later - b.mark) * b.refillPerSec =
        (now - b.mark) * b.refillPerSec + b.refillPerSec * (later - now) := by
      rw [Nat.mul_comm b.refillPerSec, ← Nat.add_mul]
      congr 1
      omega
    have haccrued := hmod ((now - b.mark) * b.refillPerSec)
      (b.refillPerSec * (later - now)) (2 ^ 64 * 1000000000)
    rw [hsplit]
    omega
  · have hless : (later - b.mark) * b.refillPerSec % (2 ^ 64 * 1000000000) ≤
        b.refillPerSec * (later - now) := by
      refine (Nat.mod_le _ _).trans ?_
      rw [Nat.mul_comm]
      exact Nat.mul_le_mul_left _ (by omega)
    omega

/-- Tokens taken come out of the credit. -/
theorem credit_spend {b : TokenBucket} {n : Nat} (h : n ≤ b.available) (now : Nat) :
    1000000000 * n + ({ b with available := b.available - n } : TokenBucket).credit now =
      b.credit now := by
  show 1000000000 * n + (1000000000 * (b.available - n) +
      (now - b.mark) * b.refillPerSec % (2 ^ 64 * 1000000000)) =
    1000000000 * b.available + (now - b.mark) * b.refillPerSec % (2 ^ 64 * 1000000000)
  omega

/-- A refill makes nothing of nothing. -/
theorem credit_refill_le (b : TokenBucket) {read reread : Nat} (h : read ≤ reread) :
    (b.refill read reread).credit read ≤ b.credit read := by
  rcases Nat.eq_zero_or_pos (b.earned read) with hnothing | hearned
  · rw [refill_of_nothing reread hnothing]
  · have haccrued := (accrued_eq b read).1
    rw [refill_of_earned reread hearned, credit_of_le_mark h]
    unfold credit
    dsimp only
    omega

/-! ## One call -/

@[simp]
theorem refill_capacity (b : TokenBucket) (read reread : Nat) :
    (b.refill read reread).capacity = b.capacity := by
  rw [refill_eq]
  split
  · rfl
  · split <;> rfl

@[simp]
theorem refill_refillPerSec (b : TokenBucket) (read reread : Nat) :
    (b.refill read reread).refillPerSec = b.refillPerSec := by
  rw [refill_eq]
  split
  · rfl
  · split <;> rfl

/-- A call refills and takes what it is granted. -/
theorem after_eq (b : TokenBucket) (k : TakeCall) :
    b.after k =
        { b.refill k.read k.reread with
          available := (b.refill k.read k.reread).available - b.granted k } ∧
      b.granted k ≤ (b.refill k.read k.reread).available := by
  unfold after granted tryTake
  by_cases hthere : k.n ≤ (b.refill k.read k.reread).available
  · simp only [hthere, if_true]
    exact ⟨trivial, trivial⟩
  · simp only [hthere, if_false]
    exact ⟨rfl, Nat.zero_le _⟩

/-- A call is granted all it asks for or nothing. -/
theorem granted_eq_of_pos {b : TokenBucket} {k : TakeCall} (h : 0 < b.granted k) :
    b.granted k = k.n := by
  unfold granted at h ⊢
  split at h
  · rename_i hyes
    exact if_pos hyes
  · omega

@[simp]
theorem after_capacity (b : TokenBucket) (k : TakeCall) : (b.after k).capacity = b.capacity := by
  rw [(after_eq b k).1, refill_capacity]

@[simp]
theorem after_refillPerSec (b : TokenBucket) (k : TakeCall) :
    (b.after k).refillPerSec = b.refillPerSec := by
  rw [(after_eq b k).1, refill_refillPerSec]

theorem refill_available_le {b : TokenBucket} (h : b.available ≤ b.capacity)
    (read reread : Nat) : (b.refill read reread).available ≤ b.capacity := by
  rcases Nat.eq_zero_or_pos (b.earned read) with hnothing | hearned
  · rw [refill_of_nothing reread hnothing]
    exact h
  · rw [refill_of_earned reread hearned]
    exact Nat.min_le_right _ _

theorem after_available_le {b : TokenBucket} (h : b.available ≤ b.capacity) (k : TakeCall) :
    (b.after k).available ≤ b.capacity := by
  have hrefilled := refill_available_le h k.read k.reread
  rw [(after_eq b k).1]
  dsimp only
  omega

/-- The credit after a call and what it was granted come out of the refilled bucket. -/
theorem credit_after (b : TokenBucket) (k : TakeCall) (now : Nat) :
    1000000000 * b.granted k + (b.after k).credit now =
      (b.refill k.read k.reread).credit now := by
  obtain ⟨hafter, hgranted⟩ := after_eq b k
  rw [hafter]
  exact credit_spend hgranted now

/-- A call is paid for by the credit there was. -/
theorem credit_pays (b : TokenBucket) {k : TakeCall} {now : Nat} (hnow : now ≤ k.read)
    (hclock : k.read ≤ k.reread) :
    1000000000 * b.granted k + (b.after k).credit k.read ≤
      b.credit now + b.refillPerSec * (k.read - now) := by
  rw [credit_after]
  exact (credit_refill_le b hclock).trans (credit_grows b hnow)

/-- A call that takes no token from a carried fraction takes from no more than the
capacity. -/
theorem credit_capped {b : TokenBucket} {k : TakeCall} (hfull : b.available ≤ b.capacity)
    (hclock : k.read ≤ k.reread) (hwhole : ¬ b.CarriesFraction k) (hgranted : 0 < b.granted k) :
    1000000000 * b.granted k + (b.after k).credit k.read ≤ 1000000000 * b.capacity := by
  rw [credit_after]
  have hcap := refill_available_le hfull k.read k.reread
  rcases Nat.eq_zero_or_pos (b.earned k.read) with hnothing | hearned
  · have hn := granted_eq_of_pos hgranted
    have hthere := (after_eq b k).2
    have hfraction := (accrued_eq b k.read).2 hnothing
    rw [refill_of_nothing k.reread hnothing] at hthere ⊢
    by_cases hmark : b.mark < k.read
    · have hless : b.available ≠ b.capacity :=
        fun heq => hwhole ⟨heq, hmark, hnothing, by omega, by omega⟩
      unfold credit
      omega
    · rw [credit_of_le_mark (by omega)]
      omega
  · rw [refill_of_earned k.reread hearned] at hcap ⊢
    rw [credit_of_le_mark hclock]
    exact Nat.mul_le_mul_left _ hcap

/-! ## A schedule -/

/-- The grants of a schedule are covered by the credit of the bucket. -/
theorem grants_covered (ks : List TakeCall) : ∀ (b : TokenBucket) (now : Nat),
    b.available ≤ b.capacity → Clocked now ks →
    Along after (fun b k => ¬ b.CarriesFraction k) b ks →
    Covered 1000000000 b.refillPerSec (1000000000 * b.capacity) (b.credit now) now
      (b.grants ks) := by
  induction ks with
  | nil => exact fun b now _ _ _ => Covered.nil _ _
  | cons k ks ih =>
      rintro b now hfull ⟨hnow, hclock, hlater⟩ ⟨hwhole, hrest⟩
      have hread : Clocked k.read ks := by
        cases ks with
        | nil => trivial
        | cons k' ks => exact ⟨hclock.trans hlater.1, hlater.2⟩
      have htail := ih (b.after k) k.read
        (by rw [after_capacity]; exact after_available_le hfull k) hread hrest
      rw [after_capacity, after_refillPerSec] at htail
      exact Covered.cons hnow (credit_pays b hnow hclock)
        (fun hgranted => credit_capped hfull hclock hwhole hgranted) htail

/-! ## Where the fraction goes -/

theorem granted_eq (b : TokenBucket) (k : TakeCall) :
    b.granted k = if k.n ≤ (b.refill k.read k.reread).available then k.n else 0 := by
  unfold granted tryTake
  dsimp only
  split <;> simp

/-- While nothing is earned, a call takes from the bucket as it is. -/
theorem take_of_nothing {b : TokenBucket} {k : TakeCall} (hnothing : b.earned k.read = 0)
    (hthere : k.n ≤ b.available) :
    b.granted k = k.n ∧ b.after k = { b with available := b.available - k.n } := by
  have hgranted : b.granted k = k.n := by
    rw [granted_eq, refill_of_nothing k.reread hnothing, if_pos hthere]
  refine ⟨hgranted, ?_⟩
  rw [(after_eq b k).1, refill_of_nothing k.reread hnothing, hgranted]

/-- When the first token is earned, it is there for a single take. -/
theorem take_first {b : TokenBucket} {t : Nat} (hrate : b.refillPerSec < 2 ^ 64)
    (hcap : 0 < b.capacity) (hfirst : 1000000000 ≤ (t - b.mark) * b.refillPerSec)
    (hsoon : (t - b.mark) * b.refillPerSec < 1000000000 + b.refillPerSec) :
    b.granted ⟨1, t, t⟩ = 1 := by
  have hearned : 0 < b.earned t := by
    unfold earned
    generalize (t - b.mark) * b.refillPerSec = accrued at hfirst hsoon
    omega
  rw [granted_eq]
  dsimp only
  rw [refill_of_earned t hearned]
  exact if_pos (by dsimp only; omega)

/-- The tick at which a needed amount has been earned, and not much more. -/
theorem exists_first_tick {rate : Nat} (hpos : 0 < rate) (need : Nat) :
    ∃ ticks, need ≤ ticks * rate ∧ ticks * rate < need + rate := by
  have hceil := Nat.div_add_mod (need + rate - 1) rate
  have hmod := Nat.mod_lt (need + rate - 1) hpos
  refine ⟨(need + rate - 1) / rate, ?_, ?_⟩
  · rw [Nat.mul_comm]
    omega
  · rw [Nat.mul_comm]
    omega

/-- After some ticks, less than the needed amount is left to earn. -/
theorem earned_rest_lt {rate need elapsed ticks : Nat} (helapsed : 0 < elapsed)
    (hle : elapsed ≤ ticks) (hticks : ticks * rate < need + rate) :
    rate * (ticks - elapsed) < need := by
  have hsplit : rate * (ticks - elapsed) + rate * elapsed = ticks * rate := by
    rw [← Nat.mul_add, Nat.mul_comm ticks]
    congr 1
    omega
  have hone : rate ≤ rate * elapsed := Nat.le_mul_of_pos_right _ helapsed
  omega

/-- A call that carries a fraction, and after it the rest of the bucket at the same time. -/
theorem drain_of_carries {b : TokenBucket} {k : TakeCall} (h : b.CarriesFraction k) :
    let first : TakeCall := { k with reread := k.read }
    let rest : TakeCall := ⟨b.capacity - k.n, k.read, k.read⟩
    b.granted first = k.n ∧ (b.after first).granted rest = b.capacity - k.n ∧
      (b.after first).after rest = { b with available := 0 } := by
  intro first rest
  obtain ⟨hfull, -, hnothing, -, hfits⟩ := h
  obtain ⟨hfirst, hafter⟩ : b.granted first = k.n ∧
      b.after first = { b with available := b.available - k.n } :=
    take_of_nothing hnothing (by show k.n ≤ b.available; omega)
  obtain ⟨hrest, hdrained⟩ :=
    take_of_nothing (b := { b with available := b.available - k.n }) (k := rest) hnothing
      (by show b.capacity - k.n ≤ b.available - k.n; omega)
  rw [hafter]
  refine ⟨hfirst, hrest, hdrained.trans ?_⟩
  show ({ b with available := b.available - k.n - (b.capacity - k.n) } : TokenBucket) = _
  rw [hfull, Nat.sub_self]

/-- A call that carries a fraction can always be followed by the rest of the bucket and by
the token the fraction helps to earn, and then the window from the call on is granted more
than the capacity and what it earns. -/
theorem carried_overAdmits {b : TokenBucket} {k : TakeCall} (hcarries : b.CarriesFraction k)
    (hfraction : (k.read - b.mark) * b.refillPerSec < 1000000000) (hpos : 0 < b.refillPerSec)
    (hrate : b.refillPerSec < 2 ^ 64) :
    ∃ ks t, Clocked k.read ks ∧
      1000000000 * b.capacity + b.refillPerSec * (t - k.read) <
        1000000000 * spentIn k.read t (b.grants ({ k with reread := k.read } :: ks)) := by
  let first : TakeCall := { k with reread := k.read }
  let rest : TakeCall := ⟨b.capacity - k.n, k.read, k.read⟩
  obtain ⟨hfirst, hrest, hdrained⟩ : b.granted first = k.n ∧
      (b.after first).granted rest = b.capacity - k.n ∧
      (b.after first).after rest = { b with available := 0 } := drain_of_carries hcarries
  obtain ⟨-, hmark, -, hn, hfits⟩ := hcarries
  obtain ⟨ticks, henough, hless⟩ := exists_first_tick hpos 1000000000
  have hlater : k.read - b.mark < ticks :=
    Nat.lt_of_mul_lt_mul_right (lt_of_lt_of_le hfraction henough)
  have hearns : b.refillPerSec * (b.mark + ticks - k.read) < 1000000000 := by
    have hleft := earned_rest_lt (by omega) hlater.le hless
    rwa [show b.mark + ticks - k.read = ticks - (k.read - b.mark) by omega]
  let last : TakeCall := ⟨1, b.mark + ticks, b.mark + ticks⟩
  have hlast : ({ b with available := 0 } : TokenBucket).granted last = 1 := by
    refine take_first hrate (by show 0 < b.capacity; omega) ?_ ?_
    · show 1000000000 ≤ (b.mark + ticks - b.mark) * b.refillPerSec
      rwa [Nat.add_sub_cancel_left]
    · show (b.mark + ticks - b.mark) * b.refillPerSec < 1000000000 + b.refillPerSec
      rwa [Nat.add_sub_cancel_left]
  have hinside : k.read ≤ b.mark + ticks := by omega
  refine ⟨[rest, last], b.mark + ticks, ⟨Nat.le_refl _, Nat.le_refl _, hinside, Nat.le_refl _,
    trivial⟩, ?_⟩
  have hall : spentIn k.read (b.mark + ticks)
      (b.grants (first :: [rest, last])) = b.capacity + 1 := by
    simp only [grants, spentIn_cons, hfirst, hrest, hdrained, hlast]
    rw [if_pos ⟨Nat.le_refl _, hinside⟩, if_pos ⟨Nat.le_refl _, hinside⟩,
      if_pos ⟨hinside, Nat.le_refl _⟩, show spentIn _ _ [] = 0 from rfl]
    omega
  rw [hall]
  omega

/-! ## The bound -/

/-- A schedule in which no call takes from a carried fraction is granted, in every window of
time, at most the capacity and what the rate earns over the window. -/
theorem governor_bounded (capacity refillPerSec created : Nat) (ks : List TakeCall)
    (hclock : Clocked created ks)
    (hwhole : Along after (fun b k => ¬ b.CarriesFraction k) (new capacity refillPerSec created) ks)
    (s t : Nat) :
    1000000000 * spentIn s t ((new capacity refillPerSec created).grants ks) ≤
      1000000000 * capacity + refillPerSec * (t - s) :=
  (grants_covered ks (new capacity refillPerSec created) created (Nat.le_refl _) hclock
    hwhole).window s t

instance (b : TokenBucket) (k : TakeCall) : Decidable (b.CarriesFraction k) := by
  unfold CarriesFraction
  infer_instance

/-- Two tokens at once, one too many, and the first earned one. -/
theorem governor_bounded_burst :
    1000000000 * spentIn 7 1000000007
        ((new 2 1 7).grants [⟨1, 7, 7⟩, ⟨1, 7, 7⟩, ⟨1, 7, 7⟩, ⟨1, 1000000007, 1000000009⟩]) ≤
      1000000000 * 2 + 1 * (1000000007 - 7) :=
  governor_bounded 2 1 7 [⟨1, 7, 7⟩, ⟨1, 7, 7⟩, ⟨1, 7, 7⟩, ⟨1, 1000000007, 1000000009⟩]
    (by simp [Clocked]) ⟨by decide, by decide, by decide, by decide, trivial⟩ 7 1000000007

/-- One second after its creation a bucket of two tokens and one token a second has granted
three within a tenth of a second. -/
theorem governor_overAdmits :
    ¬ ∀ (capacity refillPerSec created : Nat) (ks : List TakeCall), 1 ≤ refillPerSec →
      Clocked created ks → ∀ s t, s ≤ t →
        1000000000 * spentIn s t ((new capacity refillPerSec created).grants ks) ≤
          1000000000 * capacity + refillPerSec * (t - s) := by
  intro h
  have hbound := h 2 1 0
    [⟨1, 900000000, 900000000⟩, ⟨1, 900000000, 900000000⟩, ⟨1, 1000000000, 1000000000⟩]
    (by decide) (by simp [Clocked]) 900000000 1000000000 (by decide)
  exact absurd hbound (by decide)

end TokenBucket

end HfmcBot
