import HfmcBot.Engine.Desk

/-!
# The life of a position

A position opens with the first buy that fills for its mint, counts the sells that fail,
and ends with the sell that fills.  `life` reads a value off the order history that is
set when the position opens and changed by each failed sell; `DeskStep.lives` says
that a field of the positions which behaves so is that value.

The counter of failed exits with its flag, and the opening time, are two such fields.  The
counter is a `u32`: it is the number of failed sells up to a multiple of `2 ^ 32`, while the
flag is set for good at the first failure that reaches the limit.
-/

namespace HfmcBot

open Foundation

section Life

variable {α : Type}

/-- What one order does to the value of a mint. -/
def lifeStep (onOpen : Fill → α) (onFail : α → α) (mint : Mint) (a : Option α) (s : Sent) :
    Option α :=
  match s.order, s.answer with
  | .buy _, .ok fill => if fill.mint = mint then some (a.getD (onOpen fill)) else a
  | .buy _, .error _ => a
  | .sell req, .ok _ => if req.mint = mint then none else a
  | .sell req, .error _ => if req.mint = mint then a.map onFail else a

/-- The value of a mint after a history: `none` while it is not held. -/
def life (onOpen : Fill → α) (onFail : α → α) (sent : List Sent) (mint : Mint) : Option α :=
  sent.foldl (lifeStep onOpen onFail mint) none

theorem life_concat (onOpen : Fill → α) (onFail : α → α) (sent : List Sent) (s : Sent)
    (mint : Mint) :
    life onOpen onFail (sent ++ [s]) mint =
      lifeStep onOpen onFail mint (life onOpen onFail sent mint) s := by
  unfold life
  rw [List.foldl_append]
  rfl

/-- A field of the positions that is set on opening and changed by failed sells only. -/
structure LifeField (cfg : Config) (view : Position → α) (onOpen : Fill → α) (onFail : α → α) :
    Prop where
  opened : ∀ fill launchpad liquidityUsd,
    view ((openedBy fill launchpad liquidityUsd).addFill fill liquidityUsd) = onOpen fill
  added : ∀ pos fill liquidityUsd, view (Position.addFill pos fill liquidityUsd) = view pos
  ticked : ∀ p pos, view (Engine.tickPosition cfg p pos).1 = view pos
  failed : ∀ pos, view (Position.failExit pos cfg.maxExitAttempts) = onFail (view pos)

variable {cfg : Config} {view : Position → α} {onOpen : Fill → α} {onFail : α → α}
  {σ : Type} {ex : Executor σ} {ev : Event} {d d' : Desk}

/-- The field is what the history says. -/
def Desk.Lives (view : Position → α) (onOpen : Fill → α) (onFail : α → α) (d : Desk) : Prop :=
  ∀ mint, (d.book.lookup mint).map view = life onOpen onFail d.sent mint

/-- Every step at the desk keeps the field and its history together. -/
theorem DeskStep.lives (hfield : LifeField cfg view onOpen onFail)
    (hstep : DeskStep ex cfg ev d d') (h : d.Lives view onOpen onFail) :
    d'.Lives view onOpen onFail := by
  intro mint
  cases hstep with
  | tick p pos hev hpos =>
      show ((d.book.insert p.mint _).lookup mint).map view = _
      by_cases hmint : mint = p.mint
      · subst hmint
        rw [Finmap.lookup_insert, Option.map_some, hfield.ticked, ← h p.mint, hpos,
          Option.map_some]
      · rw [Finmap.lookup_insert_of_ne _ hmint]
        exact h mint
  | buyFailed launch deadline slice orderId st err hev hbuy =>
      show _ = life onOpen onFail (d.sent ++ [_]) mint
      rw [life_concat]
      exact h mint
  | buyFilled launch deadline slice orderId st fill hev hbuy =>
      show ((d.book.insert fill.mint ((d.target fill launch).addFill fill
        launch.liquidityUsd)).lookup mint).map view = life onOpen onFail (d.sent ++ [_]) mint
      rw [life_concat]
      unfold lifeStep
      dsimp only
      by_cases hmint : fill.mint = mint
      · subst hmint
        rw [if_pos rfl, Finmap.lookup_insert, Option.map_some, ← h fill.mint]
        rcases d.target_cases fill launch with ⟨hnone, hnew⟩ | ⟨pos, hlookup, hold⟩
        · rw [hnew, hnone, hfield.opened]
          rfl
        · rw [hold, hlookup, hfield.added]
          rfl
      · rw [if_neg hmint, Finmap.lookup_insert_of_ne _ (Ne.symm hmint)]
        exact h mint
  | sellFailed pos refPrice liquidityUsd reason orderId st err hpos hsell =>
      show ((d.book.insert pos.mint (pos.failExit cfg.maxExitAttempts)).lookup mint).map view =
        life onOpen onFail (d.sent ++ [_]) mint
      rw [life_concat]
      unfold lifeStep
      show _ = if pos.mint = mint then _ else _
      by_cases hmint : pos.mint = mint
      · subst hmint
        rw [if_pos rfl, Finmap.lookup_insert, Option.map_some, hfield.failed, ← h pos.mint, hpos]
        rfl
      · rw [if_neg hmint, Finmap.lookup_insert_of_ne _ (Ne.symm hmint)]
        exact h mint
  | sellFilled pos refPrice liquidityUsd reason orderId st fill hpos hsell =>
      show ((d.book.erase pos.mint).lookup mint).map view =
        life onOpen onFail (d.sent ++ [_]) mint
      rw [life_concat]
      unfold lifeStep
      show _ = if pos.mint = mint then _ else _
      by_cases hmint : pos.mint = mint
      · subst hmint
        rw [if_pos rfl, Finmap.lookup_erase]
        rfl
      · rw [if_neg hmint, Finmap.lookup_erase_ne (Ne.symm hmint)]
        exact h mint

/-- A value of the history that is a function of another one. -/
theorem life_map {β : Type} {onOpen : Fill → α} {onFail : α → α} {onOpen' : Fill → β}
    {onFail' : β → β} (f : α → β) (hopen : ∀ fill, f (onOpen fill) = onOpen' fill)
    (hfail : ∀ a, f (onFail a) = onFail' (f a)) (sent : List Sent) (mint : Mint) :
    life onOpen' onFail' sent mint = (life onOpen onFail sent mint).map f := by
  induction sent using List.reverseRecOn with
  | nil => rfl
  | append_singleton sent s ih =>
      rw [life_concat, life_concat, ih]
      obtain ⟨order, answer⟩ := s
      cases hheld : life onOpen onFail sent mint with
      | none =>
          cases order <;> cases answer <;> simp only [lifeStep] <;> split <;> simp [hopen]
      | some a =>
          cases order <;> cases answer <;> simp only [lifeStep] <;> split <;> simp [hfail]

end Life

/-! ## Two fields -/

/-- The sells of a mint that failed since its position opened. -/
def failedSince (sent : List Sent) (mint : Mint) : Option Nat :=
  life (fun _ => 0) (fun n => n + 1) sent mint

/-- The time of the first buy fill of the open position. -/
def openedSince (sent : List Sent) (mint : Mint) : Option DateTime :=
  life (fun fill => fill.ts) id sent mint

/-- The counter of failed exits, and the flag. -/
def Position.exitCount (pos : Position) : UInt32 × Bool := (pos.exitAttempts, pos.stuck)

/-- What a failed exit does to the two. -/
def countExit (limit : UInt32) (a : UInt32 × Bool) : UInt32 × Bool :=
  (a.1 + 1, a.2 || decide (limit ≤ a.1 + 1))

theorem lifeField_exitCount (cfg : Config) :
    LifeField cfg Position.exitCount (fun _ => (0, false)) (countExit cfg.maxExitAttempts) where
  opened _ _ _ := rfl
  added _ _ _ := rfl
  ticked p pos := by
    obtain ⟨-, -, -, -, -, hattempts, hstuck⟩ := Engine.tickPosition_sameHolding cfg p pos
    unfold Position.exitCount
    rw [hattempts, hstuck]
  failed pos := by
    show (_, pos.stuck || (!pos.stuck && _)) = (_, pos.stuck || _)
    cases pos.stuck <;> rfl

theorem lifeField_openedAt (cfg : Config) :
    LifeField cfg Position.openedAt (fun fill => fill.ts) id where
  opened _ _ _ := rfl
  added _ _ _ := rfl
  ticked p pos := (Engine.tickPosition_sameHolding cfg p pos).openedAt
  failed _ := rfl

/-- One more failure, as the counter has it. -/
theorem countExit_ofNat (limit : UInt32) (n : Nat) :
    countExit limit (UInt32.ofNat n, decide (limit.toNat ≤ n)) =
      (UInt32.ofNat (n + 1), decide (limit.toNat ≤ n + 1)) := by
  have hnext : UInt32.ofNat n + 1 = UInt32.ofNat (n + 1) := (UInt32.ofNat_add n 1).symm
  unfold countExit
  rw [hnext, Prod.mk.injEq]
  refine ⟨rfl, ?_⟩
  by_cases hle : limit.toNat ≤ n
  · simp [hle]
    omega
  · -- below the limit nothing has wrapped yet
    have hlimit : limit.toNat < 2 ^ 32 := limit.toNat_lt
    have hsmall : (UInt32.ofNat (n + 1)).toNat = n + 1 :=
      UInt32.toNat_ofNat_of_lt' (show n + 1 < 2 ^ 32 by omega)
    have hreached : limit ≤ UInt32.ofNat n + 1 ↔ limit.toNat ≤ n + 1 := by
      rw [hnext, UInt32.le_iff_toNat_le, hsmall]
    simp [hle, hreached]

/-- The counter is the number of failed sells up to a multiple of `2 ^ 32`, and the flag says
that they have reached the limit. -/
theorem life_exitCount {limit : UInt32} (hlimit : 1 ≤ limit.toNat) (sent : List Sent)
    (mint : Mint) :
    life (fun _ => (0, false)) (countExit limit) sent mint =
      (failedSince sent mint).map fun n => (UInt32.ofNat n, decide (limit.toNat ≤ n)) := by
  refine life_map (fun n => (UInt32.ofNat n, decide (limit.toNat ≤ n))) (fun _ => ?_)
    (fun n => (countExit_ofNat limit n).symm) sent mint
  simp
  omega

/-- A counter that has reached the limit belongs to a position that is stuck. -/
def Desk.StuckAtLimit (cfg : Config) (d : Desk) : Prop :=
  ∀ mint pos, d.book.lookup mint = some pos → 0 < pos.exitAttempts →
    cfg.maxExitAttempts ≤ pos.exitAttempts → pos.stuck = true

theorem DeskStep.stuckAtLimit {σ : Type} {ex : Executor σ} {cfg : Config} {ev : Event}
    {d d' : Desk} (hstep : DeskStep ex cfg ev d d') (h : d.StuckAtLimit cfg) :
    d'.StuckAtLimit cfg := by
  intro mint q hq
  cases hstep with
  | tick p pos hev hpos =>
      rcases FiniteMap.lookup_insert_eq_some hq with ⟨-, rfl⟩ | ⟨-, hold⟩
      · obtain ⟨-, -, -, -, -, hattempts, hstuck⟩ := Engine.tickPosition_sameHolding cfg p pos
        rw [hattempts, hstuck]
        exact h _ pos hpos
      · exact h mint q hold
  | buyFailed launch deadline slice orderId st err hev hbuy => exact h mint q hq
  | buyFilled launch deadline slice orderId st fill hev hbuy =>
      rcases FiniteMap.lookup_insert_eq_some hq with ⟨-, rfl⟩ | ⟨-, hold⟩
      · show 0 < (d.target fill launch).exitAttempts →
          cfg.maxExitAttempts ≤ (d.target fill launch).exitAttempts →
            (d.target fill launch).stuck = true
        rcases d.target_cases fill launch with ⟨-, hnew⟩ | ⟨pos, hlookup, hheld⟩
        · rw [hnew]
          intro hpos
          exact absurd hpos (by simp [openedBy])
        · rw [hheld]
          exact h _ pos hlookup
      · exact h mint q hold
  | sellFailed pos refPrice liquidityUsd reason orderId st err hpos hsell =>
      rcases FiniteMap.lookup_insert_eq_some hq with ⟨-, rfl⟩ | ⟨-, hold⟩
      · intro _ hreached
        have hnow : cfg.maxExitAttempts ≤ pos.exitAttempts + 1 := hreached
        show (pos.stuck || (!pos.stuck && decide (cfg.maxExitAttempts ≤ pos.exitAttempts + 1))) =
          true
        rw [decide_eq_true hnow]
        cases pos.stuck <;> rfl
      · exact h mint q hold
  | sellFilled pos refPrice liquidityUsd reason orderId st fill hpos hsell =>
      exact h mint q (FiniteMap.lookup_erase_eq_some hq).2

end HfmcBot
