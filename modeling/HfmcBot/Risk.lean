import HfmcBot.Config
import Mathlib.Data.List.DropRight

/-!
# Risk and controls

Kill switch, daily-loss breaker, order throttle and open-position cap of
`risk.rs`.  The throttle queue is a list with the oldest order first.
-/

namespace HfmcBot

/-- Why the breaker tripped. -/
inductive BlockReason
  | killSwitch
  | dailyLossLimit (pnl limit equity : Decimal)
  | openPositionCap (opened max : Nat)
  | throttled (count max : UInt32)
  deriving DecidableEq

def BlockReason.text : BlockReason → Text
  | .killSwitch => ["kill switch engaged"]
  | .dailyLossLimit pnl limit equity =>
      ["daily loss limit tripped: day P&L $", .dec pnl, " <= -", .dec limit, "% of equity $",
        .dec equity]
  | .openPositionCap opened max => ["max open positions reached: ", .int opened, "/", .int max]
  | .throttled count max =>
      ["trade throttle: ", .int count.toNat, " orders in last 60s >= max ", .int max.toNat, "/min"]

/-- Breaker and throttle state of a snapshot.  The open-position counter is
left out: the engine recomputes it from the restored book. -/
structure RiskState where
  dayRealizedPnl : Decimal
  day : Int
  dailyLossTripped : Bool
  kill : Bool
  recentOrders : List DateTime
  deriving DecidableEq

/-- Circuit-breaker and control state. -/
structure RiskEngine where
  cfg : Config
  equity : Decimal
  dayRealizedPnl : Decimal
  day : Int
  dailyLossTripped : Bool
  recentOrders : List DateTime
  openPositions : Nat
  kill : Bool
  deriving DecidableEq

namespace RiskEngine

/-- A fresh risk engine.  `today` is the wall-clock day of the boot. -/
def new (cfg : Config) (today : Int) : RiskEngine where
  cfg := cfg
  equity := cfg.equityUsd
  dayRealizedPnl := 0
  day := today
  dailyLossTripped := false
  recentOrders := []
  openPositions := 0
  kill := cfg.killSwitch

/-- True when any breaker is engaged. -/
def killSwitch (r : RiskEngine) : Bool := r.kill || r.dailyLossTripped

/-- Engage the manual kill switch.  It stays engaged until it is released. -/
def engageKillSwitch (r : RiskEngine) : RiskEngine := { r with kill := true }

def releaseKillSwitch (r : RiskEngine) : RiskEngine := { r with kill := false }

/-- The day P&L at or below which the daily-loss breaker trips. -/
def lossLimit (r : RiskEngine) : Decimal := -r.equity * r.cfg.dailyLossLimitPct / 100

/-- On a new UTC day the realized P&L resets and the daily-loss breaker
releases; a manual kill stays. -/
def maybeRollover (r : RiskEngine) (now : DateTime) : RiskEngine :=
  if dateNaive now ≠ r.day then
    { r with day := dateNaive now, dayRealizedPnl := 0, dailyLossTripped := false }
  else r

/-- Record the P&L of a closed trade; trips the daily-loss breaker. -/
def recordRealizedPnl (r : RiskEngine) (pnlUsd : Decimal) (now : DateTime) : RiskEngine :=
  let r := r.maybeRollover now
  let r := { r with dayRealizedPnl := r.dayRealizedPnl + pnlUsd }
  if r.dayRealizedPnl ≤ r.lossLimit ∧ r.dailyLossTripped = false then
    { r with dailyLossTripped := true }
  else r

def setOpenPositions (r : RiskEngine) (n : Nat) : RiskEngine := { r with openPositions := n }

def snapshotState (r : RiskEngine) : RiskState where
  dayRealizedPnl := r.dayRealizedPnl
  day := r.day
  dailyLossTripped := r.dailyLossTripped
  kill := r.kill
  recentOrders := r.recentOrders

/-- Restore a snapshot.  The manual kill flag is or-ed, never cleared. -/
def restoreState (r : RiskEngine) (snap : RiskState) : RiskEngine :=
  { r with
    dayRealizedPnl := snap.dayRealizedPnl
    day := snap.day
    dailyLossTripped := snap.dailyLossTripped
    kill := r.kill || snap.kill
    recentOrders := snap.recentOrders }

/-- Drop the orders at the front that are 60 whole seconds old or older. -/
def pruneOrders (r : RiskEngine) (now : DateTime) : RiskEngine :=
  { r with
    recentOrders := r.recentOrders.dropWhile fun front => 60 ≤ numSeconds (now - front) }

/-- Has the queue, counted as a `u32`, reached the throttle? -/
def throttleFull (r : RiskEngine) : Bool := r.cfg.maxTradesPerMin ≤ asU32 r.recentOrders.length

/-- May we open a new position right now? -/
def checkEntry (r : RiskEngine) (now : DateTime) : Except BlockReason Unit × RiskEngine :=
  let r := (r.maybeRollover now).pruneOrders now
  if r.dailyLossTripped ∨ r.dayRealizedPnl ≤ r.lossLimit then
    (.error (.dailyLossLimit r.dayRealizedPnl r.cfg.dailyLossLimitPct r.equity), r)
  else if r.kill then
    (.error .killSwitch, r)
  else if r.cfg.maxOpenPositions ≤ r.openPositions then
    (.error (.openPositionCap r.openPositions r.cfg.maxOpenPositions), r)
  else if r.throttleFull then
    (.error (.throttled (asU32 r.recentOrders.length) r.cfg.maxTradesPerMin), r)
  else (.ok (), r)

/-- `recent_orders.push_back(now)`. -/
def pushOrder (r : RiskEngine) (now : DateTime) : RiskEngine :=
  { r with recentOrders := r.recentOrders ++ [now] }

/-- May we send an order right now?  A granted order enters the queue. -/
def checkOrder (r : RiskEngine) (now : DateTime) : Except BlockReason Unit × RiskEngine :=
  let r := (r.maybeRollover now).pruneOrders now
  if r.throttleFull then
    (.error (.throttled (asU32 r.recentOrders.length) r.cfg.maxTradesPerMin), r)
  else (.ok (), r.pushOrder now)

/-- Sells are never blocked, but they count towards the throttle window. -/
def noteSide (r : RiskEngine) (side : Side) (now : DateTime) : RiskEngine :=
  if side = .sell then r.pushOrder now else r

/-! ## The two checks, inverted -/

/-- The state both checks look at: rolled over to the day and pruned. -/
def refresh (r : RiskEngine) (now : DateTime) : RiskEngine :=
  (r.maybeRollover now).pruneOrders now

/-- Whatever it answers, `check_entry` only refreshes the state. -/
theorem checkEntry_snd (r : RiskEngine) (now : DateTime) :
    (r.checkEntry now).2 = r.refresh now := by
  unfold checkEntry refresh
  simp only
  split_ifs <;> rfl

/-- What a passed `check_entry` established, on the refreshed state. -/
structure EntryOk (r : RiskEngine) : Prop where
  not_tripped : r.dailyLossTripped = false
  above_limit : r.lossLimit < r.dayRealizedPnl
  not_killed : r.kill = false
  below_cap : r.openPositions < r.cfg.maxOpenPositions
  below_throttle : r.throttleFull = false

theorem checkEntry_eq_ok_iff (r : RiskEngine) (now : DateTime) :
    (r.checkEntry now).1 = .ok () ↔ (r.refresh now).EntryOk := by
  unfold checkEntry refresh
  constructor
  · intro h
    simp only at h
    split_ifs at h with hloss hkill hcap hthrottle
    · rw [not_or] at hloss
      exact ⟨by simpa using hloss.1, not_le.mp hloss.2, by simpa using hkill, not_le.mp hcap,
        by simpa using hthrottle⟩
  · rintro ⟨h1, h2, h3, h4, h5⟩
    simp only [h1, h3, h5, not_le.mpr h2, not_le.mpr h4, Bool.false_eq_true, or_self, if_false]

/-- A refused order leaves the refreshed state, a granted one is queued behind
the refreshed window. -/
theorem checkOrder_cases (r : RiskEngine) (now : DateTime) :
    ((r.refresh now).throttleFull = true ∧
      ∃ block, r.checkOrder now = (.error block, r.refresh now)) ∨
    ((r.refresh now).throttleFull = false ∧
      r.checkOrder now = (.ok (), (r.refresh now).pushOrder now)) := by
  have hdef : r.checkOrder now =
      if (r.refresh now).throttleFull then
        (.error (.throttled (asU32 (r.refresh now).recentOrders.length)
          (r.refresh now).cfg.maxTradesPerMin), r.refresh now)
      else (.ok (), (r.refresh now).pushOrder now) := rfl
  cases hfull : (r.refresh now).throttleFull with
  | true => exact Or.inl ⟨rfl, _, by rw [hdef, hfull]; rfl⟩
  | false => exact Or.inr ⟨rfl, by rw [hdef, hfull]; rfl⟩

/-! ## Which fields an operation leaves alone -/

section Frame

variable (r : RiskEngine) (now : DateTime) (pnlUsd : Decimal) (n : Nat)

@[simp] theorem maybeRollover_cfg : (r.maybeRollover now).cfg = r.cfg := by
  unfold maybeRollover; split <;> rfl

@[simp] theorem maybeRollover_equity : (r.maybeRollover now).equity = r.equity := by
  unfold maybeRollover; split <;> rfl

@[simp] theorem maybeRollover_kill : (r.maybeRollover now).kill = r.kill := by
  unfold maybeRollover; split <;> rfl

@[simp] theorem maybeRollover_openPositions :
    (r.maybeRollover now).openPositions = r.openPositions := by
  unfold maybeRollover; split <;> rfl

@[simp] theorem maybeRollover_recentOrders :
    (r.maybeRollover now).recentOrders = r.recentOrders := by
  unfold maybeRollover; split <;> rfl

@[simp] theorem maybeRollover_day : (r.maybeRollover now).day = dateNaive now := by
  unfold maybeRollover
  split
  · rfl
  · rename_i hsame
    exact (not_not.mp hsame).symm

theorem maybeRollover_of_day (h : r.day = dateNaive now) : r.maybeRollover now = r := by
  unfold maybeRollover
  rw [if_neg (not_not.mpr h.symm)]

@[simp] theorem lossLimit_maybeRollover : (r.maybeRollover now).lossLimit = r.lossLimit := by
  simp [lossLimit]

@[simp] theorem refresh_cfg : (r.refresh now).cfg = r.cfg := by simp [refresh, pruneOrders]

@[simp] theorem refresh_equity : (r.refresh now).equity = r.equity := by simp [refresh, pruneOrders]

@[simp] theorem refresh_kill : (r.refresh now).kill = r.kill := by simp [refresh, pruneOrders]

@[simp] theorem refresh_openPositions : (r.refresh now).openPositions = r.openPositions := by
  simp [refresh, pruneOrders]

@[simp] theorem refresh_day : (r.refresh now).day = dateNaive now := by
  simp [refresh, pruneOrders]

@[simp] theorem refresh_dayRealizedPnl :
    (r.refresh now).dayRealizedPnl = (r.maybeRollover now).dayRealizedPnl := rfl

@[simp] theorem refresh_dailyLossTripped :
    (r.refresh now).dailyLossTripped = (r.maybeRollover now).dailyLossTripped := rfl

@[simp] theorem refresh_lossLimit : (r.refresh now).lossLimit = r.lossLimit := by
  simp [lossLimit]

theorem refresh_recentOrders :
    (r.refresh now).recentOrders =
      r.recentOrders.dropWhile fun front => 60 ≤ numSeconds (now - front) := by
  simp [refresh, pruneOrders]

/-- A second refresh at the same time changes nothing. -/
theorem refresh_refresh : (r.refresh now).refresh now = r.refresh now := by
  have hsame : (r.refresh now).maybeRollover now = r.refresh now :=
    maybeRollover_of_day _ _ (r.refresh_day now)
  rw [refresh, hsame]
  unfold refresh pruneOrders
  simp only [maybeRollover_recentOrders, List.dropWhile_idempotent]

/-- An order granted now is still in the queue now. -/
theorem refresh_pushOrder_recentOrders :
    (((r.refresh now).pushOrder now).refresh now).recentOrders =
      (r.refresh now).recentOrders ++ [now] := by
  have hidem := congrArg RiskEngine.recentOrders (r.refresh_refresh now)
  rw [refresh_recentOrders] at hidem
  have hfresh : [now].dropWhile (fun front => 60 ≤ numSeconds (now - front)) = [now] := by
    simp [numSeconds]
  rw [refresh_recentOrders]
  show ((r.refresh now).recentOrders ++ [now]).dropWhile _ = _
  rw [List.dropWhile_append, hidem, hfresh]
  cases (r.refresh now).recentOrders with
  | nil => rfl
  | cons front rest => rfl

@[simp] theorem noteSide_sell : r.noteSide .sell now = r.pushOrder now := rfl

@[simp] theorem recordRealizedPnl_cfg : (r.recordRealizedPnl pnlUsd now).cfg = r.cfg := by
  unfold recordRealizedPnl; dsimp only; split <;> simp

@[simp] theorem recordRealizedPnl_equity :
    (r.recordRealizedPnl pnlUsd now).equity = r.equity := by
  unfold recordRealizedPnl; dsimp only; split <;> simp

@[simp] theorem recordRealizedPnl_kill : (r.recordRealizedPnl pnlUsd now).kill = r.kill := by
  unfold recordRealizedPnl; dsimp only; split <;> simp

@[simp] theorem recordRealizedPnl_openPositions :
    (r.recordRealizedPnl pnlUsd now).openPositions = r.openPositions := by
  unfold recordRealizedPnl; dsimp only; split <;> simp

@[simp] theorem recordRealizedPnl_recentOrders :
    (r.recordRealizedPnl pnlUsd now).recentOrders = r.recentOrders := by
  unfold recordRealizedPnl; dsimp only; split <;> simp

@[simp] theorem recordRealizedPnl_day :
    (r.recordRealizedPnl pnlUsd now).day = dateNaive now := by
  unfold recordRealizedPnl; dsimp only; split <;> simp

theorem recordRealizedPnl_dayRealizedPnl :
    (r.recordRealizedPnl pnlUsd now).dayRealizedPnl =
      (r.maybeRollover now).dayRealizedPnl + pnlUsd := by
  unfold recordRealizedPnl; dsimp only; split <;> rfl

/-- The breaker after a close: it stays tripped, or the new sum trips it. -/
theorem recordRealizedPnl_dailyLossTripped :
    (r.recordRealizedPnl pnlUsd now).dailyLossTripped =
      ((r.maybeRollover now).dailyLossTripped ||
        decide ((r.maybeRollover now).dayRealizedPnl + pnlUsd ≤ r.lossLimit)) := by
  have hlimit : ({ r.maybeRollover now with
      dayRealizedPnl := (r.maybeRollover now).dayRealizedPnl + pnlUsd } : RiskEngine).lossLimit =
      r.lossLimit := by
    simp [lossLimit]
  unfold recordRealizedPnl
  dsimp only
  rw [hlimit]
  cases htrip : (r.maybeRollover now).dailyLossTripped with
  | true => simp
  | false =>
      by_cases hle : (r.maybeRollover now).dayRealizedPnl + pnlUsd ≤ r.lossLimit
      · simp [hle]
      · simp [hle]

end Frame

end RiskEngine

end HfmcBot
