import HfmcBot.Config

/-!
# Strategy

Entry gate, funnel sizing and exit rules: the pure decision functions of
`strategy.rs` over one token's state.
-/

namespace HfmcBot

/-! ## Entry -/

/-- Reasons the entry gate rejects a launch. -/
inductive RejectReason
  | tooOld (ageSecs : Int) (maxSecs : UInt64)
  | tooIlliquid (liq min : Decimal)
  | devHoldTooHigh (hold max : Decimal)
  | notRenouncedOnMigrated (liq min : Decimal)
  | honeypot
  deriving DecidableEq

def RejectReason.text : RejectReason → Text
  | .tooOld age max => ["token too old: age ", .int age, "s > max ", .int max.toNat, "s"]
  | .tooIlliquid liq min => ["liquidity $", .dec liq, " below minimum $", .dec min]
  | .devHoldTooHigh hold max => ["creator holds ", .dec hold, "% > max ", .dec max, "%"]
  | .notRenouncedOnMigrated liq min =>
      ["mint not renounced on migrated pool (liquidity $", .dec liq, " >= $", .dec min, ")"]
  | .honeypot => ["honeypot detected"]

/-- Entry gate: all checks must pass. -/
def entryGate (launch : Launch) (now : DateTime) (cfg : Config) : Except RejectReason Unit :=
  let ageSecs := numSeconds (now - launch.createdAt)
  if asI64 cfg.entryMaxAgeSecs < ageSecs then
    .error (.tooOld ageSecs cfg.entryMaxAgeSecs)
  else if launch.liquidityUsd < cfg.minLiquidityUsd ∧ launch.onCurve = false then
    .error (.tooIlliquid launch.liquidityUsd cfg.minLiquidityUsd)
  else if cfg.maxDevHoldPct < launch.creatorHoldPct then
    .error (.devHoldTooHigh launch.creatorHoldPct cfg.maxDevHoldPct)
  else if launch.isHoneypot then
    .error .honeypot
  else if launch.onCurve = false ∧ launch.mintRenounced = false then
    .error (.notRenouncedOnMigrated launch.liquidityUsd cfg.minLiquidityUsd)
  else .ok ()

/-- Position sizing: the smaller of the risk cap and the hard cap, cut down to
the capital that is free. -/
def positionBudget (cfg : Config) (equity deployedUsd : Decimal) : Decimal :=
  let riskCap := equity * cfg.riskPerTradePct / 100
  let budget := min riskCap cfg.maxSinglePosUsd
  let free := equity - deployedUsd
  if free < 0 ∨ free < budget then max free 0 else budget

/-- Split `total` into `n` funnel slices, the remainder on the last one.  The
assertion `n ≥ 1` of the source is what `validate` checks; without a slice
there is no order to send. -/
def splitIntoSlices (total : Decimal) (n : Nat) : List Decimal :=
  if n = 0 then []
  else if n = 1 ∨ total ≤ 0 then [total]
  else
    let base := roundDp 4 (⌊total / n⌋ : Decimal)
    if base ≤ 0 then [total]
    else List.replicate (n - 1) base ++ [total - base * (n - 1 : Nat)]

theorem splitIntoSlices_ne_nil (total : Decimal) {n : Nat} (hn : 1 ≤ n) :
    splitIntoSlices total n ≠ [] := by
  unfold splitIntoSlices
  rw [if_neg (by omega)]
  dsimp only
  split_ifs <;> simp

/-! ## Exit -/

/-- Exit decision produced by the exit engine. -/
structure ExitDecision where
  reason : String
  deriving DecidableEq

/-- Raise the high-water mark to a new price. -/
def Position.mark (pos : Position) (price : Decimal) : Position :=
  if pos.highWater < price then { pos with highWater := price } else pos

/-- Update `pos` with a new price and return the exit decision, if any.  In flip
mode the promotion is checked first, so a breakout leaves the tick without a
time stop. -/
def onPrice (pos : Position) (price : Decimal) (now : DateTime) (cfg : Config) :
    Position × Option ExitDecision :=
  let pos := pos.mark price
  let pnlPct := pos.unrealizedPnlPct price
  match pos.mode with
  | .flip =>
      if cfg.convictionMinPct ≤ pnlPct then
        ({ pos with mode := .conviction }, none)
      else if cfg.takeProfitPct ≤ pnlPct then
        (pos, some ⟨"take_profit"⟩)
      else if price ≤ pos.highWater * (1 - cfg.stopLossPct / 100) then
        (pos, some ⟨"stop_loss"⟩)
      else if asI64 cfg.maxHoldSecs ≤ numSeconds (now - pos.openedAt) then
        (pos, some ⟨"max_hold"⟩)
      else (pos, none)
  | .conviction =>
      if price ≤ pos.highWater * (1 - cfg.trailPct / 100) then
        (pos, some ⟨"trail_stop"⟩)
      else if asI64 cfg.convictionMaxHoldSecs ≤ numSeconds (now - pos.openedAt) then
        (pos, some ⟨"conviction_max_hold"⟩)
      else (pos, none)

/-- Time-only exits, evaluated independently of price ticks. -/
def onTime (pos : Position) (now : DateTime) (cfg : Config) : Option ExitDecision :=
  let elapsed := numSeconds (now - pos.openedAt)
  match pos.mode with
  | .flip => if asI64 cfg.maxHoldSecs ≤ elapsed then some ⟨"max_hold"⟩ else none
  | .conviction =>
      if asI64 cfg.convictionMaxHoldSecs ≤ elapsed then some ⟨"conviction_max_hold"⟩ else none

/-! ## What a tick leaves alone

A tick may raise the high-water mark and promote the position; nothing else of
it changes. -/

/-- The fields of a position that no tick touches. -/
structure Position.SameHolding (p q : Position) : Prop where
  mint : q.mint = p.mint
  openedAt : q.openedAt = p.openedAt
  entryPrice : q.entryPrice = p.entryPrice
  qty : q.qty = p.qty
  costUsd : q.costUsd = p.costUsd
  exitAttempts : q.exitAttempts = p.exitAttempts
  stuck : q.stuck = p.stuck

theorem Position.mark_sameHolding (pos : Position) (price : Decimal) :
    pos.SameHolding (pos.mark price) := by
  unfold Position.mark
  split <;> constructor <;> rfl

@[simp] theorem Position.mark_mode (pos : Position) (price : Decimal) :
    (pos.mark price).mode = pos.mode := by
  unfold Position.mark
  split <;> rfl

@[simp] theorem Position.mark_highWater (pos : Position) (price : Decimal) :
    (pos.mark price).highWater = max pos.highWater price := by
  unfold Position.mark
  split
  · rename_i hlt
    exact (max_eq_right hlt.le).symm
  · rename_i hge
    exact (max_eq_left (not_lt.mp hge)).symm

@[simp] theorem Position.mark_unrealizedPnlPct (pos : Position) (price p : Decimal) :
    (pos.mark price).unrealizedPnlPct p = pos.unrealizedPnlPct p := by
  unfold Position.unrealizedPnlPct
  rw [(pos.mark_sameHolding price).entryPrice]

/-- The position after a tick is the marked one, possibly promoted. -/
theorem onPrice_fst (pos : Position) (price : Decimal) (now : DateTime) (cfg : Config) :
    (onPrice pos price now cfg).1 =
      if pos.mode = .flip ∧ cfg.convictionMinPct ≤ pos.unrealizedPnlPct price then
        { pos.mark price with mode := .conviction }
      else pos.mark price := by
  unfold onPrice
  simp only [Position.mark_mode, Position.mark_unrealizedPnlPct]
  cases pos.mode with
  | flip =>
      by_cases hpromote : cfg.convictionMinPct ≤ pos.unrealizedPnlPct price
      · simp [hpromote]
      · simp only [hpromote, if_false, and_false]
        split_ifs <;> rfl
  | conviction =>
      simp only [reduceCtorEq, false_and, if_false]
      split_ifs <;> rfl

theorem onPrice_sameHolding (pos : Position) (price : Decimal) (now : DateTime) (cfg : Config) :
    pos.SameHolding (onPrice pos price now cfg).1 := by
  rw [onPrice_fst]
  obtain ⟨h1, h2, h3, h4, h5, h6, h7⟩ := pos.mark_sameHolding price
  split <;> constructor <;> assumption

@[simp] theorem onPrice_highWater (pos : Position) (price : Decimal) (now : DateTime)
    (cfg : Config) : (onPrice pos price now cfg).1.highWater = max pos.highWater price := by
  rw [onPrice_fst]
  split <;> simp

/-- What a tick without an exit says about the price: a promotion, or every exit
rule of the mode holds off. -/
theorem onPrice_stays {pos : Position} {price : Decimal} {now : DateTime} {cfg : Config}
    (h : (onPrice pos price now cfg).2 = none) :
    (pos.mode = .flip ∧ cfg.convictionMinPct ≤ pos.unrealizedPnlPct price ∧
        (onPrice pos price now cfg).1.mode = .conviction) ∨
      (pos.mode = .flip ∧ pos.unrealizedPnlPct price < cfg.convictionMinPct ∧
        pos.unrealizedPnlPct price < cfg.takeProfitPct ∧
        max pos.highWater price * (1 - cfg.stopLossPct / 100) < price ∧
        (onPrice pos price now cfg).1.mode = .flip) ∨
      (pos.mode = .conviction ∧ max pos.highWater price * (1 - cfg.trailPct / 100) < price ∧
        (onPrice pos price now cfg).1.mode = .conviction) := by
  have hmode : (onPrice pos price now cfg).1.mode =
      if pos.mode = .flip ∧ cfg.convictionMinPct ≤ pos.unrealizedPnlPct price then .conviction
      else pos.mode := by
    rw [onPrice_fst]
    split
    · rfl
    · exact pos.mark_mode price
  rw [hmode]
  unfold onPrice at h
  dsimp only at h
  rw [Position.mark_mode, Position.mark_unrealizedPnlPct, Position.mark_highWater] at h
  cases hpos : pos.mode with
  | flip =>
      rw [hpos] at h
      dsimp only at h
      split_ifs at h with hpromote hprofit hstop hhold
      · exact Or.inl ⟨rfl, hpromote, if_pos ⟨rfl, hpromote⟩⟩
      · exact Or.inr (Or.inl ⟨rfl, not_le.mp hpromote, not_le.mp hprofit, not_le.mp hstop,
          if_neg fun hboth => hpromote hboth.2⟩)
  | conviction =>
      rw [hpos] at h
      dsimp only at h
      split_ifs at h with htrail hhold
      · exact Or.inr (Or.inr ⟨rfl, not_le.mp htrail, if_neg (by simp)⟩)

/-- No time stop is due before the limit of the mode. -/
theorem onTime_eq_none_iff {pos : Position} {now : DateTime} {cfg : Config} :
    onTime pos now cfg = none ↔
      numSeconds (now - pos.openedAt) <
        match pos.mode with
        | .flip => asI64 cfg.maxHoldSecs
        | .conviction => asI64 cfg.convictionMaxHoldSecs := by
  unfold onTime
  dsimp only
  cases pos.mode with
  | flip =>
      dsimp only
      rw [ite_eq_right_iff, ← not_le]
      simp
  | conviction =>
      dsimp only
      rw [ite_eq_right_iff, ← not_le]
      simp

end HfmcBot
