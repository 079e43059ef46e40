import HfmcBot.Types

/-!
# Configuration

The thresholds of `config.rs` that the modelled code reads, and the boot check
`Config::validate`.  The paths, tokens and endpoint addresses that no modelled
function looks at are left out.

`validate` is a chain of early returns; `rejectIf` is one link of it, and
`Config.Accepted.checked` turns an accepted configuration into the list of facts the
chain established.
-/

namespace HfmcBot

inductive Mode
  | paper
  | live
  deriving DecidableEq

structure Config where
  mode : Mode
  -- capital
  equityUsd : Decimal
  -- entry gate
  entryMaxAgeSecs : UInt64
  minLiquidityUsd : Decimal
  maxDevHoldPct : Decimal
  maxSlippagePct : Decimal
  -- funnel entry
  funnelSlices : Nat
  funnelWindowSecs : UInt64
  -- sizing
  riskPerTradePct : Decimal
  maxSinglePosUsd : Decimal
  maxOpenPositions : Nat
  -- exit: flip mode
  takeProfitPct : Decimal
  stopLossPct : Decimal
  maxHoldSecs : UInt64
  maxExitAttempts : UInt32
  -- exit: conviction mode
  convictionMinPct : Decimal
  trailPct : Decimal
  convictionMaxHoldSecs : UInt64
  -- risk & controls
  dailyLossLimitPct : Decimal
  maxTradesPerMin : UInt32
  killSwitch : Bool
  -- paper execution
  paperSlippagePct : Decimal
  paperImpactCoeff : Decimal
  paperMaxSlippagePct : Decimal
  feeBps : UInt64
  -- observability
  metricsAddr : String
  heartbeatSecs : UInt64
  -- upstreams
  rpcUrl : String
  rpcFallbackUrls : List String
  jitoTipEntryLamports : UInt64
  jitoTipFlipLamports : UInt64
  jitoTipConvictionLamports : UInt64
  jitoTipAccounts : List String
  jupiterUrl : String
  jupiterQps : UInt32
  simulateOnly : Bool
  solUsd : Decimal
  bundleTimeoutSecs : UInt64
  blockhashTtlSecs : UInt64
  reconcileDustTokens : Decimal
  feedCommitment : String
  maxTradeSubs : Nat
  deriving DecidableEq

/-! ## The boot check -/

/-- The characters with the Unicode property `White_Space`, which `trim` cuts. -/
def isWhitespace (c : Char) : Bool :=
  let n := c.toNat
  (9 ≤ n && n ≤ 13) || n == 0x20 || n == 0x85 || n == 0xA0 || n == 0x1680 ||
    (0x2000 ≤ n && n ≤ 0x200A) || n == 0x2028 || n == 0x2029 || n == 0x202F ||
    n == 0x205F || n == 0x3000

/-- `s.trim().is_empty()`. -/
def isBlank (s : String) : Bool := s.toList.all isWhitespace

/-- One early return of a check: fail with the text if the condition holds. -/
def rejectIf (bad : Bool) (msg : Text) : Except Text Unit :=
  if bad then .error msg else .ok ()

@[simp] theorem rejectIf_bind_eq_ok_iff {α : Type} (bad : Bool) (msg : Text)
    (rest : Unit → Except Text α) (a : α) :
    (rejectIf bad msg >>= rest) = .ok a ↔ bad = false ∧ rest () = .ok a := by
  cases bad with
  | true => simp [rejectIf, bind, Except.bind]
  | false => simp [rejectIf, bind, Except.bind]

@[simp] theorem rejectIf_eq_ok_iff (bad : Bool) (msg : Text) :
    rejectIf bad msg = .ok () ↔ bad = false := by
  cases bad <;> simp [rejectIf]

/-- The closure `pos` of `validate`: the value must be positive. -/
def requirePos (v : Decimal) (name : String) : Except Text Unit :=
  rejectIf (decide (v ≤ 0)) [name, " must be > 0, got ", .dec v]

/-- The checks `v >= 0` of `validate`. -/
def requireNonneg (v : Decimal) (name : String) : Except Text Unit :=
  rejectIf (decide (v < 0)) [name, " must be >= 0, got ", .dec v]

/-- The tip-account loop: the first entry that is no pubkey is reported with its
index. -/
def checkTipAccounts (pubkeyOk : String → Bool) : Nat → List String → Except Text Unit
  | _, [] => .ok ()
  | i, acct :: rest => do
      rejectIf (!pubkeyOk acct)
        ["HFM_JITO_TIP_ACCOUNT entry ", .int i, " is not a valid base58 pubkey: '", acct, "'"]
      checkTipAccounts pubkeyOk (i + 1) rest

/-- Fail fast on nonsensical configuration.  `pubkeyOk` is the base58 pubkey
parser of the chain library. -/
def Config.validate (pubkeyOk : String → Bool) (cfg : Config) : Except Text Unit := do
  requirePos cfg.equityUsd "HFM_EQUITY_USD"
  requirePos cfg.minLiquidityUsd "HFM_MIN_LIQUIDITY_USD"
  requirePos cfg.maxSinglePosUsd "HFM_MAX_SINGLE_POS_USD"
  requirePos cfg.takeProfitPct "HFM_TAKE_PROFIT_PCT"
  requirePos cfg.stopLossPct "HFM_STOP_LOSS_PCT"
  requirePos cfg.trailPct "HFM_TRAIL_PCT"
  requirePos cfg.riskPerTradePct "HFM_RISK_PER_TRADE_PCT"
  requireNonneg cfg.paperSlippagePct "HFM_PAPER_SLIPPAGE_PCT"
  requireNonneg cfg.paperImpactCoeff "HFM_PAPER_IMPACT_COEFF"
  requirePos cfg.paperMaxSlippagePct "HFM_PAPER_MAX_SLIPPAGE_PCT"
  rejectIf (decide (100 < cfg.paperMaxSlippagePct))
    ["HFM_PAPER_MAX_SLIPPAGE_PCT must be <= 100, got ", .dec cfg.paperMaxSlippagePct]
  rejectIf (cfg.heartbeatSecs == 0) ["HFM_HEARTBEAT_SECS must be >= 1"]
  rejectIf (isBlank cfg.metricsAddr) ["HFM_METRICS_ADDR must not be empty"]
  rejectIf (cfg.funnelSlices == 0) ["HFM_FUNNEL_SLICES must be >= 1"]
  rejectIf (cfg.maxOpenPositions == 0) ["HFM_MAX_OPEN_POSITIONS must be >= 1"]
  rejectIf (cfg.maxTradesPerMin == 0) ["HFM_MAX_TRADES_PER_MIN must be >= 1"]
  rejectIf (cfg.maxExitAttempts == 0) ["HFM_MAX_EXIT_ATTEMPTS must be >= 1"]
  rejectIf (cfg.jupiterQps == 0) ["HFM_JUPITER_QPS must be >= 1"]
  rejectIf (cfg.bundleTimeoutSecs == 0) ["HFM_BUNDLE_TIMEOUT_SECS must be >= 1"]
  rejectIf (cfg.blockhashTtlSecs == 0) ["HFM_BLOCKHASH_TTL_SECS must be >= 1"]
  requireNonneg cfg.reconcileDustTokens "HFM_RECONCILE_DUST_TOKENS"
  rejectIf (cfg.maxTradeSubs == 0) ["HFM_MAX_TRADE_SUBS must be >= 1"]
  requireNonneg cfg.solUsd "HFM_SOL_USD"
  rejectIf (isBlank cfg.jupiterUrl) ["HFM_JUPITER_URL must not be empty"]
  rejectIf (isBlank cfg.rpcUrl) ["HFM_RPC_URL must not be empty"]
  rejectIf (cfg.rpcFallbackUrls.any isBlank)
    ["HFM_RPC_FALLBACK_URLS must not contain empty entries"]
  checkTipAccounts pubkeyOk 0 cfg.jitoTipAccounts
  rejectIf (not (["processed", "confirmed", "finalized"].contains cfg.feedCommitment))
    ["HFM_FEED_COMMITMENT must be processed|confirmed|finalized, got '", cfg.feedCommitment, "'"]
  rejectIf (cfg.mode == .live && decide (cfg.solUsd ≤ 0))
    ["HFM_MODE=live requires HFM_SOL_USD > 0 (buy path converts USD to lamports), got ",
      .dec cfg.solUsd]

/-- A configuration some boot accepted. -/
def Config.Accepted (cfg : Config) : Prop :=
  ∃ pubkeyOk : String → Bool, cfg.validate pubkeyOk = .ok ()

theorem checkTipAccounts_eq_ok_iff (pubkeyOk : String → Bool) (i : Nat) (accts : List String) :
    checkTipAccounts pubkeyOk i accts = .ok () ↔ ∀ acct ∈ accts, pubkeyOk acct = true := by
  induction accts generalizing i with
  | nil => simp [checkTipAccounts]
  | cons acct rest ih => simp [checkTipAccounts, ih]

theorem checkTipAccounts_bind_eq_ok_iff {α : Type} (pubkeyOk : String → Bool) (i : Nat)
    (accts : List String) (rest : Unit → Except Text α) (a : α) :
    (checkTipAccounts pubkeyOk i accts >>= rest) = .ok a ↔
      (∀ acct ∈ accts, pubkeyOk acct = true) ∧ rest () = .ok a := by
  rw [← checkTipAccounts_eq_ok_iff pubkeyOk i accts]
  cases checkTipAccounts pubkeyOk i accts with
  | error msg => simp [bind, Except.bind]
  | ok u => simp [bind, Except.bind]

/-- What `validate` established about the trading thresholds. -/
structure Config.Checked (cfg : Config) : Prop where
  equity_pos : 0 < cfg.equityUsd
  max_single_pos : 0 < cfg.maxSinglePosUsd
  take_profit_pos : 0 < cfg.takeProfitPct
  stop_loss_pos : 0 < cfg.stopLossPct
  trail_pos : 0 < cfg.trailPct
  risk_per_trade_pos : 0 < cfg.riskPerTradePct
  slippage_nonneg : 0 ≤ cfg.paperSlippagePct
  impact_nonneg : 0 ≤ cfg.paperImpactCoeff
  max_slippage_pos : 0 < cfg.paperMaxSlippagePct
  max_slippage_le : cfg.paperMaxSlippagePct ≤ 100
  slices_pos : 1 ≤ cfg.funnelSlices
  open_cap_pos : 1 ≤ cfg.maxOpenPositions
  throttle_pos : 1 ≤ cfg.maxTradesPerMin.toNat
  exit_attempts_pos : 1 ≤ cfg.maxExitAttempts.toNat
  ttl_pos : 1 ≤ cfg.blockhashTtlSecs.toNat
  dust_nonneg : 0 ≤ cfg.reconcileDustTokens
  sol_usd_nonneg : 0 ≤ cfg.solUsd

theorem Config.Accepted.checked {cfg : Config} (h : cfg.Accepted) : cfg.Checked := by
  obtain ⟨pubkeyOk, hok⟩ := h
  simp only [Config.validate, requirePos, requireNonneg, rejectIf_bind_eq_ok_iff,
    rejectIf_eq_ok_iff, checkTipAccounts_bind_eq_ok_iff, decide_eq_false_iff_not, not_le, not_lt,
    beq_eq_false_iff_ne] at hok
  obtain ⟨h1, -, h3, h4, h5, h6, h7, h8, h9, h10, h11, -, -, h14, h15, h16, h17, -, -, h20, h21,
    -, h23, -⟩ := hok
  refine ⟨h1, h3, h4, h5, h6, h7, h8, h9, h10, h11, by omega, by omega, ?_, ?_, ?_, h21, h23⟩
  · have := UInt32.toNat_inj.not.mpr h16
    simp at this
    omega
  · have := UInt32.toNat_inj.not.mpr h17
    simp at this
    omega
  · have := UInt64.toNat_inj.not.mpr h20
    simp at this
    omega

/-! ## Defaults -/

/-- The paper-mode defaults. -/
def Config.paperDefaults : Config where
  mode := .paper
  equityUsd := 50000
  entryMaxAgeSecs := 600
  minLiquidityUsd := 50000
  maxDevHoldPct := 10
  maxSlippagePct := 10
  funnelSlices := 3
  funnelWindowSecs := 5
  riskPerTradePct := 5 / 2
  maxSinglePosUsd := 5000
  maxOpenPositions := 12
  takeProfitPct := 120
  stopLossPct := 30
  maxHoldSecs := 21600
  maxExitAttempts := 5
  convictionMinPct := 300
  trailPct := 25
  convictionMaxHoldSecs := 15 * 86400
  dailyLossLimitPct := 10
  maxTradesPerMin := 6
  killSwitch := false
  paperSlippagePct := 2
  paperImpactCoeff := 1
  paperMaxSlippagePct := 50
  feeBps := 100
  metricsAddr := "127.0.0.1:9898"
  heartbeatSecs := 60
  rpcUrl := "https://example.invalid"
  rpcFallbackUrls := []
  jitoTipEntryLamports := 1000000
  jitoTipFlipLamports := 1000000
  jitoTipConvictionLamports := 1000000
  jitoTipAccounts := []
  jupiterUrl := "https://example.invalid"
  jupiterQps := 1
  simulateOnly := true
  solUsd := 0
  bundleTimeoutSecs := 60
  blockhashTtlSecs := 30
  reconcileDustTokens := 1 / 1000000
  feedCommitment := "processed"
  maxTradeSubs := 25

/-- The defaults pass their own check. -/
theorem Config.paperDefaults_accepted : Config.paperDefaults.Accepted :=
  ⟨fun _ => true, by decide +kernel⟩

end HfmcBot
