import HfmcBot.Live.Executor
import HfmcBot.Strategy

/-!
# Loading the configuration

`Config::from_env`: every variable is read in the order of the source, and the result has to
pass `validate`.  The fields that the model of the configuration leaves out are read with
`env_str` and `env_non_empty`, which cannot fail.

The conviction limit is given in days and multiplied without a check; whether an overflow
stops the program or wraps around is a setting of the build.  Both limits are cast to a
signed number where they are compared.

* `fromEnv`: the loader;
* `Boot.loads_fromEnv`: where the limits of a loaded configuration come from;
* `meansLimits_iff`: what the time stops make of them;
* `hold_limits_iff`: they mean what was written exactly below `2 ^ 63` seconds.
-/

namespace HfmcBot

/-- Why loading stops. -/
inductive BootStop
  | refused (msg : Text)
  | overflow
  deriving DecidableEq

/-- What a boot depends on: the variables that are set to Unicode texts, the libraries, and
whether the build checks integer overflow. -/
structure Boot where
  var : String → Option String
  parseDecimal : String → Except String Decimal
  lowercase : String → String
  pubkeyOk : String → Bool
  overflowChecks : Bool

namespace Boot

variable (boot : Boot)

/-- A variable that is set and not blank: a blank one counts as missing. -/
def nonBlank (key : String) : Option String := (boot.var key).filter fun raw => !isBlank raw

def envStr (key default : String) : String := (boot.var key).getD default

def envDec (key : String) (default : Decimal) : Except BootStop Decimal :=
  match boot.nonBlank key with
  | some raw =>
      match boot.parseDecimal (trim raw) with
      | .ok v => .ok v
      | .error e => .error (.refused [key, ": invalid decimal '", raw, "': ", e])
  | none => .ok default

/-- What is wrong with digits that are no `u64`, after a value read so far. -/
def digitsError : Nat → List Char → String
  | _, [] => "invalid digit found in string"
  | value, c :: rest =>
      if !c.isDigit then "invalid digit found in string"
      else if 2 ^ 64 ≤ 10 * value + (c.toNat - 48) then "number too large to fit in target type"
      else digitsError (10 * value + (c.toNat - 48)) rest

def envU64 (key : String) (default : UInt64) : Except BootStop UInt64 :=
  match boot.nonBlank key with
  | some raw =>
      match parseU64 (trim raw) with
      | some v => .ok v
      | none =>
          .error (.refused [key, ": invalid integer '", raw, "': ",
            digitsError 0 (dropPlus (trim raw).toList)])
  | none => .ok default

def envBool (key : String) (default : Bool) : Except BootStop Bool :=
  match boot.nonBlank key with
  | some raw =>
      let word := boot.lowercase (trim raw)
      if ["1", "true", "yes", "on"].contains word then .ok true
      else if ["0", "false", "no", "off"].contains word then .ok false
      else .error (.refused [key, ": invalid bool '", word, "'"])
  | none => .ok default

/-- Comma-separated entries, trimmed, empty ones dropped. -/
def envCsv (key : String) : List String :=
  match boot.var key with
  | some raw =>
      ((raw.toList.splitOn ',').map fun entry => trim (String.ofList entry)).filter
        fun entry => entry ≠ ""
  | none => []

def envMode : Except BootStop Mode :=
  let word := boot.lowercase (boot.envStr "HFM_MODE" "paper")
  if word = "paper" then .ok .paper
  else if word = "live" then .ok .live
  else .error (.refused ["invalid HFM_MODE '", word, "' (expected paper|live)"])

/-- A product of `u64`: beyond the word it stops a build that checks, and wraps around in one
that does not. -/
def mulU64 (a b : UInt64) : Except BootStop UInt64 :=
  if boot.overflowChecks = true ∧ 2 ^ 64 ≤ a.toNat * b.toNat then .error .overflow
  else .ok (a * b)

/-- Load from the environment. -/
def fromEnv : Except BootStop Config := do
  let mode ← boot.envMode
  -- Base tip first: each urgency tier defaults to it.
  let jitoTipLamports ← boot.envU64 "HFM_JITO_TIP_LAMPORTS" 1000000
  let cfg : Config := {
    mode := mode
    equityUsd := ← boot.envDec "HFM_EQUITY_USD" 50000
    entryMaxAgeSecs := ← boot.envU64 "HFM_ENTRY_MAX_AGE_SECS" 600
    minLiquidityUsd := ← boot.envDec "HFM_MIN_LIQUIDITY_USD" 50000
    maxDevHoldPct := ← boot.envDec "HFM_MAX_DEV_HOLD_PCT" 10
    maxSlippagePct := ← boot.envDec "HFM_MAX_SLIPPAGE_PCT" 10
    funnelSlices := (← boot.envU64 "HFM_FUNNEL_SLICES" 3).toNat
    funnelWindowSecs := ← boot.envU64 "HFM_FUNNEL_WINDOW_SECS" 5
    riskPerTradePct := ← boot.envDec "HFM_RISK_PER_TRADE_PCT" (5 / 2)
    maxSinglePosUsd := ← boot.envDec "HFM_MAX_SINGLE_POS_USD" 5000
    maxOpenPositions := (← boot.envU64 "HFM_MAX_OPEN_POSITIONS" 12).toNat
    takeProfitPct := ← boot.envDec "HFM_TAKE_PROFIT_PCT" 120
    stopLossPct := ← boot.envDec "HFM_STOP_LOSS_PCT" 30
    maxHoldSecs := ← boot.envU64 "HFM_MAX_HOLD_SECS" 21600
    maxExitAttempts := (← boot.envU64 "HFM_MAX_EXIT_ATTEMPTS" 5).toUInt32
    convictionMinPct := ← boot.envDec "HFM_CONVICTION_MIN_PCT" 300
    trailPct := ← boot.envDec "HFM_TRAIL_PCT" 25
    convictionMaxHoldSecs :=
      ← boot.mulU64 (← boot.envU64 "HFM_CONVICTION_MAX_HOLD_DAYS" 15) 86400
    dailyLossLimitPct := ← boot.envDec "HFM_DAILY_LOSS_LIMIT_PCT" 10
    maxTradesPerMin := (← boot.envU64 "HFM_MAX_TRADES_PER_MIN" 6).toUInt32
    killSwitch := ← boot.envBool "HFM_KILL_SWITCH" false
    paperSlippagePct := ← boot.envDec "HFM_PAPER_SLIPPAGE_PCT" 2
    paperImpactCoeff := ← boot.envDec "HFM_PAPER_IMPACT_COEFF" 1
    paperMaxSlippagePct := ← boot.envDec "HFM_PAPER_MAX_SLIPPAGE_PCT" 50
    feeBps := ← boot.envU64 "HFM_FEE_BPS" 100
    metricsAddr := boot.envStr "HFM_METRICS_ADDR" "127.0.0.1:9898"
    heartbeatSecs := ← boot.envU64 "HFM_HEARTBEAT_SECS" 60
    rpcUrl := boot.envStr "HFM_RPC_URL" "https://api.mainnet-beta.solana.com"
    rpcFallbackUrls := boot.envCsv "HFM_RPC_FALLBACK_URLS"
    jitoTipEntryLamports := ← boot.envU64 "HFM_JITO_TIP_ENTRY_LAMPORTS" jitoTipLamports
    jitoTipFlipLamports := ← boot.envU64 "HFM_JITO_TIP_FLIP_LAMPORTS" jitoTipLamports
    jitoTipConvictionLamports := ← boot.envU64 "HFM_JITO_TIP_CONVICTION_LAMPORTS" jitoTipLamports
    jitoTipAccounts := boot.envCsv "HFM_JITO_TIP_ACCOUNT"
    jupiterUrl := boot.envStr "HFM_JUPITER_URL" "https://api.jup.ag/swap/v1"
    jupiterQps := (← boot.envU64 "HFM_JUPITER_QPS" 1).toUInt32
    simulateOnly := ← boot.envBool "HFM_SIMULATE_ONLY" true
    solUsd := ← boot.envDec "HFM_SOL_USD" 0
    bundleTimeoutSecs := ← boot.envU64 "HFM_BUNDLE_TIMEOUT_SECS" 60
    blockhashTtlSecs := ← boot.envU64 "HFM_BLOCKHASH_TTL_SECS" 30
    reconcileDustTokens := ← boot.envDec "HFM_RECONCILE_DUST_TOKENS" (1 / 1000000)
    feedCommitment := boot.envStr "HFM_FEED_COMMITMENT" "processed"
    maxTradeSubs := (← boot.envU64 "HFM_MAX_TRADE_SUBS" 25).toNat }
  (cfg.validate boot.pubkeyOk).mapError BootStop.refused
  return cfg

/-! ## What loading leaves in the limits -/

/-- Where the limits of a loaded configuration come from. -/
structure LimitsOf (cfg : Config) : Prop where
  flip : boot.envU64 "HFM_MAX_HOLD_SECS" 21600 = .ok cfg.maxHoldSecs
  conviction : ∃ days, boot.envU64 "HFM_CONVICTION_MAX_HOLD_DAYS" 15 = .ok days ∧
    boot.mulU64 days 86400 = .ok cfg.convictionMaxHoldSecs

/-- The one way in which loading can overflow. -/
def DaysOverflow : Prop :=
  ∃ days, boot.envU64 "HFM_CONVICTION_MAX_HOLD_DAYS" 15 = .ok days ∧
    boot.mulU64 days 86400 = .error .overflow

/-- What is known of a load that ended in `r`. -/
structure Loads (r : Except BootStop Config) : Prop where
  loaded : ∀ cfg, r = .ok cfg → boot.LimitsOf cfg
  overflowed : r = .error .overflow → boot.DaysOverflow

variable {boot}

/-- A read in front of the rest of the load. -/
theorem Loads.bind {α : Type} {x : Except BootStop α} {rest : α → Except BootStop Config}
    (hx : x = .error .overflow → boot.DaysOverflow)
    (hrest : ∀ a, x = .ok a → boot.Loads (rest a)) : boot.Loads (x >>= rest) := by
  cases x with
  | error stop =>
      refine ⟨fun cfg hok => ?_, fun hover => hx ?_⟩
      · cases hok
      · cases hover
        rfl
  | ok a => exact hrest a rfl

/-! A read of one variable refuses or succeeds: it never overflows. -/

theorem envDec_refuses (key : String) (default : Decimal) :
    boot.envDec key default ≠ .error .overflow := by
  unfold envDec
  split
  · split <;> simp
  · simp

theorem envU64_refuses (key : String) (default : UInt64) :
    boot.envU64 key default ≠ .error .overflow := by
  unfold envU64
  split
  · split <;> simp
  · simp

theorem envBool_refuses (key : String) (default : Bool) :
    boot.envBool key default ≠ .error .overflow := by
  unfold envBool
  dsimp only
  split
  · split_ifs <;> simp
  · simp

theorem envMode_refuses : boot.envMode ≠ .error .overflow := by
  unfold envMode
  dsimp only
  split_ifs <;> simp

theorem mapError_refused_ne_overflow {α : Type} (x : Except Text α) :
    x.mapError BootStop.refused ≠ .error .overflow := by
  cases x <;> simp [Except.mapError]

theorem Loads.envDec {key : String} {default : Decimal}
    {rest : Decimal → Except BootStop Config} (hrest : ∀ v, boot.Loads (rest v)) :
    boot.Loads (boot.envDec key default >>= rest) :=
  .bind (fun hover => absurd hover (envDec_refuses key default)) fun v _ => hrest v

theorem Loads.envU64 {key : String} {default : UInt64}
    {rest : UInt64 → Except BootStop Config} (hrest : ∀ v, boot.Loads (rest v)) :
    boot.Loads (boot.envU64 key default >>= rest) :=
  .bind (fun hover => absurd hover (envU64_refuses key default)) fun v _ => hrest v

theorem Loads.envBool {key : String} {default : Bool}
    {rest : Bool → Except BootStop Config} (hrest : ∀ v, boot.Loads (rest v)) :
    boot.Loads (boot.envBool key default >>= rest) :=
  .bind (fun hover => absurd hover (envBool_refuses key default)) fun v _ => hrest v

/-- The other variables come and go; the two of the limits are what the configuration is
built from. -/
theorem loads_fromEnv : boot.Loads boot.fromEnv := by
  unfold fromEnv
  refine .bind (fun hover => absurd hover envMode_refuses) fun mode _ => ?_
  refine .envU64 fun tip => ?_
  -- equity, age, liquidity, developer share, slippage
  refine .envDec fun _ => .envU64 fun _ => .envDec fun _ => .envDec fun _ => .envDec fun _ => ?_
  -- slices, window, risk, cap, open positions
  refine .envU64 fun _ => .envU64 fun _ => .envDec fun _ => .envDec fun _ => .envU64 fun _ => ?_
  -- take profit, stop loss, and the first limit
  refine .envDec fun _ => .envDec fun _ => ?_
  refine .bind (fun hover => absurd hover (envU64_refuses _ _)) fun holdSecs hhold => ?_
  refine .envU64 fun _ => .envDec fun _ => .envDec fun _ => ?_
  refine .bind (fun hover => absurd hover (envU64_refuses _ _)) fun days hdays => ?_
  refine .bind (fun hover => ⟨days, hdays, hover⟩) fun convictionSecs hconviction => ?_
  -- loss limit, throttle, kill switch, the paper settings, fee, heartbeat
  refine .envDec fun _ => .envU64 fun _ => .envBool fun _ => ?_
  refine .envDec fun _ => .envDec fun _ => .envDec fun _ => .envU64 fun _ => .envU64 fun _ => ?_
  -- the tips, the live settings, the subscription cap
  refine .envU64 fun _ => .envU64 fun _ => .envU64 fun _ => .envU64 fun _ => .envBool fun _ => ?_
  refine .envDec fun _ => .envU64 fun _ => .envU64 fun _ => .envDec fun _ => .envU64 fun _ => ?_
  refine .bind (fun hover => absurd hover (mapError_refused_ne_overflow _)) fun _ _ => ?_
  refine ⟨fun cfg hok => ?_, fun hover => ?_⟩
  · cases hok
    exact ⟨hhold, days, hdays, hconviction⟩
  · cases hover

/-- A product that fits is what it stands for, in every build. -/
theorem mulU64_of_lt {a b : UInt64} (h : a.toNat * b.toNat < 2 ^ 64) :
    ∃ c, boot.mulU64 a b = .ok c ∧ c.toNat = a.toNat * b.toNat := by
  refine ⟨a * b, ?_, ?_⟩
  · unfold mulU64
    rw [if_neg fun hover => absurd hover.2 (not_le.mpr h)]
  · rw [UInt64.toNat_mul, Nat.mod_eq_of_lt h]

end Boot

/-! ## What a limit means -/

theorem asI64_neg {n : UInt64} (h : 2 ^ 63 ≤ n.toNat) : asI64 n < 0 := by
  have hbits : n.toInt64.toInt = n.toBitVec.toInt := rfl
  have hword : n.toBitVec.toNat < 2 ^ 64 := n.toBitVec.isLt
  have htop : 2 ^ 63 ≤ n.toBitVec.toNat := h
  rw [asI64, hbits, BitVec.toInt_eq_toNat_cond]
  rw [if_neg (by omega)]
  omega

/-- The limits of a configuration are the written numbers of seconds, and the time stops go
by them.  A tick comes to its time stop when neither a promotion nor a price exit is due. -/
structure MeansLimits (cfg : Config) (flipSecs convictionSecs : Nat) : Prop where
  flipLoaded : cfg.maxHoldSecs.toNat = flipSecs
  convictionLoaded : cfg.convictionMaxHoldSecs.toNat = convictionSecs
  onTime : ∀ (pos : Position) (now : DateTime), (onTime pos now cfg).isSome ↔
    (pos.mode = .flip ∧ (flipSecs : Int) ≤ numSeconds (now - pos.openedAt)) ∨
      (pos.mode = .conviction ∧ (convictionSecs : Int) ≤ numSeconds (now - pos.openedAt))
  onPriceFlip : ∀ (pos : Position) (price : Decimal) (now : DateTime), pos.mode = .flip →
    pos.unrealizedPnlPct price < cfg.convictionMinPct →
    pos.unrealizedPnlPct price < cfg.takeProfitPct →
    max pos.highWater price * (1 - cfg.stopLossPct / 100) < price →
    (onPrice pos price now cfg).2 =
      if (flipSecs : Int) ≤ numSeconds (now - pos.openedAt) then some ⟨"max_hold"⟩ else none
  onPriceConviction : ∀ (pos : Position) (price : Decimal) (now : DateTime),
    pos.mode = .conviction →
    max pos.highWater price * (1 - cfg.trailPct / 100) < price →
    (onPrice pos price now cfg).2 =
      if (convictionSecs : Int) ≤ numSeconds (now - pos.openedAt) then
        some ⟨"conviction_max_hold"⟩
      else none

/-- A position that was opened at the time 0. -/
def openedAtZero (mode : HoldMode) : Position where
  mint := ""
  launchpad := .pumpFun
  openedAt := 0
  entryPrice := 1
  qty := 1
  costUsd := 1
  highWater := 1
  lastPrice := 1
  lastLiquidityUsd := 0
  mode := mode
  exitAttempts := 0
  stuck := false

theorem numSeconds_zero : numSeconds 0 = 0 := rfl

theorem openedAtZero_due (mode : HoldMode) (cfg : Config) :
    (onTime (openedAtZero mode) 0 cfg).isSome ↔
      (match mode with
        | .flip => asI64 cfg.maxHoldSecs
        | .conviction => asI64 cfg.convictionMaxHoldSecs) ≤ 0 := by
  cases mode <;> simp [onTime, openedAtZero, numSeconds_zero]

/-- A limit that is due at once only if it is zero is kept by the signed cast. -/
theorem lt_of_due_only_at_zero {limit : UInt64} {secs : Nat} (hloaded : limit.toNat = secs)
    (hdue : asI64 limit ≤ 0 → (secs : Int) ≤ 0) : secs < 2 ^ 63 := by
  by_contra hbig
  have hcast : asI64 limit < 0 := by
    refine asI64_neg ?_
    rw [hloaded]
    omega
  have hzero := hdue hcast.le
  omega

/-- Limits mean what was written exactly when the signed cast keeps them: one that it turns
negative is due the moment the position is opened. -/
theorem meansLimits_iff (cfg : Config) (flipSecs convictionSecs : Nat) :
    MeansLimits cfg flipSecs convictionSecs ↔
      cfg.maxHoldSecs.toNat = flipSecs ∧ cfg.convictionMaxHoldSecs.toNat = convictionSecs ∧
        flipSecs < 2 ^ 63 ∧ convictionSecs < 2 ^ 63 := by
  constructor
  · intro hmeans
    refine ⟨hmeans.flipLoaded, hmeans.convictionLoaded, ?_, ?_⟩
    · refine lt_of_due_only_at_zero hmeans.flipLoaded fun hcast => ?_
      have hdue := (openedAtZero_due .flip cfg).mpr hcast
      simpa [openedAtZero, numSeconds_zero] using (hmeans.onTime _ _).mp hdue
    · refine lt_of_due_only_at_zero hmeans.convictionLoaded fun hcast => ?_
      have hdue := (openedAtZero_due .conviction cfg).mpr hcast
      simpa [openedAtZero, numSeconds_zero] using (hmeans.onTime _ _).mp hdue
  · rintro ⟨rfl, rfl, hflip, hconviction⟩
    refine ⟨rfl, rfl, fun pos now => ?_, fun pos price now hmode hlow hprofit hstop => ?_,
      fun pos price now hmode htrail => ?_⟩
    · cases hmode : pos.mode with
      | flip => simp [onTime, hmode, asI64_of_lt hflip, Option.isSome_ite]
      | conviction => simp [onTime, hmode, asI64_of_lt hconviction, Option.isSome_ite]
    · unfold onPrice
      simp [hmode, not_le.mpr hlow, not_le.mpr hprofit, not_le.mpr hstop, asI64_of_lt hflip,
        apply_ite Prod.snd, (pos.mark_sameHolding price).openedAt]
    · unfold onPrice
      simp [hmode, not_le.mpr htrail, asI64_of_lt hconviction, apply_ite Prod.snd,
        (pos.mark_sameHolding price).openedAt]

/-! ## The written limits -/

/-- A load ends as the written numbers say: without an overflow, and with limits that mean
these numbers of seconds. -/
def LoadsAsWritten (r : Except BootStop Config) (flipSecs convictionSecs : Nat) : Prop :=
  r ≠ .error .overflow ∧ ∀ cfg, r = .ok cfg → MeansLimits cfg flipSecs convictionSecs

/-- An environment that is not refused has its hold limits taken as written exactly when both
are below `2 ^ 63` seconds.  Nothing at load compares them with the word. -/
theorem hold_limits_iff (boot : Boot) {holdSecs days : UInt64}
    (hhold : boot.envU64 "HFM_MAX_HOLD_SECS" 21600 = .ok holdSecs)
    (hdays : boot.envU64 "HFM_CONVICTION_MAX_HOLD_DAYS" 15 = .ok days)
    (haccepted : ∀ msg, boot.fromEnv ≠ .error (.refused msg)) :
    LoadsAsWritten boot.fromEnv holdSecs.toNat (days.toNat * 86400) ↔
      holdSecs.toNat < 2 ^ 63 ∧ days.toNat * 86400 < 2 ^ 63 := by
  have hloads := boot.loads_fromEnv
  constructor
  · rintro ⟨hruns, hmeans⟩
    cases hload : boot.fromEnv with
    | error stop =>
        cases stop with
        | refused msg => exact absurd hload (haccepted msg)
        | overflow => exact absurd hload hruns
    | ok cfg =>
        obtain ⟨-, -, hflip, hconviction⟩ := (meansLimits_iff ..).mp (hmeans cfg hload)
        exact ⟨hflip, hconviction⟩
  · rintro ⟨hflip, hconviction⟩
    obtain ⟨secs, hmul, hsecs⟩ :=
      @Boot.mulU64_of_lt boot days 86400 (by
        have hday : (86400 : UInt64).toNat = 86400 := rfl
        rw [hday]
        omega)
    refine ⟨fun hover => ?_, fun cfg hload => ?_⟩
    · obtain ⟨read, hread, hbad⟩ := hloads.overflowed hover
      cases hdays.symm.trans hread
      cases hmul.symm.trans hbad
    · obtain ⟨hcfgHold, read, hread, hcfgMul⟩ := hloads.loaded cfg hload
      cases hdays.symm.trans hread
      have hsame : cfg.maxHoldSecs = holdSecs := Except.ok.inj (hcfgHold.symm.trans hhold)
      have hproduct : cfg.convictionMaxHoldSecs = secs := Except.ok.inj (hcfgMul.symm.trans hmul)
      rw [meansLimits_iff, hsame, hproduct]
      exact ⟨rfl, hsecs, hflip, hconviction⟩

/-- A boot of a release build with these two variables and no others. -/
def holdBoot (holdSecs days : String) : Boot where
  var key :=
    if key = "HFM_MAX_HOLD_SECS" then some holdSecs
    else if key = "HFM_CONVICTION_MAX_HOLD_DAYS" then some days
    else none
  parseDecimal _ := .error "unused"
  lowercase word := word
  pubkeyOk _ := true
  overflowChecks := false

/-- An hour and two days. -/
theorem hold_limits_hour :
    LoadsAsWritten (holdBoot "3600" "2").fromEnv 3600 (2 * 86400) := by
  have hruns : (holdBoot "3600" "2").fromEnv.toBool = true := by decide +kernel
  refine (@hold_limits_iff (holdBoot "3600" "2") 3600 2
    (by decide +kernel) (by decide +kernel) fun msg hbad => ?_).mpr (by decide)
  rw [hbad] at hruns
  cases hruns

/-- `2 ^ 63` seconds are accepted and sell a flip position at once; 213503982334602 days are
accepted and wrap around to 61184 seconds. -/
theorem hold_limits_lost :
    (∃ cfg, (holdBoot "9223372036854775808" "213503982334602").fromEnv = .ok cfg ∧
      onTime (openedAtZero .flip) 0 cfg = some ⟨"max_hold"⟩ ∧
      cfg.convictionMaxHoldSecs = 61184 ∧
      onTime (openedAtZero .conviction) (seconds 61184) cfg = some ⟨"conviction_max_hold"⟩) ∧
    ¬ LoadsAsWritten (holdBoot "9223372036854775808" "213503982334602").fromEnv
      9223372036854775808 (213503982334602 * 86400) := by
  have hload : ∃ cfg, (holdBoot "9223372036854775808" "213503982334602").fromEnv = .ok cfg ∧
      onTime (openedAtZero .flip) 0 cfg = some ⟨"max_hold"⟩ ∧
      cfg.convictionMaxHoldSecs = 61184 ∧
      onTime (openedAtZero .conviction) (seconds 61184) cfg = some ⟨"conviction_max_hold"⟩ := by
    have hruns : ((holdBoot "9223372036854775808" "213503982334602").fromEnv.toOption.map
        fun cfg => decide (onTime (openedAtZero .flip) 0 cfg = some ⟨"max_hold"⟩ ∧
          cfg.convictionMaxHoldSecs = 61184 ∧
          onTime (openedAtZero .conviction) (seconds 61184) cfg =
            some ⟨"conviction_max_hold"⟩)) = some true := by
      decide +kernel
    cases hcfg : (holdBoot "9223372036854775808" "213503982334602").fromEnv with
    | error stop => simp [hcfg, Except.toOption] at hruns
    | ok cfg =>
        rw [hcfg] at hruns
        exact ⟨cfg, rfl, of_decide_eq_true (Option.some.inj hruns)⟩
  refine ⟨hload, fun hwritten => ?_⟩
  obtain ⟨cfg, hcfg, -, hwrapped, -⟩ := hload
  have hloaded := (hwritten.2 cfg hcfg).convictionLoaded
  rw [hwrapped] at hloaded
  cases hloaded

end HfmcBot
