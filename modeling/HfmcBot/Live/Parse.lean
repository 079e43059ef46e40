import HfmcBot.Live.Upstream

/-!
# Parsers and conversions of the live pipeline

The pure functions of `live.rs`: amounts between dollars, tokens and raw units,
and the parsers of the upstream bodies.  A parser rejects what it cannot read;
`orReject` and `haltIf` are the two forms its early returns have.
-/

namespace HfmcBot

open Foundation

/-- Lamports per SOL. -/
def lamportsPerSol : Nat := 1000000000

/-- The wrapped-SOL mint. -/
def solMint : String := "So11111111111111111111111111111111111111112"

/-- `ok_or_else(|| Rejected(msg))`. -/
def orReject {α : Type} (msg : Text) : Option α → Except Halt α
  | some a => .ok a
  | none => .error (.rejected msg)

/-- One early return: stop if the condition holds. -/
def haltIf (bad : Prop) [Decidable bad] (halt : Halt) : Except Halt Unit :=
  if bad then .error halt else .ok ()

/-- The JSON value of a body, or a rejection that names what was asked for. -/
def readJson (what : String) : Body → Except Halt Json
  | .ok v => .ok v
  | .error e => .error (.rejected [what, " not JSON: ", e])

/-- A sequence that gets through has got through its first part. -/
theorem exists_of_bind_eq_ok {α β : Type} {x : Except Halt α} {f : α → Except Halt β} {b : β}
    (h : (x >>= f) = .ok b) : ∃ a, x = .ok a ∧ f a = .ok b := by
  cases x with
  | error e => cases h
  | ok a => exact ⟨a, rfl, h⟩

theorem eq_some_of_orReject {α : Type} {msg : Text} {x : Option α} {a : α}
    (h : orReject msg x = .ok a) : x = some a := by
  cases x with
  | none => cases h
  | some b =>
      cases h
      rfl

/-! ## Amounts -/

/-- `x.floor().to_string().parse::<u64>()`. -/
def floorU64 (x : Decimal) : Option UInt64 :=
  if 0 ≤ ⌊x⌋ ∧ ⌊x⌋ < 2 ^ 64 then some (UInt64.ofNat ⌊x⌋.toNat) else none

/-- An operator in a sequence: beyond its range it stops the program. -/
def orStop {α : Type} : Except ArithStop α → Except Halt α
  | .ok a => .ok a
  | .error _ => .error .overflow

/-- USD budget to lamports, rounded down: we never size up.  The operators round what they
cannot hold, and the floor is taken of what they give. -/
def usdToLamportsFloor (fmt : NumberFormat) (budgetUsd solUsd : Decimal) :
    Except Halt UInt64 := do
  haltIf (solUsd ≤ 0)
    (.rejected ["no SOL/USD reference (got ", .dec solUsd, ") — set HFM_SOL_USD to arm live buys"])
  haltIf (budgetUsd ≤ 0) (.rejected ["non-positive buy budget ", .dec budgetUsd])
  let sol ← orStop (fmt.div budgetUsd solUsd)
  let lamports ← orStop (fmt.mul sol lamportsPerSol)
  let v ← orReject ["buy budget ", .dec budgetUsd, " overflows u64 lamports"] (floorU64 lamports)
  haltIf (v = 0) (.rejected ["buy budget ", .dec budgetUsd, " rounds to zero lamports"])
  return v

def lamportsToUsd (lamports : UInt64) (solUsd : Decimal) : Decimal :=
  lamports.toNat / lamportsPerSol * solUsd

/-- `10u64.pow`: beyond 19 decimals the power does not fit. -/
def pow10 (decimals : UInt8) : Except Halt Nat :=
  if 10 ^ decimals.toNat < 2 ^ 64 then .ok (10 ^ decimals.toNat) else .error .overflow

/-- Raw base units to whole tokens. -/
def rawToDecimal (raw : UInt64) (decimals : UInt8) : Except Halt Decimal := do
  let scale ← pow10 decimals
  return raw.toNat / scale

/-- Whole tokens to raw base units, rounded down.  A product with a power of ten is exact
where it is in range, and stops the program where it is not. -/
def decimalToRawFloor (qty : Decimal) (decimals : UInt8) : Except Halt UInt64 := do
  haltIf (qty ≤ 0) (.rejected ["non-positive token qty ", .dec qty])
  let scale ← pow10 decimals
  haltIf (maxDecimal < qty * scale) .overflow
  let v ← orReject ["token qty ", .dec qty, " overflows u64 raw units"] (floorU64 (qty * scale))
  haltIf (v = 0)
    (.rejected ["token qty ", .dec qty, " rounds to zero raw units at ", .int decimals.toNat,
      " decimals"])
  return v

/-- Slippage percent to basis points, rounded down: we never ask for more. -/
def slippagePctToBps (pct : Decimal) : Except Halt UInt64 := do
  haltIf (pct < 0) (.rejected ["negative slippage budget ", .dec pct])
  haltIf (maxDecimal < pct * 100) .overflow
  orReject ["slippage budget ", .dec pct, " overflows u64 bps"] (floorU64 (pct * 100))

/-! ## Jupiter -/

/-- A parsed `/quote` response; `raw` goes verbatim into the `/swap` request. -/
structure JupiterQuote where
  inputMint : String
  outputMint : String
  inAmountRaw : UInt64
  outAmountRaw : UInt64
  otherAmountThresholdRaw : UInt64
  swapMode : String
  slippageBps : UInt64
  priceImpactPct : Decimal
  raw : Json

def quoteField (v : Json) (name : String) : Except Halt String :=
  orReject ["jupiter quote missing/invalid '", name, "'"] ((v.get name).bind Json.asStr)

def quoteU64 (v : Json) (name : String) : Except Halt UInt64 := do
  let s ← quoteField v name
  orReject ["jupiter quote '", name, "' not a u64"] (parseU64 s)

def parseQuoteResponse (crates : Crates) (body : Body) : Except Halt JupiterQuote := do
  let v ← readJson "jupiter quote" body
  let slippageBps ← orReject ["jupiter quote missing/invalid 'slippageBps'"]
    ((v.get "slippageBps").bind Json.asU64)
  let impact ← quoteField v "priceImpactPct"
  let priceImpactPct ← orReject ["jupiter quote 'priceImpactPct' not decimal"]
    (crates.parseDecimal impact)
  return {
    inputMint := ← quoteField v "inputMint"
    outputMint := ← quoteField v "outputMint"
    inAmountRaw := ← quoteU64 v "inAmount"
    outAmountRaw := ← quoteU64 v "outAmount"
    otherAmountThresholdRaw := ← quoteU64 v "otherAmountThreshold"
    swapMode := ← quoteField v "swapMode"
    slippageBps := slippageBps
    priceImpactPct := priceImpactPct
    raw := v }

/-- An assembled swap transaction, not signed yet. -/
structure SwapTx where
  txBase64 : String
  lastValidBlockHeight : UInt64

def parseSwapResponse (body : Body) : Except Halt SwapTx := do
  let v ← readJson "jupiter swap" body
  let txBase64 ← orReject ["jupiter swap missing/invalid 'swapTransaction'"]
    (((v.get "swapTransaction").bind Json.asStr).filter fun s => s ≠ "")
  let lastValidBlockHeight ← orReject ["jupiter swap missing/invalid 'lastValidBlockHeight'"]
    ((v.get "lastValidBlockHeight").bind Json.asU64)
  return { txBase64 := txBase64, lastValidBlockHeight := lastValidBlockHeight }

/-- A quote beyond the slippage budget is refused before any swap assembly. -/
def quoteWithinBudget (quote : JupiterQuote) (maxSlippagePct : Decimal) : Except Halt Unit :=
  haltIf (maxSlippagePct < |quote.priceImpactPct|)
    (.rejected ["jupiter price impact ", .dec quote.priceImpactPct, "% exceeds budget ",
      .dec maxSlippagePct, "%"])

/-! ## RPC -/

/-- `result.value` of an RPC body. -/
def resultValue (v : Json) : Option Json := (v.get "result").bind fun r => r.get "value"

/-- `u8::try_from`. -/
def u8OfU64 (n : UInt64) : Option UInt8 :=
  if n.toNat < 2 ^ 8 then some (UInt8.ofNat n.toNat) else none

/-- The balance of one token account: the exact text, else amount and decimals. -/
def tokenAccountAmount (crates : Crates) (entry : Json) : Except Halt Decimal := do
  let amount ← orReject ["rpc token accounts entry missing tokenAmount"]
    (((((entry.get "account").bind fun a => a.get "data").bind fun d =>
      d.get "parsed").bind fun p => p.get "info").bind fun i => i.get "tokenAmount")
  match (amount.get "uiAmountString").bind Json.asStr with
  | some s =>
      orReject ["rpc token accounts bad uiAmountString '", s, "'"] (crates.parseDecimal s)
  | none =>
      let raw ← orReject ["rpc token accounts entry missing amount"]
        (((amount.get "amount").bind Json.asStr).bind parseU64)
      let decimals ← orReject ["rpc token accounts entry missing decimals"]
        (((amount.get "decimals").bind Json.asU64).bind u8OfU64)
      rawToDecimal raw decimals

/-- The summed balance of the token accounts of an owner. -/
def parseTokenAccountsBalance (crates : Crates) (body : Body) : Except Halt Decimal := do
  let v ← readJson "rpc token accounts" body
  let entries ← orReject ["rpc token accounts missing 'result.value'"]
    ((resultValue v).bind Json.asArray)
  entries.foldlM
    (fun total entry => do
      let amount ← tokenAccountAmount crates entry
      return total + amount) 0

def parseBlockhashResponse (crates : Crates) (body : Body) : Except Halt (String × UInt64) := do
  let v ← readJson "rpc blockhash" body
  let value ← orReject ["rpc blockhash missing 'result.value'"] (resultValue v)
  let blockhash ← orReject ["rpc blockhash missing/invalid 'blockhash'"]
    (((value.get "blockhash").bind Json.asStr).filter fun s => s ≠ "")
  let _ ← orReject ["rpc blockhash not valid base58 hash"] (crates.parseHash blockhash)
  let height ← orReject ["rpc blockhash missing/invalid 'lastValidBlockHeight'"]
    ((value.get "lastValidBlockHeight").bind Json.asU64)
  return (blockhash, height)

def parseTokenSupplyDecimals (body : Body) : Except Halt UInt8 := do
  let v ← readJson "rpc token supply" body
  orReject ["rpc token supply missing/invalid 'decimals'"]
    ((((resultValue v).bind fun val => val.get "decimals").bind Json.asU64).bind u8OfU64)

/-! ## Jito -/

/-- Landing state of a bundle. -/
inductive BundleStatus
  | landed (signatures : List String)
  | failed (reason : String)
  | pending
  deriving DecidableEq

/-- The first status entry of a body. -/
def statusEntry (v : Json) : Option Json :=
  ((resultValue v).bind Json.asArray).bind fun a => a.head?

/-- The error member of an entry counts as a failure unless it has an `Ok`. -/
def entryFailure (entry : Json) : Option Json :=
  (entry.get "err").filter fun err => (err.get "Ok").isNone

/-- Unknown and empty shapes are pending.  Unlike the other parsers, this one
answers a body that is no JSON with an unknown state. -/
def parseBundleStatus (crates : Crates) : Body → Except Halt BundleStatus
  | .error e => .error (.transport ["jito status not JSON: ", e])
  | .ok v =>
      match statusEntry v with
      | none => .ok .pending
      | some entry =>
          match entryFailure entry with
          | some err => .ok (.failed (crates.jsonText err))
          | none =>
              let status := ((entry.get "confirmation_status").bind Json.asStr).getD "pending"
              if status = "finalized" ∨ status = "confirmed" then
                .ok (.landed
                  ((((entry.get "transactions").bind Json.asArray).map fun a =>
                    a.filterMap Json.asStr).getD []))
              else .ok .pending

end HfmcBot
