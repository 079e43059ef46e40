import HfmcBot.Live.Clients

/-!
# The live executor

`LiveExecutor` of `live.rs`: quote, preflight, swap assembly, signing, bundle
submission and landing reconciliation.  Each direction is cut at the call of
`sign_and_maybe_send`: `prepareBuy` and `prepareSell` are what comes before it,
`signBundle` is the part of it that signs.
-/

namespace HfmcBot

open Foundation

/-- `str::trim`. -/
def trim (s : String) : String :=
  String.ofList ((s.toList.dropWhile isWhitespace).reverse.dropWhile isWhitespace).reverse

/-- `trim_end_matches('/')`. -/
def trimEndSlashes (s : String) : String :=
  String.ofList (s.toList.reverse.dropWhile fun c => c == '/').reverse

/-! ## Signing -/

/-- One tip-account entry; garbage is rejected, never skipped. -/
def parseTipAccount (crates : Crates) (s : String) : Except Halt Pubkey :=
  orReject ["jito tip account not a valid base58 pubkey: '", s, "'"] (crates.parsePubkey (trim s))

/-- Round-robin selection by a counter. -/
def pickTipAccount (accounts : List Pubkey) (counter : UInt64) : Option Pubkey :=
  accounts[counter.toNat % accounts.length]?

/-- A library step that fails with its own message. -/
def orRejectWith {α : Type} (what : String) : Except String α → Except Halt α
  | .ok a => .ok a
  | .error e => .error (.rejected [what, e])

/-- Sign an assembled swap on a blockhash: only if the operator pays for it. -/
def signVersionedTx (crates : Crates) (txB64 : String) (keypair : Keypair) (blockhash : String) :
    Except Halt SignedTx := do
  let bytes ← orRejectWith "swap tx not base64: " (crates.base64Decode (trim txB64))
  let message ← orRejectWith "swap tx not a versioned transaction: " (crates.deserializeTx bytes)
  let payer ← orReject ["swap tx has no accounts"] message.accountKeys.head?
  haltIf (payer ≠ keypair.pubkey)
    (.rejected ["refusing to sign: tx fee payer is not the operator keypair"])
  let fresh ← orReject ["refusing to sign: blockhash not valid"] (crates.parseHash blockhash)
  let signed := SignedTx.swap { message with recentBlockhash := fresh } keypair.pubkey
  orRejectWith "signing failed: " (crates.signs signed)
  orRejectWith "signed tx unserializable: " (crates.serializeTx signed)
  return signed

/-- The standalone tip transaction, on the blockhash of the swap. -/
def buildTipTx (crates : Crates) (operator : Keypair) (tipAccount : Pubkey) (lamports : UInt64)
    (blockhash : String) : Except Halt SignedTx := do
  haltIf (lamports = 0) (.rejected ["refusing to build a zero-lamport tip transfer"])
  let fresh ← orReject ["refusing to build tip tx: blockhash not valid"]
    (crates.parseHash blockhash)
  let signed := SignedTx.tip
    { operator := operator.pubkey
      account := tipAccount
      lamports := lamports
      blockhash := fresh }
  orRejectWith "tip tx signing failed: " (crates.signs signed)
  orRejectWith "tip tx unserializable: " (crates.serializeTx signed)
  return signed

/-- Swap first, tip second. -/
def assembleBundle (swap : SignedTx) (tip : Option SignedTx) : List SignedTx :=
  match tip with
  | some t => [swap, t]
  | none => [swap]

/-! ## Construction -/

/-- A loaded operator key. -/
structure LoadedKey where
  keypairBytes : Bytes
  pubkeyBase58 : String

namespace LiveExecutor

/-- Live mode, keyless: enforces the deadline but cannot sign. -/
def armed (cfg : Config) (operatorPubkey : String) (now : Instant) : Except Halt LiveExecutor :=
  if cfg.mode ≠ .live then
    .error (.notArmed ["refuses to arm in paper mode — use PaperExecutor"])
  else if isBlank operatorPubkey then
    .error (.notArmed ["no operator pubkey — set HFM_SECRET_KEY first"])
  else
    .ok {
      operatorPubkey := operatorPubkey
      signerBytes := none
      bucket := .new (cfg.jupiterQps.toNat * 2) cfg.jupiterQps.toNat now
      jito := {
        tips := {
          entry := cfg.jitoTipEntryLamports
          flip := cfg.jitoTipFlipLamports
          conviction := cfg.jitoTipConvictionLamports }
        tipAccounts := cfg.jitoTipAccounts }
      rpc := { urls := (cfg.rpcUrl :: cfg.rpcFallbackUrls).map trimEndSlashes, active := 0 }
      maxSlippagePct := cfg.maxSlippagePct
      solUsd := cfg.solUsd
      simulateOnly := cfg.simulateOnly
      bundleTimeoutSecs := cfg.bundleTimeoutSecs
      cachedBlockhash := none
      blockhashTtlSecs := cfg.blockhashTtlSecs
      reconcileDustTokens := cfg.reconcileDustTokens
      reqId := 1
      isArmed := true }

/-- Arms and loads the signing key. -/
def armedWithSigner (cfg : Config) (loaded : LoadedKey) (now : Instant) :
    Except Halt LiveExecutor := do
  let ex ← armed cfg loaded.pubkeyBase58 now
  haltIf (cfg.solUsd ≤ 0)
    (.rejected ["HFM_SOL_USD must be > 0 to arm live buys, got ", .dec cfg.solUsd])
  return { ex with signerBytes := some loaded.keypairBytes }

/-- The keypair, rebuilt from its bytes for one signing. -/
def signer (crates : Crates) (ex : LiveExecutor) : Except Halt Keypair :=
  match ex.signerBytes with
  | none => .error (.notArmed ["armed without signing key — cannot authorize swaps"])
  | some bytes =>
      match crates.keypairOf bytes with
      | .error e => .error (.notArmed ["signing key unusable, refusing to trade: ", e])
      | .ok keypair => .ok keypair

/-- The tip of a tier in USD; nothing was paid if nothing was sent. -/
def tipFeeUsd (ex : LiveExecutor) (tier : TipTier) (sent : Bool) : Decimal :=
  if sent then lamportsToUsd (ex.jito.tipFor tier) ex.solUsd else 0

end LiveExecutor

namespace Live

variable {ω : Type} (crates : Crates) (up : Upstream ω)

/-- The request counter; it wraps around. -/
def nextId : LiveM ω UInt64 := do
  let s ← get
  set { s with ex := { s.ex with reqId := s.ex.reqId + 1 } }
  return s.ex.reqId

/-- The cached blockhash, while it is younger than its time to live. -/
def cachedHash (s : Live ω) : Option (String × UInt64) :=
  s.ex.cachedBlockhash.bind fun (hash, height, fetchedAt) =>
    if s.clock - fetchedAt < durationSecs s.ex.blockhashTtlSecs then some (hash, height) else none

/-- A blockhash from the RPC, kept for the next bundles. -/
def refetchBlockhash : LiveM ω (String × UInt64) := do
  let (hash, height) ← fetchRecentBlockhash crates up
  modify fun s => { s with ex := { s.ex with cachedBlockhash := some (hash, height, s.clock) } }
  return (hash, height)

/-- Blockhash manager: the cached value within its time to live, else a new one. -/
def freshBlockhash : LiveM ω (String × UInt64) := do
  match cachedHash (← get) with
  | some cached => return cached
  | none => refetchBlockhash crates up

/-- After a landed buy the wallet must cover the filled quantity, within dust. -/
def reconcileBuyFill (mint : String) (qty : Decimal) : LiveM ω Unit := do
  let s ← get
  let actual ← fetchTokenBalance crates up s.ex.operatorPubkey mint
  ofExcept (haltIf (actual + s.ex.reconcileDustTokens < qty)
    (.transport ["reconcile mismatch after landed buy of ", mint, ": wallet shows ", .dec actual,
      ", fill claims ", .dec qty, " (dust tol ", .dec s.ex.reconcileDustTokens, ")"]))

/-- After a landed sell the wallet must be empty, within dust. -/
def reconcileSellFill (mint : String) : LiveM ω Unit := do
  let s ← get
  let actual ← fetchTokenBalance crates up s.ex.operatorPubkey mint
  ofExcept (haltIf (s.ex.reconcileDustTokens < actual)
    (.transport ["tokens remain after landed sell of ", mint, ": wallet shows ", .dec actual,
      " (dust tol ", .dec s.ex.reconcileDustTokens, ")"]))

/-- The tip transaction of a tier, on the blockhash of the swap; none at price
zero. -/
def buildTip (signer : Keypair) (blockhash : String) (tier : TipTier) :
    LiveM ω (Option SignedTx) := do
  let tipLamports := (← get).ex.jito.tipFor tier
  if tipLamports = 0 then
    return none
  else
    let n ← nextId
    let accounts ← ofExcept ((← get).ex.jito.tipAccounts.mapM (parseTipAccount crates))
    let dest ← ofExcept (orReject
      ["no Jito tip account configured — set HFM_JITO_TIP_ACCOUNT (real sends are fail-closed without the tip transfer)"]
      (pickTipAccount accounts n))
    let tip ← ofExcept (buildTipTx crates signer dest tipLamports blockhash)
    return some tip

/-- Sign the swap and the tip on one blockhash. -/
def signBundle (swapTx : SwapTx) (tier : TipTier) : LiveM ω (List SignedTx) := do
  let signer ← ofExcept ((← get).ex.signer crates)
  let (blockhash, _) ← freshBlockhash crates up
  let signed ← ofExcept (signVersionedTx crates swapTx.txBase64 signer blockhash)
  let tip ← buildTip crates signer blockhash tier
  return assembleBundle signed tip

/-- Submit the bundle and reconcile its landing. -/
def submitBundle (txs : List SignedTx) : LiveM ω (List String) := do
  let id ← nextId
  let uuid ← sendBundle crates up id txs
  pollBundleLanding crates up uuid (← get).ex.bundleTimeoutSecs

/-- Shared tail of both directions: sign, then either stop (simulation) or submit
and reconcile. -/
def signAndMaybeSend (swapTx : SwapTx) (tier : TipTier) : LiveM ω (List String) := do
  let txs ← signBundle crates up swapTx tier
  if (← get).ex.simulateOnly then
    return []
  else
    submitBundle crates up txs

/-! ## Buying -/

/-- A buy up to its swap transaction: the quote and the decimals of its output. -/
def prepareBuy (mint : String) (budgetUsd : Decimal) :
    LiveM ω (JupiterQuote × UInt8 × SwapTx) := do
  let s ← get
  let lamports ← ofExcept (usdToLamportsFloor crates.decimals budgetUsd s.ex.solUsd)
  let bps ← ofExcept (slippagePctToBps s.ex.maxSlippagePct)
  let quote ← jupiterQuote crates up solMint mint lamports bps
  ofExcept (haltIf (quote.inputMint ≠ solMint ∨ quote.outputMint ≠ mint)
    (.rejected ["jupiter quote pair mismatch (want SOL→", mint, ") — refusing"]))
  ofExcept (haltIf (quote.outAmountRaw = 0)
    (.rejected ["jupiter quote for ", mint, " returns zero output — refusing"]))
  ofExcept (quoteWithinBudget quote s.ex.maxSlippagePct)
  let outDecimals ← fetchTokenDecimals up mint
  let swapTx ← jupiterSwap up quote s.ex.operatorPubkey s.ex.jito.tips.entry
  return (quote, outDecimals, swapTx)

/-- What a buy does once its bundle is through: the fill from the quote, checked
against the wallet if something was sent. -/
def settleBuy (req : BuyRequest) (quote : JupiterQuote) (outDecimals : UInt8) :
    LiveM ω Fill := do
  let sent := !(← get).ex.simulateOnly
  let qty ← ofExcept (rawToDecimal quote.outAmountRaw outDecimals)
  ofExcept (haltIf (qty ≤ 0)
    (.rejected ["quote output converts to zero tokens at ", .int outDecimals.toNat, " decimals"]))
  (if sent then reconcileBuyFill crates up req.mint qty else pure ())
  let s ← get
  return {
    orderId := req.orderId
    mint := req.mint
    side := .buy
    qty := qty
    priceUsd := req.budgetUsd / qty
    notionalUsd := req.budgetUsd
    feeUsd := s.ex.tipFeeUsd .entry sent
    ts := up.utcNow s.outside }

def executeLiveBuy (req : BuyRequest) : LiveM ω Fill := do
  let (quote, outDecimals, swapTx) ← prepareBuy crates up req.mint req.budgetUsd
  let _ ← signAndMaybeSend crates up swapTx .entry
  settleBuy crates up req quote outDecimals

/-! ## Selling -/

/-- A sell up to its swap transaction. -/
def prepareSell (mint : String) (qty : Decimal) (tier : TipTier) :
    LiveM ω (JupiterQuote × SwapTx) := do
  let inDecimals ← fetchTokenDecimals up mint
  let inRaw ← ofExcept (decimalToRawFloor qty inDecimals)
  let s ← get
  let bps ← ofExcept (slippagePctToBps s.ex.maxSlippagePct)
  let quote ← jupiterQuote crates up mint solMint inRaw bps
  ofExcept (haltIf (quote.inputMint ≠ mint ∨ quote.outputMint ≠ solMint)
    (.rejected ["jupiter quote pair mismatch (want ", mint, "→SOL) — refusing"]))
  ofExcept (haltIf (quote.outAmountRaw = 0)
    (.rejected ["jupiter quote for ", mint, " returns zero SOL — refusing"]))
  ofExcept (quoteWithinBudget quote s.ex.maxSlippagePct)
  let swapTx ← jupiterSwap up quote s.ex.operatorPubkey (s.ex.jito.tipFor tier)
  return (quote, swapTx)

/-- What a sell does once its bundle is through. -/
def settleSell (req : SellRequest) (quote : JupiterQuote) : LiveM ω Fill := do
  let sent := !(← get).ex.simulateOnly
  (if sent then reconcileSellFill crates up req.mint else pure ())
  let s ← get
  let proceedsUsd := lamportsToUsd quote.outAmountRaw s.ex.solUsd
  return {
    orderId := req.orderId
    mint := req.mint
    side := .sell
    qty := req.qty
    priceUsd := proceedsUsd / req.qty
    notionalUsd := proceedsUsd
    feeUsd := s.ex.tipFeeUsd req.tier sent
    ts := up.utcNow s.outside }

def executeLiveSell (req : SellRequest) : LiveM ω Fill := do
  let (quote, swapTx) ← prepareSell crates up req.mint req.qty req.tier
  let _ ← signAndMaybeSend crates up swapTx req.tier
  settleSell crates up req quote

/-! ## The orders of the trait -/

def unarmed (ex : LiveExecutor) : Halt :=
  .notArmed ["live executor unarmed (operator ", ex.operatorPubkey,
    "); paper runs must use PaperExecutor"]

/-- A live executor refuses slices past the funnel deadline. -/
def buy (req : BuyRequest) : LiveM ω Fill := do
  let ex := (← get).ex
  ofExcept (haltIf (ex.isArmed = false) (unarmed ex))
  ofExcept (haltIf (req.deadline < req.now)
    (.rejected ["funnel_window_expired: slice for ", req.mint, " (order ", req.orderId,
      ") past deadline"]))
  executeLiveBuy crates up req

def sell (req : SellRequest) : LiveM ω Fill := do
  let ex := (← get).ex
  ofExcept (haltIf (ex.isArmed = false) (unarmed ex))
  executeLiveSell crates up req

/-- What a fill is worth: a buy the budget it was given, a sell its proceeds. -/
def notionalIn (fmt : NumberFormat) (fill : Fill) : Except Halt Decimal :=
  match fill.side with
  | .buy => .ok fill.notionalUsd
  | .sell => orStop (fmt.fit fill.notionalUsd)

/-- The amounts of a fill in the range of the number type.  The code computes them last,
after every request of the order: an operator beyond its range stops the program in place
of the fill. -/
def settledIn (fmt : NumberFormat) (fill : Fill) : Except Halt Fill := do
  let notionalUsd ← notionalIn fmt fill
  let priceUsd ← orStop (fmt.div notionalUsd fill.qty)
  let feeUsd ← orStop (fmt.fit fill.feeUsd)
  return { fill with priceUsd := priceUsd, notionalUsd := notionalUsd, feeUsd := feeUsd }

/-- An order of either side. -/
def place : Order → LiveM ω Fill
  | .buy req => buy crates up req
  | .sell req => sell crates up req

end Live

/-! ## A mock upstream, in the manner of the tests

One operator key, one swap transaction that it pays for, one token with six
decimals.  The library functions are tables of the few inputs that occur. -/

namespace Mock

def operator : Pubkey := "4zvwRjXUKGfvwnParsHAS3HuSVzV5cA4McphgmoCtajS"

def operatorBytes : Bytes :=
  [59, 106, 39, 188, 206, 182, 164, 45, 98, 163, 168, 208, 42, 111, 13, 115, 101, 50, 21, 119, 29,
    226, 67, 166, 58, 192, 72, 161, 139, 89, 218, 41]

def zeroHash : Hash := "11111111111111111111111111111111"

def systemProgram : Pubkey := "11111111111111111111111111111111"

def mint : String := "MockMint11111111111111111111111111111111"

/-- A legacy transaction without instructions, its signature and blockhash blank. -/
def swapB64 : String :=
  "AQAAAAAAAAAAAAAAAAAAAAAAAAAAAAAAAAAAAAAAAAAAAAAAAAAAAAAAAAAAAAAAAAAAAAAAAAAAAAAAAAAAAAABAAABO2onvM62pC1io6jQKm8Nc2UyFXcd4kOmOsBIoYtZ2ikAAAAAAAAAAAAAAAAAAAAAAAAAAAAAAAAAAAAAAAAAAAAA"

def swapBytes : Bytes :=
  1 :: List.replicate 64 0 ++ [1, 0, 0, 1] ++ operatorBytes ++ List.replicate 33 0

def swapMessage : VersionedMessage where
  accountKeys := [operator]
  recentBlockhash := zeroHash
  rest := []

def crates : Crates where
  jsonText _ := ""
  parseDecimal s :=
    if s = "0.5" then some (1 / 2) else if s = "5.000000" then some 5 else none
  roundDecimal := HfmcBot.roundDecimal
  parsePubkey s := if s = solMint ∨ s = systemProgram then some s else none
  parseHash s := if s = zeroHash then some zeroHash else none
  base64Decode s := if s = swapB64 then .ok swapBytes else .error "invalid"
  deserializeTx bytes := if bytes = swapBytes then .ok swapMessage else .error "invalid"
  keypairOf bytes :=
    if bytes = List.replicate 32 0 ++ operatorBytes then .ok ⟨operator⟩ else .error "invalid"
  signs _ := .ok ()
  serializeTx _ := .ok ()

def config : Config :=
  { Config.paperDefaults with
    mode := .live
    solUsd := 100
    simulateOnly := false
    jitoTipAccounts := [solMint] }

def loaded : LoadedKey where
  keypairBytes := List.replicate 32 0 ++ operatorBytes
  pubkeyBase58 := operator

def num (n : UInt64) : Json := .number (.posInt n)

/-- A body with a `result.value`. -/
def result (value : Json) : Json := .object [("result", .object [("value", value)])]

def buyQuote : Json :=
  .object [("inputMint", .string solMint), ("inAmount", .string "1000000000"),
    ("outputMint", .string mint), ("outAmount", .string "5000000"),
    ("otherAmountThreshold", .string "4950000"), ("swapMode", .string "ExactIn"),
    ("slippageBps", num 1000), ("priceImpactPct", .string "0.5")]

/-- A finalized bundle without an error. -/
def landed : Json :=
  result (.array [.object [("bundle_id", .string "uuid-9"),
    ("transactions", .array [.string "sigLanded111"]), ("confirmation_status", .string "finalized"),
    ("err", .object [("Ok", .null)])]])

/-- A wallet that shows five tokens. -/
def fiveTokens : Json :=
  result (.array [.object [("account", .object [("data", .object [("parsed", .object
    [("info", .object [("tokenAmount", .object
      [("uiAmountString", .string "5.000000")])])])])])]])

/-- Every request is answered at once; the bundle status and the wallet are the
given bodies. -/
def upstream (status balance : Json) : Upstream Unit where
  answer req w :=
    let body :=
      match req with
      | .quote _ _ _ _ => buyQuote
      | .swap _ _ _ =>
          .object [("swapTransaction", .string swapB64), ("lastValidBlockHeight", num 424242)]
      | .rpc _ .getLatestBlockhash =>
          result (.object [("blockhash", .string zeroHash), ("lastValidBlockHeight", num 999)])
      | .rpc _ (.getTokenSupply _) => result (.object [("decimals", num 6)])
      | .rpc _ (.getTokenAccountsByOwner _ _) => balance
      | .sendBundle _ _ => .object [("result", .string "uuid-9")]
      | .getBundleStatuses _ _ => status
    ({ response := .ok (.ok body), elapsed := 0 }, w)
  utcNow _ := 0

/-- A buy of the mint for a hundred dollars. -/
def buyOrder : BuyRequest where
  mint := mint
  budgetUsd := 100
  priceUsd := 20
  liquidityUsd := 8000
  now := 0
  deadline := seconds 5
  orderId := "e2e-buy-1"

/-- The executor the configuration arms, at clock zero. -/
def executor : Except Halt LiveExecutor := LiveExecutor.armedWithSigner config loaded 0

end Mock

end HfmcBot
