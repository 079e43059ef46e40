import HfmcBot.Feed.Archive
import HfmcBot.Foundation.Checked
import HfmcBot.Live.Executor

/-!
# The wire feed

From an inbound text line to an engine event, as in `wsfeed.rs` and the text arm of
`stream_loop`.  The reserves pass through a double and a checked decimal, so here the
decimal operators can stop the program.

* `F64`, `toF64`, `parseF64`: the doubles;
* `parseWsLine`, `extractCreate`, `extractTrade`: what is read off a line;
* `enrichCreate`, `enrichTrade`: the event made of it;
* `handleText`: one turn of the live loop on a text line.
-/

namespace HfmcBot

open Foundation

/-! ## Doubles -/

/-- A double.  The two zeros are not told apart: nothing in the feed does. -/
inductive F64
  | finite (value : Decimal)
  | infinite (negative : Bool)
  | nan
  deriving DecidableEq

namespace F64

def isFinite : F64 → Bool
  | finite _ => true
  | _ => false

/-- `x <= 0.0`. -/
def nonpos : F64 → Bool
  | finite x => x ≤ 0
  | infinite negative => negative
  | nan => false

/-- `x < 0.0`. -/
def neg : F64 → Bool
  | finite x => x < 0
  | infinite negative => negative
  | nan => false

end F64

/-- A power of two. -/
def pow2 : Int → Decimal
  | .ofNat n => ((2 ^ n : Nat) : Decimal)
  | .negSucc n => 1 / ((2 ^ (n + 1) : Nat) : Decimal)

/-- The binary exponent of a positive number. -/
def exponent (x : Decimal) : Int :=
  let e : Int := (Nat.log2 x.num.natAbs : Int) - Nat.log2 x.den
  if x < pow2 e then e - 1 else e

/-- The nearest double: 53 bits, ties to the even one, subnormal below `2⁻¹⁰²²`. -/
def toF64 (x : Decimal) : F64 :=
  if x = 0 then .finite 0
  else
    let ulp := pow2 (max (exponent |x| - 52) (-1074))
    let y := roundHalfEven (x / ulp) * ulp
    if pow2 1024 ≤ |y| then .infinite (x < 0) else .finite y

def splitSign : List Char → Bool × List Char
  | '-' :: rest => (true, rest)
  | '+' :: rest => (false, rest)
  | chars => (false, chars)

def digitsValue (digits : List Char) : Nat :=
  digits.foldl (fun n c => 10 * n + (c.toNat - 48)) 0

/-- The exponent part of a literal; it may be absent. -/
def parseExponent : List Char → Option Int
  | [] => some 0
  | c :: rest =>
      if c = 'e' ∨ c = 'E' then
        let (negative, digits) := splitSign rest
        if digits ≠ [] ∧ digits.all Char.isDigit then
          some (if negative then -(digitsValue digits : Int) else digitsValue digits)
        else none
      else none

/-- A power of ten. -/
def pow10Int : Int → Decimal
  | .ofNat n => ((10 ^ n : Nat) : Decimal)
  | .negSucc n => 1 / ((10 ^ (n + 1) : Nat) : Decimal)

/-- The digits after the point, and what follows them. -/
def splitFraction : List Char → List Char × List Char
  | '.' :: rest => (rest.takeWhile Char.isDigit, rest.dropWhile Char.isDigit)
  | chars => ([], chars)

/-- `str::parse::<f64>`. -/
def parseF64 (s : String) : Option F64 :=
  let (negative, body) := splitSign s.toList
  let word := String.ofList (body.map Char.toLower)
  if word = "inf" ∨ word = "infinity" then some (.infinite negative)
  else if word = "nan" then some .nan
  else
    let whole := body.takeWhile Char.isDigit
    let (fraction, tail) := splitFraction (body.dropWhile Char.isDigit)
    if whole = [] ∧ fraction = [] then none
    else
      (parseExponent tail).map fun e =>
        let value := digitsValue (whole ++ fraction) * pow10Int (e - fraction.length)
        toF64 (if negative then -value else value)

/-! ## The libraries -/

/-- The library functions of the feed. -/
structure FeedCrates where
  /-- `serde_json::from_str`. -/
  parseLine : String → Option Json
  /-- `Value::as_f64` of a number that is no integer. -/
  floatOf : String → F64
  /-- `Decimal::from_f64_retain`. -/
  fromF64Retain : F64 → Option Decimal
  /-- The rounding of the decimal operators. -/
  round : Decimal → Decimal
  /-- `bs58::decode`. -/
  base58Decode : String → Option Bytes

/-- The checked decimals. -/
def FeedCrates.decimals (crates : FeedCrates) : NumberFormat where
  limit := maxDecimal
  round := crates.round

/-! ## Fields -/

section Fields

variable (crates : FeedCrates)

/-- An integer, a float or a numeric string. -/
def numFlex : Json → Option F64
  | .number (.posInt n) => some (toF64 n.toNat)
  | .number (.negInt n) => some (toF64 n.toInt)
  | .number (.float literal) => some (crates.floatOf literal)
  | .string s => parseF64 (trim s)
  | _ => none

def firstNum (v : Json) (aliases : List String) : Option F64 :=
  ((aliases.filterMap v.get).filterMap (numFlex crates)).head?

def firstStr (v : Json) (aliases : List String) : Option String :=
  ((aliases.filterMap v.get).filterMap Json.asStr).head?

def boolFlex : Json → Option Bool
  | .bool b => some b
  | .number (.posInt n) => some (n ≠ 0)
  | _ => none

end Fields

def Json.isObject : Json → Bool
  | .object _ => true
  | _ => false

/-! ## Lines -/

/-- Classification of one inbound text line. -/
inductive WsInbound
  | createAttempt (v : Json)
  | tradeAttempt (v : Json)
  | chatter
  | malformed

def parseWsLine (crates : FeedCrates) (line : String) : WsInbound :=
  match crates.parseLine line with
  | none => .malformed
  | some v =>
      match (v.get "mint").bind Json.asStr with
      | none => .chatter
      | some mint =>
          if mint = "" then .chatter
          else if (v.get "txType").bind Json.asStr = some "buy" ∨
              (v.get "txType").bind Json.asStr = some "sell" then .tradeAttempt v
          else .createAttempt v

/-- A new-token create with every field that is consumed. -/
structure PumpPortalCreate where
  mint : String
  signature : String
  trader : String
  bondingCurve : String
  vtokensTokens : F64
  vsolSol : F64
  initialBuyTokens : F64
  solAmount : F64
  marketCapSol : F64
  name : String
  symbol : String
  uri : String
  pool : String
  mayhem : Bool

/-- A trade tick. -/
structure PumpPortalTrade where
  mint : String
  signature : String
  trader : String
  bondingCurve : String
  buy : Bool
  vtokensTokens : F64
  vsolSol : F64
  solAmount : F64
  marketCapSol : F64

/-- The reserves of a line: finite and positive, or none. -/
def extractReserves (crates : FeedCrates) (v : Json) : Option (F64 × F64) := do
  let vtokens ← firstNum crates v ["vTokensInBondingCurve", "vTokens", "v_tokens"]
  let vsol ← firstNum crates v ["vSolInBondingCurve", "vSol", "v_sol"]
  if vtokens.isFinite = false ∨ vsol.isFinite = false ∨ vtokens.nonpos ∨ vsol.nonpos then none
  else return (vtokens, vsol)

def extractCreate (crates : FeedCrates) (v : Json) : Option PumpPortalCreate := do
  let mint ← if v.isObject then firstStr v ["mint"] else none
  if mint = "" then none
  else if ((v.get "txType").bind Json.asStr).any (· ≠ "create") then none
  else
    let (vtokens, vsol) ← extractReserves crates v
    let initialBuy := (firstNum crates v ["initialBuy", "initial_buy"]).getD (.finite 0)
    if initialBuy.isFinite = false ∨ initialBuy.neg then none
    else
      return {
        mint := mint
        signature := (firstStr v ["signature", "txSignature"]).getD ""
        trader := (firstStr v ["traderPublicKey", "creator", "trader"]).getD ""
        bondingCurve := (firstStr v ["bondingCurveKey", "bonding_curve", "bondingCurve"]).getD ""
        vtokensTokens := vtokens
        vsolSol := vsol
        initialBuyTokens := initialBuy
        solAmount := (firstNum crates v ["solAmount", "sol_amount"]).getD (.finite 0)
        marketCapSol := (firstNum crates v ["marketCapSol", "market_cap_sol"]).getD (.finite 0)
        name := (firstStr v ["name"]).getD ""
        symbol := (firstStr v ["symbol"]).getD ""
        uri := (firstStr v ["uri"]).getD ""
        pool := (firstStr v ["pool"]).getD ""
        mayhem := ((((v.get "is_mayhem_mode").or (v.get "mayhem_mode")).or (v.get "mayhem")).bind
          boolFlex).getD false }

/-- The side of a trade. -/
def tradeSide (v : Json) : Option Bool :=
  match (v.get "txType").bind Json.asStr with
  | some side => if side = "buy" then some true else if side = "sell" then some false else none
  | none => none

def extractTrade (crates : FeedCrates) (v : Json) : Option PumpPortalTrade := do
  let buy ← if v.isObject then tradeSide v else none
  let mint ← firstStr v ["mint"]
  if mint = "" then none
  else
    let (vtokens, vsol) ← extractReserves crates v
    return {
      mint := mint
      signature := (firstStr v ["signature", "txSignature"]).getD ""
      trader := (firstStr v ["traderPublicKey", "creator", "trader"]).getD ""
      bondingCurve := (firstStr v ["bondingCurveKey", "bonding_curve", "bondingCurve"]).getD ""
      buy := buy
      vtokensTokens := vtokens
      vsolSol := vsol
      solAmount := (firstNum crates v ["solAmount", "sol_amount"]).getD (.finite 0)
      marketCapSol := (firstNum crates v ["marketCapSol", "market_cap_sol"]).getD (.finite 0) }

/-! ## Enrichment -/

/-- How an enrichment ends early: with `None`, or with the program. -/
inductive EnrichStop
  | refused
  | panic (stop : ArithStop)
  deriving DecidableEq

def orRefuse {α : Type} : Option α → Except EnrichStop α
  | some a => .ok a
  | none => .error .refused

def refuseIf (bad : Prop) [Decidable bad] : Except EnrichStop Unit :=
  if bad then .error .refused else .ok ()

/-- A decimal operator within an enrichment. -/
def checked {α : Type} (x : Except ArithStop α) : Except EnrichStop α := x.mapError .panic

/-- Price per token in SOL and in dollars, and liquidity. -/
structure Quote where
  priceSol : Decimal
  priceUsd : Decimal
  liquidityUsd : Decimal

/-- An enriched launch with what it was derived from. -/
structure EnrichedLaunch where
  event : Event
  creatorHoldPct : Decimal
  priceSolPerToken : Decimal
  solUsdUsed : Decimal

section Enrich

variable (crates : FeedCrates)

/-- The part that creates and trades share: price and liquidity from the reserves. -/
def quoteReserves (vsolSol vtokensTokens : F64) (solUsd : Decimal) : Except EnrichStop Quote := do
  refuseIf (solUsd ≤ 0)
  let vsol ← orRefuse (crates.fromF64Retain vsolSol)
  let vtok ← orRefuse (crates.fromF64Retain vtokensTokens)
  refuseIf (vsol ≤ 0 ∨ vtok ≤ 0)
  let priceSol ← checked (crates.decimals.div vsol vtok)
  let priceUsd ← checked (crates.decimals.mul priceSol solUsd)
  let doubled ← checked (crates.decimals.mul 2 vsol)
  let liquidityUsd ← checked (crates.decimals.mul doubled solUsd)
  return { priceSol := priceSol, priceUsd := priceUsd, liquidityUsd := liquidityUsd }

/-- Pump supply in whole tokens. -/
def pumpSupplyTokens : Decimal := 1000000000

/-- The share of the creator, in percent of the supply. -/
def creatorHold (initialBuyTokens : F64) : Except EnrichStop Decimal := do
  let buy ← orRefuse (crates.fromF64Retain initialBuyTokens)
  refuseIf (buy < 0)
  let share ← checked (crates.decimals.div buy pumpSupplyTokens)
  let holdPct ← checked (crates.decimals.mul share 100)
  refuseIf (100 < holdPct)
  return holdPct

def enrichCreate (c : PumpPortalCreate) (createdAt : DateTime) (solUsd : Decimal) :
    Except EnrichStop EnrichedLaunch := do
  let quote ← quoteReserves crates c.vsolSol c.vtokensTokens solUsd
  let holdPct ← creatorHold crates c.initialBuyTokens
  return {
    event := .launch {
      mint := c.mint
      launchpad := .pumpFun
      createdAt := createdAt
      creatorHoldPct := holdPct
      mintRenounced := false
      isHoneypot := false
      liquidityUsd := quote.liquidityUsd
      onCurve := true
      priceUsd := quote.priceUsd }
    creatorHoldPct := holdPct
    priceSolPerToken := quote.priceSol
    solUsdUsed := solUsd }

def enrichTrade (t : PumpPortalTrade) (ts : DateTime) (solUsd : Decimal) :
    Except EnrichStop Event := do
  let quote ← quoteReserves crates t.vsolSol t.vtokensTokens solUsd
  return .price {
    mint := t.mint
    ts := ts
    priceUsd := quote.priceUsd
    liquidityUsd := quote.liquidityUsd }

end Enrich

/-! ## Raw events -/

def hexDigit (n : Nat) : Char := Char.ofNat (if n < 10 then 48 + n else 87 + n)

def hexText (bytes : Bytes) : String :=
  String.ofList (bytes.flatMap fun b => [hexDigit (b.toNat / 16), hexDigit (b.toNat % 16)])

def rawOfCreate (crates : FeedCrates) (c : PumpPortalCreate) : RawFeedEvent where
  slot := none
  mint := c.mint
  kind := .create c.bondingCurve (((crates.base58Decode c.trader).map hexText).getD c.trader)
    c.name c.symbol c.mayhem

def rawOfTrade (t : PumpPortalTrade) : RawFeedEvent where
  slot := none
  mint := t.mint
  kind := .wsTrade t.bondingCurve t.buy

/-! ## The live loop on a text line -/

/-- The counters that a text line moves. -/
structure FeedStats where
  wsMessages : Nat
  wsMalformed : Nat
  wsChatter : Nat
  creates : Nat
  wsTrades : Nat
  wsUnparsedCreate : Nat
  wsUnparsedTrade : Nat

/-- What the loop holds while it streams into an engine, with both archive files
configured: the raw file, the counters, the calls of `archive_typed` and the engine. -/
structure LiveFeed (ε : Type) where
  rawLines : List String
  stats : FeedStats
  archived : List ArchiveCall
  engine : ε

section Handle

variable {ε : Type} (crates : FeedCrates) (onEvent : ε → Event → Except ArithStop ε)

/-- The line is archived and counted whatever it holds. -/
def LiveFeed.received (s : LiveFeed ε) (line : String) : LiveFeed ε :=
  { s with
    rawLines := s.rawLines ++ [line]
    stats := { s.stats with wsMessages := s.stats.wsMessages + 1 } }

/-- `DateTime::from_timestamp_millis`. -/
def atMillis (ms : Int64) : DateTime := ms.toInt * 1000000

/-- An enriched event goes into the archive and the engine. -/
def LiveFeed.emit (s : LiveFeed ε) (nowWall : Int64) (raw : RawFeedEvent) (ev : Event) :
    Except ArithStop (LiveFeed ε) := do
  let engine ← onEvent s.engine ev
  return { s with
    archived := s.archived ++ [⟨⟨nowWall, raw⟩, some ev⟩]
    engine := engine }

/-- The arm for a trade attempt. -/
def handleTrade (solUsd : Decimal) (nowWall : Int64) (s : LiveFeed ε) (v : Json) :
    Except ArithStop (LiveFeed ε) :=
  let unparsed : LiveFeed ε :=
    { s with stats := { s.stats with wsUnparsedTrade := s.stats.wsUnparsedTrade + 1 } }
  match extractTrade crates v with
  | none => .ok unparsed
  | some t =>
      match enrichTrade crates t (atMillis nowWall) solUsd with
      | .error .refused => .ok unparsed
      | .error (.panic stop) => .error stop
      | .ok ev =>
          LiveFeed.emit onEvent
            { s with stats := { s.stats with wsTrades := s.stats.wsTrades + 1 } } nowWall
            (rawOfTrade t) ev

/-- The arm for a create attempt. -/
def handleCreate (solUsd : Decimal) (nowWall : Int64) (s : LiveFeed ε) (v : Json) :
    Except ArithStop (LiveFeed ε) :=
  match extractCreate crates v with
  | none =>
      .ok { s with stats := { s.stats with wsUnparsedCreate := s.stats.wsUnparsedCreate + 1 } }
  | some c =>
      let counted : LiveFeed ε :=
        { s with stats := { s.stats with creates := s.stats.creates + 1 } }
      match enrichCreate crates c (atMillis nowWall) solUsd with
      | .error .refused => .ok counted
      | .error (.panic stop) => .error stop
      | .ok enriched => LiveFeed.emit onEvent counted nowWall (rawOfCreate crates c) enriched.event

/-- One turn of the live loop on a text line. -/
def handleText (solUsd : Decimal) (nowWall : Int64) (s : LiveFeed ε) (line : String) :
    Except ArithStop (LiveFeed ε) :=
  let s := s.received line
  match parseWsLine crates line with
  | .malformed => .ok { s with stats := { s.stats with wsMalformed := s.stats.wsMalformed + 1 } }
  | .chatter => .ok { s with stats := { s.stats with wsChatter := s.stats.wsChatter + 1 } }
  | .tradeAttempt v => handleTrade crates onEvent solUsd nowWall s v
  | .createAttempt v => handleCreate crates onEvent solUsd nowWall s v

end Handle

end HfmcBot
