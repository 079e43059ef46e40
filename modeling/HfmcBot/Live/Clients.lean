import HfmcBot.Live.Parse

/-!
# The clients of the live executor

Jupiter quotes and swaps, RPC with failover, Jito bundles.  The state of a
computation is the executor with its clock and its outside; the clock moves with
every reply and with the sleeps of the poll loop.

* `rpcTry`: the endpoints in rotation, up to the first one that answers;
* `pollFrom`: the poll loop, which ends because every round that goes on moves
  the clock towards the deadline;
* `pollFrom_rule`: what one round has to show for a property of the loop.
-/

namespace HfmcBot

open Foundation

/-- Urgency-priced tip schedule. -/
structure TipSchedule where
  entry : UInt64
  flip : UInt64
  conviction : UInt64
  deriving DecidableEq

/-- The block-engine client. -/
structure JitoClient where
  tips : TipSchedule
  tipAccounts : List String
  deriving DecidableEq

/-- The lamport tip of an urgency tier. -/
def JitoClient.tipFor (jito : JitoClient) : TipTier → UInt64
  | .entry => jito.tips.entry
  | .flipExit => jito.tips.flip
  | .convictionExit => jito.tips.conviction

/-- The RPC client: its endpoints and the index of the last one that answered. -/
structure RpcClient where
  urls : List String
  active : Nat
  deriving DecidableEq

/-- The live executor.  `cachedBlockhash` is the last blockhash with its height and
the time it was fetched. -/
structure LiveExecutor where
  operatorPubkey : String
  signerBytes : Option Bytes
  bucket : TokenBucket
  jito : JitoClient
  rpc : RpcClient
  maxSlippagePct : Decimal
  solUsd : Decimal
  simulateOnly : Bool
  bundleTimeoutSecs : UInt64
  cachedBlockhash : Option (String × UInt64 × Instant)
  blockhashTtlSecs : UInt64
  reconcileDustTokens : Decimal
  reqId : UInt64
  isArmed : Bool
  deriving DecidableEq

/-- A live executor in its world. -/
structure Live (ω : Type) where
  ex : LiveExecutor
  clock : Instant
  outside : ω

abbrev LiveM (ω : Type) := Attempt Halt (Live ω)

namespace Live

variable {ω : Type}

/-- Time passes. -/
def sleep (s : Live ω) (duration : Nat) : Live ω := { s with clock := s.clock + duration }

section Clients

variable (crates : Crates) (up : Upstream ω)

/-- One HTTP exchange. -/
def call (req : Request) : LiveM ω Response := do
  let s ← get
  let (reply, outside) := up.answer req s.outside
  set { s with clock := s.clock + reply.elapsed, outside := outside }
  return reply.response

/-! ## Jupiter -/

/-- Ask the governor for one call. -/
def takeToken : LiveM ω Bool := do
  let s ← get
  let (granted, bucket) := s.ex.bucket.tryTake 1 s.clock s.clock
  set { s with ex := { s.ex with bucket := bucket } }
  return granted

/-- A governed Jupiter call: its body, or an unknown state. -/
def jupiterCall (what skipped : String) (req : Request) : LiveM ω Body := do
  if ← takeToken then
    match ← call up req with
    | .ok body => return body
    | .error e => throw (e.halt what " body unreadable: ")
  else throw (.transport ["jupiter rate governor exhausted; ", skipped, " skipped"])

def jupiterQuote (inputMint outputMint : String) (amountRaw slippageBps : UInt64) :
    LiveM ω JupiterQuote := do
  let body ← jupiterCall up "jupiter quote" "quote"
    (.quote inputMint outputMint amountRaw slippageBps)
  ofExcept (parseQuoteResponse crates body)

def jupiterSwap (quote : JupiterQuote) (userPubkey : String) (prioritizationFeeLamports : UInt64) :
    LiveM ω SwapTx := do
  let body ← jupiterCall up "jupiter swap" "swap assembly"
    (.swap quote.raw userPubkey prioritizationFeeLamports)
  ofExcept (parseSwapResponse body)

/-! ## RPC -/

/-- Try the endpoints with these indices; the first one that answers becomes the
preferred one. -/
def rpcTry (method : RpcMethod) : List Nat → Halt → LiveM ω Body
  | [], lastErr => throw lastErr
  | i :: rest, _ => do
      let s ← get
      match ← call up (.rpc (s.ex.rpc.urls.getD i "") method) with
      | .ok body => do
          modify fun s => { s with ex := { s.ex with rpc := { s.ex.rpc with active := i } } }
          return body
      | .error e => rpcTry method rest (e.halt ("rpc " ++ method.name) " body unreadable: ")

/-- One call, starting at the preferred endpoint and wrapping around. -/
def rpcCall (method : RpcMethod) : LiveM ω Body := do
  let s ← get
  let n := s.ex.rpc.urls.length
  let start := min s.ex.rpc.active (n - 1)
  rpcTry up method ((List.range n).map fun k => (start + k) % n)
    (.transport ["rpc: no endpoints configured"])

def fetchRecentBlockhash : LiveM ω (String × UInt64) := do
  let body ← rpcCall up .getLatestBlockhash
  ofExcept (parseBlockhashResponse crates body)

def fetchTokenDecimals (mint : String) : LiveM ω UInt8 := do
  let body ← rpcCall up (.getTokenSupply mint)
  ofExcept (parseTokenSupplyDecimals body)

def fetchTokenBalance (owner mint : String) : LiveM ω Decimal := do
  let body ← rpcCall up (.getTokenAccountsByOwner owner mint)
  ofExcept (parseTokenAccountsBalance crates body)

/-! ## Jito -/

/-- Submit a signed bundle.  Acceptance is not landing. -/
def sendBundle (id : UInt64) (txs : List SignedTx) : LiveM ω String := do
  match ← call up (.sendBundle id txs) with
  | .error e => throw (e.halt "jito bundle" " response unreadable: ")
  | .ok (.error e) => throw (.transport ["jito bundle response unreadable: ", e])
  | .ok (.ok resp) =>
      match (resp.get "result").bind Json.asStr with
      | some uuid => return uuid
      | none => throw (.transport ["jito bundle rejected: ", crates.jsonText resp])

def getBundleStatuses (id : UInt64) (uuid : String) : LiveM ω BundleStatus := do
  match ← call up (.getBundleStatuses id uuid) with
  | .error e => throw (e.halt "jito status" " body unreadable: ")
  | .ok body => ofExcept (parseBundleStatus crates body)

/-- What the poll loop does with a status: stop with a result, or keep waiting. -/
def verdict (uuid : String) : Except Halt BundleStatus → Option (Except Halt (List String))
  | .ok (.landed signatures) => some (.ok signatures)
  | .ok (.failed reason) =>
      some (.error (.rejected ["bundle ", uuid, " failed on-chain: ", reason]))
  | .ok .pending => none
  | .error (.err (.transport _)) => none
  | .error other => some (.error other)

/-- A call always hands its response on. -/
theorem exec_call (req : Request) (s : Live ω) :
    (call up req).exec s =
      (.ok (up.answer req s.outside).1.response,
        { s with
          clock := s.clock + (up.answer req s.outside).1.elapsed
          outside := (up.answer req s.outside).2 }) := rfl

/-- The status a response stands for. -/
def statusOf : Response → Except Halt BundleStatus
  | .error e => .error (e.halt "jito status" " body unreadable: ")
  | .ok body => parseBundleStatus crates body

/-- A status query only asks; the answer is parsed. -/
theorem exec_getBundleStatuses (id : UInt64) (uuid : String) (s : Live ω) :
    (getBundleStatuses crates up id uuid).exec s =
      (statusOf crates (up.answer (.getBundleStatuses id uuid) s.outside).1.response,
        ((call up (.getBundleStatuses id uuid)).exec s).2) := by
  unfold getBundleStatuses
  rw [Attempt.exec_bind_ok (exec_call up _ s)]
  cases (up.answer (.getBundleStatuses id uuid) s.outside).1.response with
  | error e => rfl
  | ok body => exact Attempt.exec_ofExcept _ _

/-- The clock does not go back during a query. -/
theorem getBundleStatuses_clock_le (id : UInt64) (uuid : String) (s : Live ω) :
    s.clock ≤ ((getBundleStatuses crates up id uuid).exec s).2.clock := by
  rw [exec_getBundleStatuses]
  exact Nat.le_add_right _ _

/-- A sleep of positive length before the deadline leaves less time. -/
theorem remaining_lt {deadline before after : Nat} (hclock : before ≤ after)
    (hleft : ¬ deadline ≤ after) :
    deadline - (after + min (deadline - after) 2000000000) < deadline - before := by
  omega

/-- The poll loop from a state: query, stop on a verdict or at the deadline, else
sleep for two seconds or what is left of the time. -/
def pollFrom (uuid : String) (timeoutSecs : UInt64) (deadline : Instant) (id : UInt64)
    (s : Live ω) : Except Halt (List String) × Live ω :=
  match _h : (getBundleStatuses crates up id uuid).exec s with
  | (status, s') =>
      match verdict uuid status with
      | some result => (result, s')
      | none =>
          if _hleft : deadline ≤ s'.clock then
            (.error (.transport ["bundle ", uuid, " landing unknown after ",
              .int timeoutSecs.toNat, "s — reconcile before re-issuing"]), s')
          else
            pollFrom uuid timeoutSecs deadline (id + 1)
              (s'.sleep (min (deadline - s'.clock) 2000000000))
termination_by deadline - s.clock
decreasing_by
  have hclock : s.clock ≤ s'.clock := by
    have hle := getBundleStatuses_clock_le crates up id uuid s
    rw [_h] at hle
    exact hle
  exact remaining_lt hclock _hleft

/-- One round of the poll loop. -/
theorem pollFrom_eq (uuid : String) (timeoutSecs : UInt64) (deadline : Instant) (id : UInt64)
    {s s' : Live ω} {status : Except Halt BundleStatus}
    (hquery : (getBundleStatuses crates up id uuid).exec s = (status, s')) :
    pollFrom crates up uuid timeoutSecs deadline id s =
      match verdict uuid status with
      | some result => (result, s')
      | none =>
          if deadline ≤ s'.clock then
            (.error (.transport ["bundle ", uuid, " landing unknown after ",
              .int timeoutSecs.toNat, "s — reconcile before re-issuing"]), s')
          else
            pollFrom crates up uuid timeoutSecs deadline (id + 1)
              (s'.sleep (min (deadline - s'.clock) 2000000000)) := by
  rw [pollFrom]
  split
  next status₀ s₀ hquery₀ =>
    obtain ⟨rfl, rfl⟩ := Prod.mk.inj (hquery.symm.trans hquery₀)
    split
    · rfl
    · rfl

/-- The rule of the poll loop: what holds of a run that stops with its first query, in
time or at the deadline, and is kept by one more round before, holds of every run. -/
theorem pollFrom_rule (uuid : String) (timeoutSecs : UInt64) (deadline : Instant)
    {P : Live ω → Except Halt (List String) × Live ω → Prop}
    (hstop : ∀ id s status s' result,
      (getBundleStatuses crates up id uuid).exec s = (status, s') →
      verdict uuid status = some result → P s (result, s'))
    (hlate : ∀ id s status s' msg, (getBundleStatuses crates up id uuid).exec s = (status, s') →
      verdict uuid status = none → deadline ≤ s'.clock → P s (.error (.transport msg), s'))
    (hround : ∀ id s status s' r, (getBundleStatuses crates up id uuid).exec s = (status, s') →
      verdict uuid status = none → s'.clock < deadline →
      P (s'.sleep (min (deadline - s'.clock) 2000000000)) r → P s r)
    (id : UInt64) (s : Live ω) :
    P s (pollFrom crates up uuid timeoutSecs deadline id s) := by
  induction id, s using pollFrom.induct crates up uuid deadline with
  | case1 id s status s' hquery result hverdict =>
      rw [pollFrom_eq crates up uuid timeoutSecs deadline id hquery, hverdict]
      exact hstop id s status s' result hquery hverdict
  | case2 id s status s' hquery hverdict hleft =>
      rw [pollFrom_eq crates up uuid timeoutSecs deadline id hquery, hverdict]
      dsimp only
      rw [if_pos hleft]
      exact hlate id s status s' _ hquery hverdict hleft
  | case3 id s status s' hquery hverdict hleft ih =>
      rw [pollFrom_eq crates up uuid timeoutSecs deadline id hquery, hverdict]
      dsimp only
      rw [if_neg hleft]
      exact hround id s status s' _ hquery hverdict (Nat.lt_of_not_le hleft) ih

/-- Landing reconciliation: poll until the bundle lands, fails, or the time is up. -/
def pollBundleLanding (uuid : String) (timeoutSecs : UInt64) : LiveM ω (List String) :=
  .of fun s => pollFrom crates up uuid timeoutSecs (s.clock + durationSecs timeoutSecs) 1 s

theorem exec_pollBundleLanding (uuid : String) (timeoutSecs : UInt64) (s : Live ω) :
    (pollBundleLanding crates up uuid timeoutSecs).exec s =
      pollFrom crates up uuid timeoutSecs (s.clock + durationSecs timeoutSecs) 1 s :=
  Attempt.exec_of _ s

end Clients

end Live

end HfmcBot
