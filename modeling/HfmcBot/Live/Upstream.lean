import HfmcBot.Exec
import HfmcBot.Foundation.Attempt
import HfmcBot.Foundation.Checked
import HfmcBot.Live.Json

/-!
# The outside of the live executor

What `live.rs` reaches over the network and through its libraries.

An upstream is a state type with one state-passing function from requests to
replies, so every sequence of failures, bodies and delays is some upstream.  A
request carries the data that goes into the URL or the JSON body; a body is what
the JSON parser makes of it.  `recorded` keeps the list of all exchanges.

`Crates` collects the library functions: number and key parsers, the codec of
transactions, and the signer.  Signing is deterministic, so a signed transaction
is represented by what was signed and stands for its bytes.
-/

namespace HfmcBot

open Foundation

/-- A monotonic clock reading, in nanoseconds. -/
abbrev Instant := Nat

/-- `Duration::from_secs`.  Added to an `Instant` it stops the program from about `2 ^ 63`
seconds on; the timeouts of the loops are taken to be shorter. -/
def durationSecs (secs : UInt64) : Nat := secs.toNat * 1000000000

abbrev Bytes := List UInt8

/-- A 32-byte public key, by its base58 text. -/
abbrev Pubkey := String

/-- A 32-byte blockhash, by its base58 text. -/
abbrev Hash := String

/-- The operator's key as far as it is visible: the secret half only decides
whether the library accepts it. -/
structure Keypair where
  pubkey : Pubkey
  deriving DecidableEq

/-- A transaction message: its static account keys, its recent blockhash, and the
rest, which nothing looks into. -/
structure VersionedMessage where
  accountKeys : List Pubkey
  recentBlockhash : Hash
  rest : Bytes
  deriving DecidableEq

/-- The transfer a tip transaction makes, and the blockhash it is signed on. -/
structure TipTransfer where
  operator : Pubkey
  account : Pubkey
  lamports : UInt64
  blockhash : Hash
  deriving DecidableEq

/-- A signed transaction. -/
inductive SignedTx
  | swap (message : VersionedMessage) (signer : Pubkey)
  | tip (transfer : TipTransfer)
  deriving DecidableEq

/-- The library functions the executor relies on. -/
structure Crates where
  /-- How a JSON value prints. -/
  jsonText : Json → String
  parseDecimal : String → Option Decimal
  /-- The rounding of the decimal operators. -/
  roundDecimal : Decimal → Decimal
  parsePubkey : String → Option Pubkey
  parseHash : String → Option Hash
  base64Decode : String → Except String Bytes
  deserializeTx : Bytes → Except String VersionedMessage
  keypairOf : Bytes → Except String Keypair
  /-- Does the message want exactly the signature of this key? -/
  signs : SignedTx → Except String Unit
  serializeTx : SignedTx → Except String Unit

/-- The checked decimals. -/
def Crates.decimals (crates : Crates) : NumberFormat where
  limit := maxDecimal
  round := crates.roundDecimal

/-! ## Requests and replies -/

/-- The RPC methods on the order path. -/
inductive RpcMethod
  | getLatestBlockhash
  | getTokenSupply (mint : String)
  | getTokenAccountsByOwner (owner mint : String)
  deriving DecidableEq

def RpcMethod.name : RpcMethod → String
  | .getLatestBlockhash => "getLatestBlockhash"
  | .getTokenSupply _ => "getTokenSupply"
  | .getTokenAccountsByOwner _ _ => "getTokenAccountsByOwner"

/-- A request, by what goes into it. -/
inductive Request
  | quote (inputMint outputMint : String) (amountRaw slippageBps : UInt64)
  | swap (quoteRaw : Json) (userPubkey : String) (prioritizationFeeLamports : UInt64)
  | rpc (url : String) (method : RpcMethod)
  | sendBundle (id : UInt64) (txs : List SignedTx)
  | getBundleStatuses (id : UInt64) (uuid : String)

/-- Where an HTTP exchange failed, with the library's message. -/
inductive HttpError
  | request (e : String)
  | status (e : String)
  | body (e : String)
  deriving DecidableEq

/-- A body as the JSON parser reads it: a value, or what is wrong with it. -/
abbrev Body := Except String Json

abbrev Response := Except HttpError Body

/-- A response and how long it took. -/
structure Reply where
  response : Response
  elapsed : Nat

/-- Everything the executor talks to. -/
structure Upstream (ω : Type) where
  answer : Request → ω → Reply × ω
  /-- The wall clock that stamps fills. -/
  utcNow : ω → DateTime

/-- A request with the response it got. -/
structure Exchange where
  request : Request
  response : Response

/-- The same upstream, keeping the list of exchanges. -/
def Upstream.recorded {ω : Type} (up : Upstream ω) : Upstream (ω × List Exchange) where
  answer req w :=
    ((up.answer req w.1).1, (up.answer req w.1).2,
      w.2 ++ [⟨req, (up.answer req w.1).1.response⟩])
  utcNow w := up.utcNow w.1

/-! ## How an order ends early -/

/-- An order ends early with an error, or the program stops on an unsigned
overflow. -/
inductive Halt
  | err (e : ExecError)
  | overflow
  deriving DecidableEq

instance : Coe ExecError Halt := ⟨Halt.err⟩

/-- An error without a submission, or after a definite failure. -/
def Halt.rejected (msg : Text) : Halt := .err (.rejected msg)

/-- An unknown state. -/
def Halt.transport (msg : Text) : Halt := .err (.transport msg)

def Halt.notArmed (msg : Text) : Halt := .err (.notArmed msg)

/-- The three `map_err` of a request: they name what was requested. -/
def HttpError.halt (what unreadable : String) : HttpError → Halt
  | .request e => .transport [what, " request failed: ", e]
  | .status e => .transport [what, " HTTP error: ", e]
  | .body e => .transport [what, unreadable, e]

/-! ## The outbound governor -/

/-- Integer token bucket. -/
structure TokenBucket where
  capacity : Nat
  refillPerSec : Nat
  available : Nat
  lastRefill : Instant
  deriving DecidableEq

namespace TokenBucket

def new (capacity refillPerSec : Nat) (now : Instant) : TokenBucket where
  capacity := capacity
  refillPerSec := refillPerSec
  available := capacity
  lastRefill := now

/-- Earn whole tokens; a fraction of one is dropped.  The clock is read once for
the elapsed time and once more for the new mark. -/
def refill (b : TokenBucket) (read reread : Instant) : TokenBucket :=
  let elapsedNanos := read - b.lastRefill
  if elapsedNanos = 0 then b
  else
    let earned := elapsedNanos * b.refillPerSec / 1000000000 % 2 ^ 64
    if 0 < earned then
      { b with
        available := min (min (b.available + earned) (2 ^ 64 - 1)) b.capacity
        lastRefill := reread }
    else b

/-- Take `n` tokens if they are there. -/
def tryTake (b : TokenBucket) (n : Nat) (read reread : Instant) : Bool × TokenBucket :=
  let b := b.refill read reread
  if n ≤ b.available then (true, { b with available := b.available - n }) else (false, b)

end TokenBucket

end HfmcBot
