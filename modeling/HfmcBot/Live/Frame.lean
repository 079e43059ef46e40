import HfmcBot.Live.Exchanges

/-!
# The frame of an order

Most of what an order does touches the clock, the outside, the governor, the preferred
endpoint and the cached blockhash, and nothing else.  A part of the state that depends on
none of them is the same before and after (`Blind`).  What remains is the request counter,
which only the tip and the submission advance.

* `Blind.stage`, `Blind.freshBlockhash`, `Blind.settle`: the steps of an order around the
  signing;
* `Blind.pollBundleLanding`: the poll loop.
-/

namespace HfmcBot

open Foundation Foundation.Attempt

namespace Live

variable {ω κ : Type} {part : Live ω → κ}

/-- The part does not depend on the clock, the outside, the governor, the preferred endpoint
and the cached blockhash. -/
def Blind (part : Live ω → κ) : Prop :=
  ∀ (s : Live ω) (bucket : TokenBucket) (active : Nat)
    (cached : Option (String × UInt64 × Instant)) (clock : Instant) (outside : ω),
    part
        { ex :=
            { s.ex with
              bucket := bucket
              rpc := { s.ex.rpc with active := active }
              cachedBlockhash := cached }
          clock := clock
          outside := outside } =
      part s

namespace Blind

variable (hpart : Blind part) (crates : Crates) (up : Upstream ω)

include hpart

theorem call (req : Request) : Keeps part (call up req) := fun s =>
  hpart s s.ex.bucket s.ex.rpc.active s.ex.cachedBlockhash _ _

theorem takeToken : Keeps part (takeToken : LiveM ω Bool) := fun s =>
  hpart s _ s.ex.rpc.active s.ex.cachedBlockhash s.clock s.outside

theorem jupiterCall (what skipped : String) (req : Request) :
    Keeps part (jupiterCall up what skipped req) := by
  apply hpart.takeToken.bind
  intro granted
  split
  · apply (hpart.call up req).bind
    intro response
    split
    · exact keeps_pure _
    · exact keeps_throw _
  · exact keeps_throw _

theorem jupiterQuote (inputMint outputMint : String) (amountRaw slippageBps : UInt64) :
    Keeps part (jupiterQuote crates up inputMint outputMint amountRaw slippageBps) :=
  (hpart.jupiterCall up _ _ _).bind fun _ => keeps_ofExcept _

theorem jupiterSwap (quote : JupiterQuote) (userPubkey : String) (fee : UInt64) :
    Keeps part (jupiterSwap up quote userPubkey fee) :=
  (hpart.jupiterCall up _ _ _).bind fun _ => keeps_ofExcept _

theorem rpcTry (method : RpcMethod) (is : List Nat) (lastErr : Halt) :
    Keeps part (rpcTry up method is lastErr) := by
  induction is generalizing lastErr with
  | nil => exact keeps_throw _
  | cons i rest ih =>
      refine keeps_get_bind fun s => (hpart.call up _).bind fun response => ?_
      split
      · refine Keeps.bind (keeps_modify ?_) fun _ => keeps_pure _
        exact fun s => hpart s s.ex.bucket i s.ex.cachedBlockhash s.clock s.outside
      · exact ih _

theorem rpcCall (method : RpcMethod) : Keeps part (rpcCall up method) :=
  keeps_get_bind fun _ => hpart.rpcTry up method _ _

theorem fetchTokenDecimals (mint : String) : Keeps part (fetchTokenDecimals up mint) :=
  (hpart.rpcCall up _).bind fun _ => keeps_ofExcept _

theorem fetchTokenBalance (owner mint : String) :
    Keeps part (fetchTokenBalance crates up owner mint) :=
  (hpart.rpcCall up _).bind fun _ => keeps_ofExcept _

theorem fetchRecentBlockhash : Keeps part (fetchRecentBlockhash crates up) :=
  (hpart.rpcCall up _).bind fun _ => keeps_ofExcept _

theorem freshBlockhash : Keeps part (freshBlockhash crates up) := by
  apply keeps_get_bind
  intro s
  split
  · exact keeps_pure _
  · apply (hpart.fetchRecentBlockhash crates up).bind
    intro hash
    obtain ⟨hash, height⟩ := hash
    refine Keeps.bind (keeps_modify ?_) fun _ => keeps_pure _
    exact fun s => hpart s s.ex.bucket s.ex.rpc.active _ s.clock s.outside

theorem sendBundle (id : UInt64) (txs : List SignedTx) :
    Keeps part (sendBundle crates up id txs) := by
  apply (hpart.call up _).bind
  intro response
  split
  · exact keeps_throw _
  · exact keeps_throw _
  · split
    · exact keeps_pure _
    · exact keeps_throw _

/-- One status query, from the equation of its execution. -/
theorem query (id : UInt64) (uuid : String) (s : Live ω) :
    part ((getBundleStatuses crates up id uuid).exec s).2 = part s := by
  rw [exec_getBundleStatuses]
  exact hpart.call up _ s

theorem pollFrom (uuid : String) (timeoutSecs : UInt64) (deadline : Instant)
    (id : UInt64) (s : Live ω) :
    part (pollFrom crates up uuid timeoutSecs deadline id s).2 = part s := by
  apply pollFrom_rule crates up uuid timeoutSecs deadline
    (P := fun s run => part run.2 = part s)
  · intro id s status s' result hquery _
    have hsame := hpart.query crates up id uuid s
    rw [hquery] at hsame
    exact hsame
  · intro id s status s' msg hquery _ _
    have hsame := hpart.query crates up id uuid s
    rw [hquery] at hsame
    exact hsame
  · intro id s status s' run hquery _ _ hrest
    have hsame := hpart.query crates up id uuid s
    rw [hquery] at hsame
    -- a sleep moves the clock only
    have hsleep : part (s'.sleep (min (deadline - s'.clock) 2000000000)) = part s' :=
      hpart s' s'.ex.bucket s'.ex.rpc.active s'.ex.cachedBlockhash _ s'.outside
    exact hrest.trans (hsleep.trans hsame)

theorem pollBundleLanding (uuid : String) (timeoutSecs : UInt64) :
    Keeps part (pollBundleLanding crates up uuid timeoutSecs) := by
  intro s
  rw [exec_pollBundleLanding]
  exact hpart.pollFrom crates up uuid timeoutSecs _ 1 s

theorem prepareBuy (mint : String) (budgetUsd : Decimal) :
    Keeps part (prepareBuy crates up mint budgetUsd) := by
  refine keeps_get_bind fun s => (keeps_ofExcept _).bind fun lamports => ?_
  apply (keeps_ofExcept _).bind
  intro bps
  apply (hpart.jupiterQuote crates up _ _ _ _).bind
  intro quote
  refine (keeps_ofExcept _).bind fun _ => (keeps_ofExcept _).bind fun _ => ?_
  refine (keeps_ofExcept _).bind fun _ => (hpart.fetchTokenDecimals up _).bind fun _ => ?_
  exact (hpart.jupiterSwap up _ _ _).bind fun _ => keeps_pure _

theorem prepareSell (mint : String) (qty : Decimal) (tier : TipTier) :
    Keeps part (prepareSell crates up mint qty tier) := by
  apply (hpart.fetchTokenDecimals up _).bind
  intro inDecimals
  refine (keeps_ofExcept _).bind fun inRaw => keeps_get_bind fun s => ?_
  apply (keeps_ofExcept _).bind
  intro bps
  apply (hpart.jupiterQuote crates up _ _ _ _).bind
  intro quote
  refine (keeps_ofExcept _).bind fun _ => (keeps_ofExcept _).bind fun _ => ?_
  exact (keeps_ofExcept _).bind fun _ => (hpart.jupiterSwap up _ _ _).bind fun _ => keeps_pure _

/-- Everything before the signing. -/
theorem stage (o : Order) : Keeps part (stage crates up o) := by
  cases o with
  | buy req =>
      refine keeps_get_bind fun s => (keeps_ofExcept _).bind fun _ => ?_
      exact (keeps_ofExcept _).bind fun _ =>
        (hpart.prepareBuy crates up _ _).bind fun _ => keeps_pure _
  | sell req =>
      refine keeps_get_bind fun s => (keeps_ofExcept _).bind fun _ => ?_
      exact (hpart.prepareSell crates up _ _ _).bind fun _ => keeps_pure _

/-- The check of the wallet after a buy, if there is one. -/
theorem reconcileBuy (sent : Bool) (mint : String) (qty : Decimal) :
    Keeps part (if sent then reconcileBuyFill crates up mint qty else pure ()) := by
  split
  · exact keeps_get_bind fun s => (hpart.fetchTokenBalance crates up _ _).bind
      fun _ => keeps_ofExcept _
  · exact keeps_pure _

/-- The check of the wallet after a sell, if there is one. -/
theorem reconcileSell (sent : Bool) (mint : String) :
    Keeps part (if sent then reconcileSellFill crates up mint else pure ()) := by
  split
  · exact keeps_get_bind fun s => (hpart.fetchTokenBalance crates up _ _).bind
      fun _ => keeps_ofExcept _
  · exact keeps_pure _

/-- Everything after the submission. -/
theorem settle (o : Order) (staged : Staged) : Keeps part (settle crates up o staged) := by
  cases o with
  | buy req =>
      refine keeps_get_bind fun s => (keeps_ofExcept _).bind fun qty => ?_
      apply (keeps_ofExcept _).bind
      intro _
      exact (hpart.reconcileBuy crates up _ _ _).bind fun _ => keeps_get_bind fun s => keeps_pure _
  | sell req =>
      apply keeps_get_bind
      intro s
      exact (hpart.reconcileSell crates up _ _).bind fun _ => keeps_get_bind fun s => keeps_pure _

end Blind

end Live

end HfmcBot
