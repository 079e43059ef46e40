import HfmcBot.Live.Executor

/-!
# What the live executor asks for

Over a recorded upstream, `exchanges` is the list of all requests with their
responses.  `Only C x` says that `x` makes requests of the kinds in `C` only;
every stage of an order has such a lemma.

* `rpcCall_log`: a failover call has at most one readable body, and answers with
  it;
* `pollBundleLanding_log`: the rule of the poll loop;
* `place_stages`, `stage_yields`: the stages of an order, and what the first one
  hands on.
-/

namespace HfmcBot

open Foundation Foundation.Attempt

/-- The kinds of requests. -/
inductive RequestKind
  | quote
  | swap
  | blockhash
  | supply
  | balance
  | bundle
  | status
  deriving DecidableEq

def RpcMethod.kind : RpcMethod → RequestKind
  | .getLatestBlockhash => .blockhash
  | .getTokenSupply _ => .supply
  | .getTokenAccountsByOwner _ _ => .balance

def Request.kind : Request → RequestKind
  | .quote _ _ _ _ => .quote
  | .swap _ _ _ => .swap
  | .rpc _ method => method.kind
  | .sendBundle _ _ => .bundle
  | .getBundleStatuses _ _ => .status

def Exchange.kind (e : Exchange) : RequestKind := e.request.kind

/-- The bodies that came back. -/
def bodies (log : List Exchange) : List Body := log.filterMap fun e => e.response.toOption

namespace Live

variable {ω α β : Type}

/-- The exchanges so far. -/
def exchanges (s : Live (ω × List Exchange)) : List Exchange := s.outside.2

/-- The computation makes requests of these kinds only. -/
def Only (C : RequestKind → Prop) (x : LiveM (ω × List Exchange) α) : Prop :=
  Appends exchanges (fun new _ => ∀ e ∈ new, C e.kind) x

section Only

variable {C D : RequestKind → Prop} {x : LiveM (ω × List Exchange) α}

theorem Only.mono (h : Only C x) (himp : ∀ k, C k → D k) : Only D x :=
  Appends.mono h fun _ _ hnew e he => himp _ (hnew e he)

theorem only_pure (a : α) : Only C (pure a : LiveM (ω × List Exchange) α) :=
  appends_pure (by simp)

theorem only_throw (h : Halt) : Only C (throw h : LiveM (ω × List Exchange) α) :=
  appends_throw (by simp)

theorem only_ofExcept (r : Except Halt α) :
    Only C (ofExcept r : LiveM (ω × List Exchange) α) :=
  appends_ofExcept (by simp)

theorem only_get_bind {f : Live (ω × List Exchange) → LiveM (ω × List Exchange) α}
    (h : ∀ s, Only C (f s)) : Only C (get >>= f) :=
  appends_get_bind h

theorem Only.bind {f : α → LiveM (ω × List Exchange) β} (hx : Only C x)
    (hf : ∀ a, Only C (f a)) : Only C (x >>= f) := by
  refine Appends.bind hx (fun a _ _ => hf a) (fun _ _ hnew => hnew) ?_
  intro a new later r hnew hlater e he
  exact (List.mem_append.mp he).elim (hnew e) (hlater e)

theorem only_modify {f : Live (ω × List Exchange) → Live (ω × List Exchange)}
    (h : ∀ s, (f s).outside = s.outside) :
    Only C (modify f : LiveM (ω × List Exchange) Unit) :=
  appends_modify (fun s => congrArg Prod.snd (h s)) (by simp)

end Only

variable (crates : Crates) (up : Upstream ω)

/-! ## Single exchanges -/

/-- A call is one exchange. -/
theorem call_log (req : Request) :
    Appends exchanges
      (fun new (r : Except Halt Response) => ∃ response, r = .ok response ∧ new = [⟨req, response⟩])
      (call up.recorded req) :=
  fun _ => ⟨_, rfl, _, rfl, rfl⟩

theorem only_call (req : Request) : Only (· = req.kind) (call up.recorded req) := by
  apply (call_log up req).mono
  rintro new r ⟨response, -, rfl⟩ e he
  rw [List.mem_singleton.mp he]
  rfl

theorem only_takeToken {C : RequestKind → Prop} :
    Only C (takeToken : LiveM (ω × List Exchange) Bool) :=
  fun _ => ⟨[], (List.append_nil _).symm, by simp⟩

theorem only_nextId {C : RequestKind → Prop} :
    Only C (nextId : LiveM (ω × List Exchange) UInt64) :=
  fun _ => ⟨[], (List.append_nil _).symm, by simp⟩

/-! ## Jupiter -/

theorem only_jupiterCall (what skipped : String) (req : Request) :
    Only (· = req.kind) (jupiterCall up.recorded what skipped req) := by
  apply only_takeToken.bind
  intro granted
  split
  · apply (only_call up req).bind
    intro response
    split
    · exact only_pure _
    · exact only_throw _
  · exact only_throw _

theorem only_jupiterQuote (inputMint outputMint : String) (amountRaw slippageBps : UInt64) :
    Only (· = .quote)
      (jupiterQuote crates up.recorded inputMint outputMint amountRaw slippageBps) :=
  (only_jupiterCall up _ _ (.quote inputMint outputMint amountRaw slippageBps)).bind
    fun _ => only_ofExcept _

theorem only_jupiterSwap (quote : JupiterQuote) (userPubkey : String) (fee : UInt64) :
    Only (· = .swap) (jupiterSwap up.recorded quote userPubkey fee) :=
  (only_jupiterCall up _ _ (.swap quote.raw userPubkey fee)).bind fun _ => only_ofExcept _

/-! ## RPC -/

/-- What a failover call leaves in the log: requests of its method, and the one
body it answers with, if any. -/
structure RpcLog (method : RpcMethod) (new : List Exchange) (r : Except Halt Body) : Prop where
  kind : ∀ e ∈ new, e.kind = method.kind
  ok : ∀ body, r = .ok body → bodies new = [body]
  error : ∀ h, r = .error h → bodies new = [] ∧ ∃ msg, h = .transport msg

/-- Make an endpoint the preferred one and answer with a body. -/
theorem answered_log (i : Nat) (body : Body) :
    Appends exchanges (fun new (r : Except Halt Body) => new = [] ∧ r = .ok body)
      (do
        modify fun s : Live (ω × List Exchange) =>
          { s with ex := { s.ex with rpc := { s.ex.rpc with active := i } } }
        return body) := by
  refine Appends.bind (appends_modify (R := fun new r => new = [] ∧ r = .ok ()) (fun _ => rfl)
    ⟨rfl, rfl⟩) (Q := fun _ new r => new = [] ∧ r = .ok body)
    (fun _ _ _ => appends_pure ⟨rfl, rfl⟩) ?_ ?_
  · rintro new e ⟨-, hr⟩
    exact absurd hr (by simp)
  · rintro _ new later r ⟨rfl, -⟩ ⟨rfl, rfl⟩
    exact ⟨rfl, rfl⟩

/-- An error of an endpoint is an unknown state. -/
theorem exists_transport_of_halt (e : HttpError) (what unreadable : String) :
    ∃ msg, e.halt what unreadable = .transport msg := by
  cases e with
  | request e => exact ⟨_, rfl⟩
  | status e => exact ⟨_, rfl⟩
  | body e => exact ⟨_, rfl⟩

theorem RpcLog.of_ok {method : RpcMethod} {url : String} {body : Body} :
    RpcLog method [⟨.rpc url method, .ok body⟩] (.ok body) := by
  refine ⟨?_, ?_, by simp⟩
  · intro e he
    rw [List.mem_singleton.mp he]
    rfl
  · rintro _ ⟨⟩
    rfl

theorem RpcLog.cons_error {method : RpcMethod} {url : String} {e : HttpError}
    {later : List Exchange} {r : Except Halt Body} (h : RpcLog method later r) :
    RpcLog method (⟨.rpc url method, .error e⟩ :: later) r := by
  refine ⟨?_, h.ok, h.error⟩
  intro x hx
  rcases List.mem_cons.mp hx with rfl | hx
  · rfl
  · exact h.kind x hx

theorem rpcTry_log (method : RpcMethod) (is : List Nat) {lastErr : Halt}
    (hlast : ∃ msg, lastErr = .transport msg) :
    Appends exchanges (RpcLog method) (rpcTry up.recorded method is lastErr) := by
  induction is generalizing lastErr with
  | nil =>
      refine appends_throw ⟨by simp, by simp, ?_⟩
      rintro h ⟨⟩
      exact ⟨rfl, hlast⟩
  | cons i rest ih =>
      apply appends_get_bind
      intro s
      refine Appends.bind (call_log up _) (Q := fun response later r =>
        (∀ body, response = .ok body → later = [] ∧ r = .ok body) ∧
          ∀ e, response = .error e → RpcLog method later r) ?_ ?_ ?_
      · rintro response _ -
        cases response with
        | ok body =>
            refine (answered_log i body).mono fun later r h => ⟨?_, by simp⟩
            rintro _ ⟨⟩
            exact h
        | error e =>
            refine (ih (exists_transport_of_halt e _ _)).mono fun later r h => ⟨by simp, ?_⟩
            rintro _ ⟨⟩
            exact h
      · rintro new e ⟨response, hr, -⟩
        exact absurd hr (by simp)
      · rintro response new later r ⟨_, ⟨⟩, rfl⟩ ⟨hok, herror⟩
        cases response with
        | ok body =>
            obtain ⟨rfl, rfl⟩ := hok body rfl
            exact RpcLog.of_ok
        | error e => exact RpcLog.cons_error (herror e rfl)

theorem rpcCall_log (method : RpcMethod) :
    Appends exchanges (RpcLog method) (rpcCall (ω := ω × List Exchange) up.recorded method) :=
  appends_get_bind fun _ => rpcTry_log up method _ ⟨_, rfl⟩

theorem only_rpcCall (method : RpcMethod) :
    Only (· = method.kind) (rpcCall up.recorded method) :=
  (rpcCall_log up method).mono fun _ _ h => h.kind

theorem only_fetchRecentBlockhash :
    Only (· = .blockhash) (fetchRecentBlockhash crates up.recorded) :=
  (only_rpcCall up .getLatestBlockhash).bind fun _ => only_ofExcept _

theorem only_fetchTokenDecimals (mint : String) :
    Only (· = .supply) (fetchTokenDecimals up.recorded mint) :=
  (only_rpcCall up (.getTokenSupply mint)).bind fun _ => only_ofExcept _

theorem only_fetchTokenBalance (owner mint : String) :
    Only (· = .balance) (fetchTokenBalance crates up.recorded owner mint) :=
  (only_rpcCall up (.getTokenAccountsByOwner owner mint)).bind fun _ => only_ofExcept _

/-! ## The poll loop -/

/-- One status query. -/
theorem exec_query {id : UInt64} {uuid : String} {s s' : Live (ω × List Exchange)}
    {status : Except Halt BundleStatus}
    (hquery : (getBundleStatuses crates up.recorded id uuid).exec s = (status, s')) :
    ∃ response, status = statusOf crates response ∧
      exchanges s' = exchanges s ++ [⟨.getBundleStatuses id uuid, response⟩] := by
  rw [exec_getBundleStatuses] at hquery
  obtain ⟨rfl, rfl⟩ := Prod.mk.inj hquery
  exact ⟨_, rfl, rfl⟩

section Poll

variable {P : List Exchange → Except Halt (List String) → Prop} (uuid : String)
  (timeoutSecs : UInt64)

/-- The rule of the loop: what holds where it stops, and is kept by one more round
before. -/
theorem pollFrom_log (deadline : Instant)
    (hstop : ∀ id response result, verdict uuid (statusOf crates response) = some result →
      P [⟨.getBundleStatuses id uuid, response⟩] result)
    (hlate : ∀ id response msg, verdict uuid (statusOf crates response) = none →
      P [⟨.getBundleStatuses id uuid, response⟩] (.error (.transport msg)))
    (hround : ∀ id response later r, verdict uuid (statusOf crates response) = none →
      P later r → P (⟨.getBundleStatuses id uuid, response⟩ :: later) r)
    (id : UInt64) (s : Live (ω × List Exchange)) :
    ∃ new, exchanges (pollFrom crates up.recorded uuid timeoutSecs deadline id s).2 =
        exchanges s ++ new ∧
      P new (pollFrom crates up.recorded uuid timeoutSecs deadline id s).1 := by
  apply pollFrom_rule crates up.recorded uuid timeoutSecs deadline
    (P := fun s run => ∃ new, exchanges run.2 = exchanges s ++ new ∧ P new run.1)
  · intro id s status s' result hquery hverdict
    obtain ⟨response, rfl, hlog⟩ := exec_query crates up hquery
    exact ⟨_, hlog, hstop id response result hverdict⟩
  · intro id s status s' msg hquery hverdict _
    obtain ⟨response, rfl, hlog⟩ := exec_query crates up hquery
    exact ⟨_, hlog, hlate id response msg hverdict⟩
  · rintro id s status s' run hquery hverdict - ⟨later, hlater, hlast⟩
    obtain ⟨response, rfl, hlog⟩ := exec_query crates up hquery
    -- the answer was no verdict yet: one more round
    refine ⟨_ :: later, ?_, hround id response later _ hverdict hlast⟩
    rw [hlater, ← List.singleton_append, ← List.append_assoc, ← hlog]
    rfl

theorem pollBundleLanding_log
    (hstop : ∀ id response result, verdict uuid (statusOf crates response) = some result →
      P [⟨.getBundleStatuses id uuid, response⟩] result)
    (hlate : ∀ id response msg, verdict uuid (statusOf crates response) = none →
      P [⟨.getBundleStatuses id uuid, response⟩] (.error (.transport msg)))
    (hround : ∀ id response later r, verdict uuid (statusOf crates response) = none →
      P later r → P (⟨.getBundleStatuses id uuid, response⟩ :: later) r) :
    Appends exchanges P (pollBundleLanding crates up.recorded uuid timeoutSecs) := by
  intro s
  rw [exec_pollBundleLanding]
  exact pollFrom_log crates up uuid timeoutSecs _ hstop hlate hround 1 s

theorem only_pollBundleLanding :
    Only (· = .status) (pollBundleLanding crates up.recorded uuid timeoutSecs) := by
  refine pollBundleLanding_log crates up uuid timeoutSecs ?_ ?_ ?_
  · rintro id response result - x hx
    rw [List.mem_singleton.mp hx]
    rfl
  · rintro id response msg - x hx
    rw [List.mem_singleton.mp hx]
    rfl
  · rintro id response later r - hlater x hx
    rcases List.mem_cons.mp hx with rfl | hx
    · rfl
    · exact hlater x hx

end Poll

/-! ## The stages of an order -/

/-- What an order carries into `sign_and_maybe_send` and past it. -/
structure Staged where
  quote : JupiterQuote
  outDecimals : UInt8
  swapTx : SwapTx
  tier : TipTier

/-- An order up to its signing. -/
def stage : Order → LiveM ω Staged
  | .buy req => do
      let ex := (← get).ex
      ofExcept (haltIf (ex.isArmed = false) (unarmed ex))
      ofExcept (haltIf (req.deadline < req.now)
        (.rejected ["funnel_window_expired: slice for ", req.mint, " (order ", req.orderId,
          ") past deadline"]))
      let (quote, outDecimals, swapTx) ← prepareBuy crates up req.mint req.budgetUsd
      return { quote := quote, outDecimals := outDecimals, swapTx := swapTx, tier := .entry }
  | .sell req => do
      let ex := (← get).ex
      ofExcept (haltIf (ex.isArmed = false) (unarmed ex))
      let (quote, swapTx) ← prepareSell crates up req.mint req.qty req.tier
      return { quote := quote, outDecimals := 0, swapTx := swapTx, tier := req.tier }

/-- An order past its submission. -/
def settle : Order → Staged → LiveM ω Fill
  | .buy req, staged => settleBuy crates up req staged.quote staged.outDecimals
  | .sell req, staged => settleSell crates up req staged.quote

/-- An order is staged, sent and settled. -/
theorem place_stages (o : Order) :
    place crates up o = (do
      let staged ← stage crates up o
      let _ ← signAndMaybeSend crates up staged.swapTx staged.tier
      settle crates up o staged) := by
  cases o with
  | buy req =>
      simp only [place, buy, executeLiveBuy, stage, settle, bind_assoc, pure_bind]
  | sell req =>
      simp only [place, sell, executeLiveSell, stage, settle, bind_assoc, pure_bind]

/-- Requests of these kinds only, and values with this property only. -/
def Yields (C : RequestKind → Prop) (G : α → Prop) (x : LiveM (ω × List Exchange) α) : Prop :=
  Appends exchanges (fun new r => (∀ e ∈ new, C e.kind) ∧ ∀ a, r = .ok a → G a) x

section Yields

variable {C : RequestKind → Prop} {G : β → Prop} {x : LiveM (ω × List Exchange) α}

theorem yields_pure {b : β} (h : G b) : Yields C G (pure b : LiveM (ω × List Exchange) β) := by
  refine appends_pure ⟨by simp, ?_⟩
  rintro _ ⟨⟩
  exact h

theorem yields_get_bind {f : Live (ω × List Exchange) → LiveM (ω × List Exchange) β}
    (h : ∀ s, Yields C G (f s)) : Yields C G (get >>= f) :=
  appends_get_bind h

theorem Yields.bind {K : α → Prop} {f : α → LiveM (ω × List Exchange) β} (hx : Yields C K x)
    (hf : ∀ a, K a → Yields C G (f a)) : Yields C G (x >>= f) := by
  refine Appends.bind hx (fun a new hnew => hf a (hnew.2 a rfl))
    (fun new e hnew => ⟨hnew.1, by simp⟩) ?_
  rintro a new later r ⟨hnew, -⟩ ⟨hlater, hr⟩
  refine ⟨fun e he => ?_, hr⟩
  exact (List.mem_append.mp he).elim (hnew e) (hlater e)

theorem Only.yields (hx : Only C x) : Yields C (fun _ => True) x :=
  Appends.mono hx fun _ _ hnew => ⟨hnew, fun _ _ => trivial⟩

theorem Only.yields_bind {f : α → LiveM (ω × List Exchange) β} (hx : Only C x)
    (hf : ∀ a, Yields C G (f a)) : Yields C G (x >>= f) :=
  hx.yields.bind fun a _ => hf a

/-- Past an early return its condition is false. -/
theorem yields_haltIf {bad : Prop} [Decidable bad] {halt : Halt} :
    Yields C (fun _ => ¬ bad) (ofExcept (haltIf bad halt) : LiveM (ω × List Exchange) Unit) := by
  refine appends_ofExcept ⟨by simp, fun a ha => ?_⟩
  by_contra hbad
  rw [haltIf, if_pos hbad] at ha
  exact absurd ha (by simp)

end Yields

/-- The kinds of requests before the signing. -/
def stageKinds : List RequestKind := [.supply, .quote, .swap]

theorem prepareBuy_yields (mint : String) (budgetUsd : Decimal) :
    Yields (· ∈ stageKinds) (fun p => p.1.outAmountRaw ≠ 0)
      (prepareBuy crates up.recorded mint budgetUsd) := by
  refine yields_get_bind fun s => (only_ofExcept _).yields_bind fun lamports => ?_
  apply (only_ofExcept _).yields_bind
  intro bps
  refine ((only_jupiterQuote crates up _ _ _ _).mono (by simp [stageKinds])).yields_bind
    fun quote => ?_
  refine (only_ofExcept _).yields_bind fun _ => yields_haltIf.bind fun _ hout => ?_
  apply (only_ofExcept _).yields_bind
  intro _
  refine ((only_fetchTokenDecimals up _).mono (by simp [stageKinds])).yields_bind
    fun outDecimals => ?_
  apply ((only_jupiterSwap up _ _ _).mono (by simp [stageKinds])).yields_bind
  intro swapTx
  exact yields_pure hout

theorem prepareSell_yields (mint : String) (qty : Decimal) (tier : TipTier) :
    Yields (· ∈ stageKinds) (fun p => p.1.outAmountRaw ≠ 0)
      (prepareSell crates up.recorded mint qty tier) := by
  refine ((only_fetchTokenDecimals up _).mono (by simp [stageKinds])).yields_bind
    fun inDecimals => ?_
  refine (only_ofExcept _).yields_bind fun inRaw => yields_get_bind fun s => ?_
  apply (only_ofExcept _).yields_bind
  intro bps
  refine ((only_jupiterQuote crates up _ _ _ _).mono (by simp [stageKinds])).yields_bind
    fun quote => ?_
  refine (only_ofExcept _).yields_bind fun _ => yields_haltIf.bind fun _ hout => ?_
  apply (only_ofExcept _).yields_bind
  intro _
  apply ((only_jupiterSwap up _ _ _).mono (by simp [stageKinds])).yields_bind
  intro swapTx
  exact yields_pure hout

/-- Staging asks for the decimals, the quote and the swap, and carries a quote with
an output. -/
theorem stage_yields (o : Order) :
    Yields (· ∈ stageKinds) (fun staged => staged.quote.outAmountRaw ≠ 0)
      (stage crates up.recorded o) := by
  cases o with
  | buy req =>
      refine yields_get_bind fun s => (only_ofExcept _).yields_bind fun _ => ?_
      apply (only_ofExcept _).yields_bind
      intro _
      apply (prepareBuy_yields crates up _ _).bind
      intro p hp
      exact yields_pure hp
  | sell req =>
      refine yields_get_bind fun s => (only_ofExcept _).yields_bind fun _ => ?_
      apply (prepareSell_yields crates up _ _ _).bind
      intro p hp
      exact yields_pure hp

/-- Building the tip asks for nothing. -/
theorem only_buildTip {C : RequestKind → Prop} (signer : Keypair) (blockhash : String)
    (tier : TipTier) :
    Only C (buildTip crates signer blockhash tier :
      LiveM (ω × List Exchange) (Option SignedTx)) := by
  apply only_get_bind
  intro s
  dsimp only
  split
  · exact only_pure _
  · refine only_nextId.bind fun n => only_get_bind fun s => ?_
    refine (only_ofExcept _).bind fun accounts => (only_ofExcept _).bind fun dest => ?_
    exact (only_ofExcept _).bind fun tip => only_pure _

theorem only_freshBlockhash : Only (· = .blockhash) (freshBlockhash crates up.recorded) := by
  apply only_get_bind
  intro s
  split
  · exact only_pure _
  · apply (only_fetchRecentBlockhash crates up).bind
    intro hash
    obtain ⟨hash, height⟩ := hash
    refine Only.bind (only_modify ?_) fun _ => only_pure _
    exact fun _ => rfl

/-- Signing asks for a blockhash at most. -/
theorem only_signBundle (swapTx : SwapTx) (tier : TipTier) :
    Only (· = .blockhash) (signBundle crates up.recorded swapTx tier) := by
  refine only_get_bind fun s => (only_ofExcept _).bind fun signer => ?_
  apply (only_freshBlockhash crates up).bind
  intro hash
  apply (only_ofExcept _).bind
  intro signed
  exact (only_buildTip crates _ _ _).bind fun tip => only_pure _

/-- Settling asks for the wallet at most. -/
theorem only_settle (o : Order) (staged : Staged) :
    Only (· = .balance) (settle crates up.recorded o staged) := by
  cases o with
  | buy req =>
      refine only_get_bind fun s => (only_ofExcept _).bind fun qty => ?_
      apply (only_ofExcept _).bind
      intro _
      refine Only.bind ?_ fun _ => only_get_bind fun s => only_pure _
      split
      · exact only_get_bind fun s => (only_fetchTokenBalance crates up _ _).bind
          fun _ => only_ofExcept _
      · exact only_pure _
  | sell req =>
      refine only_get_bind fun s => Only.bind ?_ fun _ => only_get_bind fun s => only_pure _
      split
      · exact only_get_bind fun s => (only_fetchTokenBalance crates up _ _).bind
          fun _ => only_ofExcept _
      · exact only_pure _

/-- The start of a record. -/
def record (s : Live ω) : Live (ω × List Exchange) where
  ex := s.ex
  clock := s.clock
  outside := (s.outside, [])

end Live

end HfmcBot
