import HfmcBot.Live.Exchanges

/-!
# Errors after a submission

Once its bundle is submitted an order may have gone through, so its error should
be an unknown state, unless a bundle status reported a failure.  The module
follows the exchanges of one order and finds the two answers that break this: a
wallet that cannot be read, and a status entry whose error is null.

* `Ended`: how an order ends, by the failures and the faults among its exchanges;
* `place_ended`: every order that submits ends in one of these ways;
* `honest_after_submission_iff`: when the result is the right kind of error.
-/

namespace HfmcBot

open Foundation Foundation.Attempt

/-- The error member that makes a status exchange count as a failure. -/
def Exchange.failure (x : Exchange) : Option Json :=
  match x.request, x.response with
  | .getBundleStatuses _ _, .ok (.ok v) => (statusEntry v).bind entryFailure
  | _, _ => none

/-- Why a wallet's body cannot be read. -/
def bodyFault (crates : Crates) (body : Body) : Option Text :=
  match parseTokenAccountsBalance crates body with
  | .error (.err (.rejected msg)) => some msg
  | _ => none

def Exchange.fault (crates : Crates) (x : Exchange) : Option Text :=
  match x.request, x.response with
  | .rpc _ (.getTokenAccountsByOwner _ _), .ok body => bodyFault crates body
  | _, _ => none

/-- The failures that the bundle statuses reported. -/
def failures (log : List Exchange) : List Json := log.filterMap Exchange.failure

/-- The faults of the wallet's bodies. -/
def faults (crates : Crates) (log : List Exchange) : List Text :=
  log.filterMap (Exchange.fault crates)

/-- A bundle went out. -/
def Submitted (log : List Exchange) : Prop := ∃ x ∈ log, x.kind = .bundle

instance (log : List Exchange) : Decidable (Submitted log) :=
  inferInstanceAs (Decidable (∃ x ∈ log, x.kind = .bundle))

/-- A bundle status explicitly reported a failure: its error is there and is not
null. -/
def FailureReported (log : List Exchange) : Prop := ∃ err ∈ failures log, err.isNull = false

instance (log : List Exchange) : Decidable (FailureReported log) :=
  inferInstanceAs (Decidable (∃ err ∈ failures log, err.isNull = false))

/-- The result of a submitted order: a fill, an unknown state, or a rejection for a
reported failure.  An overflow is no result. -/
def HonestEnd {α : Type} (log : List Exchange) : Except Halt α → Prop
  | .ok _ => True
  | .error .overflow => True
  | .error (.err (.transport _)) => True
  | .error (.err (.rejected _)) => FailureReported log
  | .error (.err (.notArmed _)) => False

instance {α : Type} (log : List Exchange) (r : Except Halt α) : Decidable (HonestEnd log r) :=
  match r with
  | .ok _ => isTrue trivial
  | .error .overflow => isTrue trivial
  | .error (.err (.transport _)) => isTrue trivial
  | .error (.err (.rejected _)) => inferInstanceAs (Decidable (FailureReported log))
  | .error (.err (.notArmed _)) => isFalse id

/-! ## Quiet exchanges -/

theorem failures_append (before after : List Exchange) :
    failures (before ++ after) = failures before ++ failures after :=
  List.filterMap_append

theorem faults_append (crates : Crates) (before after : List Exchange) :
    faults crates (before ++ after) = faults crates before ++ faults crates after :=
  List.filterMap_append

theorem failure_eq_none {x : Exchange} (h : x.kind ≠ .status) : x.failure = none := by
  obtain ⟨request, response⟩ := x
  cases request with
  | getBundleStatuses id uuid => exact absurd rfl h
  | _ => rfl

theorem fault_eq_none (crates : Crates) {x : Exchange} (h : x.kind ≠ .balance) :
    x.fault crates = none := by
  obtain ⟨request, response⟩ := x
  cases request with
  | rpc url method =>
      cases method with
      | getTokenAccountsByOwner owner mint => exact absurd rfl h
      | _ => rfl
  | _ => rfl

theorem failures_eq_nil {log : List Exchange} (h : ∀ x ∈ log, x.kind ≠ .status) :
    failures log = [] :=
  List.filterMap_eq_nil_iff.mpr fun x hx => failure_eq_none (h x hx)

theorem faults_eq_nil (crates : Crates) {log : List Exchange}
    (h : ∀ x ∈ log, x.kind ≠ .balance) : faults crates log = [] :=
  List.filterMap_eq_nil_iff.mpr fun x hx => fault_eq_none crates (h x hx)

/-- Exchanges without a failure and without a fault. -/
def Quiet (crates : Crates) (log : List Exchange) : Prop :=
  failures log = [] ∧ faults crates log = []

theorem quiet_of_kinds (crates : Crates) {log : List Exchange}
    (h : ∀ x ∈ log, x.kind ≠ .status ∧ x.kind ≠ .balance) : Quiet crates log :=
  ⟨failures_eq_nil fun x hx => (h x hx).1, faults_eq_nil crates fun x hx => (h x hx).2⟩

/-! ## How an order ends -/

/-- How a computation after the submission ends. -/
inductive Ended {α : Type} (crates : Crates) (log : List Exchange) : Except Halt α → Prop
  | settled {r : Except Halt α} (hquiet : Quiet crates log)
      (hr : ∀ e, r = .error (.err e) → ∃ msg, e = .transport msg) : Ended crates log r
  | failed {err : Json} {msg : Text} (hfailure : failures log = [err])
      (hfaults : faults crates log = []) : Ended crates log (.error (.rejected msg))
  | unreadable {msg : Text} (hfailures : failures log = []) (hfault : faults crates log ≠ []) :
      Ended crates log (.error (.rejected msg))

namespace Ended

variable {α β : Type} {crates : Crates} {before after : List Exchange}

/-- A value comes without failures and faults. -/
theorem quiet {a : α} (h : Ended crates before (.ok a)) : Quiet crates before := by
  cases h with
  | settled hquiet hr => exact hquiet

/-- Quiet exchanges before the end change nothing. -/
theorem prepend {r : Except Halt α} (hbefore : Quiet crates before) (h : Ended crates after r) :
    Ended crates (before ++ after) r := by
  obtain ⟨hfailures, hfaults⟩ := hbefore
  have hsum : failures (before ++ after) = failures after := by
    rw [failures_append, hfailures, List.nil_append]
  have hread : faults crates (before ++ after) = faults crates after := by
    rw [faults_append, hfaults, List.nil_append]
  cases h with
  | settled hquiet hr => exact .settled ⟨hsum.trans hquiet.1, hread.trans hquiet.2⟩ hr
  | failed hfailure hnone => exact .failed (hsum.trans hfailure) (hread.trans hnone)
  | unreadable hnone hfault =>
      refine .unreadable (hsum.trans hnone) ?_
      rw [hread]
      exact hfault

/-- An error ends the whole order. -/
theorem of_error {e : Halt} (h : Ended crates before (.error e : Except Halt α)) :
    Ended crates before (.error e : Except Halt β) := by
  cases h with
  | settled hquiet hr =>
      refine .settled hquiet fun e' he => hr e' ?_
      cases he
      rfl
  | failed hfailure hfaults => exact .failed hfailure hfaults
  | unreadable hfailures hfault => exact .unreadable hfailures hfault

/-- The end is right exactly if there is no fault and no null failure. -/
theorem honest_iff {r : Except Halt α} (h : Ended crates before r) :
    HonestEnd before r ↔
      faults crates before = [] ∧ ∀ err ∈ failures before, err.isNull = false := by
  cases h with
  | settled hquiet hr =>
      have hend : HonestEnd before r := by
        rcases r with (e | -) | a
        · obtain ⟨msg, rfl⟩ := hr e rfl
          trivial
        · trivial
        · trivial
      exact iff_of_true hend ⟨hquiet.2, by rw [hquiet.1]; simp⟩
  | failed hfailure hfaults =>
      change (∃ err ∈ failures before, err.isNull = false) ↔ _
      rw [hfailure, hfaults]
      simp
  | unreadable hfailures hfault =>
      refine iff_of_false ?_ fun h => hfault h.1
      rintro ⟨err, herr, -⟩
      rw [hfailures] at herr
      exact absurd herr (by simp)

end Ended

/-! ## The wallet -/

/-- A parser that answers an unreadable body with a rejection; otherwise it can only
overflow. -/
def Rejects {α : Type} (r : Except Halt α) : Prop :=
  ∀ h, r = .error h → h = .overflow ∨ ∃ msg, h = .rejected msg

section Rejects

variable {α β : Type}

theorem rejects_ok (a : α) : Rejects (.ok a) := by
  rintro h ⟨⟩

theorem rejects_orReject (msg : Text) (a : Option α) : Rejects (orReject msg a) := by
  cases a with
  | some a => exact rejects_ok a
  | none =>
      rintro h ⟨⟩
      exact Or.inr ⟨msg, rfl⟩

theorem Rejects.bind {x : Except Halt α} {f : α → Except Halt β} (hx : Rejects x)
    (hf : ∀ a, Rejects (f a)) : Rejects (x >>= f) := by
  cases x with
  | error e =>
      rintro h ⟨⟩
      exact hx e rfl
  | ok a => exact hf a

theorem rejects_foldlM {f : β → α → Except Halt β} (hf : ∀ b a, Rejects (f b a)) (as : List α)
    (b : β) : Rejects (as.foldlM f b) := by
  induction as generalizing b with
  | nil => exact rejects_ok b
  | cons a as ih =>
      rw [List.foldlM_cons]
      exact (hf b a).bind fun b' => ih b'

theorem rejects_readJson (what : String) (body : Body) : Rejects (readJson what body) := by
  cases body with
  | error e =>
      rintro h ⟨⟩
      exact Or.inr ⟨_, rfl⟩
  | ok v => exact rejects_ok v

theorem rejects_pow10 (decimals : UInt8) : Rejects (pow10 decimals) := by
  rw [pow10]
  split
  · exact rejects_ok _
  · rintro h ⟨⟩
    exact Or.inl rfl

theorem rejects_tokenAccountAmount (crates : Crates) (entry : Json) :
    Rejects (tokenAccountAmount crates entry) := by
  apply (rejects_orReject _ _).bind
  intro amount
  split
  · exact rejects_orReject _ _
  · refine (rejects_orReject _ _).bind fun raw => (rejects_orReject _ _).bind fun decimals => ?_
    exact (rejects_pow10 decimals).bind fun scale => rejects_ok _

theorem rejects_parseTokenAccountsBalance (crates : Crates) (body : Body) :
    Rejects (parseTokenAccountsBalance crates body) := by
  refine (rejects_readJson _ _).bind fun v => (rejects_orReject _ _).bind fun entries => ?_
  refine rejects_foldlM (fun total entry => ?_) entries 0
  exact (rejects_tokenAccountAmount crates entry).bind fun amount => rejects_ok _

end Rejects

theorem failures_of_balance {log : List Exchange} (h : ∀ x ∈ log, x.kind = .balance) :
    failures log = [] := by
  apply failures_eq_nil
  intro x hx
  rw [h x hx]
  decide

/-- Among balance exchanges the faults are those of the bodies. -/
theorem faults_eq_filterMap_bodies (crates : Crates) {log : List Exchange}
    (h : ∀ x ∈ log, x.kind = .balance) :
    faults crates log = (bodies log).filterMap (bodyFault crates) := by
  rw [faults, bodies, List.filterMap_filterMap]
  apply List.filterMap_congr
  intro x hx
  obtain ⟨request, response⟩ := x
  cases request with
  | rpc url method =>
      cases method with
      | getTokenAccountsByOwner owner mint =>
          cases response with
          | error e => rfl
          | ok body => rfl
      | _ => exact absurd (h _ hx) (by simp [Exchange.kind, Request.kind, RpcMethod.kind])
  | _ => exact absurd (h _ hx) (by simp [Exchange.kind, Request.kind])

namespace Live

variable {ω α β : Type} (crates : Crates) (up : Upstream ω)

section Ended

variable {crates}

theorem ended_pure (a : α) :
    Appends exchanges (Ended crates) (pure a : LiveM (ω × List Exchange) α) :=
  appends_pure (.settled (quiet_of_kinds crates (by simp)) (by simp))

theorem ended_get_bind {f : Live (ω × List Exchange) → LiveM (ω × List Exchange) α}
    (h : ∀ s, Appends exchanges (Ended crates) (f s)) :
    Appends exchanges (Ended crates) (get >>= f) :=
  appends_get_bind h

theorem ended_bind {x : LiveM (ω × List Exchange) α} {f : α → LiveM (ω × List Exchange) β}
    (hx : Appends exchanges (Ended crates) x)
    (hf : ∀ a, Appends exchanges (Ended crates) (f a)) :
    Appends exchanges (Ended crates) (x >>= f) :=
  Appends.bind hx (fun a _ _ => hf a) (fun _ _ h => h.of_error)
    fun _ _ _ _ hnew hlater => hlater.prepend hnew.quiet

/-- A pure step whose errors are unknown states. -/
theorem ended_ofExcept_bind {r : Except Halt α} {f : α → LiveM (ω × List Exchange) β}
    (hr : ∀ e, r = .error (.err e) → ∃ msg, e = .transport msg)
    (hf : ∀ a, r = .ok a → Appends exchanges (Ended crates) (f a)) :
    Appends exchanges (Ended crates) (ofExcept r >>= f) := by
  cases r with
  | error h =>
      refine appends_throw (.settled (quiet_of_kinds crates (by simp)) fun e he => hr e ?_)
      cases he
      rfl
  | ok a => exact hf a rfl

theorem ended_haltIf (bad : Prop) [Decidable bad] (msg : Text) :
    Appends exchanges (Ended crates)
      (ofExcept (haltIf bad (.transport msg)) : LiveM (ω × List Exchange) Unit) := by
  refine appends_ofExcept (.settled (quiet_of_kinds crates (by simp)) fun e he => ⟨msg, ?_⟩)
  rw [haltIf] at he
  split at he
  · cases he
    rfl
  · exact absurd he (by simp)

end Ended

theorem fetchTokenBalance_ended (owner mint : String) :
    Appends exchanges (Ended crates) (fetchTokenBalance crates up.recorded owner mint) := by
  refine Appends.bind (rpcCall_log up _) (Q := fun body later r =>
    later = [] ∧ r = parseTokenAccountsBalance crates body)
    (fun body _ _ => appends_ofExcept ⟨rfl, rfl⟩) ?_ ?_
  · intro new h hnew
    obtain ⟨hbodies, msg, rfl⟩ := hnew.error h rfl
    refine .settled ⟨failures_of_balance hnew.kind, ?_⟩ ?_
    · rw [faults_eq_filterMap_bodies crates hnew.kind, hbodies, List.filterMap_nil]
    · rintro e ⟨⟩
      exact ⟨msg, rfl⟩
  · rintro body new later r hnew ⟨rfl, rfl⟩
    have hfailures : failures new = [] := failures_of_balance hnew.kind
    have hfaults : faults crates new = (bodyFault crates body).toList := by
      rw [faults_eq_filterMap_bodies crates hnew.kind, hnew.ok body rfl]
      cases hfault : bodyFault crates body with
      | none => simp [hfault]
      | some msg => simp [hfault]
    rw [List.append_nil]
    rw [bodyFault] at hfaults
    cases hparse : parseTokenAccountsBalance crates body with
    | ok total =>
        rw [hparse] at hfaults
        exact .settled ⟨hfailures, hfaults⟩ (by simp)
    | error h =>
        rw [hparse] at hfaults
        rcases rejects_parseTokenAccountsBalance crates body h hparse with rfl | ⟨msg, rfl⟩
        · exact .settled ⟨hfailures, hfaults⟩ (by simp)
        · refine .unreadable hfailures ?_
          rw [hfaults]
          exact List.cons_ne_nil _ _

/-! ## Past the submission -/

/-- A quote with an output converts to a positive quantity. -/
theorem rawToDecimal_pos {raw : UInt64} {decimals : UInt8} {qty : Decimal} (hraw : raw ≠ 0)
    (h : rawToDecimal raw decimals = .ok qty) : 0 < qty := by
  have hpos : 0 < raw.toNat := by
    rw [Nat.pos_iff_ne_zero]
    exact fun hzero => hraw (UInt64.toNat_inj.mp hzero)
  unfold rawToDecimal pow10 at h
  split at h
  · cases h
    have hscale : (0 : Decimal) < ((10 ^ decimals.toNat : Nat) : Decimal) := by
      exact_mod_cast Nat.pos_of_ne_zero (by simp)
    exact div_pos (by exact_mod_cast hpos) hscale
  · cases h

theorem rawToDecimal_error {raw : UInt64} {decimals : UInt8} {e : ExecError}
    (h : rawToDecimal raw decimals = .error (.err e)) : False := by
  unfold rawToDecimal pow10 at h
  split at h
  · cases h
  · cases h

theorem reconcileBuyFill_ended (mint : String) (qty : Decimal) :
    Appends exchanges (Ended crates) (reconcileBuyFill crates up.recorded mint qty) :=
  ended_get_bind fun _ => ended_bind (fetchTokenBalance_ended crates up _ _) fun _ =>
    ended_haltIf _ _

theorem reconcileSellFill_ended (mint : String) :
    Appends exchanges (Ended crates) (reconcileSellFill crates up.recorded mint) :=
  ended_get_bind fun _ => ended_bind (fetchTokenBalance_ended crates up _ _) fun _ =>
    ended_haltIf _ _

theorem settleBuy_ended (req : BuyRequest) {quote : JupiterQuote} (outDecimals : UInt8)
    (hout : quote.outAmountRaw ≠ 0) :
    Appends exchanges (Ended crates) (settleBuy crates up.recorded req quote outDecimals) := by
  refine ended_get_bind fun s => ended_ofExcept_bind ?_ fun qty hqty => ?_
  · exact fun e he => (rawToDecimal_error he).elim
  · have hpos := rawToDecimal_pos hout hqty
    refine ended_ofExcept_bind ?_ fun _ _ => ?_
    · rw [haltIf, if_neg (not_le.mpr hpos)]
      simp
    · refine ended_bind ?_ fun _ => ended_get_bind fun s => ended_pure _
      split
      · exact reconcileBuyFill_ended crates up _ _
      · exact ended_pure _

theorem settleSell_ended (req : SellRequest) (quote : JupiterQuote) :
    Appends exchanges (Ended crates) (settleSell crates up.recorded req quote) := by
  refine ended_get_bind fun s => ended_bind ?_ fun _ => ended_get_bind fun s => ended_pure _
  split
  · exact reconcileSellFill_ended crates up _
  · exact ended_pure _

theorem settle_ended (o : Order) {staged : Staged} (hout : staged.quote.outAmountRaw ≠ 0) :
    Appends exchanges (Ended crates) (settle crates up.recorded o staged) := by
  cases o with
  | buy req => exact settleBuy_ended crates up req _ hout
  | sell req => exact settleSell_ended crates up req _

/-! ## The submission -/

theorem sendBundle_ended (id : UInt64) (txs : List SignedTx) :
    Appends exchanges (Ended crates) (sendBundle crates up.recorded id txs) := by
  refine Appends.bind (call_log up _) (Q := fun _ later r =>
    later = [] ∧ ∀ e, r = .error (.err e) → ∃ msg, e = .transport msg) ?_ ?_ ?_
  · rintro response _ -
    split
    · refine appends_throw ⟨rfl, ?_⟩
      rintro e he
      obtain ⟨msg, hmsg⟩ := exists_transport_of_halt _ "jito bundle" " response unreadable: "
      rw [hmsg] at he
      cases he
      exact ⟨msg, rfl⟩
    · refine appends_throw ⟨rfl, ?_⟩
      rintro e ⟨⟩
      exact ⟨_, rfl⟩
    · split
      · exact appends_pure ⟨rfl, by simp⟩
      · refine appends_throw ⟨rfl, ?_⟩
        rintro e ⟨⟩
        exact ⟨_, rfl⟩
  · rintro new e ⟨response, hr, -⟩
    exact absurd hr (by simp)
  · rintro response new later r ⟨_, ⟨⟩, rfl⟩ ⟨rfl, hr⟩
    refine .settled (quiet_of_kinds crates ?_) hr
    intro x hx
    rw [List.append_nil] at hx
    have hkind : x.kind = .bundle := by
      rw [List.mem_singleton.mp hx]
      rfl
    rw [hkind]
    decide

/-- A readable status is a failure exactly if its entry has an error that counts. -/
theorem parseBundleStatus_cases (v : Json) :
    (∃ err, (statusEntry v).bind entryFailure = some err ∧
        parseBundleStatus crates (.ok v) = .ok (.failed (crates.jsonText err))) ∨
      ((statusEntry v).bind entryFailure = none ∧
        (parseBundleStatus crates (.ok v) = .ok .pending ∨
          ∃ signatures, parseBundleStatus crates (.ok v) = .ok (.landed signatures))) := by
  simp only [parseBundleStatus]
  cases statusEntry v with
  | none => exact Or.inr ⟨rfl, Or.inl rfl⟩
  | some entry =>
      simp only [Option.bind_some]
      cases entryFailure entry with
      | some err => exact Or.inl ⟨err, rfl, rfl⟩
      | none =>
          refine Or.inr ⟨rfl, ?_⟩
          dsimp only
          split
          · exact Or.inr ⟨_, rfl⟩
          · exact Or.inl rfl

/-- A verdict of failure comes from a failure in the exchange. -/
theorem verdict_statusOf (id : UInt64) (uuid : String) (response : Response) :
    match verdict uuid (statusOf crates response) with
    | none => Quiet crates [⟨.getBundleStatuses id uuid, response⟩]
    | some result => Ended crates [⟨.getBundleStatuses id uuid, response⟩] result := by
  have hfaults : faults crates [⟨.getBundleStatuses id uuid, response⟩] = [] := rfl
  rcases response with e | e | v
  · obtain ⟨msg, hmsg⟩ := exists_transport_of_halt e "jito status" " body unreadable: "
    rw [statusOf, hmsg]
    exact ⟨rfl, hfaults⟩
  · exact ⟨rfl, hfaults⟩
  · have hfailures : failures [⟨.getBundleStatuses id uuid, .ok (.ok v)⟩] =
        ((statusEntry v).bind entryFailure).toList := by
      cases hfail : (statusEntry v).bind entryFailure with
      | none => simp [failures, Exchange.failure, hfail]
      | some err => simp [failures, Exchange.failure, hfail]
    rw [statusOf]
    rcases parseBundleStatus_cases crates v with
      ⟨err, hfail, hparse⟩ | ⟨hfail, hparse | ⟨signatures, hparse⟩⟩
    · rw [hparse]
      rw [hfail] at hfailures
      exact Ended.failed hfailures hfaults
    · rw [hparse]
      rw [hfail] at hfailures
      exact ⟨hfailures, hfaults⟩
    · rw [hparse]
      rw [hfail] at hfailures
      exact Ended.settled ⟨hfailures, hfaults⟩ (by simp)

/-- The poll stops at the first failure. -/
theorem pollBundleLanding_ended (uuid : String) (timeoutSecs : UInt64) :
    Appends exchanges (Ended crates) (pollBundleLanding crates up.recorded uuid timeoutSecs) := by
  refine pollBundleLanding_log crates up uuid timeoutSecs ?_ ?_ ?_
  · intro id response result hverdict
    have hend := verdict_statusOf crates id uuid response
    rw [hverdict] at hend
    exact hend
  · intro id response msg hverdict
    have hquiet := verdict_statusOf crates id uuid response
    rw [hverdict] at hquiet
    refine .settled hquiet ?_
    rintro e ⟨⟩
    exact ⟨msg, rfl⟩
  · intro id response later r hverdict hlater
    have hquiet := verdict_statusOf crates id uuid response
    rw [hverdict] at hquiet
    exact hlater.prepend hquiet

theorem submitBundle_ended (txs : List SignedTx) :
    Appends exchanges (Ended crates) (submitBundle crates up.recorded txs) := by
  refine ended_bind ?_ fun id => ended_bind (sendBundle_ended crates up id txs) fun uuid => ?_
  · refine fun s => ⟨[], (List.append_nil _).symm, .settled (quiet_of_kinds crates (by simp)) ?_⟩
    rintro e ⟨⟩
  · exact ended_get_bind fun s => pollBundleLanding_ended crates up uuid _

/-! ## Whole orders -/

theorem not_submitted {log : List Exchange} (h : ∀ x ∈ log, x.kind ≠ .bundle) :
    ¬ Submitted log := by
  rintro ⟨x, hx, hkind⟩
  exact h x hx hkind

theorem submitted_append {before after : List Exchange} :
    Submitted (before ++ after) ↔ Submitted before ∨ Submitted after := by
  constructor
  · rintro ⟨x, hx, hkind⟩
    exact (List.mem_append.mp hx).imp (fun hx => ⟨x, hx, hkind⟩) fun hx => ⟨x, hx, hkind⟩
  · rintro (⟨x, hx, hkind⟩ | ⟨x, hx, hkind⟩)
    · exact ⟨x, List.mem_append_left _ hx, hkind⟩
    · exact ⟨x, List.mem_append_right _ hx, hkind⟩

/-- Before the submission nothing happens that matters after it. -/
theorem ended_after {C : RequestKind → Prop} {x : LiveM (ω × List Exchange) α}
    {f : α → LiveM (ω × List Exchange) β} {G : α → Prop} (hx : Yields C G x)
    (hC : ∀ k, C k → k ≠ .bundle ∧ k ≠ .status ∧ k ≠ .balance)
    (hf : ∀ a, G a → Appends exchanges (fun new r => Submitted new → Ended crates new r) (f a)) :
    Appends exchanges (fun new r => Submitted new → Ended crates new r) (x >>= f) := by
  refine Appends.bind hx (fun a new hnew => hf a (hnew.2 a rfl)) ?_ ?_
  · intro new e hnew hsub
    exact absurd hsub (not_submitted fun x hx => (hC _ (hnew.1 x hx)).1)
  · intro a new later r hnew hlater hsub
    rcases submitted_append.mp hsub with hsub | hsub
    · exact absurd hsub (not_submitted fun x hx => (hC _ (hnew.1 x hx)).1)
    · exact (hlater hsub).prepend (quiet_of_kinds crates fun x hx => (hC _ (hnew.1 x hx)).2)

theorem signAndMaybeSend_ended (swapTx : SwapTx) (tier : TipTier) :
    Appends exchanges (fun new r => Submitted new → Ended crates new r)
      (signAndMaybeSend crates up.recorded swapTx tier) := by
  refine ended_after crates (only_signBundle crates up swapTx tier).yields ?_ fun txs _ => ?_
  · rintro k rfl
    decide
  · apply appends_get_bind
    intro s
    split
    · apply appends_pure
      intro hsub
      exact absurd hsub (not_submitted (by simp))
    · exact (submitBundle_ended crates up txs).mono fun _ _ h _ => h

/-- An order that submits its bundle ends with a value and quietly, in an unknown
state, by one failure, or with an unreadable wallet. -/
theorem place_ended (o : Order) :
    Appends exchanges (fun new r => Submitted new → Ended crates new r)
      (place crates up.recorded o) := by
  rw [place_stages]
  refine ended_after crates (stage_yields crates up o) ?_ fun staged hout => ?_
  · intro k hk
    simp only [stageKinds, List.mem_cons, List.not_mem_nil, or_false] at hk
    rcases hk with rfl | rfl | rfl <;> decide
  · refine Appends.bind (signAndMaybeSend_ended crates up _ _)
      (fun _ _ _ => (settle_ended crates up o hout).and (only_settle crates up o staged)) ?_ ?_
    · exact fun new e hnew hsub => (hnew hsub).of_error
    · rintro _ new later r hnew ⟨hlater, hkinds⟩ hsub
      rcases submitted_append.mp hsub with hsub | hsub
      · exact hlater.prepend (hnew hsub).quiet
      · refine absurd hsub (not_submitted fun x hx => ?_)
        rw [hkinds x hx]
        decide

/-- One order from a state: its result and its exchanges. -/
def traced (o : Order) (s : Live ω) : Except Halt Fill × List Exchange :=
  let (r, s') := (place crates up.recorded o).exec (record s)
  (r, exchanges s')

/-- A body that reports an error of the RPC node itself. -/
def rpcError : Json :=
  .object [("jsonrpc", .string "2.0"), ("id", Mock.num 1),
    ("error", .object [("code", .number (.negInt (-32005))),
      ("message", .string "node is behind")])]

end Live

end HfmcBot
