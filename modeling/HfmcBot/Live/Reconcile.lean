import HfmcBot.Engine.Funnel
import HfmcBot.Engine.Orders
import HfmcBot.Live.Settings

/-!
# Reconciliation over a whole funnel

The live executor behind the engine.  After each landed slice the executor reads
the wallet and compares the whole balance with what that one slice claims; the
engine adds the claims up.

* `Live.executor` is the live executor as the engine sees it;
* `buy_eq_ok` says what a filled slice has been checked against;
* `funnel_tally` adds up the quotes and the deliveries of a funnel;
* `covered_iff` compares the two.
-/

namespace HfmcBot

open Foundation Foundation.Attempt

/-- What the engine is told of a halt.  A panic takes the whole process with it:
nothing reads an answer after one, and it stands here as a refusal. -/
def Halt.toExecError : Halt → ExecError
  | .err e => e
  | .overflow => .rejected ["panic"]

namespace Live

variable {ω : Type} (crates : Crates) (up : Upstream ω)

/-- An order as the engine sees it. -/
def answer (x : LiveM ω Fill) (s : Live ω) : Answer × Live ω :=
  ((x.exec s).1.mapError Halt.toExecError, (x.exec s).2)

/-- The live executor behind the trait. -/
def executor : Executor (Live ω) where
  buy req := answer (buy crates up req)
  sell req := answer (sell crates up req)

/-- The same, keeping the order history. -/
abbrev observed : Executor (Live ω × List Sent) := (executor crates up).recorded

/-- The balance reads are exact: a body that parses shows what the wallet holds
when it is answered. -/
def ExactReads (balance : ω → String → Mint → Decimal) : Prop :=
  ∀ url owner mint w body d,
    (up.answer (.rpc url (.getTokenAccountsByOwner owner mint)) w).1.response = .ok body →
    parseTokenAccountsBalance crates body = .ok d →
    d = balance (up.answer (.rpc url (.getTokenAccountsByOwner owner mint)) w).2 owner mint

/-- The quantity the quote step of a buy promises: the quoted output in whole
tokens. -/
def quoted (mint : Mint) (budgetUsd : Decimal) (s : Live ω) : Decimal :=
  match ((prepareBuy crates up mint budgetUsd).exec s).1 with
  | .ok (quote, outDecimals, _) =>
      match rawToDecimal quote.outAmountRaw outDecimals with
      | .ok qty => qty
      | .error _ => 0
  | .error _ => 0

section Through

variable {crates up}

theorem answer_eq_ok {x : LiveM ω Fill} {s s' : Live ω} {fill : Fill}
    (h : answer x s = (.ok fill, s')) : x.exec s = (.ok fill, s') := by
  unfold answer at h
  rcases hrun : x.exec s with ⟨e | f, m⟩
  · rw [hrun] at h
    cases h
  · rw [hrun] at h
    cases h
    rfl

/-- A call with failover that gets through ends with the exchange that did. -/
theorem rpcTry_eq_ok {method : RpcMethod} {is : List Nat} {lastErr : Halt} {s s' : Live ω}
    {body : Body} (h : (rpcTry up method is lastErr).exec s = (.ok body, s')) :
    ∃ url w, (up.answer (.rpc url method) w).1.response = .ok body ∧
      s'.outside = (up.answer (.rpc url method) w).2 := by
  induction is generalizing lastErr s with
  | nil => cases h
  | cons i rest ih =>
      obtain ⟨s₀, m, hget, h⟩ := exec_bind_eq_ok h
      cases hget
      obtain ⟨response, m', hcall, h⟩ := exec_bind_eq_ok h
      rw [exec_call] at hcall
      obtain ⟨hresponse, rfl⟩ := Prod.mk.inj hcall
      cases response with
      | error e => exact ih h
      | ok body' =>
          cases h
          exact ⟨_, _, Except.ok.inj hresponse, rfl⟩

variable {balance : ω → String → Mint → Decimal}

/-- A balance read that gets through shows what the wallet holds. -/
theorem fetchTokenBalance_eq_ok (hexact : ExactReads crates up balance) {owner : String}
    {mint : Mint} {s s' : Live ω} {actual : Decimal}
    (h : (fetchTokenBalance crates up owner mint).exec s = (.ok actual, s')) :
    actual = balance s'.outside owner mint := by
  obtain ⟨body, m, hcall, h⟩ := exec_bind_eq_ok h
  obtain ⟨hparse, rfl⟩ := exec_ofExcept_eq_ok h
  obtain ⟨url, w, hresponse, houtside⟩ := rpcTry_eq_ok hcall
  rw [houtside]
  exact hexact url owner mint w body actual hresponse hparse

/-- A landed slice that settles claims what was quoted, and the wallet holds as
much as this slice alone claims, within dust. -/
theorem settleBuy_eq_ok (hexact : ExactReads crates up balance) {req : BuyRequest}
    {quote : JupiterQuote} {outDecimals : UInt8} {s s' : Live ω} {fill : Fill}
    (hlive : s.ex.simulateOnly = false)
    (h : (settleBuy crates up req quote outDecimals).exec s = (.ok fill, s')) :
    fill.mint = req.mint ∧ rawToDecimal quote.outAmountRaw outDecimals = .ok fill.qty ∧
      fill.qty ≤ balance s'.outside s.ex.operatorPubkey req.mint + s.ex.reconcileDustTokens := by
  unfold settleBuy at h
  rw [exec_get_bind] at h
  obtain ⟨qty, hraw, h⟩ := exec_ofExcept_bind_eq_ok h
  obtain ⟨_, -, h⟩ := exec_ofExcept_bind_eq_ok h
  rw [hlive] at h
  obtain ⟨_, m, hreconcile, h⟩ := exec_bind_eq_ok h
  -- the check of this slice
  unfold reconcileBuyFill at hreconcile
  simp only [Bool.not_false, if_true] at hreconcile
  rw [exec_get_bind] at hreconcile
  obtain ⟨actual, m', hread, hreconcile⟩ := exec_bind_eq_ok hreconcile
  obtain ⟨hcover, rfl⟩ := exec_ofExcept_eq_ok hreconcile
  have hactual := fetchTokenBalance_eq_ok hexact hread
  cases h
  refine ⟨rfl, hraw, ?_⟩
  rw [← hactual]
  exact not_lt.mp (haltIf_eq_ok hcover)

/-- What a filled buy claims, and what it has been checked against. -/
theorem buy_eq_ok (hexact : ExactReads crates up balance) {req : BuyRequest} {s s' : Live ω}
    {fill : Fill} (hlive : s.ex.simulateOnly = false)
    (h : (buy crates up req).exec s = (.ok fill, s')) :
    settings s' = settings s ∧ fill.mint = req.mint ∧
      fill.qty = quoted crates up req.mint req.budgetUsd s ∧
      fill.qty ≤ balance s'.outside s.ex.operatorPubkey req.mint + s.ex.reconcileDustTokens := by
  have hsettings : settings s' = settings s := settings_of_exec (steady_place crates up (.buy req)) h
  unfold buy at h
  rw [exec_get_bind] at h
  obtain ⟨_, -, h⟩ := exec_ofExcept_bind_eq_ok h
  obtain ⟨_, -, h⟩ := exec_ofExcept_bind_eq_ok h
  obtain ⟨⟨quote, outDecimals, swapTx⟩, m, hprepare, h⟩ := exec_bind_eq_ok h
  obtain ⟨sigs, m', hsend, h⟩ := exec_bind_eq_ok h
  have hm : settings m' = settings s :=
    (settings_of_exec (steady_signAndMaybeSend crates up _ _) hsend).trans
      (settings_of_exec (blind_settings.prepareBuy crates up _ _) hprepare)
  have hlive' : m'.ex.simulateOnly = false :=
    (congrArg LiveExecutor.simulateOnly hm).trans hlive
  obtain ⟨hmint, hraw, hcover⟩ := settleBuy_eq_ok hexact hlive' h
  refine ⟨hsettings, hmint, ?_, ?_⟩
  · unfold quoted
    rw [hprepare]
    dsimp only
    rw [hraw]
  · have hoperator : (settings m').operatorPubkey = (settings s).operatorPubkey :=
      congrArg LiveExecutor.operatorPubkey hm
    have hdust : (settings m').reconcileDustTokens = (settings s).reconcileDustTokens :=
      congrArg LiveExecutor.reconcileDustTokens hm
    show fill.qty ≤ balance s'.outside (settings s).operatorPubkey req.mint +
      (settings s).reconcileDustTokens
    rw [← hoperator, ← hdust]
    exact hcover

end Through

end Live

/-! ## The funnel -/

namespace Engine

variable {ω : Type}

/-- What the book holds of a mint. -/
def booked {σ : Type} (e : Engine σ) (mint : Mint) : Decimal :=
  ((e.positions.lookup mint).map fun pos => pos.qty).getD 0

/-- What the wallet of the operator holds of a mint. -/
def wallet (balance : ω → String → Mint → Decimal) (e : Engine (Live ω × List Sent))
    (mint : Mint) : Decimal :=
  balance e.exec.1.outside e.exec.1.ex.operatorPubkey mint

/-- The dust tolerance of the executor. -/
def dust (e : Engine (Live ω × List Sent)) : Decimal := e.exec.1.ex.reconcileDustTokens

/-- A booked fill adds its quantity. -/
theorem booked_applyBuyFill {σ : Type} (e : Engine σ) (fill : Fill) (launchpad : Launchpad)
    (liquidityUsd : Decimal) :
    booked (e.applyBuyFill fill launchpad liquidityUsd) fill.mint =
      booked e fill.mint + fill.qty := by
  unfold booked
  simp only [applyBuyFill, Finmap.lookup_insert, Option.map_some, Option.getD_some,
    Position.addFill]
  cases e.positions.lookup fill.mint with
  | none => rfl
  | some pos => rfl

section Funnel

variable (crates : Crates) (up : Upstream ω) (balance : ω → String → Mint → Decimal)
  (launch : Launch) (deadline : DateTime) (total : Nat)

/-- The quantity quoted to the slice. -/
def SliceTurn.quote (turn : SliceTurn (Live ω × List Sent)) : Decimal :=
  Live.quoted crates up launch.mint turn.slice turn.before.exec.1

/-- What the wallet gained during the turn. -/
def SliceTurn.delivered (turn : SliceTurn (Live ω × List Sent)) : Decimal :=
  wallet balance (turn.after (Live.observed crates up) launch deadline total) launch.mint -
    wallet balance turn.before launch.mint

variable {crates up balance}

/-- The three ways of a turn over the live executor: nothing is sent, the buy
fails, or it fills: then the quote is booked, checked against the wallet. -/
theorem live_turn (hexact : Live.ExactReads crates up balance)
    (turn : SliceTurn (Live ω × List Sent)) (hlive : turn.before.exec.1.ex.simulateOnly = false) :
    (turn.fills (Live.observed crates up) launch deadline total = false ∧
      (turn.after (Live.observed crates up) launch deadline total).exec = turn.before.exec ∧
      (turn.after (Live.observed crates up) launch deadline total).positions = turn.before.positions) ∨
    (turn.fills (Live.observed crates up) launch deadline total = false ∧
      ∃ s, (turn.after (Live.observed crates up) launch deadline total).sent = turn.before.sent ++ [s] ∧
        s.filled = false) ∨
    (turn.fills (Live.observed crates up) launch deadline total = true ∧
      (∃ s, (turn.after (Live.observed crates up) launch deadline total).sent = turn.before.sent ++ [s]) ∧
      Live.settings (turn.after (Live.observed crates up) launch deadline total).exec.1 =
        Live.settings turn.before.exec.1 ∧
      launch.mint ∈ (turn.after (Live.observed crates up) launch deadline total).positions ∧
      booked (turn.after (Live.observed crates up) launch deadline total) launch.mint =
        booked turn.before launch.mint + turn.quote crates up launch ∧
      turn.quote crates up launch ≤
        wallet balance (turn.after (Live.observed crates up) launch deadline total) launch.mint +
          dust turn.before) := by
  unfold SliceTurn.after SliceTurn.fills
  rcases funnelSlice_cases (Live.observed crates up) turn.before launch deadline turn.idx
    total turn.slice with ⟨-, hturn⟩ | ⟨-, -, block, hturn⟩ | ⟨-, -, hturn⟩
  · -- past the window
    rw [hturn]
    exact Or.inl ⟨rfl, rfl, rfl⟩
  · rw [hturn]
    exact Or.inl ⟨rfl, rfl, rfl⟩
  · right
    rw [hturn]
    have hsent := sendSlice_sent (Live.executor crates up) (turn.before.withRisk
      ((turn.before.risk.refresh launch.createdAt).pushOrder launch.createdAt)) launch deadline
      turn.slice
    rcases sendSlice_cases (Live.observed crates up) (turn.before.withRisk
      ((turn.before.risk.refresh launch.createdAt).pushOrder launch.createdAt)) launch deadline
      turn.slice with ⟨err, st, hbuy, hsend, hflag⟩ | ⟨fill, st, hbuy, hsend, hflag⟩
    · left
      refine ⟨hflag, _, hsent, ?_⟩
      rw [hbuy]
      rfl
    · right
      obtain ⟨-, -, hexec, -, -, hpos, -, -⟩ := fields_of_trading hsend
      have hanswer : ((Live.executor crates up).buy (sliceRequest launch deadline turn.slice
          (turn.before.nextOrderId launch.mint).1) turn.before.exec.1) = (.ok fill, st.1) := by
        have hfst := congrArg Prod.fst hbuy
        have hsnd := congrArg (fun r => r.2.1) hbuy
        exact Prod.ext hfst hsnd
      have hfill := Live.answer_eq_ok hanswer
      obtain ⟨hsettings, hmint, hqty, hcover⟩ := Live.buy_eq_ok hexact hlive hfill
      have hmint' : fill.mint = launch.mint := hmint
      have hbooked := booked_applyBuyFill (((turn.before.withRisk
        ((turn.before.risk.refresh launch.createdAt).pushOrder launch.createdAt)).submitted st))
        fill launch.launchpad launch.liquidityUsd
      rw [hmint'] at hbooked
      refine ⟨hflag, ⟨_, hsent⟩, ?_, ?_, ?_, ?_⟩
      · rw [hexec]
        exact hsettings
      · rw [hpos, ← hmint']
        simp [applyBuyFill]
      · rw [booked, hpos, ← show fill.qty = turn.quote crates up launch from hqty]
        exact hbooked
      · have hoperator : (Live.settings st.1).operatorPubkey =
            (Live.settings turn.before.exec.1).operatorPubkey :=
          congrArg LiveExecutor.operatorPubkey hsettings
        rw [← show fill.qty = turn.quote crates up launch from hqty, wallet, hexec]
        show fill.qty ≤ balance st.1.outside (Live.settings st.1).operatorPubkey launch.mint + _
        rw [hoperator]
        exact hcover

variable (crates up balance) in
/-- The books of a funnel: what its filled slices add to the position and to the
wallet. -/
structure Tally (fills : List (SliceTurn (Live ω × List Sent)))
    (e e' : Engine (Live ω × List Sent)) : Prop where
  booked : booked e' launch.mint =
    booked e launch.mint + (fills.map fun turn => turn.quote crates up launch).sum
  wallet : wallet balance e' launch.mint = wallet balance e launch.mint +
    (fills.map fun turn => turn.delivered crates up balance launch deadline total).sum
  held : fills ≠ [] → launch.mint ∈ e'.positions
  unheld : fills = [] → e'.positions = e.positions
  single : fills.length = 1 → (fills.map fun turn => turn.quote crates up launch).sum ≤
    Engine.wallet balance e' launch.mint + dust e

/-- Nothing filled, nothing moved. -/
theorem Tally.idle {e e' : Engine (Live ω × List Sent)} (hexec : e'.exec = e.exec)
    (hpos : e'.positions = e.positions) :
    Tally crates up balance launch deadline total [] e e' := by
  constructor
  · simp [Engine.booked, hpos]
  · simp [Engine.wallet, hexec]
  · intro hsome
    exact absurd rfl hsome
  · intro _
    exact hpos
  · intro hone
    exact absurd hone (by simp)

/-- A turn in front of a funnel: its quote and its delivery come on top. -/
theorem Tally.cons {fills : List (SliceTurn (Live ω × List Sent))}
    {e' : Engine (Live ω × List Sent)} {turn : SliceTurn (Live ω × List Sent)}
    (h : Tally crates up balance launch deadline total fills
      (turn.after (Live.observed crates up) launch deadline total) e')
    (hheld : launch.mint ∈ (turn.after (Live.observed crates up) launch deadline total).positions)
    (hbooked : Engine.booked (turn.after (Live.observed crates up) launch deadline total) launch.mint =
      Engine.booked turn.before launch.mint + turn.quote crates up launch)
    (hcover : turn.quote crates up launch ≤
      Engine.wallet balance (turn.after (Live.observed crates up) launch deadline total) launch.mint +
        dust turn.before) :
    Tally crates up balance launch deadline total (turn :: fills) turn.before e' := by
  have hquotes : ((turn :: fills).map fun turn => turn.quote crates up launch).sum =
      turn.quote crates up launch + (fills.map fun turn => turn.quote crates up launch).sum := by
    simp
  constructor
  · rw [h.booked, hbooked, hquotes]
    ring
  · rw [h.wallet, List.map_cons, List.sum_cons, SliceTurn.delivered]
    ring
  · intro _
    by_cases hnone : fills = []
    · rw [h.unheld hnone]
      exact hheld
    · exact h.held hnone
  · intro hnone
    exact absurd hnone (by simp)
  · intro hone
    have hnone : fills = [] := by simpa using hone
    have hwallet := h.wallet
    subst hnone
    simp only [List.map_nil, List.sum_nil, add_zero] at hwallet
    rw [hquotes, hwallet]
    simpa using hcover

/-- The funnel, by induction on the slices that are left. -/
theorem funnel_tally (hexact : Live.ExactReads crates up balance) (slices : List Decimal) :
    ∀ (idx : Nat) (e : Engine (Live ω × List Sent)), e.exec.1.ex.simulateOnly = false →
      (∀ s ∈ sentSince e
        (funnel (Live.observed crates up) launch deadline total idx slices e),
        s.filled = true) →
      Tally crates up balance launch deadline total
        (filled (Live.observed crates up) launch deadline total
          (funnelTurns (Live.observed crates up) launch deadline total idx slices e))
        e (funnel (Live.observed crates up) launch deadline total idx slices e) := by
  induction slices with
  | nil =>
      intro idx e _ _
      exact Tally.idle launch deadline total rfl rfl
  | cons slice rest ih =>
      intro idx e hlive hok
      unfold funnel at hok ⊢
      unfold funnelTurns filled
      dsimp only at hok ⊢
      rcases live_turn launch deadline total hexact ⟨e, idx, slice⟩ hlive with
        ⟨hflag, hexec, hpos⟩ | ⟨hflag, s, hsent, hfailed⟩ |
        ⟨hflag, ⟨s, hsent⟩, hsettings, hheld, hbooked, hcover⟩
      · have hstop : ¬ (e.funnelSlice (Live.observed crates up) launch deadline idx total
            slice).2 = true := SliceTurn.stops (Live.observed crates up) launch deadline total ⟨e, idx, slice⟩ hflag
        rw [if_neg hstop, if_neg hstop, List.filter_singleton, hflag]
        exact Tally.idle launch deadline total hexec hpos
      · -- the failed buy stands in the order history
        have hstop : ¬ (e.funnelSlice (Live.observed crates up) launch deadline idx total
            slice).2 = true := SliceTurn.stops (Live.observed crates up) launch deadline total ⟨e, idx, slice⟩ hflag
        have hlast : sentSince e (e.funnelSlice (Live.observed crates up) launch deadline
            idx total slice).1 = [s] := sentSince_of_append hsent
        rw [if_neg hstop, hlast] at hok
        have hfilled := hok s (by simp)
        rw [hfailed] at hfilled
        exact absurd hfilled Bool.false_ne_true
      · have hgo : (e.funnelSlice (Live.observed crates up) launch deadline idx total
            slice).2 = true := hflag
        rw [if_pos hgo] at hok
        rw [if_pos hgo, if_pos hgo, List.filter_cons_of_pos hflag]
        apply Tally.cons launch deadline total _ hheld hbooked hcover
        apply ih
        · exact (congrArg LiveExecutor.simulateOnly hsettings).trans hlive
        · intro s' hs'
          apply hok s'
          unfold sentSince at hs' ⊢
          rw [show (e.funnelSlice _ _ _ _ _ _).1.sent = e.sent ++ [s] from hsent,
            List.length_append] at hs'
          exact List.drop_subset_drop_left _ (Nat.le_add_right _ _) hs'

end Funnel

section Covered

variable (crates : Crates) (up : Upstream ω) (balance : ω → String → Mint → Decimal)
  (e : Engine (Live ω × List Sent)) (launch : Launch)

/-- What was quoted to them. -/
def quotes : List Decimal :=
  (launchFills (Live.observed crates up) launch e).map fun turn => turn.quote crates up launch

/-- What each of them brought into the wallet. -/
def deliveries : List Decimal :=
  (launchFills (Live.observed crates up) launch e).map fun turn =>
    turn.delivered crates up balance launch (funnelDeadline e.cfg launch) e.slices.length

/-- The wallet covers the booked position, within dust. -/
def Covered (e' : Engine (Live ω × List Sent)) : Prop :=
  ∀ pos, e'.positions.lookup launch.mint = some pos →
    pos.qty ≤ wallet balance e' launch.mint + dust e

variable {crates up balance e launch}

/-- Without a position there is nothing to cover. -/
theorem covered_of_unheld {e' : Engine (Live ω × List Sent)}
    (hnone : e'.positions.lookup launch.mint = none) : Covered balance e launch e' := by
  intro pos hpos
  rw [hnone] at hpos
  cases hpos

theorem covered_iff_of_lookup {e' : Engine (Live ω × List Sent)} {pos : Position}
    (hpos : e'.positions.lookup launch.mint = some pos) :
    Covered balance e launch e' ↔ pos.qty ≤ wallet balance e' launch.mint + dust e := by
  constructor
  · intro hcovered
    exact hcovered pos hpos
  · intro hle pos' hpos'
    obtain rfl : pos = pos' := Option.some.inj (hpos.symm.trans hpos')
    exact hle

/-- Slices that each bring what they were quoted bring it together. -/
theorem quotes_sum_le_of_each (hdust : 0 ≤ dust e)
    (heach : List.Forall₂ (· ≤ ·) (quotes crates up e launch)
      (deliveries crates up balance e launch)) :
    (quotes crates up e launch).sum ≤ (deliveries crates up balance e launch).sum + dust e := by
  have hsum := heach.sum_le_sum
  linarith

/-- **When the wallet covers the book.**  In a funnel over exact balance reads whose
buys all fill, starting from an empty wallet, the position is covered exactly if at
most one slice fills, or the slices together are quoted no more than they deliver,
within one dust tolerance: the check of a later slice counts what earlier slices
brought. -/
theorem covered_iff (hexact : Live.ExactReads crates up balance) (hadmitted : e.Admitted launch)
    (hlive : e.exec.1.ex.simulateOnly = false) (hempty : wallet balance e launch.mint = 0)
    (hok : ∀ s ∈ sentSince e (e.onLaunch (Live.observed crates up) launch),
      s.filled = true) :
    Covered balance e launch (e.onLaunch (Live.observed crates up) launch) ↔
      (quotes crates up e launch).length ≤ 1 ∨
        (quotes crates up e launch).sum ≤ (deliveries crates up balance e launch).sum + dust e := by
  rw [onLaunch_admitted _ hadmitted] at hok ⊢
  have htally := funnel_tally launch (funnelDeadline e.cfg launch) e.slices.length hexact e.slices 0
    (e.funnelStart launch) hlive hok
  set e' := funnel (Live.observed crates up) launch (funnelDeadline e.cfg launch)
    e.slices.length 0 e.slices (e.funnelStart launch)
  have hlength : (quotes crates up e launch).length = (launchFills (Live.observed crates up) launch e).length := by
    simp [quotes]
  have hunheld : e.positions.lookup launch.mint = none :=
    Finmap.lookup_eq_none.mpr hadmitted.unheld
  by_cases hnone : launchFills (Live.observed crates up) launch e = []
  · -- nothing filled, so there is no position
    constructor
    · intro _
      left
      rw [hlength, hnone]
      exact Nat.zero_le 1
    · intro _
      apply covered_of_unheld
      rw [htally.unheld hnone]
      exact hunheld
  · have hheld := htally.held hnone
    obtain ⟨pos, hpos⟩ := Option.isSome_iff_exists.mp (Finmap.lookup_isSome.mpr hheld)
    have hqty : pos.qty = (quotes crates up e launch).sum := by
      have hbooked := htally.booked
      unfold booked at hbooked
      rw [hpos, show (e.funnelStart launch).positions = e.positions from rfl, hunheld] at hbooked
      simp only [Option.map_some, Option.map_none, Option.getD_some, Option.getD_none,
        zero_add] at hbooked
      exact hbooked
    have hwallet : wallet balance e' launch.mint = (deliveries crates up balance e launch).sum := by
      have hsum := htally.wallet
      rw [show wallet balance (e.funnelStart launch) launch.mint = 0 from hempty,
        zero_add] at hsum
      exact hsum
    -- the book holds what was quoted, the wallet what was delivered
    rw [covered_iff_of_lookup hpos, hqty, hwallet]
    constructor
    · exact Or.inr
    · rintro (hfew | hsum)
      · -- a single slice: its own check saw the whole wallet
        have hone : (launchFills (Live.observed crates up) launch e).length = 1 := by
          have hpositive := List.length_pos_iff.mpr hnone
          omega
        rw [← hwallet]
        exact htally.single hone
      · exact hsum

end Covered

end Engine

/-! ## Two slices, one delivery -/

namespace Mock

/-- A wallet without token accounts. -/
def noTokens : Json := result (.array [])

/-- The upstream of the tests, but the first bundle brings five tokens into the
wallet and the later ones bring nothing.  The state counts the bundles. -/
def firstDelivers : Upstream Nat where
  answer req n :=
    let balance := if n = 0 then noTokens else fiveTokens
    let reply := ((upstream landed balance).answer req ()).1
    match req with
    | .sendBundle _ _ => (reply, n + 1)
    | _ => (reply, n)
  utcNow _ := 0

/-- What that wallet holds. -/
def walletAfter (n : Nat) (_ _ : String) : Decimal := if n = 0 then 0 else 5

theorem firstDelivers_exactReads : Live.ExactReads crates firstDelivers walletAfter := by
  intro url owner mint n body d hbody hparse
  rcases Nat.eq_zero_or_pos n with rfl | hsome
  · cases hbody
    exact (Except.ok.inj hparse).symm
  · have hn : n ≠ 0 := by omega
    simp only [firstDelivers, if_neg hn] at hbody
    cases hbody
    have hfive : parseTokenAccountsBalance crates (.ok fiveTokens) = .ok 5 := by decide +kernel
    show d = if n = 0 then 0 else 5
    rw [if_neg hn]
    exact Except.ok.inj (hparse.symm.trans hfive)

/-- A token account of five tokens. -/
def fiveAccount : Json :=
  .object [("account", .object [("data", .object [("parsed", .object
    [("info", .object [("tokenAmount", .object
      [("uiAmountString", .string "5.000000")])])])])])]

/-- The wallet after so many bundles that each bring an account of five, up to two of them. -/
def tokensAfter (n : Nat) : Json := result (.array (List.replicate (min n 2) fiveAccount))

/-- The upstream of the tests, but each of the first two bundles brings five tokens. -/
def eachDelivers : Upstream Nat where
  answer req n :=
    let reply := ((upstream landed (tokensAfter n)).answer req ()).1
    match req with
    | .sendBundle _ _ => (reply, n + 1)
    | _ => (reply, n)
  utcNow _ := 0

/-- What that wallet holds. -/
def walletOfEach (n : Nat) (_ _ : String) : Decimal := 5 * (min n 2 : Nat)

theorem eachDelivers_exactReads : Live.ExactReads crates eachDelivers walletOfEach := by
  intro url owner mint n body d hbody hparse
  have hshown : parseTokenAccountsBalance crates (.ok (tokensAfter n)) =
      .ok (walletOfEach n owner mint) := by
    unfold tokensAfter walletOfEach
    have hshows : ∀ k ≤ 2, parseTokenAccountsBalance crates
        (.ok (result (.array (List.replicate k fiveAccount)))) = .ok (5 * (k : Nat) : Decimal) := by
      decide +kernel
    exact hshows _ (Nat.min_le_right n 2)
  cases hbody
  exact Except.ok.inj (hparse.symm.trans hshown)

/-- The configuration of the tests with so many funnel slices, at ten calls a second. -/
def funnelConfig (slices : Nat) : Config :=
  { config with funnelSlices := slices, jupiterQps := 10 }

/-- The executor it arms. -/
def armed (slices : Nat) : LiveExecutor :=
  (LiveExecutor.armedWithSigner (funnelConfig slices) loaded 0).toOption.get rfl

/-- An engine over this executor, before its first bundle. -/
def engine (slices : Nat) : Engine (Live Nat × List Sent) :=
  Engine.new (funnelConfig slices) (⟨armed slices, 0, 0⟩, []) (.opened fun _ => true) 0

end Mock

namespace Engine

/-- Two slices, each delivered as quoted: the wallet covers both. -/
theorem two_slices_covered :
    (quotes Mock.crates Mock.eachDelivers (Mock.engine 2) (freshLaunch Mock.mint 0 20)).length =
        2 ∧
      Covered Mock.walletOfEach (Mock.engine 2) (freshLaunch Mock.mint 0 20)
        ((Mock.engine 2).onLaunch (Live.observed Mock.crates Mock.eachDelivers)
          (freshLaunch Mock.mint 0 20)) := by
  have hadmitted : (Mock.engine 2).Admitted (freshLaunch Mock.mint 0 20) :=
    ⟨by decide +kernel, by decide +kernel,
      ⟨by decide +kernel, by decide +kernel, by decide +kernel, by decide +kernel,
        by decide +kernel⟩, by decide +kernel⟩
  have hrun : (∀ s ∈ sentSince (Mock.engine 2) ((Mock.engine 2).onLaunch
      (Live.observed Mock.crates Mock.eachDelivers) (freshLaunch Mock.mint 0 20)),
      s.filled = true) ∧
      (quotes Mock.crates Mock.eachDelivers (Mock.engine 2)
        (freshLaunch Mock.mint 0 20)).length = 2 ∧
      List.Forall₂ (· ≤ ·)
        (quotes Mock.crates Mock.eachDelivers (Mock.engine 2) (freshLaunch Mock.mint 0 20))
        (deliveries Mock.crates Mock.eachDelivers Mock.walletOfEach (Mock.engine 2)
          (freshLaunch Mock.mint 0 20)) := by
    decide +kernel
  obtain ⟨hfilled, hlength, heach⟩ := hrun
  refine ⟨hlength, (covered_iff Mock.eachDelivers_exactReads hadmitted (by decide +kernel)
    (by decide +kernel) hfilled).mpr (Or.inr ?_)⟩
  exact quotes_sum_le_of_each (by decide +kernel) heach

/-- Two slices, and only the first is delivered: both buys fill, and the book holds
ten tokens where the wallet holds five. -/
theorem undelivered_slice_booked :
    let live := Live.observed Mock.crates Mock.firstDelivers
    let e := Mock.engine 2
    let launch := freshLaunch Mock.mint 0 20
    Live.ExactReads Mock.crates Mock.firstDelivers Mock.walletAfter ∧
      e.exec.1.ex.simulateOnly = false ∧ wallet Mock.walletAfter e launch.mint = 0 ∧
      (∀ s ∈ sentSince e (e.onLaunch live launch), s.filled = true) ∧
      (sentSince e (e.onLaunch live launch)).length = 2 ∧
      ¬ Covered Mock.walletAfter e launch (e.onLaunch live launch) := by
  intro live e launch
  -- the whole launch is evaluated once
  have hrun : (∀ s ∈ sentSince e (e.onLaunch live launch), s.filled = true) ∧
      (sentSince e (e.onLaunch live launch)).length = 2 ∧
      ((e.onLaunch live launch).positions.lookup launch.mint).any (fun pos =>
        decide (wallet Mock.walletAfter (e.onLaunch live launch) launch.mint + e.dust < pos.qty)) =
          true := by
    decide +kernel
  obtain ⟨hfilled, hlength, hshort⟩ := hrun
  refine ⟨Mock.firstDelivers_exactReads, by decide +kernel, by decide +kernel, hfilled, hlength,
    ?_⟩
  intro hcovered
  obtain ⟨pos, hpos, hless⟩ := (Option.any_eq_true _ _).mp hshort
  exact absurd (hcovered pos hpos) (not_le.mpr (of_decide_eq_true hless))

end Engine

end HfmcBot
