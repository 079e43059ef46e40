import HfmcBot.Engine.ExitTurns
import HfmcBot.Slices

/-!
# The sizing caps of an entry

What one launch buys is a prefix of the slices of its budget, and the budget is the
smallest of three caps.  A funnel stops early where the throttle is full or a buy is
refused; it also stops when its window is over, and the window is a count of seconds
that the engine reads as a signed number, and that the time library must be able to add.

* `launch_new_buys`: the buys of a launch, slice by slice;
* `deliver_budgets`: the sweep of the same event buys nothing;
* `tryOnLaunch_admitted`: a window that leaves the range of the time library stops the
  process before the first slice;
* `launch_sizing_iff`: the caps hold for every launch, and the slices make up the whole
  budget exactly if the window fits into that range.
-/

namespace HfmcBot

open Foundation

/-- The budgets of the buy orders on a record. -/
def buyBudgets (sent : List Sent) : List Decimal :=
  sent.filterMap fun s =>
    match s.order with
    | .buy req => some req.budgetUsd
    | .sell _ => none

@[simp] theorem buyBudgets_nil : buyBudgets [] = [] := rfl

theorem buyBudgets_append (xs ys : List Sent) :
    buyBudgets (xs ++ ys) = buyBudgets xs ++ buyBudgets ys := List.filterMap_append

theorem buyBudgets_sells {xs : List Sent} (h : ∀ s ∈ xs, s.order.side = .sell) :
    buyBudgets xs = [] := by
  rw [buyBudgets, List.filterMap_eq_nil_iff]
  intro s hs
  have hside := h s hs
  cases horder : s.order with
  | buy req =>
      rw [horder] at hside
      exact absurd hside (by simp [Order.side])
  | sell req => rfl

namespace Engine

variable {σ : Type}

/-- The smallest of the three caps on an entry. -/
def sizingCap (e : Engine σ) : Decimal :=
  min (e.equity * e.cfg.riskPerTradePct / 100) (min e.cfg.maxSinglePosUsd (e.equity - e.deployedUsd))

/-- A budget there is, is the smallest of the caps. -/
theorem budget_eq_sizingCap {e : Engine σ} (h : 0 < e.budget) : e.budget = e.sizingCap := by
  unfold budget positionBudget at h ⊢
  unfold sizingCap
  dsimp only at h ⊢
  rw [← min_assoc]
  split at h
  · rename_i hcapped
    have hfree : 0 < e.equity - e.deployedUsd := by
      rcases lt_max_iff.mp h with hfree | hzero
      · exact hfree
      · exact absurd hzero (lt_irrefl 0)
    rw [if_pos hcapped, max_eq_left hfree.le, min_eq_right]
    exact (hcapped.resolve_left (not_lt.mpr hfree.le)).le
  · rename_i hroom
    rw [if_neg hroom]
    exact (min_eq_left (not_lt.mp (not_or.mp hroom).2)).symm

/-! ## The deadline -/

section Deadline

variable (ex : Executor σ) {e : Engine σ} {launch : Launch}

theorem checkedDeadline_eq_some {cfg : Config} {deadline : DateTime}
    (h : checkedDeadline cfg launch = some deadline) : deadline = funnelDeadline cfg launch := by
  obtain ⟨window, hwindow, hsum⟩ := Option.bind_eq_some_iff.mp h
  unfold trySeconds at hwindow
  unfold checkedAdd at hsum
  split at hwindow
  · split at hsum
    · rw [← Option.some.inj hsum, ← Option.some.inj hwindow]
      rfl
    · exact absurd hsum (by simp)
  · exact absurd hwindow (by simp)

/-- An admitted launch computes its deadline, and stops there or runs its funnel. -/
theorem tryOnLaunch_admitted (h : e.Admitted launch) :
    e.tryOnLaunch ex launch =
      match checkedDeadline e.cfg launch with
      | none => .error (e.funnelStart launch)
      | some _ => .ok (e.onLaunch ex launch) := by
  have hcheck : e.risk.checkEntry launch.createdAt = (.ok (), e.risk.refresh launch.createdAt) :=
    Prod.ext ((e.risk.checkEntry_eq_ok_iff launch.createdAt).mpr h.entry)
      (e.risk.checkEntry_snd launch.createdAt)
  rw [onLaunch_admitted ex h]
  unfold tryOnLaunch
  dsimp only
  rw [if_neg h.unheld, h.gate, hcheck]
  dsimp only
  rw [if_neg (not_le.mpr h.budget)]
  show (match checkedDeadline e.cfg launch with
    | none => Except.error (e.funnelStart launch)
    | some deadline => .ok (funnel ex launch deadline e.slices.length 0 e.slices
        (e.funnelStart launch))) = _
  cases hdeadline : checkedDeadline e.cfg launch with
  | none => rfl
  | some deadline => rw [checkedDeadline_eq_some hdeadline]

/-- Any other launch computes none. -/
theorem tryOnLaunch_refused (h : ¬ e.Admitted launch) :
    e.tryOnLaunch ex launch = .ok (e.onLaunch ex launch) := by
  unfold tryOnLaunch onLaunch
  dsimp only
  split
  · rfl
  · rename_i hunheld
    cases hgate : entryGate launch launch.createdAt e.cfg with
    | error reason => rfl
    | ok u =>
        have hsnd := e.risk.checkEntry_snd launch.createdAt
        rcases hcheck : e.risk.checkEntry launch.createdAt with ⟨block | u', risk⟩
        · rfl
        · have hentry := (e.risk.checkEntry_eq_ok_iff launch.createdAt).mp (by rw [hcheck])
          rw [hcheck] at hsnd
          obtain rfl : risk = e.risk.refresh launch.createdAt := hsnd
          dsimp only
          split
          · rfl
          · rename_i hbudget
            exact absurd ⟨hunheld, hgate, hentry, not_le.mp hbudget⟩ h

/-- The window fits into the range of the time library. -/
def WindowFits (cfg : Config) (launch : Launch) : Prop :=
  cfg.funnelWindowSecs.toNat ≤ 9223372036854775 ∧
    minUtc ≤ launch.createdAt + seconds cfg.funnelWindowSecs.toNat ∧
      launch.createdAt + seconds cfg.funnelWindowSecs.toNat ≤ maxUtc

/-- Then the deadline is there and not over; a count of seconds that reads as negative is
at best a deadline that is over. -/
theorem windowFits_iff (cfg : Config) (launch : Launch) :
    WindowFits cfg launch ↔
      0 ≤ asI64 cfg.funnelWindowSecs ∧ checkedDeadline cfg launch ≠ none := by
  unfold checkedDeadline trySeconds checkedAdd
  constructor
  · rintro ⟨hsecs, hmin, hmax⟩
    have hread : asI64 cfg.funnelWindowSecs = cfg.funnelWindowSecs.toNat :=
      asI64_of_lt (by omega)
    rw [hread, if_pos (by omega), Option.bind_some, if_pos ⟨hmin, hmax⟩]
    exact ⟨by omega, by simp⟩
  · rintro ⟨hpos, hsome⟩
    have hlt : cfg.funnelWindowSecs.toNat < 2 ^ 63 := lt_of_asI64_nonneg hpos
    have hread : asI64 cfg.funnelWindowSecs = cfg.funnelWindowSecs.toNat := asI64_of_lt hlt
    rw [hread] at hsome
    split_ifs at hsome with hsecs
    · rw [Option.bind_some] at hsome
      split_ifs at hsome with hrange
      · exact ⟨by omega, hrange⟩
      · exact absurd rfl hsome
    · exact absurd rfl hsome

/-- One second more than the time library counts in milliseconds. -/
example : checkedDeadline { Config.paperDefaults with funnelWindowSecs := 9223372036854776 }
    (freshLaunch "A" 0 1) = none := by decide +kernel

end Deadline

/-! ## The buys of a funnel -/

section Funnel

variable (ex : Executor σ) (launch : Launch) (deadline : DateTime) (total : Nat)

/-- The throttle is full when the slice has its turn. -/
def SliceTurn.Throttled (turn : SliceTurn σ) : Prop :=
  (turn.before.risk.refresh launch.createdAt).throttleFull = true

instance (turn : SliceTurn σ) : Decidable (turn.Throttled launch) := by
  unfold SliceTurn.Throttled
  infer_instance

/-- What a funnel adds to the record: buys of its first slices.  In its window they are
all of its slices, if none is throttled and none refused; past it there are none. -/
structure FunnelBuys (slices : List Decimal) (turns : List (SliceTurn (σ × List Sent)))
    (new : List Sent) : Prop where
  taken : buyBudgets new <+: slices
  complete : launch.createdAt ≤ deadline → (∀ turn ∈ turns, ¬ turn.Throttled launch) →
    (∀ s ∈ new, s.filled = true) → buyBudgets new = slices
  late : deadline < launch.createdAt → new = []

/-- A turn that ends the funnel without an order. -/
theorem FunnelBuys.stopped {slice : Decimal} {rest : List Decimal}
    {turn : SliceTurn (σ × List Sent)} {turns : List (SliceTurn (σ × List Sent))}
    (h : deadline < launch.createdAt ∨ turn.Throttled launch) :
    FunnelBuys launch deadline (slice :: rest) (turn :: turns) [] := by
  constructor
  · exact List.nil_prefix
  · intro hwindow hroom _
    rcases h with hlate | hfull
    · exact absurd hlate (not_lt.mpr hwindow)
    · exact absurd hfull (hroom turn List.mem_cons_self)
  · exact fun _ => rfl

/-- A refused order ends the funnel too. -/
theorem FunnelBuys.refused {slice : Decimal} {rest : List Decimal}
    {turns : List (SliceTurn (σ × List Sent))} {first : Sent}
    (hwindow : launch.createdAt ≤ deadline) (hslice : buyBudgets [first] = [slice])
    (hrefused : first.filled = false) : FunnelBuys launch deadline (slice :: rest) turns [first] := by
  constructor
  · rw [hslice]
    exact List.cons_prefix_cons.mpr ⟨rfl, List.nil_prefix⟩
  · intro _ _ hfilled
    have hfirst := hfilled first (List.mem_singleton.mpr rfl)
    rw [hrefused] at hfirst
    exact absurd hfirst Bool.false_ne_true
  · intro hlate
    exact absurd hlate (not_lt.mpr hwindow)

/-- A filled order, and the buys of the slices after it. -/
theorem FunnelBuys.cons {slice : Decimal} {rest : List Decimal} {turn : SliceTurn (σ × List Sent)}
    {turns : List (SliceTurn (σ × List Sent))} {first : Sent} {new : List Sent}
    (hwindow : launch.createdAt ≤ deadline) (hslice : buyBudgets [first] = [slice])
    (h : FunnelBuys launch deadline rest turns new) :
    FunnelBuys launch deadline (slice :: rest) (turn :: turns) (first :: new) := by
  have hbudgets : buyBudgets (first :: new) = slice :: buyBudgets new := by
    rw [← List.singleton_append, buyBudgets_append, hslice, List.singleton_append]
  constructor
  · rw [hbudgets]
    exact List.cons_prefix_cons.mpr ⟨rfl, h.taken⟩
  · intro _ hopen hfilled
    have hrest := h.complete hwindow (fun turn hturn => hopen turn (List.mem_cons_of_mem _ hturn))
      (fun s hs => hfilled s (List.mem_cons_of_mem _ hs))
    rw [hbudgets, hrest]
  · intro hlate
    exact absurd hlate (not_lt.mpr hwindow)

/-- A slice that is sent is one buy of its size; the funnel goes on if it filled. -/
theorem sendSlice_buy (e : Engine (σ × List Sent)) (slice : Decimal) :
    ∃ first : Sent, buyBudgets [first] = [slice] ∧
      (sendSlice ex.recorded e launch deadline slice).1.sent = e.sent ++ [first] ∧
      (sendSlice ex.recorded e launch deadline slice).2 = first.filled := by
  refine ⟨_, rfl, sendSlice_sent ex e launch deadline slice, ?_⟩
  unfold Sent.filled
  dsimp only
  rcases sendSlice_cases ex.recorded e launch deadline slice with
    ⟨err, st, hbuy, -, hflag⟩ | ⟨fill, st, hbuy, -, hflag⟩
  · rw [hflag, hbuy]
  · rw [hflag, hbuy]

/-- The buys of a funnel, slice by slice. -/
theorem funnel_new_buys (slices : List Decimal) :
    ∀ (idx : Nat) (e : Engine (σ × List Sent)),
      ∃ new, (funnel ex.recorded launch deadline total idx slices e).sent = e.sent ++ new ∧
        FunnelBuys launch deadline slices
          (funnelTurns ex.recorded launch deadline total idx slices e) new := by
  induction slices with
  | nil =>
      intro idx e
      refine ⟨[], (List.append_nil _).symm, ?_⟩
      constructor
      · exact List.prefix_rfl
      · exact fun _ _ _ => rfl
      · exact fun _ => rfl
  | cons slice rest ih =>
      intro idx e
      unfold funnel funnelTurns
      dsimp only
      rcases funnelSlice_cases ex.recorded e launch deadline idx total slice with
        ⟨hlate, hturn⟩ | ⟨-, hfull, block, hturn⟩ | ⟨hwindow, hroom, hturn⟩
      · rw [hturn, if_neg Bool.false_ne_true]
        exact ⟨[], (List.append_nil _).symm, FunnelBuys.stopped launch deadline (Or.inl hlate)⟩
      · rw [hturn, if_neg Bool.false_ne_true]
        exact ⟨[], (List.append_nil _).symm, FunnelBuys.stopped launch deadline (Or.inr hfull)⟩
      · obtain ⟨first, hslice, hsent, hflag⟩ := sendSlice_buy ex launch deadline
          (e.withRisk ((e.risk.refresh launch.createdAt).pushOrder launch.createdAt)) slice
        rw [hturn, hflag]
        cases hfilled : first.filled with
        | false =>
            rw [if_neg Bool.false_ne_true]
            exact ⟨[first], hsent, FunnelBuys.refused launch deadline hwindow hslice hfilled⟩
        | true =>
            rw [if_pos rfl, if_pos rfl]
            obtain ⟨new, hlater, hnew⟩ := ih (idx + 1) (sendSlice ex.recorded
              (e.withRisk ((e.risk.refresh launch.createdAt).pushOrder launch.createdAt)) launch
              deadline slice).1
            refine ⟨first :: new, ?_, FunnelBuys.cons launch deadline hwindow hslice hnew⟩
            rw [hlater, hsent]
            exact (List.append_cons _ _ _).symm

end Funnel

/-! ## The buys of a launch -/

section Launch

variable (ex : Executor σ) (e : Engine (σ × List Sent)) (launch : Launch) (o : KeyOrder Mint)

/-- What is sent while the launch is processed, the sweep included: up to the stop, where
the deadline stops the process. -/
def launchSent : List Sent :=
  match e.tryOnLaunch ex.recorded launch with
  | .error stopped => sentSince e stopped
  | .ok _ => sentSince e (e.deliver ex.recorded ⟨.launch launch, o⟩)

/-- The budgets of the buys among it. -/
def launchBudgets : List Decimal := buyBudgets (launchSent ex e launch o)

/-- No slice is throttled and no buy is refused. -/
structure Uncut : Prop where
  throttle : ∀ e', e.tryOnLaunch ex.recorded launch = .ok e' →
    ∀ turn ∈ launchTurns ex.recorded e launch, ¬ turn.Throttled launch
  accepted : ∀ s ∈ launchSent ex e launch o, s.order.side = .buy → s.filled = true

/-- A launch that stops the process has sent nothing. -/
theorem launchSent_stopped (h : e.Admitted launch) (hstop : checkedDeadline e.cfg launch = none) :
    launchSent ex e launch o = [] := by
  have hnone : (e.funnelStart launch).sent = e.sent ++ [] := (List.append_nil _).symm
  unfold launchSent
  rw [tryOnLaunch_admitted _ h, hstop]
  exact sentSince_of_append hnone

/-- The sweep of the event adds nothing to the budgets. -/
theorem deliver_budgets {e' : Engine (σ × List Sent)}
    (hgoes : e.tryOnLaunch ex.recorded launch = .ok e') {new : List Sent}
    (hnew : (e.onLaunch ex.recorded launch).sent = e.sent ++ new) :
    ∃ sells, launchSent ex e launch o = new ++ sells ∧ (∀ s ∈ sells, s.order.side = .sell) ∧
      launchBudgets ex e launch o = buyBudgets new := by
  have hsweep := sweep_observe ex.recorded (Q := fun _ => True) (g := sent)
    (w := fun turn => [orderOf ex launch.createdAt turn]) (fun _ _ h => h)
    (fun e x _ => closePosition_sent ex e x launch.createdAt) o
    (e := e.onLaunch ex.recorded launch) trivial
  have hdeliver : (e.deliver ex.recorded ⟨.launch launch, o⟩).sent =
      ((e.onLaunch ex.recorded launch).sweepTimeStops ex.recorded o launch.createdAt).sent :=
    sent_of_trading (trading_onEvent ex.recorded o e (.launch launch))
  rw [hsweep, hnew, List.append_assoc] at hdeliver
  have hsells : ∀ s ∈ (sweepTurns ex.recorded o (e.onLaunch ex.recorded launch)
      launch.createdAt).flatMap fun turn => [orderOf ex launch.createdAt turn],
      s.order.side = .sell := by
    intro s hs
    obtain ⟨turn, -, hturn⟩ := List.mem_flatMap.mp hs
    rw [List.mem_singleton.mp hturn]
    rfl
  have hsent := sentSince_of_append hdeliver
  unfold launchBudgets launchSent
  rw [hgoes]
  refine ⟨_, hsent, hsells, ?_⟩
  dsimp only
  rw [hsent, buyBudgets_append, buyBudgets_sells hsells, List.append_nil]

variable {e launch}

/-- An admitted launch buys as its funnel does. -/
theorem launch_new_buys (h : e.Admitted launch) :
    ∃ new, (e.onLaunch ex.recorded launch).sent = e.sent ++ new ∧
      FunnelBuys launch (funnelDeadline e.cfg launch) e.slices (launchTurns ex.recorded e launch)
        new := by
  rw [onLaunch_admitted _ h]
  exact funnel_new_buys ex launch (funnelDeadline e.cfg launch) e.slices.length e.slices 0
    (e.funnelStart launch)

/-- Any other launch buys nothing. -/
theorem launchBudgets_refused (h : ¬ e.Admitted launch) : launchBudgets ex e launch o = [] := by
  have hnone : (e.onLaunch ex.recorded launch).sent = e.sent ++ [] := by
    rw [List.append_nil, sent, (onLaunch_refused_fields ex.recorded h).1]
    rfl
  obtain ⟨-, -, -, hbudgets⟩ :=
    deliver_budgets ex e launch o (tryOnLaunch_refused ex.recorded h) hnone
  exact hbudgets

/-- The first slice of an admitted launch is not throttled, and where the window is over
there is no second turn. -/
theorem launchTurns_late (h : e.Admitted launch)
    (hlate : funnelDeadline e.cfg launch < launch.createdAt) :
    ∀ turn ∈ launchTurns ex.recorded e launch, ¬ turn.Throttled launch := by
  have hstop : ∀ idx slice (e' : Engine (σ × List Sent)),
      (e'.funnelSlice ex.recorded launch (funnelDeadline e.cfg launch) idx e.slices.length
        slice).2 = true → False := by
    intro idx slice e' hgo
    unfold funnelSlice at hgo
    dsimp only at hgo
    rw [if_pos hlate] at hgo
    exact absurd hgo Bool.false_ne_true
  have hfirst : ∀ turn ∈ launchTurns ex.recorded e launch,
      turn.before.risk.refresh launch.createdAt = e.risk.refresh launch.createdAt := by
    apply funnelTurns_invariant (P := fun (_ : Nat) (e' : Engine (σ × List Sent)) =>
      e'.risk.refresh launch.createdAt = e.risk.refresh launch.createdAt)
    · intro idx slice e' _ hgo
      exact (hstop idx slice e' hgo).elim
    · exact RiskEngine.refresh_refresh _ _
  intro turn hturn hfull
  unfold SliceTurn.Throttled at hfull
  rw [hfirst turn hturn, h.entry.below_throttle] at hfull
  exact absurd hfull Bool.false_ne_true

/-- The window is over from the start exactly if it reads as negative. -/
theorem funnelDeadline_lt_iff (cfg : Config) (launch : Launch) :
    funnelDeadline cfg launch < launch.createdAt ↔ asI64 cfg.funnelWindowSecs < 0 := by
  have hbefore : ∀ start secs : Int, start + secs * 1000000000 < start ↔ secs < 0 := by
    intro start secs
    omega
  exact hbefore launch.createdAt (asI64 cfg.funnelWindowSecs)

end Launch

/-- What the buys of an entry keep to, whatever stops them. -/
structure InsideCaps (e : Engine σ) (budgets : List Decimal) : Prop where
  positive : ∀ budget ∈ budgets, 0 < budget
  count : budgets.length ≤ e.cfg.funnelSlices
  split : budgets <+:
    splitIntoSlices (positionBudget e.cfg e.equity e.deployedUsd) e.cfg.funnelSlices
  capped : budgets.sum ≤ max e.sizingCap 0
  none : e.sizingCap ≤ 0 → budgets = []

/-- A prefix of the slices of a positive budget stays inside the caps. -/
theorem prefix_insideCaps {e : Engine σ} (hslices : 1 ≤ e.cfg.funnelSlices)
    (hbudget : 0 < e.budget) {budgets : List Decimal} (h : budgets <+: e.slices) :
    e.InsideCaps budgets := by
  have hpositive : ∀ slice ∈ e.slices, 0 < slice := splitIntoSlices_pos hbudget _
  have hsum : budgets.sum ≤ e.slices.sum := by
    apply h.sublist.sum_le_sum
    intro slice hslice
    exact (hpositive slice hslice).le
  constructor
  · intro budget hmem
    exact hpositive budget (h.subset hmem)
  · exact h.length_le.trans (length_splitIntoSlices_le _ hslices)
  · exact h
  · rw [← budget_eq_sizingCap hbudget]
    calc budgets.sum ≤ e.slices.sum := hsum
      _ = e.budget := sum_splitIntoSlices _ hslices
      _ ≤ max e.budget 0 := le_max_left _ _
  · intro hcap
    rw [← budget_eq_sizingCap hbudget] at hcap
    exact absurd hbudget (not_lt.mpr hcap)

theorem insideCaps_nil (e : Engine σ) : e.InsideCaps [] := by
  constructor
  · simp
  · simp
  · exact List.nil_prefix
  · exact le_max_right _ _
  · exact fun _ => rfl

/-- An entry that nothing cuts short spends its whole budget. -/
def SpendsBudget (ex : Executor σ) (e : Engine (σ × List Sent)) (launch : Launch)
    (o : KeyOrder Mint) : Prop :=
  e.Admitted launch → Uncut ex e launch o → (launchBudgets ex e launch o).sum = e.budget

/-- **The sizing of an entry.**  For every accepted configuration, state, launch and
executor, what is bought stays inside the caps; and an entry that nothing cuts short
spends exactly its budget if and only if the window of an admitted launch fits into the
range of the time library. -/
theorem launch_sizing_iff (ex : Executor σ) {e : Engine (σ × List Sent)}
    (hcfg : e.cfg.Accepted) (launch : Launch) (o : KeyOrder Mint) :
    e.InsideCaps (launchBudgets ex e launch o) ∧
      (SpendsBudget ex e launch o ↔ (e.Admitted launch → WindowFits e.cfg launch)) := by
  have hslices := hcfg.checked.slices_pos
  by_cases hadmitted : e.Admitted launch
  · cases hdeadline : checkedDeadline e.cfg launch with
    | none =>
        -- the process stops at the deadline, with nothing sent and nothing refused
        have hsent := launchSent_stopped ex e launch o hadmitted hdeadline
        have hbudgets : launchBudgets ex e launch o = [] := by
          unfold launchBudgets
          rw [hsent, buyBudgets_nil]
        have huncut : Uncut ex e launch o := by
          constructor
          · intro e' hgoes
            rw [tryOnLaunch_admitted _ hadmitted, hdeadline] at hgoes
            exact absurd hgoes (by simp)
          · rw [hsent]
            exact fun s hs => absurd hs List.not_mem_nil
        rw [hbudgets]
        refine ⟨insideCaps_nil e, fun hspends => ?_, fun hfits => ?_⟩
        · have hsum := hspends hadmitted huncut
          rw [hbudgets] at hsum
          exact absurd hadmitted.budget (not_lt.mpr hsum.ge)
        · exact absurd hdeadline ((windowFits_iff e.cfg launch).mp (hfits hadmitted)).2
    | some deadline =>
        have hgoes : e.tryOnLaunch ex.recorded launch = .ok (e.onLaunch ex.recorded launch) := by
          rw [tryOnLaunch_admitted _ hadmitted, hdeadline]
        have hfits : WindowFits e.cfg launch ↔ 0 ≤ asI64 e.cfg.funnelWindowSecs := by
          rw [windowFits_iff, hdeadline]
          simp
        obtain ⟨new, hnew, hbuys⟩ := launch_new_buys ex hadmitted
        obtain ⟨sells, hsent, hsells, hbudgets⟩ := deliver_budgets ex e launch o hgoes hnew
        have hbuy : ∀ s ∈ new, s.order.side = .buy := by
          obtain ⟨new', hnew', hside⟩ := Steps.launch_buys (onLaunch_steps ex.recorded e launch)
          rw [List.append_cancel_left (hnew.symm.trans hnew')]
          exact hside
        rw [hfits, hbudgets]
        refine ⟨prefix_insideCaps hslices hadmitted.budget hbuys.taken,
          fun hspends _ => ?_, fun hwindow _ huncut => ?_⟩
        · by_contra hnegative
          -- a window that reads as negative lets no slice through, and nothing is refused
          have hlate := (funnelDeadline_lt_iff e.cfg launch).mpr (not_le.mp hnegative)
          have hnone := hbuys.late hlate
          have huncut : Uncut ex e launch o := by
            constructor
            · exact fun _ _ => launchTurns_late ex hadmitted hlate
            · intro s hs hside
              rw [hsent, hnone] at hs
              rw [hsells s hs] at hside
              exact absurd hside (by simp)
          have hsum := hspends hadmitted huncut
          rw [hbudgets, hnone] at hsum
          exact absurd hadmitted.budget (not_lt.mpr hsum.ge)
        · have hopen : launch.createdAt ≤ funnelDeadline e.cfg launch := by
            rw [← not_lt, funnelDeadline_lt_iff, not_lt]
            exact hwindow hadmitted
          have hfilled : ∀ s ∈ new, s.filled = true := by
            intro s hs
            apply huncut.accepted s _ (hbuy s hs)
            rw [hsent]
            exact List.mem_append_left _ hs
          rw [hbudgets, hbuys.complete hopen (huncut.throttle _ hgoes) hfilled]
          exact sum_splitIntoSlices _ hslices
  · rw [launchBudgets_refused ex o hadmitted]
    refine ⟨insideCaps_nil e, ?_⟩
    constructor
    · intro _ h
      exact absurd h hadmitted
    · intro _ h
      exact absurd h hadmitted

/-- Paper defaults with a window of `2^64 - 5` seconds, which reads as five seconds
before the launch. -/
def endlessWindowConfig : Config :=
  { Config.paperDefaults with funnelWindowSecs := 18446744073709551611 }

/-- A launch with the paper defaults, in which all three slices fill. -/
theorem launch_sizing_default :
    let e := Engine.new Config.paperDefaults ((), ([] : List Sent)) (.opened fun _ => true) 0
    e.InsideCaps (launchBudgets Executor.oneToken e (freshLaunch "A" 0 1) .ascending) ∧
      (SpendsBudget Executor.oneToken e (freshLaunch "A" 0 1) .ascending ↔
        (e.Admitted (freshLaunch "A" 0 1) → WindowFits e.cfg (freshLaunch "A" 0 1))) :=
  launch_sizing_iff Executor.oneToken Config.paperDefaults_accepted (freshLaunch "A" 0 1) .ascending

/-- With the endless window the same launch is let in, nothing cuts it short, and it
buys nothing. -/
theorem endless_window_buys_nothing :
    let e := Engine.new endlessWindowConfig ((), ([] : List Sent)) (.opened fun _ => true) 0
    endlessWindowConfig.Accepted ∧
      ¬ SpendsBudget Executor.oneToken e (freshLaunch "A" 0 1) .ascending := by
  refine ⟨⟨fun _ => true, by decide +kernel⟩, ?_⟩
  intro hspends
  have hadmitted : (Engine.new endlessWindowConfig ((), ([] : List Sent))
      (.opened fun _ => true) 0).Admitted (freshLaunch "A" 0 1) :=
    ⟨by decide +kernel, by decide +kernel,
      ⟨by decide +kernel, by decide +kernel, by decide +kernel, by decide +kernel,
        by decide +kernel⟩, by decide +kernel⟩
  have huncut : Uncut Executor.oneToken (Engine.new endlessWindowConfig ((), ([] : List Sent))
      (.opened fun _ => true) 0) (freshLaunch "A" 0 1) .ascending :=
    ⟨fun _ _ => by decide +kernel, by decide +kernel⟩
  exact absurd (hspends hadmitted huncut) (by decide +kernel)

end Engine

end HfmcBot
