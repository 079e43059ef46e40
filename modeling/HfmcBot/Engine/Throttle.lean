import HfmcBot.Engine.Lives
import HfmcBot.Engine.Snapshot
import HfmcBot.Foundation.Window
import Mathlib.Data.List.TakeWhile

/-!
# The order throttle

The throttle queue is a final part of the order times, and what has left it is
at least 60 whole seconds old.  So after a refresh its length is the number of
orders of the last minute, and a buy that passes `check_order` keeps that number
within the maximum, as long as the length survives its cast to 32 bits.

* `Throttle`: the invariant, over runs that are restarted from their own
  snapshots in the middle;
* `Faithful`: the cast does not turn a full window into a free one;
* `throttle_while_faithful`: the bound for every buy of every run in which each
  launch meets a faithful count;
* `throttle_wraps`: a run in which one does not.
-/

namespace HfmcBot

open Foundation

namespace Engine

variable {σ : Type}

/-- The window `(t - 60 s, t]`. -/
def inWindow (t s : DateTime) : Bool := decide (t - seconds 60 < s ∧ s ≤ t)

/-- The orders of either side submitted in the window. -/
def windowCount (t : DateTime) (orders : List Sent) : Nat :=
  orders.countP fun s => inWindow t s.order.now

/-- What `prune_orders` drops at time `t`. -/
def expired (t s : DateTime) : Bool := decide (60 ≤ numSeconds (t - s))

theorem expired_iff (t s : DateTime) : expired t s = true ↔ s ≤ t - seconds 60 := by
  have hsecs : 60 ≤ numSeconds (t - s) ↔ seconds 60 ≤ t - s := le_numSeconds_iff (by decide) _
  rw [expired, decide_eq_true_eq, hsecs]
  exact le_sub_comm

theorem expired_of_le (t : DateTime) {s s' : DateTime} (h : s ≤ s') (hs : expired t s' = true) :
    expired t s = true := by
  rw [expired_iff] at hs ⊢
  exact h.trans hs

theorem expired_wait {t t' s : DateTime} (h : t ≤ t') (hs : expired t s = true) :
    expired t' s = true := by
  rw [expired_iff] at hs ⊢
  exact hs.trans (Int.sub_le_sub_right h _)

/-- What the throttle queue stands for at time `t`. -/
structure Throttle (cfg : Config) (t : DateTime) (e : Engine (σ × List Sent)) : Prop where
  risk_cfg : e.risk.cfg = cfg
  queue : ∃ gone, e.sent.map (fun s => s.order.now) = gone ++ e.risk.recentOrders ∧
    ∀ s ∈ gone, expired t s = true
  past : ∀ s ∈ e.sent, s.order.now ≤ t
  sorted : (e.sent.map fun s => s.order.now).Pairwise (· ≤ ·)
  obeyed : ∀ earlier s later, e.sent = earlier ++ s :: later → s.order.side = .buy →
    windowCount s.order.now (earlier ++ [s]) ≤ cfg.maxTradesPerMin.toNat

/-- The cast of the window's size to 32 bits does not hide that it is full. -/
def Faithful (cfg : Config) (t : DateTime) (e : Engine (σ × List Sent)) : Prop :=
  cfg.maxTradesPerMin.toNat ≤ windowCount t e.sent →
    cfg.maxTradesPerMin.toNat ≤ windowCount t e.sent % 2 ^ 32

/-- A count below `2 ^ 32` is faithful. -/
theorem faithful_of_lt {cfg : Config} {t : DateTime} {e : Engine (σ × List Sent)}
    (h : windowCount t e.sent < 2 ^ 32) : Faithful cfg t e := by
  intro hfull
  rw [Nat.mod_eq_of_lt h]
  exact hfull

theorem throttle_new (cfg : Config) (st : σ) (audit : AuditLog) (today : Int) (t : DateTime) :
    Throttle cfg t (Engine.new cfg (st, []) audit today) where
  risk_cfg := rfl
  queue := ⟨[], rfl, by simp⟩
  past := by simp [sent, Engine.new]
  sorted := List.Pairwise.nil
  obeyed := by
    intro earlier s later hsent
    exact absurd hsent (by simp [sent, Engine.new])

theorem Throttle.wait {cfg : Config} {s t : DateTime} {e : Engine (σ × List Sent)}
    (h : Throttle cfg s e) (hst : s ≤ t) : Throttle cfg t e := by
  obtain ⟨gone, hgone, hexp⟩ := h.queue
  exact { h with
    queue := ⟨gone, hgone, fun a ha => expired_wait hst (hexp a ha)⟩
    past := fun a ha => (h.past a ha).trans hst }

/-- The invariant reads the risk configuration, the queue and the history. -/
theorem Throttle.congr {cfg : Config} {t : DateTime} {e e' : Engine (σ × List Sent)}
    (h : Throttle cfg t e) (hcfg : e'.risk.cfg = e.risk.cfg)
    (hqueue : e'.risk.recentOrders = e.risk.recentOrders) (hsent : e'.sent = e.sent) :
    Throttle cfg t e' := by
  obtain ⟨h1, h2, h3, h4, h5⟩ := h
  rw [← hcfg] at h1
  rw [← hqueue, ← hsent] at h2
  rw [← hsent] at h3 h4 h5
  exact ⟨h1, h2, h3, h4, h5⟩

/-- After a refresh the queue holds the times of the window's orders. -/
theorem Throttle.refresh_length {cfg : Config} {t : DateTime} {e : Engine (σ × List Sent)}
    (h : Throttle cfg t e) : (e.risk.refresh t).recentOrders.length = windowCount t e.sent := by
  obtain ⟨gone, hgone, hexp⟩ := h.queue
  have hsorted := h.sorted
  rw [hgone] at hsorted
  have hwindow : (e.risk.refresh t).recentOrders =
      (e.sent.map fun s => s.order.now).filter fun s => !expired t s := by
    rw [RiskEngine.refresh_recentOrders, hgone]
    exact dropWhile_queue_eq_window (fun _ _ => expired_of_le t) hsorted hexp
  rw [hwindow, ← List.countP_eq_length_filter, List.countP_map]
  apply List.countP_congr
  intro s hs
  have hpast : s.order.now ≤ t := h.past s hs
  simp only [Function.comp_apply, inWindow, decide_eq_true_eq, Bool.not_eq_true']
  rw [← Bool.not_eq_true, expired_iff, not_le]
  exact ⟨fun hlt => ⟨hlt, hpast⟩, fun hlt => hlt.1⟩

theorem Throttle.refresh {cfg : Config} {t : DateTime} {e : Engine (σ × List Sent)}
    (h : Throttle cfg t e) : Throttle cfg t (e.withRisk (e.risk.refresh t)) := by
  obtain ⟨gone, hgone, hexp⟩ := h.queue
  have hsplit := List.takeWhile_append_dropWhile (p := expired t) (l := e.risk.recentOrders)
  refine { h with
    risk_cfg := (e.risk.refresh_cfg t).trans h.risk_cfg
    queue := ⟨gone ++ e.risk.recentOrders.takeWhile (expired t), ?_, ?_⟩ }
  · change e.sent.map _ = _ ++ (e.risk.refresh t).recentOrders
    rw [RiskEngine.refresh_recentOrders, List.append_assoc, hgone]
    exact congrArg (gone ++ ·) hsplit.symm
  · intro s hs
    rcases List.mem_append.mp hs with hold | hnew
    · exact hexp s hold
    · exact List.mem_takeWhile_imp hnew

theorem windowCount_concat {t : DateTime} (orders : List Sent) {s : Sent} (hs : s.order.now = t) :
    windowCount t (orders ++ [s]) = windowCount t orders + 1 := by
  have hin : inWindow t s.order.now = true := by
    rw [hs, inWindow, decide_eq_true_eq]
    exact ⟨Int.sub_lt_self _ (by decide), le_refl _⟩
  rw [windowCount, List.countP_append, List.countP_singleton, hin]
  rfl

/-- An order that enters the queue and the history together keeps the
invariant, if a buy keeps the bound. -/
theorem Throttle.push {cfg : Config} {t : DateTime} {e e' : Engine (σ × List Sent)}
    (h : Throttle cfg t e) {s : Sent} (hcfg : e'.risk.cfg = e.risk.cfg)
    (hqueue : e'.risk.recentOrders = e.risk.recentOrders ++ [t]) (hsent : e'.sent = e.sent ++ [s])
    (hnow : s.order.now = t)
    (hbuy : s.order.side = .buy → windowCount t (e.sent ++ [s]) ≤ cfg.maxTradesPerMin.toNat) :
    Throttle cfg t e' := by
  obtain ⟨gone, hgone, hexp⟩ := h.queue
  have htimes : e'.sent.map (fun s => s.order.now) = e.sent.map (fun s => s.order.now) ++ [t] := by
    rw [hsent, List.map_append, List.map_singleton, hnow]
  refine ⟨hcfg.trans h.risk_cfg, ⟨gone, ?_, hexp⟩, ?_, ?_, ?_⟩
  · rw [htimes, hqueue, hgone, List.append_assoc]
  · intro s' hs'
    rw [hsent] at hs'
    rcases List.mem_append.mp hs' with hold | hlast
    · exact h.past s' hold
    · rw [List.mem_singleton.mp hlast, hnow]
  · rw [htimes, List.pairwise_append]
    refine ⟨h.sorted, List.pairwise_singleton _ _, ?_⟩
    intro a ha b hb
    obtain ⟨s', hs', rfl⟩ := List.mem_map.mp ha
    rw [List.mem_singleton.mp hb]
    exact h.past s' hs'
  · intro earlier s' later hsplit hside
    rw [hsent] at hsplit
    -- the order in question is the new one, or one of before
    rcases List.eq_nil_or_concat later with rfl | ⟨init, last, rfl⟩
    · obtain ⟨rfl, hlast⟩ := List.append_inj' hsplit rfl
      obtain rfl := (List.cons.inj hlast).1
      rw [hnow]
      exact hbuy hside
    · have hsplit' : e.sent ++ [s] = (earlier ++ s' :: init) ++ [last] := by
        rw [hsplit, List.append_assoc, List.cons_append, List.concat_eq_append]
      exact h.obeyed earlier s' init (List.append_inj' hsplit' rfl).1 hside

/-! ## Steps -/

/-- Where the count is faithful, a free throttle means a window below the
maximum. -/
theorem Throttle.window_lt {cfg : Config} {t : DateTime} {e : Engine (σ × List Sent)}
    (h : Throttle cfg t e) (hfaithful : Faithful cfg t e)
    (hroom : (e.risk.refresh t).throttleFull = false) :
    windowCount t e.sent < cfg.maxTradesPerMin.toNat := by
  have hlt : (asU32 (windowCount t e.sent)).toNat < cfg.maxTradesPerMin.toNat := by
    rw [RiskEngine.throttleFull, decide_eq_false_iff_not, h.refresh_length,
      RiskEngine.refresh_cfg, h.risk_cfg] at hroom
    exact UInt32.lt_iff_toNat_lt.mp (UInt32.not_le.mp hroom)
  rw [toNat_asU32] at hlt
  by_contra hfull
  have hmod := hfaithful (not_lt.mp hfull)
  omega

/-- A slice keeps the invariant, and the count stays faithful for the next one. -/
theorem Throttle.slice {cfg : Config} {launch : Launch} {e : Engine (σ × List Sent)}
    (h : Throttle cfg launch.createdAt e) (hfaithful : Faithful cfg launch.createdAt e)
    (hroom : (e.risk.refresh launch.createdAt).throttleFull = false) (ex : Executor σ)
    (deadline : DateTime) (budgetUsd : Decimal) :
    let e' := ((e.withRisk ((e.risk.refresh launch.createdAt).pushOrder launch.createdAt)).sendSlice
      ex.recorded launch deadline budgetUsd).1
    Throttle cfg launch.createdAt e' ∧ Faithful cfg launch.createdAt e' := by
  intro e'
  have hlt := h.window_lt hfaithful hroom
  have hsent := sendSlice_sent ex
    (e.withRisk ((e.risk.refresh launch.createdAt).pushOrder launch.createdAt)) launch deadline
    budgetUsd
  have hcount : windowCount launch.createdAt e'.sent =
      windowCount launch.createdAt e.sent + 1 := by
    rw [hsent]
    exact windowCount_concat e.sent rfl
  have hrisk : e'.risk.cfg = (e.risk.refresh launch.createdAt).cfg ∧
      e'.risk.recentOrders = (e.risk.refresh launch.createdAt).recentOrders ++
        [launch.createdAt] := by
    rcases sendSlice_cases ex.recorded
        (e.withRisk ((e.risk.refresh launch.createdAt).pushOrder launch.createdAt)) launch deadline
        budgetUsd with
      ⟨err, st, -, hsend, -⟩ | ⟨fill, st, -, hsend, -⟩
    · have hrisk := (fields_of_trading hsend).risk
      exact ⟨(congrArg RiskEngine.cfg hrisk).trans rfl,
        (congrArg RiskEngine.recentOrders hrisk).trans rfl⟩
    · have hrisk := (fields_of_trading hsend).risk
      exact ⟨(congrArg RiskEngine.cfg hrisk).trans rfl,
        (congrArg RiskEngine.recentOrders hrisk).trans rfl⟩
  constructor
  · apply h.refresh.push hrisk.1 hrisk.2 hsent rfl
    intro _
    exact le_of_eq_of_le (windowCount_concat e.sent rfl) hlt
  · intro hfull
    -- one more order stays below the wrap
    have hmax := cfg.maxTradesPerMin.toNat_lt
    rw [hcount] at hfull ⊢
    rw [Nat.mod_eq_of_lt (by omega)]
    exact hfull

/-- An exit keeps the invariant: sells are counted but not bounded. -/
theorem Throttle.closePosition {cfg : Config} {t : DateTime} {e : Engine (σ × List Sent)}
    (h : Throttle cfg t e) (ex : Executor σ) (x : ExitArgs) :
    Throttle cfg t (e.closePosition ex.recorded x t) := by
  have hsent := closePosition_sent ex e x t
  have hrisk : (e.closePosition ex.recorded x t).risk.cfg = e.risk.cfg ∧
      (e.closePosition ex.recorded x t).risk.recentOrders = e.risk.recentOrders ++ [t] := by
    rcases closePosition_cases ex.recorded e x t with
      ⟨err, st, -, hclose⟩ | ⟨fill, st, -, hclose⟩
    · have hrisk := (fields_of_trading hclose).risk
      exact ⟨(congrArg RiskEngine.cfg hrisk).trans rfl,
        (congrArg RiskEngine.recentOrders hrisk).trans rfl⟩
    · have hrisk := (fields_of_trading hclose).risk
      refine ⟨(congrArg RiskEngine.cfg hrisk).trans ?_,
        (congrArg RiskEngine.recentOrders hrisk).trans ?_⟩
      · exact RiskEngine.recordRealizedPnl_cfg _ _ _
      · exact RiskEngine.recordRealizedPnl_recentOrders _ _ _
  apply h.push hrisk.1 hrisk.2 hsent rfl
  intro hbuy
  exact absurd hbuy (by simp [Order.side])

/-- Every small step keeps the throttle; in the handler of a launch this takes a
faithful count, which the step hands on. -/
theorem Step.throttle {cfg : Config} {ex : Executor σ} {ev : Event} {phase : Phase}
    {e e' : Engine (σ × List Sent)} (hstep : Step ex.recorded ev phase e e')
    (h : Throttle cfg ev.ts e)
    (hfaithful : phase = .handler → (∃ launch, ev = .launch launch) → Faithful cfg ev.ts e) :
    Throttle cfg ev.ts e' ∧
      (phase = .handler → (∃ launch, ev = .launch launch) → Faithful cfg ev.ts e') := by
  cases hstep with
  | note e mint action detail => exact ⟨h.congr rfl rfl rfl, hfaithful⟩
  | refresh e => exact ⟨h.refresh, hfaithful⟩
  | slice e launch budgetUsd hev hopen hwindow hroom =>
      subst hev
      have hboth := h.slice (hfaithful rfl ⟨launch, rfl⟩) hroom ex (funnelDeadline e.cfg launch)
        budgetUsd
      exact ⟨hboth.1, fun _ _ => hboth.2⟩
  | tick e p pos hev hpos hstay => exact ⟨h.congr rfl rfl rfl, hfaithful⟩
  | tickExit e p pos d hev hpos hexit =>
      subst hev
      have hticked : Throttle cfg p.ts (e.ticked p pos) := h.congr rfl rfl rfl
      refine ⟨hticked.closePosition ex _, ?_⟩
      rintro - ⟨launch, hlaunch⟩
      exact absurd hlaunch (by simp)
  | timeExit e pos x hpos hdue =>
      exact ⟨h.closePosition ex x, fun hphase => absurd hphase (by simp)⟩
  | page e kind detail => exact ⟨h.congr rfl rfl rfl, fun hphase => absurd hphase (by simp)⟩

theorem Throttle.deliver {cfg : Config} {ex : Executor σ} {d : Delivery}
    {e : Engine (σ × List Sent)} (h : Throttle cfg d.ts e) (hkeyed : e.Keyed)
    (hfaithful : (∃ launch, d.ev = .launch launch) → Faithful cfg d.ts e) :
    Throttle cfg d.ts (e.deliver ex.recorded d) := by
  have hstep : ∀ phase a b, Step ex.recorded d.ev phase a b →
      (Throttle cfg d.ts a ∧ (phase = .handler → (∃ launch, d.ev = .launch launch) →
        Faithful cfg d.ts a)) →
      (Throttle cfg d.ts b ∧ (phase = .handler → (∃ launch, d.ev = .launch launch) →
        Faithful cfg d.ts b)) :=
    fun _ _ _ hab ha => hab.throttle ha.1 ha.2
  have hhandled := steps_invariant (hstep .handler) (handle_steps ex.recorded e d.ev)
    ⟨h, fun _ => hfaithful⟩
  exact (steps_invariant (hstep .sweep) (onEvent_sweep ex.recorded d.order d.ev hkeyed)
    ⟨hhandled.1, fun hphase => absurd hphase (by simp)⟩).1

/-! ## Runs with restarts -/

/-- What can happen to the process: an event, or a restart from a snapshot of
itself, with a fresh executor, log and wall clock. -/
inductive Act (σ : Type)
  | event (d : Delivery)
  | restart (st : σ) (audit : AuditLog) (today : Int) (save load : KeyOrder Mint)

/-- Restarts carry no event time. -/
def Act.time : Act σ → Option DateTime
  | .event d => some d.ts
  | .restart .. => none

/-- One act.  The order history goes on across a restart; a refused snapshot
changes nothing. -/
def act (ex : Executor σ) (cfg : Config) (e : Engine (σ × List Sent)) :
    Act σ → Engine (σ × List Sent)
  | .event d => deliver ex.recorded e d
  | .restart st audit today save load =>
      match restore cfg (st, e.sent) audit today load (e.state save) with
      | .ok e' => e'
      | .error _ => e

theorem Keyed.act {cfg : Config} {e : Engine (σ × List Sent)} (h : e.Keyed) (ex : Executor σ)
    (a : Act σ) : (e.act ex cfg a).Keyed := by
  cases a with
  | event d => exact h.deliver ex.recorded d
  | restart st audit today save load =>
      unfold Engine.act
      dsimp only
      split
      · rename_i e' hrestore
        rw [restore_eq_ok hrestore]
        exact keyed_bookOf _
      · exact h

/-- A launch meets a faithful count. -/
def LaunchFaithful (cfg : Config) (e : Engine (σ × List Sent)) (a : Act σ) : Prop :=
  ∀ d launch, a = .event d → d.ev = .launch launch → Faithful cfg d.ts e

theorem Throttle.act {cfg : Config} {ex : Executor σ} {t : DateTime}
    {e : Engine (σ × List Sent)} (h : Throttle cfg t e) (hkeyed : e.Keyed) {a : Act σ}
    (hfaithful : LaunchFaithful cfg e a) (ht : Act.time a = some t ∨ Act.time a = none) :
    Throttle cfg t (e.act ex cfg a) := by
  cases a with
  | event d =>
      obtain rfl : d.ts = t := by
        rcases ht with ht | ht
        · exact Option.some.inj ht
        · exact absurd ht (by simp [Act.time])
      apply h.deliver hkeyed
      rintro ⟨launch, hlaunch⟩
      exact hfaithful d launch rfl hlaunch
  | restart st audit today save load =>
      unfold Engine.act
      dsimp only
      split
      · rename_i e' hrestore
        rw [restore_eq_ok hrestore]
        exact { h with risk_cfg := rfl }
      · exact h

/-- **The order throttle over runs**, snapshotted and restored or not.  In every
run whose timestamps do not decrease and whose launches all meet a faithful
count, a buy and the orders of either side submitted in the 60 seconds before it
are at most `max_trades_per_min`. -/
theorem throttle_while_faithful (cfg : Config) (ex : Executor σ) (st : σ) (audit : AuditLog)
    (today : Int) (acts : List (Act σ)) (horder : InOrderOf Act.time acts)
    (hfaithful : Along (act ex cfg) (LaunchFaithful cfg) (Engine.new cfg (st, []) audit today)
      acts) :
    ∀ earlier s later,
      (acts.foldl (act ex cfg) (Engine.new cfg (st, []) audit today)).sent =
        earlier ++ s :: later →
      s.order.side = .buy →
        windowCount s.order.now (earlier ++ [s]) ≤ cfg.maxTradesPerMin.toNat := by
  obtain ⟨t, ht⟩ : ∃ t, ∀ s ∈ acts.filterMap Act.time, s ≤ t := by
    induction acts.filterMap Act.time with
    | nil => exact ⟨0, by simp⟩
    | cons s times ih =>
        obtain ⟨t, ht⟩ := ih
        refine ⟨max s t, fun s' hs' => ?_⟩
        rcases List.mem_cons.mp hs' with rfl | hs'
        · exact le_max_left _ _
        · exact (ht s' hs').trans (le_max_right _ _)
  have hthrottle : Engine.Keyed (acts.foldl (act ex cfg) (Engine.new cfg (st, []) audit today)) ∧
      Throttle cfg t (acts.foldl (act ex cfg) (Engine.new cfg (st, []) audit today)) := by
    refine timed_run_invariant_along Act.time
      (P := fun t e => e.Keyed ∧ Throttle cfg t e) ?_ ?_ ?_ horder hfaithful ht
    · exact fun s t e hst h => ⟨h.1, h.2.wait hst⟩
    · exact fun e a t hC htime h => ⟨h.1.act ex a, h.2.act h.1 hC htime⟩
    · exact fun t => ⟨keyed_new _ _ _ _, throttle_new cfg st audit today t⟩
  exact hthrottle.2.obeyed

/-- Two launches and a restart between them: six buys in one minute, as many as
the defaults allow. -/
theorem throttle_while_faithful_restarted :
    let acts : List (Act Unit) := [.event (launchAt "A" 0 1),
      .restart () (.opened fun _ => true) 0 .ascending .ascending, .event (launchAt "B" 1 1)]
    ∃ earlier s later,
      (acts.foldl (act Executor.oneToken .paperDefaults)
        (Engine.new .paperDefaults ((), []) (.opened fun _ => true) 0)).sent =
          earlier ++ s :: later ∧
      earlier.length = 5 ∧ windowCount s.order.now (earlier ++ [s]) ≤ 6 := by
  intro acts
  have hsides : (acts.foldl (act Executor.oneToken .paperDefaults)
      (Engine.new .paperDefaults ((), []) (.opened fun _ => true) 0)).sent.map
        (fun s => s.order.side) = [.buy, .buy, .buy, .buy, .buy] ++ [.buy] := by decide +kernel
  obtain ⟨earlier, last, hsent, hearlier, hlast⟩ := List.map_eq_append_iff.mp hsides
  obtain ⟨s, later, rfl, hside, -⟩ := List.map_eq_cons_iff.mp hlast
  have hlength := congrArg List.length hearlier
  rw [List.length_map] at hlength
  refine ⟨earlier, s, later, hsent, hlength, ?_⟩
  refine throttle_while_faithful .paperDefaults Executor.oneToken () (.opened fun _ => true) 0 acts
    ?_ ?_ earlier s later hsent hside
  · unfold InOrderOf
    decide +kernel
  · refine ⟨?_, ?_, ?_, trivial⟩
    · intro d launch hd hlaunch
      obtain rfl := Act.event.inj hd
      exact faithful_of_lt (by decide +kernel)
    · intro d launch hd
      exact absurd hd (by simp)
    · intro d launch hd hlaunch
      obtain rfl := Act.event.inj hd
      exact faithful_of_lt (by decide +kernel)

/-! ## A run that wraps the count -/

/-- `k` orders at time zero have left a position that cannot be sold. -/
structure Jammed (k : Nat) (e : Engine (Unit × List Sent)) : Prop where
  cfg : e.cfg = .paperDefaults
  risk : e.risk = { RiskEngine.new .paperDefaults 0 with
    openPositions := 1
    recentOrders := List.replicate k 0 }
  money : e.equity = 50000 ∧ e.deployedUsd = 3
  book : ∃ pos, e.positions = Finmap.singleton "A" pos ∧ pos.mint = "A" ∧ pos.openedAt = 0 ∧
    pos.entryPrice = 1 ∧ pos.highWater = 1 ∧ pos.mode = .flip
  tries : ∃ n, n + 3 = k ∧ failedSince e.sent "A" = some n ∧
    (e.positions.lookup "A").map Position.exitAttempts = some (UInt32.ofNat n)
  count : e.sent.length = k
  now : ∀ s ∈ e.sent, s.order.now = 0

/-- The launch that opens the position. -/
theorem jammed_launch :
    Jammed 3 (deliver Executor.deadPool.recorded
      (Engine.new .paperDefaults ((), []) (.opened fun _ => true) 0) (launchAt "A" 0 1)) where
  cfg := by decide +kernel
  risk := by decide +kernel
  money := by decide +kernel
  book := ⟨{
    mint := "A"
    launchpad := .pumpFun
    openedAt := 0
    entryPrice := 1
    qty := 3
    costUsd := 3
    highWater := 1
    lastPrice := 1
    lastLiquidityUsd := 8000
    mode := .flip
    exitAttempts := 0
    stuck := false }, by decide +kernel, rfl, rfl, rfl, rfl, rfl⟩
  tries := ⟨0, rfl, by decide +kernel, by decide +kernel⟩
  count := by decide +kernel
  now := by decide +kernel

/-- At half the price the stop loss is reached. -/
theorem stopLoss_tick {pos : Position} (hentry : pos.entryPrice = 1) (hhigh : pos.highWater = 1)
    (hmode : pos.mode = .flip) :
    tickPosition .paperDefaults ⟨"A", 0, 1 / 2, 8000⟩ pos =
      ({ pos with lastPrice := 1 / 2, lastLiquidityUsd := 8000 }, some ⟨"stop_loss"⟩) := by
  have hlow : ¬ ((1 : Decimal) < 1 / 2) := by norm_num
  simp only [tickPosition, onPrice, Position.mark, Position.unrealizedPnlPct, hentry, hhigh,
    hmode, hlow, if_false, one_ne_zero]
  norm_num [Config.paperDefaults]

/-- A position just opened is not due for a time stop. -/
theorem sweep_justOpened (ex : Executor σ) {e : Engine σ} {pos : Position}
    (hcfg : e.cfg = .paperDefaults) (hbook : e.positions = Finmap.singleton "A" pos)
    (hmode : pos.mode = .flip) (hopened : pos.openedAt = 0) :
    e.sweepTimeStops ex .ascending 0 = e := by
  apply sweepTimeStops_eq_self
  intro mint p hp
  rw [hbook] at hp
  obtain ⟨-, rfl⟩ := FiniteMap.lookup_singleton_eq_some hp
  have honTime : onTime p 0 e.cfg = none := by
    rw [hcfg, onTime, hmode, hopened]
    rfl
  unfold timeStopExit
  rw [honTime]
  split <;> rfl

/-- A tick at half the price tries to sell once more, in vain. -/
theorem Jammed.tick {k : Nat} {e : Engine (Unit × List Sent)} (h : Jammed k e) :
    Jammed (k + 1) (deliver Executor.deadPool.recorded e (priceAt "A" 0 (1 / 2))) := by
  obtain ⟨pos, hbook, hmint, hopened, hentry, hhigh, hmode⟩ := h.book
  obtain ⟨n, hn, hfailed, hattempts⟩ := h.tries
  have hlookup : e.positions.lookup "A" = some pos := by
    rw [hbook]
    exact Finmap.lookup_singleton_eq
  have htick := stopLoss_tick hentry hhigh hmode
  rw [← h.cfg] at htick
  let pos' : Position := { pos with lastPrice := 1 / 2, lastLiquidityUsd := 8000 }
  let x : ExitArgs := pos'.exitArgs (1 / 2) 8000 "stop_loss"
  have hticked : e.ticked ⟨"A", 0, 1 / 2, 8000⟩ pos =
      { e with positions := Finmap.singleton "A" pos' } := by
    rw [ticked, htick, hbook, Finmap.insert_singleton_eq]
  have hhandle : e.onPriceUpdate Executor.deadPool.recorded ⟨"A", 0, 1 / 2, 8000⟩ =
      ({ e with positions := Finmap.singleton "A" pos' } : Engine _).closePosition
        Executor.deadPool.recorded x 0 := by
    rw [onPriceUpdate_exit hlookup (by rw [htick]), hticked, htick]
  have hmint' : x.mint = "A" := hmint
  generalize hafter : e.onPriceUpdate Executor.deadPool.recorded ⟨"A", 0, 1 / 2, 8000⟩ = after
    at hhandle
  have hsent := closePosition_sent Executor.deadPool
    { e with positions := Finmap.singleton "A" pos' } x 0
  rw [← hhandle] at hsent
  rcases closePosition_cases Executor.deadPool.recorded
      { e with positions := Finmap.singleton "A" pos' } x 0 with
    ⟨err, st, -, hclose⟩ | ⟨fill, st, hsell, -⟩
  · -- the pool rejects the sell: it counts on the position, and in the queue
    rw [← hhandle] at hclose
    obtain ⟨hcfg, hrisk, -, hequity, hdeployed, hpos, -, -⟩ := fields_of_trading hclose
    have hlookup' : (Finmap.singleton "A" pos' : Book).lookup "A" = some pos' :=
      Finmap.lookup_singleton_eq
    have hbook' : bookFailure (Finmap.singleton "A" pos') x.mint e.cfg.maxExitAttempts =
        Finmap.singleton "A" (pos'.failExit e.cfg.maxExitAttempts) := by
      rw [hmint', bookFailure_of_lookup hlookup', Finmap.insert_singleton_eq]
    have hpos' := hpos.trans hbook'
    have hquiet : after.sweepTimeStops Executor.deadPool.recorded .ascending 0 = after :=
      sweep_justOpened _ (hcfg.trans h.cfg) hpos' hmode hopened
    have hend : (deliver Executor.deadPool.recorded e (priceAt "A" 0 (1 / 2))).trading =
        after.trading := by
      apply (trading_onEvent _ _ _ _).trans
      change ((e.onPriceUpdate Executor.deadPool.recorded ⟨"A", 0, 1 / 2, 8000⟩).sweepTimeStops
        Executor.deadPool.recorded .ascending 0).trading = _
      rw [hafter, hquiet]
    obtain ⟨hcfg', hrisk', -, hequity', hdeployed', hpositions', -, -⟩ := fields_of_trading hend
    have hsent' := (sent_of_trading hend).trans hsent
    refine ⟨hcfg'.trans (hcfg.trans h.cfg), ?_, ?_, ?_, ?_, ?_, ?_⟩
    · apply (hrisk'.trans hrisk).trans
      change e.risk.pushOrder 0 = _
      rw [h.risk, List.replicate_succ']
      rfl
    · exact ⟨(hequity'.trans hequity).trans h.money.1, (hdeployed'.trans hdeployed).trans h.money.2⟩
    · exact ⟨_, hpositions'.trans hpos', hmint, hopened, hentry, hhigh, hmode⟩
    · refine ⟨n + 1, by omega, ?_, ?_⟩
      · unfold failedSince at hfailed ⊢
        rw [hsent', life_concat]
        show (if x.mint = "A" then (life _ _ e.sent "A").map (fun n => n + 1) else _) = _
        rw [if_pos hmint', hfailed, Option.map_some]
      · rw [hpositions'.trans hpos', Finmap.lookup_singleton_eq, Option.map_some]
        rw [hlookup, Option.map_some, Option.some_inj] at hattempts
        rw [UInt32.ofNat_add, ← hattempts]
        rfl
    · rw [hsent', List.length_append]
      exact congrArg (· + 1) h.count
    · intro s hs
      rw [hsent'] at hs
      rcases List.mem_append.mp hs with hold | hlast
      · exact h.now s hold
      · rw [List.mem_singleton.mp hlast]
        rfl
  · exact absurd (congrArg Prod.fst hsell) (by simp [Executor.recorded, Executor.deadPool])

theorem Jammed.ticks {k : Nat} {e : Engine (Unit × List Sent)} (h : Jammed k e) (n : Nat) :
    Jammed (k + n)
      (run Executor.deadPool.recorded e (List.replicate n (priceAt "A" 0 (1 / 2)))) := by
  induction n generalizing k e with
  | zero => exact h
  | succ n ih =>
      rw [List.replicate_succ, show k + (n + 1) = k + 1 + n by omega]
      exact ih h.tick

/-- A launch, and `n` ticks of it at half the price, all at time zero. -/
def failingTicks (n : Nat) : List Delivery :=
  launchAt "A" 0 1 :: List.replicate n (priceAt "A" 0 (1 / 2))

theorem jammed_failingTicks (n : Nat) :
    Jammed (3 + n) (run Executor.deadPool.recorded
      (Engine.new .paperDefaults ((), []) (.opened fun _ => true) 0) (failingTicks n)) :=
  jammed_launch.ticks n

/-- Counted as a `u32`, the queue is empty and the entry check passes. -/
theorem Jammed.entryOk {k : Nat} {e : Engine (Unit × List Sent)} (h : Jammed k e)
    (hk : k % 2 ^ 32 = 0) : (e.risk.refresh 0).EntryOk := by
  have hqueue : (e.risk.refresh 0).recentOrders = List.replicate k 0 := by
    rw [RiskEngine.refresh_recentOrders, h.risk]
    exact List.dropWhile_replicate
  have hsame : e.risk.maybeRollover 0 = e.risk := by
    rw [h.risk]
    exact RiskEngine.maybeRollover_of_day _ _ rfl
  constructor
  · rw [RiskEngine.refresh_dailyLossTripped, hsame, h.risk]
    rfl
  · rw [RiskEngine.refresh_lossLimit, RiskEngine.refresh_dayRealizedPnl, hsame, h.risk]
    change -(50000 : Decimal) * 10 / 100 < 0
    norm_num
  · rw [RiskEngine.refresh_kill, h.risk]
    rfl
  · rw [RiskEngine.refresh_openPositions, RiskEngine.refresh_cfg, h.risk]
    exact (by decide : 1 < 12)
  · rw [RiskEngine.throttleFull, hqueue, List.length_replicate, RiskEngine.refresh_cfg, h.risk,
      decide_eq_false_iff_not, UInt32.le_iff_toNat_le, toNat_asU32, hk]
    exact (by decide : ¬ (6 : UInt32).toNat ≤ 0)

/-- When the number of orders is a multiple of `2 ^ 32`, the window looks empty
and the next launch is let in. -/
theorem Jammed.wraps {k : Nat} {e : Engine (Unit × List Sent)} (h : Jammed k e)
    (hk : k % 2 ^ 32 = 0) :
    ∃ s later, (deliver Executor.deadPool.recorded e (launchAt "B" 0 1)).sent =
        e.sent ++ s :: later ∧
      s.order.side = .buy ∧ windowCount s.order.now (e.sent ++ [s]) = k + 1 := by
  obtain ⟨pos, hbook, hmint, -⟩ := h.book
  have hat : (freshLaunch "B" 0 1).createdAt = 0 := rfl
  have hkeyed : e.Keyed := by
    intro m p hp
    rw [hbook] at hp
    obtain ⟨rfl, rfl⟩ := FiniteMap.lookup_singleton_eq_some hp
    exact hmint
  have hnew : (freshLaunch "B" 0 1).mint ∉ e.positions := by
    rw [hbook, Finmap.mem_singleton]
    decide
  have hgate : entryGate (freshLaunch "B" 0 1) 0 e.cfg = .ok () := by
    rw [h.cfg]
    decide +kernel
  have hentry := h.entryOk hk
  have hbudget : 0 < positionBudget e.cfg e.equity e.deployedUsd := by
    rw [h.cfg, h.money.1, h.money.2]
    decide +kernel
  have hslices : 1 ≤ e.cfg.funnelSlices := by
    rw [h.cfg]
    decide
  have hwindow : (freshLaunch "B" 0 1).createdAt ≤ funnelDeadline e.cfg (freshLaunch "B" 0 1) := by
    rw [h.cfg]
    decide +kernel
  obtain ⟨s, later, hside, hnow, hsent⟩ := onLaunch_sends Executor.deadPool e
    (freshLaunch "B" 0 1) hnew hgate hentry hbudget hslices hwindow
  obtain ⟨sells, hsells, -⟩ := Steps.sweep_sells (onEvent_sweep Executor.deadPool.recorded
    .ascending (.launch (freshLaunch "B" 0 1)) hkeyed)
  refine ⟨s, later ++ sells, ?_, hside, ?_⟩
  · apply hsells.trans
    change (e.onLaunch Executor.deadPool.recorded (freshLaunch "B" 0 1)).sent ++ sells = _
    rw [hsent, List.append_assoc, List.cons_append]
  · -- every order so far was at time zero, so all are in the window
    have hall : (e.sent ++ [s]).countP (fun s' => inWindow s.order.now s'.order.now) =
        (e.sent ++ [s]).length := by
      rw [List.countP_eq_length]
      intro s' hs'
      have hzero : s'.order.now = 0 := by
        rcases List.mem_append.mp hs' with hold | hlast
        · exact h.now s' hold
        · rw [List.mem_singleton.mp hlast, hnow, hat]
      rw [hzero, hnow, hat]
      decide
    rw [windowCount, hall, List.length_append, h.count]
    rfl

/-- The events of the run: a launch, `n` ticks of it at half the price, all
rejected by the pool, and a second launch, all at time zero. -/
def wrappingRun (n : Nat) : List Delivery :=
  launchAt "A" 0 1 :: List.replicate n (priceAt "A" 0 (1 / 2)) ++ [launchAt "B" 0 1]

theorem wrappingRun_ts (n : Nat) : ∀ d ∈ wrappingRun n, d.ts = 0 := by
  intro d hd
  rcases List.mem_append.mp hd with hd | hd
  · rcases List.mem_cons.mp hd with rfl | hd
    · rfl
    · rw [List.eq_of_mem_replicate hd]
      rfl
  · rw [List.mem_singleton.mp hd]
    rfl

/-- The run as acts of a process that is never restarted. -/
def wrappingActs (n : Nat) : List (Act Unit) := (wrappingRun n).map fun d => .event d

theorem wrappingActs_inOrder (n : Nat) : InOrderOf Act.time (wrappingActs n) := by
  have hzero : ∀ t ∈ (wrappingActs n).filterMap Act.time, t = 0 := by
    intro t ht
    obtain ⟨a, ha, htime⟩ := List.mem_filterMap.mp ht
    obtain ⟨d, hd, rfl⟩ := List.mem_map.mp ha
    rw [← wrappingRun_ts n d hd]
    exact (Option.some.inj htime).symm
  rw [InOrderOf, List.eq_replicate_of_mem hzero]
  exact List.pairwise_replicate_of_refl

theorem foldl_wrappingActs (n : Nat) (e : Engine (Unit × List Sent)) :
    (wrappingActs n).foldl (act Executor.deadPool .paperDefaults) e =
      run Executor.deadPool.recorded e (wrappingRun n) := by
  rw [wrappingActs, List.foldl_map]
  rfl

/-- With `2 ^ 32 - 3` ticks the second launch buys although more than four
billion orders lie in its window. -/
theorem throttle_wraps :
    Config.paperDefaults.Accepted ∧ InOrderOf Act.time (wrappingActs (2 ^ 32 - 3)) ∧
      ∃ earlier s later,
        ((wrappingActs (2 ^ 32 - 3)).foldl (act Executor.deadPool .paperDefaults)
          (Engine.new .paperDefaults ((), []) (.opened fun _ => true) 0)).sent =
            earlier ++ s :: later ∧
        s.order.side = .buy ∧
        Config.paperDefaults.maxTradesPerMin.toNat < windowCount s.order.now (earlier ++ [s]) := by
  refine ⟨Config.paperDefaults_accepted, wrappingActs_inOrder _, ?_⟩
  generalize hn : 2 ^ 32 - 3 = n
  have hwrap : (3 + n) % 2 ^ 32 = 0 := by
    rw [← hn]
    norm_num
  have hjammed := jammed_launch.ticks n
  rw [← run_cons] at hjammed
  obtain ⟨s, later, hsent, hside, hcount⟩ := hjammed.wraps hwrap
  rw [foldl_wrappingActs, wrappingRun, run_concat]
  refine ⟨_, s, later, hsent, hside, ?_⟩
  rw [hcount]
  change 6 < 3 + n + 1
  omega

end Engine

end HfmcBot
