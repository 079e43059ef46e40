import HfmcBot.Engine.Resubmission

/-!
# The clock of the entry gate

The entry gate measures the age of a launch at a time it is given, and `on_launch` gives
it the time of the launch itself.  The engine's own clock is the greatest timestamp it
has processed: behind it a launch may lag, and the gate does not see that.

* `submitsBuy_iff`: which launches buy;
* `gated_iff`: a launch is gated at the engine's time exactly if it is turned away
  or its lag is within the limit;
* `gated_of_inTimeOrder`: which it always is when timestamps do not decrease.
-/

namespace HfmcBot

/-- What the gate lets through. -/
theorem entryGate_eq_ok_iff (launch : Launch) (now : DateTime) (cfg : Config) :
    entryGate launch now cfg = .ok () ↔
      numSeconds (now - launch.createdAt) ≤ asI64 cfg.entryMaxAgeSecs ∧
      (launch.onCurve = true ∨
        cfg.minLiquidityUsd ≤ launch.liquidityUsd ∧ launch.mintRenounced = true) ∧
      launch.creatorHoldPct ≤ cfg.maxDevHoldPct ∧ launch.isHoneypot = false := by
  unfold entryGate
  dsimp only
  split_ifs with hage hliquidity hhold hhoneypot hrenounced
  · simp [not_le.mpr hage]
  · simp [not_le.mpr hliquidity.1, hliquidity.2]
  · simp [not_le.mpr hhold]
  · simp [hhoneypot]
  · simp [hrenounced.1, hrenounced.2]
  · simp only [true_iff]
    refine ⟨not_lt.mp hage, ?_, not_lt.mp hhold, by simpa using hhoneypot⟩
    cases hcurve : launch.onCurve with
    | true => exact Or.inl rfl
    | false =>
        right
        constructor
        · by_contra hlow
          exact hliquidity ⟨not_le.mp hlow, hcurve⟩
        · by_contra hkept
          exact hrenounced ⟨hcurve, by simpa using hkept⟩

/-- The greatest timestamp after a run that reached `t` before. -/
def clockAfter (ds : List Delivery) (t : DateTime) : DateTime :=
  ds.foldl (fun t d => max t d.ts) t

theorem le_clockAfter (ds : List Delivery) : ∀ t, t ≤ clockAfter ds t := by
  induction ds with
  | nil => exact fun t => le_refl t
  | cons d rest ih => exact fun t => (le_max_left t d.ts).trans (ih (max t d.ts))

theorem clockAfter_le {ds : List Delivery} {bound : DateTime} :
    ∀ {t}, t ≤ bound → (∀ d ∈ ds, d.ts ≤ bound) → clockAfter ds t ≤ bound := by
  induction ds with
  | nil =>
      intro t ht _
      exact ht
  | cons d rest ih =>
      intro t ht hds
      have hfirst := hds d List.mem_cons_self
      exact ih (max_le ht hfirst) fun d' hd' => hds d' (List.mem_cons_of_mem _ hd')

namespace Engine

variable {σ : Type}

/-- A launch is gated at the time `now`: it is young enough, it is on its curve or
liquid and renounced, its creator holds little, it is no honeypot, and it is not held. -/
structure Gated (e : Engine σ) (launch : Launch) (now : DateTime) : Prop where
  age : numSeconds (now - launch.createdAt) ≤ e.cfg.entryMaxAgeSecs.toNat
  pool : launch.onCurve = true ∨
    e.cfg.minLiquidityUsd ≤ launch.liquidityUsd ∧ launch.mintRenounced = true
  hold : launch.creatorHoldPct ≤ e.cfg.maxDevHoldPct
  honest : launch.isHoneypot = false
  unheld : launch.mint ∉ e.positions

/-- The engine submits a buy when it is handed the launch. -/
def SubmitsBuy (ex : Executor σ) (e : Engine (σ × List Sent)) (d : Delivery) : Prop :=
  ∃ s ∈ sentSince e (e.deliver ex.recorded d), s.order.side = .buy

/-- The launches that buy are those let in. -/
theorem submitsBuy_iff (ex : Executor σ) {e : Engine (σ × List Sent)} (hkeyed : e.Keyed)
    (launch : Launch) (o : Foundation.KeyOrder Mint) :
    SubmitsBuy ex e ⟨.launch launch, o⟩ ↔ e.LetIn launch := by
  obtain ⟨new, hsent, -, -, hlet⟩ := onLaunch_log ex e launch
  obtain ⟨buys, hbuys, hside⟩ := Steps.launch_buys (onLaunch_steps ex.recorded e launch)
  obtain rfl : new = buys := List.append_cancel_left (hsent.symm.trans hbuys)
  obtain ⟨sells, hswept, hsells⟩ := Steps.sweep_sells
    (onEvent_sweep ex.recorded o (.launch launch) hkeyed)
  have hsince : sentSince e (e.deliver ex.recorded ⟨.launch launch, o⟩) = new ++ sells := by
    apply sentSince_of_append
    show (e.onEvent ex.recorded o (.launch launch)).sent = _
    rw [hswept]
    show (e.onLaunch ex.recorded launch).sent ++ sells = _
    rw [hsent, List.append_assoc]
  unfold SubmitsBuy
  rw [hsince, ← hlet]
  constructor
  · rintro ⟨s, hs, hbuy⟩ rfl
    have hsell := hsells s (by simpa using hs)
    rw [hbuy] at hsell
    exact absurd hsell (by simp)
  · intro hne
    obtain ⟨s, hs⟩ := List.exists_mem_of_ne_nil _ hne
    exact ⟨s, List.mem_append_left _ hs, hside s hs⟩

/-- What a launch that is let in has passed, whatever the clock says. -/
theorem LetIn.gated_iff_age {e : Engine σ} {launch : Launch} (h : e.LetIn launch) (now : DateTime) :
    e.Gated launch now ↔ numSeconds (now - launch.createdAt) ≤ e.cfg.entryMaxAgeSecs.toNat := by
  obtain ⟨-, hpool, hhold, hhonest⟩ := (entryGate_eq_ok_iff _ _ _).mp h.gate
  constructor
  · exact fun hgated => hgated.age
  · exact fun hage => ⟨hage, hpool, hhold, hhonest, h.unheld⟩

/-- A buy is gated at a time exactly if the launch is turned away or in time for it. -/
theorem submitsBuy_gated_iff {e : Engine (σ × List Sent)} (hkeyed : e.Keyed) (ex : Executor σ)
    (launch : Launch) (o : Foundation.KeyOrder Mint) (now : DateTime) :
    (SubmitsBuy ex e ⟨.launch launch, o⟩ → e.Gated launch now) ↔
      (e.LetIn launch → numSeconds (now - launch.createdAt) ≤ e.cfg.entryMaxAgeSecs.toNat) := by
  rw [submitsBuy_iff ex hkeyed launch o]
  constructor
  · intro h hlet
    exact (h hlet).age
  · intro h hlet
    exact (hlet.gated_iff_age now).mpr (h hlet)

/-- **The entry gate over whole runs**, events arriving in any order: a buy for a
launch means that the launch is gated at the engine's time, if and only if the launch is
turned away or lags that time by no more than the limit. -/
theorem gated_iff (cfg : Config) (ex : Executor σ) (st : σ) (audit : AuditLog) (today : Int)
    (ds : List Delivery) (launch : Launch) (o : Foundation.KeyOrder Mint) :
    let e := run ex.recorded (Engine.new cfg (st, []) audit today) ds
    let now := clockAfter ds launch.createdAt
    (SubmitsBuy ex e ⟨.launch launch, o⟩ → e.Gated launch now) ↔
      (e.LetIn launch → numSeconds (now - launch.createdAt) ≤ cfg.entryMaxAgeSecs.toNat) := by
  intro e now
  have hnew := keyed_new cfg (st, ([] : List Sent)) audit today
  have hcfg : e.cfg = cfg := run_cfg hnew ex.recorded ds
  rw [← hcfg]
  exact submitsBuy_gated_iff (hnew.run ex.recorded ds) ex launch o now

/-- In a run whose timestamps do not decrease no launch lags, so every buy is gated. -/
theorem gated_of_inTimeOrder (cfg : Config) (ex : Executor σ) (st : σ) (audit : AuditLog)
    (today : Int) (ds : List Delivery) (launch : Launch) (o : Foundation.KeyOrder Mint)
    (hlatest : ∀ d ∈ ds, d.ts ≤ launch.createdAt) :
    let e := run ex.recorded (Engine.new cfg (st, []) audit today) ds
    SubmitsBuy ex e ⟨.launch launch, o⟩ → e.Gated launch (clockAfter ds launch.createdAt) := by
  intro e
  have hclock : clockAfter ds launch.createdAt = launch.createdAt :=
    le_antisymm (clockAfter_le (le_refl _) hlatest) (le_clockAfter ds _)
  have hkeyed : e.Keyed := (keyed_new cfg (st, []) audit today).run ex.recorded ds
  rw [hclock]
  apply (submitsBuy_gated_iff hkeyed ex launch o launch.createdAt).mpr
  intro _
  rw [sub_self]
  exact Int.natCast_nonneg _

/-- A launch that arrives a thousand seconds behind the last tick is bought, under a
limit of six hundred. -/
theorem late_launch_bought :
    let e := run Executor.oneToken.recorded
      (Engine.new .paperDefaults ((), []) (.opened fun _ => true) 0) [priceAt "B" 1000 1]
    let now := clockAfter [priceAt "B" 1000 1] (freshLaunch "A" 0 1).createdAt
    Config.paperDefaults.Accepted ∧ SubmitsBuy Executor.oneToken e (launchAt "A" 0 1) ∧
      ¬ e.Gated (freshLaunch "A" 0 1) now := by
  intro e now
  have hage : ¬ numSeconds (now - (freshLaunch "A" 0 1).createdAt) ≤
      e.cfg.entryMaxAgeSecs.toNat := by decide +kernel
  exact ⟨Config.paperDefaults_accepted, by unfold SubmitsBuy; decide +kernel,
    fun hgated => hage hgated.age⟩

end Engine

end HfmcBot
