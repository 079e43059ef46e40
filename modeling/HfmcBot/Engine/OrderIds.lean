import HfmcBot.Engine.AuditTrail
import HfmcBot.Engine.Resubmission
import HfmcBot.Engine.Snapshot

/-!
# Order ids across crashes

The id of an order is its mint and the order counter, and the counter is part of
the snapshot.  A crash takes the counter back to the last save, the orders sent
since then stay with the exchange.

* `Order.Carries.eq_of_id`: an id determines mint and number, whatever the mint
  looks like;
* `Steps.numbered_orders`: the orders of one phase carry fresh numbers;
* `ids_distinct_of_clear`: ids stay distinct over events that send nothing for a
  mint with a number still ahead of the counter;
* `sale_repeats_id`: after a crash the sale of a restored position carries an id
  that was used before.
-/

namespace HfmcBot

open Foundation

/-- The id is the mint with this number. -/
def Order.Carries (order : Order) (n : Nat) : Prop :=
  order.orderId = order.mint ++ "#" ++ toString n

theorem Order.Carries.eq_of_id {order order' : Order} {n n' : Nat} (h : order.Carries n)
    (h' : order'.Carries n') (hid : order.orderId = order'.orderId) :
    order.mint = order'.mint ∧ n = n' := by
  unfold Order.Carries at h h'
  rw [h, h'] at hid
  obtain rfl := Engine.seq_of_orderId hid
  have hlist := congrArg String.toList hid
  simp only [String.toList_append, List.append_assoc] at hlist
  exact ⟨String.toList_inj.mp (List.append_cancel_right hlist), rfl⟩

namespace Engine

variable {σ : Type}

/-- The ids of the submitted orders. -/
def orderIds (e : Engine (σ × List Sent)) : List String := e.sent.map fun s => s.order.orderId

/-- A submitted order with a number the counter has not reached: a crash took the
counter back. -/
def Ahead (e : Engine (σ × List Sent)) (s : Sent) : Prop := ∃ n, e.orderSeq < n ∧ s.order.Carries n

/-- No id is used twice, and every id is one of `next_order_id`. -/
structure DistinctIds (e : Engine (σ × List Sent)) : Prop where
  nodup : e.orderIds.Nodup
  carries : ∀ s ∈ e.sent, ∃ n, s.order.Carries n

/-- The new orders between two states: numbered between the two counters, each
with an id of its own. -/
structure NumberedOrders (e e' : Engine (σ × List Sent)) (new : List Sent) : Prop where
  sent : e'.sent = e.sent ++ new
  counter : e.orderSeq ≤ e'.orderSeq
  nodup : (new.map fun s => s.order.orderId).Nodup
  between : ∀ s ∈ new, ∃ n, s.order.Carries n ∧ e.orderSeq < n ∧ n ≤ e'.orderSeq

theorem Steps.numbered_orders {ex : Executor σ} {ev : Event} {phase : Phase}
    {e e' : Engine (σ × List Sent)} (hsteps : Steps ex.recorded ev phase e e') :
    ∃ new, NumberedOrders e e' new := by
  refine steps_invariant (P := fun e' : Engine (σ × List Sent) => ∃ new, NumberedOrders e e' new)
    ?_ hsteps ⟨[], (List.append_nil _).symm, le_refl _, List.nodup_nil, by simp⟩
  rintro a b hab ⟨new, h⟩
  rcases hab.sent_cases with ⟨hsent, hseq⟩ | ⟨s, hsent, hseq, -, hid, -⟩
  · refine ⟨new, hsent.trans h.sent, by rw [hseq]; exact h.counter, h.nodup, ?_⟩
    rw [hseq]
    exact h.between
  · have hcarries : s.order.Carries (a.orderSeq + 1) := hid
    have hcounter := h.counter
    refine ⟨new ++ [s], by rw [hsent, h.sent, List.append_assoc], by omega, ?_, ?_⟩
    · rw [List.map_append, List.map_singleton, List.nodup_append]
      refine ⟨h.nodup, List.nodup_singleton _, ?_⟩
      rintro x hx y hy rfl
      obtain ⟨old, hold, hsame⟩ := List.mem_map.mp hx
      obtain ⟨n, hn, -, hle⟩ := h.between old hold
      -- an older number is at most the counter, the new one is above it
      have heq := (hn.eq_of_id hcarries (hsame.trans (List.mem_singleton.mp hy))).2
      omega
    · intro t ht
      rcases List.mem_append.mp ht with hold | hlast
      · obtain ⟨n, hn, hlt, hle⟩ := h.between t hold
        exact ⟨n, hn, hlt, by omega⟩
      · rw [List.mem_singleton.mp hlast]
        exact ⟨a.orderSeq + 1, hcarries, by omega, by omega⟩

/-- New orders keep the ids distinct if none of them is for a mint with a number
ahead of the counter. -/
theorem DistinctIds.append {e e' : Engine (σ × List Sent)} {new : List Sent}
    (h : e.DistinctIds) (hnew : NumberedOrders e e' new)
    (hclear : ∀ old ∈ e.sent, e.Ahead old → ∀ s ∈ new, s.order.mint ≠ old.order.mint) :
    e'.DistinctIds := by
  constructor
  · unfold orderIds
    rw [hnew.sent, List.map_append, List.nodup_append]
    refine ⟨h.nodup, hnew.nodup, ?_⟩
    rintro x hx y hy rfl
    obtain ⟨old, hold, hsame⟩ := List.mem_map.mp hx
    obtain ⟨s, hs, hsame'⟩ := List.mem_map.mp hy
    obtain ⟨n, hn, hlt, -⟩ := hnew.between s hs
    obtain ⟨m, hm⟩ := h.carries old hold
    obtain ⟨hmint, rfl⟩ := hn.eq_of_id hm (hsame'.trans hsame.symm)
    exact hclear old hold ⟨n, hlt, hm⟩ s hs hmint
  · intro s hs
    rw [hnew.sent] at hs
    rcases List.mem_append.mp hs with hold | hlast
    · exact h.carries s hold
    · obtain ⟨n, hn, -⟩ := hnew.between s hlast
      exact ⟨n, hn⟩

/-- Neither the handler of an event nor its sweep sends an order for a mint with a
number ahead of the counter. -/
structure Clear (ex : Executor σ) (e : Engine (σ × List Sent)) (d : Delivery) : Prop where
  handler : ∀ s ∈ e.sent, e.Ahead s → s.order.mint = d.ev.mint → ¬ e.HandlerSends d.ev
  sweep : ∀ s ∈ (e.handle ex.recorded d.ev).sent, (e.handle ex.recorded d.ev).Ahead s →
    ¬ (e.handle ex.recorded d.ev).SweepSells d.ts s.order.mint

theorem DistinctIds.handle {ex : Executor σ} {e : Engine (σ × List Sent)} (h : e.DistinctIds)
    (hkeyed : e.Keyed) {ev : Event}
    (hclear : ∀ s ∈ e.sent, e.Ahead s → s.order.mint = ev.mint → ¬ e.HandlerSends ev) :
    (e.handle ex.recorded ev).DistinctIds := by
  obtain ⟨new, hnew⟩ := Steps.numbered_orders (handle_steps ex.recorded e ev)
  obtain ⟨orders, hsent, hmint, -, hsends⟩ := handle_log ex hkeyed ev
  obtain rfl : orders = new := List.append_cancel_left (hsent.symm.trans hnew.sent)
  refine h.append hnew fun old hold hahead s hs hsame => ?_
  have hev : old.order.mint = ev.mint := hsame.symm.trans (hmint s hs)
  exact hclear old hold hahead hev (hsends.mp (List.ne_nil_of_mem hs))

theorem DistinctIds.sweep {ex : Executor σ} {e : Engine (σ × List Sent)} (h : e.DistinctIds)
    (hkeyed : e.Keyed) (o : KeyOrder Mint) {ev : Event}
    (hclear : ∀ s ∈ e.sent, e.Ahead s → ¬ e.SweepSells ev.ts s.order.mint) :
    (e.sweepTimeStops ex.recorded o ev.ts).DistinctIds := by
  obtain ⟨new, hnew⟩ := Steps.numbered_orders (sweepTimeStops_steps ex.recorded o ev hkeyed)
  obtain ⟨orders, hsent, -, hdue⟩ := sweep_log ex o hkeyed ev.ts
  obtain rfl : orders = new := List.append_cancel_left (hsent.symm.trans hnew.sent)
  refine h.append hnew fun old hold hahead s hs hsame => ?_
  exact hclear old hold hahead ((hdue _).mp ⟨s, hs, hsame⟩)

theorem DistinctIds.deliver {ex : Executor σ} {e : Engine (σ × List Sent)} (h : e.DistinctIds)
    (hkeyed : e.Keyed) {d : Delivery} (hclear : Clear ex e d) :
    (e.deliver ex.recorded d).DistinctIds := by
  have hhandled : (e.handle ex.recorded d.ev).DistinctIds := h.handle hkeyed hclear.handler
  have hswept : ((e.handle ex.recorded d.ev).sweepTimeStops ex.recorded d.order
      d.ev.ts).DistinctIds :=
    hhandled.sweep ((handle_steps ex.recorded e d.ev).keyed hkeyed) d.order hclear.sweep
  have hexec := (fields_of_trading (trading_onEvent ex.recorded d.order e d.ev)).exec
  have hsent : (e.deliver ex.recorded d).sent =
      ((e.handle ex.recorded d.ev).sweepTimeStops ex.recorded d.order d.ev.ts).sent :=
    congrArg Prod.snd hexec
  constructor
  · unfold orderIds
    rw [hsent]
    exact hswept.nodup
  · rw [hsent]
    exact hswept.carries

/-- No number is ahead of the counter: no order was lost, or the counter has caught
up. -/
def CaughtUp (e : Engine (σ × List Sent)) : Prop :=
  ∀ s ∈ e.sent, ∃ n, n ≤ e.orderSeq ∧ s.order.orderId = s.order.mint ++ "#" ++ toString n

instance (e : Engine (σ × List Sent)) : Decidable e.CaughtUp := by
  unfold CaughtUp
  infer_instance

theorem CaughtUp.not_ahead {e : Engine (σ × List Sent)} (h : e.CaughtUp) {s : Sent}
    (hs : s ∈ e.sent) : ¬ e.Ahead s := by
  rintro ⟨m, hlt, hm⟩
  obtain ⟨n, hle, hn⟩ := h s hs
  have heq := (hm.eq_of_id hn rfl).2
  omega

/-- An engine that has caught up may take any event. -/
theorem CaughtUp.clear {ex : Executor σ} {e : Engine (σ × List Sent)} (h : e.CaughtUp)
    (d : Delivery) : Clear ex e d := by
  obtain ⟨new, hnew⟩ := Steps.numbered_orders (handle_steps ex.recorded e d.ev)
  have hhandled : (e.handle ex.recorded d.ev).CaughtUp := by
    intro s hs
    rw [hnew.sent] at hs
    rcases List.mem_append.mp hs with hold | hlast
    · obtain ⟨n, hle, hn⟩ := h s hold
      exact ⟨n, hle.trans hnew.counter, hn⟩
    · obtain ⟨n, hn, -, hle⟩ := hnew.between s hlast
      exact ⟨n, hle, hn⟩
  exact ⟨fun s hs hahead => absurd hahead (h.not_ahead hs),
    fun s hs hahead => absurd hahead (hhandled.not_ahead hs)⟩

end Engine

/-! ## The process -/

/-- The engine and the last snapshot that reached the disk.  `up` is false after a
refused boot. -/
structure Process (σ : Type) where
  engine : Engine (σ × List Sent)
  saved : Option EngineState
  up : Bool

/-- What happens to a process.  A crash is followed by a boot, with whatever
configuration, executor state, audit log and day the boot finds. -/
inductive ProcessAct (σ : Type)
  | event (d : Delivery)
  | save (o : KeyOrder Mint)
  | crash (cfg : Config) (st : σ) (audit : AuditLog) (today : Int) (load : KeyOrder Mint)

/-- The engine of a boot.  Without a snapshot it starts fresh.  A snapshot that
fails the money checks stops a live boot; paper then starts flat. -/
def boot {σ : Type} (cfg : Config) (st : σ) (audit : AuditLog) (today : Int) (load : KeyOrder Mint)
    (resume : Option EngineState) : Option (Engine σ) :=
  match resume with
  | none => some (Engine.new cfg st audit today)
  | some snap =>
      match Engine.restore cfg st audit today load snap with
      | .ok e => some e
      | .error _ => if cfg.mode = .live then none else some (Engine.new cfg st audit today)

namespace Process

variable {σ : Type}

def start (cfg : Config) (st : σ) (audit : AuditLog) (today : Int) : Process σ :=
  ⟨Engine.new cfg (st, []) audit today, none, true⟩

/-- One act.  The exchange keeps the orders it was sent, also over a crash. -/
def act (ex : Executor σ) (p : Process σ) : ProcessAct σ → Process σ
  | .event d => if p.up then { p with engine := p.engine.deliver ex.recorded d } else p
  | .save o => if p.up then { p with saved := some (p.engine.state o) } else p
  | .crash cfg st audit today load =>
      match boot cfg (st, p.engine.sent) audit today load p.saved with
      | some e => { p with engine := e, up := true }
      | none => { p with up := false }

/-- The act is no event that sends an order for a mint with a number ahead of the
counter. -/
def Clear (ex : Executor σ) (p : Process σ) : ProcessAct σ → Prop
  | .event d => p.up = true → Engine.Clear ex p.engine d
  | .save _ => True
  | .crash .. => True

end Process

theorem boot_cases {σ : Type} {cfg : Config} {st : σ} {audit : AuditLog} {today : Int}
    {load : KeyOrder Mint} {resume : Option EngineState} {e : Engine σ}
    (h : boot cfg st audit today load resume = some e) : e.exec = st ∧ e.Keyed := by
  have hnew : e = Engine.new cfg st audit today → e.exec = st ∧ e.Keyed := by
    rintro rfl
    exact ⟨rfl, Engine.keyed_new cfg st audit today⟩
  unfold boot at h
  split at h
  · exact hnew (Option.some.inj h).symm
  · split at h
    · rename_i hrestore
      obtain rfl := Option.some.inj h
      rw [Engine.restore_eq_ok hrestore]
      exact ⟨rfl, Engine.keyed_bookOf _⟩
    · split at h
      · exact absurd h (by simp)
      · exact hnew (Option.some.inj h).symm

namespace Process

variable {σ : Type}

/-- A crash leaves the orders where they are, and takes the counter anywhere. -/
theorem act_distinct {ex : Executor σ} {p : Process σ} {a : ProcessAct σ} (hclear : p.Clear ex a)
    (h : p.engine.Keyed ∧ p.engine.DistinctIds) :
    (p.act ex a).engine.Keyed ∧ (p.act ex a).engine.DistinctIds := by
  obtain ⟨hkeyed, hids⟩ := h
  cases a with
  | event d =>
      unfold act
      dsimp only
      split
      · rename_i hup
        exact ⟨hkeyed.deliver _ d, hids.deliver hkeyed (hclear hup)⟩
      · exact ⟨hkeyed, hids⟩
  | save o =>
      unfold act
      dsimp only
      split
      · exact ⟨hkeyed, hids⟩
      · exact ⟨hkeyed, hids⟩
  | crash cfg st audit today load =>
      unfold act
      dsimp only
      split
      · rename_i e hboot
        obtain ⟨hexec, hbooted⟩ := boot_cases hboot
        have hsent : e.sent = p.engine.sent := (congrArg Prod.snd hexec : _)
        refine ⟨hbooted, ?_, ?_⟩
        · unfold Engine.orderIds
          rw [hsent]
          exact hids.nodup
        · rw [hsent]
          exact hids.carries
      · exact ⟨hkeyed, hids⟩

/-- **When order ids identify orders across crashes.**  In a run of events, saves
and crashes, each crash followed by a boot from the last snapshot, in which no
event sends an order for a mint that has an order with a number ahead of the
counter, no two orders of the whole run carry the same id. -/
theorem ids_distinct_of_clear (cfg : Config) (ex : Executor σ) (st : σ) (audit : AuditLog)
    (today : Int) (acts : List (ProcessAct σ))
    (hclear : Along (act ex) (Clear ex) (start cfg st audit today) acts) :
    (acts.foldl (act ex) (start cfg st audit today)).engine.orderIds.Nodup := by
  have hstart : (start cfg st audit today).engine.Keyed ∧
      (start cfg st audit today).engine.DistinctIds := by
    refine ⟨Engine.keyed_new _ _ _ _, List.nodup_nil, fun s hs => ?_⟩
    exact absurd hs (List.not_mem_nil)
  exact (run_invariant_along (P := fun p : Process σ => p.engine.Keyed ∧ p.engine.DistinctIds)
    (fun _ _ hC hP => act_distinct hC hP) hstart hclear).2.nodup

/-- The default paper process, before its first event. -/
def onPaper : Process Unit := start Config.paperDefaults () (.opened fun _ => true) 0

def paperCrash : ProcessAct Unit :=
  .crash Config.paperDefaults () (.opened fun _ => true) 0 .ascending

/-- A tick that stops a position out. -/
def stopOut (secs : Int) : ProcessAct Unit := .event (priceAt "A" secs (1 / 2))

/-- The save comes right before the crash, so the restored engine has caught up. -/
theorem ids_distinct_after_save :
    ([.event (launchAt "A" 0 1), .save .ascending, paperCrash, stopOut 60].foldl
      (act (PaperExecutor.new Config.paperDefaults).executor) onPaper).engine.orderIds.Nodup := by
  refine ids_distinct_of_clear _ _ _ _ _ _ ⟨fun _ => ?_, trivial, trivial, fun _ => ?_, trivial⟩
  · exact Engine.CaughtUp.clear (by decide +kernel) _
  · exact Engine.CaughtUp.clear (by decide +kernel) _

/-- The sale after the last save is lost by the crash, and the restored position is
sold again under the same id. -/
theorem sale_repeats_id :
    Config.paperDefaults.Accepted ∧
      ¬ ([.event (launchAt "A" 0 1), .save .ascending, stopOut 60, paperCrash, stopOut 61].foldl
        (act (PaperExecutor.new Config.paperDefaults).executor) onPaper).engine.orderIds.Nodup :=
  ⟨⟨fun _ => true, by decide +kernel⟩, by decide +kernel⟩

end Process

end HfmcBot
