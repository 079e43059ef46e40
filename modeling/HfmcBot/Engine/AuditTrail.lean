import HfmcBot.Engine.ExitRecords

/-!
# Orders in the audit log

The engine writes an order record next to the fill record, so only for orders
that were filled: an order that was rejected or whose state is unknown leaves a
decision record without its id (`order_failed`) or none of its own
(`exit_failed`).

* `Logs`: the order ids in a log that takes every append;
* `logged_run`: they are the ids of the filled orders, in order, in every run;
* `Numbered.nodup`: the submitted ids are all different;
* `audit_complete_iff`: so the log names the submitted orders exactly when every
  one of them was filled.
-/

namespace HfmcBot

open Foundation

/-- The id in an order record. -/
def AuditRecord.orderIdOf : AuditRecord → Option String
  | .order _ orderId _ _ _ _ => some orderId
  | _ => none

/-- The ids of the order records, oldest first. -/
def AuditLog.orderIds (log : AuditLog) : List String := log.lines.filterMap AuditRecord.orderIdOf

/-- The ids of the orders that were filled. -/
def filledIds (orders : List Sent) : List String :=
  (orders.filter Sent.filled).map fun s => s.order.orderId

theorem filledIds_append (orders orders' : List Sent) :
    filledIds (orders ++ orders') = filledIds orders ++ filledIds orders' := by
  rw [filledIds, List.filter_append, List.map_append]
  rfl

namespace Engine

variable {σ : Type}

/-- The log takes every append and its order records carry the given ids. -/
structure Logs (ids : List String) (e : Engine σ) : Prop where
  reliable : e.audit.Reliable
  ids_eq : e.audit.orderIds = ids

theorem Logs.appendAudit {ids : List String} {e : Engine σ} (h : Logs ids e)
    (record : AuditRecord) : Logs (ids ++ record.orderIdOf.toList) (e.appendAudit record) where
  reliable := h.reliable.append record
  ids_eq := by
    change (e.audit.append record).lines.filterMap _ = _
    rw [h.reliable.lines_append, List.filterMap_append, ← h.ids_eq]
    cases hid : record.orderIdOf with
    | none => rw [List.filterMap_cons_none hid]; rfl
    | some orderId => rw [List.filterMap_cons_some hid]; rfl

theorem Logs.note {ids : List String} {e : Engine σ} (h : Logs ids e) {record : AuditRecord}
    (hnone : record.orderIdOf = none) : Logs ids (e.appendAudit record) := by
  have happend := h.appendAudit record
  rw [hnone, Option.toList_none, List.append_nil] at happend
  exact happend

theorem Logs.auditDecision {ids : List String} {e : Engine σ} (h : Logs ids e) (now : DateTime)
    (mint : Mint) (action : String) (detail : Text) :
    Logs ids (e.auditDecision now mint action detail) :=
  h.note rfl

theorem Logs.alert {ids : List String} {e : Engine σ} (h : Logs ids e) (kind : AlertKind)
    (detail : Text) : Logs ids (e.alert kind detail) := ⟨h.reliable, h.ids_eq⟩

/-- Records that are written under a condition. -/
theorem Logs.ite {ids : List String} {e e' : Engine σ} (h : Logs ids e) (h' : Logs ids e')
    {c : Prop} [Decidable c] : Logs ids (if c then e' else e) := by
  split
  · exact h'
  · exact h

theorem Logs.alertIf {ids : List String} {e : Engine σ} (h : Logs ids e) (kind : AlertKind)
    (detail : Text) {c : Prop} [Decidable c] : Logs ids (if c then e.alert kind detail else e) :=
  h.ite (h.alert kind detail)

/-- Only the log counts. -/
theorem Logs.of_audit {ids : List String} {e e' : Engine σ} (h : Logs ids e)
    (haudit : e'.audit = e.audit) : Logs ids e' := by
  obtain ⟨h1, h2⟩ := h
  rw [← haudit] at h1 h2
  exact ⟨h1, h2⟩

/-! ## The two orders -/

theorem Logs.buyFailed {ids : List String} {e : Engine σ} (h : Logs ids e) (now : DateTime)
    (mint : Mint) (orderId : String) (err : ExecError) :
    Logs ids (e.buyFailed now mint orderId err) := by
  unfold Engine.buyFailed
  exact (h.alertIf _ _).auditDecision _ _ _ _

/-- Only the ids in what is written count. -/
theorem Logs.append {ids new : List String} {e e' : Engine σ} (h : Logs ids e)
    (hlogged : e'.Logged) {records : List AuditRecord}
    (hlines : e'.audit.lines = e.audit.lines ++ records)
    (hnew : records.filterMap AuditRecord.orderIdOf = new) : Logs (ids ++ new) e' where
  reliable := hlogged
  ids_eq := by
    change e'.audit.lines.filterMap AuditRecord.orderIdOf = _
    rw [hlines, List.filterMap_append, hnew, ← h.ids_eq]
    rfl

theorem Logs.exitFailed {ids : List String} {e : Engine σ} (h : Logs ids e) (now : DateTime)
    (x : ExitArgs) (err : ExecError) : Logs ids (e.exitFailed now x.mint x.mode err) := by
  have hkept : Logs (ids ++ []) (e.exitFailed now x.mint x.mode err) :=
    h.append (exitFailed_logged x now err h.reliable) (exitFailed_records x now err h.reliable)
      (by split <;> rfl)
  rw [List.append_nil] at hkept
  exact hkept

theorem Logs.exitFilled {ids : List String} {e : Engine σ} (h : Logs ids e) (now : DateTime)
    (x : ExitArgs) (orderId : String) (fill : Fill) :
    Logs (ids ++ [orderId]) (e.exitFilled now x orderId fill) :=
  h.append (exitFilled_logged x now orderId fill h.reliable)
    (exitFilled_records x now orderId fill h.reliable) (by split <;> rfl)

/-- The answer of a recorded order decides whether its id joins the filled
ones. -/
theorem filledIds_concat (orders : List Sent) (order : Order) (answer : Answer) :
    filledIds (orders ++ [⟨order, answer⟩]) =
      match answer with
      | .ok _ => filledIds orders ++ [order.orderId]
      | .error _ => filledIds orders := by
  rw [filledIds_append]
  cases answer with
  | ok fill => rfl
  | error err => exact List.append_nil _

/-- A slice logs its id if it was filled. -/
theorem Logs.sendSlice {e : Engine (σ × List Sent)} (h : Logs (filledIds e.sent) e)
    (ex : Executor σ) (launch : Launch) (deadline : DateTime) (slice : Decimal) :
    Logs (filledIds (e.sendSlice ex.recorded launch deadline slice).1.sent)
      (e.sendSlice ex.recorded launch deadline slice).1 := by
  have hlog := recorded_buy_log ex
    (sliceRequest launch deadline slice (e.nextOrderId launch.mint).1) e.exec
  rcases hbuy : ex.recorded.buy
    (sliceRequest launch deadline slice (e.nextOrderId launch.mint).1) e.exec with ⟨err | fill, st⟩
  · rw [hbuy] at hlog
    have hids : filledIds st.2 = filledIds e.sent :=
      (congrArg filledIds hlog).trans (filledIds_concat _ _ _)
    have hsent : ((e.submitted st).buyFailed launch.createdAt launch.mint
        (e.nextOrderId launch.mint).1 err).sent = st.2 :=
      sent_of_trading (trading_buyFailed _ _ _ _ _)
    have hsubmitted : Logs (filledIds e.sent) (e.submitted st) := h.of_audit rfl
    rw [sendSlice_failed hbuy, hsent, hids]
    exact hsubmitted.buyFailed _ _ _ _
  · rw [hbuy] at hlog
    have hids : filledIds st.2 = filledIds e.sent ++ [(e.nextOrderId launch.mint).1] :=
      (congrArg filledIds hlog).trans (filledIds_concat _ _ _)
    rw [sendSlice_filled hbuy]
    change Logs (filledIds st.2) _
    rw [hids]
    have hbooked : Logs (filledIds e.sent)
        ((e.submitted st).applyBuyFill fill launch.launchpad launch.liquidityUsd) :=
      h.of_audit rfl
    exact (hbooked.appendAudit (.order launch.createdAt (e.nextOrderId launch.mint).1 launch.mint
      "buy" slice launch.priceUsd)).note rfl

/-- An exit logs its id if it was filled. -/
theorem Logs.closePosition {e : Engine (σ × List Sent)} (h : Logs (filledIds e.sent) e)
    (ex : Executor σ) (x : ExitArgs) (now : DateTime) :
    Logs (filledIds (e.closePosition ex.recorded x now).sent)
      (e.closePosition ex.recorded x now) := by
  have hlog := recorded_sell_log ex (sellRequest x now (e.nextOrderId x.mint).1) e.exec
  rcases hsell : ex.recorded.sell (sellRequest x now (e.nextOrderId x.mint).1) e.exec
    with ⟨err | fill, st⟩
  · rw [hsell] at hlog
    have hids : filledIds st.2 = filledIds e.sent :=
      (congrArg filledIds hlog).trans (filledIds_concat _ _ _)
    have hsent : (((e.withRisk (e.risk.pushOrder now)).submitted st).exitFailed now x.mint x.mode
        err).sent = st.2 :=
      sent_of_trading (trading_exitFailed _ _ _ _ _)
    have hsubmitted : Logs (filledIds e.sent)
        ((e.withRisk (e.risk.pushOrder now)).submitted st) := h.of_audit rfl
    rw [closePosition_failed hsell, hsent, hids]
    exact hsubmitted.exitFailed now x err
  · rw [hsell] at hlog
    have hids : filledIds st.2 = filledIds e.sent ++ [(e.nextOrderId x.mint).1] :=
      (congrArg filledIds hlog).trans (filledIds_concat _ _ _)
    have hsent : (((e.withRisk (e.risk.pushOrder now)).submitted st).exitFilled now x
        (e.nextOrderId x.mint).1 fill).sent = st.2 :=
      sent_of_trading (trading_exitFilled _ _ _ _ _)
    have hsubmitted : Logs (filledIds e.sent)
        ((e.withRisk (e.risk.pushOrder now)).submitted st) := h.of_audit rfl
    rw [closePosition_filled hsell, hsent, hids]
    exact hsubmitted.exitFilled _ _ _ _

/-- Every small step keeps the log in line with the filled orders. -/
theorem Step.logs {ex : Executor σ} {ev : Event} {phase : Phase} {e e' : Engine (σ × List Sent)}
    (hstep : Step ex.recorded ev phase e e') (h : Logs (filledIds e.sent) e) :
    Logs (filledIds e'.sent) e' := by
  cases hstep with
  | note e mint action detail => exact h.auditDecision _ _ _ _
  | refresh e => exact h.of_audit rfl
  | slice e launch budgetUsd hev hopen hwindow hroom =>
      have hgranted : Logs (filledIds e.sent)
          (e.withRisk ((e.risk.refresh launch.createdAt).pushOrder launch.createdAt)) :=
        h.of_audit rfl
      exact hgranted.sendSlice _ _ _ _
  | tick e p pos hev hpos hstay => exact h.of_audit rfl
  | tickExit e p pos d hev hpos hexit =>
      have hticked : Logs (filledIds e.sent) (e.ticked p pos) := h.of_audit rfl
      exact hticked.closePosition _ _ _
  | timeExit e pos x hpos hdue => exact h.closePosition _ _ _
  | page e kind detail => exact h.alert _ _

/-- After every run the order records name the filled orders, in order. -/
theorem logged_run (cfg : Config) (ex : Executor σ) (st : σ) (today : Int) (ds : List Delivery) :
    (run ex.recorded (Engine.new cfg (st, []) (.opened fun _ => true) today) ds).audit.orderIds =
      filledIds (run ex.recorded (Engine.new cfg (st, []) (.opened fun _ => true) today)
        ds).sent := by
  let start : Engine (σ × List Sent) := Engine.new cfg (st, []) (.opened fun _ => true) today
  have hstart : Logs (filledIds start.sent) start := ⟨fun _ => rfl, rfl⟩
  have hlogs := run_of_steps (P := fun e : Engine (σ × List Sent) => Logs (filledIds e.sent) e)
    (fun _ _ _ _ (hstep : Step ex.recorded _ _ _ _) _ h => hstep.logs h) (keyed_new _ _ _ _)
    hstart ds
  exact hlogs.ids_eq

/-! ## All ids are different -/

/-- What follows the last separator is determined by the whole. -/
theorem eq_of_append_sep {α : Type} {sep : α} {as bs xs ys : List α} (hx : sep ∉ xs)
    (hy : sep ∉ ys) (h : as ++ sep :: xs = bs ++ sep :: ys) : xs = ys := by
  rcases List.append_eq_append_iff.mp h with ⟨mid, -, hmid⟩ | ⟨mid, -, hmid⟩
  · cases mid with
    | nil => exact (List.cons.inj hmid).2
    | cons c mid =>
        have hmem : sep ∈ xs := by
          rw [(List.cons.inj hmid).2]
          simp
        exact absurd hmem hx
  · cases mid with
    | nil => exact (List.cons.inj hmid).2.symm
    | cons c mid =>
        have hmem : sep ∈ ys := by
          rw [(List.cons.inj hmid).2]
          simp
        exact absurd hmem hy

/-- An order id determines its sequence number, whatever the mint looks like. -/
theorem seq_of_orderId {mint mint' : Mint} {n n' : Nat}
    (h : mint ++ "#" ++ toString n = mint' ++ "#" ++ toString n') : n = n' := by
  have hdigits : ∀ k : Nat, (toString k).toList = Nat.toDigits 10 k := fun k => Nat.toList_repr
  have hnosep : ∀ k : Nat, '#' ∉ Nat.toDigits 10 k := by
    intro k hk
    have hdigit := Nat.isDigit_of_mem_toDigits (by decide) (by decide) hk
    exact absurd hdigit (by decide)
  have hlist := congrArg String.toList h
  rw [String.toList_append, String.toList_append, String.toList_append, String.toList_append,
    hdigits, hdigits, List.append_assoc, List.append_assoc] at hlist
  have hsuffix := eq_of_append_sep (hnosep n) (hnosep n') hlist
  have hvalue := congrArg (fun ds => Nat.ofDigitChars 10 ds 0) hsuffix
  simp only [Nat.ofDigitChars_toDigits (by decide : 1 < 10) (by decide : 10 ≤ 10)] at hvalue
  exact hvalue

/-- The ids count up with the history. -/
structure Numbered (e : Engine (σ × List Sent)) : Prop where
  seq : e.orderSeq = e.sent.length
  ids : ∀ i s, e.sent[i]? = some s → s.order.orderId = s.order.mint ++ "#" ++ toString (i + 1)

theorem Step.numbered {ex : Executor σ} {ev : Event} {phase : Phase}
    {e e' : Engine (σ × List Sent)} (hstep : Step ex.recorded ev phase e e') (h : e.Numbered) :
    e'.Numbered := by
  rcases hstep.sent_cases with ⟨hsent, hseq⟩ | ⟨s, hsent, hseq, -, hid, -⟩
  · refine ⟨by rw [hseq, hsent, h.seq], ?_⟩
    rw [hsent]
    exact h.ids
  · refine ⟨by rw [hseq, hsent, h.seq, List.length_append, List.length_singleton], ?_⟩
    intro i s' hi
    rw [hsent] at hi
    rcases lt_or_ge i e.sent.length with hlt | hge
    · rw [List.getElem?_append_left hlt] at hi
      exact h.ids i s' hi
    · rw [List.getElem?_append_right hge] at hi
      obtain ⟨hzero, rfl⟩ : i - e.sent.length = 0 ∧ s = s' := by
        rw [List.getElem?_singleton] at hi
        split at hi
        · rename_i hzero
          exact ⟨hzero, Option.some.inj hi⟩
        · exact absurd hi (by simp)
      have hlast : e.sent.length = i := by omega
      rw [hid, nextOrderId, h.seq, hlast]

theorem Numbered.nodup {e : Engine (σ × List Sent)} (h : e.Numbered) :
    (e.sent.map fun s => s.order.orderId).Nodup := by
  rw [List.nodup_iff_getElem?_ne_getElem?]
  intro i j hij hj heq
  rw [List.getElem?_map, List.getElem?_map] at heq
  rw [List.length_map] at hj
  have hi : i < e.sent.length := hij.trans hj
  rw [List.getElem?_eq_getElem hi, List.getElem?_eq_getElem hj] at heq
  have hids : e.sent[i].order.orderId = e.sent[j].order.orderId := Option.some.inj heq
  rw [h.ids i _ (List.getElem?_eq_getElem hi), h.ids j _ (List.getElem?_eq_getElem hj)] at hids
  have hseq := seq_of_orderId hids
  omega

theorem numbered_run (cfg : Config) (ex : Executor σ) (st : σ) (audit : AuditLog) (today : Int)
    (ds : List Delivery) : (run ex.recorded (Engine.new cfg (st, []) audit today) ds).Numbered :=
  run_of_steps (fun _ _ _ _ (hstep : Step ex.recorded _ _ _ _) _ h => hstep.numbered h)
    (keyed_new _ _ _ _) ⟨rfl, by simp [sent, Engine.new]⟩ ds

/-! ## Completeness -/

/-- The order records name the submitted orders, each once. -/
def AuditComplete (e : Engine (σ × List Sent)) : Prop :=
  e.audit.orderIds.Nodup ∧
    ∀ orderId, orderId ∈ e.audit.orderIds ↔ orderId ∈ e.sent.map fun s => s.order.orderId

/-- **When the audit log is complete.**  In every run, with a log that takes
every append, the order records name exactly the submitted orders if and only if
every order submitted so far was filled. -/
theorem audit_complete_iff (cfg : Config) (ex : Executor σ) (st : σ) (today : Int)
    (ds : List Delivery) :
    let e := run ex.recorded (Engine.new cfg (st, []) (.opened fun _ => true) today) ds
    e.AuditComplete ↔ ∀ s ∈ e.sent, s.filled = true := by
  intro e
  have hlogged : e.audit.orderIds = filledIds e.sent := logged_run cfg ex st today ds
  have hnodup := (numbered_run cfg ex st (.opened fun _ => true) today ds).nodup
  constructor
  · rintro ⟨-, hmem⟩ s hs
    have hid : s.order.orderId ∈ filledIds e.sent := by
      rw [← hlogged, hmem]
      exact List.mem_map_of_mem hs
    obtain ⟨s', hs', hsame⟩ := List.mem_map.mp hid
    obtain ⟨hs'mem, hfilled⟩ := List.mem_filter.mp hs'
    rw [← List.inj_on_of_nodup_map hnodup hs'mem hs hsame]
    exact hfilled
  · intro hall
    have hids : e.audit.orderIds = e.sent.map fun s => s.order.orderId := by
      rw [hlogged, filledIds, List.filter_eq_self.mpr hall]
    rw [AuditComplete, hids]
    exact ⟨hnodup, fun _ => Iff.rfl⟩

/-- A rejected exit: the fourth order is submitted and leaves no order record. -/
theorem audit_incomplete_after_rejection :
    ¬ (run Executor.deadPool.recorded
      (Engine.new .paperDefaults ((), []) (.opened fun _ => true) 0)
      [launchAt "A" 0 1, priceAt "A" 1 (1 / 2)]).AuditComplete := by
  rintro ⟨-, hmem⟩
  have hid := (hmem "A#4").mpr (by decide +kernel)
  exact absurd hid (by decide +kernel)

end Engine

end HfmcBot
