import HfmcBot.Foundation.FiniteMap
import HfmcBot.Foundation.Runs
import HfmcBot.Types

/-!
# Trade subscriptions

The live loop watches the trades of the mints it holds.  The client remembers
what it has subscribed; the server forgets everything on a disconnect.  The
planning is that of `wsfeed.rs`, the sending that of `liveloop.rs`.

* `planTradeSubs`, `subControlMessages`: what one reconciliation wants to send;
* `Link`, `turn`: the two ends, and one turn of the loop with the outcomes of its
  sends;
* `synced_turn_iff`: a turn keeps the two ends in step exactly if everything it
  sends gets through;
* `synced_run_iff`: so does a run.
-/

namespace HfmcBot

open Foundation

/-! ## Planning -/

/-- A control message with its keys. -/
inductive Control
  | subscribe (keys : List Mint)
  | unsubscribe (keys : List Mint)
  deriving DecidableEq

/-- The loop over the open mints: new ones take the slots that are left. -/
def claimSlots (subscribed : Finset Mint) (cap : Nat) : List Mint → Nat → List Mint
  | [], _ => []
  | m :: rest, used =>
      if cap ≤ used then []
      else if m ∈ subscribed then claimSlots subscribed cap rest used
      else m :: claimSlots subscribed cap rest (used + 1)

/-- Subscription reconciliation: what to subscribe, and what to unsubscribe. -/
def planTradeSubs (openMints : List Mint) (subscribed : Finset Mint) (cap : Nat) :
    List Mint × List Mint :=
  let toUnsub := KeyOrder.ascending.order (subscribed.filter fun m => m ∉ openMints)
  (claimSlots subscribed cap openMints (subscribed.card - toUnsub.length), toUnsub)

/-- At most two messages; unsubscribing goes first, and empty lists send nothing. -/
def subControlMessages (toSub toUnsub : List Mint) : List Control :=
  (if toUnsub ≠ [] then [.unsubscribe toUnsub] else []) ++
    if toSub ≠ [] then [.subscribe toSub] else []

theorem mem_toUnsub {openMints : List Mint} {subscribed : Finset Mint} {cap : Nat} {m : Mint} :
    m ∈ (planTradeSubs openMints subscribed cap).2 ↔ m ∈ subscribed ∧ m ∉ openMints := by
  simp [planTradeSubs]

/-- The slots that are taken before the loop: the subscriptions that are kept. -/
theorem card_kept (openMints : List Mint) (subscribed : Finset Mint) :
    subscribed.card -
        (KeyOrder.ascending.order (subscribed.filter fun m => m ∉ openMints)).length =
      (subscribed.filter fun m => m ∈ openMints).card := by
  have hsplit := Finset.card_filter_add_card_filter_not (s := subscribed) fun m => m ∈ openMints
  rw [KeyOrder.length_order]
  omega

theorem claimSlots_new {subscribed : Finset Mint} {cap : Nat} {mints : List Mint} {used : Nat}
    {m : Mint} (h : m ∈ claimSlots subscribed cap mints used) : m ∉ subscribed := by
  induction mints generalizing used with
  | nil => simp [claimSlots] at h
  | cons first rest ih =>
      unfold claimSlots at h
      split_ifs at h with hfull hold
      · simp at h
      · exact ih h
      · rcases List.mem_cons.mp h with rfl | hlater
        · exact hold
        · exact ih hlater

/-- Only what is not subscribed is subscribed. -/
theorem toSub_new {openMints : List Mint} {subscribed : Finset Mint} {cap : Nat} {m : Mint}
    (h : m ∈ (planTradeSubs openMints subscribed cap).1) : m ∉ subscribed :=
  claimSlots_new h

/-- While there is room for all of them, no new mint is left out. -/
theorem mem_claimSlots {subscribed : Finset Mint} {cap : Nat} {mints : List Mint} {used : Nat}
    {m : Mint} (hroom : used + (mints.filter fun n => n ∉ subscribed).length ≤ cap)
    (hm : m ∈ mints) (hnew : m ∉ subscribed) : m ∈ claimSlots subscribed cap mints used := by
  induction mints generalizing used with
  | nil => simp at hm
  | cons first rest ih =>
      unfold claimSlots
      by_cases hold : first ∈ subscribed
      · have hne : m ≠ first := fun heq => hnew (heq ▸ hold)
        have hrest : m ∈ rest := (List.mem_cons.mp hm).resolve_left hne
        rw [List.filter_cons_of_neg (by simpa using hold)] at hroom
        have hpos : 0 < (rest.filter fun n => n ∉ subscribed).length :=
          List.length_pos_of_mem (List.mem_filter.mpr ⟨hrest, by simpa using hnew⟩)
        rw [if_neg (by omega), if_pos hold]
        exact ih hroom hrest
      · rw [List.filter_cons_of_pos (by simpa using hold), List.length_cons] at hroom
        rw [if_neg (by omega), if_neg hold]
        rcases List.mem_cons.mp hm with rfl | hrest
        · exact List.mem_cons_self
        · exact List.mem_cons_of_mem _ (ih (by omega) hrest)

/-! ## The two ends -/

/-- The client's set, and the server's while the loop is streaming. -/
structure Link where
  subscribed : Finset Mint
  server : Option (Finset Mint)

/-- What a message that arrives does to the server's set. -/
def Control.apply : Control → Finset Mint → Finset Mint
  | .subscribe keys, live => live ∪ keys.toFinset
  | .unsubscribe keys, live => live \ keys.toFinset

/-- Send the messages one by one up to the first failure; `sent i` is the outcome of
the `i`-th. -/
def sendAll (sent : Nat → Bool) : List Control → Nat → Finset Mint → Finset Mint
  | [], _, live => live
  | msg :: rest, i, live => if sent i then sendAll sent rest (i + 1) (msg.apply live) else live

/-- One turn of the live loop.  A connect sends the create subscription and, if
anything is held, the trade subscriptions; an event is followed by `after_event` on
the open mints. -/
inductive Turn
  | connect (creates resubscribe : Bool)
  | event (openMints : Finset Mint) (sent : Nat → Bool)
  | disconnect

namespace Link

/-- Before the first connection. -/
def start : Link := ⟨∅, none⟩

/-- The plan for an open book, sorted by mint. -/
def plan (s : Link) (cap : Nat) (openMints : Finset Mint) : List Mint × List Mint :=
  planTradeSubs (KeyOrder.ascending.order openMints) s.subscribed cap

/-- The messages of that plan. -/
def messages (s : Link) (cap : Nat) (openMints : Finset Mint) : List Control :=
  subControlMessages (s.plan cap openMints).1 (s.plan cap openMints).2

/-- `after_event` on a connection with the given server set.  The plan is committed
whatever became of its messages: the `break` leaves only the loop of the sends. -/
def afterEvent (s : Link) (cap : Nat) (openMints : Finset Mint) (sent : Nat → Bool)
    (live : Finset Mint) : Link where
  subscribed :=
    (s.subscribed \ (s.plan cap openMints).2.toFinset) ∪ (s.plan cap openMints).1.toFinset
  server := some (sendAll sent (s.messages cap openMints) 0 live)

/-- One turn of the loop.  Without a connection no event comes in. -/
def turn (cap : Nat) (s : Link) : Turn → Link
  | .connect false _ => { s with server := none }
  | .connect true resubscribe =>
      let held := KeyOrder.ascending.order s.subscribed
      { s with
        server := some (if held ≠ [] ∧ resubscribe then (Control.subscribe held).apply ∅ else ∅) }
  | .event openMints sent =>
      match s.server with
      | none => s
      | some live => s.afterEvent cap openMints sent live
  | .disconnect => { s with server := none }

/-- Where the loop waits for a message, client and server agree; so the next event
retries every open mint that the server does not watch, as long as all fit. -/
def Synced (cap : Nat) (s : Link) : Prop :=
  ∀ live, s.server = some live → live = s.subscribed ∧
    ∀ openMints : Finset Mint, openMints.card ≤ cap → ∀ m ∈ openMints, m ∉ live →
      m ∈ (s.plan cap openMints).1

/-- Everything the turn sends gets through. -/
def Delivered (cap : Nat) (s : Link) : Turn → Prop
  | .connect creates resubscribe => creates = true → s.subscribed ≠ ∅ → resubscribe = true
  | .event openMints sent =>
      s.server ≠ none → ∀ i < (s.messages cap openMints).length, sent i = true
  | .disconnect => True

/-- Agreement is enough for the retries. -/
theorem synced_iff {cap : Nat} {s : Link} :
    s.Synced cap ↔ ∀ live, s.server = some live → live = s.subscribed := by
  constructor
  · exact fun h live hlive => (h live hlive).1
  · intro h live hlive
    have hagree := h live hlive
    refine ⟨hagree, fun openMints hcard m hm hnew => ?_⟩
    rw [hagree] at hnew
    refine mem_claimSlots ?_ (KeyOrder.mem_order _ |>.mpr hm) hnew
    -- the kept subscriptions and the new mints together are the open book
    have hkept : s.subscribed.card - (KeyOrder.ascending.order
        (s.subscribed.filter fun n => n ∉ KeyOrder.ascending.order openMints)).length =
        (s.subscribed ∩ openMints).card := by
      rw [card_kept, ← Finset.filter_mem_eq_inter]
      simp only [KeyOrder.mem_order]
    have hnewCount : ((KeyOrder.ascending.order openMints).filter
        fun n => n ∉ s.subscribed).length = (openMints \ s.subscribed).card := by
      rw [← List.toFinset_card_of_nodup ((KeyOrder.nodup _ _).filter _)]
      congr 1
      ext n
      simp
    rw [hkept, hnewCount, Finset.inter_comm, Finset.card_inter_add_card_sdiff]
    exact hcard

/-! ## One reconciliation -/

/-- If everything gets through, the server ends up with the committed set. -/
theorem sendAll_messages {s : Link} {cap : Nat} {openMints : Finset Mint} {sent : Nat → Bool}
    (hsent : ∀ i < (s.messages cap openMints).length, sent i = true) :
    sendAll sent (s.messages cap openMints) 0 s.subscribed =
      (s.afterEvent cap openMints sent s.subscribed).subscribed := by
  simp only [messages, subControlMessages, afterEvent] at hsent ⊢
  -- at most two messages, the unsubscribe first
  by_cases hunsub : (s.plan cap openMints).2 = []
  · by_cases hsub : (s.plan cap openMints).1 = []
    · simp [hunsub, hsub, sendAll]
    · simp only [hunsub, hsub, ne_eq, not_true_eq_false, if_false, not_false_eq_true, if_true,
        List.nil_append, List.length_singleton] at hsent ⊢
      simp [sendAll, Control.apply, hsent 0]
  · by_cases hsub : (s.plan cap openMints).1 = []
    · simp only [hunsub, hsub, ne_eq, not_true_eq_false, if_false, not_false_eq_true, if_true,
        List.append_nil, List.length_singleton] at hsent ⊢
      simp [sendAll, Control.apply, hsent 0]
    · simp only [hunsub, hsub, ne_eq, not_false_eq_true, if_true, List.singleton_append,
        List.length_cons, List.length_nil] at hsent ⊢
      simp [sendAll, Control.apply, hsent 0, hsent 1]

/-- If something does not, the server misses it. -/
theorem sendAll_ne {s : Link} {cap : Nat} {openMints : Finset Mint} {sent : Nat → Bool} {i : Nat}
    (hi : i < (s.messages cap openMints).length) (hfail : sent i = false) :
    sendAll sent (s.messages cap openMints) 0 s.subscribed ≠
      (s.afterEvent cap openMints sent s.subscribed).subscribed := by
  -- what the plan drops was watched, what it adds was not
  have hgone : ∀ m ∈ (s.plan cap openMints).2, m ∈ s.subscribed ∧
      m ∉ (s.afterEvent cap openMints sent s.subscribed).subscribed := by
    intro m hm
    have hold := (mem_toUnsub.mp hm).1
    refine ⟨hold, fun hcommitted => ?_⟩
    rcases Finset.mem_union.mp hcommitted with hkept | hnew
    · exact (Finset.mem_sdiff.mp hkept).2 (List.mem_toFinset.mpr hm)
    · exact toSub_new (List.mem_toFinset.mp hnew) hold
  have hcome : ∀ m ∈ (s.plan cap openMints).1, m ∉ s.subscribed ∧
      m ∈ (s.afterEvent cap openMints sent s.subscribed).subscribed := by
    intro m hm
    exact ⟨toSub_new hm, Finset.mem_union_right _ (List.mem_toFinset.mpr hm)⟩
  simp only [messages, subControlMessages] at hi ⊢
  by_cases hunsub : (s.plan cap openMints).2 = []
  · by_cases hsub : (s.plan cap openMints).1 = []
    · simp [hunsub, hsub] at hi
    · simp only [hunsub, hsub, ne_eq, not_true_eq_false, if_false, not_false_eq_true, if_true,
        List.nil_append, List.length_singleton] at hi ⊢
      obtain ⟨m, hm⟩ := List.exists_mem_of_ne_nil _ hsub
      obtain rfl : i = 0 := by omega
      intro heq
      simp only [sendAll, hfail, Bool.false_eq_true, if_false] at heq
      rw [heq] at hcome
      exact (hcome m hm).1 (hcome m hm).2
  · obtain ⟨gone, hgoneMem⟩ := List.exists_mem_of_ne_nil _ hunsub
    cases hfirst : sent 0 with
    | false =>
        -- the unsubscribe is lost: the server still watches what the client dropped
        intro heq
        simp only [hunsub, ne_eq, not_false_eq_true, if_true, List.singleton_append, sendAll,
          hfirst, Bool.false_eq_true, if_false] at heq
        have hboth := hgone gone hgoneMem
        rw [← heq] at hboth
        exact hboth.2 hboth.1
    | true =>
        by_cases hsub : (s.plan cap openMints).1 = []
        · simp only [hunsub, hsub, ne_eq, not_true_eq_false, if_false, not_false_eq_true, if_true,
            List.append_nil, List.length_singleton] at hi
          obtain rfl : i = 0 := by omega
          rw [hfirst] at hfail
          cases hfail
        · -- the subscribe is lost: the server does not watch what the client added
          obtain ⟨m, hm⟩ := List.exists_mem_of_ne_nil _ hsub
          simp only [hunsub, hsub, ne_eq, not_false_eq_true, if_true, List.singleton_append,
            List.length_cons, List.length_nil] at hi ⊢
          obtain rfl : i = 1 := by
            have hne : i ≠ 0 := by
              rintro rfl
              rw [hfirst] at hfail
              cases hfail
            omega
          intro heq
          simp only [sendAll, hfirst, if_true, hfail, Bool.false_eq_true, if_false,
            Control.apply] at heq
          have hin := (hcome m hm).2
          rw [← heq] at hin
          exact (hcome m hm).1 (Finset.mem_sdiff.mp hin).1

/-! ## Turns and runs -/

theorem synced_start (cap : Nat) : start.Synced cap := by
  rw [synced_iff]
  intro live hlive
  cases hlive

/-- A turn keeps the two ends in step exactly if everything it sends gets through. -/
theorem synced_turn_iff (cap : Nat) (s : Link) (t : Turn) (h : s.Synced cap) :
    (s.turn cap t).Synced cap ↔ s.Delivered cap t := by
  rw [synced_iff] at h ⊢
  cases t with
  | connect creates resubscribe =>
      cases creates with
      | false =>
          -- without the create subscription the connection is given up
          refine iff_of_true ?_ fun hcreates => by cases hcreates
          intro live hlive
          cases hlive
      | true =>
          -- the server starts from nothing, so all that is held must be asked for again
          have hheld : KeyOrder.ascending.order s.subscribed ≠ [] ↔ s.subscribed ≠ ∅ := by
            rw [ne_eq, ne_eq, List.eq_nil_iff_forall_not_mem, Finset.eq_empty_iff_forall_notMem]
            simp
          have hset : (KeyOrder.ascending.order s.subscribed).toFinset = s.subscribed := by
            ext m
            simp
          simp only [turn, Delivered, Option.some.injEq, forall_eq', hheld, Control.apply, hset,
            Finset.empty_union, forall_const]
          by_cases hempty : s.subscribed = ∅
          · simp [hempty]
          · cases resubscribe with
            | true => simp [hempty]
            | false => simp [hempty, eq_comm]
  | event openMints sent =>
      cases hserver : s.server with
      | none =>
          refine iff_of_true ?_ fun hlive => absurd hserver hlive
          simp only [turn, hserver]
          intro live hlive
          cases hlive
      | some live =>
          obtain rfl := h live hserver
          simp only [turn, hserver, Delivered]
          constructor
          · intro hagree _ i hi
            by_contra hfail
            have hfail' : sent i = false := by simpa using hfail
            exact sendAll_ne hi hfail' (hagree _ rfl)
          · intro hsent live hlive
            have hall := sendAll_messages (hsent (by simp))
            cases hlive
            exact hall
  | disconnect =>
      refine iff_of_true ?_ trivial
      intro live hlive
      cases hlive

/-- **When client and server agree.**  In every run of the loop and for every pattern
of send failures, the two ends agree wherever the loop waits if and only if every
control message that the run sends gets through. -/
theorem synced_run_iff (cap : Nat) (turns : List Turn) :
    (∀ before after, turns = before ++ after → (before.foldl (turn cap) start).Synced cap) ↔
      Along (turn cap) (Delivered cap) start turns :=
  run_stays_iff_along (synced_turn_iff cap) (synced_start cap) turns

/-- One subscribe that fails: the client counts the mint as watched, the server does
not watch it, and the next event does not ask again. -/
theorem lost_subscribe :
    let s := [Turn.connect true true, .event {"A"} fun _ => false].foldl (turn 25) start
    s.server = some ∅ ∧ s.subscribed = {"A"} ∧ s.messages 25 {"A"} = [] ∧ ¬ s.Synced 25 := by
  intro s
  have hserver : s.server = some ∅ := rfl
  have hclient : s.subscribed = {"A"} := by decide +kernel
  refine ⟨hserver, hclient, by decide +kernel, fun hsynced => ?_⟩
  have hagree := (hsynced _ hserver).1
  rw [hclient] at hagree
  exact absurd hagree (by decide)

end Link

end HfmcBot
