import HfmcBot.Foundation.Runs

/-!
# Channels

A channel from any number of senders to one receiver.  A sender never waits: where
there is no room, or nobody to receive, its message is refused.  What is waiting when
the receiver goes away is lost.

* `Channel.accepted`: what was ever let in, oldest first;
* `trySend_cases`, `recv_cases`, `close_accepted`: what one operation does to it;
* `Courier`: a channel whose receiver works off one message at a time;
* `Courier.accepted_eq`, `Courier.accepted_sublist`, `Courier.waiting_le`: over any
  interleaving, what was let in is worked off, in hand, waiting or lost, it comes from
  the offers in their order, and the queue stays within its capacity.
-/

namespace HfmcBot
namespace Foundation

variable {α : Type}

/-- A channel: its capacity if it has one, what the receiver has taken, what is
waiting, what was lost, and whether there still is a receiver. -/
structure Channel (α : Type) where
  capacity : Option Nat
  received : List α
  waiting : List α
  lost : List α
  live : Bool
  fits : ∀ n ∈ capacity, waiting.length ≤ n
  keeps : live = true → lost = []
  gone : live = false → waiting = []

namespace Channel

/-- A new channel. -/
def opened (capacity : Option Nat) : Channel α where
  capacity := capacity
  received := []
  waiting := []
  lost := []
  live := true
  fits n _ := Nat.zero_le n
  keeps _ := rfl
  gone h := absurd h (by decide)

/-- Everything that was ever let in, oldest first. -/
def accepted (c : Channel α) : List α := c.received ++ (c.waiting ++ c.lost)

/-- There is room for one more. -/
def hasRoom (c : Channel α) : Bool :=
  match c.capacity with
  | some n => decide (c.waiting.length < n)
  | none => true

theorem lt_of_hasRoom {c : Channel α} (h : c.hasRoom = true) :
    ∀ n ∈ c.capacity, c.waiting.length < n := by
  intro n hn
  unfold hasRoom at h
  rw [Option.mem_def.mp hn] at h
  exact of_decide_eq_true h

/-- A sender offers a message: the answer is whether it was let in. -/
def trySend (c : Channel α) (a : α) : Channel α × Bool :=
  if h : c.live = true ∧ c.hasRoom = true then
    ({ c with
      waiting := c.waiting ++ [a]
      fits := fun n hn => by
        have hlt := lt_of_hasRoom h.2 n hn
        rw [List.length_append, List.length_singleton]
        omega
      gone := fun hdead => by
        rw [h.1] at hdead
        cases hdead }, true)
  else (c, false)

/-- The receiver takes the oldest message. -/
def recv (c : Channel α) : Channel α × Option α :=
  match h : c.waiting with
  | [] => (c, none)
  | a :: rest =>
      ({ c with
        received := c.received ++ [a]
        waiting := rest
        fits := fun n hn => by
          have hle := c.fits n hn
          rw [h, List.length_cons] at hle
          omega
        gone := fun hdead => by
          rw [c.gone hdead] at h
          cases h }, some a)

/-- The receiver goes away. -/
def close (c : Channel α) : Channel α where
  capacity := c.capacity
  received := c.received
  waiting := []
  lost := c.waiting ++ c.lost
  live := false
  fits n _ := Nat.zero_le n
  keeps h := absurd h (by decide)
  gone _ := rfl

/-! ## One operation -/

@[simp] theorem opened_accepted (capacity : Option Nat) :
    (opened capacity : Channel α).accepted = [] := rfl

/-- A message is let in behind everything else, or it is refused and nothing happens;
it is refused only if there is no room or no receiver. -/
theorem trySend_cases (c : Channel α) (a : α) :
    ((c.trySend a).2 = true ∧ c.live = true ∧ (c.trySend a).1.waiting = c.waiting ++ [a] ∧
        (c.trySend a).1.received = c.received ∧ (c.trySend a).1.lost = c.lost ∧
        (c.trySend a).1.live = c.live ∧ (c.trySend a).1.capacity = c.capacity) ∨
      (c.trySend a = (c, false) ∧ (c.live = false ∨ c.hasRoom = false)) := by
  by_cases h : c.live = true ∧ c.hasRoom = true
  · left
    rw [trySend, dif_pos h]
    exact ⟨rfl, h.1, rfl, rfl, rfl, rfl, rfl⟩
  · right
    rw [trySend, dif_neg h]
    refine ⟨rfl, ?_⟩
    rw [not_and_or, Bool.not_eq_true, Bool.not_eq_true] at h
    exact h

theorem trySend_accepted (c : Channel α) (a : α) :
    (c.trySend a).1.accepted = c.accepted ++ if (c.trySend a).2 then [a] else [] := by
  rcases c.trySend_cases a with ⟨hsent, hlive, hwaiting, hreceived, hlost, -, -⟩ | ⟨hsame, -⟩
  · -- nothing is lost while there is a receiver, so the end of the queue is the end of all
    rw [accepted, accepted, hwaiting, hreceived, hlost, hsent, c.keeps hlive]
    simp
  · rw [hsame]
    simp

/-- The oldest message, if there is one, moves from the waiting ones to the received
ones. -/
theorem recv_cases (c : Channel α) :
    (c.recv = (c, none) ∧ c.waiting = []) ∨
      ∃ a rest, c.waiting = a :: rest ∧ c.recv.2 = some a ∧ c.recv.1.waiting = rest ∧
        c.recv.1.received = c.received ++ [a] ∧ c.recv.1.lost = c.lost ∧
        c.recv.1.live = c.live ∧ c.recv.1.capacity = c.capacity := by
  unfold recv
  split
  · rename_i h
    exact Or.inl ⟨rfl, h⟩
  · rename_i a rest h
    exact Or.inr ⟨a, rest, h, rfl, rfl, rfl, rfl, rfl, rfl⟩

@[simp] theorem recv_accepted (c : Channel α) : c.recv.1.accepted = c.accepted := by
  rcases c.recv_cases with ⟨hsame, -⟩ | ⟨a, rest, hwaiting, -, hrest, hreceived, hlost, -, -⟩
  · rw [hsame]
  · rw [accepted, accepted, hrest, hreceived, hlost, hwaiting]
    simp

@[simp] theorem close_accepted (c : Channel α) : c.close.accepted = c.accepted := by
  simp [accepted, close]

theorem recv_received (c : Channel α) : c.recv.1.received = c.received ++ c.recv.2.toList := by
  rcases c.recv_cases with ⟨hsame, -⟩ | ⟨a, rest, -, htaken, -, hreceived, -, -, -⟩
  · rw [hsame]
    simp
  · rw [hreceived, htaken]
    rfl

@[simp] theorem trySend_received (c : Channel α) (a : α) :
    (c.trySend a).1.received = c.received := by
  rcases c.trySend_cases a with ⟨-, -, -, hreceived, -⟩ | ⟨hsame, -⟩
  · exact hreceived
  · rw [hsame]

@[simp] theorem trySend_capacity (c : Channel α) (a : α) :
    (c.trySend a).1.capacity = c.capacity := by
  rcases c.trySend_cases a with ⟨-, -, -, -, -, -, hcapacity⟩ | ⟨hsame, -⟩
  · exact hcapacity
  · rw [hsame]

@[simp] theorem recv_capacity (c : Channel α) : c.recv.1.capacity = c.capacity := by
  rcases c.recv_cases with ⟨hsame, -⟩ | ⟨a, rest, -, -, -, -, -, -, hcapacity⟩
  · rw [hsame]
  · exact hcapacity

@[simp] theorem trySend_live (c : Channel α) (a : α) : (c.trySend a).1.live = c.live := by
  rcases c.trySend_cases a with ⟨-, -, -, -, -, hlive, -⟩ | ⟨hsame, -⟩
  · exact hlive
  · rw [hsame]

@[simp] theorem recv_live (c : Channel α) : c.recv.1.live = c.live := by
  rcases c.recv_cases with ⟨hsame, -⟩ | ⟨a, rest, -, -, -, -, -, hlive, -⟩
  · rw [hsame]
  · exact hlive

end Channel

/-! ## A receiver that works off one message at a time -/

/-- A channel whose receiver takes a message, works on it and ends with an outcome
before it takes the next one: the messages worked off with their outcomes, and the one
in hand. -/
structure Courier (α ε : Type) where
  channel : Channel α
  done : List (α × ε)
  hand : Option α
  split : channel.received = done.map Prod.fst ++ hand.toList

namespace Courier

variable {ε : Type}

/-- Nothing sent yet. -/
def opened (capacity : Option Nat) : Courier α ε where
  channel := .opened capacity
  done := []
  hand := none
  split := rfl

/-- A sender offers a message; the answer is whether it was let in. -/
def offer (c : Courier α ε) (a : α) : Courier α ε × Bool :=
  ({ c with
    channel := (c.channel.trySend a).1
    split := by rw [Channel.trySend_received]; exact c.split }, (c.channel.trySend a).2)

/-- The receiver, if it is free, takes the next message. -/
def take (c : Courier α ε) : Courier α ε :=
  match h : c.hand with
  | some _ => c
  | none =>
      { c with
        channel := c.channel.recv.1
        hand := c.channel.recv.2
        split := by rw [Channel.recv_received, c.split, h, Option.toList_none, List.append_nil] }

/-- The work on the message in hand ends. -/
def finish (c : Courier α ε) (outcome : ε) : Courier α ε where
  channel := c.channel
  done := c.done ++ (c.hand.map fun a => (a, outcome)).toList
  hand := none
  split := by
    rw [c.split]
    cases c.hand <;> simp

/-- The receiver goes away; work in hand ends with the given outcome. -/
def stop (c : Courier α ε) (outcome : ε) : Courier α ε where
  channel := c.channel.close
  done := (c.finish outcome).done
  hand := none
  split := (c.finish outcome).split

/-- What can happen to the channel and its receiver. -/
inductive Act (α ε : Type)
  | offer (a : α)
  | take
  | finish (outcome : ε)
  | stop (outcome : ε)

def act (c : Courier α ε) : Act α ε → Courier α ε
  | .offer a => (c.offer a).1
  | .take => c.take
  | .finish outcome => c.finish outcome
  | .stop outcome => c.stop outcome

/-- The messages offered, in the order of the offers. -/
def offered (acts : List (Act α ε)) : List α :=
  acts.filterMap fun
    | .offer a => some a
    | _ => none

/-- What was let in and is not worked off: in hand, waiting or lost. -/
def pending (c : Courier α ε) : List α := c.hand.toList ++ (c.channel.waiting ++ c.channel.lost)

theorem accepted_eq (c : Courier α ε) :
    c.channel.accepted = c.done.map Prod.fst ++ c.pending := by
  rw [Channel.accepted, c.split, pending, List.append_assoc]

/-- A busy receiver takes nothing, a free one what the channel gives. -/
theorem take_cases (c : Courier α ε) :
    c.take = c ∨ c.hand = none ∧ c.take.channel = c.channel.recv.1 ∧
      c.take.hand = c.channel.recv.2 ∧ c.take.done = c.done := by
  unfold take
  split
  · exact Or.inl rfl
  · rename_i h
    exact Or.inr ⟨h, rfl, rfl, rfl⟩

/-- Only an offer changes what was let in. -/
theorem act_accepted (c : Courier α ε) (act : Act α ε) :
    (c.act act).channel.accepted = c.channel.accepted ++
      match act with
      | .offer a => if (c.offer a).2 then [a] else []
      | _ => [] := by
  cases act with
  | offer a => exact c.channel.trySend_accepted a
  | take =>
      rw [List.append_nil]
      show c.take.channel.accepted = _
      rcases c.take_cases with hsame | ⟨-, hchannel, -⟩
      · rw [hsame]
      · rw [hchannel, Channel.recv_accepted]
  | finish outcome => exact (List.append_nil _).symm
  | stop outcome =>
      -- what was waiting is lost, and still counts as let in
      rw [List.append_nil]
      exact c.channel.close_accepted

theorem act_capacity (c : Courier α ε) (act : Act α ε) :
    (c.act act).channel.capacity = c.channel.capacity := by
  cases act with
  | offer a => exact c.channel.trySend_capacity a
  | take =>
      show c.take.channel.capacity = _
      rcases c.take_cases with hsame | ⟨-, hchannel, -⟩
      · rw [hsame]
      · rw [hchannel, Channel.recv_capacity]
  | finish outcome => rfl
  | stop outcome => rfl

/-- The receiver goes away only when it is stopped. -/
theorem act_live (c : Courier α ε) {act : Act α ε} (h : ∀ outcome, act ≠ .stop outcome) :
    (c.act act).channel.live = c.channel.live := by
  cases act with
  | offer a => exact c.channel.trySend_live a
  | take =>
      show c.take.channel.live = _
      rcases c.take_cases with hsame | ⟨-, hchannel, -⟩
      · rw [hsame]
      · rw [hchannel, Channel.recv_live]
  | finish outcome => rfl
  | stop outcome => exact absurd rfl (h outcome)

/-- Whatever happens in whatever order, the messages let in are among the offered ones,
in the order of the offers. -/
theorem accepted_sublist (capacity : Option Nat) (acts : List (Act α ε)) :
    (acts.foldl act (opened capacity)).channel.accepted.Sublist (offered acts) := by
  induction acts using List.reverseRecOn with
  | nil => exact List.Sublist.refl _
  | append_singleton acts last ih =>
      rw [List.foldl_append, List.foldl_cons, List.foldl_nil, act_accepted, offered,
        List.filterMap_append]
      refine ih.append ?_
      cases last with
      | offer a =>
          show List.Sublist (if _ then [a] else []) [a]
          split
          · exact List.Sublist.refl _
          · exact List.nil_sublist _
      | take => exact List.Sublist.refl _
      | finish outcome => exact List.Sublist.refl _
      | stop outcome => exact List.Sublist.refl _

/-- The queue stays within its capacity. -/
theorem waiting_le (capacity : Nat) (acts : List (Act α ε)) :
    (acts.foldl act (opened (some capacity))).channel.waiting.length ≤ capacity := by
  have hcapacity : (acts.foldl act (opened (some capacity))).channel.capacity = some capacity :=
    run_invariant (P := fun c : Courier α ε => c.channel.capacity = some capacity)
      (fun c last hc => (c.act_capacity last).trans hc) rfl acts
  exact (acts.foldl act (opened (some capacity))).channel.fits capacity hcapacity

end Courier

end Foundation
end HfmcBot
