import HfmcBot.Feed.Archive
import HfmcBot.Foundation.Greatest

/-!
# The slot clock

`SlotClock` of `ingest.rs` maps slots to block times.  It is bounded: an insert that
makes it too large drops the oldest slots again.

* `KeepsNewest`, `KeepsNewest.insert`: what the clock holds, insert by insert;
* `slot_clock_keeps_newest`: over any row of inserts, with what a lookup returns and why
  it does not come from the future.
-/

namespace HfmcBot

open Foundation

def clockCap : Nat := 32768

/-- Slot to block time in milliseconds. -/
structure SlotClock where
  inner : FiniteMap Nat Int64

namespace SlotClock

def empty : SlotClock := ⟨∅⟩

def insert (c : SlotClock) (slot : UInt64) (atMs : Int64) : SlotClock where
  inner := evict clockCap (c.inner.insert slot.toNat atMs)

/-- The newest timestamp at or below the slot. -/
def lookup (c : SlotClock) (slot : UInt64) : Option Int64 := lookupAtMost c.inner slot.toNat

/-- A row of inserts into an empty clock. -/
def filled (inserts : List (UInt64 × Int64)) : SlotClock :=
  inserts.foldl (fun c p => c.insert p.1 p.2) empty

end SlotClock

/-- The slots of a row of inserts. -/
def slotsOf (inserts : List (UInt64 × Int64)) : Finset Nat :=
  (inserts.map fun p => p.1.toNat).toFinset

/-- The time a slot was last inserted with. -/
def lastInserted (inserts : List (UInt64 × Int64)) (slot : Nat) : Option Int64 :=
  (inserts.reverse.find? fun p => p.1.toNat == slot).map fun p => p.2

theorem slotsOf_concat (inserts : List (UInt64 × Int64)) (p : UInt64 × Int64) :
    slotsOf (inserts ++ [p]) = insert p.1.toNat (slotsOf inserts) := by
  ext slot
  simp [slotsOf, eq_comm]

theorem lastInserted_concat (inserts : List (UInt64 × Int64)) (p : UInt64 × Int64) (slot : Nat) :
    lastInserted (inserts ++ [p]) slot =
      if p.1.toNat = slot then some p.2 else lastInserted inserts slot := by
  unfold lastInserted
  rw [List.reverse_append, List.reverse_singleton, List.singleton_append]
  by_cases hslot : p.1.toNat = slot
  · rw [List.find?_cons_of_pos (by simpa using hslot), if_pos hslot]
    rfl
  · rw [List.find?_cons_of_neg (by simpa using hslot), if_neg hslot]

theorem mem_of_lastInserted {inserts : List (UInt64 × Int64)} {slot : Nat} {atMs : Int64}
    (h : lastInserted inserts slot = some atMs) : ∃ p ∈ inserts, p.1.toNat = slot ∧ p.2 = atMs := by
  obtain ⟨p, hfind, rfl⟩ := Option.map_eq_some_iff.mp h
  have hslot := List.find?_some hfind
  exact ⟨p, List.mem_reverse.mp (List.mem_of_find?_eq_some hfind), by simpa using hslot, rfl⟩

/-- The clock holds the newest slots that were inserted, each with its last time. -/
structure KeepsNewest (inserts : List (UInt64 × Int64)) (c : SlotClock) : Prop where
  newest : GreatestOf clockCap (slotsOf inserts) c.inner.keys
  last : ∀ slot ∈ c.inner.keys, c.inner.lookup slot = lastInserted inserts slot

theorem keepsNewest_empty : KeepsNewest [] .empty where
  newest := greatestOf_all (Nat.zero_le _)
  last := by
    intro slot hslot
    exact absurd hslot (by simp [SlotClock.empty])

/-- One more insert. -/
theorem KeepsNewest.insert {inserts : List (UInt64 × Int64)} {c : SlotClock}
    (h : KeepsNewest inserts c) (p : UInt64 × Int64) :
    KeepsNewest (inserts ++ [p]) (c.insert p.1 p.2) := by
  have hevict := evict_greatest clockCap (c.inner.insert p.1.toNat p.2)
  rw [FiniteMap.keys_insert] at hevict
  constructor
  · rw [slotsOf_concat]
    exact h.newest.of_insert hevict
  · intro slot hslot
    have hvalue := lookup_evict clockCap (c.inner.insert p.1.toNat p.2) hslot
    rw [show (c.insert p.1 p.2).inner.lookup slot = _ from hvalue, lastInserted_concat]
    by_cases heq : p.1.toNat = slot
    · rw [if_pos heq, ← heq]
      exact Finmap.lookup_insert _
    · rw [if_neg heq, Finmap.lookup_insert_of_ne _ (Ne.symm heq)]
      have hmem := hevict.sub hslot
      exact h.last slot ((Finset.mem_insert.mp hmem).resolve_left (Ne.symm heq))

theorem keepsNewest_filled (inserts : List (UInt64 × Int64)) :
    KeepsNewest inserts (SlotClock.filled inserts) := by
  induction inserts using List.reverseRecOn with
  | nil => exact keepsNewest_empty
  | append_singleton inserts p ih =>
      unfold SlotClock.filled at *
      rw [List.foldl_append]
      exact ih.insert p

/-- Block times do not decrease with the slot number. -/
def TimesRise (inserts : List (UInt64 × Int64)) : Prop :=
  ∀ p ∈ inserts, ∀ q ∈ inserts, p.1.toNat ≤ q.1.toNat → p.2 ≤ q.2

/-- **The clock keeps the newest slots and never stamps from the future**: for every row
of inserts it holds the greatest of the slots inserted, up to its capacity, each with its
last time; a lookup gives the time of the greatest held slot at or below the one asked
for, and nothing exactly if there is none; and where block times do not decrease with the
slot number, no stamp is later than the time of a slot from there on. -/
theorem slot_clock_keeps_newest (inserts : List (UInt64 × Int64)) :
    KeepsNewest inserts (SlotClock.filled inserts) ∧
      (∀ slot atMs, (SlotClock.filled inserts).lookup slot = some atMs ↔
        ∃ held ∈ (SlotClock.filled inserts).inner.keys, held ≤ slot.toNat ∧
          (∀ other ∈ (SlotClock.filled inserts).inner.keys, other ≤ slot.toNat → other ≤ held) ∧
          (SlotClock.filled inserts).inner.lookup held = some atMs) ∧
      (∀ slot, (SlotClock.filled inserts).lookup slot = none ↔
        ∀ held ∈ (SlotClock.filled inserts).inner.keys, slot.toNat < held) ∧
      (TimesRise inserts → ∀ slot atMs, (SlotClock.filled inserts).lookup slot = some atMs →
        ∀ p ∈ inserts, slot.toNat ≤ p.1.toNat → atMs ≤ p.2) := by
  have hkeeps := keepsNewest_filled inserts
  refine ⟨hkeeps, fun slot atMs => lookupAtMost_eq_some_iff _ _ _,
    fun slot => lookupAtMost_eq_none_iff _ _, ?_⟩
  intro hrise slot atMs hlookup p hp hslot
  obtain ⟨held, hmem, hle, -, hvalue⟩ := (lookupAtMost_eq_some_iff _ _ _).mp hlookup
  rw [hkeeps.last held hmem] at hvalue
  obtain ⟨q, hq, rfl, rfl⟩ := mem_of_lastInserted hvalue
  exact hrise q hq p hp (hle.trans hslot)

end HfmcBot
