import Mathlib.Data.Nat.Digits.Lemmas

/-!
# Reading a byte string from an offset

A reader keeps an offset into a sequence and fails where the sequence does not go on as
it should.  `Reads` says which stretches a reader takes and for which values: one
statement per reader, in both directions, and the rules below put them together as the
readers are put together.

* `index`, `sliceTo`: the indexing that may stop a program, and `Decides` for a decoder
  that it never stops, with its two halves in `Decides.of_acceptsOnly`;
* `leBytes`, `leNat`: unsigned numbers, the low byte first;
* `utf8Bytes`, `fromUtf8`: text;
* `readBytes_reads`, `Reads.bind`, `Reads.pure`, `Reads.ofOption`: the rules of readers.
-/

namespace HfmcBot
namespace Foundation

/-! ## Indexing -/

/-- What an index past the end does to a program. -/
inductive Panic
  | outOfBounds (index length : Nat)
  deriving DecidableEq

section Indexing

variable {α : Type}

/-- `xs[i]`. -/
def index (xs : List α) (i : Nat) : Except Panic α :=
  match xs[i]? with
  | some x => .ok x
  | none => .error (.outOfBounds i xs.length)

/-- `xs[..n]`. -/
def sliceTo (xs : List α) (n : Nat) : Except Panic (List α) :=
  if n ≤ xs.length then .ok (xs.take n) else .error (.outOfBounds n xs.length)

/-- `xs.get(lo..hi)`. -/
def getRange (xs : List α) (lo hi : Nat) : Option (List α) :=
  if lo ≤ hi ∧ hi ≤ xs.length then some ((xs.drop lo).take (hi - lo)) else none

theorem index_of_lt {xs : List α} {i : Nat} (h : i < xs.length) : index xs i = .ok xs[i] := by
  simp [index, h]

theorem index_of_some {xs : List α} {i : Nat} {x : α} (h : xs[i]? = some x) :
    index xs i = .ok x := by
  simp [index, h]

theorem sliceTo_of_le {xs : List α} {n : Nat} (h : n ≤ xs.length) :
    sliceTo xs n = .ok (xs.take n) := if_pos h

theorem ok_bind {β : Type} (a : α) (f : α → Except Panic β) : (Except.ok a >>= f) = f a := rfl

/-- A head of known length. -/
theorem eq_append_iff {xs head rest : List α} {n : Nat} (h : head.length = n) :
    xs = head ++ rest ↔ xs.take n = head ∧ xs.drop n = rest := by
  constructor
  · rintro rfl
    rw [← h, List.take_left, List.drop_left]
    exact ⟨rfl, rfl⟩
  · rintro ⟨rfl, rfl⟩
    exact (List.take_append_drop n xs).symm

/-- The decoder does not panic, and accepts exactly the given messages. -/
def Decides (r : Except Panic (Option α)) (M : α → Prop) : Prop :=
  ∃ o, r = .ok o ∧ ∀ a, o = some a ↔ M a

/-- The decoder does not panic, and accepts none but the given messages. -/
def AcceptsOnly (r : Except Panic (Option α)) (M : α → Prop) : Prop :=
  ∃ o, r = .ok o ∧ ∀ a, o = some a → M a

theorem acceptsOnly_none {M : α → Prop} : AcceptsOnly (.ok none) M :=
  ⟨none, rfl, fun _ h => absurd h (by simp)⟩

theorem acceptsOnly_some {M : α → Prop} {a : α} (h : M a) : AcceptsOnly (.ok (some a)) M := by
  refine ⟨some a, rfl, fun b hb => ?_⟩
  rw [← Option.some.inj hb]
  exact h

/-- A decoder that accepts none but the given messages and all of them. -/
theorem Decides.of_acceptsOnly {r : Except Panic (Option α)} {M : α → Prop}
    (honly : AcceptsOnly r M) (hall : ∀ a, M a → r = .ok (some a)) : Decides r M := by
  obtain ⟨o, rfl, ho⟩ := honly
  refine ⟨o, rfl, fun a => ?_⟩
  constructor
  · exact ho a
  · intro hM
    exact Except.ok.inj (hall a hM)

/-- What a decoder answers to a message it accepts, and where there is none. -/
theorem Decides.eq_some {r : Except Panic (Option α)} {M : α → Prop} (h : Decides r M) {a : α}
    (ha : M a) : r = .ok (some a) := by
  obtain ⟨o, rfl, ho⟩ := h
  rw [(ho a).mpr ha]

theorem Decides.eq_none {r : Except Panic (Option α)} {M : α → Prop} (h : Decides r M)
    (hnone : ∀ a, ¬ M a) : r = .ok none := by
  obtain ⟨o, rfl, ho⟩ := h
  cases o with
  | none => rfl
  | some a => exact absurd ((ho a).mp rfl) (hnone a)

end Indexing

/-! ## Little-endian numbers -/

/-- The value of a byte string, the low byte first. -/
def leNat (bytes : List UInt8) : Nat := Nat.ofDigits 256 (bytes.map UInt8.toNat)

/-- A number in so many bytes, the low byte first. -/
def leBytes : Nat → Nat → List UInt8
  | 0, _ => []
  | k + 1, n => UInt8.ofNat n :: leBytes k (n / 256)

@[simp] theorem leNat_nil : leNat [] = 0 := rfl

theorem leNat_cons (b : UInt8) (bytes : List UInt8) :
    leNat (b :: bytes) = b.toNat + 256 * leNat bytes := by
  simp [leNat, Nat.ofDigits_cons]

@[simp] theorem length_leBytes (k n : Nat) : (leBytes k n).length = k := by
  induction k generalizing n with
  | zero => rfl
  | succ k ih => simp [leBytes, ih]

theorem leNat_lt (bytes : List UInt8) : leNat bytes < 256 ^ bytes.length := by
  induction bytes with
  | nil => simp
  | cons b bytes ih =>
      have hbyte : b.toNat < 256 := b.toNat_lt
      rw [leNat_cons, List.length_cons, pow_succ]
      omega

theorem leNat_leBytes {k n : Nat} (h : n < 256 ^ k) : leNat (leBytes k n) = n := by
  induction k generalizing n with
  | zero =>
      simp at h
      simp [leBytes, h]
  | succ k ih =>
      have hrest : n / 256 < 256 ^ k := by
        rw [pow_succ] at h
        omega
      rw [leBytes, leNat_cons, ih hrest, UInt8.toNat_ofNat']
      omega

theorem leBytes_leNat (bytes : List UInt8) : leBytes bytes.length (leNat bytes) = bytes := by
  induction bytes with
  | nil => rfl
  | cons b bytes ih =>
      have hbyte : b.toNat < 256 := b.toNat_lt
      have hlow : UInt8.ofNat (leNat (b :: bytes)) = b := by
        rw [← UInt8.toNat_inj, UInt8.toNat_ofNat', leNat_cons]
        omega
      have hhigh : leNat (b :: bytes) / 256 = leNat bytes := by
        rw [leNat_cons]
        omega
      rw [List.length_cons, leBytes, hlow, hhigh, ih]

/-- Which bytes spell a number. -/
theorem leNat_eq_iff {bytes : List UInt8} {k n : Nat} (h : bytes.length = k) :
    leNat bytes = n ↔ n < 256 ^ k ∧ bytes = leBytes k n := by
  constructor
  · rintro rfl
    rw [← h]
    exact ⟨leNat_lt bytes, (leBytes_leNat bytes).symm⟩
  · rintro ⟨hlt, rfl⟩
    exact leNat_leBytes hlt

/-! ## Text -/

/-- The UTF-8 bytes of a text. -/
def utf8Bytes (s : String) : List UInt8 := s.toByteArray.data.toList

/-- `str::from_utf8`. -/
def fromUtf8 (bytes : List UInt8) : Option String := String.fromUTF8? bytes.toByteArray

/-- The bytes of a text, and no others, are read back as it. -/
theorem fromUtf8_eq_some_iff {bytes : List UInt8} {s : String} :
    fromUtf8 bytes = some s ↔ bytes = utf8Bytes s := by
  have hbytes : bytes.toByteArray = s.toByteArray ↔ bytes = utf8Bytes s := by
    rw [ByteArray.ext_iff, List.data_toByteArray, ← Array.toList_inj]
    rfl
  rw [← hbytes]
  unfold fromUtf8 String.fromUTF8?
  split
  · rw [Option.some.injEq]
    constructor
    · rintro rfl
      rfl
    · intro h
      exact String.toByteArray_inj.mp h
  · rename_i hinvalid
    constructor
    · intro h
      exact absurd h (by simp)
    · intro h
      rw [h] at hinvalid
      exact absurd s.isValidUTF8 hinvalid

/-! ## Readers -/

section Readers

variable {α β γ : Type} {data : List γ}

/-- The next `n` entries. -/
def readBytes (data : List γ) (n : Nat) : StateT Nat Option (List γ) := fun off =>
  (getRange data off (off + n)).map fun bytes => (bytes, off + n)

/-- A check that reads nothing. -/
def ofOption (o : Option α) : StateT Nat Option α := fun off => o.map fun a => (a, off)

/-- From every offset, the reader takes exactly the stretches of the given form. -/
def Reads (data : List γ) (r : StateT Nat Option α) (F : α → List γ → Prop) : Prop :=
  ∀ off, off ≤ data.length → ∀ a off',
    r.run off = some (a, off') ↔ ∃ bs, F a bs ∧ bs <+: data.drop off ∧ off' = off + bs.length

theorem readBytes_reads (data : List γ) (n : Nat) :
    Reads data (readBytes data n) fun bytes bs => bs = bytes ∧ bs.length = n := by
  intro off hoff bytes off'
  show (getRange data off (off + n)).map _ = _ ↔ _
  unfold getRange
  constructor
  · intro h
    split at h
    · rename_i hrange
      obtain ⟨rfl, rfl⟩ : List.take (off + n - off) (List.drop off data) = bytes ∧
          off + n = off' := by
        simpa using h
      have hlength : (List.take (off + n - off) (List.drop off data)).length = n := by
        rw [List.length_take, List.length_drop]
        omega
      exact ⟨_, ⟨rfl, hlength⟩, List.take_prefix _ _, by rw [hlength]⟩
    · exact absurd h (by simp)
  · rintro ⟨bs, ⟨rfl, hlength⟩, hprefix, rfl⟩
    have hfits := hprefix.length_le
    rw [List.length_drop] at hfits
    rw [if_pos (by omega), Nat.add_sub_cancel_left, ← hlength, ← List.prefix_iff_eq_take.mp hprefix]
    rfl

/-- Two readers, one after the other. -/
theorem Reads.bind {r : StateT Nat Option α} {k : α → StateT Nat Option β}
    {F : α → List γ → Prop} {G : α → β → List γ → Prop} (hr : Reads data r F)
    (hk : ∀ a, Reads data (k a) (G a)) :
    Reads data (r >>= k) fun b bs => ∃ a xs ys, bs = xs ++ ys ∧ F a xs ∧ G a b ys := by
  intro off hoff b off'
  rw [StateT.run_bind, Option.bind_eq_bind, Option.bind_eq_some_iff]
  constructor
  · rintro ⟨⟨a, mid⟩, hfirst, hrest⟩
    obtain ⟨xs, hxs, hprefix, rfl⟩ := (hr off hoff a mid).mp hfirst
    have hmid : off + xs.length ≤ data.length := by
      have hfits := hprefix.length_le
      rw [List.length_drop] at hfits
      omega
    obtain ⟨ys, hys, hprefix', rfl⟩ := (hk a _ hmid b off').mp hrest
    obtain ⟨rest, hsplit⟩ := hprefix
    rw [← List.drop_drop, ← hsplit, List.drop_left] at hprefix'
    refine ⟨xs ++ ys, ⟨a, xs, ys, rfl, hxs, hys⟩, ?_, by rw [List.length_append, add_assoc]⟩
    rw [← hsplit]
    exact (List.prefix_append_right_inj xs).mpr hprefix'
  · rintro ⟨-, ⟨a, xs, ys, rfl, hxs, hys⟩, ⟨rest, hsplit⟩, rfl⟩
    rw [List.append_assoc] at hsplit
    have hlength := congrArg List.length hsplit
    rw [List.length_append, List.length_drop] at hlength
    refine ⟨(a, off + xs.length), (hr off hoff _ _).mpr ⟨xs, hxs, ⟨_, hsplit⟩, rfl⟩, ?_⟩
    refine (hk a _ (by omega) _ _).mpr ⟨ys, hys, ?_, by rw [List.length_append, add_assoc]⟩
    rw [← List.drop_drop, ← hsplit, List.drop_left]
    exact List.prefix_append _ _

theorem Reads.pure (data : List γ) (a : α) :
    Reads data (Pure.pure a : StateT Nat Option α) fun b bs => b = a ∧ bs = [] := by
  intro off _ b off'
  rw [StateT.run_pure]
  constructor
  · intro h
    obtain ⟨rfl, rfl⟩ : a = b ∧ off = off' := by simpa using h
    exact ⟨[], ⟨rfl, rfl⟩, List.nil_prefix, rfl⟩
  · rintro ⟨-, ⟨rfl, rfl⟩, -, rfl⟩
    rfl

theorem Reads.ofOption (data : List γ) (o : Option α) :
    Reads data (ofOption o) fun a bs => o = some a ∧ bs = [] := by
  intro off _ a off'
  show o.map _ = _ ↔ _
  cases o with
  | none => simp
  | some c =>
      constructor
      · intro h
        obtain ⟨rfl, rfl⟩ : c = a ∧ off = off' := by simpa using h
        exact ⟨[], ⟨rfl, rfl⟩, List.nil_prefix, rfl⟩
      · rintro ⟨-, ⟨hc, rfl⟩, -, rfl⟩
        obtain rfl := Option.some.inj hc
        rfl

/-- The same form in other words. -/
theorem Reads.congr {r : StateT Nat Option α} {F G : α → List γ → Prop} (h : Reads data r F)
    (hiff : ∀ a bs, F a bs ↔ G a bs) : Reads data r G := by
  intro off hoff a off'
  rw [h off hoff a off']
  simp only [hiff]

/-- What a reader leaves unread. -/
theorem Reads.split {r : StateT Nat Option α} {F : α → List γ → Prop} (h : Reads data r F)
    {off : Nat} (hoff : off ≤ data.length) (a : α) (off' : Nat) :
    r.run off = some (a, off') ↔
      ∃ bs rest, F a bs ∧ data.drop off = bs ++ rest ∧ off' = off + bs.length := by
  rw [h off hoff a off']
  constructor
  · rintro ⟨bs, hbs, ⟨rest, hrest⟩, hoff'⟩
    exact ⟨bs, rest, hbs, hrest.symm, hoff'⟩
  · rintro ⟨bs, rest, hbs, hrest, hoff'⟩
    exact ⟨bs, hbs, ⟨rest, hrest.symm⟩, hoff'⟩

end Readers

end Foundation
end HfmcBot
