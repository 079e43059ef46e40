import HfmcBot.Live.Checks
import HfmcBot.Live.Settlement

/-!
# What was bought and what is sold

Outputs of quotes become quantities of fills, the quantities add up in the position, and the
exit converts the sum back.  All of it goes through one power of ten, which has to fit a
`u64`.

* `SellsWhatWasBought`: the round trip, with every value on the way in the number type;
* `sells_what_was_bought_iff`: the round trip works for every number of decimals up to
  nineteen, and for no other.
-/

namespace HfmcBot

/-- The fills of these quote outputs at this many decimals. -/
def FillsOf (decimals : UInt8) (raws : List UInt64) (fills : List Fill) : Prop :=
  List.Forall₂ (fun raw fill => rawToDecimal raw decimals = .ok fill.qty) raws fills

/-- The position after some fills. -/
def Position.addFills (pos : Position) (fills : List Fill) (liquidityUsd : Decimal) : Position :=
  fills.foldl (fun pos fill => pos.addFill fill liquidityUsd) pos

/-- The raw units of some outputs. -/
def rawSum (raws : List UInt64) : Nat := (raws.map UInt64.toNat).sum

/-- The conversions at this many decimals: the power of ten fits, each output becomes its
exact quantity, and whatever position is filled with these quantities sells the sum of the
outputs.  None of the values on the way is beyond the number type. -/
structure SellsWhatWasBought (decimals : UInt8) (raws : List UInt64) : Prop where
  power : pow10 decimals = .ok (10 ^ decimals.toNat)
  bought : ∀ raw ∈ raws, rawToDecimal raw decimals = .ok (raw.toNat / 10 ^ decimals.toNat) ∧
    Representable (raw.toNat / 10 ^ decimals.toNat)
  sold : ∀ (fills : List Fill) (pos : Position) (liquidityUsd : Decimal),
    FillsOf decimals raws fills → pos.qty = 0 →
      Representable (pos.addFills fills liquidityUsd).qty ∧
      (pos.addFills fills liquidityUsd).qty * 10 ^ decimals.toNat = rawSum raws ∧
      decimalToRawFloor (pos.addFills fills liquidityUsd).qty decimals =
        .ok (UInt64.ofNat (rawSum raws))

theorem pow10_eq_ok_iff {decimals : UInt8} :
    pow10 decimals = .ok (10 ^ decimals.toNat) ↔ decimals.toNat ≤ 19 := by
  constructor
  · intro hok
    by_contra hmany
    rw [pow10_eq_error_iff.mpr ⟨rfl, Nat.lt_of_not_le hmany⟩] at hok
    cases hok
  · intro hfew
    cases hpow : pow10 decimals with
    | error e =>
        obtain ⟨-, hmany⟩ := pow10_eq_error_iff.mp hpow
        omega
    | ok scale =>
        unfold pow10 at hpow
        split at hpow
        · cases hpow
          rfl
        · cases hpow

/-- While the power fits, an output becomes its exact quantity. -/
theorem rawToDecimal_of_pow10 {decimals : UInt8}
    (hpow : pow10 decimals = .ok (10 ^ decimals.toNat)) (raw : UInt64) :
    rawToDecimal raw decimals = .ok (raw.toNat / 10 ^ decimals.toNat) := by
  rw [rawToDecimal, hpow]
  show Except.ok ((raw.toNat : Decimal) / ((10 ^ decimals.toNat : Nat) : Decimal)) = _
  push_cast
  rfl

/-- Fills add their quantities. -/
theorem addFills_qty (pos : Position) (fills : List Fill) (liquidityUsd : Decimal) :
    (pos.addFills fills liquidityUsd).qty = pos.qty + (fills.map Fill.qty).sum := by
  induction fills generalizing pos with
  | nil => simp [Position.addFills]
  | cons fill rest ih =>
      have hfirst : (pos.addFill fill liquidityUsd).qty = pos.qty + fill.qty := rfl
      show ((pos.addFill fill liquidityUsd).addFills rest liquidityUsd).qty = _
      rw [ih, hfirst, List.map_cons, List.sum_cons, add_assoc]

/-- The quantities of the fills add up to the quantity of the sum. -/
theorem qty_sum_of_fillsOf {decimals : UInt8} {raws : List UInt64} {fills : List Fill}
    (h : FillsOf decimals raws fills) :
    (fills.map Fill.qty).sum = rawSum raws / 10 ^ decimals.toNat := by
  induction h with
  | nil => simp [rawSum]
  | @cons raw fill raws fills hfill _ ih =>
      have hqty := Live.rawToDecimal_eq_ok hfill
      unfold rawSum at ih ⊢
      rw [List.map_cons, List.sum_cons, ih, hqty, List.map_cons, List.sum_cons, Nat.cast_add,
        add_div]

/-- The floor of a number of raw units that fits. -/
theorem floorU64_natCast {n : Nat} (h : n < 2 ^ 64) :
    floorU64 (n : Decimal) = some (UInt64.ofNat n) := by
  have hfloor : ⌊(n : Decimal)⌋ = (n : Int) := Int.floor_natCast n
  rw [floorU64, hfloor, if_pos ⟨by omega, by omega⟩, Int.toNat_natCast]

/-- The way back from the exact quantity of some raw units. -/
theorem decimalToRawFloor_of_raw {decimals : UInt8}
    (hpow : pow10 decimals = .ok (10 ^ decimals.toNat)) {raw : Nat} (hpos : 0 < raw)
    (hraw : raw < 2 ^ 64) :
    decimalToRawFloor (raw / 10 ^ decimals.toNat) decimals = .ok (UInt64.ofNat raw) := by
  have hscale : (0 : Decimal) < 10 ^ decimals.toNat := by positivity
  have hqty : ¬ (raw / 10 ^ decimals.toNat : Decimal) ≤ 0 := by
    rw [not_le]
    exact div_pos (by exact_mod_cast hpos) hscale
  have hback : (raw / 10 ^ decimals.toNat : Decimal) * ((10 ^ decimals.toNat : Nat) : Decimal) =
      raw := by
    push_cast
    exact div_mul_cancel₀ _ hscale.ne'
  have hnonzero : UInt64.ofNat raw ≠ 0 := by
    intro hzero
    have hnat := congrArg UInt64.toNat hzero
    rw [UInt64.toNat_ofNat_of_lt' hraw] at hnat
    simp at hnat
    omega
  have hrange : ¬ maxDecimal < (raw : Decimal) := by
    have hword : (raw : Decimal) ≤ 2 ^ 64 := by exact_mod_cast hraw.le
    exact not_lt.mpr (hword.trans (by norm_num [maxDecimal]))
  rw [decimalToRawFloor, haltIf, if_neg hqty, hpow]
  show (haltIf (maxDecimal < (raw / 10 ^ decimals.toNat : Decimal) *
    ((10 ^ decimals.toNat : Nat) : Decimal)) _ >>= fun _ =>
      orReject _ (floorU64 ((raw / 10 ^ decimals.toNat : Decimal) *
        ((10 ^ decimals.toNat : Nat) : Decimal))) >>= _) = _
  rw [hback, floorU64_natCast hraw, haltIf, if_neg hrange]
  show (haltIf (UInt64.ofNat raw = 0) _ >>= _) = _
  rw [haltIf, if_neg hnonzero]
  rfl

theorem sellsWhatWasBought_of_le {decimals : UInt8} {raws : List UInt64} (hne : raws ≠ [])
    (hpos : ∀ raw ∈ raws, 0 < raw) (hsum : rawSum raws < 2 ^ 64) (hfew : decimals.toNat ≤ 19) :
    SellsWhatWasBought decimals raws := by
  have hpow := pow10_eq_ok_iff.mpr hfew
  have hsome : 0 < rawSum raws := by
    obtain ⟨raw, rest, rfl⟩ := List.exists_cons_of_ne_nil hne
    have hfirst : 0 < raw.toNat := UInt64.lt_iff_toNat_lt.mp (hpos raw (by simp))
    unfold rawSum
    rw [List.map_cons, List.sum_cons]
    omega
  refine ⟨hpow, fun raw _ => ?_, fun fills pos liquidityUsd hfills hempty => ?_⟩
  · exact ⟨rawToDecimal_of_pow10 hpow raw, representable_raw raw.toNat_lt (by omega)⟩
  · have hqty : (pos.addFills fills liquidityUsd).qty = rawSum raws / 10 ^ decimals.toNat := by
      rw [addFills_qty, hempty, zero_add, qty_sum_of_fillsOf hfills]
    rw [hqty]
    refine ⟨representable_raw hsum (by omega), ?_, decimalToRawFloor_of_raw hpow hsome hsum⟩
    exact div_mul_cancel₀ _ (by positivity)

/-- What the funnel bought in any number of slices is what the exit sells, exactly up to
nineteen decimals. -/
theorem sells_what_was_bought_iff {decimals : UInt8} {raws : List UInt64} (hne : raws ≠ [])
    (hpos : ∀ raw ∈ raws, 0 < raw) (hsum : rawSum raws < 2 ^ 64) :
    SellsWhatWasBought decimals raws ↔ decimals.toNat ≤ 19 :=
  ⟨fun h => pow10_eq_ok_iff.mp h.power, sellsWhatWasBought_of_le hne hpos hsum⟩

/-- Three slices that add up to the largest `u64`, at nine decimals. -/
theorem sells_what_was_bought_edge :
    SellsWhatWasBought 9 [1, 6148914691236517205, 12297829382473034409] ↔
      (9 : UInt8).toNat ≤ 19 :=
  sells_what_was_bought_iff (by decide) (by simp) (by decide)

/-- A mint may have any number of decimals.  With twenty a single unit cannot be
converted. -/
theorem twenty_decimals_stop :
    parseTokenSupplyDecimals (.ok (Mock.result (.object [("decimals", Mock.num 20)]))) = .ok 20 ∧
      rawToDecimal 1 20 = .error .overflow ∧
      ¬ ∀ (decimals : UInt8) (raws : List UInt64), raws ≠ [] → (∀ raw ∈ raws, 0 < raw) →
        rawSum raws < 2 ^ 64 → SellsWhatWasBought decimals raws := by
  refine ⟨by decide +kernel, (rawToDecimal_overflow_iff 1 20).mpr (by decide), fun h => ?_⟩
  have hone := h 20 [1] (by decide) (by simp) (by decide)
  exact absurd (pow10_eq_ok_iff.mp hone.power) (by decide)

end HfmcBot
