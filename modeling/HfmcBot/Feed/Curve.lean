import HfmcBot.Feed.Decode
import HfmcBot.Feed.Wire
import HfmcBot.Grid

/-!
# Bonding-curve accounts

`parse_curve_account` reads the reserves at the head of an account, and
`curve_price_in_quote` divides them, each scaled by a power of ten.  The powers are computed in
a `u64`, and the clamp at 28 places lets through more than it holds.  The divisions are those
of a number format; whether an overflow of the power stops the program or wraps around is a
setting of the build.

* `parseCurveAccount_decides`: the accounts that are accepted, and what is read of them;
* `curvePriceInQuote_eq`: the price while the power fits;
* `pricesExactly_iff`: an account prices exactly when a reserve is zero or the quote has at
  most nineteen places.
-/

namespace HfmcBot

open Foundation

/-! ## The account -/

def curveAccountDisc : List UInt8 := [23, 183, 248, 55, 96, 216, 172, 96]

/-- The five numbers at the head of an account. -/
structure CurveUnits where
  virtualBaseUnits : UInt64
  virtualQuoteUnits : UInt64
  realBaseUnits : UInt64
  realQuoteUnits : UInt64
  totalSupplyUnits : UInt64
  deriving DecidableEq

structure CurveReserves extends CurveUnits where
  complete : Bool
  deriving DecidableEq

def readCurveUnits (data : List UInt8) : StateT Nat Option CurveUnits := do
  let virtualBaseUnits ← readU64 data
  let virtualQuoteUnits ← readU64 data
  let realBaseUnits ← readU64 data
  let realQuoteUnits ← readU64 data
  let totalSupplyUnits ← readU64 data
  pure ⟨virtualBaseUnits, virtualQuoteUnits, realBaseUnits, realQuoteUnits, totalSupplyUnits⟩

/-- Parse the 49-byte head of an account; what follows it is not looked at. -/
def parseCurveAccount (data : List UInt8) : Except Panic (Option CurveReserves) :=
  if data.length < 49 then .ok none
  else do
    let disc ← sliceTo data 8
    if disc ≠ curveAccountDisc then pure none
    else
      match (readCurveUnits data).run 8 with
      | none => pure none
      | some (units, off) => pure (some { units with complete := flagAt data off })

/-- The bytes of the five numbers. -/
def CurveUnits.bytes (u : CurveUnits) : List UInt8 :=
  leBytes 8 u.virtualBaseUnits.toNat ++ (leBytes 8 u.virtualQuoteUnits.toNat ++
    (leBytes 8 u.realBaseUnits.toNat ++ (leBytes 8 u.realQuoteUnits.toNat ++
      leBytes 8 u.totalSupplyUnits.toNat)))

@[simp] theorem CurveUnits.length_bytes (u : CurveUnits) : u.bytes.length = 40 := by
  simp [CurveUnits.bytes]

theorem readCurveUnits_reads (data : List UInt8) :
    Reads data (readCurveUnits data) fun u bs => bs = u.bytes := by
  refine ((readU64_reads data).bind fun vb => (readU64_reads data).bind fun vq =>
    (readU64_reads data).bind fun rb => (readU64_reads data).bind fun rq =>
      (readU64_reads data).bind fun total =>
        Reads.pure data (CurveUnits.mk vb vq rb rq total)).congr ?_
  intro u bs
  constructor
  · rintro ⟨vb, _, _, rfl, rfl, vq, _, _, rfl, rfl, rb, _, _, rfl, rfl, rq, _, _, rfl, rfl,
      total, _, _, rfl, rfl, rfl, rfl⟩
    rw [List.append_nil]
    rfl
  · rintro rfl
    refine ⟨u.virtualBaseUnits, _, _, rfl, rfl, u.virtualQuoteUnits, _, _, rfl, rfl,
      u.realBaseUnits, _, _, rfl, rfl, u.realQuoteUnits, _, _, rfl, rfl,
      u.totalSupplyUnits, _, [], ?_, rfl, rfl, rfl⟩
    rw [List.append_nil]

/-- The head of an account: the discriminator, the numbers and the byte of a flag. -/
def curveHead (u : CurveUnits) (flag : UInt8) : List UInt8 :=
  curveAccountDisc ++ (u.bytes ++ [flag])

@[simp] theorem length_curveHead (u : CurveUnits) (flag : UInt8) :
    (curveHead u flag).length = 49 := by
  have hdisc : curveAccountDisc.length = 8 := rfl
  simp [curveHead, hdisc]

/-- An account with these reserves: its head, and any tail. -/
def CurveAccount (data : List UInt8) (r : CurveReserves) : Prop :=
  ∃ flag tail, data = curveHead r.toCurveUnits flag ++ tail ∧ r.complete = (flag != 0)

/-- An account with these reserves is read as them. -/
theorem CurveAccount.parse {data : List UInt8} {r : CurveReserves} (h : CurveAccount data r) :
    parseCurveAccount data = .ok (some r) := by
  obtain ⟨flag, tail, rfl, hflag⟩ := h
  have hdisc : curveAccountDisc.length = 8 := rfl
  have hshape : curveHead r.toCurveUnits flag ++ tail =
      curveAccountDisc ++ (r.toCurveUnits.bytes ++ (flag :: tail)) := by
    simp [curveHead]
  have hlength : (curveHead r.toCurveUnits flag ++ tail).length = 49 + tail.length := by
    rw [List.length_append, length_curveHead]
  obtain ⟨htake, hdrop⟩ := (eq_append_iff hdisc).mp hshape
  have hread : (readCurveUnits (curveHead r.toCurveUnits flag ++ tail)).run 8 =
      some (r.toCurveUnits, 48) := by
    refine ((readCurveUnits_reads _).split (by omega) _ _).mpr
      ⟨r.toCurveUnits.bytes, flag :: tail, rfl, hdrop, ?_⟩
    rw [CurveUnits.length_bytes]
  have hat : flagAt (curveHead r.toCurveUnits flag ++ tail) 48 = r.complete := by
    have hrest : (curveHead r.toCurveUnits flag ++ tail).drop 48 = flag :: tail := by
      rw [show 48 = 8 + 40 from rfl, ← List.drop_drop, hdrop]
      exact List.drop_left' r.toCurveUnits.length_bytes
    rw [flagAt_eq, hrest, hflag]
    rfl
  unfold parseCurveAccount
  rw [if_neg (by omega), sliceTo_of_le (by omega), ok_bind, htake, if_neg (by simp), hread]
  dsimp only
  rw [hat]
  rfl

/-- Nothing else is accepted, and no index is out of range. -/
theorem parseCurveAccount_decides (data : List UInt8) :
    Decides (parseCurveAccount data) (CurveAccount data) := by
  refine .of_acceptsOnly ?_ fun r hr => hr.parse
  unfold parseCurveAccount
  by_cases hshort : data.length < 49
  · rw [if_pos hshort]
    exact acceptsOnly_none
  · rw [if_neg hshort, sliceTo_of_le (by omega), ok_bind]
    by_cases hdisc : data.take 8 = curveAccountDisc
    · rw [if_neg (not_not.mpr hdisc)]
      cases hread : (readCurveUnits data).run 8 with
      | none => exact acceptsOnly_none
      | some result =>
          obtain ⟨units, off⟩ := result
          obtain ⟨bs, rest, rfl, hdrop, hoff⟩ :=
            ((readCurveUnits_reads data).split (by omega) units off).mp hread
          refine acceptsOnly_some ?_
          have hdata : data = curveAccountDisc ++ (units.bytes ++ rest) := by
            rw [← hdisc, ← hdrop, List.take_append_drop]
          cases rest with
          | nil =>
              -- the head would be a byte too short
              rw [hdata] at hshort
              simp [curveAccountDisc] at hshort
          | cons flag tail =>
              refine ⟨flag, tail, ?_, ?_⟩
              · rw [hdata]
                simp [curveHead]
              · have hrest : data.drop off = flag :: tail := by
                  rw [hoff, ← List.drop_drop, hdrop]
                  exact List.drop_left
                show flagAt data off = _
                rw [flagAt_eq, hrest]
                rfl
    · rw [if_pos hdisc]
      exact acceptsOnly_none

/-! ## The price -/

def tokenBaseDecimals : Nat := 6

/-- `base.pow(exp)` of a `u64`: beyond the word it stops a build that checks, and wraps around
in one that does not. -/
def powU64 (overflowChecks : Bool) (base exp : Nat) : Except ArithStop Nat :=
  if overflowChecks = true ∧ 2 ^ 64 ≤ base ^ exp then .error .overflow
  else .ok (base ^ exp % 2 ^ 64)

/-- The quote price, adjusted for the places of both tokens; nothing for empty reserves. -/
def curvePriceInQuote (fmt : NumberFormat) (overflowChecks : Bool) (r : CurveReserves)
    (quoteDecimals : UInt32) : Except ArithStop (Option Decimal) :=
  if r.virtualBaseUnits = 0 ∨ r.virtualQuoteUnits = 0 then .ok none
  else do
    let base ← fmt.div r.virtualBaseUnits.toNat (← powU64 overflowChecks 10 tokenBaseDecimals)
    let quote ← fmt.div r.virtualQuoteUnits.toNat
      (← powU64 overflowChecks 10 (min quoteDecimals.toNat 28))
    let price ← fmt.div quote base
    pure (some price)

/-- What the price stands for: the quotient of the two reserves in whole tokens. -/
def CurveUnits.price (u : CurveUnits) (quoteDecimals : Nat) : Decimal :=
  ((u.virtualQuoteUnits.toNat : Decimal) / 10 ^ quoteDecimals) /
    ((u.virtualBaseUnits.toNat : Decimal) / 10 ^ tokenBaseDecimals)

/-- The number format of the decimals: its limit, and that it keeps what it represents. -/
structure DecimalFormat (fmt : NumberFormat) : Prop where
  limit : fmt.limit = maxDecimal
  keeps : ∀ x, Representable x → fmt.round x = x

theorem powU64_of_lt {overflowChecks : Bool} {base exp : Nat} (h : base ^ exp < 2 ^ 64) :
    powU64 overflowChecks base exp = .ok (base ^ exp) := by
  rw [powU64, if_neg fun hover => absurd hover.2 (not_le.mpr h), Nat.mod_eq_of_lt h]

theorem ten_pow_lt_iff {exp : Nat} : 10 ^ exp < 2 ^ 64 ↔ exp ≤ 19 := by
  constructor
  · intro hfits
    by_contra hbig
    have hpow : 10 ^ 20 ≤ 10 ^ exp := Nat.pow_le_pow_right (by decide) (by omega)
    omega
  · intro hfew
    have hpow : 10 ^ exp ≤ 10 ^ 19 := Nat.pow_le_pow_right (by decide) hfew
    omega

/-- Scaling a reserve by a power that fits is exact. -/
theorem DecimalFormat.div_raw {fmt : NumberFormat} (hfmt : DecimalFormat fmt) {raw : Nat}
    (hraw : raw < 2 ^ 64) {exp : Nat} (hexp : exp ≤ 28) :
    fmt.div raw (10 ^ exp : Nat) = .ok (raw / 10 ^ exp) := by
  have hscale : (1 : Decimal) ≤ 10 ^ exp := one_le_pow₀ (by norm_num)
  have hvalue : (raw / 10 ^ exp : Decimal) ≤ raw := div_le_self (Nat.cast_nonneg raw) hscale
  have hlimit : (raw : Decimal) ≤ maxDecimal := by
    have hword : (raw : Decimal) ≤ (2 ^ 64 : Nat) := by exact_mod_cast hraw.le
    exact hword.trans (by norm_num [maxDecimal])
  have hfits : |(raw / 10 ^ exp : Decimal)| ≤ fmt.limit := by
    rw [hfmt.limit, abs_of_nonneg (by positivity)]
    exact hvalue.trans hlimit
  rw [NumberFormat.div_of_ne (by positivity)]
  push_cast
  rw [NumberFormat.fit_of_le hfits, hfmt.keeps _ (representable_raw hraw hexp)]

/-- The price of any reserves is far within the range of the decimals. -/
theorem CurveUnits.price_le (u : CurveUnits) (quoteDecimals : Nat)
    (hbase : u.virtualBaseUnits ≠ 0) : |u.price quoteDecimals| ≤ maxDecimal := by
  have hpos : (1 : Decimal) ≤ u.virtualBaseUnits.toNat := by
    have hnat : u.virtualBaseUnits.toNat ≠ 0 := fun hzero =>
      hbase (UInt64.toNat_inj.mp hzero)
    exact_mod_cast Nat.one_le_iff_ne_zero.mpr hnat
  have hquote : (u.virtualQuoteUnits.toNat : Decimal) ≤ (2 ^ 64 : Nat) := by
    exact_mod_cast u.virtualQuoteUnits.toNat_lt.le
  have hscale : (1 : Decimal) ≤ 10 ^ quoteDecimals := one_le_pow₀ (by norm_num)
  have hnumerator : (u.virtualQuoteUnits.toNat : Decimal) / 10 ^ quoteDecimals ≤ (2 ^ 64 : Nat) :=
    (div_le_self (Nat.cast_nonneg _) hscale).trans hquote
  have hdenominator : (1 / 10 ^ 6 : Decimal) ≤
      u.virtualBaseUnits.toNat / 10 ^ tokenBaseDecimals := by
    unfold tokenBaseDecimals
    gcongr
  rw [CurveUnits.price, abs_of_nonneg (by positivity)]
  calc (u.virtualQuoteUnits.toNat : Decimal) / 10 ^ quoteDecimals /
        (u.virtualBaseUnits.toNat / 10 ^ tokenBaseDecimals)
      ≤ (2 ^ 64 : Nat) / (1 / 10 ^ 6) := by gcongr
    _ ≤ maxDecimal := by norm_num [maxDecimal]

/-- While the power fits, the price is the rounded quotient in every build. -/
theorem curvePriceInQuote_eq {fmt : NumberFormat} (hfmt : DecimalFormat fmt)
    (overflowChecks : Bool) {r : CurveReserves} {quoteDecimals : UInt32}
    (hbase : r.virtualBaseUnits ≠ 0) (hquote : r.virtualQuoteUnits ≠ 0)
    (hfew : quoteDecimals.toNat ≤ 19) :
    curvePriceInQuote fmt overflowChecks r quoteDecimals =
      .ok (some (fmt.round (r.price quoteDecimals.toNat))) := by
  have hclamp : min quoteDecimals.toNat 28 = quoteDecimals.toNat := min_eq_left (by omega)
  have hbaseQuantity : (r.virtualBaseUnits.toNat : Decimal) / 10 ^ tokenBaseDecimals ≠ 0 := by
    have hnat : r.virtualBaseUnits.toNat ≠ 0 := fun hzero => hbase (UInt64.toNat_inj.mp hzero)
    have hcast : (r.virtualBaseUnits.toNat : Decimal) ≠ 0 := by exact_mod_cast hnat
    exact div_ne_zero hcast (by positivity)
  unfold curvePriceInQuote
  rw [if_neg (not_or.mpr ⟨hbase, hquote⟩), hclamp, powU64_of_lt (by decide),
    powU64_of_lt (ten_pow_lt_iff.mpr hfew)]
  show (fmt.div r.virtualBaseUnits.toNat (10 ^ tokenBaseDecimals : Nat) >>= _) = _
  rw [hfmt.div_raw r.virtualBaseUnits.toNat_lt (by decide)]
  show (fmt.div r.virtualQuoteUnits.toNat (10 ^ quoteDecimals.toNat : Nat) >>= _) = _
  rw [hfmt.div_raw r.virtualQuoteUnits.toNat_lt (by omega)]
  show (fmt.div _ _ >>= _) = _
  have hlimit : |r.price quoteDecimals.toNat| ≤ fmt.limit := by
    rw [hfmt.limit]
    exact r.price_le _ hbase
  rw [NumberFormat.div_of_ne hbaseQuantity]
  show (fmt.fit (r.price quoteDecimals.toNat) >>= _) = _
  rw [NumberFormat.fit_of_le hlimit]
  rfl

/-- A build that checks stops where the power does not fit. -/
theorem curvePriceInQuote_overflow {fmt : NumberFormat} (hfmt : DecimalFormat fmt)
    {r : CurveReserves} {quoteDecimals : UInt32} (hbase : r.virtualBaseUnits ≠ 0)
    (hquote : r.virtualQuoteUnits ≠ 0) (hmany : 19 < quoteDecimals.toNat) :
    curvePriceInQuote fmt true r quoteDecimals = .error .overflow := by
  have hbeyond : 2 ^ 64 ≤ 10 ^ min quoteDecimals.toNat 28 := by
    by_contra hfits
    have hfew := ten_pow_lt_iff.mp (not_le.mp hfits)
    omega
  unfold curvePriceInQuote
  rw [if_neg (not_or.mpr ⟨hbase, hquote⟩), powU64_of_lt (by decide)]
  show (fmt.div r.virtualBaseUnits.toNat (10 ^ tokenBaseDecimals : Nat) >>= _) = _
  rw [hfmt.div_raw r.virtualBaseUnits.toNat_lt (by decide), powU64, if_pos ⟨rfl, hbeyond⟩]
  rfl

/-- The account is read as its head says, whatever follows it, and its price is none for an
empty reserve and the rounded quotient otherwise; no power overflows on the way, so that
this is so in every build. -/
structure PricesExactly (fmt : NumberFormat) (data : List UInt8) (r : CurveReserves)
    (quoteDecimals : UInt32) : Prop where
  layout : CurveAccount data r
  tailFree : ∀ tail, parseCurveAccount (data.take 49 ++ tail) = .ok (some r)
  price : ∀ overflowChecks, curvePriceInQuote fmt overflowChecks r quoteDecimals =
    .ok (if r.virtualBaseUnits = 0 ∨ r.virtualQuoteUnits = 0 then none
      else some (fmt.round (r.price quoteDecimals.toNat)))

/-- An account that is accepted is read the same with any other tail. -/
theorem parseCurveAccount_tailFree {data : List UInt8} {r : CurveReserves}
    (h : CurveAccount data r) (tail : List UInt8) :
    parseCurveAccount (data.take 49 ++ tail) = .ok (some r) := by
  obtain ⟨flag, rest, rfl, hflag⟩ := h
  rw [List.take_left' (length_curveHead _ _)]
  exact CurveAccount.parse ⟨flag, tail, rfl, hflag⟩

/-- Accounts price exactly for every number of places whose power of ten fits a `u64`; an empty
reserve never comes to the power. -/
theorem pricesExactly_iff {fmt : NumberFormat} (hfmt : DecimalFormat fmt) {data : List UInt8}
    {r : CurveReserves} (haccepted : parseCurveAccount data = .ok (some r))
    {quoteDecimals : UInt32} :
    PricesExactly fmt data r quoteDecimals ↔
      (r.virtualBaseUnits = 0 ∨ r.virtualQuoteUnits = 0) ∨ quoteDecimals.toNat ≤ 19 := by
  have haccount : CurveAccount data r := by
    obtain ⟨o, ho, hiff⟩ := parseCurveAccount_decides data
    rw [haccepted] at ho
    exact (hiff r).mp (Except.ok.inj ho).symm
  by_cases hempty : r.virtualBaseUnits = 0 ∨ r.virtualQuoteUnits = 0
  · refine iff_of_true ⟨haccount, parseCurveAccount_tailFree haccount, fun checks => ?_⟩
      (Or.inl hempty)
    rw [curvePriceInQuote, if_pos hempty, if_pos hempty]
  · obtain ⟨hbase, hquote⟩ := not_or.mp hempty
    constructor
    · intro hexact
      refine Or.inr ?_
      by_contra hmany
      have hchecked := hexact.price true
      rw [curvePriceInQuote_overflow hfmt hbase hquote (not_le.mp hmany)] at hchecked
      cases hchecked
    · intro hcase
      have hfew := hcase.resolve_left hempty
      refine ⟨haccount, parseCurveAccount_tailFree haccount, fun checks => ?_⟩
      rw [curvePriceInQuote_eq hfmt checks hbase hquote hfew, if_neg hempty]

/-! ## The curve of a fresh launch -/

namespace Mock

/-- Decimals with all of their places. -/
def decimals28 : NumberFormat where
  limit := maxDecimal
  round := roundDp 28

theorem decimals28_format : DecimalFormat decimals28 where
  limit := rfl
  keeps _ hx := hx.onGrid.roundDp_eq

/-- Thirty SOL against 1.073 billion tokens. -/
def curve : CurveReserves where
  virtualBaseUnits := 1073000000000000
  virtualQuoteUnits := 30000000000
  realBaseUnits := 0
  realQuoteUnits := 0
  totalSupplyUnits := 1000000000000000
  complete := false

end Mock

/-- At the nine places of SOL. -/
theorem pricesExactly_sol :
    PricesExactly Mock.decimals28 (curveHead Mock.curve.toCurveUnits 0 ++ [1, 2]) Mock.curve 9 :=
  (pricesExactly_iff Mock.decimals28_format (by decide +kernel)).mpr (Or.inr (by decide))

/-- At twenty places the power does not fit: a build that checks stops, and one that does not
divides by what is left of it. -/
theorem twenty_places_stop :
    parseCurveAccount (curveHead Mock.curve.toCurveUnits 0) = .ok (some Mock.curve) ∧
      curvePriceInQuote Mock.decimals28 true Mock.curve 20 = .error .overflow ∧
      (∃ price, curvePriceInQuote Mock.decimals28 false Mock.curve 20 = .ok (some price) ∧
        12 * Mock.curve.price 20 < price) ∧
      ¬ PricesExactly Mock.decimals28 (curveHead Mock.curve.toCurveUnits 0) Mock.curve 20 := by
  have hstop : curvePriceInQuote Mock.decimals28 true Mock.curve 20 = .error .overflow :=
    curvePriceInQuote_overflow Mock.decimals28_format (by decide) (by decide) (by decide)
  refine ⟨by decide +kernel, hstop, ?_, fun hexact => ?_⟩
  · have hwrapped : curvePriceInQuote Mock.decimals28 false Mock.curve 20 =
        .ok (some (roundDp 28
          (roundDp 28 (30000000000 / 7766279631452241920) / roundDp 28 1073000000))) := by
      decide +kernel
    exact ⟨_, hwrapped, by decide +kernel⟩
  · have hchecked := hexact.price true
    rw [hstop] at hchecked
    cases hchecked

end HfmcBot
