import Mathlib.Algebra.Order.Floor.Ring
import Mathlib.Data.Rat.Floor
import Mathlib.Data.String.Basic

/-!
# Domain types

The data the engine moves around, field by field as in `types.rs`.

Three conventions hold in every module:

* money is `Decimal`, an exact rational.  The rounding the source writes down
  (`round_dp`, `floor`) is explicit; that of the decimal library's operators, and
  the range they stop at, are `roundDecimal` and `maxDecimal`, applied where an
  outcome depends on them;
* a time is a number of nanoseconds since the Unix epoch, and a difference of
  two times is a number of nanoseconds.  The finite range of the time library
  stands in the two operations that can leave it, `trySeconds` and `checkedAdd`;
* a text with values printed into it is a list of fragments, so that a message
  keeps the values it prints without fixing how a decimal is displayed.
-/

namespace HfmcBot

/-- Exact decimal money, prices and quantities. -/
abbrev Decimal := ℚ

/-- A token mint address. -/
abbrev Mint := String

/-- A UTC time, in nanoseconds since the Unix epoch. -/
abbrev DateTime := Int

instance : Preorder DateTime := Int.instLinearOrder.toPreorder

/-- A signed difference of two times, in nanoseconds. -/
abbrev TimeDelta := Int

/-- Whole seconds of a difference, cut towards zero. -/
def numSeconds (delta : TimeDelta) : Int := delta.tdiv 1000000000

/-- A difference of so many seconds. -/
def seconds (secs : Int) : TimeDelta := secs * 1000000000

/-- `TimeDelta::try_seconds`: a difference is held to `2^63 - 1` milliseconds. -/
def trySeconds (secs : Int) : Option TimeDelta :=
  if secs.natAbs ≤ 9223372036854775 then some (seconds secs) else none

/-- The first moment of the time library, the beginning of the year -262143. -/
def minUtc : DateTime := -8334601228800000000000

/-- The last one, the end of the year 262142. -/
def maxUtc : DateTime := 8210266876799999999999

/-- `DateTime::checked_add_signed`. -/
def checkedAdd (t : DateTime) (delta : TimeDelta) : Option DateTime :=
  if minUtc ≤ t + delta ∧ t + delta ≤ maxUtc then some (t + delta) else none

/-- The UTC calendar day of a time, counted from the epoch. -/
def dateNaive (t : DateTime) : Int := t / 86400000000000

/-- The cast `as i64` of an unsigned 64-bit value: the bits are kept. -/
def asI64 (n : UInt64) : Int := n.toInt64.toInt

/-- The cast `as u32` of a length: the low 32 bits are kept. -/
def asU32 (n : Nat) : UInt32 := n.toUInt32

/-- A difference has whole seconds `≥ secs` exactly from `secs` seconds on. -/
theorem le_numSeconds_iff {secs : Int} (hsecs : 0 < secs) (delta : Int) :
    secs ≤ numSeconds delta ↔ seconds secs ≤ delta := by
  change secs ≤ Int.tdiv delta 1000000000 ↔ secs * 1000000000 ≤ delta
  rcases Int.le_total 0 delta with hpos | hneg
  · rw [Int.tdiv_eq_ediv_of_nonneg hpos, Int.le_ediv_iff_mul_le (by decide)]
  · obtain ⟨k, hk⟩ : ∃ k : Int, delta = -k := ⟨-delta, by omega⟩
    rw [hk, Int.neg_tdiv, Int.tdiv_eq_ediv_of_nonneg (by omega)]
    omega

theorem dateNaive_mono {s t : DateTime} (h : s ≤ t) : dateNaive s ≤ dateNaive t :=
  Int.ediv_le_ediv (by decide) h

theorem asI64_of_lt {n : UInt64} (h : n.toNat < 2 ^ 63) : asI64 n = n.toNat := by
  have hbits : n.toInt64.toInt = n.toBitVec.toInt := rfl
  rw [asI64, hbits, BitVec.toInt_eq_toNat_of_lt (by simpa using by omega)]
  simp

theorem lt_of_asI64_nonneg {n : UInt64} (h : 0 ≤ asI64 n) : n.toNat < 2 ^ 63 := by
  have hbits : n.toInt64.toInt = n.toBitVec.toInt := rfl
  rw [asI64, hbits, BitVec.toInt_eq_toNat_cond] at h
  have hlt := n.toBitVec.isLt
  simp only [UInt64.toNat_toBitVec] at h hlt
  split at h <;> omega

theorem toNat_asU32 (n : Nat) : (asU32 n).toNat = n % 2 ^ 32 := by
  simp [asU32]

/-! ## Rounding -/

/-- Nearest integer, ties to the even one. -/
def roundHalfEven (x : Decimal) : Int :=
  if x - ⌊x⌋ < 1 / 2 then ⌊x⌋
  else if 1 / 2 < x - ⌊x⌋ then ⌊x⌋ + 1
  else if ⌊x⌋ % 2 = 0 then ⌊x⌋ else ⌊x⌋ + 1

/-- `round_dp`: the nearest multiple of `10⁻ᵈᵖ`, ties to even. -/
def roundDp (dp : Nat) (x : Decimal) : Decimal :=
  (roundHalfEven (x * 10 ^ dp) : Decimal) / 10 ^ dp

/-! ## The number type -/

/-- Ninety-six bits and at most twenty-eight places: what the number type computes exactly. -/
def Representable (x : Decimal) : Prop :=
  ∃ (m : Int) (scale : Nat), |m| < 2 ^ 96 ∧ scale ≤ 28 ∧ x = m / 10 ^ scale

theorem representable_raw {raw : Nat} (hraw : raw < 2 ^ 64) {decimals : Nat}
    (hfits : decimals ≤ 28) : Representable (raw / 10 ^ decimals) := by
  refine ⟨raw, decimals, ?_, hfits, by push_cast; rfl⟩
  rw [abs_of_nonneg (Int.natCast_nonneg raw)]
  omega

/-- The largest value. -/
def maxDecimal : Decimal := 2 ^ 96 - 1

/-- The rounding of a result that is in range: as many places as ninety-six bits hold, at
most twenty-eight of them, ties to even. -/
def roundDecimal (x : Decimal) : Decimal :=
  roundDp
    (((List.range 29).reverse.find? fun places => |roundDp places x| * 10 ^ places < 2 ^ 96).getD 0)
    x

/-! ## Texts -/

/-- One piece of a formatted text. -/
inductive Fragment
  | str (s : String)
  | dec (d : Decimal)
  | int (n : Int)
  deriving DecidableEq

/-- A formatted text. -/
abbrev Text := List Fragment

instance : Coe String Fragment := ⟨Fragment.str⟩

/-! ## Events -/

/-- Launchpads the bot targets. -/
inductive Launchpad
  | pumpFun
  | stonkfun
  | meteoraVirtualCurve
  deriving DecidableEq

def Launchpad.asStr : Launchpad → String
  | .pumpFun => "pumpfun"
  | .stonkfun => "stonkfun"
  | .meteoraVirtualCurve => "meteora_virtual_curve"

/-- A fresh-launch event from the ingest feed. -/
structure Launch where
  mint : Mint
  launchpad : Launchpad
  createdAt : DateTime
  creatorHoldPct : Decimal
  mintRenounced : Bool
  isHoneypot : Bool
  liquidityUsd : Decimal
  onCurve : Bool
  priceUsd : Decimal
  deriving DecidableEq

/-- Continuous price update for a tracked token. -/
structure PriceUpdate where
  mint : Mint
  ts : DateTime
  priceUsd : Decimal
  liquidityUsd : Decimal
  deriving DecidableEq

/-- Ingest events fed into the engine. -/
inductive Event
  | launch (l : Launch)
  | price (p : PriceUpdate)
  deriving DecidableEq

def Event.ts : Event → DateTime
  | .launch l => l.createdAt
  | .price p => p.ts

def Event.mint : Event → Mint
  | .launch l => l.mint
  | .price p => p.mint

/-! ## The book -/

/-- Exit regime of an open position. -/
inductive HoldMode
  | flip
  | conviction
  deriving DecidableEq

/-- How `{:?}` prints the mode. -/
def HoldMode.debug : HoldMode → String
  | .flip => "Flip"
  | .conviction => "Conviction"

/-- An open position, accumulated across funnel slices.  `exitAttempts` is the
`u32` counter of failed sells.  Its increment is the one of a build without overflow
checks, which is the release profile as it stands: at `2 ^ 32 - 1` it wraps to zero.  A
build with the checks stops the process there. -/
structure Position where
  mint : Mint
  launchpad : Launchpad
  openedAt : DateTime
  entryPrice : Decimal
  qty : Decimal
  costUsd : Decimal
  highWater : Decimal
  lastPrice : Decimal
  lastLiquidityUsd : Decimal
  mode : HoldMode
  exitAttempts : UInt32
  stuck : Bool
  deriving DecidableEq

def Position.unrealizedPnlPct (pos : Position) (price : Decimal) : Decimal :=
  if pos.entryPrice = 0 then 0
  else (price - pos.entryPrice) / pos.entryPrice * 100

/-- Side of an order. -/
inductive Side
  | buy
  | sell
  deriving DecidableEq

/-- How `{:?}` prints the side. -/
def Side.debug : Side → String
  | .buy => "Buy"
  | .sell => "Sell"

/-- The lower-case name of the side in the audit records. -/
def Side.lower : Side → String
  | .buy => "buy"
  | .sell => "sell"

/-- A simulated or real fill. -/
structure Fill where
  orderId : String
  mint : Mint
  side : Side
  qty : Decimal
  priceUsd : Decimal
  notionalUsd : Decimal
  feeUsd : Decimal
  ts : DateTime
  deriving DecidableEq

/-- Realized result of closing a position. -/
structure ClosedTrade where
  mint : Mint
  openedAt : DateTime
  closedAt : DateTime
  entryPrice : Decimal
  exitPrice : Decimal
  qty : Decimal
  costUsd : Decimal
  proceedsUsd : Decimal
  pnlUsd : Decimal
  pnlPct : Decimal
  exitReason : String
  mode : HoldMode
  deriving DecidableEq

end HfmcBot
