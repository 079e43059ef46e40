import HfmcBot.Engine.Steps
import HfmcBot.Foundation.WeightedMean
import Mathlib.Data.Set.Finite.Lemmas

/-!
# The position a row of fills builds

`apply_buy_fill` keeps a running average: it weighs the entry price so far with the
quantity so far.  Over any row of fills of one new token the result is the mean of the
fill prices, weighted by quantity.

* `Averages.addFill`: one more fill;
* `applyBuyFills_averages`: a whole row, fill after fill;
* `buy_fills_average`: with the bounds of the average, and in any order of the fills.
-/

namespace HfmcBot

open Foundation

/-- One call of `apply_buy_fill`: the fill and what comes with it. -/
structure BuyFill where
  fill : Fill
  launchpad : Launchpad
  liquidityUsd : Decimal

/-- What a row of fills adds up to. -/
structure Position.Averages (pos : Position) (fills : List Fill) : Prop where
  qty : pos.qty = totalWeight (fun f : Fill => f.qty) fills
  cost : pos.costUsd = (fills.map fun f => f.notionalUsd + f.feeUsd).sum
  entry : pos.entryPrice = weightedMean (fun f : Fill => f.qty) (fun f => f.priceUsd) fills
  high : IsGreatest {p | ∃ f ∈ fills, f.priceUsd = p} pos.highWater
  opened : fills.head?.map (fun f => f.ts) = some pos.openedAt
  last : fills.getLast?.map (fun f => f.priceUsd) = some pos.lastPrice

section Averages

variable {pos : Position} {fills : List Fill} {fill : Fill}

theorem addFill_highWater (pos : Position) (fill : Fill) (liquidityUsd : Decimal) :
    (pos.addFill fill liquidityUsd).highWater = max pos.highWater fill.priceUsd := by
  show (if pos.highWater < fill.priceUsd then fill.priceUsd else pos.highWater) = _
  split
  · rename_i hlt
    exact (max_eq_right hlt.le).symm
  · rename_i hge
    exact (max_eq_left (not_lt.mp hge)).symm

theorem addFill_entryPrice (liquidityUsd : Decimal) (h : 0 < pos.qty + fill.qty) :
    (pos.addFill fill liquidityUsd).entryPrice =
      (pos.entryPrice * pos.qty + fill.priceUsd * fill.qty) / (pos.qty + fill.qty) := if_pos h

/-- The first fill opens the position at its own price. -/
theorem openedBy_averages (hqty : 0 < fill.qty) (launchpad : Launchpad) (liquidityUsd : Decimal) :
    ((openedBy fill launchpad liquidityUsd).addFill fill liquidityUsd).Averages [fill] := by
  have hsum : (openedBy fill launchpad liquidityUsd).qty + fill.qty = fill.qty := zero_add _
  constructor
  · show 0 + fill.qty = _
    simp [totalWeight]
  · show 0 + (fill.notionalUsd + fill.feeUsd) = _
    simp
  · rw [addFill_entryPrice liquidityUsd (by rw [hsum]; exact hqty), hsum]
    show (fill.priceUsd * 0 + fill.priceUsd * fill.qty) / fill.qty = _
    simp [weightedMean, weightedSum, totalWeight]
  · rw [addFill_highWater]
    show IsGreatest _ (max fill.priceUsd fill.priceUsd)
    rw [max_self]
    constructor
    · exact ⟨fill, List.mem_singleton.mpr rfl, rfl⟩
    · rintro p ⟨f, hf, rfl⟩
      rw [List.mem_singleton.mp hf]
  · rfl
  · rfl

/-- One more fill. -/
theorem Position.Averages.addFill (h : pos.Averages fills) (hheld : 0 < pos.qty)
    (hqty : 0 < fill.qty) (liquidityUsd : Decimal) :
    (pos.addFill fill liquidityUsd).Averages (fills ++ [fill]) := by
  constructor
  · show pos.qty + fill.qty = _
    rw [totalWeight_concat, h.qty]
  · show pos.costUsd + (fill.notionalUsd + fill.feeUsd) = _
    rw [List.map_append, List.sum_append, List.map_singleton, List.sum_singleton, h.cost]
  · have hweight : totalWeight (fun f : Fill => f.qty) fills ≠ 0 := by
      rw [← h.qty]
      exact hheld.ne'
    rw [addFill_entryPrice liquidityUsd (add_pos hheld hqty), mean_concat _ _ hweight, ← h.entry,
      ← h.qty]
  · rw [addFill_highWater]
    constructor
    · rcases max_choice pos.highWater fill.priceUsd with hold | hnew
      · obtain ⟨f, hf, hprice⟩ := h.high.1
        exact ⟨f, List.mem_append_left _ hf, hprice.trans hold.symm⟩
      · exact ⟨fill, by simp, hnew.symm⟩
    · rintro p ⟨f, hf, rfl⟩
      rcases List.mem_append.mp hf with hold | hnew
      · exact (h.high.2 ⟨f, hold, rfl⟩).trans (le_max_left _ _)
      · rw [List.mem_singleton.mp hnew]
        exact le_max_right _ _
  · have hopened := h.opened
    cases fills with
    | nil => exact absurd hopened (by simp)
    | cons first rest => exact hopened
  · rw [List.getLast?_concat]
    rfl

/-- The average lies between the smallest and the largest price of the fills. -/
theorem Position.Averages.bounded (h : pos.Averages fills) (hne : fills ≠ [])
    (hqty : ∀ f ∈ fills, 0 < f.qty) :
    ∃ lo ∈ fills, ∃ hi ∈ fills,
      (∀ f ∈ fills, lo.priceUsd ≤ f.priceUsd ∧ f.priceUsd ≤ hi.priceUsd) ∧
        lo.priceUsd ≤ pos.entryPrice ∧ pos.entryPrice ≤ hi.priceUsd := by
  have hnonempty : {f | f ∈ fills}.Nonempty := List.exists_mem_of_ne_nil fills hne
  obtain ⟨lo, hlo, hleast⟩ :=
    Set.exists_min_image {f | f ∈ fills} (fun f => f.priceUsd) fills.finite_toSet hnonempty
  obtain ⟨hi, hhi, hgreatest⟩ :=
    Set.exists_max_image {f | f ∈ fills} (fun f => f.priceUsd) fills.finite_toSet hnonempty
  refine ⟨lo, hlo, hi, hhi, fun f hf => ⟨hleast f hf, hgreatest f hf⟩, ?_, ?_⟩
  · rw [h.entry]
    exact le_mean hne hqty hleast
  · rw [h.entry]
    exact mean_le hne hqty hgreatest

/-- What the same fills add up to in another order. -/
theorem Position.Averages.perm {pos' : Position} {fills' : List Fill} (h : pos.Averages fills)
    (h' : pos'.Averages fills') (hperm : fills'.Perm fills) :
    pos'.qty = pos.qty ∧ pos'.costUsd = pos.costUsd ∧ pos'.entryPrice = pos.entryPrice ∧
      pos'.highWater = pos.highWater := by
  refine ⟨?_, ?_, ?_, ?_⟩
  · rw [h.qty, h'.qty, totalWeight_perm hperm]
  · rw [h.cost, h'.cost]
    exact (hperm.map _).sum_eq
  · rw [h.entry, h'.entry, mean_perm hperm]
  · have hsame : {p | ∃ f ∈ fills', f.priceUsd = p} = {p | ∃ f ∈ fills, f.priceUsd = p} := by
      ext p
      simp only [hperm.mem_iff, Set.mem_ofPred_eq]
    have hhigh := h'.high
    rw [hsame] at hhigh
    exact hhigh.unique h.high

end Averages

namespace Engine

variable {σ : Type}

/-- A row of fills, booked one after the other. -/
def applyBuyFills (e : Engine σ) (buys : List BuyFill) : Engine σ :=
  buys.foldl (fun e b => e.applyBuyFill b.fill b.launchpad b.liquidityUsd) e

theorem applyBuyFills_concat (e : Engine σ) (buys : List BuyFill) (b : BuyFill) :
    e.applyBuyFills (buys ++ [b]) =
      (e.applyBuyFills buys).applyBuyFill b.fill b.launchpad b.liquidityUsd := List.foldl_concat ..

theorem applyBuyFill_lookup (e : Engine σ) (fill : Fill) (launchpad : Launchpad)
    (liquidityUsd : Decimal) :
    (e.applyBuyFill fill launchpad liquidityUsd).positions.lookup fill.mint =
      some ((e.fillTarget fill launchpad liquidityUsd).addFill fill liquidityUsd) := by
  rw [applyBuyFill_positions]
  exact Finmap.lookup_insert _

/-- The position a row of fills of a new token builds. -/
theorem applyBuyFills_averages {e : Engine σ} {mint : Mint}
    (hnew : e.positions.lookup mint = none) {buys : List BuyFill} (hne : buys ≠ [])
    (hmint : ∀ b ∈ buys, b.fill.mint = mint) (hqty : ∀ b ∈ buys, 0 < b.fill.qty) :
    ∃ pos, (e.applyBuyFills buys).positions.lookup mint = some pos ∧
      pos.Averages (buys.map fun b => b.fill) := by
  induction buys using List.reverseRecOn with
  | nil => exact absurd rfl hne
  | append_singleton buys b ih =>
      have hlast : b ∈ buys ++ [b] := by simp
      have hlookup := (e.applyBuyFills buys).applyBuyFill_lookup b.fill b.launchpad b.liquidityUsd
      rw [hmint b hlast] at hlookup
      rw [applyBuyFills_concat, List.map_append, List.map_singleton]
      refine ⟨_, hlookup, ?_⟩
      unfold fillTarget
      rw [hmint b hlast]
      rcases eq_or_ne buys [] with rfl | hbuys
      · rw [show (e.applyBuyFills []).positions.lookup mint = none from hnew]
        exact openedBy_averages (hqty b hlast) b.launchpad b.liquidityUsd
      · obtain ⟨pos, hpos, haverages⟩ := ih hbuys
          (fun c hc => hmint c (List.mem_append_left _ hc))
          (fun c hc => hqty c (List.mem_append_left _ hc))
        have hheld : 0 < pos.qty := by
          rw [haverages.qty]
          apply totalWeight_pos (by simpa using hbuys)
          intro f hf
          obtain ⟨c, hc, rfl⟩ := List.mem_map.mp hf
          exact hqty c (List.mem_append_left _ hc)
        rw [hpos]
        exact haverages.addFill hheld (hqty b hlast) b.liquidityUsd

/-- **Slices accumulate to a weighted average**: for every row of buy fills of one token
that is not held, the position that the row builds averages the fills, its entry price
lies between their smallest and largest price, and in any other order the same fills
give the same quantity, cost, entry price and high-water mark. -/
theorem buy_fills_average {e : Engine σ} {mint : Mint} (hnew : mint ∉ e.positions)
    {buys : List BuyFill} (hne : buys ≠ []) (hmint : ∀ b ∈ buys, b.fill.mint = mint)
    (hgood : ∀ b ∈ buys, 0 < b.fill.qty ∧ 0 < b.fill.priceUsd) :
    ∃ pos, (e.applyBuyFills buys).positions.lookup mint = some pos ∧
      pos.Averages (buys.map fun b => b.fill) ∧
      (∃ lo ∈ buys, ∃ hi ∈ buys,
        (∀ b ∈ buys, lo.fill.priceUsd ≤ b.fill.priceUsd ∧ b.fill.priceUsd ≤ hi.fill.priceUsd) ∧
          lo.fill.priceUsd ≤ pos.entryPrice ∧ pos.entryPrice ≤ hi.fill.priceUsd) ∧
      ∀ buys' : List BuyFill, buys'.Perm buys →
        ∃ pos', (e.applyBuyFills buys').positions.lookup mint = some pos' ∧
          pos'.qty = pos.qty ∧ pos'.costUsd = pos.costUsd ∧ pos'.entryPrice = pos.entryPrice ∧
          pos'.highWater = pos.highWater := by
  have hlookup : e.positions.lookup mint = none := Finmap.lookup_eq_none.mpr hnew
  have hqty : ∀ b ∈ buys, 0 < b.fill.qty := fun b hb => (hgood b hb).1
  obtain ⟨pos, hpos, haverages⟩ := applyBuyFills_averages hlookup hne hmint hqty
  have hfills : ∀ f ∈ buys.map (fun b => b.fill), 0 < f.qty := by
    intro f hf
    obtain ⟨b, hb, rfl⟩ := List.mem_map.mp hf
    exact hqty b hb
  obtain ⟨lo, hlo, hi, hhi, hbetween, hge, hle⟩ :=
    haverages.bounded (by simpa using hne) hfills
  obtain ⟨b, hb, rfl⟩ := List.mem_map.mp hlo
  obtain ⟨c, hc, rfl⟩ := List.mem_map.mp hhi
  refine ⟨pos, hpos, haverages, ?_, ?_⟩
  · exact ⟨b, hb, c, hc, fun d hd => hbetween d.fill (List.mem_map_of_mem hd), hge, hle⟩
  · intro buys' hperm
    have hne' : buys' ≠ [] := fun hnil => hne (List.perm_nil.mp (hnil ▸ hperm.symm))
    obtain ⟨pos', hpos', haverages'⟩ := applyBuyFills_averages hlookup hne'
      (fun d hd => hmint d (hperm.subset hd)) (fun d hd => hqty d (hperm.subset hd))
    exact ⟨pos', hpos', haverages.perm haverages' (hperm.map _)⟩

/-- A slice of two tokens. -/
def twoTokens (priceUsd : Decimal) (secs : Int) : BuyFill where
  fill := {
    orderId := "A#1"
    mint := "A"
    side := .buy
    qty := 2
    priceUsd := priceUsd
    notionalUsd := 2 * priceUsd
    feeUsd := 0
    ts := seconds secs }
  launchpad := .pumpFun
  liquidityUsd := 8000

theorem buy_fills_average_two :
    let e := Engine.new Config.paperDefaults () (.opened fun _ => true) 0
    let buys := [twoTokens 1 0, twoTokens 3 1]
    ∃ pos, (e.applyBuyFills buys).positions.lookup "A" = some pos ∧
      pos.Averages (buys.map fun b => b.fill) ∧
      (∃ lo ∈ buys, ∃ hi ∈ buys,
        (∀ b ∈ buys, lo.fill.priceUsd ≤ b.fill.priceUsd ∧ b.fill.priceUsd ≤ hi.fill.priceUsd) ∧
          lo.fill.priceUsd ≤ pos.entryPrice ∧ pos.entryPrice ≤ hi.fill.priceUsd) ∧
      ∀ buys' : List BuyFill, buys'.Perm buys →
        ∃ pos', (e.applyBuyFills buys').positions.lookup "A" = some pos' ∧
          pos'.qty = pos.qty ∧ pos'.costUsd = pos.costUsd ∧ pos'.entryPrice = pos.entryPrice ∧
          pos'.highWater = pos.highWater :=
  buy_fills_average (by decide +kernel) (by simp) (by decide +kernel) (by decide +kernel)

end Engine

end HfmcBot
