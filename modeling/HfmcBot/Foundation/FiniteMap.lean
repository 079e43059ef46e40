import Mathlib.Algebra.BigOperators.Group.Finset.Basic
import Mathlib.Algebra.Order.BigOperators.Group.Multiset
import Mathlib.Data.Finmap
import Mathlib.Data.List.Sort
import Mathlib.Tactic.Abel

/-!
# Finite maps with a total weight

A small kit over `Finmap` for maps whose values carry a weight (a cost, a
balance, a size):

* `total w m`, the sum of the weights of all values, and how it changes under
  `insert` and `erase`;
* the number of keys under `insert` and `erase`;
* `KeyOrder`, an arbitrary iteration order of the keys, for maps whose
  iteration order is unspecified, and `valuesIn`, the values in that order.

Nothing here depends on what the map stores.
-/

namespace HfmcBot
namespace Foundation

/-- Finite maps from `κ` to `ν`. -/
abbrev FiniteMap (κ ν : Type) := Finmap fun _ : κ => ν

namespace FiniteMap

variable {κ ν α : Type}

/-- The sum of the weights of all values. -/
def total [AddCommMonoid α] (w : ν → α) (m : FiniteMap κ ν) : α :=
  (m.entries.map fun entry => w entry.2).sum

@[simp] theorem total_empty [AddCommMonoid α] (w : ν → α) :
    total w (∅ : FiniteMap κ ν) = 0 := rfl

variable [DecidableEq κ]

theorem total_insert_of_notMem [AddCommMonoid α] (w : ν → α) {m : FiniteMap κ ν} {k : κ}
    (h : k ∉ m) (v : ν) : total w (m.insert k v) = w v + total w m := by
  rw [total, total, Finmap.entries_insert_of_notMem h, Multiset.map_cons, Multiset.sum_cons]

/-- Putting an erased entry back gives the map again. -/
theorem insert_erase_of_lookup {m : FiniteMap κ ν} {k : κ} {v : ν} (h : m.lookup k = some v) :
    (m.erase k).insert k v = m := by
  apply Finmap.ext_lookup
  intro j
  by_cases hj : j = k
  · subst hj
    rw [Finmap.lookup_insert, h]
  · rw [Finmap.lookup_insert_of_ne _ hj, Finmap.lookup_erase_ne hj]

/-- An insert does not see the entry it overwrites. -/
theorem insert_erase (m : FiniteMap κ ν) (k : κ) (v : ν) :
    (m.erase k).insert k v = m.insert k v := by
  apply Finmap.ext_lookup
  intro j
  by_cases hj : j = k
  · subst hj
    rw [Finmap.lookup_insert, Finmap.lookup_insert]
  · rw [Finmap.lookup_insert_of_ne _ hj, Finmap.lookup_insert_of_ne _ hj,
      Finmap.lookup_erase_ne hj]

/-- Erasing an entry takes exactly its weight out of the total. -/
theorem total_erase [AddCommMonoid α] (w : ν → α) {m : FiniteMap κ ν} {k : κ} {v : ν}
    (h : m.lookup k = some v) : w v + total w (m.erase k) = total w m := by
  rw [← total_insert_of_notMem w Finmap.notMem_erase_self v, insert_erase_of_lookup h]

/-- What holds of zero, of sums and of the weight of every value holds of the total. -/
theorem total_induction [AddCommMonoid α] {w : ν → α} {m : FiniteMap κ ν} (P : α → Prop)
    (hadd : ∀ x y, P x → P y → P (x + y)) (hzero : P 0)
    (hw : ∀ k v, m.lookup k = some v → P (w v)) : P (total w m) := by
  apply Multiset.sum_induction P _ hadd hzero
  intro x hx
  obtain ⟨⟨k, v⟩, hmem, rfl⟩ := Multiset.mem_map.mp hx
  exact hw k v (Finmap.mem_lookup_iff.mpr hmem)

/-- Overwriting an entry replaces its weight in the total. -/
theorem total_insert_of_lookup [AddCommMonoid α] (w : ν → α) {m : FiniteMap κ ν} {k : κ} {v : ν}
    (h : m.lookup k = some v) (v' : ν) :
    w v + total w (m.insert k v') = w v' + total w m := by
  rw [← insert_erase m k v', total_insert_of_notMem w Finmap.notMem_erase_self v',
    ← total_erase w h, add_left_comm]

/-- Overwriting an entry with one of the same weight keeps the total. -/
theorem total_insert_of_eq [AddCommGroup α] {w : ν → α} {m : FiniteMap κ ν} {k : κ} {v v' : ν}
    (h : m.lookup k = some v) (hw : w v' = w v) : total w (m.insert k v') = total w m := by
  have hinsert := total_insert_of_lookup w h v'
  rw [hw] at hinsert
  exact add_left_cancel hinsert

/-- An insert over an entry, or over a default of no weight, adds the difference. -/
theorem total_insert_getD [AddCommGroup α] {w : ν → α} {d : ν} (hd : w d = 0)
    (m : FiniteMap κ ν) (k : κ) (v' : ν) :
    total w (m.insert k v') = total w m + (w v' - w ((m.lookup k).getD d)) := by
  cases h : m.lookup k with
  | none =>
      rw [total_insert_of_notMem w (Finmap.lookup_eq_none.mp h), Option.getD_none, hd]
      abel
  | some v =>
      have hinsert := total_insert_of_lookup w h v'
      rw [Option.getD_some, eq_comm, ← sub_eq_zero]
      rw [← sub_eq_zero] at hinsert
      rw [← neg_eq_zero, ← hinsert]
      abel

/-! ## Keys -/

theorem keys_insert (m : FiniteMap κ ν) (k : κ) (v : ν) :
    (m.insert k v).keys = insert k m.keys := by
  ext j
  simp [Finmap.mem_keys, Finmap.mem_insert]

theorem card_keys_insert_of_notMem {m : FiniteMap κ ν} {k : κ} (h : k ∉ m) (v : ν) :
    (m.insert k v).keys.card = m.keys.card + 1 := by
  rw [keys_insert, Finset.card_insert_of_notMem (by rwa [Finmap.mem_keys])]

theorem card_keys_insert_of_mem {m : FiniteMap κ ν} {k : κ} (h : k ∈ m) (v : ν) :
    (m.insert k v).keys.card = m.keys.card := by
  rw [keys_insert, Finset.insert_eq_of_mem (by rwa [Finmap.mem_keys])]

theorem card_keys_erase_le (m : FiniteMap κ ν) (k : κ) :
    (m.erase k).keys.card ≤ m.keys.card := by
  rw [Finmap.keys_erase]
  exact Finset.card_erase_le

/-- A lookup after an insert: the new value at its key, the old map elsewhere. -/
theorem lookup_insert_eq_some {m : FiniteMap κ ν} {k j : κ} {v u : ν}
    (h : (m.insert k v).lookup j = some u) :
    (j = k ∧ u = v) ∨ (j ≠ k ∧ m.lookup j = some u) := by
  by_cases hj : j = k
  · subst hj
    rw [Finmap.lookup_insert] at h
    exact Or.inl ⟨rfl, (Option.some.inj h).symm⟩
  · rw [Finmap.lookup_insert_of_ne _ hj] at h
    exact Or.inr ⟨hj, h⟩

theorem lookup_singleton_eq_some {k j : κ} {v u : ν}
    (h : (Finmap.singleton k v : FiniteMap κ ν).lookup j = some u) : j = k ∧ u = v := by
  obtain rfl := (Finmap.mem_singleton _ _ _).mp (Finmap.mem_of_lookup_eq_some h)
  rw [Finmap.lookup_singleton_eq] at h
  exact ⟨rfl, (Option.some.inj h).symm⟩

/-- A lookup after an erase comes from another key of the old map. -/
theorem lookup_erase_eq_some {m : FiniteMap κ ν} {k j : κ} {u : ν}
    (h : (m.erase k).lookup j = some u) : j ≠ k ∧ m.lookup j = some u := by
  by_cases hj : j = k
  · subst hj
    rw [Finmap.lookup_erase] at h
    exact absurd h (by simp)
  · rw [Finmap.lookup_erase_ne hj] at h
    exact ⟨hj, h⟩

end FiniteMap

/-! ## Iteration in an unspecified order -/

/-- An iteration order: for every key set, a list of exactly its keys. -/
structure KeyOrder (κ : Type) where
  order : Finset κ → List κ
  order_eq : ∀ s, (order s : Multiset κ) = s.val

namespace KeyOrder

variable {κ : Type} (o : KeyOrder κ)

theorem nodup (s : Finset κ) : (o.order s).Nodup := by
  rw [← Multiset.coe_nodup, o.order_eq]
  exact s.nodup

@[simp] theorem mem_order {s : Finset κ} {k : κ} : k ∈ o.order s ↔ k ∈ s := by
  rw [← Multiset.mem_coe, o.order_eq, Finset.mem_val]

@[simp] theorem length_order (s : Finset κ) : (o.order s).length = s.card := by
  rw [← Multiset.coe_card, o.order_eq, Finset.card_val]

/-- Two iterations of one key set are permutations of each other. -/
theorem perm (o₁ o₂ : KeyOrder κ) (s : Finset κ) : (o₁.order s).Perm (o₂.order s) := by
  rw [← Multiset.coe_eq_coe, o₁.order_eq, o₂.order_eq]

/-- The keys in ascending order. -/
def ascending [LinearOrder κ] : KeyOrder κ where
  order s := Quot.liftOn s.val (fun keys => keys.insertionSort (· ≤ ·)) fun _ _ hperm =>
    ((List.perm_insertionSort _ _).trans
      (hperm.trans (List.perm_insertionSort _ _).symm)).eq_of_pairwise'
        (List.pairwise_insertionSort _ _) (List.pairwise_insertionSort _ _)
  order_eq s := by
    obtain ⟨keys, hkeys⟩ := s
    induction keys using Quotient.inductionOn with
    | h l => exact Multiset.coe_eq_coe.mpr (List.perm_insertionSort _ _)

theorem ascending_sorted [LinearOrder κ] (s : Finset κ) :
    (ascending.order s).Pairwise (· ≤ ·) := by
  obtain ⟨keys, hkeys⟩ := s
  induction keys using Quotient.inductionOn with
  | h l => exact List.pairwise_insertionSort _ _

/-- The same order backwards. -/
def reversed : KeyOrder κ where
  order s := (o.order s).reverse
  order_eq s := by
    rw [← o.order_eq s, Multiset.coe_eq_coe]
    exact List.reverse_perm _

/-- The same order but for one key set, which is visited as the list says. -/
def replaced [DecidableEq κ] (s : Finset κ) (keys : List κ) (h : (keys : Multiset κ) = s.val) :
    KeyOrder κ where
  order t := if t = s then keys else o.order t
  order_eq t := by
    split
    · rename_i hts
      rw [hts, h]
    · exact o.order_eq t

end KeyOrder

namespace FiniteMap

variable {κ ν α : Type} [DecidableEq κ]

/-- The values of a map, in the given iteration order of its keys. -/
def valuesIn (o : KeyOrder κ) (m : FiniteMap κ ν) : List ν :=
  (o.order m.keys).filterMap fun k => m.lookup k

theorem mem_valuesIn {o : KeyOrder κ} {m : FiniteMap κ ν} {v : ν} :
    v ∈ valuesIn o m ↔ ∃ k, m.lookup k = some v := by
  simp only [valuesIn, List.mem_filterMap, KeyOrder.mem_order]
  constructor
  · rintro ⟨k, -, hk⟩
    exact ⟨k, hk⟩
  · rintro ⟨k, hk⟩
    exact ⟨k, Finmap.mem_keys.mpr (Finmap.mem_of_lookup_eq_some hk), hk⟩

/-- Every value is visited exactly once. -/
theorem coe_valuesIn (o : KeyOrder κ) (m : FiniteMap κ ν) :
    (valuesIn o m : Multiset ν) = m.entries.map fun entry => entry.2 := by
  have hkeys : (o.order m.keys : Multiset κ) = m.entries.map Sigma.fst := o.order_eq m.keys
  have hlookup : ∀ entry ∈ m.entries, m.lookup entry.1 = some entry.2 := fun entry hentry =>
    Finmap.lookup_eq_some_iff.mpr hentry
  obtain ⟨l, hl⟩ := Quotient.exists_rep m.entries
  replace hl : (l : Multiset (Sigma fun _ : κ => ν)) = m.entries := hl
  calc (valuesIn o m : Multiset ν)
      = Multiset.filterMap (fun k => m.lookup k) (o.order m.keys : Multiset κ) := rfl
    _ = (l.filterMap fun entry => m.lookup entry.1 : List ν) := by
        rw [hkeys, Multiset.filterMap_map, ← hl]
        rfl
    _ = (l.filterMap fun entry => some entry.2 : List ν) := by
        rw [List.filterMap_congr fun entry hentry =>
          hlookup entry (by rw [← hl]; exact Multiset.mem_coe.mpr hentry)]
    _ = m.entries.map fun entry => entry.2 := by
        rw [← hl, Multiset.map_coe]
        exact congrArg _ (congrFun List.filterMap_eq_map l)

/-- When every value knows its key, the visited values list the visited keys. -/
theorem map_valuesIn {key : ν → κ} {m : FiniteMap κ ν}
    (h : ∀ k v, m.lookup k = some v → key v = k) (o : KeyOrder κ) :
    (valuesIn o m).map key = o.order m.keys := by
  rw [valuesIn, List.map_filterMap]
  have hsome : ∀ k ∈ o.order m.keys, (m.lookup k).map key = some k := by
    intro k hk
    obtain ⟨v, hv⟩ := Finmap.mem_iff.mp (Finmap.mem_keys.mp (o.mem_order.mp hk))
    rw [hv, Option.map_some, h k v hv]
  rw [List.filterMap_congr hsome, List.filterMap_some]

/-- A map built by inserting a list of values under their own keys. -/
def fromValues (key : ν → κ) (l : List ν) : FiniteMap κ ν :=
  l.foldl (fun m v => m.insert (key v) v) ∅

theorem lookup_foldl_insert {key : ν → κ} {l : List ν} (h : (l.map key).Nodup)
    (m : FiniteMap κ ν) (k : κ) :
    (l.foldl (fun m v => m.insert (key v) v) m).lookup k =
      (l.find? fun v => decide (key v = k)).or (m.lookup k) := by
  induction l generalizing m with
  | nil => rfl
  | cons v l ih =>
      rw [List.map_cons, List.nodup_cons] at h
      rw [List.foldl_cons, ih h.2]
      by_cases hk : key v = k
      · have hnone : l.find? (fun v => decide (key v = k)) = none := by
          rw [List.find?_eq_none]
          intro u hu heq
          exact h.1 (hk ▸ of_decide_eq_true heq ▸ List.mem_map_of_mem hu)
        rw [hnone, List.find?_cons_of_pos (by simpa using hk), ← hk, Finmap.lookup_insert]
        rfl
      · rw [List.find?_cons_of_neg (by simpa using hk),
          Finmap.lookup_insert_of_ne _ (Ne.symm hk)]

/-- Reinserting the visited values, in any order, gives the map back. -/
theorem fromValues_valuesIn {key : ν → κ} {m : FiniteMap κ ν}
    (h : ∀ k v, m.lookup k = some v → key v = k) {o : KeyOrder κ} {l : List ν}
    (hl : l.Perm (valuesIn o m)) : fromValues key l = m := by
  have hnodup : (l.map key).Nodup := by
    rw [(hl.map key).nodup_iff, map_valuesIn h]
    exact o.nodup _
  apply Finmap.ext_lookup
  intro k
  rw [fromValues, lookup_foldl_insert hnodup, Finmap.lookup_empty, Option.or_none]
  cases hlookup : m.lookup k with
  | none =>
      rw [List.find?_eq_none]
      intro v hv heq
      obtain ⟨j, hj⟩ := mem_valuesIn.mp (hl.mem_iff.mp hv)
      rw [← h j v hj, of_decide_eq_true heq, hlookup] at hj
      exact absurd hj (by simp)
  | some v =>
      have hmem : v ∈ l := hl.mem_iff.mpr (mem_valuesIn.mpr ⟨k, hlookup⟩)
      have hkey := h k v hlookup
      obtain ⟨u, hu⟩ : ∃ u, l.find? (fun v => decide (key v = k)) = some u :=
        Option.isSome_iff_exists.mp
          (List.find?_isSome.mpr ⟨v, hmem, decide_eq_true hkey⟩)
      have humem : u ∈ l := List.mem_of_find?_eq_some hu
      have hukey : key u = k := by
        have hfound := List.find?_some hu
        exact of_decide_eq_true hfound
      rw [hu, List.inj_on_of_nodup_map hnodup humem hmem (hukey.trans hkey.symm)]

theorem valuesIn_perm (o₁ o₂ : KeyOrder κ) (m : FiniteMap κ ν) :
    (valuesIn o₁ m).Perm (valuesIn o₂ m) :=
  (KeyOrder.perm o₁ o₂ m.keys).filterMap _

/-- A sum over the visited values does not depend on the order. -/
theorem sum_valuesIn [AddCommMonoid α] (w : ν → α) (o : KeyOrder κ) (m : FiniteMap κ ν) :
    ((valuesIn o m).map w).sum = total w m := by
  rw [← Multiset.sum_coe, ← Multiset.map_coe, coe_valuesIn, Multiset.map_map]
  rfl

end FiniteMap

/-! ## Collecting from lists -/

/-- Every order of what is picked out of a list comes from an order of the list. -/
theorem exists_perm_filterMap {α β : Type} {f : α → Option β} {zs ys : List β} (h : zs.Perm ys)
    {l : List α} (hl : l.filterMap f = zs) : ∃ l' : List α, l'.Perm l ∧ l'.filterMap f = ys := by
  induction h generalizing l with
  | nil => exact ⟨l, List.Perm.refl _, hl⟩
  | cons z _ ih =>
      obtain ⟨l₁, a, l₂, rfl, hnone, ha, hrest⟩ := List.filterMap_eq_cons_iff.mp hl
      obtain ⟨l', hperm, hl'⟩ := ih hrest
      refine ⟨l₁ ++ a :: l', (hperm.cons a).append_left l₁, ?_⟩
      rw [List.filterMap_append, List.filterMap_eq_nil_iff.mpr hnone, List.nil_append,
        List.filterMap_cons_some ha, hl']
  | swap z z' ws =>
      obtain ⟨l₁, a, l₂, rfl, hnone, ha, hrest⟩ := List.filterMap_eq_cons_iff.mp hl
      obtain ⟨l₃, a', l₄, rfl, hnone', ha', hrest'⟩ := List.filterMap_eq_cons_iff.mp hrest
      refine ⟨a' :: l₁ ++ l₃ ++ a :: l₄, ?_, ?_⟩
      · have hleft : (a' :: l₁ ++ l₃ ++ a :: l₄).Perm (a' :: a :: (l₁ ++ l₃ ++ l₄)) :=
          (List.perm_middle : (l₁ ++ l₃ ++ a :: l₄).Perm _).cons a'
        have hright : (l₁ ++ a :: (l₃ ++ a' :: l₄)).Perm (a :: a' :: (l₁ ++ l₃ ++ l₄)) := by
          rw [List.append_assoc l₁ l₃ l₄]
          exact List.perm_middle.trans
            (((List.perm_middle.append_left l₁).trans List.perm_middle).cons a)
        exact hleft.trans ((List.Perm.swap _ _ _).trans hright.symm)
      · rw [List.append_assoc, List.cons_append, List.filterMap_cons_some ha',
          List.filterMap_append, List.filterMap_append, List.filterMap_eq_nil_iff.mpr hnone,
          List.filterMap_eq_nil_iff.mpr hnone', List.nil_append, List.nil_append,
          List.filterMap_cons_some ha, hrest']
  | trans _ _ ih₁ ih₂ =>
      obtain ⟨l₁, hperm₁, hl₁⟩ := ih₁ hl
      obtain ⟨l₂, hperm₂, hl₂⟩ := ih₂ hl₁
      exact ⟨l₂, hperm₂.trans hperm₁, hl₂⟩

/-- What a filter picks out of a list with distinct keys has distinct keys. -/
theorem nodup_map_filterMap {α β κ : Type} {f : α → Option β} {key : α → κ} {key' : β → κ}
    (hkey : ∀ a b, f a = some b → key' b = key a) {l : List α} (h : (l.map key).Nodup) :
    ((l.filterMap f).map key').Nodup := by
  have hsub : ((l.filterMap f).map key').Sublist (l.map key) := by
    clear h
    induction l with
    | nil => exact List.Sublist.slnil
    | cons a l ih =>
        cases hfa : f a with
        | none =>
            rw [List.filterMap_cons_none hfa, List.map_cons]
            exact ih.cons _
        | some b =>
            rw [List.filterMap_cons_some hfa, List.map_cons, List.map_cons, hkey a b hfa]
            exact ih.cons_cons _
  exact h.sublist hsub

end Foundation
end HfmcBot
