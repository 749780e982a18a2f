/-
Lists put into another order: by swaps, by sorting and by picking.

A shuffle that only swaps keeps the elements whatever the draws are ([`shuffle_perm`]).
Sorting numbers by their difference, as a script does, keeps them too, and of an order
of `0..n-1` makes `0..n-1` ([`sort_numbers`]). Picking the elements of a list by an
order of its indices puts the list into that order ([`pick_perm`]).

Nothing in this file names a program.
-/
import SequentialNear.JsonSpec
import Mathlib.Data.Set.List

set_option autoImplicit false

namespace SequentialNear

/-! ## Orders of `0..n-1` -/

section Order

variable {n : Nat} {permutation : List Nat}

theorem lt_of_mem_permutation (hp : permutation.Perm (List.range n)) {i : Nat}
    (hi : i ∈ permutation) : i < n := List.mem_range.1 (hp.mem_iff.1 hi)

theorem length_of_permutation (hp : permutation.Perm (List.range n)) : permutation.length = n := by
  rw [hp.length_eq, List.length_range]

end Order

/-! ## Shuffling -/

/-- What is drawn at each step of a shuffle: at step `i`, an index up to `i`. -/
abbrev Draws : Type := (i : Nat) → Fin (i + 1)

section Shuffle

variable {α : Type}

/-- From the index `i` down to 1, swap the element there with the one drawn. -/
def shuffle (draw : Draws) : Nat → List α → List α
  | 0, arr => arr
  | i + 1, arr => shuffle draw i (arr.swap (i + 1) (draw (i + 1)))

/-- **A shuffle loses nothing and makes nothing up.** -/
theorem shuffle_perm (draw : Draws) (i : Nat) (arr : List α) : (shuffle draw i arr).Perm arr := by
  induction i generalizing arr with
  | zero => exact .refl arr
  | succ i ih => exact (ih _).trans (List.swap_perm arr _ _)

end Shuffle

/-! ## Sorting numbers -/

/-- `a - b`; `none` is `NaN`. -/
def minus : Number → Number → Option Number
  | .finite a, .finite b => some (toDouble (a - b))
  | .finite _, .infinite negative => some (.infinite (!negative))
  | .infinite negative, .finite _ => some (.infinite negative)
  | .infinite negative, .infinite negative' =>
    if negative = negative' then none else some (.infinite negative)

def Number.positive : Number → Bool
  | .finite q => 0 < q
  | .infinite negative => !negative

/-- `xs.sort(compare)`: an element may not stand before another when `compare` of the
two is positive. `NaN` counts as zero. -/
def sort (compare : Number → Number → Option Number) (xs : List Number) : List Number :=
  xs.mergeSort fun a b => !(compare a b).any Number.positive

theorem sort_perm (compare : Number → Number → Option Number) (xs : List Number) :
    (sort compare xs).Perm xs := List.mergeSort_perm xs _

/-- Natural numbers as JavaScript has them. -/
def numbers (xs : List Nat) : List Number := xs.map fun i : Nat => .finite i

theorem finite_injective : Function.Injective fun i : Nat => Number.finite i := by
  intro i j h
  injection h with h
  exact Nat.cast_injective h

/-- What has the elements of a list of naturals is one. -/
theorem numbers_of_perm {xs : List Number} {ys : List Nat} (h : xs.Perm (numbers ys)) :
    ∃ zs, xs = numbers zs ∧ zs.Perm ys := by
  have hrange : xs ∈ Set.range (List.map fun i : Nat => Number.finite i) := by
    rw [Set.range_list_map]
    intro x hx
    obtain ⟨i, -, rfl⟩ := List.mem_map.1 (h.mem_iff.1 hx)
    exact ⟨i, rfl⟩
  obtain ⟨zs, rfl⟩ := hrange
  exact ⟨zs, rfl, (List.map_perm_map_iff finite_injective).1 h⟩

theorem roundEven_nonpos {q : ℚ} (hq : q ≤ 0) : roundEven q ≤ 0 := by
  have hfloor : ⌊q⌋ ≤ 0 := Int.floor_nonpos hq
  -- zero is rounded to zero, and below zero the next integer is at most zero
  rcases eq_or_lt_of_le hfloor with hzero | hneg
  · have hq : q = 0 := le_antisymm hq (Int.floor_eq_zero_iff.1 hzero).1
    rw [hq]
    exact (roundEven_int 0).le
  · simp only [roundEven]
    split_ifs <;> omega

/-- Rounding makes nothing positive. -/
theorem toDouble_nonpos {q : ℚ} (hq : q ≤ 0) : (toDouble q).positive = false := by
  unfold toDouble
  split
  · rfl
  · rename_i hne
    have hlt : q < 0 := lt_of_le_of_ne hq hne
    simp only
    split
    · simp [Number.positive, hlt]
    · simp only [Number.positive, decide_eq_false_iff_not, not_lt]
      have hpow : ∀ last : ℤ, (0 : ℚ) ≤ 2 ^ last := fun last => (zpow_pos two_pos last).le
      refine mul_nonpos_of_nonpos_of_nonneg ?_ (hpow _)
      exact_mod_cast roundEven_nonpos (div_nonpos_of_nonpos_of_nonneg hq (hpow _))

theorem minus_positive {i j : Nat} (hi : i < 2 ^ 53) :
    (minus (.finite i) (.finite j)).any Number.positive = decide (j < i) := by
  rw [minus, Option.any_some]
  by_cases h : j < i
  · have hsub : ((i : ℚ) - j) = ((i - j : ℕ) : ℚ) := (Nat.cast_sub h.le).symm
    rw [hsub, toDouble_nat (by omega)]
    simp [Number.positive, h]
  · rw [toDouble_nonpos (by simpa using Nat.le_of_not_lt h)]
    simp [h]

/-- **An order of `0..n-1` is sorted into `0..n-1`.** -/
theorem sort_numbers {n : Nat} (hn : n ≤ 2 ^ 53) {xs : List Nat} (h : xs.Perm (List.range n)) :
    sort minus (numbers xs) = numbers (List.range n) := by
  have hlt : ∀ i ∈ xs, i < 2 ^ 53 := fun i hi => (lt_of_mem_permutation h hi).trans_le hn
  have hle : ∀ i ∈ xs, ∀ j ∈ xs, decide (i ≤ j) =
      !(minus (.finite i) (.finite j)).any Number.positive := by
    intro i hi j _
    rw [minus_positive (hlt i hi), ← decide_not, decide_eq_decide, not_lt]
  rw [sort, numbers, ← List.map_mergeSort hle, numbers]
  congr 1
  have hsorted : (xs.mergeSort fun i j => decide (i ≤ j)).Pairwise fun i j => decide (i ≤ j) := by
    refine List.pairwise_mergeSort ?_ ?_ xs
    · intro i j k hij hjk
      exact decide_eq_true ((of_decide_eq_true hij).trans (of_decide_eq_true hjk))
    · intro i j
      simp [Nat.le_total]
  have hrange : (List.range n).Pairwise fun i j => decide (i ≤ j) :=
    List.pairwise_lt_range.imp fun hlt => decide_eq_true hlt.le
  -- both are sorted, and have the same elements
  refine List.Perm.eq_of_pairwise ?_ hsorted hrange ((List.mergeSort_perm _ _).trans h)
  intro i j _ _ hij hji
  exact le_antisymm (of_decide_eq_true hij) (of_decide_eq_true hji)

/-! ## Picking by index -/

section Pick

variable {α β : Type}

theorem mapM_eq_some_iff {f : α → Option β} {xs : List α} {ys : List β} :
    xs.mapM f = some ys ↔ xs.map f = ys.map some := by
  induction xs generalizing ys with
  | nil => cases ys <;> simp
  | cons x xs ih =>
    rw [List.mapM_cons, List.map_cons]
    cases ys with
    | nil => simp [Option.bind_eq_some_iff]
    | cons y ys => simp [Option.bind_eq_some_iff, ih, List.cons.injEq]

theorem map_getElem?_range (xs : List α) :
    (List.range xs.length).map (xs[·]?) = xs.map some := by
  refine List.ext_getElem? fun i => ?_
  rw [List.getElem?_map, List.getElem?_map]
  by_cases h : i < xs.length
  · rw [List.getElem?_range h, Option.map_some, List.getElem?_eq_getElem h, Option.map_some]
  · rw [List.getElem?_eq_none (by simpa using h), List.getElem?_eq_none (not_lt.1 h)]
    rfl

/-- **Picking by an order of the indices.** -/
theorem pick_perm {xs : List α} {order : List Nat} (h : order.Perm (List.range xs.length)) :
    ∃ ys : List α, order.map (xs[·]?) = ys.map some ∧ ys.Perm xs := by
  have hperm : (order.map (xs[·]?)).Perm (xs.map some) := map_getElem?_range xs ▸ h.map _
  -- nothing picked is missing
  have hsome : (order.filterMap (xs[·]?)).map some = order.map (xs[·]?) := by
    rw [List.map_filterMap_some_eq_filter_map_isSome, List.filter_eq_self]
    intro x hx
    obtain ⟨y, -, rfl⟩ := List.mem_map.1 (hperm.mem_iff.1 hx)
    rfl
  rw [← hsome] at hperm
  exact ⟨_, hsome.symm, (List.map_perm_map_iff (Option.some_injective α)).1 hperm⟩

end Pick

end SequentialNear
