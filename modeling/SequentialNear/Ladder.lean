/-
Ladders: lists of caps with a payload, and the first cap that covers a size.

Caps live in any linear order. [`cover`] scans from the front and stops at the first
cap that is large enough, and on a strictly ascending ladder that is the smallest
such cap and the only one ([`cover_eq_some`], [`Least.unique`]).
-/
import Mathlib.Order.Lattice
import Mathlib.Data.List.Pairwise

set_option autoImplicit false

namespace SequentialNear.Ladder

variable {κ β : Type*} [LinearOrder κ]

/-- The caps ascend strictly. -/
def Ascending (tiers : List (κ × β)) : Prop := tiers.Pairwise fun t u => t.1 < u.1

/-- The first tier whose cap is at least `n`. -/
def cover (tiers : List (κ × β)) (n : κ) : Option (κ × β) := tiers.find? fun t => n ≤ t.1

/-- `t` covers `n`, and no covering tier has a smaller cap. -/
structure Least (tiers : List (κ × β)) (n : κ) (t : κ × β) : Prop where
  mem : t ∈ tiers
  covers : n ≤ t.1
  least : ∀ u ∈ tiers, n ≤ u.1 → t.1 ≤ u.1

variable {tiers : List (κ × β)} {n : κ} {t u : κ × β}

/-- **First fit is best fit** on a strictly ascending ladder. -/
theorem cover_least (h : Ascending tiers) (hc : cover tiers n = some t) : Least tiers n t := by
  obtain ⟨hcov, pre, post, rfl, hpre⟩ := List.find?_eq_some_iff_append.1 hc
  refine ⟨List.mem_append_right _ List.mem_cons_self, of_decide_eq_true hcov, ?_⟩
  intro u hu hn
  rcases List.mem_append.1 hu with hu | hu
  -- what the scan passed over does not cover
  · exact absurd (decide_eq_true hn) (by simpa using hpre u hu)
  rcases List.mem_cons.1 hu with rfl | hu
  · exact le_rfl
  · exact (List.rel_of_pairwise_cons (List.pairwise_append.1 h).2.1 hu).le

/-- Two tiers with one cap are one tier. -/
theorem cap_injective (h : Ascending tiers) (ht : t ∈ tiers) (hu : u ∈ tiers)
    (heq : t.1 = u.1) : t = u := by
  have hall : ∀ ⦃t⦄, t ∈ tiers → ∀ ⦃u⦄, u ∈ tiers → t.1 = u.1 → t = u := by
    refine List.Pairwise.forall_of_forall_of_flip (fun _ _ _ => rfl) ?_ ?_
    · exact h.imp fun hlt heq => absurd heq hlt.ne
    · exact h.imp fun hlt heq => absurd heq hlt.ne'
  exact hall ht hu heq

theorem Least.unique (h : Ascending tiers) (ht : Least tiers n t) (hu : Least tiers n u) : u = t :=
  cap_injective h hu.mem ht.mem
    (le_antisymm (hu.least t ht.mem ht.covers) (ht.least u hu.mem hu.covers))

/-- The scan ends empty-handed when every cap is too small. -/
theorem cover_eq_none : cover tiers n = none ↔ ∀ u ∈ tiers, u.1 < n := by
  simp [cover, List.find?_eq_none]

/-- The scan finds what is least, and nothing else. -/
theorem cover_eq_some (h : Ascending tiers) : cover tiers n = some t ↔ Least tiers n t := by
  refine ⟨cover_least h, fun ht => ?_⟩
  cases hc : cover tiers n with
  | none => exact absurd (cover_eq_none.1 hc t ht.mem) (not_lt.2 ht.covers)
  | some u => rw [ht.unique h (cover_least h hc)]

/-- Every tier but the least one that covers `n` is too small for it or larger still. -/
theorem least_iff (h : Ascending tiers) :
    Least tiers n t ↔ t ∈ tiers ∧ n ≤ t.1 ∧ ∀ u ∈ tiers, u ≠ t → u.1 < n ∨ t.1 < u.1 := by
  constructor
  · intro ht
    refine ⟨ht.mem, ht.covers, fun u hu hne => ?_⟩
    by_cases hn : n ≤ u.1
    · exact .inr (lt_of_le_of_ne (ht.least u hu hn) fun heq =>
        hne (cap_injective h hu ht.mem heq.symm))
    · exact .inl (not_le.1 hn)
  · rintro ⟨hmem, hcov, hother⟩
    refine ⟨hmem, hcov, fun u hu hn => ?_⟩
    by_cases heq : u = t
    · rw [heq]
    · exact ((hother u hu heq).resolve_left (not_lt.2 hn)).le

/-- The last cap is the largest one. -/
theorem le_last (h : Ascending tiers) (hlast : tiers.getLast? = some t) (hu : u ∈ tiers) :
    u.1 ≤ t.1 := by
  obtain ⟨before, rfl⟩ := List.getLast?_eq_some_iff.1 hlast
  rcases List.mem_append.1 hu with hu | hu
  · exact ((List.pairwise_append.1 h).2.2 u hu t (List.mem_singleton_self t)).le
  · rw [List.mem_singleton.1 hu]

/-- So what is too small by the last cap is too small by all. -/
theorem cover_eq_none_iff_last (h : Ascending tiers) (hlast : tiers.getLast? = some t) :
    cover tiers n = none ↔ t.1 < n := by
  rw [cover_eq_none]
  exact ⟨fun hall => hall t (List.mem_of_getLast? hlast),
    fun hlt u hu => (le_last h hlast hu).trans_lt hlt⟩

/-- The head of a ladder covers everything up to its cap. -/
theorem cover_head {tiers : List (κ × β)} (h : n ≤ t.1) : cover (t :: tiers) n = some t :=
  List.find?_cons_of_pos (decide_eq_true h)

end SequentialNear.Ladder
