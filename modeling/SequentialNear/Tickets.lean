/-
One-shot tickets, over an arbitrary type of outcomes.

A ticket is **minted** with the next number and held under a fresh *hold*. The
hold is closed once: it is **released** by someone, or it **lapses** by itself.
Either way the ticket is then **settled**, with some outcome. This is what a
yield is to the intent that waits for it, and nothing here names either.

Two bookkeepers look at a ticket: `hold` says which tickets are still held,
`ticket` which holds are still open and whose they are. They disagree between a
lapse and its settlement, when the hold is closed and the ticket is still
listed as held; [`Inv`] says that this is the only disagreement, and that every
number below `next` is accounted for exactly once.
-/
import Mathlib.Data.List.Perm.Subperm
import Mathlib.Data.List.Nodup
import Mathlib.Data.List.Count
import Mathlib.Logic.Function.Basic

set_option autoImplicit false

namespace SequentialNear.Tickets

variable {ω : Type}

/-- The books. `lapsed` and `released` hold what is not settled yet; `releases`
is the history of all releases. -/
structure Books (ω : Type) where
  next : Nat
  next_hold : Nat
  hold : Nat → Option Nat
  ticket : Nat → Option Nat
  lapsed : List (Nat × Nat)
  released : List Nat
  settled : List (Nat × ω)
  releases : List Nat

namespace Books

/-- No ticket yet. -/
def empty : Books ω := ⟨0, 0, fun _ => none, fun _ => none, [], [], [], []⟩

open Function in
/-- What can happen to a ticket. -/
inductive Step (k : Books ω) : Books ω → Prop
  | idle : Step k k
  | mint : Step k { k with
      next := k.next + 1
      next_hold := k.next_hold + 1
      hold := update k.hold k.next (some k.next_hold)
      ticket := update k.ticket k.next_hold (some k.next) }
  | release {t h u : Nat} (hhold : k.hold t = some h) (hopen : k.ticket h = some u) :
      Step k { k with
        hold := update k.hold t none
        ticket := update k.ticket h none
        released := k.released ++ [u]
        releases := k.releases ++ [t] }
  | lapse {t h : Nat} (hopen : k.ticket h = some t) :
      Step k { k with
        ticket := update k.ticket h none
        lapsed := k.lapsed ++ [(h, t)] }
  /-- Settling a released ticket may strike it off `hold` a second time. -/
  | settle {pre post : List Nat} {t : Nat} {w : ω} {hold : Nat → Option Nat}
      (hrel : k.released = pre ++ t :: post)
      (hhold : hold = k.hold ∨ hold = update k.hold t none) :
      Step k { k with
        hold := hold
        released := pre ++ post
        settled := k.settled ++ [(t, w)] }
  | settle_lapsed {pre post : List (Nat × Nat)} {h t : Nat} {w : ω}
      (hlap : k.lapsed = pre ++ (h, t) :: post) :
      Step k { k with
        hold := update k.hold t none
        lapsed := pre ++ post
        settled := k.settled ++ [(t, w)] }

/-- `1` for a held ticket. -/
def held (k : Books ω) (t : Nat) : Nat := if (k.hold t).isSome then 1 else 0

/-- `1` for a ticket that has been minted. -/
def minted (k : Books ω) (t : Nat) : Nat := if t < k.next then 1 else 0

/-- How often a ticket has been settled. -/
def settlements (k : Books ω) (t : Nat) : Nat := (k.settled.map Prod.fst).count t

/-- **The accounts balance.** -/
structure Inv (k : Books ω) : Prop where
  once : ∀ t, k.held t + k.released.count t + k.settlements t = k.minted t
  releases : ∀ t, k.held t + k.releases.count t ≤ k.minted t
  open_held : ∀ h t, k.ticket h = some t → k.hold t = some h
  lapsed_held : ∀ h t, (h, t) ∈ k.lapsed → k.hold t = some h
  lapsed_closed : ∀ h t, (h, t) ∈ k.lapsed → k.ticket h = none
  lapsed_nodup : (k.lapsed.map Prod.fst).Nodup
  held_under : ∀ t h, k.hold t = some h → k.ticket h = some t ∨ (h, t) ∈ k.lapsed
  fresh : ∀ t h, k.hold t = some h → h < k.next_hold

theorem inv_empty : (empty : Books ω).Inv where
  once t := by simp [empty, held, settlements, minted]
  releases t := by simp [empty, held, minted]
  open_held h t hh := by cases hh
  lapsed_held h t hh := by cases hh
  lapsed_closed h t hh := by cases hh
  lapsed_nodup := List.nodup_nil
  held_under t h hh := by cases hh
  fresh t h hh := by cases hh

/-- A ticket is held from the step that mints it, or never again. -/
theorem Step.hold_gone {k k' : Books ω} (h : k.Step k') {t : Nat} (ht : t < k.next)
    (hgone : k.hold t = none) : k'.hold t = none ∧ t < k'.next := by
  have hupdate : ∀ u, Function.update k.hold u none t = none := by
    intro u
    by_cases hu : t = u
    · rw [hu, Function.update_self]
    · rw [Function.update_of_ne hu, hgone]
  cases h with
  | idle => exact ⟨hgone, ht⟩
  | mint =>
    refine ⟨?_, Nat.lt_succ_of_lt ht⟩
    show Function.update k.hold k.next (some k.next_hold) t = none
    rw [Function.update_of_ne (Nat.ne_of_lt ht), hgone]
  | release => exact ⟨hupdate _, ht⟩
  | lapse => exact ⟨hgone, ht⟩
  | settle hrel hhold =>
    rcases hhold with rfl | rfl
    · exact ⟨hgone, ht⟩
    · exact ⟨hupdate _, ht⟩
  | settle_lapsed => exact ⟨hupdate _, ht⟩

/-- A new ticket is held. -/
theorem Step.hold_new {k k' : Books ω} (h : k.Step k') {t : Nat} (ht : k.next ≤ t)
    (ht' : t < k'.next) : (k'.hold t).isSome = true := by
  cases h with
  | mint =>
    have heq : t = k.next := Nat.le_antisymm (Nat.lt_succ_iff.1 ht') ht
    show (Function.update k.hold k.next (some k.next_hold) t).isSome = true
    rw [heq, Function.update_self]
    rfl
  | _ => exact absurd ht' (Nat.not_lt.2 ht)

/-- Nothing is minted back. -/
theorem Step.next_le {k k' : Books ω} (h : k.Step k') : k.next ≤ k'.next := by
  cases h with
  | mint => exact Nat.le_succ _
  | _ => exact Nat.le_refl _

namespace Inv

variable {k k' : Books ω}

theorem held_eq_one {t h : Nat} (hh : k.hold t = some h) : k.held t = 1 := by
  simp only [held, hh, Option.isSome_some, if_true]

/-- A held ticket has been minted, and neither released nor settled. -/
theorem of_held (hk : k.Inv) {t h : Nat} (hh : k.hold t = some h) :
    t < k.next ∧ k.released.count t = 0 ∧ k.settlements t = 0 ∧ k.releases.count t = 0 := by
  have honce := hk.once t
  have hrel := hk.releases t
  rw [held_eq_one hh] at honce hrel
  unfold minted at honce hrel
  split at honce
  · rename_i hlt
    rw [if_pos hlt] at hrel
    exact ⟨hlt, by omega, by omega, by omega⟩
  · omega

/-- A lapsed ticket is held, and lapsed once. -/
theorem lapsed_count_le (hk : k.Inv) (t : Nat) : (k.lapsed.map Prod.snd).count t ≤ k.held t := by
  by_cases ht : t ∈ k.lapsed.map Prod.snd
  · obtain ⟨⟨h, t⟩, hmem, rfl⟩ := List.mem_map.1 ht
    have hhold := hk.lapsed_held h t hmem
    rw [held_eq_one hhold]
    have hnodup : (k.lapsed.map Prod.snd).Nodup := by
      refine List.Nodup.map_on ?_ (hk.lapsed_nodup.of_map _)
      rintro ⟨g, u⟩ hg ⟨g', u'⟩ hg' rfl
      have hsame := (hk.lapsed_held g u hg).symm.trans (hk.lapsed_held g' u hg')
      rw [Option.some.inj hsame]
    exact List.nodup_iff_count_le_one.1 hnodup t
  · rw [List.count_eq_zero.2 ht]
    exact Nat.zero_le _

/-- A ticket that waits for its settlement is not held. -/
theorem of_released (hk : k.Inv) {t : Nat} (ht : t ∈ k.released) :
    k.hold t = none ∧ t < k.next ∧ k.settlements t = 0 := by
  have honce := hk.once t
  have hpos : 0 < k.released.count t := List.count_pos_iff.2 ht
  unfold minted at honce
  split at honce
  · rename_i hlt
    refine ⟨?_, hlt, by omega⟩
    cases hh : k.hold t with
    | none => rfl
    | some h =>
      have := held_eq_one hh
      omega
  · omega

/-- Two tickets are not held under one hold. -/
theorem hold_inj (hk : k.Inv) {t u h : Nat} (ht : k.hold t = some h) (hu : k.hold u = some h) :
    t = u := by
  -- an open hold names its ticket, a lapsed one is listed once; it cannot be both
  rcases hk.held_under t h ht with hot | hlt
  · rcases hk.held_under u h hu with hou | hlu
    · exact Option.some.inj (hot.symm.trans hou)
    · have := hk.lapsed_closed h u hlu
      rw [this] at hot
      cases hot
  · rcases hk.held_under u h hu with hou | hlu
    · have := hk.lapsed_closed h t hlt
      rw [this] at hou
      cases hou
    · have := List.inj_on_of_nodup_map hk.lapsed_nodup hlt hlu rfl
      exact congrArg Prod.snd this

/-- The two bookkeepers agree on the ticket a release is about. -/
theorem release_same (hk : k.Inv) {t h u : Nat} (ht : k.hold t = some h)
    (hu : k.ticket h = some u) : u = t :=
  hk.hold_inj (hk.open_held h u hu) ht

/-- Settling a released ticket leaves `hold` as it is. -/
theorem settle_hold (hk : k.Inv) {t : Nat} {hold : Nat → Option Nat} (ht : t ∈ k.released)
    (hhold : hold = k.hold ∨ hold = Function.update k.hold t none) : hold = k.hold := by
  rcases hhold with rfl | rfl
  · rfl
  · rw [← (hk.of_released ht).1, Function.update_eq_self]

/-- A ticket whose settlement is pending is unsettled and has been minted. -/
theorem of_pending (hk : k.Inv) {t : Nat} (ht : t ∈ k.released ∨ ∃ h, (h, t) ∈ k.lapsed) :
    t < k.next ∧ k.settlements t = 0 := by
  rcases ht with ht | ⟨h, ht⟩
  · exact (hk.of_released ht).2
  · have := hk.of_held (hk.lapsed_held h t ht)
    exact ⟨this.1, this.2.2.1⟩

/-- While a settlement is pending, fewer tickets are settled than minted. -/
theorem settled_lt (hk : k.Inv) {t : Nat} (ht : t ∈ k.released ∨ ∃ h, (h, t) ∈ k.lapsed) :
    k.settled.length < k.next := by
  obtain ⟨hlt, hzero⟩ := hk.of_pending ht
  have hle : ∀ u, k.settlements u ≤ k.minted u := fun u => by
    have := hk.once u
    omega
  -- no ticket settles twice, and `t` has not settled
  have hnodup : (t :: k.settled.map Prod.fst).Nodup := by
    rw [List.nodup_cons, ← List.count_eq_zero, List.nodup_iff_count_le_one]
    refine ⟨hzero, fun u => Nat.le_trans (hle u) ?_⟩
    unfold minted
    split <;> omega
  -- pigeonhole: all of them are numbers below `next`
  have hsub : t :: k.settled.map Prod.fst ⊆ List.range k.next := by
    intro u hu
    rw [List.mem_range]
    rcases List.mem_cons.1 hu with rfl | hu
    · exact hlt
    · have hpos : 0 < k.settlements u := List.count_pos_iff.2 hu
      have hmint := hle u
      unfold minted at hmint
      split at hmint
      · assumption
      · omega
  have hlen := (List.subperm_of_subset hnodup hsub).length_le
  rw [List.length_cons, List.length_map, List.length_range] at hlen
  exact hlen

/-- **Every minted ticket is in exactly one place**, with the held ones listed by
`keys`. -/
theorem perm (hk : k.Inv) {keys : List Nat} (hnodup : keys.Nodup)
    (hkeys : ∀ t, t ∈ keys ↔ (k.hold t).isSome = true) :
    (keys ++ k.released ++ k.settled.map Prod.fst).Perm (List.range k.next) := by
  rw [List.perm_iff_count]
  intro t
  have hcount : keys.count t = k.held t := by
    unfold held
    split
    · rename_i h
      exact List.count_eq_one_of_mem hnodup ((hkeys t).2 h)
    · rename_i h
      exact List.count_eq_zero.2 fun ht => h ((hkeys t).1 ht)
  have hrange : (List.range k.next).count t = k.minted t := by
    unfold minted
    split
    · rename_i h
      exact List.count_eq_one_of_mem List.nodup_range (List.mem_range.2 h)
    · rename_i h
      exact List.count_eq_zero.2 fun ht => h (List.mem_range.1 ht)
  rw [List.count_append, List.count_append, hcount, hrange]
  exact hk.once t

/-! ## Every step keeps the accounts -/

theorem held_update {f : Nat → Option Nat} {t u : Nat} {o : Option Nat} :
    (if (Function.update f t o u).isSome then 1 else 0) =
      if u = t then (if o.isSome then 1 else 0) else if (f u).isSome then 1 else 0 := by
  by_cases hut : u = t
  · subst hut
    simp
  · simp [hut]

/-- Closing one entry leaves the others. -/
theorem update_none {f : Nat → Option Nat} {t u h : Nat} :
    Function.update f t none u = some h ↔ u ≠ t ∧ f u = some h := by
  by_cases hut : u = t
  · subst hut
    simp
  · simp [hut]

theorem mint (hk : k.Inv) : ({ k with
      next := k.next + 1
      next_hold := k.next_hold + 1
      hold := Function.update k.hold k.next (some k.next_hold)
      ticket := Function.update k.ticket k.next_hold (some k.next) } : Books ω).Inv := by
  -- neither the number nor the hold is in use
  have hnum : k.hold k.next = none := by
    cases hh : k.hold k.next with
    | none => rfl
    | some h => exact absurd (hk.of_held hh).1 (Nat.lt_irrefl _)
  have hfree : ∀ t, k.hold t ≠ some k.next_hold := fun t ht =>
    absurd (hk.fresh t _ ht) (Nat.lt_irrefl _)
  constructor
  · -- `once`: the new ticket is held, and nothing else about it has happened
    intro t
    have := hk.once t
    simp only [held, settlements, minted, held_update, Option.isSome_some] at this ⊢
    by_cases ht : t = k.next
    · subst ht
      simp only [hnum] at this
      simp_all
    · have hlt : t < k.next + 1 ↔ t < k.next := by omega
      simpa only [ht, hlt, if_false] using this
  · -- `releases`
    intro t
    have := hk.releases t
    simp only [held, minted, held_update, Option.isSome_some] at this ⊢
    by_cases ht : t = k.next
    · subst ht
      simp only [hnum] at this
      simp_all
    · have hlt : t < k.next + 1 ↔ t < k.next := by omega
      simpa only [ht, hlt, if_false] using this
  · -- `open_held`: only the fresh hold names the new ticket
    intro h t hopen
    simp only [Function.update_apply] at hopen ⊢
    split at hopen
    · rename_i hh
      cases hopen
      rw [if_pos rfl, hh]
    · have hheld := hk.open_held h t hopen
      split
      · rename_i htn
        rw [htn, hnum] at hheld
        cases hheld
      · exact hheld
  · intro h t hmem
    have hheld := hk.lapsed_held h t hmem
    simp only [Function.update_apply]
    split
    · rename_i htn
      rw [htn, hnum] at hheld
      cases hheld
    · exact hheld
  · -- `lapsed_closed`: the hold that is opened was never lapsed
    intro h t hmem
    have hne : h ≠ k.next_hold := by
      rintro rfl
      exact hfree t (hk.lapsed_held _ t hmem)
    simpa only [Function.update_apply, if_neg hne] using hk.lapsed_closed h t hmem
  · exact hk.lapsed_nodup
  · -- `held_under`
    intro t h hhold
    simp only [Function.update_apply] at hhold ⊢
    split at hhold
    · rename_i htn
      cases hhold
      rw [if_pos rfl, htn]
      exact .inl rfl
    · have hne : h ≠ k.next_hold := by
        rintro rfl
        exact hfree t hhold
      rw [if_neg hne]
      exact hk.held_under t h hhold
  · intro t h hhold
    simp only [Function.update_apply] at hhold
    split at hhold
    · cases hhold
      exact Nat.lt_succ_self _
    · exact Nat.lt_succ_of_lt (hk.fresh t h hhold)

theorem release (hk : k.Inv) {t h u : Nat} (hhold : k.hold t = some h)
    (hopen : k.ticket h = some u) : ({ k with
      hold := Function.update k.hold t none
      ticket := Function.update k.ticket h none
      released := k.released ++ [u]
      releases := k.releases ++ [t] } : Books ω).Inv := by
  -- the ticket struck off and the ticket whose hold closes are one
  obtain rfl := hk.release_same hhold hopen
  obtain ⟨hlt, hr, hs, hrs⟩ := hk.of_held hhold
  constructor
  · -- `once`: the ticket moves from `held` to `released`
    intro v
    have := hk.once v
    simp only [held, settlements, minted, held_update, List.count_append] at this hs ⊢
    by_cases hv : v = u
    · subst hv
      simp_all
    · have : List.count v [u] = 0 := List.count_eq_zero.2 (by simpa using hv)
      simp_all
  · -- `releases`: it was held, so it had not been released before
    intro v
    have := hk.releases v
    simp only [held, minted, held_update, List.count_append] at this ⊢
    by_cases hv : v = u
    · subst hv
      simp_all
    · have : List.count v [u] = 0 := List.count_eq_zero.2 (by simpa using hv)
      simp_all
  · -- `open_held`: what is still open is another hold
    intro h' v hv
    obtain ⟨hh, hv⟩ := update_none.1 hv
    have hheld := hk.open_held h' v hv
    refine update_none.2 ⟨?_, hheld⟩
    rintro rfl
    exact hh (Option.some.inj (hheld.symm.trans hhold))
  · -- `lapsed_held`: a lapsed ticket has its hold closed, the released one had it open
    intro h' v hmem
    have hheld := hk.lapsed_held h' v hmem
    refine update_none.2 ⟨?_, hheld⟩
    rintro rfl
    obtain rfl := Option.some.inj (hheld.symm.trans hhold)
    rw [hk.lapsed_closed h' v hmem] at hopen
    cases hopen
  · intro h' v hmem
    simp only [Function.update_apply]
    split
    · rfl
    · exact hk.lapsed_closed h' v hmem
  · exact hk.lapsed_nodup
  · -- `held_under`: another held ticket is held under another hold
    intro v h' hv
    obtain ⟨hvu, hheld⟩ := update_none.1 hv
    have hne : h' ≠ h := by
      rintro rfl
      exact hvu (hk.hold_inj hheld hhold)
    exact (hk.held_under v h' hheld).imp_left fun hopen' => update_none.2 ⟨hne, hopen'⟩
  · exact fun v h' hv => hk.fresh v h' (update_none.1 hv).2

theorem lapse (hk : k.Inv) {t h : Nat} (hopen : k.ticket h = some t) : ({ k with
      ticket := Function.update k.ticket h none
      lapsed := k.lapsed ++ [(h, t)] } : Books ω).Inv := by
  constructor
  · -- nobody but `ticket` notices a lapse, so the counts stand
    exact hk.once
  · exact hk.releases
  · exact fun h' v hv => hk.open_held h' v (update_none.1 hv).2
  · intro h' v hmem
    rcases List.mem_append.1 hmem with hmem | hmem
    · exact hk.lapsed_held h' v hmem
    · cases List.mem_singleton.1 hmem
      exact hk.open_held h t hopen
  · intro h' v hmem
    simp only [Function.update_apply]
    split
    · rfl
    · rename_i hne
      rcases List.mem_append.1 hmem with hmem | hmem
      · exact hk.lapsed_closed h' v hmem
      · cases List.mem_singleton.1 hmem
        exact absurd rfl hne
  · -- `lapsed_nodup`: an open hold has not lapsed before
    have hnew : h ∉ k.lapsed.map Prod.fst := by
      intro hmem
      obtain ⟨⟨h', v⟩, hv, rfl⟩ := List.mem_map.1 hmem
      rw [hk.lapsed_closed h' v hv] at hopen
      cases hopen
    rw [List.map_append, List.nodup_append]
    refine ⟨hk.lapsed_nodup, List.nodup_singleton _, ?_⟩
    rintro a ha b hb rfl
    rw [List.map_singleton, List.mem_singleton] at hb
    subst hb
    exact hnew ha
  · -- `held_under`: the one hold that closes is the one that is listed
    intro v h' hv
    rw [List.mem_append, List.mem_singleton]
    rcases hk.held_under v h' hv with hv' | hmem
    · by_cases hne : h' = h
      · subst hne
        cases hopen.symm.trans hv'
        exact .inr (.inr rfl)
      · exact .inl (update_none.2 ⟨hne, hv'⟩)
    · exact .inr (.inl hmem)
  · exact hk.fresh

theorem settle (hk : k.Inv) {pre post : List Nat} {t : Nat} (w : ω)
    (hrel : k.released = pre ++ t :: post) : ({ k with
      released := pre ++ post
      settled := k.settled ++ [(t, w)] } : Books ω).Inv where
  once v := by
    have := hk.once v
    simp only [held, settlements, minted, hrel, List.count_append, List.map_append, List.map_cons,
      List.map_nil, List.count_cons, List.count_nil] at this ⊢
    -- one less to settle, one more settled
    omega
  releases := hk.releases
  open_held := hk.open_held
  lapsed_held := hk.lapsed_held
  lapsed_closed := hk.lapsed_closed
  lapsed_nodup := hk.lapsed_nodup
  held_under := hk.held_under
  fresh := hk.fresh

theorem settle_lapsed (hk : k.Inv) {pre post : List (Nat × Nat)} {h t : Nat} (w : ω)
    (hlap : k.lapsed = pre ++ (h, t) :: post) : ({ k with
      hold := Function.update k.hold t none
      lapsed := pre ++ post
      settled := k.settled ++ [(t, w)] } : Books ω).Inv := by
  have hmem : (h, t) ∈ k.lapsed := hlap ▸ List.mem_append_right _ List.mem_cons_self
  have hhold := hk.lapsed_held h t hmem
  have hclosed := hk.lapsed_closed h t hmem
  have hsub : ∀ x, x ∈ pre ++ post → x ∈ k.lapsed := fun x hx => by
    rw [hlap]
    rcases List.mem_append.1 hx with hx | hx
    · exact List.mem_append_left _ hx
    · exact List.mem_append_right _ (List.mem_cons_of_mem _ hx)
  have hnodup := hk.lapsed_nodup
  rw [hlap, List.map_append, List.map_cons, List.nodup_middle, List.nodup_cons,
    ← List.map_append] at hnodup
  -- the hold of another lapsed ticket is another hold
  have hother : ∀ h' v, (h', v) ∈ pre ++ post → h' ≠ h := fun h' v hv hh =>
    hnodup.1 (List.mem_map.2 ⟨(h', v), hv, hh⟩)
  constructor
  · -- `once`: the ticket moves from `held` to `settled`
    intro v
    have := hk.once v
    have hheld := held_eq_one hhold
    simp only [held, settlements, minted, held_update, List.count_append, List.map_append,
      List.map_cons, List.map_nil, List.count_cons, List.count_nil] at this hheld ⊢
    by_cases hv : v = t
    · subst hv
      simp_all
      omega
    · have hne : ¬ t = v := fun h => hv h.symm
      simp_all
  · intro v
    have := hk.releases v
    simp only [held, minted, held_update] at this ⊢
    by_cases hv : v = t
    · subst hv
      simp only [if_true, Option.isSome_none]
      simp at *
      omega
    · simpa only [if_neg hv] using this
  · -- `open_held`: the settled ticket's hold is closed
    intro h' v hv
    have hheld := hk.open_held h' v hv
    refine update_none.2 ⟨?_, hheld⟩
    rintro rfl
    obtain rfl := Option.some.inj (hheld.symm.trans hhold)
    rw [hclosed] at hv
    cases hv
  · intro h' v hv
    have hheld := hk.lapsed_held h' v (hsub _ hv)
    refine update_none.2 ⟨?_, hheld⟩
    rintro rfl
    exact hother h' v hv (Option.some.inj (hheld.symm.trans hhold))
  · exact fun h' v hv => hk.lapsed_closed h' v (hsub _ hv)
  · exact hnodup.2
  · intro v h' hv
    obtain ⟨hvt, hv⟩ := update_none.1 hv
    rcases hk.held_under v h' hv with hopen | hmem'
    · exact .inl hopen
    · -- still listed, since only the settled ticket's entry goes
      right
      rw [hlap, List.mem_append, List.mem_cons] at hmem'
      rw [List.mem_append]
      rcases hmem' with hmem' | hmem' | hmem'
      · exact .inl hmem'
      · cases hmem'
        exact absurd rfl hvt
      · exact .inr hmem'
  · exact fun v h' hv => hk.fresh v h' (update_none.1 hv).2

/-- **Every step keeps the accounts.** -/
theorem step (hk : k.Inv) (h : k.Step k') : k'.Inv := by
  cases h with
  | idle => exact hk
  | mint => exact hk.mint
  | release hhold hopen => exact hk.release hhold hopen
  | lapse hopen => exact hk.lapse hopen
  | settle hrel hhold =>
    -- the ticket was off `hold` since its release
    rw [hk.settle_hold (hrel ▸ List.mem_append_right _ List.mem_cons_self) hhold]
    exact hk.settle _ hrel
  | settle_lapsed hlap => exact hk.settle_lapsed _ hlap

/-- An open hold stays open until its ticket is released or it lapses. -/
theorem open_step (hk : k.Inv) (h : k.Step k') {g t : Nat} (hopen : k.ticket g = some t) :
    k'.ticket g = some t ∨ k'.releases = k.releases ++ [t] ∨ k'.lapsed = k.lapsed ++ [(g, t)] := by
  have hother : ∀ g', g' ≠ g → ∀ o, Function.update k.ticket g' o g = some t := fun g' hne o => by
    rw [Function.update_of_ne (Ne.symm hne), hopen]
  cases h with
  | idle => exact .inl hopen
  | mint =>
    have hheld := hk.fresh t g (hk.open_held g t hopen)
    exact .inl (hother _ (Nat.ne_of_gt hheld) _)
  | @release u g' v hhold hopen' =>
    by_cases hne : g' = g
    · subst hne
      obtain rfl := hk.release_same hhold hopen'
      cases hopen.symm.trans hopen'
      exact .inr (.inl rfl)
    · exact .inl (hother _ hne _)
  | @lapse u g' hopen' =>
    by_cases hne : g' = g
    · subst hne
      cases hopen.symm.trans hopen'
      exact .inr (.inr rfl)
    · exact .inl (hother _ hne _)
  | settle hrel hhold => exact .inl hopen
  | settle_lapsed hlap => exact .inl hopen

end Inv

end Books

end SequentialNear.Tickets
