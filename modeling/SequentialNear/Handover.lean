/-
Items that wait in a queue between two events of a log, over arbitrary types.

An event may order something, and another event delivers it; in between a queue holds
it. A step takes items from the queue, appends events to the log and puts new items
into the queue. If on each step what is delivered and what is newly held is what is
ordered and what was held by the items taken, then all that was ever ordered has been
delivered or is held, each thing as often as it was ordered ([`InBalance.step`]). Nothing
here names a program.
-/
import Mathlib.Data.Multiset.Filter
import Mathlib.Algebra.Order.Group.Multiset

set_option autoImplicit false

namespace SequentialNear.Handover

variable {ε ρ α : Type*}

/-- What the events order and deliver, and what the items of the queue hold. -/
structure Account (ε ρ α : Type*) where
  ordered : ε → Option α
  delivered : ε → Option α
  held : ρ → Option α

variable (k : Account ε ρ α)

/-- Everything ordered has been delivered or is held. -/
def InBalance (log : List ε) (queue : List ρ) : Prop :=
  (log.filterMap k.delivered ++ queue.filterMap k.held).Perm (log.filterMap k.ordered)

/-- The events of a step pass on what the items taken held. -/
def PassesOn (events : List ε) (taken new : List ρ) : Prop :=
  (events.filterMap k.delivered ++ new.filterMap k.held).Perm
    (events.filterMap k.ordered ++ taken.filterMap k.held)

variable {k} {log log' events : List ε} {queue queue' taken new rest : List ρ}

theorem inBalance_nil : InBalance k [] [] := .nil

/-- **The accounts stay balanced.** -/
theorem InBalance.step (h : InBalance k log queue) (hqueue : queue.Perm (taken ++ rest))
    (hpasses : PassesOn k events taken new) (hlog : log' = log ++ events)
    (hqueue' : queue'.Perm (rest ++ new)) : InBalance k log' queue' := by
  have hheld := Multiset.coe_eq_coe.2 (hqueue.filterMap k.held)
  have hheld' := Multiset.coe_eq_coe.2 (hqueue'.filterMap k.held)
  have hsum := Multiset.coe_eq_coe.2 h
  have hpass := Multiset.coe_eq_coe.2 hpasses
  refine Multiset.coe_eq_coe.1 ?_
  rw [hlog]
  simp only [List.filterMap_append, ← Multiset.coe_add] at hheld hheld' hsum hpass ⊢
  rw [hheld] at hsum
  calc _ = (log.filterMap k.delivered + rest.filterMap k.held : Multiset α) +
        (events.filterMap k.delivered + new.filterMap k.held) := by
          rw [hheld']
          ac_rfl
    _ = (log.filterMap k.delivered + (taken.filterMap k.held + rest.filterMap k.held) :
          Multiset α) + events.filterMap k.ordered := by
          rw [hpass]
          ac_rfl
    _ = _ := by rw [hsum]

/-- What is ordered at most once is delivered at most once, and not held any more. -/
theorem InBalance.nodup {β : Type*} (f : α → β) (h : InBalance k log queue)
    (hnodup : ((log.filterMap k.ordered).map f).Nodup) :
    ((log.filterMap k.delivered ++ queue.filterMap k.held).map f).Nodup :=
  ((h.map f).nodup_iff).2 hnodup

/-- What happens in one of two ways is what happens in the one and what happens in the
other. -/
theorem filterMap_either {f g : ε → Option α} (hone : ∀ e, f e = none ∨ g e = none)
    (log : List ε) :
    (log.filterMap f ++ log.filterMap g).Perm (log.filterMap fun e => (f e).or (g e)) := by
  induction log with
  | nil => exact .nil
  | cons e log ih =>
    rcases hone e with hf | hg
    · rw [List.filterMap_cons_none hf]
      cases hg : g e with
      | none =>
        rw [List.filterMap_cons_none hg, List.filterMap_cons_none (by rw [hf, hg]; rfl)]
        exact ih
      | some a =>
        rw [List.filterMap_cons_some hg, List.filterMap_cons_some (by rw [hf, hg]; rfl)]
        exact List.perm_middle.trans (ih.cons a)
    · rw [List.filterMap_cons_none hg]
      cases hf : f e with
      | none =>
        rw [List.filterMap_cons_none hf, List.filterMap_cons_none (by rw [hf, hg]; rfl)]
        exact ih
      | some a =>
        rw [List.filterMap_cons_some hf, List.filterMap_cons_some (by rw [hf]; rfl)]
        exact ih.cons a

/-- When the queue is empty everything has been delivered. -/
theorem InBalance.idle (h : InBalance k log []) :
    (log.filterMap k.delivered).Perm (log.filterMap k.ordered) := by
  have hh : (log.filterMap k.delivered ++ []).Perm (log.filterMap k.ordered) := h
  rwa [List.append_nil] at hh

end SequentialNear.Handover
