/-
Numbered requests over a line that may lose, repeat and reorder them.

A sender numbers its requests one after the other; a number may come to nothing
([`Step.waste`]), and what has been sent may arrive any number of times, in any order, or
never. The receiver keeps the last number it has taken, and takes a request when its number
is greater. Others act on the receiver's state meanwhile ([`Step.other`]), and the numbers
may be used by somebody else as well ([`Step.skip`]).

What is taken is taken once, in the order of sending, and for good
([`Line.Kept.taken_sublist`], [`Line.taken_later`]); and a sender that waits for each
request before the next loses none ([`Line.Awaited.arrives`]). Nothing in this file names a
program.
-/
import SequentialNear.Runs
import Mathlib.Data.List.Sort

set_option autoImplicit false

namespace SequentialNear.Numbered

open Runs

variable {σ α ρ ι : Type*}

/-- Sender, line and receiver. -/
structure Line (σ ρ : Type*) where
  /-- The number of the next request. -/
  next : ℕ
  sent : List (ℕ × ρ)
  /-- The greatest number that the receiver has seen. -/
  last : ℕ
  taken : List (ℕ × ρ)
  state : σ

inductive Step (α ρ ι : Type*)
  | send (r : ρ)
  /-- A number is given out, and nothing is sent under it. -/
  | waste
  /-- The `i`-th request arrives, maybe again. -/
  | deliver (i : ℕ) (x : ι)
  /-- Somebody else uses the number. -/
  | skip (n : ℕ)
  | other (a : α)

section Step

variable (perform : ρ → ι → σ → Option σ) (act : σ → α → Option σ)

/-- What becomes of a request that arrives; one that is not taken leaves no trace. -/
def Line.receive (l : Line σ ρ) (x : ι) (q : ℕ × ρ) : Option (Line σ ρ) :=
  if l.last < q.1 then
    (perform q.2 x l.state).map fun s => { l with last := q.1, taken := l.taken ++ [q], state := s }
  else some l

def Line.step (l : Line σ ρ) : Step α ρ ι → Option (Line σ ρ)
  | .send r => some { l with next := l.next + 1, sent := l.sent ++ [(l.next, r)] }
  | .waste => some { l with next := l.next + 1 }
  | .deliver i x => l.sent[i]?.bind (l.receive perform x)
  | .skip n => if l.last < n then some { l with last := n } else none
  | .other a => (act l.state a).map fun s => { l with state := s }

end Step

/-- The line before anything was sent. -/
def Line.start (next last : ℕ) (s : σ) : Line σ ρ := ⟨next, [], last, [], s⟩

variable {perform : ρ → ι → σ → Option σ} {act : σ → α → Option σ} {l l' : Line σ ρ}

/-- **Inversion of a step.** -/
theorem Line.step_cases {e : Step α ρ ι} (h : Line.step perform act l e = some l') :
    (∃ r, e = .send r ∧ l' = { l with next := l.next + 1, sent := l.sent ++ [(l.next, r)] }) ∨
    (e = .waste ∧ l' = { l with next := l.next + 1 }) ∨
    (∃ i x q s, e = .deliver i x ∧ l.sent[i]? = some q ∧ l.last < q.1 ∧
      perform q.2 x l.state = some s ∧
        l' = { l with last := q.1, taken := l.taken ++ [q], state := s }) ∨
    (∃ i x q, e = .deliver i x ∧ l.sent[i]? = some q ∧ q.1 ≤ l.last ∧ l' = l) ∨
    (∃ n, e = .skip n ∧ l.last < n ∧ l' = { l with last := n }) ∨
    ∃ a s, e = .other a ∧ act l.state a = some s ∧ l' = { l with state := s } := by
  cases e with
  | send r => exact .inl ⟨r, rfl, (Option.some.inj h).symm⟩
  | waste => exact .inr (.inl ⟨rfl, (Option.some.inj h).symm⟩)
  | deliver i x =>
    obtain ⟨q, hq, hreceive⟩ := Option.bind_eq_some_iff.1 h
    unfold receive at hreceive
    split at hreceive
    · rename_i hlt
      obtain ⟨s, hs, hl⟩ := Option.map_eq_some_iff.1 hreceive
      exact .inr (.inr (.inl ⟨i, x, q, s, rfl, hq, hlt, hs, hl.symm⟩))
    · rename_i hle
      have hl := (Option.some.inj hreceive).symm
      exact .inr (.inr (.inr (.inl ⟨i, x, q, rfl, hq, Nat.not_lt.1 hle, hl⟩)))
  | skip n =>
    simp only [step] at h
    split at h
    · rename_i hlt
      exact .inr (.inr (.inr (.inr (.inl ⟨n, rfl, hlt, (Option.some.inj h).symm⟩))))
    · cases h
  | other a =>
    obtain ⟨s, hs, hl⟩ := Option.map_eq_some_iff.1 h
    exact .inr (.inr (.inr (.inr (.inr ⟨a, s, rfl, hs, hl.symm⟩))))

/-! ## What is taken -/

/-- The requests have ascending numbers from `first` on, and what was taken was sent, each
with a number greater than those before. -/
structure Line.Kept (first : ℕ) (l : Line σ ρ) : Prop where
  numbers : l.sent.Pairwise fun q q' => q.1 < q'.1
  range : ∀ q ∈ l.sent, first ≤ q.1 ∧ q.1 < l.next
  next : first ≤ l.next
  subset : l.taken ⊆ l.sent
  ascending : l.taken.Pairwise fun q q' => q.1 < q'.1
  below : ∀ q ∈ l.taken, q.1 ≤ l.last

theorem Line.Kept.start (first last : ℕ) (s : σ) :
    (Line.start first last s : Line σ ρ).Kept first where
  numbers := .nil
  range := fun _ hq => absurd hq List.not_mem_nil
  next := le_rfl
  subset := List.nil_subset _
  ascending := .nil
  below := fun _ hq => absurd hq List.not_mem_nil

theorem Line.Kept.step {first : ℕ} (h : l.Kept first) {e : Step α ρ ι}
    (hst : Line.step perform act l e = some l') : l'.Kept first := by
  have hnext : first ≤ l.next + 1 := h.next.trans (Nat.le_succ _)
  have hrange : ∀ q ∈ l.sent, first ≤ q.1 ∧ q.1 < l.next + 1 :=
    fun q hq => ⟨(h.range q hq).1, (h.range q hq).2.trans (Nat.lt_succ_self _)⟩
  rcases step_cases hst with ⟨r, -, rfl⟩ | ⟨-, rfl⟩ | ⟨i, x, q, s, -, hq, hlt, -, rfl⟩ |
    ⟨i, x, q, -, -, -, rfl⟩ | ⟨n, -, hlt, rfl⟩ | ⟨a, s, -, -, rfl⟩
  · refine ⟨?_, ?_, hnext, fun q hq => List.mem_append_left _ (h.subset hq), h.ascending, h.below⟩
    · rw [List.pairwise_append]
      refine ⟨h.numbers, List.pairwise_singleton _ _, fun q hq q' hq' => ?_⟩
      obtain rfl := List.mem_singleton.1 hq'
      exact (h.range q hq).2
    · rw [List.forall_mem_append, List.forall_mem_singleton]
      exact ⟨hrange, h.next, Nat.lt_succ_self _⟩
  · exact ⟨h.numbers, hrange, hnext, h.subset, h.ascending, h.below⟩
  · refine ⟨h.numbers, h.range, h.next, ?_, ?_, ?_⟩
    · rw [List.append_subset]
      refine ⟨h.subset, fun q' hq' => ?_⟩
      obtain rfl := List.mem_singleton.1 hq'
      exact List.mem_of_getElem? hq
    · rw [List.pairwise_append]
      refine ⟨h.ascending, List.pairwise_singleton _ _, fun q' hq' q'' hq'' => ?_⟩
      obtain rfl := List.mem_singleton.1 hq''
      exact (h.below q' hq').trans_lt hlt
    · rw [List.forall_mem_append, List.forall_mem_singleton]
      exact ⟨fun q' hq' => (h.below q' hq').trans hlt.le, le_rfl⟩
  · exact h
  · exact ⟨h.numbers, h.range, h.next, h.subset, h.ascending,
      fun q hq => (h.below q hq).trans hlt.le⟩
  · exact ⟨h.numbers, h.range, h.next, h.subset, h.ascending, h.below⟩

theorem Line.Kept.run {first : ℕ} {G : Line σ ρ → Step α ρ ι → Prop} (h : l.Kept first)
    (hrun : Run (Line.step perform act) G l l') : l'.Kept first :=
  hrun.invariant h fun _ _ _ ht _ hst => ht.step hst

instance number_antisymm : Std.Antisymm fun q q' : ℕ × ρ => q.1 < q'.1 :=
  ⟨fun _ _ h h' => absurd h (Nat.lt_asymm h')⟩

/-- **What is taken is taken in the order of sending, each request once.** -/
theorem Line.Kept.taken_sublist {first : ℕ} (h : l.Kept first) : l.taken.Sublist l.sent := by
  have hnodup : l.taken.Nodup := by
    refine h.ascending.imp ?_
    rintro q q' hlt rfl
    exact Nat.lt_irrefl _ hlt
  exact List.sublist_of_subperm_of_pairwise (List.subperm_of_subset hnodup h.subset) h.ascending
    h.numbers

/-- **What has been decided stays decided**: whatever is taken later has a greater number
than all the receiver has seen, so a request that was overtaken is never taken. -/
theorem Line.taken_later {G : Line σ ρ → Step α ρ ι → Prop}
    (hrun : Run (Line.step perform act) G l l') : l.last ≤ l'.last ∧
      ∃ later, l'.taken = l.taken ++ later ∧ ∀ q ∈ later, l.last < q.1 := by
  refine hrun.invariant (I := fun t => l.last ≤ t.last ∧
    ∃ later, t.taken = l.taken ++ later ∧ ∀ q ∈ later, l.last < q.1)
    ⟨le_rfl, [], (List.append_nil _).symm, fun _ hq => absurd hq List.not_mem_nil⟩ ?_
  rintro t e t' ⟨hle, later, htaken, hlater⟩ - hst
  rcases step_cases hst with ⟨r, -, rfl⟩ | ⟨-, rfl⟩ | ⟨i, x, q, s, -, -, hlt, -, rfl⟩ |
    ⟨i, x, q, -, -, -, rfl⟩ | ⟨n, -, hlt, rfl⟩ | ⟨a, s, -, -, rfl⟩
  · exact ⟨hle, later, htaken, hlater⟩
  · exact ⟨hle, later, htaken, hlater⟩
  · refine ⟨hle.trans hlt.le, later ++ [q], ?_, ?_⟩
    · exact htaken ▸ List.append_assoc _ _ _
    · rw [List.forall_mem_append, List.forall_mem_singleton]
      exact ⟨hlater, hle.trans_lt hlt⟩
  · exact ⟨hle, later, htaken, hlater⟩
  · exact ⟨hle.trans hlt.le, later, htaken, hlater⟩
  · exact ⟨hle, later, htaken, hlater⟩

/-! ## A sender that waits

The order of sending is then the order of arriving. -/

/-- A request is sent when all before it have been taken, and nobody else uses the
numbers. -/
def Line.Awaits (l : Line σ ρ) : Step α ρ ι → Prop
  | .send _ => l.taken = l.sent
  | .skip _ => False
  | _ => True

/-- At most the request sent last has not been taken yet. -/
structure Line.Awaited (first : ℕ) (l : Line σ ρ) : Prop where
  kept : l.Kept first
  ahead : l.last < l.next
  waiting : l.taken = l.sent ∨ ∃ q, l.sent = l.taken ++ [q] ∧ l.last < q.1

theorem Line.Awaited.start (first : ℕ) (s : σ) :
    (Line.start (first + 1) first s : Line σ ρ).Awaited (first + 1) :=
  ⟨.start _ _ s, Nat.lt_succ_self _, .inl rfl⟩

/-- What arrives anew is the request that is waited for. -/
theorem Line.Awaited.fresh {first i : ℕ} {q : ℕ × ρ} (h : l.Awaited first)
    (hq : l.sent[i]? = some q) (hlt : l.last < q.1) : l.sent = l.taken ++ [q] := by
  have hmem : q ∈ l.sent := List.mem_of_getElem? hq
  rcases h.waiting with heq | ⟨q', hsent, -⟩
  · rw [← heq] at hmem
    exact absurd (h.kept.below q hmem) (Nat.not_le.2 hlt)
  · rw [hsent, List.mem_append, List.mem_singleton] at hmem
    rcases hmem with hold | rfl
    · exact absurd (h.kept.below q hold) (Nat.not_le.2 hlt)
    · exact hsent

/-- The request that is waited for is taken when it arrives. -/
theorem Line.Awaited.arrives {first i : ℕ} {q : ℕ × ρ} {x : ι} (h : l.Awaited first)
    (hwaiting : l.sent = l.taken ++ [q]) (hq : l.sent[i]? = some q)
    (hst : Line.step perform act l (.deliver i x) = some l') : l'.taken = l'.sent := by
  have hlt : l.last < q.1 := by
    rcases h.waiting with heq | ⟨q', hsent, hlt⟩
    · have hlength := congrArg List.length (heq.trans hwaiting)
      rw [List.length_append, List.length_singleton] at hlength
      omega
    · obtain rfl := List.singleton_inj.1 (List.append_cancel_left (hwaiting.symm.trans hsent))
      exact hlt
  rw [Line.step, hq, Option.bind_some, receive, if_pos hlt] at hst
  obtain ⟨s, -, rfl⟩ := Option.map_eq_some_iff.1 hst
  exact hwaiting.symm

theorem Line.Awaited.step {first : ℕ} (h : l.Awaited first) {e : Step α ρ ι} (hG : l.Awaits e)
    (hst : Line.step perform act l e = some l') : l'.Awaited first := by
  have hkept := h.kept.step hst
  have hahead : l.last < l.next + 1 := h.ahead.trans (Nat.lt_succ_self _)
  rcases step_cases hst with ⟨r, rfl, rfl⟩ | ⟨-, rfl⟩ | ⟨i, x, q, s, rfl, hq, hlt, -, rfl⟩ |
    ⟨i, x, q, rfl, -, -, rfl⟩ | ⟨n, rfl, -, -⟩ | ⟨a, s, rfl, -, rfl⟩
  · have hall : l.taken = l.sent := hG
    refine ⟨hkept, hahead, .inr ⟨(l.next, r), ?_, h.ahead⟩⟩
    simp only [hall]
  · exact ⟨hkept, hahead, h.waiting⟩
  · have hnumber := (h.kept.range q (List.mem_of_getElem? hq)).2
    exact ⟨hkept, hnumber, .inl (h.fresh hq hlt).symm⟩
  · exact h
  · exact absurd hG id
  · exact ⟨hkept, h.ahead, h.waiting⟩

end SequentialNear.Numbered
