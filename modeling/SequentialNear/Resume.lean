/-
A pending intent can be resolved, whatever state the gate is in.

`resume_intent` looks at the caller, the fee, the `pending` entry and the yield, and
at nothing else: neither at a batch in flight nor at what a failed one has left in
the tail. So it goes through when the entry's yield is open and the ladder covers a
single intent. The first holds until the yield times out
([`Ledger.pending_open`], on the books of `Lifecycle.lean`), the second of
every ladder the owner can install ([`Ledger.FeeBook`]).
-/
import SequentialNear.Fees

set_option autoImplicit false

namespace SequentialNear

open Nep366 Runs Ladder

namespace Ledger

variable {d : Deployment} {s s' s₀ : Ledger} {a : Action}

/-- The yield of `id` has timed out at some point. -/
def TimedOut (s : Ledger) (id : Nat) : Prop := ∃ en ∈ s.log, en.event = .timed_out id

/-- Every lapsed yield is one that timed out. -/
theorem lapsed_timed_out_move (h : ∀ p ∈ s.lapsed, s.TimedOut p.2) (hmove : Move d s₀ a s s') :
    ∀ p ∈ s'.lapsed, s'.TimedOut p.2 := by
  have hmono : ∀ id, s.TimedOut id → s'.TimedOut id := fun id ⟨en, hen, he⟩ =>
    ⟨en, hmove.log_extends.subset hen, he⟩
  intro p hp
  rcases lapsed_of_move hmove with hsub | ⟨y, w, -, -, hlap, hlog⟩
  · exact hmono p.2 (h p (hsub.subset hp))
  · rw [hlap, List.mem_append, List.mem_singleton] at hp
    rcases hp with hp | rfl
    · exact hmono p.2 (h p hp)
    · exact ⟨_, hlog ▸ List.mem_append_right _ (List.mem_singleton_self _), rfl⟩

end Ledger

theorem Reachable.lapsed_timed_out {d : Deployment} {s : Ledger} (h : Reachable d s) :
    ∀ p ∈ s.lapsed, s.TimedOut p.2 := by
  refine h.invariant (fun t => ∀ p ∈ t.lapsed, t.TimedOut p.2) ?_ ?_
  · intro owner_id approver_id balance block_height p hp
    cases hp
  · intro s₀ a t t' ht hmove
    exact Ledger.lapsed_timed_out_move ht hmove

/-- A pending intent that has not timed out has an open yield. -/
theorem Reachable.pending_open {d : Deployment} {s : Ledger} (h : Reachable d s) {id : Nat}
    {p : PendingIntent} (hp : s.gate.pending.lookup id = some p) (hlive : ¬ s.TimedOut id) :
    ∃ w, s.yields.lookup p.yield_id = some w := by
  have hhold : s.books.hold id = some p.yield_id := by
    simp only [Ledger.books, hp, Option.map_some]
  rcases h.lifecycle.books.held_under id p.yield_id hhold with hopen | hlap
  · obtain ⟨w, hw, -⟩ := Option.map_eq_some_iff.1 hopen
    exact ⟨w, hw⟩
  · exact absurd (h.lapsed_timed_out _ hlap) hlive

/-- In a valid ladder the first tier covers a single intent. -/
theorem ValidTiers.cover_one {tiers : List (Nat × Nat)} (h : ValidTiers tiers) :
    ∃ tier, tiers.head? = some tier ∧ cover tiers 1 = some tier := by
  cases tiers with
  | nil => exact absurd rfl h.non_empty
  | cons tier rest => exact ⟨tier, rfl, cover_head (h.positive tier List.mem_cons_self)⟩

/-- What a single resume leaves alone. -/
structure OnlyResumes (id : Nat) (g g' : Gate) : Prop where
  erased : g'.pending.lookup id = none
  others : ∀ other, other ≠ id → g'.pending.lookup other = g.pending.lookup other
  batch_chain_tail : g'.batch_chain_tail = g.batch_chain_tail
  used_nonces : g'.used_nonces = g.used_nonces
  relayers : g'.relayers = g.relayers
  next_intent_id : g'.next_intent_id = g.next_intent_id
  intents_submitted : g'.intents_submitted = g.intents_submitted
  intents_dispatched : g'.intents_dispatched = g.intents_dispatched
  intents_rejected : g'.intents_rejected = g.intents_rejected

/-- **No pending entry is stuck**: until its yield times out, the approver resolves it
either way by paying for a single intent. -/
theorem pending_resumable {d : Deployment} {s : Ledger} (h : Reachable d s) {id : Nat}
    (hp : id ∈ s.gate.pending) (hlive : ¬ s.TimedOut id) :
    ∃ tier, s.gate.fee_tiers.head? = some tier ∧
      ∀ approve deposit spare, tier.2 ≤ deposit →
        s.gate.fees_collected_total + tier.2 < 2 ^ 128 →
        (s.call d s.gate.approver_id deposit spare (.resume_intent id approve)).2 = true ∧
        OnlyResumes id s.gate
          (s.call d s.gate.approver_id deposit spare (.resume_intent id approve)).1.gate := by
  obtain ⟨tier, hhead, hcover⟩ := h.fee_book.tiers.cover_one
  obtain ⟨p, hlookup⟩ := Option.isSome_iff_exists.1 (AList.lookup_isSome.2 hp)
  refine ⟨tier, hhead, fun approve deposit spare hdep hfits => ?_⟩
  have hopen : (s.env d s.gate.approver_id deposit).yield_is_open p.yield_id = true :=
    Ledger.yield_is_open_iff.2 (h.pending_open hlookup hlive)
  have hret : Returns (s.gate.resume_intent (s.env d s.gate.approver_id deposit) id approve) _ _ :=
    Gate.resume_intent_returns.2
      ⟨rfl, tier, p, fee_for_cover.2 hcover, hdep, hfits, hlookup, hopen, rfl, rfl⟩
  obtain ⟨logs, hrun⟩ := hret
  -- a resume costs the account nothing
  have hcall := Ledger.call_of_run (c := .resume_intent id approve) spare hrun (Nat.zero_le _)
  refine ⟨congrArg Prod.snd hcall, ?_⟩
  rw [hcall, Ledger.apply_gate]
  exact ⟨AList.lookup_erase _ _, fun other hne => AList.lookup_erase_ne hne,
    rfl, rfl, rfl, rfl, rfl, rfl, rfl⟩

section Demo

open SequentialNear.Demo

/-- A batch whose first call has not come back yet, and a new approver. -/
def handed_over : List Action :=
  submissions [set11, set22] ++
  [.call approver FEE 0 (.resume_batch_chained first_two), .advance 1, .run_callback 0 0,
   .call owner 0 0 (.set_approver alice)]

/-- The new approver rejects the second member while it is in the tail. -/
theorem pending_resumable_demo : ∃ s, Reachable deployment s ∧ s.gate.batch_chain_tail = [1] ∧
    (s.call deployment alice FEE 0 (.resume_intent 1 false)).2 = true := by
  obtain ⟨s, hrun, htail, happr, hp, hlive, hhead, hfits⟩ :
      ∃ s, Run (step deployment) anyAction start s ∧ s.gate.batch_chain_tail = [1] ∧
        s.gate.approver_id = alice ∧ 1 ∈ s.gate.pending ∧
        (∀ en ∈ s.log, en.event ≠ .timed_out 1) ∧ s.gate.fee_tiers.head? = some (3, FEE) ∧
        s.gate.fees_collected_total + FEE < 2 ^ 128 :=
    exists_run_of_exec handed_over _ (by decide +kernel)
  have hs : Reachable deployment s := ⟨_, _, _, _, hrun⟩
  obtain ⟨tier, htier, hresume⟩ := pending_resumable hs hp fun ⟨en, hen, he⟩ => hlive en hen he
  rw [hhead] at htier
  cases htier
  obtain ⟨hok, -⟩ := hresume false FEE 0 (Nat.le_refl _) hfits
  rw [happr] at hok
  exact ⟨s, hs, htail, hok⟩

end Demo

end SequentialNear
