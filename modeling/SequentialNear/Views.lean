/-
The gate's views, and what they show.

A client that reads the gate sees counters, the pending intents, the chain's tail, the
fee totals and the roles. The contract keeps all of these as fields that its methods
update; the log of what was accepted and executed is not kept anywhere. Still the views
show that log and nothing else ([`views_tell_the_log`]): who is pending was submitted and
has neither been resumed nor timed out since, with the data it was signed with, each
counter counts its events, and the tail is what the accepted lists, the chain steps and
the resets have made of it.
-/
import SequentialNear.Authority
import SequentialNear.FeeLadder
import SequentialNear.TailPending

set_option autoImplicit false

namespace SequentialNear

open Borsh Nep366 Runs

/-! ## The view methods

Those of the roles are in `Authority.lean`. -/

/-- JSON-safe view projection. Excludes `yield_id` (internal handle). -/
structure PendingIntentView where
  intent_id : Nat
  sender : AccountId
  receiver_id : AccountId
  method : String
  nonce : U64
  expires_at_block : U64
  submitted_at_block : Nat
deriving DecidableEq

namespace Gate

def get_pending (g : Gate) (intent_id : Nat) : Option PendingIntentView :=
  (g.pending.lookup intent_id).map fun p =>
    { intent_id
      sender := p.sender
      receiver_id := p.receiver_id
      method := p.method
      nonce := p.nonce
      expires_at_block := p.expires_at_block
      submitted_at_block := p.submitted_at_block }

/-- The keys of `pending`; the order of its storage slots is left out. -/
def list_pending (g : Gate) : Finset Nat := g.pending.keys.toFinset

/-- `(submitted, dispatched, rejected, next_intent_id, active_batch_id)`. -/
def stats (g : Gate) : Nat × Nat × Nat × Nat × Nat :=
  (g.intents_submitted, g.intents_dispatched, g.intents_rejected, g.next_intent_id,
    g.active_batch_id)

def get_batch_tail (g : Gate) : List Nat := g.batch_chain_tail

def get_fee_tiers (g : Gate) : List (Nat × Nat) := g.fee_tiers

/-- `(collected_total, withdrawn_total)`. -/
def get_fee_stats (g : Gate) : Nat × Nat := (g.fees_collected_total, g.fees_withdrawn_total)

end Gate

/-! ## The same, read off the log -/

/-- The event takes the intent out of `pending`: its yield is resumed, or the callback of
its timed-out yield runs. -/
def Event.takes (id : Nat) (e : Event) : Prop := e.resume = some id ∨ e = .rejected id true

/-- A list that was accepted. -/
def Event.starts : Event → Bool
  | .accepted _ _ (.resume_batch_chained _) => true
  | _ => false

/-- What an event makes of the tail. -/
def Event.chain_tail (tail : List Nat) : Event → List Nat
  | .accepted _ _ (.resume_batch_chained ids) => ids.toList.tail
  | .accepted _ _ (.continue_chain _ _) | .continued _ _ _ => tail.tail
  | .accepted _ _ .reset_batch_tail => []
  | _ => tail

namespace Ledger

variable {d : Deployment} {s s' s₀ : Ledger} {a : Action}

/-- The tail that the log has led to. -/
def tail_of_log (s : Ledger) : List Nat := s.log.foldl (fun tail en => en.event.chain_tail tail) []

/-- The chain fields are what the log says. -/
structure ChainTold (s : Ledger) : Prop where
  tail : s.gate.batch_chain_tail = s.tail_of_log
  batches : s.gate.active_batch_id = s.log.countP (·.event.starts)

theorem ChainTold.of_log (h : s.ChainTold) {e : Event}
    (hlog : s'.log = s.log ++ [⟨s.block_height, s.gate, e⟩])
    (htail : s'.gate.batch_chain_tail = e.chain_tail s.gate.batch_chain_tail)
    (hactive : s'.gate.active_batch_id = s.gate.active_batch_id + if e.starts then 1 else 0) :
    s'.ChainTold where
  tail := by
    rw [htail, h.tail, tail_of_log, tail_of_log, hlog, List.foldl_append]
    rfl
  batches := by
    rw [hactive, h.batches, hlog, List.countP_append, List.countP_singleton]

/-- A gate call writes the chain as its event says. -/
theorem chain_told_call {c : GateCall} {caller : AccountId} {deposit : Nat} {g' : Gate}
    {act : HostAction} (heff : CallEffect d.host (s.env d caller deposit) s.gate c g' act) :
    g'.batch_chain_tail = (Event.accepted caller deposit c).chain_tail s.gate.batch_chain_tail ∧
    g'.active_batch_id = s.gate.active_batch_id +
      if (Event.accepted caller deposit c).starts then 1 else 0 := by
  cases heff with
  | admin hc frame =>
    rw [frame.batch_chain_tail, frame.active_batch_id]
    cases c <;> first | exact ⟨rfl, rfl⟩ | cases hc
  | batch happr hempty hids =>
    refine ⟨?_, rfl⟩
    simp only [Event.chain_tail, hids]
    rfl
  | chain hpriv hfree hhead =>
    refine ⟨?_, rfl⟩
    simp only [Event.chain_tail, hhead]
    rfl
  | _ => exact ⟨rfl, rfl⟩

theorem ChainTold.move (h : s.ChainTold) (hmove : Move d s₀ a s s') : s'.ChainTold := by
  cases hmove with
  | advance ha => exact ⟨h.tail, h.batches⟩
  | refused hcall => exact h.of_log rfl rfl rfl
  | called hcall hacc hcaller hspare heff =>
    obtain ⟨htail, hactive⟩ := chain_told_call heff
    refine h.of_log (apply_log _ _ _ _ _) ?_ ?_
    · rw [apply_gate, htail]
    · rw [apply_gate, hactive]
  | timed_out ha hw => exact h.of_log rfl rfl rfl
  | @resumed i burnt y args gas signal batch created pre post out ha htake hret hfits =>
    obtain ⟨_, _, hg⟩ := resumed_gate hret
    refine h.of_log (apply_log _ _ _ _ _) ?_ ?_
    · rw [apply_gate, hg]
      rcases callback_event_cases batch hret with ⟨_, he⟩ | ⟨_, he⟩ <;> rw [he] <;> rfl
    · rw [apply_gate, hg]
      rcases callback_event_cases batch hret with ⟨_, he⟩ | ⟨_, he⟩ <;> rw [he] <;> rfl
  | aborted ha htake hfail => exact h.of_log rfl rfl rfl
  | ran hf hblock hrecs => exact h.of_log rfl rfl rfl
  | @finished i success id call and_then batch created pre post ha htake =>
    refine h.of_log (finish_log _ _ _ _) ?_ ?_
    · cases and_then <;> rfl
    · cases and_then <;> rfl
  | @continued i next_id next_seq batch created pre post out ha htake heff =>
    refine h.of_log (apply_log _ _ _ _ _) ?_ ?_
    · rw [apply_gate]
      generalize out.gate = g' at heff
      generalize out.action = act at heff
      cases heff with
      | admin hc => cases hc
      | chain hpriv hfree hhead =>
        simp only [Event.chain_tail, hhead]
        rfl
    · rw [apply_gate]
      generalize out.gate = g' at heff
      generalize out.action = act at heff
      cases heff with
      | admin hc => cases hc
      | chain => rfl
  | continue_failed ha htake hfail => exact h.of_log rfl rfl rfl
  | settled ha htake =>
    refine h.of_log (settle_log _ _ _ _) ?_ ?_
    · unfold Ledger.settle
      split <;> rfl
    · unfold Ledger.settle
      split <;> rfl

/-- Whoever has been submitted is pending or was taken out. -/
def PendingTold (s : Ledger) : Prop :=
  ∀ id < s.gate.next_intent_id, id ∈ s.gate.pending ∨ ∃ en ∈ s.log, en.event.takes id

theorem PendingTold.move (h : s.PendingTold) (hlife : s.Lifecycle) (hmove : Move d s₀ a s s') :
    s'.PendingTold := by
  intro id hid
  by_cases hold : id < s.gate.next_intent_id
  · rcases h id hold with hp | ⟨en, hen, htakes⟩
    · refine (pending_of_move hlife hmove hp).imp_right ?_
      rintro ⟨e, hlog, htakes⟩
      rw [hlog]
      exact ⟨_, List.mem_append_right _ (List.mem_singleton.2 rfl), htakes⟩
    · exact .inr ⟨en, hmove.log_extends.subset hen, htakes⟩
  · exact .inl (mem_pending_iff.2 ((move_books hlife hmove).hold_new (Nat.not_lt.1 hold) hid))

/-- Who is pending has not been taken out. -/
theorem Lifecycle.not_taken (h : s.Lifecycle) {id : Nat} (hid : id ∈ s.gate.pending) :
    id < s.gate.next_intent_id ∧ ∀ en ∈ s.log, ¬ en.event.takes id := by
  obtain ⟨y, hy⟩ := Option.isSome_iff_exists.1 (mem_pending_iff.1 hid)
  obtain ⟨hlt, -, hsettled, hreleases⟩ := h.books.of_held hy
  refine ⟨hlt, fun en hen htakes => ?_⟩
  rcases htakes with hres | hrej
  · exact List.count_eq_zero.1 hreleases (List.mem_filterMap.2 ⟨en, hen, hres⟩)
  · have hfate : (id, Fate.rejected) ∈ s.fates := List.mem_filterMap.2 ⟨en, hen, by rw [hrej]; rfl⟩
    exact List.count_eq_zero.1 hsettled (List.mem_map_of_mem hfate)

end Ledger

theorem Reachable.pending_told {d : Deployment} {s : Ledger} (h : Reachable d s) (id : Nat) :
    id ∈ s.gate.pending ↔
      id < s.gate.next_intent_id ∧ ∀ en ∈ s.log, ¬ en.event.takes id := by
  let I : Ledger → Prop := fun t => t.Lifecycle ∧ t.PendingTold
  have hinv : I s := by
    refine h.invariant I (fun _ _ _ _ => ⟨.init _ _ _ _, ?_⟩) ?_
    · exact fun _ hid => absurd hid (Nat.not_lt_zero _)
    · rintro s₀ a t t' ⟨hlife, ht⟩ hmove
      exact ⟨hlife.move hmove, ht.move hlife hmove⟩
  refine ⟨hinv.1.not_taken, fun ⟨hlt, hnone⟩ => ?_⟩
  refine (hinv.2 id hlt).resolve_right ?_
  rintro ⟨en, hen, htakes⟩
  exact hnone en hen htakes

theorem Reachable.chain_told {d : Deployment} {s : Ledger} (h : Reachable d s) : s.ChainTold :=
  h.invariant Ledger.ChainTold (fun _ _ _ _ => ⟨rfl, rfl⟩) fun _ _ _ _ ht hmove => ht.move hmove

/-- An intent has been minted when a submission in the log minted it. -/
theorem Reachable.minted_iff {d : Deployment} {s : Ledger} (h : Reachable d s) (id : Nat) :
    id < s.gate.next_intent_id ↔ ∃ en ∈ s.log, en.mints = some id := by
  rw [← List.mem_range, ← h.provenance.minted, List.mem_filterMap]

/-- **The views tell the log.** -/
theorem views_tell_the_log {d : Deployment} {s : Ledger} (h : Reachable d s) :
    (∀ id view, s.gate.get_pending id = some view →
      ∃ en ∈ s.log, ∃ delegate fc, Submission d en delegate fc ∧ en.mints = some id ∧
        view = ⟨id, delegate.sender_id, delegate.receiver_id, fc.method_name, delegate.nonce,
          delegate.max_block_height, en.block⟩) ∧
    (∀ id, (s.gate.get_pending id).isSome = true ↔ id ∈ s.gate.list_pending) ∧
    (∀ id, id ∈ s.gate.list_pending ↔
      (∃ en ∈ s.log, en.mints = some id) ∧ ∀ en ∈ s.log, ¬ en.event.takes id) ∧
    s.gate.stats = ((s.log.filterMap Entry.mints).length, (s.met .dispatched).length,
      (s.met .rejected).length, (s.log.filterMap Entry.mints).length,
      s.log.countP (·.event.starts)) ∧
    s.gate.get_batch_tail = s.tail_of_log ∧ s.gate.get_fee_tiers = s.last_ladder ∧
    s.gate.get_fee_stats = (s.fees, s.withdrawals) := by
  have hmints : (s.log.filterMap Entry.mints).length = s.gate.next_intent_id := by
    rw [h.provenance.minted, List.length_range]
  have hlist : ∀ id, id ∈ s.gate.list_pending ↔ id ∈ s.gate.pending := fun id => List.mem_toFinset
  refine ⟨?_, ?_, ?_, ?_, h.chain_told.tail, h.last_ladder, ?_⟩
  · intro id view hview
    obtain ⟨p, hp, rfl⟩ := Option.map_eq_some_iff.1 hview
    obtain ⟨en, hen, delegate, fc, env, hsub, hid, henv, rfl⟩ := h.provenance.pending id p hp
    refine ⟨en, hen, delegate, fc, hsub, hid ▸ hsub.mints, ?_⟩
    simp only [Gate.pending_intent, henv]
  · intro id
    rw [Gate.get_pending, Option.isSome_map, hlist, AList.lookup_isSome]
  · intro id
    rw [hlist, h.pending_told, h.minted_iff]
  · have hcounters := h.lifecycle.counters
    rw [Gate.stats, hcounters.submitted, hcounters.dispatched, hcounters.rejected, hmints,
      h.chain_told.batches]
  · rw [Gate.get_fee_stats, h.fees, h.fee_book.withdrawn]

section Demo

open SequentialNear.Demo

/-- Three submissions, of which a batch takes the first and a rejection the last. -/
theorem views_tell_the_log_demo : ∃ s, Reachable deployment s ∧ s.gate.list_pending = {1} ∧
    s.gate.stats = (3, 0, 1, 3, 1) ∧ s.tail_of_log = [1] ∧ ∃ en ∈ s.log, en.mints = some 1 := by
  obtain ⟨s, hrun, hpending, hstats, htail⟩ : ∃ s, Run (step deployment) anyAction start s ∧
      s.gate.list_pending = {1} ∧ s.gate.stats = (3, 0, 1, 3, 1) ∧ s.gate.get_batch_tail = [1] :=
    exists_run_of_exec (submissions [set11, set22, set33] ++
      [.call approver FEE 0 (.resume_batch_chained first_two),
       .call approver FEE 0 (.resume_intent 2 false), .advance 1, .run_callback 1 0]) _
      (by decide +kernel)
  have hs : Reachable deployment s := ⟨_, _, _, _, hrun⟩
  obtain ⟨-, -, hlist, -, htold, -⟩ := views_tell_the_log hs
  have hmem : 1 ∈ s.gate.list_pending := hpending ▸ Finset.mem_singleton_self 1
  exact ⟨s, hs, hpending, hstats, htold.symm.trans htail, ((hlist 1).1 hmem).1⟩

end Demo

end SequentialNear
