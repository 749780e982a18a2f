/-
The receipts and the log entries of a batch, and the numbers they carry.

A batch is known by the number that `resume_batch_chained` gives it. In every
reachable state the numbers given out are `1`, `2`, ... up to the counter, and what
carries a number belongs to a batch that was accepted ([`Reachable.tagged`]). So a
batch that has just started shares nothing with what was there before it.
-/
import SequentialNear.Chain

set_option autoImplicit false

namespace SequentialNear

open Nep366 Runs

namespace Ledger

variable {d : Deployment} {s s' s₀ : Ledger} {a : Action}

/-! ## The receipts of a batch -/

theorem mem_of_batch {f : InFlight} {b : Nat} :
    f ∈ s.of_batch b ↔ f ∈ s.receipts ∧ f.batch = some b := by
  rw [of_batch, List.mem_filter, decide_eq_true_eq]

theorem of_batch_ne_nil {f : InFlight} {b : Nat} (hf : f ∈ s.receipts) (hb : f.batch = some b) :
    s.of_batch b ≠ [] := List.ne_nil_of_mem (mem_of_batch.2 ⟨hf, hb⟩)

theorem of_batch_singleton {f g : InFlight} {b : Nat} (hf : f ∈ s.receipts)
    (hb : f.batch = some b) (hone : s.of_batch b = [g]) : f = g := by
  have hmem := mem_of_batch.2 ⟨hf, hb⟩
  rw [hone] at hmem
  exact List.mem_singleton.1 hmem

theorem filter_batch_ne {l : List InFlight} {b : Nat} {x : Option Nat}
    (hl : ∀ g ∈ l, g.batch = x) (hx : x ≠ some b) : l.filter (·.batch = some b) = [] := by
  rw [List.filter_eq_nil_iff]
  intro g hg hgb
  exact hx ((hl g hg).symm.trans (of_decide_eq_true hgb))

theorem filter_batch_eq {l : List InFlight} {b : Nat} {x : Option Nat}
    (hl : ∀ g ∈ l, g.batch = x) (hx : x = some b) : l.filter (·.batch = some b) = l := by
  rw [List.filter_eq_self]
  intro g hg
  exact decide_eq_true ((hl g hg).trans hx)

theorem batch_of_singleton (f : InFlight) : ∀ g ∈ [f], g.batch = f.batch := by
  intro g hg
  rw [List.mem_singleton.1 hg]

/-- Replacing a receipt of another batch leaves the receipts of this one. -/
theorem of_batch_other {pre post new : List InFlight} {f : InFlight} {b : Nat}
    (hsplit : s.receipts = pre ++ f :: post) (hrecs : s'.receipts = pre ++ post ++ new)
    (hnew : ∀ g ∈ new, g.batch = f.batch) (hb : f.batch ≠ some b) :
    s'.of_batch b = s.of_batch b := by
  have hsplit : s.receipts = pre ++ ([f] ++ post) := hsplit
  rw [of_batch, of_batch, hrecs, hsplit, List.filter_append, List.filter_append,
    List.filter_append, List.filter_append, filter_batch_ne hnew hb,
    filter_batch_ne (batch_of_singleton f) hb, List.append_nil, List.nil_append]

/-- So does queueing one. -/
theorem of_batch_push {f : InFlight} {b : Nat} (hrecs : s'.receipts = s.receipts ++ [f])
    (hb : f.batch ≠ some b) : s'.of_batch b = s.of_batch b := by
  rw [of_batch, hrecs, List.filter_append, filter_batch_ne (batch_of_singleton _) hb,
    List.append_nil, of_batch]

/-- Replacing the only receipt of a batch. -/
theorem of_batch_same {pre post new : List InFlight} {f : InFlight} {b : Nat}
    (hsplit : s.receipts = pre ++ f :: post) (hrecs : s'.receipts = pre ++ post ++ new)
    (hnew : ∀ g ∈ new, g.batch = f.batch) (hb : f.batch = some b) (hone : s.of_batch b = [f]) :
    s'.of_batch b = new := by
  have hsplit : s.receipts = pre ++ ([f] ++ post) := hsplit
  rw [of_batch, hsplit, List.filter_append, List.filter_append,
    filter_batch_eq (batch_of_singleton f) hb] at hone
  -- one element: nothing before it, nothing after it
  have hlen := congrArg List.length hone
  simp only [List.length_append, List.length_singleton] at hlen
  have hpre := List.eq_nil_of_length_eq_zero
    (show (pre.filter fun x => decide (x.batch = some b)).length = 0 by omega)
  have hpost := List.eq_nil_of_length_eq_zero
    (show (post.filter fun x => decide (x.batch = some b)).length = 0 by omega)
  rw [of_batch, hrecs, List.filter_append, List.filter_append, hpre, hpost,
    filter_batch_eq hnew hb]
  rfl

theorem trace_append {b : Nat} {l : List (Nat × ChainStep)} (h : s'.stamps b = s.stamps b ++ l) :
    s'.trace b = s.trace b ++ l.map Prod.snd := by
  rw [trace, h, List.map_append, trace]

/-- An accepted list adds no step to a batch with another number. -/
theorem stamps_accepted_ne {caller : AccountId} {deposit b : Nat} {ids : Vec Nat}
    (hlog : s'.log = s.log ++ [⟨s.block_height, s.gate,
      .accepted caller deposit (.resume_batch_chained ids)⟩])
    (hb : s.gate.active_batch_id + 1 ≠ b) : s'.stamps b = s.stamps b := by
  rw [stamps_of_log hlog]
  simp [Entry.chain_step, hb]

theorem trace_congr {b : Nat} (h : s'.stamps b = s.stamps b) : s'.trace b = s.trace b := by
  rw [trace, h, trace]

theorem trace_eq (s : Ledger) (b : Nat) : s.trace b = s.log.filterMap (Entry.chain_step b) := by
  rw [trace, stamps, List.map_filterMap]
  refine List.filterMap_congr fun en _ => ?_
  cases en.chain_step b <;> rfl

end Ledger

/-! ## The numbers given out -/

/-- The batch whose receipt an event logs. -/
def Event.batch : Event → Option Nat
  | .dispatched _ _ _ batch | .aborted _ batch | .executed _ _ _ batch | .finished _ _ batch
  | .continued _ _ batch | .continue_failed _ _ _ batch => batch
  | _ => none

namespace Ledger

variable {d : Deployment} {s s' s₀ : Ledger} {a : Action}

/-- The numbers of the batches count up, and whatever carries a number belongs to a
batch that was accepted. -/
structure Tagged (s : Ledger) : Prop where
  numbered : s.batches.map Prod.fst = List.range' 1 s.gate.active_batch_id
  tagged : ∀ f ∈ s.receipts, ∀ b, f.batch = some b → ∃ ids, (b, ids) ∈ s.batches
  logged : ∀ en ∈ s.log, ∀ b, en.event.batch = some b → ∃ ids, (b, ids) ∈ s.batches

/-- The batch of an event is the batch of the receipt it logs. -/
theorem batch_of_cause {e : Event} {b : Nat} (h : e.Cause d s₀ a s s')
    (he : e.batch = some b) : ∃ f ∈ s.receipts, f.batch = some b := by
  cases e with
  | dispatched | aborted | executed | finished | continued =>
    obtain ⟨f, hf, hb, -⟩ := h
    exact ⟨f, hf, hb.trans he⟩
  | continue_failed =>
    obtain ⟨rfl, f, hf, hb, -⟩ := h
    exact ⟨f, Action.receipt_mem hf, hb.trans he⟩
  | _ => cases he

/-- Batches are never forgotten. -/
theorem Move.batches_extend (h : Move d s₀ a s s') {b : Nat} {ids : List Nat}
    (hb : (b, ids) ∈ s.batches) : (b, ids) ∈ s'.batches :=
  (h.log_extends.filterMap Entry.batch).subset hb

namespace Tagged

theorem le_active (h : s.Tagged) {b : Nat} {ids : List Nat} (hb : (b, ids) ∈ s.batches) :
    1 ≤ b ∧ b ≤ s.gate.active_batch_id := by
  have hmem : b ∈ s.batches.map Prod.fst := List.mem_map.2 ⟨_, hb, rfl⟩
  rw [h.numbered, List.mem_range'_1] at hmem
  omega

/-- A number stands for one list. -/
theorem unique (h : s.Tagged) {b : Nat} {ids ids' : List Nat} (hb : (b, ids) ∈ s.batches)
    (hb' : (b, ids') ∈ s.batches) : ids = ids' := by
  -- the numbers are consecutive, so each is given out once
  have hnodup : (s.batches.map Prod.fst).Nodup := by
    rw [h.numbered]
    exact List.nodup_range'
  have heq := List.inj_on_of_nodup_map hnodup hb hb' rfl
  exact congrArg Prod.snd heq

/-- A number not given out yet is on no receipt. -/
theorem of_batch_unborn (h : s.Tagged) {b : Nat} (hb : s.gate.active_batch_id < b) :
    s.of_batch b = [] := by
  rw [of_batch, List.filter_eq_nil_iff]
  intro f hf hfb
  obtain ⟨ids, hids⟩ := h.tagged f hf b (of_decide_eq_true hfb)
  have := h.le_active hids
  omega

/-- It is on no entry either. -/
theorem unborn (h : s.Tagged) {b : Nat} (hb : s.gate.active_batch_id < b) : s.stamps b = [] := by
  rw [stamps, List.filterMap_eq_nil_iff]
  intro en hen
  -- an entry belongs to `b` through its receipt or by accepting it, and neither can be
  have hnone : en.chain_step b = none := by
    have hevent : en.event.batch ≠ some b := by
      intro he
      obtain ⟨ids, hids⟩ := h.logged en hen b he
      have := h.le_active hids
      omega
    have hbatch : ∀ ids, en.batch ≠ some (b, ids) := by
      intro ids he
      have := h.le_active (List.mem_filterMap.2 ⟨en, hen, he⟩)
      omega
    obtain ⟨block, before, event⟩ := en
    cases event with
    | accepted caller deposit c =>
      cases c with
      | resume_batch_chained ids =>
        refine if_neg fun heq => hbatch ids.toList ?_
        rw [Entry.batch, heq]
      | _ => rfl
    | dispatched | executed | finished | continued => exact if_neg hevent
    | _ => rfl
  rw [hnone, Option.map_none]

/-- The first step of an accepted list is that its first member is resumed. -/
theorem stamps_accepted (h : s.Tagged) {caller : AccountId} {deposit first : Nat} {ids : Vec Nat}
    {rest : List Nat} (hlog : s'.log = s.log ++ [⟨s.block_height, s.gate,
      .accepted caller deposit (.resume_batch_chained ids)⟩]) (hids : ids.toList = first :: rest) :
    s'.stamps (s.gate.active_batch_id + 1) = [(s.block_height, .resumed first 0)] := by
  rw [stamps_of_log hlog, h.unborn (Nat.lt_succ_self _)]
  simp [Entry.chain_step, hids]

/-- Its first receipt is its only one. -/
theorem of_batch_accepted (h : s.Tagged) {f : InFlight} (hrecs : s'.receipts = s.receipts ++ [f])
    (hf : f.batch = some (s.gate.active_batch_id + 1)) :
    s'.of_batch (s.gate.active_batch_id + 1) = [f] := by
  rw [of_batch, hrecs, List.filter_append, ← of_batch, h.of_batch_unborn (Nat.lt_succ_self _),
    filter_batch_eq (batch_of_singleton _) hf, List.nil_append]

/-- Only an accepted list is given a number, the next one. -/
theorem numbered_move (h : s.Tagged) (hlife : s.Lifecycle) (hmove : Move d s₀ a s s') :
    s'.batches.map Prod.fst = List.range' 1 s'.gate.active_batch_id := by
  -- a relay that starts nothing leaves both the counter and the list of batches
  have hsame : s'.gate.active_batch_id = s.gate.active_batch_id → s'.batches = s.batches →
      s'.batches.map Prod.fst = List.range' 1 s'.gate.active_batch_id := fun ha hb => by
    rw [ha, hb, h.numbered]
  cases relay_of_move hlife hmove with
  | still hst htail => exact hsame hst.active hst.batches
  | reset hst hcall htail => exact hsame hst.active hst.batches
  | start hcall hids htail htail' hactive hnow hrecs hid hlog =>
    rw [batches_of_log hlog, List.map_append, h.numbered, hactive, List.range'_concat]
    simp [Entry.batch, Nat.add_comm]
  | pass new hsame' => exact hsame hsame'.active hsame'.batches
  | stop hsame' => exact hsame hsame'.active hsame'.batches
  | pop hsame' => exact hsame hsame'.active hsame'.batches
  | forge hforges hsame' => exact hsame hsame'.active hsame'.batches

/-- A receipt has the batch of the one it descends from. -/
theorem tagged_move (h : s.Tagged) (hlife : s.Lifecycle) (hmove : Move d s₀ a s s') :
    ∀ f ∈ s'.receipts, ∀ b, f.batch = some b → ∃ ids, (b, ids) ∈ s'.batches := by
  have hold : ∀ f ∈ s.receipts, ∀ b, f.batch = some b → ∃ ids, (b, ids) ∈ s'.batches := by
    intro f hf b hb
    obtain ⟨ids, hids⟩ := h.tagged f hf b hb
    exact ⟨ids, Move.batches_extend hmove hids⟩
  have hstill : Still s s' → ∀ f ∈ s'.receipts, ∀ b, f.batch = some b →
      ∃ ids, (b, ids) ∈ s'.batches := fun hst f hf b hb => by
    have hmem : f ∈ s'.of_batch b := mem_of_batch.2 ⟨hf, hb⟩
    rw [hst.of_batch] at hmem
    exact hold f (mem_of_batch.1 hmem).1 b hb
  intro f hf b hb
  cases relay_of_move hlife hmove with
  | still hst htail => exact hstill hst f hf b hb
  | reset hst hcall htail => exact hstill hst f hf b hb
  | @start _ caller deposit first ids rest y args gas hcall hids htail htail' hactive hnow hrecs
      hid hlog =>
    rw [hrecs, List.mem_append, List.mem_singleton] at hf
    rcases hf with hf | rfl
    · exact hold f hf b hb
    · cases hb
      refine ⟨ids.toList, ?_⟩
      rw [batches_of_log hlog]
      exact List.mem_append_right _ (List.mem_singleton.2 rfl)
  | pass new hsame htail hexec hblock hsplit hrecs hnew =>
    rw [hrecs, List.mem_append] at hf
    rcases hf with hf | hf
    · exact hold f (mem_of_without hsplit hf) b hb
    · exact hold _ (mem_of_split hsplit) b ((hnew f hf).symm.trans hb)
  | stop hsame htail hsplit hrecs =>
    rw [hrecs] at hf
    exact hold f (mem_of_without hsplit hf) b hb
  | pop hsame hexec hsplit htail htail' hrecs =>
    rw [hrecs, List.mem_append, List.mem_singleton] at hf
    rcases hf with hf | rfl
    · exact hold f (mem_of_without hsplit hf) b hb
    · exact hold _ (mem_of_split hsplit) b hb
  | forge hforges hsame htail htail' hrecs =>
    rw [hrecs, List.mem_append, List.mem_singleton] at hf
    rcases hf with hf | rfl
    · exact hold f hf b hb
    · cases hb

theorem move (h : s.Tagged) (hlife : s.Lifecycle) (hmove : Move d s₀ a s s') : s'.Tagged where
  numbered := h.numbered_move hlife hmove
  tagged := h.tagged_move hlife hmove
  logged := by
    intro en hen b hb
    have hids : ∃ ids, (b, ids) ∈ s.batches := by
      rcases hmove.mem_log hen with hen | ⟨e, -, rfl, hcause⟩
      · exact h.logged en hen b hb
      · obtain ⟨f, hf, hfb⟩ := batch_of_cause hcause hb
        exact h.tagged f hf b hfb
    obtain ⟨ids, hids⟩ := hids
    exact ⟨ids, Move.batches_extend hmove hids⟩

theorem init (owner_id approver_id : AccountId) (balance block_height : Nat) :
    (Ledger.init owner_id approver_id balance block_height).Tagged where
  numbered := rfl
  tagged f hf := by cases hf
  logged en hen := by cases hen

end Tagged

end Ledger

theorem Reachable.tagged {d : Deployment} {s : Ledger} (h : Reachable d s) : s.Tagged := by
  let I : Ledger → Prop := fun t => t.Lifecycle ∧ t.Tagged
  have hinv : I s := by
    refine h.invariant I (fun _ _ _ _ => ⟨.init _ _ _ _, .init _ _ _ _⟩) ?_
    intro s₀ a t t' ht hmove
    exact ⟨ht.1.move hmove, ht.2.move ht.1 hmove⟩
  exact hinv.2

end SequentialNear
