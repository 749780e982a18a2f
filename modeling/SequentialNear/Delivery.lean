/-
What becomes of an accepted list.

When the last receipt of a live batch is gone, everything is done: every member
has been dispatched, once and in the order of the list, nobody is left in the tail
or in `pending`, no `continue_chain` has panicked, and one fee was charged
([`batch_completes`]). The target has been called in that order, which a register
shows.

What the batch needs from the state it is accepted in is that no receipt of an
earlier one is left that names its members. Only a reset leaves such receipts.
-/
import SequentialNear.Accounting
import SequentialNear.Completion
import SequentialNear.Register

set_option autoImplicit false

namespace SequentialNear

open Borsh Nep366 Runs

namespace Ledger

variable {d : Deployment} {s s' s₀ s₁ : Ledger} {a : Action}

/-! ## A batch without receipts -/

/-- A live batch with no receipt in flight has nothing left to do. -/
theorem Live.done {b : Nat} {ids : List Nat} (h : s.Live b ids) (hlife : s.Lifecycle)
    (hidle : s.of_batch b = []) :
    s.trace b = script 0 ids ∧
      (∀ id ∈ ids, id ∉ s.gate.batch_chain_tail ∧ id ∉ s.gate.pending) ∧
      (s.gate.active_batch_id = b → s.gate.batch_chain_tail = []) := by
  obtain ⟨rest, rem, hrem, hrec, hact, htl⟩ := h.carried
  have hids := members_of_carried hrem hrec
  obtain ⟨rfl, rfl⟩ : rest = [] ∧ rem = [] := by
    rcases hrec with ⟨-, hrest, hrem⟩ | ⟨f, hone, -⟩
    · exact ⟨hrest, hrem⟩
    · rw [hidle] at hone
      cases hone
  rw [List.append_nil] at hrem hids
  have htail : s.gate.active_batch_id = b → s.gate.batch_chain_tail = [] := fun hb => (htl hb).1
  refine ⟨hrem, fun id hid => ⟨fun hmem => ?_, ?_⟩, htail⟩
  · rcases Nat.lt_or_eq_of_le h.born with hlt | heq
    · exact h.newer hlt id hmem hid
    · rw [htail heq.symm] at hmem
      cases hmem
  · exact hlife.resumed_gone ((chain_resumes_sublist s b).subset (hids ▸ hid))

/-- No `continue_chain` of batch `b` has panicked. -/
def Unbroken (s : Ledger) (b : Nat) : Prop :=
  ∀ en ∈ s.log, ∀ id seq msg, en.event ≠ .continue_failed id seq msg (some b)

/-- The `continue_chain` of a live batch does not panic. -/
theorem Live.unbroken {b : Nat} {ids : List Nat} (h : s.Live b ids) (hlife : s.Lifecycle)
    (hun : s.Unbroken b) (hmove : Move d s₀ a s s') : s'.Unbroken b := by
  intro en hen id seq msg he
  rcases hmove.mem_log hen with hen | ⟨e, -, rfl, hcause⟩
  · exact hun en hen id seq msg he
  · obtain rfl := he
    obtain ⟨rfl, f, hf, hb, hr, hfail⟩ := hcause
    obtain ⟨hhead, hopen⟩ := h.continues (Action.receipt_mem hf) hb hr
    obtain ⟨out, hrun⟩ := hlife.continue_runs d seq hhead hopen
    rw [hrun] at hfail
    cases hfail

/-- A batch that has just started is unbroken. -/
theorem Tagged.unbroken {caller : AccountId} {deposit : Nat} {ids : Vec Nat} (h : s.Tagged)
    {b : Nat} (hb : s.gate.active_batch_id < b) (hlog : s'.log = s.log ++
      [⟨s.block_height, s.gate, .accepted caller deposit (.resume_batch_chained ids)⟩]) :
    s'.Unbroken b := by
  intro en hen id seq msg he
  rw [hlog, List.mem_append, List.mem_singleton] at hen
  rcases hen with hen | rfl
  · obtain ⟨ids', hids'⟩ := h.logged en hen b (by rw [he]; rfl)
    have := h.le_active hids'
    omega
  · cases he

/-! ## Dispatched once -/

/-- A dispatch in the trace of a batch is a dispatch. -/
theorem met_of_trace {b id : Nat} {seq : Option Nat} (h : .dispatched id seq ∈ s.trace b) :
    id ∈ s.met .dispatched := by
  rw [trace_eq] at h
  obtain ⟨en, hen, hst⟩ := List.mem_filterMap.1 h
  refine List.mem_filterMap.2 ⟨(id, .dispatched), ?_, if_pos rfl⟩
  refine List.mem_filterMap.2 ⟨en, hen, ?_⟩
  unfold Entry.chain_step at hst
  split at hst
  · split at hst
    · obtain ⟨n, -, hn⟩ := Option.map_eq_some_iff.1 hst
      cases hn
    · cases hst
  · rename_i he
    split at hst
    · cases hst
      rw [he]
      rfl
    · cases hst
  all_goals
    first
    | cases hst
    | split at hst <;> cases hst

theorem dispatched_mem_script {i id : Nat} {ids : List Nat} (h : id ∈ ids) :
    ∃ seq, .dispatched id seq ∈ script i ids := by
  induction ids generalizing i with
  | nil => cases h
  | cons x xs ih =>
    rw [script]
    rcases List.mem_cons.1 h with rfl | h
    · exact ⟨some i, List.mem_cons_of_mem _ List.mem_cons_self⟩
    · obtain ⟨seq, hmem⟩ := ih (i := i + 1) h
      refine ⟨seq, ?_⟩
      iterate 4 refine List.mem_cons_of_mem _ ?_
      exact hmem

end Ledger

/-! ## The fee of a batch -/

/-- The entry accepts batch `b`, or logs one of its receipts. -/
def Entry.belongs (b : Nat) (en : Entry) : Prop :=
  en.event.batch = some b ∨ en.batch.map Prod.fst = some b

instance (b : Nat) : DecidablePred (Entry.belongs b) := fun _ => inferInstanceAs (Decidable (_ ∨ _))

/-- What the entries of batch `b` were charged. -/
def Ledger.batch_fees (s : Ledger) (b : Nat) : Nat :=
  ((s.log.filter (·.belongs b)).map Entry.fee).sum

/-- A receipt is free. -/
theorem Entry.fee_of_receipt {en : Entry} {b : Nat} (h : en.event.batch = some b) : en.fee = 0 := by
  obtain ⟨block, before, event⟩ := en
  cases event with
  | accepted caller deposit c => cases h
  | _ => rfl

namespace Ledger

variable {d : Deployment} {s s' s₀ s₁ : Ledger} {a : Action}

/-- **One fee for a batch**: that of the call that accepted it. -/
theorem Tagged.batch_fee (h : s.Tagged) {acc : Entry} {b : Nat} {ids : List Nat}
    (hmem : acc ∈ s.log) (hb : acc.batch = some (b, ids)) : s.batch_fees b = acc.fee := by
  have hnodup : (s.log.filterMap fun en => en.batch.map Prod.fst).Nodup := by
    rw [← List.map_filterMap]
    show (s.batches.map Prod.fst).Nodup
    rw [h.numbered]
    exact List.nodup_range'
  obtain ⟨pre, post, hlog⟩ := List.append_of_mem hmem
  have hnum : acc.batch.map Prod.fst = some b := by rw [hb, Option.map_some]
  have hother := unique_of_nodup_filterMap hnodup hlog hnum
  -- the others that belong to the batch are receipts
  have hzero : ∀ l : List Entry, (∀ en ∈ l, en ∈ pre ++ post) →
      ((l.filter (·.belongs b)).map Entry.fee).sum = 0 := by
    intro l hl
    refine List.sum_eq_zero_iff_forall_eq_nat.2 fun n hn => ?_
    obtain ⟨en, hen, rfl⟩ := List.mem_map.1 hn
    obtain ⟨hen, hbel⟩ := List.mem_filter.1 hen
    rcases of_decide_eq_true hbel with hrec | hacc
    · exact Entry.fee_of_receipt hrec
    · exact absurd hacc (hother en (hl en hen))
  have hself : acc.belongs b := .inr hnum
  have hkeep : (acc :: post).filter (·.belongs b) = acc :: post.filter (·.belongs b) :=
    List.filter_cons_of_pos (decide_eq_true hself)
  rw [batch_fees, hlog, List.filter_append, hkeep, List.map_append, List.map_cons,
    List.sum_append, List.sum_cons, hzero pre fun en hen => List.mem_append_left _ hen,
    hzero post fun en hen => List.mem_append_right _ hen]
  omega

end Ledger

/-! ## What the receivers executed -/

/-- The intent and the call that an entry of batch `b` executed at its receiver. -/
def Entry.execution (b : Nat) (en : Entry) : Option (Nat × FunctionCall) :=
  match en.event with
  | .executed id call _ batch => if batch = some b then some (id, call) else none
  | _ => none

/-- The executions of batch `b`, in order. -/
def Ledger.executions (s : Ledger) (b : Nat) : List (Nat × FunctionCall) :=
  s.log.filterMap (Entry.execution b)

/-- The batch whose target call failed at its receiver. -/
def Event.failed : Event → Option Nat
  | .executed _ _ false batch => batch
  | _ => none

/-- The call that an entry executed at `receiver`, unless it failed there. -/
def Entry.effect (receiver : AccountId) (en : Entry) : Option FunctionCall :=
  match en.event with
  | .executed _ call true _ => if call.receiver = receiver then some call else none
  | _ => none

/-- What `receiver` has been called with, in order. -/
def Ledger.effects (s : Ledger) (receiver : AccountId) : List FunctionCall :=
  s.log.filterMap (Entry.effect receiver)

/-- The intent whose target call a step executes. -/
def ChainStep.execution : ChainStep → Option Nat
  | .executed id => some id
  | _ => none

theorem script_executions (i : Nat) (ids : List Nat) :
    (script i ids).filterMap ChainStep.execution = ids := by
  induction ids generalizing i with
  | nil => rfl
  | cons x xs ih =>
    rw [script]
    simp only [List.filterMap_cons, ChainStep.execution, ih]

theorem Entry.execution_eq (b : Nat) (en : Entry) :
    (en.execution b).map Prod.fst = (en.chain_step b).bind ChainStep.execution := by
  obtain ⟨block, before, event⟩ := en
  cases event with
  | accepted caller deposit c =>
    cases c with
    | resume_batch_chained ids =>
      simp only [execution, chain_step]
      split
      · cases ids.toList.head? <;> rfl
      · rfl
    | _ => rfl
  | dispatched id call seq batch | executed id call success batch
  | finished id success batch | continued id seq batch =>
    simp only [execution, chain_step]
    split <;> rfl
  | _ => rfl

theorem Entry.event_of_execution {b id : Nat} {call : FunctionCall} {en : Entry}
    (h : en.execution b = some (id, call)) : ∃ ok, en.event = .executed id call ok (some b) := by
  unfold execution at h
  split at h
  · rename_i he
    split at h
    · rename_i hb
      cases h
      exact ⟨_, hb ▸ he⟩
    · cases h
  · cases h

namespace Ledger

variable {d : Deployment} {s s' s₀ s₁ : Ledger} {a : Action}

theorem executions_fst (s : Ledger) (b : Nat) :
    (s.executions b).map Prod.fst = (s.trace b).filterMap ChainStep.execution := by
  rw [executions, List.map_filterMap, trace_eq, List.filterMap_filterMap]
  exact List.filterMap_congr fun en _ => Entry.execution_eq b en

/-- What was executed for a batch is what its members asked for when they were
pending. -/
theorem executions_signed (h₀ : Reachable d s₀) (h : Reachable d s) (hlog : s₀.log <+: s.log)
    {b : Nat} {ids : List Nat} (hids : (s.executions b).map Prod.fst = ids)
    (hopen : ∀ id ∈ ids, s₀.Open id) :
    (s.executions b).map (fun e => some e.2) = ids.map s₀.gate.call_of := by
  rw [← hids, List.map_map]
  refine List.map_congr_left ?_
  rintro ⟨id, call⟩ he
  obtain ⟨en, hen, hex⟩ := List.mem_filterMap.1 he
  obtain ⟨ok, hev⟩ := Entry.event_of_execution hex
  have hid : id ∈ ids := hids ▸ List.mem_map_of_mem he
  obtain ⟨p, w, hp, -⟩ := h₀.lifecycle.open_pending (hopen id hid)
  have hcall : s₀.gate.call_of id = some p.toFunctionCall := by rw [Gate.call_of, hp, Option.map_some]
  have hthen := (h₀.provenance.signed_pending hcall).mono hlog
  have hnow := h.targets_signed id call (.inr ⟨en, hen, ok, _, hev⟩)
  rw [Function.comp_apply, hcall, h.provenance.signed_unique hnow hthen]

/-- **The receiver of a batch is called in the order of the list**, among whatever
else it is called with. -/
theorem effects_of_executions {b : Nat} {ids : List Nat} {l : List Entry} {receiver : AccountId}
    {decode : FunctionCall → Option RegisterCall} {value : Nat → U64}
    (hex : (l.filterMap (Entry.execution b)).map (fun e => some e.2) = ids.map s₀.gate.call_of)
    (hset : ∀ id ∈ ids, ∃ call ∈ s₀.gate.call_of id, call.receiver = receiver ∧
      decode call = some (.set (value id)))
    (hok : ∀ en ∈ l, en.event.failed ≠ some b) :
    ((ids.map value).map RegisterCall.set).Sublist
      ((l.filterMap (Entry.effect receiver)).filterMap decode) := by
  have hcalls : ∀ call ∈ (l.filterMap (Entry.execution b)).map Prod.snd, call.receiver = receiver := by
    intro call hcall
    have hmem : some call ∈ ids.map s₀.gate.call_of := by
      rw [← hex]
      obtain ⟨e, he, rfl⟩ := List.mem_map.1 hcall
      exact List.mem_map.2 ⟨e, he, rfl⟩
    obtain ⟨id, hid, heq⟩ := List.mem_map.1 hmem
    obtain ⟨call', hcall', hrecv, -⟩ := hset id hid
    rw [heq, Option.mem_some_iff] at hcall'
    exact hcall' ▸ hrecv
  have hsub : ((l.filterMap (Entry.execution b)).map Prod.snd).Sublist
      (l.filterMap (Entry.effect receiver)) := by
    rw [List.map_filterMap]
    refine filterMap_sublist fun en hen call hcall => ?_
    obtain ⟨⟨id, call'⟩, hex', rfl⟩ := Option.map_eq_some_iff.1 hcall
    obtain ⟨ok, hev⟩ := Entry.event_of_execution hex'
    have hrecv := hcalls call' (List.mem_map.2 ⟨_, List.mem_filterMap.2 ⟨en, hen, hex'⟩, rfl⟩)
    have hok := hok en hen
    rw [hev] at hok
    rw [Entry.effect, hev]
    cases ok with
    | true => exact if_pos hrecv
    | false => exact absurd rfl hok
  have hdec : ((l.filterMap (Entry.execution b)).map Prod.snd).filterMap decode =
      (ids.map value).map RegisterCall.set := by
    have hsome : ∀ calls : List FunctionCall, calls.filterMap decode =
        (calls.map some).filterMap (·.bind decode) := fun calls => by
      rw [List.filterMap_map]
      rfl
    rw [hsome, List.map_map]
    show ((l.filterMap (Entry.execution b)).map fun e => some e.2).filterMap _ = _
    rw [hex, List.filterMap_map, List.map_map, ← List.filterMap_eq_map]
    refine List.filterMap_congr fun id hid => ?_
    obtain ⟨call, hcall, -, hdecode⟩ := hset id hid
    rw [Function.comp_apply, Option.mem_def.1 hcall, Option.bind_some, hdecode]
    rfl
  rw [← hdec]
  exact hsub.filterMap decode

/-! ## The run of a batch -/

/-- A live batch, of which no `continue_chain` has panicked. -/
structure Kept (s : Ledger) (b : Nat) (ids : List Nat) : Prop where
  life : s.Lifecycle
  live : s.Live b ids
  unbroken : s.Unbroken b

namespace Kept

theorem move {b : Nat} {ids : List Nat} (h : s.Kept b ids) (hnodup : ids.Nodup)
    (hcalm : undisturbed d ids s₀ a)
    (hown : s₀.gate.active_batch_id = b → ∀ f ∈ a.receipt s₀, f.batch ≠ some b →
      ∀ n, f.receipt.next = some n → n ∉ s₀.gate.batch_chain_tail)
    (hmove : Move d s₀ a s s') : s'.Kept b ids :=
  ⟨h.life.move hmove, h.live.move h.life hnodup hcalm hown hmove,
    h.live.unbroken h.life h.unbroken hmove⟩

/-- **No undisturbed step hurts a batch** that is apart from all other receipts, and
it stays apart. -/
theorem step {b : Nat} {ids : List Nat} (h : s.Kept b ids) (hapart : s.Apart b)
    (hnodup : ids.Nodup) (hcalm : undisturbed d ids s a)
    (hst : SequentialNear.step d s a = some s') : s'.Kept b ids ∧ s'.Apart b := by
  let I : Ledger → Prop := fun t => t.Kept b ids ∧ t.Apart b
  have hinv : I s' := by
    refine step_preserves I hst ⟨h, hapart⟩ ?_
    rintro t t' ⟨ht, htapart⟩ hmove
    exact ⟨ht.move hnodup hcalm (fun hb f hf => hapart hb f (Action.receipt_mem hf)) hmove,
      htapart.move ht.live.born ht.life hcalm hmove⟩
  exact hinv

/-- An accepted list of open intents is kept from the start. -/
theorem start {caller : AccountId} {deposit : Nat} {ids : Vec Nat} (htagged : s.Tagged)
    (hlife : s.Lifecycle) (hnodup : ids.toList.Nodup) (hopen : ∀ id ∈ ids.toList, s.Open id)
    (hlapses : a.lapses s = none) (hmove : Move d s a s s') (hlog : s'.log = s.log ++
      [⟨s.block_height, s.gate, .accepted caller deposit (.resume_batch_chained ids)⟩]) :
    s'.Kept s'.gate.active_batch_id ids.toList where
  life := hlife.move hmove
  live := .start htagged hlife hnodup hopen hlapses hmove hlog
  unbroken := by
    obtain ⟨_, _, _, _, _, -, -, -, hactive, -⟩ := started hlife hmove hlog
    exact htagged.unbroken (hactive ▸ Nat.lt_succ_self _) hlog

end Kept

/-- What has become, in `s`, of the batch `b` that was accepted from `s₀`. -/
structure Completed (s s₀ : Ledger) (b : Nat) (ids : List Nat) : Prop where
  /-- In the order of the list, each with its position. -/
  dispatched : (s.dispatches b).map Prod.snd = ids.zipIdx.map fun p => (p.1, some p.2)
  once : ∀ id ∈ ids, (s.met .dispatched).count id = 1
  /-- The calls on record when the list was accepted, in its order. -/
  executed : (s.executions b).map (fun e => some e.2) = ids.map s₀.gate.call_of
  gone : ∀ id ∈ ids, id ∉ s.gate.batch_chain_tail ∧ id ∉ s.gate.pending
  unbroken : s.Unbroken b
  /-- The batch was charged the fee of its length, of all the fees in the log. -/
  fee : ∃ tier, s₀.gate.fee_for ids.length = .ok tier ∧ s.batch_fees b = tier.2
  total : s.gate.fees_collected_total = s.fees

/-- Without receipts in flight, a kept batch is completed. -/
theorem Kept.completed {b : Nat} {ids : List Nat} (h : s.Kept b ids) (hidle : s.of_batch b = [])
    (h₀ : Reachable d s₀) (hs : Reachable d s) (hlog : s₀.log <+: s.log)
    (hopen : ∀ id ∈ ids, s₀.Open id) {acc : Entry} (hacc : acc ∈ s.log)
    (hb : acc.batch = some (b, ids)) {tier : Nat × Nat} (htier : s₀.gate.fee_for ids.length = .ok tier)
    (hfee : acc.fee = tier.2) : s.Completed s₀ b ids := by
  obtain ⟨htrace, hgone, -⟩ := h.live.done h.life hidle
  have hexec : (s.executions b).map Prod.fst = ids := by
    rw [executions_fst, htrace, script_executions]
  refine ⟨?_, fun id hid => ?_, executions_signed h₀ hs hlog hexec hopen, hgone, h.unbroken,
    ⟨tier, htier, (hs.tagged.batch_fee hacc hb).trans hfee⟩, hs.fees⟩
  · rw [dispatches_eq, stamped_dispatches_snd]
    show (s.trace b).filterMap ChainStep.dispatch = _
    rw [htrace, script_dispatches]
  · obtain ⟨seq, hmem⟩ := dispatched_mem_script (i := 0) hid
    have hmet : id ∈ s.met .dispatched := met_of_trace (htrace ▸ hmem)
    exact List.count_eq_one_of_mem (h.life.met_nodup _) hmet

/-- Since `s₁`, the register at `receiver` has been set to these values in their
order, among whatever else it was called with. If it was called with nothing else,
they are what a view of it shows. -/
def SetsInOrder (s s₁ : Ledger) (receiver : AccountId) (decode : FunctionCall → Option RegisterCall)
    (values : List U64) : Prop :=
  ∃ new, s.effects receiver = s₁.effects receiver ++ new ∧
    (values.map RegisterCall.set).Sublist (new.filterMap decode) ∧
    ((new.filterMap decode).length = values.length →
      ∀ r : Register, r.set_count + values.length < 2 ^ 32 →
        r.replay (new.filterMap decode) = .ok
          { current := ((values.map (·.val)).getLast?).getD r.current
            log := r.log ++ values.map (·.val)
            set_count := r.set_count + values.length })

/-- A completed batch of `set` calls that all succeeded has set its register. -/
theorem Completed.sets_in_order {b : Nat} {ids : List Nat} (h : s.Completed s₀ b ids)
    (hlog : s₁.log <+: s.log) (hnone : s₁.executions b = []) {receiver : AccountId}
    {decode : FunctionCall → Option RegisterCall} {value : Nat → U64}
    (hset : ∀ id ∈ ids, ∃ call ∈ s₀.gate.call_of id, call.receiver = receiver ∧
      decode call = some (.set (value id)))
    (hok : ∀ en ∈ s.log, en.event.failed ≠ some b) :
    s.SetsInOrder s₁ receiver decode (ids.map value) := by
  obtain ⟨l, hl⟩ := hlog
  have hexec : s.executions b = l.filterMap (Entry.execution b) := by
    rw [executions, ← hl, List.filterMap_append]
    show s₁.executions b ++ _ = _
    rw [hnone, List.nil_append]
  have heff : s.effects receiver = s₁.effects receiver ++ l.filterMap (Entry.effect receiver) := by
    rw [effects, ← hl, List.filterMap_append, effects]
  have hsub := effects_of_executions (hexec ▸ h.executed) hset
    fun en hen => hok en (hl ▸ List.mem_append_right _ hen)
  refine ⟨_, heff, hsub, fun hlen r hcount => ?_⟩
  rw [← hsub.eq_of_length (by rw [List.length_map, hlen])]
  exact Register.replay_sets r _ hcount

/-! ## From acceptance to the last receipt -/

/-- An accepted list without repetitions, of open intents that no receipt in flight is
about to resume, is completed when its last receipt is gone. -/
theorem Completed.of_run {caller : AccountId} {deposit spare : Nat} {ids : Vec Nat}
    (h₀ : Reachable d s₀)
    (hstart : step d s₀ (.call caller deposit spare (.resume_batch_chained ids)) = some s₁)
    (hacc : (s₀.call d caller deposit spare (.resume_batch_chained ids)).2 = true)
    (hnodup : ids.toList.Nodup) (hopen : ∀ id ∈ ids.toList, s₀.Open id)
    (hfresh : ∀ f ∈ s₀.receipts, ∀ n ∈ f.receipt.next, n ∉ ids.toList.tail)
    (hrun : Run (step d) (undisturbed d ids.toList) s₁ s)
    (hidle : s.of_batch (s₀.gate.active_batch_id + 1) = []) :
    s.Completed s₀ (s₀.gate.active_batch_id + 1) ids.toList ∧ s₁.log <+: s.log ∧
      s₁.executions (s₀.gate.active_batch_id + 1) = [] := by
  have hmove := (call_moves hstart).2
  have hlog := call_log hstart hacc
  obtain ⟨first, rest, f, rem, hids, -, hactive, htrace, -⟩ :=
    h₀.tagged.start h₀.lifecycle hmove hlog
  have hkept₁ : s₁.Kept (s₀.gate.active_batch_id + 1) ids.toList :=
    hactive ▸ .start h₀.tagged h₀.lifecycle hnodup hopen rfl hmove hlog
  have hapart₁ : s₁.Apart (s₀.gate.active_batch_id + 1) :=
    hactive ▸ .start h₀.tagged h₀.lifecycle hfresh hmove hlog
  let I : Ledger → Prop := fun t => (t.Kept (s₀.gate.active_batch_id + 1) ids.toList ∧
    t.Apart (s₀.gate.active_batch_id + 1)) ∧ s₁.log <+: t.log
  have hinv : I s := by
    refine hrun.invariant ⟨⟨hkept₁, hapart₁⟩, List.prefix_refl _⟩ ?_
    intro t a t' ht hcalm hst
    exact ⟨ht.1.1.step ht.1.2 hnodup hcalm hst, ht.2.trans (log_extends hst)⟩
  have hs : Reachable d s := (h₀.step hstart).run hrun
  -- the one call of the batch that was charged
  have hmem : ⟨s₀.block_height, s₀.gate, .accepted caller deposit (.resume_batch_chained ids)⟩ ∈
      s.log := by
    refine hinv.2.subset ?_
    rw [hlog]
    exact List.mem_append_right _ (List.mem_singleton.2 rfl)
  have htier : ∃ tier, s₀.gate.fee_for ids.toList.length = .ok tier := by
    obtain ⟨-, -, -, -, act, heff⟩ := hmove.cause hlog
    generalize s₁.gate = g' at heff
    cases heff with
    | admin hc => cases hc
    | batch happr htail hids htier => exact ⟨_, htier⟩
  obtain ⟨tier, htier⟩ := htier
  have hfee : (⟨s₀.block_height, s₀.gate, .accepted caller deposit (.resume_batch_chained ids)⟩ :
      Entry).fee = tier.2 := by
    simp only [Entry.fee, Gate.fee, htier]
  refine ⟨hinv.1.1.completed hidle h₀ hs ((log_extends hstart).trans hinv.2) hopen hmem rfl htier
    hfee, hinv.2, ?_⟩
  rw [← List.map_eq_nil_iff, executions_fst, htrace]
  rfl

end Ledger

/-- **A chained batch completes**, from any reachable state, amid any traffic that
leaves it alone. The list must not repeat an intent, and when it is accepted no
receipt in flight may name one of its later members as the next to be resumed: such
a receipt is left over from a batch that was reset. -/
theorem batch_completes {d : Deployment} {s₀ s₁ s : Ledger} {caller : AccountId}
    {deposit spare : Nat} {ids : Vec Nat} (h₀ : Reachable d s₀)
    (hstart : step d s₀ (.call caller deposit spare (.resume_batch_chained ids)) = some s₁)
    (hacc : (s₀.call d caller deposit spare (.resume_batch_chained ids)).2 = true)
    (hnodup : ids.toList.Nodup) (hopen : ∀ id ∈ ids.toList, s₀.Open id)
    (hfresh : ∀ f ∈ s₀.receipts, ∀ n ∈ f.receipt.next, n ∉ ids.toList.tail)
    (hrun : Run (step d) (undisturbed d ids.toList) s₁ s)
    (hidle : s.of_batch (s₀.gate.active_batch_id + 1) = []) :
    s.Completed s₀ (s₀.gate.active_batch_id + 1) ids.toList ∧
    ∀ receiver decode value,
      (∀ id ∈ ids.toList, ∃ call ∈ s₀.gate.call_of id, call.receiver = receiver ∧
        decode call = some (.set (value id))) →
      (∀ en ∈ s.log, en.event.failed ≠ some (s₀.gate.active_batch_id + 1)) →
      s.SetsInOrder s₁ receiver decode (ids.toList.map value) := by
  obtain ⟨hdone, hlog, hnone⟩ :=
    Ledger.Completed.of_run h₀ hstart hacc hnodup hopen hfresh hrun hidle
  exact ⟨hdone, fun receiver decode value hset hok => hdone.sets_in_order hlog hnone hset hok⟩

section Demo

open SequentialNear.Demo

/-- The two values that the batch of the demo sets. -/
def Demo.value (id : Nat) : U64 := if id = 0 then 11 else 22

def decode_set (call : FunctionCall) : Option RegisterCall :=
  if call.args = "\x7b\"value\":\"11\"\x7d".toByteArray.toList then some (.set 11)
  else if call.args = "\x7b\"value\":\"22\"\x7d".toByteArray.toList then some (.set 22)
  else if call.args = "\x7b\"value\":\"33\"\x7d".toByteArray.toList then some (.set 33)
  else none

/-- The batch of two, with a third intent resumed and executed in between. -/
def amid_traffic : List Action :=
  [.call approver FEE 0 (.resume_intent 2 true), .advance 1, .run_callback 0 0, .run_callback 0 0,
    .advance 1, .execute 0 0 true, .execute 0 0 true, .finish 0 true, .finish 0 true, .advance 1,
    .run_continue 0] ++ deliver

theorem batch_completes_demo : ∃ s₀ s₁ s, Reachable deployment s₀ ∧
    Run (step deployment) (undisturbed deployment [0, 1]) s₁ s ∧ s.Completed s₀ 1 [0, 1] ∧
    s.SetsInOrder s₁ register decode_set [11, 22] := by
  have hrun : ∃ s₀ s₁ s, Run (step deployment) anyAction start s₀ ∧
      step deployment s₀ (.call approver FEE 0 (.resume_batch_chained first_two)) =
        some s₁ ∧ Run (step deployment) (undisturbed deployment [0, 1]) s₁ s ∧
      (s₀.call deployment approver FEE 0 (.resume_batch_chained first_two)).2 = true ∧
      s₀.gate.active_batch_id = 0 ∧ (∀ id ∈ [0, 1], s₀.Open id) ∧ s₀.receipts = [] ∧
      s.of_batch 1 = [] ∧
      (∀ id ∈ [0, 1], ∃ call ∈ s₀.gate.call_of id, call.receiver = register ∧
        decode_set call = some (.set (value id))) ∧
      ∀ en ∈ s.log, en.event.failed ≠ some 1 :=
    exists_runs_of_exec (submissions [set11, set22, set33])
      (.call approver FEE 0 (.resume_batch_chained first_two)) amid_traffic _
      (by decide +kernel)
  obtain ⟨s₀, s₁, s, hrun₀, hstart, hrun, hacc, hactive, hopen, hnone, hidle, hset, hok⟩ := hrun
  have h₀ : Reachable deployment s₀ := ⟨_, _, _, _, hrun₀⟩
  have hfresh : ∀ f ∈ s₀.receipts, ∀ n ∈ f.receipt.next, n ∉ [0, 1].tail := by
    rw [hnone]
    intro f hf
    cases hf
  obtain ⟨hdone, hsets⟩ := batch_completes h₀ hstart hacc (by decide) hopen hfresh hrun
    (hactive ▸ hidle)
  rw [hactive] at hdone hsets
  exact ⟨s₀, s₁, s, h₀, hrun, hdone, hsets register decode_set value hset hok⟩

/-- The first batch was reset with its callback in flight. Its `continue_chain` takes
intent `1` from the second one, whose own `continue_chain` then finds no tail. -/
def left_over : List Action :=
  [.advance 1, .run_callback 0 0, .advance 1, .execute 1 0 true, .finish 1 true, .advance 1,
    .run_continue 1, .run_callback 0 0, .advance 1, .execute 1 0 true, .finish 1 true, .advance 1,
    .run_continue 1]

theorem batch_completes_fails : ¬ ∀ (s₀ s₁ s : Ledger) (caller : AccountId) (deposit spare : Nat)
    (ids : Vec Nat), Reachable deployment s₀ → s₀.gate.batch_chain_tail = [] →
    step deployment s₀ (.call caller deposit spare (.resume_batch_chained ids)) = some s₁ →
    (s₀.call deployment caller deposit spare (.resume_batch_chained ids)).2 = true →
    ids.toList.Nodup → (∀ id ∈ ids.toList, s₀.Open id) →
    Run (step deployment) (undisturbed deployment ids.toList) s₁ s →
    s.of_batch (s₀.gate.active_batch_id + 1) = [] →
    s.Completed s₀ (s₀.gate.active_batch_id + 1) ids.toList := by
  intro h
  have hrun : ∃ s₀ s₁ s, Run (step deployment) anyAction start s₀ ∧
      step deployment s₀ second_batch = some s₁ ∧
      Run (step deployment) (undisturbed deployment [2, 1]) s₁ s ∧
      (s₀.call deployment approver FEE 0 (.resume_batch_chained ⟨[2, 1], by decide⟩)).2 = true ∧
      s₀.gate.batch_chain_tail = [] ∧ s₀.gate.active_batch_id = 1 ∧
      (∀ id ∈ [2, 1], s₀.Open id) ∧ s.of_batch 2 = [] ∧
      (s.dispatches 2).map Prod.snd = [(2, some 0)] :=
    exists_runs_of_exec (first_batch ++ [.call owner 0 0 .reset_batch_tail]) second_batch left_over _
      (by decide +kernel)
  obtain ⟨s₀, s₁, s, hrun₀, hstart, hrun, hacc, htail, hactive, hopen, hidle, hout⟩ := hrun
  have hdone := h s₀ s₁ s approver FEE 0 ⟨[2, 1], by decide⟩ ⟨_, _, _, _, hrun₀⟩ htail hstart hacc
    (by decide) hopen hrun (by rw [hactive, hidle])
  have hall := hdone.dispatched
  rw [hactive, hout] at hall
  exact absurd hall (by decide)

end Demo

end SequentialNear
