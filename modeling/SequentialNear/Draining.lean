/-
Left to itself, the gate comes to rest, and then no intent is waiting any more.

No transaction arrives, and what is in flight takes its course: yields time out or were
resumed, callbacks dispatch, calls are executed and finish, chains go on. Each such
step leaves less to do ([`Ledger.work`]): a yield costs at most its timeout, a callback
and the call that it makes. The one way round is an intent whose call is a submission
to the gate itself, which a gate that is no relayer of its own refuses.

So the runs of these steps are bounded, each state leads to one where none is left, and
there the books are closed ([`comes_to_rest`]): nobody has to act for an intent to be
dispatched or rejected, or lost to a callback that was reverted. The gate's own counters
know nothing of the lost ones.
-/
import SequentialNear.Authority
import SequentialNear.Custody
import SequentialNear.Validation

set_option autoImplicit false

namespace SequentialNear

open Nep366 Runs

/-! ## What is left to do -/

/-- The step is taken by what is in flight: no time passes, and nobody calls. -/
def Action.inner : Action → Bool
  | .advance _ | .call .. => false
  | _ => true

/-- Only steps of what is in flight. -/
def inner_steps : Ledger → Action → Prop := fun _ a => a.inner = true

instance (s : Ledger) (a : Action) : Decidable (inner_steps s a) :=
  inferInstanceAs (Decidable (a.inner = true))

/-- More than what the receipts cost that can follow from one. A call has to pay for a
transfer too: it may withdraw fees from the gate. -/
def Receipt.work : Receipt → Nat
  | .callback _ _ _ _ => 5
  | .target_call _ _ _ false => 4
  | .target_call _ _ _ true => 2
  | .continue_chain _ _ => 1
  | .transfer _ _ => 1

namespace Ledger

variable {d : Deployment} {s s' s₀ : Ledger} {a : Action}

/-- What is left to do, an open yield counted with its timeout. -/
def work (s : Ledger) : Nat :=
  6 * s.yields.keys.length + (s.receipts.map (·.receipt.work)).sum

theorem work_without {pre post : List InFlight} {f : InFlight}
    (hrecs : s.receipts = pre ++ f :: post) :
    s.work = (s.without pre post).work + f.receipt.work := by
  simp only [work, without, hrecs, List.map_append, List.map_cons, List.sum_append, List.sum_cons]
  omega

/-- What an action adds to the work: resuming a yield that is open takes its timeout off. -/
theorem work_apply (e : Event) (out : Outcome) (deposit : Nat) (batch : Option Nat) (spare : Nat) :
    match out.action with
    | .none => (s.apply e out deposit batch spare).work = s.work
    | .new_yield _ => (s.apply e out deposit batch spare).work ≤ s.work + 6
    | .resume y _ => (∃ w, s.yields.lookup y = some w) →
        (s.apply e out deposit batch spare).work < s.work
    | .function_call _ _ _ => (s.apply e out deposit batch spare).work = s.work + 4
    | .transfer _ _ => (s.apply e out deposit batch spare).work = s.work + 1 := by
  cases hact : out.action with
  | none => simp [work, hact, yields_after, created]
  | new_yield args =>
    simp only [work, apply_yields, apply_receipts, hact, yields_after, created, List.append_nil,
      AList.keys_insert, List.length_cons]
    have hle := (List.erase_sublist (a := s.next_yield) (l := s.yields.keys)).length_le
    omega
  | resume y signal =>
    rintro ⟨w, hw⟩
    have hmem : y ∈ s.yields.keys := AList.mem_keys.2 (AList.lookup_isSome.1 (by rw [hw]; rfl))
    have hlength := List.length_erase_of_mem hmem
    have hpos := List.length_pos_of_mem hmem
    simp only [work, apply_yields, apply_receipts, hact, yields_after, created, hw,
      AList.keys_erase, List.map_append, List.sum_append, List.map_singleton, List.sum_singleton,
      Receipt.work]
    omega
  | function_call id call and_then =>
    simp [work, hact, yields_after, created, Receipt.work, Nat.add_assoc]
  | transfer to_id amount =>
    simp [work, hact, yields_after, created, Receipt.work, Nat.add_assoc]

/-- **A call of the gate by itself** may cost a transfer, if it is no submission. -/
theorem work_call {deposit spare : Nat} {c : GateCall} (hself : d.gate_id ∉ s.gate.relayers) :
    (s.call d d.gate_id deposit spare c).1.work ≤ s.work + 1 := by
  rcases s.call_cases (d := d) d.gate_id deposit spare c with ⟨msg, hcall⟩ | ⟨out, hok, hcall⟩
  · rw [hcall]
    exact Nat.le_succ _
  · rw [hcall]
    have heff := GateCall.run_effect hok
    have hwork := s.work_apply (.accepted d.gate_id deposit c) out deposit
      (batch_of c out.gate) spare
    generalize hg : out.gate = g' at heff
    generalize hact : out.action = act at heff
    rw [hact, hg] at hwork
    cases heff with
    | admin hc frame ha =>
      rcases ha with rfl | ⟨to_id, amount, rfl⟩
      · exact hwork.le.trans (Nat.le_succ _)
      · exact hwork.le
    | reset howner => exact hwork.le.trans (Nat.le_succ _)
    | submit hrel => exact absurd hrel hself
    | resume happr htier hdep hfee hp hopen =>
      exact (hwork (yield_is_open_iff.1 hopen)).le.trans (Nat.le_succ _)
    | batch happr htail hids htier hdep hfee hknown hid hp hopen =>
      exact (hwork (yield_is_open_iff.1 hopen)).le.trans (Nat.le_succ _)
    | chain hpriv hfree htail hp hopen =>
      exact (hwork (yield_is_open_iff.1 hopen)).le.trans (Nat.le_succ _)

/-- **A callback** costs at most the call that it makes. -/
theorem work_run_callback {batch : Option Nat} {args : CallbackArgs} {gas burnt : Nat}
    {signal : Except PromiseError ResumeSignal} :
    (s.run_callback d batch args gas burnt signal).work < s.work + 5 := by
  unfold Ledger.run_callback
  split
  · exact Nat.lt_add_of_pos_right (by decide)
  · rename_i out hout
    split
    · generalize callback_event args batch signal out.action = e
      have hwork := s.work_apply e out 0 batch 0
      rcases resumed_action (returns_of_eq_ok hout) with hact | ⟨and_then, hact⟩
      · rw [hact] at hwork
        omega
      · rw [hact] at hwork
        omega
    · exact Nat.lt_add_of_pos_right (by decide)

/-- **A dispatched call** leaves its own end, and what it does is at most one more
transfer. -/
theorem work_execute {f : InFlight} {id : Nat} {call : FunctionCall}
    {and_then : Option (Nat × Nat)} {spare : Nat} {success : Bool}
    (hself : d.gate_id ∉ s.gate.relayers) :
    (s.execute d f id call and_then spare success).work < s.work + 4 := by
  have hrun : (s.run_target d call spare success).1.work ≤ s.work + 1 := by
    unfold run_target
    split
    · split
      · exact work_call hself
      · exact Nat.le_succ _
    · exact Nat.le_succ _
  have hran : (s.execute d f id call and_then spare success).work =
      (s.run_target d call spare success).1.work + 2 := by
    simp [work, execute, Receipt.work, Nat.add_assoc]
  omega

/-- **The end of a call** costs at most the continuation. -/
theorem work_finish {batch : Option Nat} {id : Nat} {and_then : Option (Nat × Nat)}
    {success : Bool} : (s.finish batch id and_then success).work < s.work + 2 := by
  cases and_then with
  | none =>
    have hfinish : (s.finish batch id none success).work = s.work := rfl
    omega
  | some next =>
    have hfinish : (s.finish batch id (some next) success).work = s.work + 1 := by
      simp [work, Ledger.finish, Receipt.work, Nat.add_assoc]
    omega

/-- **A continuation** costs nothing: what it resumes was waiting. -/
theorem work_run_continue {batch : Option Nat} {next_id next_seq : Nat} :
    (s.run_continue d batch next_id next_seq).work ≤ s.work := by
  unfold Ledger.run_continue
  split
  · exact le_rfl
  · rename_i out hok
    have heff := GateCall.run_effect hok
    have hwork := s.work_apply (.continued next_id next_seq batch) out 0 batch 0
    generalize hg : out.gate = g' at heff
    generalize hact : out.action = act at heff
    rw [hact] at hwork
    cases heff with
    | admin hc => cases hc
    | chain hpriv hfree htail hp hopen => exact (hwork (yield_is_open_iff.1 hopen)).le

theorem work_settle {to_id : AccountId} {amount : Nat} {success : Bool} :
    (s.settle d to_id amount success).work = s.work := by
  unfold Ledger.settle
  split <;> rfl

/-- **A yield that times out** leaves only its callback. -/
theorem work_time_out {y : YieldId} {w : OpenYield} (hw : s.yields.lookup y = some w) :
    (s.time_out y w).work < s.work := by
  have hmem : y ∈ s.yields.keys := AList.mem_keys.2 (AList.lookup_isSome.1 (by rw [hw]; rfl))
  have hlength := List.length_erase_of_mem hmem
  have hpos := List.length_pos_of_mem hmem
  simp only [work, time_out, push_yields, push_receipts, record_receipts, AList.keys_erase,
    List.map_append, List.sum_append, List.map_singleton, List.sum_singleton, Receipt.work]
  omega

/-- **Every step of what is in flight leaves less to do**: each receipt is worth more
than what follows from it. -/
theorem work_step (hself : d.gate_id ∉ s.gate.relayers) (hinner : a.inner = true)
    (h : step d s a = some s') : s'.work < s.work := by
  cases a with
  | advance blocks => cases hinner
  | call caller deposit spare c => cases hinner
  | timeout y =>
    simp only [step] at h
    split at h
    · rename_i w hw
      cases h
      exact work_time_out hw
    · cases h
  | run_callback i burnt =>
    simp only [step] at h
    split at h
    · rename_i y args gas signal batch created hget
      obtain ⟨pre, post, htake⟩ := takes_of_get hget
      split at h
      · cases h
        rw [htake.rest, work_without htake.split]
        exact work_run_callback
      · cases h
    · cases h
  | execute i spare success =>
    simp only [step] at h
    split at h
    · rename_i id call and_then batch created hget
      obtain ⟨pre, post, htake⟩ := takes_of_get hget
      split at h
      · cases h
        rw [htake.rest, work_without htake.split]
        exact work_execute hself
      · cases h
    · cases h
  | finish i success =>
    simp only [step] at h
    split at h
    · rename_i id call and_then batch created hget
      obtain ⟨pre, post, htake⟩ := takes_of_get hget
      cases h
      rw [htake.rest, work_without htake.split]
      exact work_finish
    · cases h
  | run_continue i =>
    simp only [step] at h
    split at h
    · rename_i next_id next_seq batch created hget
      obtain ⟨pre, post, htake⟩ := takes_of_get hget
      cases h
      rw [htake.rest, work_without htake.split]
      exact Nat.lt_succ_of_le work_run_continue
    · cases h
  | settle i success =>
    simp only [step] at h
    split at h
    · rename_i to_id amount batch created hget
      obtain ⟨pre, post, htake⟩ := takes_of_get hget
      cases h
      rw [htake.rest, work_without htake.split, work_settle]
      exact Nat.lt_succ_self _
    · cases h

/-! ## A gate that cannot submit to itself -/

/-- The gate holds neither of the roles that would let it become its own relayer. -/
structure Detached (d : Deployment) (s : Ledger) : Prop where
  owner : s.gate.owner_id ≠ d.gate_id
  relayer : d.gate_id ∉ s.gate.relayers

/-- Nobody else calls, so nobody else gives it one. -/
theorem Detached.move (h : s.Detached d) (hinner : a.inner = true) (hmove : Move d s₀ a s s') :
    s'.Detached d := by
  rcases hmove.call_or_frame with ⟨caller, deposit, c, out, hrun, hgate, hlog⟩ | ⟨hframe, -⟩
  · obtain ⟨-, -, -, hcaller, -⟩ := hmove.cause hlog
    have hself : caller = d.gate_id := by
      rcases hcaller with ⟨⟨spare, rfl⟩, -⟩ | ⟨-, heq⟩
      · cases hinner
      · exact heq
    subst hself
    have heff := GateCall.run_roles hrun
    refine ⟨?_, ?_⟩
    · rw [hgate, heff.owner_id]
      exact h.owner
    · have hrel := heff.relayers d.gate_id
      rw [hgate, ← decide_eq_false_iff_not, hrel, decide_eq_false h.relayer]
      cases c with
      | add_relayer account_id => exact absurd heff.permitted.symm h.owner
      | remove_relayer account_id => exact absurd heff.permitted.symm h.owner
      | _ => rfl
  · exact ⟨hframe.owner_id ▸ h.owner, hframe.relayers ▸ h.relayer⟩

theorem Detached.step (h : s.Detached d) (hinner : a.inner = true)
    (hst : SequentialNear.step d s a = some s') : s'.Detached d ∧ s'.work < s.work :=
  ⟨step_preserves _ hst h fun _ _ ht hmove => ht.move hinner hmove, work_step h.relayer hinner hst⟩

/-! ## At rest -/

/-- Nothing is in flight that could take a step. -/
def AtRest (d : Deployment) (s : Ledger) : Prop :=
  ∀ a : Action, a.inner = true → SequentialNear.step d s a = none

/-- The books are closed: nothing is open or in flight; each intent has been dispatched,
rejected or lost to a reverted callback, one of the three and once; the gate's counters
add up but for those that were lost; and what was dispatched has been executed. -/
structure Closed (s : Ledger) : Prop where
  receipts : s.receipts = []
  yields : s.yields = ∅
  pending : s.gate.pending = ∅
  settled : (s.fates.map Prod.fst).Perm (List.range s.gate.next_intent_id)
  counted : s.gate.intents_submitted =
    s.gate.intents_dispatched + s.gate.intents_rejected + (s.met .aborted).length
  made : s.calls_made.Perm s.calls_dispatched

theorem empty_of_lookup {κ ν : Type} [DecidableEq κ] {m : Map κ ν} (h : ∀ k, m.lookup k = none) :
    m = ∅ := by
  have hkeys : m.keys = [] := by
    refine List.eq_nil_iff_forall_not_mem.2 fun k hk => ?_
    exact AList.lookup_eq_none.1 (h k) hk
  exact AList.ext (List.map_eq_nil_iff.1 hkeys)

theorem AtRest.receipts (h : s.AtRest d) (hgas : GAS_YIELD_CALLBACK ≤ d.max_prepaid_gas) :
    s.receipts = [] := by
  refine List.eq_nil_iff_forall_not_mem.2 fun f hf => ?_
  obtain ⟨a, hreceipt, henabled⟩ := receipt_enabled d hf hgas
  have hinner : a.inner = true := by
    cases a with
    | advance blocks => cases hreceipt
    | call caller deposit spare c => cases hreceipt
    | _ => rfl
  rw [h a hinner] at henabled
  cases henabled

theorem AtRest.yields (h : s.AtRest d) : s.yields = ∅ := by
  refine empty_of_lookup fun y => ?_
  have hnone := h (.timeout y) rfl
  cases hw : s.yields.lookup y with
  | none => rfl
  | some w =>
    simp only [SequentialNear.step, hw] at hnone
    cases hnone

/-- **At rest the books are closed.** -/
theorem AtRest.closed (h : s.AtRest d) (hs : Reachable d s)
    (hgas : GAS_YIELD_CALLBACK ≤ d.max_prepaid_gas) : s.Closed := by
  have hreceipts := h.receipts hgas
  have hyields := h.yields
  have hbooks := hs.lifecycle.books
  have hlapsed : s.books.lapsed = [] := by rw [books, lapsed, hreceipts, List.filterMap_nil]
  have hpending : s.gate.pending = ∅ := by
    refine empty_of_lookup fun id => ?_
    cases hp : s.gate.pending.lookup id with
    | none => rfl
    | some p =>
      have hhold : s.books.hold id = some p.yield_id := by simp only [books, hp, Option.map_some]
      -- its yield is open or timed out, and neither is left
      rcases hbooks.held_under id p.yield_id hhold with hopen | hlap
      · simp only [books, hyields, AList.lookup_empty, Option.map_none] at hopen
        cases hopen
      · rw [hlapsed] at hlap
        cases hlap
  have hcount : ∀ id, (s.fates.map Prod.fst).count id = s.books.minted id := by
    intro id
    have honce := hbooks.once id
    have hheld : s.books.held id = 0 := by
      simp [Tickets.Books.held, books, hpending]
    have hreleased : s.books.released.count id = 0 := by
      rw [show s.books.released = s.resumed from rfl, resumed, hreceipts]
      rfl
    rw [hheld, hreleased, Nat.zero_add] at honce
    exact honce
  have hsettled : (s.fates.map Prod.fst).Perm (List.range s.gate.next_intent_id) := by
    refine List.perm_iff_count.2 fun id => ?_
    rw [hcount id, Tickets.Books.minted, List.nodup_range.count]
    simp only [List.mem_range]
    rfl
  refine ⟨hreceipts, hyields, hpending, hsettled, ?_, ?_⟩
  · have hlength := hsettled.length_eq
    rw [List.length_map, List.length_range, fates_length] at hlength
    have hcounters := hs.lifecycle.counters
    rw [hcounters.submitted, hcounters.dispatched, hcounters.rejected]
    exact hlength.symm
  · have hhanded := hs.handed
    have howed : s.calls_owed = [] := by rw [calls_owed, hreceipts, List.filterMap_nil]
    rwa [howed, List.append_nil] at hhanded

end Ledger

/-- **The gate comes to rest.** From a reachable state in which the gate is neither its own
owner nor one of its relayers, what is in flight takes a bounded number of steps, whatever
their order and their outcomes; a state is reached where none is left; and in every such
state no intent is pending, each has been dispatched, rejected or lost to a reverted
callback, exactly one of them and once, and every dispatched call has been executed. -/
theorem comes_to_rest {d : Deployment} {s : Ledger} (h : Reachable d s)
    (hgas : GAS_YIELD_CALLBACK ≤ d.max_prepaid_gas) (howner : s.gate.owner_id ≠ d.gate_id)
    (hrelayer : d.gate_id ∉ s.gate.relayers) :
    (∀ as t, exec (step d) inner_steps s as = some t → as.length + t.work ≤ s.work) ∧
    (∃ t, Run (step d) inner_steps s t ∧ t.AtRest d) ∧
    ∀ t, Run (step d) inner_steps s t → t.AtRest d → t.Closed := by
  have hstep : ∀ u a v, Ledger.Detached d u → inner_steps u a → step d u a = some v →
      Ledger.Detached d v ∧ v.work < u.work := fun u a v hu hinner hst => hu.step hinner hst
  have h0 : s.Detached d := ⟨howner, hrelayer⟩
  refine ⟨fun as t hexec => exec_length_le hstep h0 hexec, ?_, fun t hrun hrest => ?_⟩
  · obtain ⟨t, hrun, hrest⟩ := exists_rest hstep h0
    exact ⟨t, hrun, hrest⟩
  · exact hrest.closed (h.run hrun) hgas

section Demo

open SequentialNear.Demo

/-- Two intents in a batch and one that nobody resumes. -/
theorem comes_to_rest_demo : ∃ s t, Reachable deployment s ∧ s.work = 17 ∧
    Run (step deployment) inner_steps s t ∧ t.Closed := by
  obtain ⟨s, hrun, hwork, howner, hrelayer⟩ : ∃ s, Run (step deployment) anyAction start s ∧
      s.work = 17 ∧ s.gate.owner_id ≠ gate_id ∧ gate_id ∉ s.gate.relayers :=
    exists_run_of_exec (submissions [set11, set22, set33] ++
      [.call approver FEE 0 (.resume_batch_chained first_two)]) _ (by decide +kernel)
  have hs : Reachable deployment s := ⟨_, _, _, _, hrun⟩
  obtain ⟨-, ⟨t, hrest, hat⟩, hclosed⟩ := comes_to_rest hs (by decide) howner hrelayer
  exact ⟨s, t, hs, hwork, hrest, hclosed t hrest hat⟩

end Demo

end SequentialNear
