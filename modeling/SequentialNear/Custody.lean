/-
What leaves the gate's account, and on whose authority.

The gate calls other contracts under its own name, so a token contract sees the gate
as the sender whatever the intent. What protects the gate's holdings is that a call it
makes is one that a relayer submitted in a signed delegate and the approver let through,
and that it is made once. Signed means under the key that the delegate carries: whether
that is a key of its sender's account, nobody asks. On the way lies the queue: a dispatch
creates a receipt, which is executed later. `Reachable.handed` accounts for it, and
[`gate_calls_authorised`] and [`gate_transfers_authorised`] say what follows at the
contract, for any contract and for the token shim.
-/
import SequentialNear.SequenceRun
import SequentialNear.Exchange

set_option autoImplicit false

namespace SequentialNear

open Borsh Nep366 Runs Attempts Handover Transfers

/-! ## What stands behind a call -/

/-- The call of intent `id` is the only action of a delegate that a relayer submitted and
that is signed under the key it carries, and the approver approved the intent. -/
structure Ledger.Authorised (d : Deployment) (s : Ledger) (id : Nat) (call : FunctionCall) :
    Prop where
  signed : ∃ sub ∈ s.log, ∃ delegate fc, Submission d sub delegate fc ∧ sub.mints = some id ∧
    call = ⟨delegate.receiver_id, fc.method_name, fc.args, fc.deposit, fc.gas⟩
  approved : ∃ ap ∈ s.log, ap.approves id

theorem Ledger.Authorised.backed {d : Deployment} {s : Ledger} {id : Nat} {call : FunctionCall}
    (h : s.Authorised d id call) : s.Signed d id call := by
  obtain ⟨sub, hsub, delegate, fc, hs, hmints, rfl⟩ := h.signed
  have hid : sub.before.next_intent_id = id := Option.some.inj (hs.mints.symm.trans hmints)
  exact ⟨Gate.callback_args id delegate fc, rfl, rfl, sub, hsub, delegate, fc, hs, by rw [hid]⟩

theorem Reachable.issued_authorised {d : Deployment} {s : Ledger} (h : Reachable d s) {id : Nat}
    {call : FunctionCall} (hcall : (id, call) ∈ s.calls_issued) : s.Authorised d id call := by
  obtain ⟨pre, en, post, seq, batch, hlog, hen, -⟩ := h.issued_dispatched hcall
  obtain ⟨⟨args, rfl, rfl, sub, hsub, delegate, fc, hs, rfl⟩, ⟨ap, hap, happ⟩, -⟩ :=
    h.traced pre en post hlog _ _ _ _ hen
  have hpre : ∀ e ∈ pre, e ∈ s.log := fun e he => hlog ▸ List.mem_append_left _ he
  exact ⟨⟨sub, hpre sub hsub, delegate, fc, hs, hs.mints, rfl⟩, ap, hpre ap hap, happ⟩

theorem Reachable.authorised {d : Deployment} {s : Ledger} (h : Reachable d s) {id : Nat}
    {call : FunctionCall} (hcall : (id, call) ∈ s.calls_made) : s.Authorised d id call :=
  h.issued_authorised (List.mem_append_left _ hcall)

/-! ## At a contract -/

namespace World.Reachable

variable {d : Deployment} {σ : Type} {r : Receiver d σ} {t₀ : σ} {w : World σ}

/-- The gate's calls at a contract are the executed ones that are addressed to it. -/
theorem calls_of_gate (h : World.Reachable d r t₀ w) :
    (w.visits.filter (·.caller = d.gate_id)).map (·.call) =
      (w.ledger.calls_made.filter (·.2.receiver = r.account_id)).map Prod.snd := by
  have hlog := congrArg (List.map Prod.fst) h.outcomes_eq
  have hmade : (w.ledger.outcomes r.account_id).map Prod.fst =
      (w.ledger.calls_made.filter (·.2.receiver = r.account_id)).map Prod.snd := by
    rw [Ledger.outcomes, Ledger.calls_made, List.filter_filterMap, List.map_filterMap,
      List.map_filterMap]
    refine List.filterMap_congr fun en _ => ?_
    obtain ⟨block, before, event⟩ := en
    cases event with
    | executed id call ok batch =>
      by_cases hrecv : call.receiver = r.account_id <;> simp [Entry.outcome, Event.execution, hrecv]
    | _ => rfl
  rw [← hmade, hlog, List.map_map]
  have hvisits : (outcomes r.run t₀ w.visits).map Prod.fst = w.visits := outcomes_fst t₀ w.visits
  conv_lhs => rw [← hvisits]
  rw [List.filter_map, List.map_map]
  rfl

end World.Reachable

/-- **The gate calls a contract only as it was authorised to.** The calls that a contract
gets from the gate are, in the order in which it gets them, calls of intents that were
submitted, signed under the key they carry, and approved, no intent twice. Together with
those that are still on their way they are all that the gate ever dispatched to it. -/
theorem gate_calls_authorised {d : Deployment} {σ : Type} {r : Receiver d σ} {t₀ : σ} {w : World σ}
    (h : World.Reachable d r t₀ w) :
    ∃ intents : List (Nat × FunctionCall),
      (w.visits.filter (·.caller = d.gate_id)).map (·.call) = intents.map Prod.snd ∧
      (intents.map Prod.fst).Nodup ∧
      (∀ p ∈ intents, w.ledger.Authorised d p.1 p.2) ∧
      (intents ++ w.ledger.calls_owed.filter (·.2.receiver = r.account_id)).Perm
        (w.ledger.calls_dispatched.filter (·.2.receiver = r.account_id)) := by
  refine ⟨_, h.calls_of_gate, ?_, ?_, ?_⟩
  · have hnodup := h.ledger.made_nodup
    rw [List.map_append] at hnodup
    exact hnodup.of_append_left.sublist ((List.filter_sublist).map Prod.fst)
  · exact fun p hp => h.ledger.authorised (List.mem_filter.1 hp).1
  · have hperm := h.ledger.handed.filter (·.2.receiver = r.account_id)
    rwa [List.filter_append] at hperm

section Demo

open SequentialNear.Demo

/-- An intent sets the register, and alice sets it by herself, once with a deposit. -/
def set_by_two : List WorldAction :=
  (submissions [set11] ++ [Action.call approver FEE 0 (.resume_intent 0 true)] ++
      deliver).map .gate ++
    [.visit ⟨alice, ⟨register, "set", "\x7b\"value\":\"33\"\x7d".toByteArray.toList, 1, 0⟩⟩,
     .visit ⟨alice, ⟨register, "set", "\x7b\"value\":\"33\"\x7d".toByteArray.toList, 0, 0⟩⟩]

/-- Alice's own calls of the register are none of the gate's. -/
theorem gate_calls_authorised_demo : ∃ (w : World Register) (intents : List (Nat × FunctionCall)),
    w.visits.length = 3 ∧ intents.length = 1 ∧
    ∀ p ∈ intents, w.ledger.Authorised deployment p.1 p.2 := by
  obtain ⟨w, hrun, hvisits, hone⟩ : ∃ w,
      Run (World.step deployment register_demo) anyAction ⟨start, Register.default, []⟩ w ∧
        w.visits.length = 3 ∧ (w.visits.filter (·.caller = gate_id)).length = 1 :=
    exists_run_of_exec set_by_two _ (by decide +kernel)
  have hw : World.Reachable deployment register_demo Register.default w := ⟨_, _, _, _, hrun⟩
  obtain ⟨intents, hcalls, -, hauth, -⟩ := gate_calls_authorised hw
  refine ⟨w, intents, hvisits, ?_, hauth⟩
  have hlength := congrArg List.length hcalls
  rw [List.length_map, List.length_map] at hlength
  exact hlength.symm.trans hone

end Demo

/-! ## At the token shim -/

/-- The transfer that a call of the shim asks for. -/
def FtShim.transfer_of (decode_call : String → Bytes → Option FtShimMethod) (v : Visit) :
    Option (Transfer AccountId) :=
  match decode_call v.call.method v.call.args with
  | some (.transfer receiver_id amount) => some ⟨v.caller, receiver_id, amount.val⟩
  | _ => none

section FtShim

variable {d : Deployment} {account_id : AccountId} {apart : account_id ≠ d.gate_id}
  {decode_call : String → Bytes → Option FtShimMethod}

/-- A call that the shim does not refuse makes the transfer it asks for, if it does. -/
theorem FtShim.run_logs (v : Visit) (s t : FtShim)
    (h : (FtShim.receiver d account_id apart decode_call).run v s = some t) :
    t.transfer_log = s.transfer_log ++ (FtShim.transfer_of decode_call v).toList := by
  simp only [Receiver.run, FtShim.receiver] at h
  unfold FtShim.transfer_of
  cases hcall : decode_call v.call.method v.call.args with
  | none =>
    rw [hcall] at h
    cases h
  | some m =>
    rw [hcall] at h
    cases m with
    | view =>
      cases h
      exact (List.append_nil _).symm
    | transfer receiver_id amount =>
      cases hrun : s.run ⟨v.caller, v.call.deposit.val, receiver_id, amount⟩ with
      | error msg =>
        simp only [hrun] at h
        cases h
      | ok u =>
        simp only [hrun] at h
        cases h
        obtain ⟨_, -, hok⟩ := bind_eq_ok.1 hrun
        obtain ⟨-, -, -, -, rfl⟩ := FtShim.transfer_eq_ok.1 hok
        rfl

/-- The transfers from an account are those that its calls asked for and got. -/
theorem FtShim.transfers_from (sender : AccountId) (s : FtShim) (visits : List Visit)
    (hs : s.transfer_log = []) :
    (Attempts.replay (FtShim.receiver d account_id apart decode_call).run s
          visits).transfer_log.filter
        (·.sender = sender) =
      (((outcomes (FtShim.receiver d account_id apart decode_call).run s visits).filter fun o =>
        o.1.caller = sender).map fun o => (o.1.call, o.2)).filterMap fun o =>
          if o.2 then FtShim.transfer_of decode_call ⟨sender, o.1⟩ else none := by
  rw [replay_emits FtShim.run_logs, hs, List.nil_append, returned, List.filterMap_map,
    List.filterMap_map, List.filterMap_filter, List.filterMap_filter, List.filter_filterMap]
  refine List.filterMap_congr ?_
  rintro ⟨⟨caller, call⟩, ok⟩ -
  have hsender : ∀ t ∈ FtShim.transfer_of decode_call ⟨caller, call⟩, t.sender = caller := by
    intro t ht
    unfold FtShim.transfer_of at ht
    split at ht
    · cases ht
      rfl
    · cases ht
  by_cases hcaller : caller = sender
  · subst hcaller
    cases ok with
    | false => simp
    | true =>
      cases ht : FtShim.transfer_of decode_call ⟨caller, call⟩ with
      | none => simp [ht]
      | some t => simp [ht, hsender t ht]
  · cases ok with
    | false => simp
    | true =>
      cases ht : FtShim.transfer_of decode_call ⟨caller, call⟩ with
      | none => simp [ht, hcaller]
      | some t => simp [ht, hsender t ht, hcaller]

end FtShim

/-- The call an event executed at an account, with its intent and its outcome. -/
def Event.outcome (account_id : AccountId) : Event → Option (Nat × FunctionCall × Bool)
  | .executed id call ok _ => if call.receiver = account_id then some (id, call, ok) else none
  | _ => none

theorem Event.execution_of_outcome {account_id : AccountId} {e : Event} {id : Nat}
    {call : FunctionCall} {ok : Bool} (h : e.outcome account_id = some (id, call, ok)) :
    call.receiver = account_id ∧ e.execution = some (id, call) := by
  cases e with
  | executed =>
    simp only [outcome] at h
    split at h
    · rename_i hrecv
      cases h
      exact ⟨hrecv, rfl⟩
    · cases h
  | _ => cases h

/-- **The gate's tokens move only as it was authorised to move them.** What has left the
gate's account at the shim are, in order, the transfers of intents that were submitted,
signed under the key they carry, and approved, no intent twice; and what it holds is what
it was given less those. -/
theorem gate_transfers_authorised {d : Deployment} {account_id owner_id : AccountId}
    {apart : account_id ≠ d.gate_id} {decode_call : String → Bytes → Option FtShimMethod}
    {total_supply : U128} {w : World FtShim}
    (h : World.Reachable d (FtShim.receiver d account_id apart decode_call)
      (FtShim.new owner_id total_supply) w) :
    ∃ paid : List (Nat × FunctionCall × Transfer AccountId),
      paid.map (·.2.2) = w.target.get_transfer_log.filter (·.sender = d.gate_id) ∧
      (paid.map (·.1)).Nodup ∧
      (∀ p ∈ paid, w.ledger.Authorised d p.1 p.2.1 ∧ p.2.1.receiver = account_id ∧
        FtShim.transfer_of decode_call ⟨d.gate_id, p.2.1⟩ = some p.2.2) ∧
      w.target.balance_of d.gate_id + (paid.map (·.2.2.amount)).sum =
        (if d.gate_id = owner_id then total_supply.val else 0) +
          received w.target.get_transfer_log d.gate_id := by
  have htarget := h.target_eq
  have hlog : w.ledger.outcomes account_id = _ := h.outcomes_eq
  let sent_to : List (Nat × FunctionCall × Bool) :=
    w.ledger.log.filterMap (·.event.outcome account_id)
  let pay : Nat × FunctionCall × Bool → Option (Nat × FunctionCall × Transfer AccountId) :=
    fun o => (if o.2.2 then FtShim.transfer_of decode_call ⟨d.gate_id, o.2.1⟩ else none).map
      fun t => (o.1, o.2.1, t)
  have hsent : sent_to.map Prod.snd = w.ledger.outcomes account_id := by
    rw [Ledger.outcomes, List.map_filterMap]
    refine List.filterMap_congr fun en _ => ?_
    obtain ⟨block, before, event⟩ := en
    cases event with
    | executed id call ok batch =>
      by_cases hrecv : call.receiver = account_id <;> simp [Entry.outcome, Event.outcome, hrecv]
    | _ => rfl
  have hpaid : (sent_to.filterMap pay).map (·.2.2) =
      w.target.get_transfer_log.filter (·.sender = d.gate_id) := by
    rw [FtShim.get_transfer_log, htarget, FtShim.transfers_from d.gate_id _ _ rfl]
    have hlog' : sent_to.map Prod.snd = _ := hsent.trans hlog
    rw [← hlog', List.filterMap_map, List.map_filterMap]
    refine List.filterMap_congr fun o _ => ?_
    simp only [pay, Option.map_map, Function.comp_def, Option.map_id']
  have hmade : ∀ p ∈ sent_to.filterMap pay, (p.1, p.2.1) ∈ w.ledger.calls_made ∧
      p.2.1.receiver = account_id ∧
      FtShim.transfer_of decode_call ⟨d.gate_id, p.2.1⟩ = some p.2.2 := by
    intro p hp
    obtain ⟨⟨id, call, ok⟩, ho, hpay⟩ := List.mem_filterMap.1 hp
    obtain ⟨t, ht, rfl⟩ := Option.map_eq_some_iff.1 hpay
    obtain ⟨en, hen, hout⟩ := List.mem_filterMap.1 ho
    obtain ⟨hrecv, hexec⟩ := Event.execution_of_outcome hout
    refine ⟨List.mem_filterMap.2 ⟨en, hen, hexec⟩, hrecv, ?_⟩
    split at ht
    · exact ht
    · cases ht
  refine ⟨sent_to.filterMap pay, hpaid, ?_, ?_, ?_⟩
  · have hnodup := h.ledger.made_nodup
    rw [List.map_append] at hnodup
    refine hnodup.of_append_left.sublist ?_
    rw [List.filterMap_filterMap, List.map_filterMap, Ledger.calls_made, List.map_filterMap]
    refine filterMap_sublist fun en _ id hid => ?_
    obtain ⟨p, hp, rfl⟩ := Option.map_eq_some_iff.1 hid
    obtain ⟨⟨id, call, ok⟩, hout, hpay⟩ := Option.bind_eq_some_iff.1 hp
    obtain ⟨t, -, rfl⟩ := Option.map_eq_some_iff.1 hpay
    rw [(Event.execution_of_outcome hout).2]
    rfl
  · exact fun p hp => ⟨h.ledger.authorised (hmade p hp).1, (hmade p hp).2⟩
  · have hexact : w.target.Exact owner_id total_supply.val := by
      rw [htarget]
      exact (FtShim.exact_new owner_id total_supply).visits _
    have hsum : ((sent_to.filterMap pay).map (·.2.2.amount)).sum =
        sent w.target.transfer_log d.gate_id := by
      rw [← sum_from, ← FtShim.get_transfer_log, ← hpaid, List.map_map]
      rfl
    rw [hsum, hexact.balances d.gate_id, hexact.covered.balance_add_sent]
    rfl

section Demo

open SequentialNear.Demo

theorem gate_transfers_authorised_demo : ∃ (w : World FtShim)
    (paid : List (Nat × FunctionCall × Transfer AccountId)),
    paid.map (·.2.2) = [⟨gate_id, alice, 117⟩, ⟨gate_id, alice, 100⟩] ∧
    ∀ p ∈ paid, w.ledger.Authorised ft_deployment p.1 p.2.1 := by
  obtain ⟨w, hrun, hlog⟩ : ∃ w,
      Run (World.step ft_deployment ft_demo) anyAction ⟨start, FtShim.new gate_id 1000, []⟩ w ∧
        w.target.get_transfer_log.filter (·.sender = gate_id) =
          [⟨gate_id, alice, 117⟩, ⟨gate_id, alice, 100⟩] :=
    exists_run_of_exec (both_sent ++ [resume_both] ++ both_delivered) _ (by decide +kernel)
  have hw : World.Reachable ft_deployment ft_demo (FtShim.new gate_id 1000) w := ⟨_, _, _, _, hrun⟩
  obtain ⟨paid, hpaid, -, hauth, -⟩ := gate_transfers_authorised hw
  exact ⟨w, paid, hpaid.trans hlog, fun p hp => (hauth p hp).1⟩

end Demo

end SequentialNear
