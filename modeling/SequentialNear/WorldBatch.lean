/-
A chained batch is a sequential program.

Between the acceptance of a list and its last receipt lie many blocks and any
traffic. The contract that the members call does not see that: what it is sent for
the batch are the members' calls, each once, in the order of the list
([`batch_runs_in_order`]). If it is sent nothing else meanwhile, it ends up where
those calls lead when they are made one after the other.
-/
import SequentialNear.World

set_option autoImplicit false

namespace SequentialNear

open Nep366 Runs Attempts

/-! ## From a run of the world to a run of its ledger -/

/-- Nothing of what the gate does disturbs the batch; third parties may call the
contract. -/
def World.undisturbed {σ : Type} (d : Deployment) (ids : List Nat) (w : World σ) :
    WorldAction → Prop
  | .gate a => SequentialNear.undisturbed d ids w.ledger a
  | .visit _ => True

instance {σ : Type} (d : Deployment) (ids : List Nat) (w : World σ) :
    (a : WorldAction) → Decidable (w.undisturbed d ids a)
  | .gate a => inferInstanceAs (Decidable (SequentialNear.undisturbed d ids w.ledger a))
  | .visit _ => isTrue trivial

/-- Whether an action leaves a batch alone does not depend on a receiver's verdict. -/
theorem undisturbed_decided {d : Deployment} {ids : List Nat} {s : Ledger} {a : Action}
    (success : Bool) (h : undisturbed d ids s a) : undisturbed d ids s (a.decided success) := by
  cases a with
  | execute i spare _ => exact h
  | _ => exact h

namespace World

variable {d : Deployment} {σ : Type} {r : Receiver d σ} {w w' : World σ} {ids : List Nat}

theorem run_ledger (h : Run (step d r) (World.undisturbed d ids) w w') :
    Run (SequentialNear.step d) (SequentialNear.undisturbed d ids) w.ledger w'.ledger := by
  refine h.invariant
    (I := fun u => Run (SequentialNear.step d) (SequentialNear.undisturbed d ids) w.ledger u.ledger)
    (Run.refl _) ?_
  intro u a u' hu hcalm hst
  rcases step_cases hst with ⟨b, rfl, -, hs, -⟩ | ⟨b, call, rfl, -, hs, -⟩ | ⟨v, -, -, rfl⟩
  · exact hu.tail hcalm hs
  · exact hu.tail (undisturbed_decided _ hcalm) hs
  · exact hu

end World

/-! ## What the contract is sent for a batch -/

/-- The calls on record for these intents that go to `account_id`. -/
def Gate.calls_at (g : Gate) (account_id : AccountId) (ids : List Nat) : List FunctionCall :=
  (ids.filterMap g.call_of).filter (·.receiver = account_id)

/-- What was executed for a batch at an account is among what was executed there. -/
theorem executions_sublist (b : Nat) (account_id : AccountId) (l : List Entry) :
    (((l.filterMap (Entry.execution b)).map Prod.snd).filter (·.receiver = account_id)).Sublist
      ((l.filterMap (Entry.outcome account_id)).map Prod.fst) := by
  rw [List.map_filterMap, List.filter_filterMap, List.map_filterMap]
  refine filterMap_sublist fun en _ call hcall => ?_
  obtain ⟨hcall, hrecv⟩ := Option.filter_eq_some_iff.1 hcall
  obtain ⟨⟨id, call'⟩, hex, rfl⟩ := Option.map_eq_some_iff.1 hcall
  obtain ⟨ok, hev⟩ := Entry.event_of_execution hex
  simp only [Entry.outcome, hev]
  rw [if_pos (of_decide_eq_true hrecv)]
  rfl

/-- The calls of the gate are among all calls. -/
theorem from_gate_sublist {d : Deployment} {σ : Type} {run : Visit → σ → Option σ} {t : σ}
    (new : List Visit) :
    (((World.from_gate d (outcomes run t new)).map Prod.fst).map
      (Visit.by_gate d)).Sublist new := by
  have hmap : ((World.from_gate d (outcomes run t new)).map Prod.fst).map (Visit.by_gate d) =
      ((outcomes run t new).filter fun o => o.1.caller = d.gate_id).map Prod.fst := by
    rw [World.from_gate, List.map_map, List.map_map]
    refine List.map_congr_left ?_
    rintro ⟨⟨caller, call⟩, ok⟩ ho
    have hcaller : caller = d.gate_id := of_decide_eq_true (List.mem_filter.1 ho).2
    rw [hcaller]
    rfl
  rw [hmap]
  have hsub := (List.filter_sublist (p := fun o : Visit × Bool => o.1.caller = d.gate_id)
    (l := outcomes run t new)).map Prod.fst
  rwa [outcomes_fst] at hsub

/-- What the contract is sent until the batch is done contains the calls of the members,
each once and in the order of the list. -/
theorem World.batch_sent {d : Deployment} {σ : Type} {r : Receiver d σ} {t₀ : σ}
    {w₀ w₁ w : World σ} {caller : AccountId} {deposit spare : Nat} {ids : Vec Nat}
    (h₀ : World.Reachable d r t₀ w₀)
    (hstart : World.step d r w₀ (.gate (.call caller deposit spare (.resume_batch_chained ids))) =
      some w₁)
    (hacc : (w₀.ledger.call d caller deposit spare (.resume_batch_chained ids)).2 = true)
    (hnodup : ids.toList.Nodup) (hopen : ∀ id ∈ ids.toList, w₀.ledger.Open id)
    (hfresh : ∀ f ∈ w₀.ledger.receipts, ∀ n ∈ f.receipt.next, n ∉ ids.toList.tail)
    (hrun : Run (World.step d r) (World.undisturbed d ids.toList) w₁ w)
    (hidle : w.ledger.of_batch (w₀.ledger.gate.active_batch_id + 1) = []) :
    ∃ new, w.visits = w₀.visits ++ new ∧ w.target = replay r.run w₀.target new ∧
      ((w₀.ledger.gate.calls_at r.account_id ids.toList).map (Visit.by_gate d)).Sublist new := by
  -- a call of the gate from outside is not for the contract
  obtain ⟨s₁, hs₁, rfl⟩ := Option.map_eq_some_iff.1 hstart
  obtain ⟨hdone, ⟨l, hl⟩, hnone⟩ := Ledger.Completed.of_run h₀.ledger hs₁ hacc hnodup hopen hfresh
    (World.run_ledger hrun) hidle
  obtain ⟨new, hsent⟩ := World.run_sent hrun
  have hexec : ((l.filterMap (Entry.execution (w₀.ledger.gate.active_batch_id + 1))).map
      fun e => some e.2) = ids.toList.map w₀.ledger.gate.call_of := by
    rw [← hdone.executed, Ledger.executions, ← hl, List.filterMap_append]
    show _ = (s₁.executions _ ++ _).map _
    rw [hnone, List.nil_append]
  have hcalls : (l.filterMap (Entry.execution (w₀.ledger.gate.active_batch_id + 1))).map Prod.snd =
      ids.toList.filterMap w₀.ledger.gate.call_of := by
    have h := congrArg (List.filterMap id) hexec
    rwa [List.filterMap_map, List.filterMap_map, ← List.filterMap_eq_map] at *
  have hout : l.filterMap (Entry.outcome r.account_id) =
      World.from_gate d (outcomes r.run w₀.target new) := by
    have h := hsent.log
    rw [Ledger.outcomes, ← hl, List.filterMap_append] at h
    exact List.append_cancel_left h
  refine ⟨new, hsent.visits, hsent.target, ?_⟩
  have hsub := executions_sublist (w₀.ledger.gate.active_batch_id + 1) r.account_id l
  rw [hcalls, hout] at hsub
  exact (hsub.map (Visit.by_gate d)).trans (from_gate_sublist new)

/-- **A batch runs in order at its contract.** Amid any traffic that leaves it alone, the
calls that the contract is sent until the batch is done contain those of the members,
each once and in the order of the list, and lead the contract to where it is then. If it
is sent nothing else, that is where the members' calls lead it when they are made one
after the other; those of them that it refuses do not stop the others. -/
theorem batch_runs_in_order {d : Deployment} {σ : Type} {r : Receiver d σ} {t₀ : σ}
    {w₀ w₁ w : World σ} {caller : AccountId} {deposit spare : Nat} {ids : Vec Nat}
    (h₀ : World.Reachable d r t₀ w₀)
    (hstart : World.step d r w₀ (.gate (.call caller deposit spare (.resume_batch_chained ids))) =
      some w₁)
    (hacc : (w₀.ledger.call d caller deposit spare (.resume_batch_chained ids)).2 = true)
    (hnodup : ids.toList.Nodup) (hopen : ∀ id ∈ ids.toList, w₀.ledger.Open id)
    (hfresh : ∀ f ∈ w₀.ledger.receipts, ∀ n ∈ f.receipt.next, n ∉ ids.toList.tail)
    (hrun : Run (World.step d r) (World.undisturbed d ids.toList) w₁ w)
    (hidle : w.ledger.of_batch (w₀.ledger.gate.active_batch_id + 1) = []) :
    let members := (w₀.ledger.gate.calls_at r.account_id ids.toList).map (Visit.by_gate d)
    ∃ new, w.visits = w₀.visits ++ new ∧ w.target = replay r.run w₀.target new ∧
      members.Sublist new ∧
      (new.length = members.length → w.target = replay r.run w₀.target members) := by
  intro members
  obtain ⟨new, hvisits, htarget, hmembers⟩ : ∃ new, _ ∧ _ ∧ members.Sublist new :=
    World.batch_sent h₀ hstart hacc hnodup hopen hfresh hrun hidle
  refine ⟨new, hvisits, htarget, hmembers, fun hlen => ?_⟩
  rw [hmembers.eq_of_length hlen.symm]
  exact htarget

section Demo

open SequentialNear.Demo

/-- Both intents, the second of them first. -/
def turned_round : Vec Nat := ⟨[1, 0], by decide⟩

def two_submitted : List WorldAction := (submissions [set11, set22]).map .gate

/-- The approver resumes both. -/
def resume_both : WorldAction := .gate (.call approver FEE 0 (.resume_batch_chained turned_round))

/-- The batch of two, to its end. -/
def both_delivered : List WorldAction :=
  (deliver ++ [Action.advance 1, .run_continue 0] ++ deliver).map .gate

/-- Alice sets the register to 33 before the batch gets to it. -/
theorem batch_runs_in_order_demo : ∃ (w₀ w : World Register) (new : List Visit),
    w.visits = w₀.visits ++ new ∧ w.target = replay register_demo.run w₀.target new ∧
    ((w₀.ledger.gate.calls_at register [1, 0]).map (Visit.by_gate deployment)).Sublist new ∧
    w.target.log = [33, 22, 11] := by
  have hrun : ∃ w₀ w₁ w, Run (World.step deployment register_demo) anyAction
        ⟨start, Register.default, []⟩ w₀ ∧
      World.step deployment register_demo w₀ resume_both = some w₁ ∧
      Run (World.step deployment register_demo) (World.undisturbed deployment [1, 0]) w₁ w ∧
      (w₀.ledger.call deployment approver FEE 0 (.resume_batch_chained turned_round)).2 = true ∧
        (∀ id ∈ [1, 0], w₀.ledger.Open id) ∧ w₀.ledger.receipts = [] ∧
        w.ledger.of_batch (w₀.ledger.gate.active_batch_id + 1) = [] ∧ w.target.log = [33, 22, 11] :=
    exists_runs_of_exec two_submitted resume_both
      (.visit ⟨alice, ⟨register, "set", "\x7b\"value\":\"33\"\x7d".toByteArray.toList, 0, 0⟩⟩ ::
        both_delivered) _ (by decide +kernel)
  obtain ⟨w₀, w₁, w, hrun₀, hstart, hrun, hacc, hopen, hnone, hidle, hlog⟩ := hrun
  have hfresh : ∀ f ∈ w₀.ledger.receipts, ∀ n ∈ f.receipt.next, n ∉ turned_round.toList.tail := by
    rw [hnone]
    intro f hf
    cases hf
  obtain ⟨new, hvisits, htarget, hmembers, -⟩ :=
    batch_runs_in_order ⟨_, _, _, _, hrun₀⟩ hstart hacc (by decide) hopen hfresh hrun hidle
  exact ⟨w₀, w, new, hvisits, htarget, hmembers, hlog⟩

end Demo

end SequentialNear
