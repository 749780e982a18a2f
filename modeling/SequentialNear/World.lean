/-
The gate and a contract that its intents call, as one transition system.

`Ledger.lean` leaves it to the environment whether a dispatched call succeeds at its
receiver. Here one receiver is a contract with a state of its own ([`Receiver`]),
which has the say: a world ([`World`]) is a ledger, that state, and every call the
contract was ever sent, by the gate or by anybody else. A step of the world is a step
of the ledger, in which the outcome of a call at the contract is the contract's own,
or a call by a third party, of which the gate knows nothing.

What holds of the ledger holds in a world, since a world's ledger is reachable; and a
run of the world sends the contract the calls that its log says ([`World.run_sent`]).
-/
import SequentialNear.Attempts
import SequentialNear.Delivery
import SequentialNear.FtShim

set_option autoImplicit false

namespace SequentialNear

open Borsh Nep366 Runs Attempts

/-! ## The contract beside the gate -/

/-- A call of a contract and who makes it. -/
structure Visit where
  caller : AccountId
  call : FunctionCall
deriving DecidableEq

/-- The gate makes the call. -/
def Visit.by_gate (d : Deployment) (call : FunctionCall) : Visit := ⟨d.gate_id, call⟩

/-- A contract on an account other than the gate's. A call that panics leaves no
state. -/
structure Receiver (d : Deployment) (σ : Type) where
  account_id : AccountId
  apart : account_id ≠ d.gate_id
  receive : Visit → σ → Except String σ

/-- A call that panics is reverted. -/
def Receiver.run {d : Deployment} {σ : Type} (r : Receiver d σ) (v : Visit) (t : σ) : Option σ :=
  (r.receive v t).toOption

/-! ## The two demo contracts -/

/-- A method of the register, with its decoded arguments. -/
inductive RegisterMethod
  | write (c : RegisterCall)
  | get
deriving DecidableEq

/-- The register on `account_id`; `decode_call` is near-sdk's dispatch. -/
def Register.receiver (d : Deployment) (account_id : AccountId) (apart : account_id ≠ d.gate_id)
    (decode_call : String → Bytes → Option RegisterMethod) : Receiver d Register where
  account_id := account_id
  apart := apart
  receive v r :=
    match decode_call v.call.method v.call.args with
    | none => .error "MethodNotFound" -- or arguments that do not parse
    | some .get => .ok r
    | some (.write c) => do
      require (v.call.deposit.val = 0) ("Method " ++ v.call.method ++ " doesn't accept deposit")
      r.run c

/-- A method of the shim, with its decoded arguments. -/
inductive FtShimMethod
  | transfer (receiver_id : AccountId) (amount : U128)
  | view
deriving DecidableEq

/-- The shim on `account_id`. -/
def FtShim.receiver (d : Deployment) (account_id : AccountId) (apart : account_id ≠ d.gate_id)
    (decode_call : String → Bytes → Option FtShimMethod) : Receiver d FtShim where
  account_id := account_id
  apart := apart
  receive v s :=
    match decode_call v.call.method v.call.args with
    | none => .error "MethodNotFound"
    | some .view => .ok s
    | some (.transfer receiver_id amount) =>
      s.run ⟨v.caller, v.call.deposit.val, receiver_id, amount⟩

/-- The shim stays exact, whoever calls it with whatever. -/
theorem FtShim.Exact.visits {d : Deployment} {account_id : AccountId}
    {apart : account_id ≠ d.gate_id}
    {decode_call : String → Bytes → Option FtShimMethod} {owner_id : AccountId} {total : Nat}
    {s : FtShim}
    (h : s.Exact owner_id total) (visits : List Visit) :
    (Attempts.replay (FtShim.receiver d account_id apart decode_call).run s visits).Exact
      owner_id total := by
  induction visits generalizing s with
  | nil => exact h
  | cons v visits ih =>
    rw [Attempts.replay_cons]
    refine ih ?_
    cases hrun : (FtShim.receiver d account_id apart decode_call).run v s with
    | none =>
      rw [Attempts.attempt_none hrun]
      exact h
    | some s' =>
      rw [Attempts.attempt_some hrun]
      simp only [Receiver.run, FtShim.receiver] at hrun
      split at hrun
      · cases hrun
      · cases hrun
        exact h
      · rename_i receiver_id amount _
        have hcall := h.call ⟨v.caller, v.call.deposit.val, receiver_id, amount⟩
        unfold FtShim.call at hcall
        split at hcall
        · rename_i s'' hok
          rw [hok] at hrun
          cases hrun
          exact hcall
        · rename_i hok
          rw [hok] at hrun
          cases hrun

/-! ## The world -/

structure World (σ : Type) where
  ledger : Ledger
  target : σ
  /-- The calls sent to the contract, oldest first. -/
  visits : List Visit

inductive WorldAction
  | gate (a : Action)
  | visit (v : Visit)

/-- The call that an action executes at `account_id`. -/
def Action.visits (account_id : AccountId) (s : Ledger) : Action → Option FunctionCall
  | .execute i _ _ =>
    match s.receipts[i]? with
    | some ⟨.target_call _ target _ false, _, _⟩ =>
      if target.receiver = account_id then some target else none
    | _ => none
  | _ => none

/-- The action, with the receiver's verdict on the call it executes. -/
def Action.decided (success : Bool) : Action → Action
  | .execute i spare _ => .execute i spare success
  | a => a

namespace World

variable {σ : Type}

/-- The contract's part of a call of it. -/
def meet {d : Deployment} (r : Receiver d σ) (w : World σ) (v : Visit) : World σ :=
  { w with target := attempt r.run w.target v, visits := w.visits ++ [v] }

def step (d : Deployment) (r : Receiver d σ) (w : World σ) : WorldAction → Option (World σ)
  | .gate a =>
    match a.visits r.account_id w.ledger with
    | none => (SequentialNear.step d w.ledger a).map fun s => { w with ledger := s }
    | some call =>
      -- the contract decides what comes of it
      let success := (r.run (.by_gate d call) w.target).isSome
      (SequentialNear.step d w.ledger (a.decided success)).map fun s =>
        { w.meet r (.by_gate d call) with ledger := s }
  | .visit v => if v.caller = d.gate_id then none else some (w.meet r v)

/-- A world that some run from a new gate and the state `t₀` of the contract reaches. -/
def Reachable (d : Deployment) (r : Receiver d σ) (t₀ : σ) (w : World σ) : Prop :=
  ∃ owner_id approver_id balance block_height,
    Run (step d r) anyAction
      ⟨Ledger.init owner_id approver_id balance block_height, t₀, []⟩ w

end World

/-! ## What a ledger says about a receiver -/

/-- The call that an entry executed at `account_id`, and whether it succeeded there. -/
def Entry.outcome (account_id : AccountId) (en : Entry) : Option (FunctionCall × Bool) :=
  match en.event with
  | .executed _ call success _ => if call.receiver = account_id then some (call, success) else none
  | _ => none

/-- The calls executed at `account_id`, in order. -/
def Ledger.outcomes (s : Ledger) (account_id : AccountId) : List (FunctionCall × Bool) :=
  s.log.filterMap (Entry.outcome account_id)

namespace Ledger

variable {d : Deployment} {s s' s₀ : Ledger} {a : Action} {account_id : AccountId}

theorem outcomes_of_log {e : Event} (hlog : s'.log = s.log ++ [⟨s.block_height, s.gate, e⟩]) :
    s'.outcomes account_id = s.outcomes account_id ++
      ((⟨s.block_height, s.gate, e⟩ : Entry).outcome account_id).toList := by
  rw [outcomes, hlog, List.filterMap_append, outcomes]
  cases h : (⟨s.block_height, s.gate, e⟩ : Entry).outcome account_id <;> simp [h]

/-- A call of the gate executes nothing anywhere else. -/
theorem outcomes_call (caller : AccountId) (deposit spare : Nat) (c : GateCall) :
    (s.call d caller deposit spare c).1.outcomes account_id = s.outcomes account_id := by
  rcases s.call_cases (d := d) caller deposit spare c with ⟨msg, hcall⟩ | ⟨out, -, hcall⟩
  · rw [hcall, outcomes_of_log rfl]
    exact List.append_nil _
  · rw [hcall, outcomes_of_log (apply_log _ _ _ _ _)]
    exact List.append_nil _

/-- A dispatched call to another account leaves nothing in the log about this one. -/
theorem outcomes_execute_ne {f : InFlight} {id : Nat} {call : FunctionCall}
    {and_then : Option (Nat × Nat)} {spare : Nat} {success : Bool}
    (hne : call.receiver ≠ account_id) :
    (s.execute d f id call and_then spare success).outcomes account_id =
      s.outcomes account_id := by
  have hrun : (s.run_target d call spare success).1.outcomes account_id =
      s.outcomes account_id := by
    unfold run_target
    split
    · split
      · exact outcomes_call _ _ _ _
      · rfl
    · rfl
  have hlog : (s.execute d f id call and_then spare success).log =
      (s.run_target d call spare success).1.log ++
        [⟨(s.run_target d call spare success).1.block_height,
          (s.run_target d call spare success).1.gate,
          .executed id call (s.run_target d call spare success).2 f.batch⟩] := rfl
  rw [outcomes_of_log hlog, hrun]
  simp only [Entry.outcome, if_neg hne, Option.toList_none, List.append_nil]

/-- What a dispatched call to another account leaves in the log. -/
theorem outcomes_execute {f : InFlight} {id : Nat} {call : FunctionCall}
    {and_then : Option (Nat × Nat)} {spare : Nat} {success : Bool}
    (hother : call.receiver ≠ d.gate_id) :
    (s.execute d f id call and_then spare success).outcomes account_id =
      s.outcomes account_id ++ if call.receiver = account_id then [(call, success)] else [] := by
  have hlog : (s.execute d f id call and_then spare success).log =
      s.log ++ [⟨s.block_height, s.gate, .executed id call success f.batch⟩] := by
    simp only [execute, run_target, if_neg hother, record_log]
  rw [outcomes_of_log hlog]
  simp only [Entry.outcome]
  split <;> rfl

/-- A step that executes no call at an account leaves no word about it. -/
theorem outcomes_quiet (h : SequentialNear.step d s a = some s')
    (hquiet : a.visits account_id s = none) : s'.outcomes account_id = s.outcomes account_id := by
  have htake : ∀ i, (s.take i).outcomes account_id = s.outcomes account_id := fun _ => rfl
  cases a with
  | advance blocks =>
    cases h
    rfl
  | call caller deposit spare c =>
    simp only [SequentialNear.step] at h
    split at h
    · cases h
      exact outcomes_call _ _ _ _
    · cases h
  | timeout y =>
    simp only [SequentialNear.step] at h
    split at h
    · rename_i w _
      cases h
      have hlog : (s.time_out y w).log =
          s.log ++ [⟨s.block_height, s.gate, .timed_out w.args.intent_id⟩] := rfl
      exact (outcomes_of_log hlog).trans (List.append_nil _)
    · cases h
  | run_callback i burnt =>
    simp only [SequentialNear.step] at h
    split at h
    · rename_i y args gas signal batch created _
      split at h
      · cases h
        rw [← htake i]
        unfold Ledger.run_callback
        split
        · exact (outcomes_of_log rfl).trans (List.append_nil _)
        · rename_i out hout
          split
          · rw [outcomes_of_log (apply_log _ _ _ _ _)]
            rcases callback_event_cases batch (returns_of_eq_ok hout) with ⟨_, he⟩ | ⟨_, he⟩ <;>
              rw [he] <;> exact List.append_nil _
          · exact (outcomes_of_log rfl).trans (List.append_nil _)
      · cases h
    · cases h
  | execute i spare success =>
    simp only [SequentialNear.step] at h
    split at h
    · rename_i id call and_then batch created hget
      have hne : call.receiver ≠ account_id := by
        intro heq
        simp only [Action.visits, hget, if_pos heq] at hquiet
        cases hquiet
      split at h
      · cases h
        rw [← htake i]
        exact outcomes_execute_ne hne
      · cases h
    · cases h
  | finish i success =>
    simp only [SequentialNear.step] at h
    split at h
    · cases h
      rw [← htake i, outcomes_of_log (finish_log _ _ _ _)]
      exact List.append_nil _
    · cases h
  | run_continue i =>
    simp only [SequentialNear.step] at h
    split at h
    · cases h
      rw [← htake i]
      unfold Ledger.run_continue
      split
      · exact (outcomes_of_log rfl).trans (List.append_nil _)
      · exact (outcomes_of_log (apply_log _ _ _ _ _)).trans (List.append_nil _)
    · cases h
  | settle i success =>
    simp only [SequentialNear.step] at h
    split at h
    · cases h
      rw [← htake i, outcomes_of_log (settle_log _ _ _ _)]
      exact List.append_nil _
    · cases h

/-- A step that does execute one logs it, with the verdict it was given. -/
theorem outcomes_visit (hother : account_id ≠ d.gate_id) {call : FunctionCall} {success : Bool}
    (hvisit : a.visits account_id s = some call)
    (h : SequentialNear.step d s (a.decided success) = some s') :
    s'.outcomes account_id = s.outcomes account_id ++ [(call, success)] := by
  cases a with
  | execute i spare _ =>
    simp only [Action.visits] at hvisit
    split at hvisit
    · rename_i id target and_then batch created hget
      split at hvisit
      · rename_i hrecv
        cases hvisit
        simp only [Action.decided, SequentialNear.step, hget] at h
        split at h
        · cases h
          rw [outcomes_execute (hrecv ▸ hother), if_pos hrecv]
          rfl
        · cases h
      · cases hvisit
    · cases hvisit
  | _ => cases hvisit

end Ledger

/-! ## What holds of every reachable world -/

namespace World

variable {d : Deployment} {σ : Type} {r : Receiver d σ} {t₀ : σ} {w w' : World σ}

/-- The calls of the gate among these, with their outcomes. -/
def from_gate (d : Deployment) (outcomes : List (Visit × Bool)) : List (FunctionCall × Bool) :=
  (outcomes.filter fun o => o.1.caller = d.gate_id).map fun o => (o.1.call, o.2)

/-- **What a step of a world is**: a step of the ledger that does not concern the
contract, one that calls it, or a call by a third party. -/
theorem step_cases {a : WorldAction} (h : step d r w a = some w') :
    (∃ b, a = .gate b ∧ b.visits r.account_id w.ledger = none ∧
      SequentialNear.step d w.ledger b = some w'.ledger ∧ w'.target = w.target ∧
      w'.visits = w.visits) ∨
    (∃ b call, a = .gate b ∧ b.visits r.account_id w.ledger = some call ∧
      SequentialNear.step d w.ledger (b.decided (r.run (.by_gate d call) w.target).isSome) =
        some w'.ledger ∧
      w'.target = attempt r.run w.target (.by_gate d call) ∧
      w'.visits = w.visits ++ [.by_gate d call]) ∨
    ∃ v, a = .visit v ∧ v.caller ≠ d.gate_id ∧ w' = w.meet r v := by
  cases a with
  | gate b =>
    simp only [step] at h
    split at h
    · rename_i hvisit
      obtain ⟨s, hs, rfl⟩ := Option.map_eq_some_iff.1 h
      exact .inl ⟨b, rfl, hvisit, hs, rfl, rfl⟩
    · rename_i call hvisit
      obtain ⟨s, hs, rfl⟩ := Option.map_eq_some_iff.1 h
      exact .inr (.inl ⟨b, call, rfl, hvisit, hs, rfl, rfl⟩)
  | visit v =>
    simp only [step] at h
    split at h
    · cases h
    · rename_i hcaller
      cases h
      exact .inr (.inr ⟨v, rfl, hcaller, rfl⟩)

/-- A step of a world is a step of its ledger, or none. -/
theorem step_ledger {a : WorldAction} (h : step d r w a = some w') :
    w'.ledger = w.ledger ∨ ∃ b, SequentialNear.step d w.ledger b = some w'.ledger := by
  rcases step_cases h with ⟨b, -, -, hs, -⟩ | ⟨b, call, -, -, hs, -⟩ | ⟨v, -, -, rfl⟩
  · exact .inr ⟨b, hs⟩
  · exact .inr ⟨_, hs⟩
  · exact .inl rfl

/-- From `w₀` to `w` the contract was sent the calls `new`: it is where they have led
it, and the log has those of the gate, in order, and what came of each. -/
structure Sent (d : Deployment) (r : Receiver d σ) (w₀ w : World σ) (new : List Visit) : Prop where
  visits : w.visits = w₀.visits ++ new
  target : w.target = replay r.run w₀.target new
  log : w.ledger.outcomes r.account_id = w₀.ledger.outcomes r.account_id ++
    from_gate d (outcomes r.run w₀.target new)

variable {w₀ : World σ} {new : List Visit}

/-- One more call. -/
theorem Sent.meet (h : Sent d r w₀ w new) (v : Visit)
    (htarget : w'.target = attempt r.run w.target v) (hvisits : w'.visits = w.visits ++ [v])
    (hlog : w'.ledger.outcomes r.account_id = w.ledger.outcomes r.account_id ++
      from_gate d [(v, (r.run v w.target).isSome)]) : Sent d r w₀ w' (new ++ [v]) where
  visits := by rw [hvisits, h.visits, List.append_assoc]
  target := by
    rw [htarget, replay_append, h.target]
    rfl
  log := by
    rw [hlog, outcomes_append, ← h.target, h.log, from_gate, from_gate, from_gate,
      List.filter_append, List.map_append, List.append_assoc]
    rfl

/-- **What a step sends**: nothing, or one call. -/
theorem Sent.step {a : WorldAction} (h : Sent d r w₀ w new) (hst : step d r w a = some w') :
    ∃ new, Sent d r w₀ w' new := by
  rcases step_cases hst with ⟨b, -, hquiet, hs, htarget, hvisits⟩ |
    ⟨b, call, -, hvisit, hs, htarget, hvisits⟩ | ⟨v, -, hcaller, rfl⟩
  · refine ⟨new, by rw [hvisits, h.visits], by rw [htarget, h.target], ?_⟩
    rw [Ledger.outcomes_quiet hs hquiet, h.log]
  · refine ⟨_, h.meet (.by_gate d call) htarget hvisits ?_⟩
    rw [Ledger.outcomes_visit r.apart hvisit hs]
    simp [from_gate, Visit.by_gate]
  · refine ⟨_, h.meet v rfl rfl ?_⟩
    simp [from_gate, World.meet, hcaller]

/-- **What a run sends.** -/
theorem run_sent {G : World σ → WorldAction → Prop} (h : Run (step d r) G w₀ w) :
    ∃ new, Sent d r w₀ w new := by
  refine h.invariant (I := fun u => ∃ new, Sent d r w₀ u new) ⟨[], ?_, rfl, ?_⟩ ?_
  · rw [List.append_nil]
  · exact (List.append_nil _).symm
  · rintro u a u' ⟨new, hu⟩ - hst
    exact hu.step hst

end World

namespace World.Reachable

variable {d : Deployment} {σ : Type} {r : Receiver d σ} {t₀ : σ} {w w' : World σ}

theorem step {a : WorldAction} (h : World.Reachable d r t₀ w) (hst : World.step d r w a = some w') :
    World.Reachable d r t₀ w' := by
  obtain ⟨owner_id, approver_id, balance, block_height, hrun⟩ := h
  exact ⟨owner_id, approver_id, balance, block_height, hrun.tail trivial hst⟩

theorem run {G : World σ → WorldAction → Prop} (h : World.Reachable d r t₀ w)
    (hrun : Run (World.step d r) G w w') : World.Reachable d r t₀ w' := by
  obtain ⟨owner_id, approver_id, balance, block_height, hrun₀⟩ := h
  exact ⟨owner_id, approver_id, balance, block_height,
    hrun₀.trans (hrun.mono fun _ _ _ => trivial)⟩

/-- **A world's ledger is a ledger.** -/
theorem ledger (h : World.Reachable d r t₀ w) : SequentialNear.Reachable d w.ledger := by
  obtain ⟨owner_id, approver_id, balance, block_height, hrun⟩ := h
  refine hrun.invariant (I := fun w => SequentialNear.Reachable d w.ledger)
    ⟨owner_id, approver_id, balance, block_height, Run.refl _⟩ ?_
  intro w a w' hw _ hst
  rcases step_ledger hst with heq | ⟨b, hs⟩
  · exact heq ▸ hw
  · exact hw.step hs

/-- The contract is where the calls it was sent have led it. -/
theorem target_eq (h : World.Reachable d r t₀ w) : w.target = replay r.run t₀ w.visits := by
  obtain ⟨owner_id, approver_id, balance, block_height, hrun⟩ := h
  obtain ⟨new, hvisits, htarget, -⟩ := run_sent hrun
  rw [List.nil_append] at hvisits
  rw [hvisits, htarget]

/-- The gate knows what came of its calls there. -/
theorem outcomes_eq (h : World.Reachable d r t₀ w) : w.ledger.outcomes r.account_id =
    ((outcomes r.run t₀ w.visits).filter fun o => o.1.caller = d.gate_id).map
      fun o => (o.1.call, o.2) := by
  obtain ⟨owner_id, approver_id, balance, block_height, hrun⟩ := h
  obtain ⟨new, hvisits, -, hlog⟩ := run_sent hrun
  rw [List.nil_append] at hvisits
  rw [hvisits]
  exact hlog

end World.Reachable

section Demo

open SequentialNear.Demo

/-- The methods of the register, at the arguments that occur. -/
def decode_register (method : String) (args : Bytes) : Option RegisterMethod :=
  if method = "set" then (decode_set ⟨register, method, args, 0, 0⟩).map .write
  else if method = "get" then some .get
  else none

def register_demo : Receiver deployment Register :=
  Register.receiver deployment register (by decide) decode_register

instance {σ : Type} (w : World σ) (a : WorldAction) : Decidable (anyAction w a) := isTrue trivial

end Demo

end SequentialNear
