/-
What one step of the ledger can do.

[`Move`] lists the writes a step is made of, with everything the transition
function checked on the way; [`step_moves`] is the inversion of a step, proved
once by walking through `step`. A step is one move, except that a dispatched
call addressed to the gate is two: the method it names, then the end of its
receipt. A receipt that is executed is exhibited by splitting the queue around
it, because the invariants filter the queue and a filter distributes over `++`.
The lemmas above say which fields each building block writes.

What every move keeps holds in every reachable state: [`Reachable.invariant`].
-/
import SequentialNear.Ledger
import SequentialNear.GateSpec

set_option autoImplicit false

namespace SequentialNear

open Borsh Nep366

namespace Ledger

variable {d : Deployment} {s : Ledger}

/-! ## The building blocks, field by field -/

section Fields

variable (s : Ledger) (e : Event) (r : Receipt) (batch : Option Nat)

@[simp] theorem record_gate : (s.record e).gate = s.gate := rfl
@[simp] theorem record_block_height : (s.record e).block_height = s.block_height := rfl
@[simp] theorem record_next_yield : (s.record e).next_yield = s.next_yield := rfl
@[simp] theorem record_yields : (s.record e).yields = s.yields := rfl
@[simp] theorem record_receipts : (s.record e).receipts = s.receipts := rfl
@[simp] theorem record_balance : (s.record e).balance = s.balance := rfl
@[simp] theorem record_log : (s.record e).log = s.log ++ [⟨s.block_height, s.gate, e⟩] := rfl

@[simp] theorem push_gate : (s.push r batch).gate = s.gate := rfl
@[simp] theorem push_block_height : (s.push r batch).block_height = s.block_height := rfl
@[simp] theorem push_next_yield : (s.push r batch).next_yield = s.next_yield := rfl
@[simp] theorem push_yields : (s.push r batch).yields = s.yields := rfl
@[simp] theorem push_balance : (s.push r batch).balance = s.balance := rfl
@[simp] theorem push_log : (s.push r batch).log = s.log := rfl
@[simp] theorem push_receipts :
    (s.push r batch).receipts = s.receipts ++ [⟨r, batch, s.block_height⟩] := rfl

end Fields

/-- The receipts an action creates in state `s`. -/
def created (s : Ledger) (batch : Option Nat) : HostAction → List InFlight
  | .resume y signal =>
    match s.yields.lookup y with
    | some w => [⟨.callback y w.args w.gas (.ok signal), batch, s.block_height⟩]
    | none => []
  | .function_call id call and_then =>
    [⟨.target_call id call and_then false, batch, s.block_height⟩]
  | .transfer to_id amount => [⟨.transfer to_id amount, batch, s.block_height⟩]
  | _ => []

/-- The open yields after an action. -/
def yields_after (s : Ledger) (spare : Nat) : HostAction → Map YieldId OpenYield
  | .new_yield args => s.yields.insert s.next_yield ⟨args, GAS_YIELD_CALLBACK + spare⟩
  | .resume y _ => s.yields.erase y
  | _ => s.yields

section Commit

variable (e : Event) (out : Outcome) (deposit : Nat) (batch : Option Nat) (spare : Nat)
  (a : HostAction)

theorem commit_gate : (s.commit batch spare a).gate = s.gate := by
  cases a with
  | resume y signal => simp only [commit]; split <;> rfl
  | _ => rfl

theorem commit_block_height : (s.commit batch spare a).block_height = s.block_height := by
  cases a with
  | resume y signal => simp only [commit]; split <;> rfl
  | _ => rfl

theorem commit_balance : (s.commit batch spare a).balance = s.balance - a.cost := by
  cases a with
  | resume y signal => simp only [commit]; split <;> rfl
  | _ => rfl

theorem commit_log : (s.commit batch spare a).log = s.log := by
  cases a with
  | resume y signal => simp only [commit]; split <;> rfl
  | _ => rfl

theorem commit_receipts :
    (s.commit batch spare a).receipts = s.receipts ++ s.created batch a := by
  cases a with
  | none => simp [commit, created]
  | new_yield args => simp [commit, created]
  | resume y signal => cases hw : s.yields.lookup y <;> simp [commit, created, hw]
  | function_call id call and_then => rfl
  | transfer to_id amount => rfl

/-- Resuming a yield that is not open changes nothing, and neither does erasing it. -/
theorem commit_yields : (s.commit batch spare a).yields = s.yields_after spare a := by
  cases a with
  | resume y signal =>
    simp only [commit, yields_after]
    split
    · rfl
    · rename_i h
      -- the host drops the resume, and erasing a key that is absent leaves the map as it is
      have hy : y ∉ s.yields := AList.lookup_eq_none.1 h
      refine AList.ext ?_
      exact (List.kerase_of_notMem_keys hy).symm
  | _ => rfl

theorem commit_next_yield : (s.commit batch spare a).next_yield =
    s.next_yield + (match a with | .new_yield _ => 1 | _ => 0) := by
  cases a with
  | resume y signal => simp only [commit]; split <;> rfl
  | _ => rfl

@[simp] theorem apply_gate : (s.apply e out deposit batch spare).gate = out.gate := commit_gate _ _ _

@[simp] theorem apply_block_height :
    (s.apply e out deposit batch spare).block_height = s.block_height := commit_block_height _ _ _

@[simp] theorem apply_balance : (s.apply e out deposit batch spare).balance =
    s.balance + deposit - out.action.cost := commit_balance _ _ _

@[simp] theorem apply_log :
    (s.apply e out deposit batch spare).log = s.log ++ [⟨s.block_height, s.gate, e⟩] :=
  commit_log _ _ _

@[simp] theorem apply_receipts : (s.apply e out deposit batch spare).receipts =
    s.receipts ++ s.created batch out.action := commit_receipts _ _ _

@[simp] theorem apply_yields :
    (s.apply e out deposit batch spare).yields = s.yields_after spare out.action :=
  commit_yields _ _ _

@[simp] theorem apply_next_yield : (s.apply e out deposit batch spare).next_yield =
    s.next_yield + (match out.action with | .new_yield _ => 1 | _ => 0) :=
  commit_next_yield _ _ _

end Commit

theorem finish_log (batch : Option Nat) (id : Nat) (and_then : Option (Nat × Nat))
    (success : Bool) : (s.finish batch id and_then success).log =
      s.log ++ [⟨s.block_height, s.gate, .finished id success batch⟩] := by
  cases and_then <;> rfl

theorem settle_log (d : Deployment) (to_id : AccountId) (amount : Nat) (success : Bool) :
    (s.settle d to_id amount success).log =
      s.log ++ [⟨s.block_height, s.gate, .transferred to_id amount success⟩] := by
  unfold settle
  split <;> rfl

/-- The log shows which event was recorded last. -/
theorem last_event {s' : Ledger} {e e' : Event} (h : s'.log = s.log ++ [⟨s.block_height, s.gate, e⟩])
    (h' : s'.log = s.log ++ [⟨s.block_height, s.gate, e'⟩]) : e = e' := by
  rw [h, List.append_cancel_left_eq, List.cons.injEq, Entry.mk.injEq] at h'
  exact h'.1.2.2

theorem log_ne_append {s' : Ledger} {en : Entry} (h : s'.log = s.log) : s'.log ≠ s.log ++ [en] := by
  intro h'
  have hlen := congrArg List.length (h.symm.trans h')
  rw [List.length_append, List.length_singleton] at hlen
  omega

/-- Of the receipts that carrying out an action creates, only a dispatch is a target
call. -/
theorem target_of_created {batch : Option Nat} {act : HostAction} {f : InFlight} {id : Nat}
    {call : FunctionCall} {and_then : Option (Nat × Nat)} {ran : Bool}
    (hf : f ∈ s.created batch act) (hr : f.receipt = .target_call id call and_then ran) :
    act = .function_call id call and_then := by
  cases act with
  | function_call n c th =>
    simp only [created, List.mem_singleton] at hf
    subst hf
    cases hr
    rfl
  | resume y signal =>
    simp only [created] at hf
    split at hf
    · rw [List.mem_singleton.1 hf] at hr
      cases hr
    · cases hf
  | transfer to_id amount =>
    simp only [created, List.mem_singleton] at hf
    subst hf
    cases hr
  | none => simp only [created, List.not_mem_nil] at hf
  | new_yield args => simp only [created, List.not_mem_nil] at hf

/-- A gate call dispatches nothing. -/
theorem called_dispatches_not {c : GateCall} {caller : AccountId} {deposit id : Nat} {g' : Gate}
    {act : HostAction} {call : FunctionCall} {and_then : Option (Nat × Nat)}
    (heff : CallEffect d.host (s.env d caller deposit) s.gate c g' act) :
    act ≠ .function_call id call and_then := by
  cases heff with
  | admin hc frame ha =>
    rcases ha with rfl | ⟨to_id, amount, rfl⟩
    · exact HostAction.noConfusion
    · exact HostAction.noConfusion
  | _ => exact HostAction.noConfusion

/-- What a gate call asks of its environment about yields is whether they are open. -/
theorem yield_is_open_iff {caller : AccountId} {deposit : Nat} {y : YieldId} :
    (s.env d caller deposit).yield_is_open y = true ↔ ∃ w, s.yields.lookup y = some w := by
  simp only [env, decide_eq_true_eq, ← AList.lookup_isSome, Option.isSome_iff_exists]

/-- The queue without the receipt between `pre` and `post`. -/
def without (s : Ledger) (pre post : List InFlight) : Ledger := { s with receipts := pre ++ post }

/-- `f` is the receipt at place `i`, between `pre` and `post`. -/
structure Takes (s : Ledger) (i : Nat) (f : InFlight) (pre post : List InFlight) : Prop where
  get : s.receipts[i]? = some f
  split : s.receipts = pre ++ f :: post
  rest : s.take i = s.without pre post

theorem mem_of_split {pre post : List InFlight} {f : InFlight}
    (h : s.receipts = pre ++ f :: post) : f ∈ s.receipts := by
  rw [h]
  exact List.mem_append_right _ List.mem_cons_self

theorem mem_of_without {pre post : List InFlight} {f g : InFlight}
    (h : s.receipts = pre ++ f :: post) (hg : g ∈ pre ++ post) : g ∈ s.receipts := by
  rw [h]
  rcases List.mem_append.1 hg with hg | hg
  · exact List.mem_append_left _ hg
  · exact List.mem_append_right _ (List.mem_cons_of_mem _ hg)

theorem takes_of_get {i : Nat} {f : InFlight} (h : s.receipts[i]? = some f) :
    ∃ pre post, s.Takes i f pre post := by
  obtain ⟨hlt, hf⟩ := List.getElem?_eq_some_iff.1 h
  refine ⟨s.receipts.take i, s.receipts.drop (i + 1), h, ?_, ?_⟩
  · rw [← hf, List.getElem_cons_drop, List.take_append_drop]
  · simp only [Ledger.take, without, List.eraseIdx_eq_take_drop_succ]

/-- The target call of `f` has run: it stays in flight until its promise resolves,
and a failed call returns its deposit. -/
def ran (t : Ledger) (f : InFlight) (intent_id : Nat) (call : FunctionCall)
    (and_then : Option (Nat × Nat)) (ok : Bool) : Ledger :=
  { t.record (.executed intent_id call ok f.batch) with
    balance := if ok then t.balance else t.balance + call.deposit
    receipts := t.receipts ++ [{ f with receipt := .target_call intent_id call and_then true }] }

/-- Taking a receipt out of the queue commutes with carrying out a call. -/
theorem apply_without {pre post : List InFlight} {f : InFlight} (e : Event) (out : Outcome)
    (deposit : Nat) (batch : Option Nat) (spare : Nat) (h : s.receipts = pre ++ f :: post) :
    (s.without pre post).apply e out deposit batch spare =
      (s.apply e out deposit batch spare).without pre (post ++ s.created batch out.action) ∧
    (s.apply e out deposit batch spare).receipts =
      pre ++ f :: (post ++ s.created batch out.action) := by
  constructor
  · unfold apply
    cases out.action with
    | resume y signal =>
      cases hw : s.yields.lookup y <;>
        simp [without, commit, created, record, push, hw]
    | _ => simp [without, commit, created, record, push]
  · rw [apply_receipts, h, List.append_assoc, List.cons_append]

end Ledger

/-! ## What an action names -/

/-- The gate method an action calls, with its caller and deposit: the call
itself, or what a dispatched call addressed to the gate decodes to. -/
def Action.gate_call (d : Deployment) (s : Ledger) : Action → Option (AccountId × Nat × GateCall)
  | .call caller deposit _ c => some (caller, deposit, c)
  | .execute i _ _ =>
    match s.receipts[i]? with
    | some ⟨.target_call _ target _ false, _, _⟩ =>
      if target.receiver = d.gate_id then
        (d.decode_call target.method target.args).map fun c => (d.gate_id, target.deposit.val, c)
      else none
    | _ => none
  | _ => none

/-- The same, when the call returns. -/
def Action.accepted_call (d : Deployment) (s : Ledger) (a : Action) :
    Option (AccountId × Nat × GateCall) :=
  match a.gate_call d s with
  | some (caller, deposit, c) =>
    match c.run d.host (s.env d caller deposit) s.gate with
    | .ok _ => some (caller, deposit, c)
    | .error _ => none
  | none => none

/-- The receipt an action executes. -/
def Action.receipt (s : Ledger) : Action → Option InFlight
  | .run_callback i _ | .execute i _ _ | .finish i _ | .run_continue i | .settle i _ =>
    s.receipts[i]?
  | _ => none

theorem Action.receipt_mem {s : Ledger} {a : Action} {f : InFlight} (h : f ∈ a.receipt s) :
    f ∈ s.receipts := by
  cases a with
  | run_callback i burnt | execute i spare success | finish i success | run_continue i
  | settle i success => exact List.mem_of_getElem? h
  | _ => cases h

/-- Only a dispatched call runs a gate method under the gate's own account. -/
theorem Action.gate_call_execute {d : Deployment} {s : Ledger} {i : Nat} (spare : Nat)
    (success : Bool) {id : Nat} {call : FunctionCall} {and_then : Option (Nat × Nat)}
    {batch : Option Nat} {created : Nat} {c : GateCall}
    (hget : s.receipts[i]? = some ⟨.target_call id call and_then false, batch, created⟩)
    (hrecv : call.receiver = d.gate_id) (hdec : d.decode_call call.method call.args = some c) :
    (Action.execute i spare success).gate_call d s = some (d.gate_id, call.deposit.val, c) := by
  simp only [gate_call, hget, if_pos hrecv, hdec, Option.map_some]

theorem Action.gate_call_of_receipt {d : Deployment} {s : Ledger} {a : Action} {f : InFlight}
    (hf : f ∈ a.receipt s) {c : AccountId × Nat × GateCall} (hc : a.gate_call d s = some c) :
    c.1 = d.gate_id := by
  cases a with
  | call caller deposit spare c => cases hf
  | execute i spare success =>
    simp only [gate_call] at hc
    split at hc
    · split at hc
      · obtain ⟨_, -, rfl⟩ := Option.map_eq_some_iff.1 hc
        rfl
      · cases hc
    · cases hc
  | _ => cases hc

theorem Action.accepted_call_of_run {d : Deployment} {s : Ledger} {a : Action}
    {caller : AccountId} {deposit : Nat} {c : GateCall} {out : Outcome}
    (hcall : a.gate_call d s = some (caller, deposit, c))
    (hrun : c.run d.host (s.env d caller deposit) s.gate = .ok out) :
    a.accepted_call d s = some (caller, deposit, c) := by
  simp only [accepted_call, hcall, hrun]

theorem Action.accepted_call_run {d : Deployment} {s : Ledger} {a : Action} {caller : AccountId}
    {deposit : Nat} {c : GateCall} (h : a.accepted_call d s = some (caller, deposit, c)) :
    a.gate_call d s = some (caller, deposit, c) ∧
      ∃ out, c.run d.host (s.env d caller deposit) s.gate = .ok out := by
  unfold accepted_call at h
  split at h
  · rename_i caller' deposit' c' hcall
    split at h
    · rename_i out hrun
      cases h
      exact ⟨hcall, out, hrun⟩
    · cases h
  · cases h

/-! ## What a callback logs -/

@[simp] theorem HostAction.fits_none (d : Deployment) (balance gas_left : Nat) :
    HostAction.none.fits d balance gas_left :=
  ⟨Nat.zero_le _, Nat.zero_le _, rfl⟩

namespace Ledger

variable {g g' : Gate} {args : CallbackArgs} {act : HostAction} {batch : Option Nat}

/-- A timed-out callback logs the timeout. -/
theorem callback_event_timeout {e : PromiseError}
    (h : Returns (g.on_intent_resumed args (.error e)) g' act) :
    callback_event args batch (.error e) act = .rejected args.intent_id true := by
  obtain ⟨-, -, rfl⟩ := Gate.on_intent_resumed_timeout.1 h
  rfl

/-- The callback of a rejection logs the rejection. -/
theorem callback_event_reject {v : ResumeSignal} (hv : v.approve = false)
    (h : Returns (g.on_intent_resumed args (.ok v)) g' act) :
    callback_event args batch (.ok v) act = .rejected args.intent_id false := by
  obtain ⟨-, -, rfl⟩ := (Gate.on_intent_resumed_reject hv).1 h
  rfl

/-- The callback of an approval logs the call that its intent asked for. -/
theorem callback_event_approve {v : ResumeSignal} (hv : v.approve = true)
    (h : Returns (g.on_intent_resumed args (.ok v)) g' act) :
    callback_event args batch (.ok v) act =
      .dispatched args.intent_id args.toFunctionCall v.sequence_number batch := by
  obtain ⟨-, and_then, -, -, rfl⟩ := (Gate.on_intent_resumed_approve hv).1 h
  rfl

/-- A callback that returned logs a dispatch or a rejection, of its own intent. -/
theorem callback_event_cases (batch : Option Nat) {signal : Except PromiseError ResumeSignal}
    (h : Returns (g.on_intent_resumed args signal) g' act) :
    (∃ seq, callback_event args batch signal act =
      .dispatched args.intent_id args.toFunctionCall seq batch) ∨
    ∃ timeout, callback_event args batch signal act = .rejected args.intent_id timeout := by
  cases signal with
  | error e => exact .inr ⟨true, callback_event_timeout h⟩
  | ok v =>
    cases hv : v.approve with
    | true => exact .inl ⟨v.sequence_number, callback_event_approve hv h⟩
    | false => exact .inr ⟨false, callback_event_reject hv h⟩

end Ledger

/-! ## Moves -/

open Ledger in
/-- The moves that make up the step `a` from `s₀`. All but `ran` start in `s₀`
itself. -/
inductive Move (d : Deployment) (s₀ : Ledger) (a : Action) : Ledger → Ledger → Prop
  | advance {blocks : Nat} (ha : a = .advance blocks) :
      Move d s₀ a s₀ { s₀ with block_height := s₀.block_height + blocks }
  | refused {caller : AccountId} {deposit : Nat} {c : GateCall} {msg : String}
      (hcall : a.gate_call d s₀ = some (caller, deposit, c)) :
      Move d s₀ a s₀ (s₀.record (.refused caller deposit c msg))
  | called {caller : AccountId} {deposit spare : Nat} {c : GateCall} {out : Outcome}
      (hcall : a.gate_call d s₀ = some (caller, deposit, c))
      (hacc : a.accepted_call d s₀ = some (caller, deposit, c))
      (hcaller : (∃ spare, a = .call caller deposit spare c) ∧ caller ≠ d.gate_id ∨
        (∃ i spare success, a = .execute i spare success) ∧ caller = d.gate_id)
      (hspare : GAS_YIELD_CALLBACK + spare ≤ d.max_prepaid_gas)
      (heff : CallEffect d.host (s₀.env d caller deposit) s₀.gate c out.gate out.action)
      (hrun : c.run d.host (s₀.env d caller deposit) s₀.gate = .ok out) :
      Move d s₀ a s₀
        (s₀.apply (.accepted caller deposit c) out deposit (batch_of c out.gate) spare)
  | timed_out {y : YieldId} {w : OpenYield} (ha : a = .timeout y)
      (hw : s₀.yields.lookup y = some w) : Move d s₀ a s₀ (s₀.time_out y w)
  | resumed {i burnt : Nat} {y : YieldId} {args : CallbackArgs} {gas : Nat}
      {signal : Except PromiseError ResumeSignal} {batch : Option Nat} {created : Nat}
      {pre post : List InFlight} {out : Outcome} (ha : a = .run_callback i burnt)
      (htake : s₀.Takes i ⟨.callback y args gas signal, batch, created⟩ pre post)
      (hret : Returns (s₀.gate.on_intent_resumed args signal) out.gate out.action)
      (hfits : out.action.fits d s₀.balance (gas - burnt)) :
      Move d s₀ a s₀
        ((s₀.without pre post).apply (callback_event args batch signal out.action) out 0 batch 0)
  | aborted {i burnt : Nat} {y : YieldId} {args : CallbackArgs} {gas : Nat}
      {signal : Except PromiseError ResumeSignal} {batch : Option Nat} {created : Nat}
      {pre post : List InFlight} (ha : a = .run_callback i burnt)
      (htake : s₀.Takes i ⟨.callback y args gas signal, batch, created⟩ pre post)
      (hfail : ∀ g act, Returns (s₀.gate.on_intent_resumed args signal) g act →
        ¬ act.fits d s₀.balance (gas - burnt)) :
      Move d s₀ a s₀ ((s₀.without pre post).record (.aborted args.intent_id batch))
  | ran {s : Ledger} {id : Nat} {call : FunctionCall} {and_then : Option (Nat × Nat)}
      {batch : Option Nat} {created : Nat} {pre post : List InFlight} {ok : Bool}
      (hf : a.receipt s₀ = some ⟨.target_call id call and_then false, batch, created⟩)
      (hblock : s.block_height = s₀.block_height)
      (hrecs : s.receipts = pre ++ ⟨.target_call id call and_then false, batch, created⟩ :: post) :
      Move d s₀ a s ((s.without pre post).ran ⟨.target_call id call and_then false, batch, created⟩
        id call and_then ok)
  | finished {i : Nat} {success : Bool} {id : Nat} {call : FunctionCall}
      {and_then : Option (Nat × Nat)} {batch : Option Nat} {created : Nat}
      {pre post : List InFlight} (ha : a = .finish i success)
      (htake : s₀.Takes i ⟨.target_call id call and_then true, batch, created⟩ pre post) :
      Move d s₀ a s₀ ((s₀.without pre post).finish batch id and_then success)
  | continued {i next_id next_seq : Nat} {batch : Option Nat} {created : Nat}
      {pre post : List InFlight} {out : Outcome} (ha : a = .run_continue i)
      (htake : s₀.Takes i ⟨.continue_chain next_id next_seq, batch, created⟩ pre post)
      (heff : CallEffect d.host (s₀.env d d.gate_id 0) s₀.gate (.continue_chain next_id next_seq)
        out.gate out.action) :
      Move d s₀ a s₀
        ((s₀.without pre post).apply (.continued next_id next_seq batch) out 0 batch 0)
  | continue_failed {i next_id next_seq : Nat} {batch : Option Nat} {created : Nat}
      {pre post : List InFlight} {msg : String} (ha : a = .run_continue i)
      (htake : s₀.Takes i ⟨.continue_chain next_id next_seq, batch, created⟩ pre post)
      (hfail : (GateCall.continue_chain next_id next_seq).run d.host (s₀.env d d.gate_id 0) s₀.gate
        = .error msg) :
      Move d s₀ a s₀ ((s₀.without pre post).record (.continue_failed next_id next_seq msg batch))
  | settled {i : Nat} {success : Bool} {to_id : AccountId} {amount : Nat} {batch : Option Nat}
      {created : Nat} {pre post : List InFlight} (ha : a = .settle i success)
      (htake : s₀.Takes i ⟨.transfer to_id amount, batch, created⟩ pre post) :
      Move d s₀ a s₀ ((s₀.without pre post).settle d to_id amount success)

namespace Ledger

variable {d : Deployment} {s : Ledger}

/-- The two outcomes of a gate call. -/
theorem call_cases (caller : AccountId) (deposit spare : Nat) (c : GateCall) :
    (∃ msg, s.call d caller deposit spare c =
      (s.record (.refused caller deposit c msg), false)) ∨
    ∃ out, c.run d.host (s.env d caller deposit) s.gate = .ok out ∧
      s.call d caller deposit spare c =
        (s.apply (.accepted caller deposit c) out deposit (batch_of c out.gate) spare, true) := by
  unfold Ledger.call
  split
  · rename_i msg _
    -- the method panicked
    exact .inl ⟨msg, rfl⟩
  · rename_i out hrun
    split
    -- it returned: the call stands if the account can pay for what it scheduled
    · exact .inr ⟨out, hrun, rfl⟩
    · exact .inl ⟨_, rfl⟩

/-- A method that returns stands when the account can pay for what it asks. -/
theorem call_of_run {caller : AccountId} {deposit : Nat} {c : GateCall} {out : Outcome}
    (spare : Nat) (hrun : c.run d.host (s.env d caller deposit) s.gate = .ok out)
    (hcost : out.action.cost ≤ s.balance + deposit) :
    s.call d caller deposit spare c =
      (s.apply (.accepted caller deposit c) out deposit (batch_of c out.gate) spare, true) := by
  simp only [Ledger.call, hrun, if_pos hcost]

/-- Executing a dispatched call: at most one gate call, then the end of the
receipt. -/
theorem execute_moves {i spare : Nat} {success : Bool} {id : Nat} {call : FunctionCall}
    {and_then : Option (Nat × Nat)} {batch : Option Nat} {created : Nat} {pre post : List InFlight}
    (htake : s.Takes i ⟨.target_call id call and_then false, batch, created⟩ pre post)
    (hspare : call.receiver = d.gate_id → GAS_YIELD_CALLBACK + spare ≤ d.max_prepaid_gas) :
    ∃ t, Relation.ReflGen (Move d s (.execute i spare success)) s t ∧
      Move d s (.execute i spare success) t
        ((s.without pre post).execute d ⟨.target_call id call and_then false, batch, created⟩
          id call and_then spare success) := by
  have hf : (Action.execute i spare success).receipt s =
      some ⟨.target_call id call and_then false, batch, created⟩ := htake.get
  unfold Ledger.execute Ledger.run_target
  by_cases hrecv : call.receiver = d.gate_id
  · simp only [if_pos hrecv]
    cases hdec : d.decode_call call.method call.args with
    -- no such method: the receipt fails on its own
    | none => exact ⟨s, .refl, .ran hf rfl htake.split⟩
    | some c =>
      have hcall := Action.gate_call_execute spare success
        htake.get hrecv hdec
      rcases (s.without pre post).call_cases (d := d) d.gate_id call.deposit spare c with
        ⟨msg, hrun⟩ | ⟨out, hok, hrun⟩
      · simp only [hrun]
        exact ⟨s.record (.refused d.gate_id call.deposit c msg), .single (.refused hcall),
          .ran hf rfl htake.split⟩
      · -- the method ran with the receipt off the queue, `Move.called` has it still there, so
        -- taking it out is moved behind the call
        have hsplit := apply_without (.accepted d.gate_id call.deposit c) out call.deposit
          (batch_of c out.gate) spare htake.split
        simp only [hrun, hsplit.1]
        have hacc := Action.accepted_call_of_run hcall hok
        exact ⟨_, .single (.called hcall hacc (.inr ⟨⟨i, spare, success, rfl⟩, rfl⟩) (hspare hrecv)
          (GateCall.run_effect hok) hok), .ran hf (apply_block_height _ _ _ _ _) hsplit.2⟩
  · simp only [if_neg hrecv]
    -- a call to another account leaves the gate alone
    exact ⟨s, .refl, .ran hf rfl htake.split⟩

end Ledger

open Ledger in
/-- A call from outside is one move, and leaves the protocol's gas for its yield. -/
theorem call_moves {d : Deployment} {s s' : Ledger} {caller : AccountId} {deposit spare : Nat}
    {c : GateCall} (h : step d s (.call caller deposit spare c) = some s') :
    GAS_YIELD_CALLBACK + spare ≤ d.max_prepaid_gas ∧
      Move d s (.call caller deposit spare c) s s' := by
  simp only [step] at h
  split at h
  · rename_i hc
    simp only [Option.some.injEq] at h
    refine ⟨hc.2, ?_⟩
    rcases s.call_cases (d := d) caller deposit spare c with ⟨msg, hcall⟩ | ⟨out, hok, hcall⟩
    · rw [hcall] at h
      exact h ▸ .refused rfl
    · rw [hcall] at h
      have hacc := Action.accepted_call_of_run (a := .call caller deposit spare c) rfl hok
      exact h ▸ .called rfl hacc (.inl ⟨⟨spare, rfl⟩, hc.1⟩) hc.2 (GateCall.run_effect hok)
        hok
  · cases h

/-- A call from outside that returned is logged. -/
theorem call_log {d : Deployment} {s s' : Ledger} {caller : AccountId} {deposit spare : Nat}
    {c : GateCall} (h : step d s (.call caller deposit spare c) = some s')
    (hacc : (s.call d caller deposit spare c).2 = true) :
    s'.log = s.log ++ [⟨s.block_height, s.gate, .accepted caller deposit c⟩] := by
  simp only [step] at h
  split at h
  · simp only [Option.some.injEq] at h
    rcases s.call_cases (d := d) caller deposit spare c with ⟨msg, hcall⟩ | ⟨out, -, hcall⟩
    · rw [hcall] at hacc
      cases hacc
    · rw [← h, hcall]
      exact Ledger.apply_log _ _ _ _ _
  · cases h

open Ledger in
/-- **Inversion of a step**: one move, or a gate call by a dispatched call and
then the end of its receipt. -/
theorem step_moves {d : Deployment} {s s' : Ledger} {a : Action} (h : step d s a = some s') :
    ∃ t, Relation.ReflGen (Move d s a) s t ∧ Move d s a t s' := by
  cases a with
  | advance blocks =>
    simp only [step, Option.some.injEq] at h
    exact ⟨s, .refl, h ▸ .advance rfl⟩
  | call caller deposit spare c => exact ⟨s, .refl, (call_moves h).2⟩
  | timeout y =>
    simp only [step] at h
    split at h
    · rename_i w hw
      simp only [Option.some.injEq] at h
      exact ⟨s, .refl, h ▸ .timed_out rfl hw⟩
    · cases h
  | run_callback i burnt =>
    simp only [step] at h
    split at h
    · rename_i y args gas signal batch created hget
      obtain ⟨pre, post, htake⟩ := takes_of_get hget
      split at h
      · simp only [Option.some.injEq] at h
        rw [htake.rest] at h
        subst h
        refine ⟨s, .refl, ?_⟩
        unfold Ledger.run_callback
        split
        · rename_i msg herr
          -- `on_intent_resumed` itself panicked, so it returns nothing at all
          refine .aborted rfl htake fun g act ⟨logs, hret⟩ => ?_
          rw [show (s.without pre post).gate = s.gate from rfl, hret] at herr
          cases herr
        · rename_i out hout
          split
          · rename_i hfits
            exact .resumed rfl htake (returns_of_eq_ok hout) hfits
          · rename_i hfits
            -- it returned, but the host does not create the call it scheduled
            refine .aborted rfl htake fun g act ⟨logs, hret⟩ hfits' => ?_
            rw [show (s.without pre post).gate = s.gate from rfl, hret] at hout
            cases hout
            exact hfits hfits'
      · cases h
    · cases h
  | execute i spare success =>
    simp only [step] at h
    split at h
    · rename_i id call and_then batch created hget
      obtain ⟨pre, post, htake⟩ := takes_of_get hget
      split at h
      · rename_i hspare
        simp only [Option.some.injEq] at h
        rw [htake.rest] at h
        exact h ▸ execute_moves htake hspare
      · cases h
    · cases h
  | finish i success =>
    simp only [step] at h
    split at h
    · rename_i id call and_then batch created hget
      obtain ⟨pre, post, htake⟩ := takes_of_get hget
      simp only [Option.some.injEq] at h
      rw [htake.rest] at h
      exact ⟨s, .refl, h ▸ .finished rfl htake⟩
    · cases h
  | run_continue i =>
    simp only [step] at h
    split at h
    · rename_i next_id next_seq batch created hget
      obtain ⟨pre, post, htake⟩ := takes_of_get hget
      simp only [Option.some.injEq] at h
      rw [htake.rest] at h
      subst h
      refine ⟨s, .refl, ?_⟩
      unfold Ledger.run_continue
      split
      · rename_i msg herr
        exact .continue_failed rfl htake herr
      · rename_i out hout
        exact .continued rfl htake (GateCall.run_effect hout)
    · cases h
  | settle i success =>
    simp only [step] at h
    split at h
    · rename_i to_id amount batch created hget
      obtain ⟨pre, post, htake⟩ := takes_of_get hget
      simp only [Option.some.injEq] at h
      rw [htake.rest] at h
      exact ⟨s, .refl, h ▸ .settled rfl htake⟩
    · cases h

/-- **The move rule.** What every move of an admitted step keeps, the step keeps. -/
theorem step_preserves {d : Deployment} {s s' : Ledger} {a : Action} (I : Ledger → Prop)
    (h : step d s a = some s') (hs : I s)
    (hmove : ∀ t t', I t → Move d s a t t' → I t') : I s' := by
  obtain ⟨t, hst, hts⟩ := step_moves h
  cases hst with
  | refl => exact hmove _ _ hs hts
  | single hst => exact hmove _ _ (hmove _ _ hs hst) hts

/-- **The invariant rule.** What holds of every new gate and is kept by every move holds in
every reachable state. -/
theorem Reachable.invariant {d : Deployment} {s : Ledger} (I : Ledger → Prop) (h : Reachable d s)
    (hinit : ∀ owner_id approver_id balance block_height,
      I (.init owner_id approver_id balance block_height))
    (hmove : ∀ s₀ a t t', I t → Move d s₀ a t t' → I t') : I s := by
  obtain ⟨owner_id, approver_id, balance, block_height, hrun⟩ := h
  refine hrun.invariant (hinit owner_id approver_id balance block_height) ?_
  intro t a t' ht _ hst
  exact step_preserves I hst ht fun u u' => hmove t a u u'

open Ledger in
/-- What a move that logs the event was: which call returned, or which receipt was
executed and what became of it. -/
def Event.Cause (d : Deployment) (s₀ : Ledger) (a : Action) (s s' : Ledger) : Event → Prop
  | .accepted caller deposit c =>
    s = s₀ ∧ a.gate_call d s = some (caller, deposit, c) ∧
      a.accepted_call d s = some (caller, deposit, c) ∧
      ((∃ spare, a = .call caller deposit spare c) ∧ caller ≠ d.gate_id ∨
        (∃ i spare success, a = .execute i spare success) ∧ caller = d.gate_id) ∧
      ∃ act, CallEffect d.host (s.env d caller deposit) s.gate c s'.gate act
  | .dispatched id call seq batch =>
    ∃ f ∈ s.receipts, f.batch = batch ∧ ∃ y args gas v, f.receipt = .callback y args gas (.ok v) ∧
      v.approve = true ∧ args.intent_id = id ∧ args.toFunctionCall = call ∧ v.sequence_number = seq
  | .aborted id batch =>
    ∃ f ∈ s.receipts, f.batch = batch ∧ ∃ y args gas signal,
      f.receipt = .callback y args gas signal ∧ args.intent_id = id
  | .executed id call _ batch =>
    ∃ f ∈ s.receipts, f.batch = batch ∧ ∃ and_then, f.receipt = .target_call id call and_then false
  | .finished id _ batch =>
    ∃ f ∈ s.receipts, f.batch = batch ∧ ∃ call and_then,
      f.receipt = .target_call id call and_then true
  | .continued id seq batch =>
    ∃ f ∈ s.receipts, f.batch = batch ∧ f.receipt = .continue_chain id seq ∧
      s.gate.batch_chain_tail = id :: s'.gate.batch_chain_tail
  | .continue_failed id seq msg batch =>
    s = s₀ ∧ ∃ f ∈ a.receipt s, f.batch = batch ∧ f.receipt = .continue_chain id seq ∧
      (GateCall.continue_chain id seq).run d.host (s.env d d.gate_id 0) s.gate = .error msg
  | _ => True

open Ledger in
/-- **A move logs at most one event**, with the block and the contract state it found. -/
theorem Move.logs {d : Deployment} {s₀ s s' : Ledger} {a : Action} (h : Move d s₀ a s s') :
    s'.log = s.log ∨
      ∃ e, s'.log = s.log ++ [⟨s.block_height, s.gate, e⟩] ∧ e.Cause d s₀ a s s' := by
  cases h with
  | advance ha => exact .inl rfl
  | refused hcall => exact .inr ⟨_, rfl, trivial⟩
  | called hcall hacc hcaller hspare heff =>
    refine .inr ⟨_, apply_log _ _ _ _ _, rfl, hcall, hacc, hcaller, ?_⟩
    rw [apply_gate]
    exact ⟨_, heff⟩
  | timed_out ha hw => exact .inr ⟨_, rfl, trivial⟩
  | @resumed i burnt y args gas signal batch created pre post out ha htake hret hfits =>
    refine .inr ⟨_, apply_log _ _ _ _ _, ?_⟩
    cases signal with
    | error e =>
      rw [callback_event_timeout hret]
      trivial
    | ok v =>
      -- an approval logs the dispatch, a rejection only itself
      cases hv : v.approve with
      | true =>
        rw [callback_event_approve hv hret]
        exact ⟨_, mem_of_split htake.split, rfl, y, args, gas, v, rfl, hv, rfl, rfl, rfl⟩
      | false =>
        rw [callback_event_reject hv hret]
        trivial
  | aborted ha htake hfail =>
    exact .inr ⟨_, rfl, _, mem_of_split htake.split, rfl, _, _, _, _, rfl, rfl⟩
  | ran hf hblock hrecs => exact .inr ⟨_, rfl, _, mem_of_split hrecs, rfl, _, rfl⟩
  | finished ha htake =>
    exact .inr ⟨_, finish_log _ _ _ _, _, mem_of_split htake.split, rfl, _, _, rfl⟩
  | continued ha htake heff =>
    refine .inr ⟨_, apply_log _ _ _ _ _, _, mem_of_split htake.split, rfl, rfl, ?_⟩
    rw [apply_gate]
    -- of the effects only `chain` is one of `continue_chain`
    generalize Outcome.gate _ = g' at heff
    generalize Outcome.action _ = act at heff
    cases heff with
    | admin hc => cases hc
    | chain hpriv hfree htail => exact htail
  | continue_failed ha htake hfail =>
    subst ha
    exact .inr ⟨_, rfl, rfl, _, htake.get, rfl, rfl, hfail⟩
  | settled ha htake => exact .inr ⟨_, settle_log _ _ _ _, trivial⟩

theorem Move.log_cases {d : Deployment} {s₀ s s' : Ledger} {a : Action} (h : Move d s₀ a s s') :
    s'.log = s.log ∨ ∃ e, s'.log = s.log ++ [⟨s.block_height, s.gate, e⟩] := by
  rcases h.logs with hlog | ⟨e, hlog, -⟩
  · exact .inl hlog
  · exact .inr ⟨e, hlog⟩

/-- The event that a move logs tells its cause. -/
theorem Move.cause {d : Deployment} {s₀ s s' : Ledger} {a : Action} {e : Event}
    (h : Move d s₀ a s s') (hlog : s'.log = s.log ++ [⟨s.block_height, s.gate, e⟩]) :
    e.Cause d s₀ a s s' := by
  rcases h.logs with hnone | ⟨e', hlog', hcause⟩
  · exact absurd hlog (Ledger.log_ne_append hnone)
  · exact Ledger.last_event hlog' hlog ▸ hcause

/-- An entry of the log was there before, or is the one just logged. -/
theorem Move.mem_log {d : Deployment} {s₀ s s' : Ledger} {a : Action} (h : Move d s₀ a s s')
    {en : Entry} (hen : en ∈ s'.log) : en ∈ s.log ∨
      ∃ e, s'.log = s.log ++ [en] ∧ en = ⟨s.block_height, s.gate, e⟩ ∧ e.Cause d s₀ a s s' := by
  rcases h.logs with hlog | ⟨e, hlog, hcause⟩
  · exact .inl (hlog ▸ hen)
  · rw [hlog, List.mem_append, List.mem_singleton] at hen
    rcases hen with hen | rfl
    · exact .inl hen
    · exact .inr ⟨e, hlog, rfl, hcause⟩

/-- A statement about every entry and the log before it is kept when it holds of what
the move logs. -/
theorem Move.along {d : Deployment} {s₀ s s' : Ledger} {a : Action} (h : Move d s₀ a s s')
    {P : List Entry → Entry → Prop} (halong : Runs.Along P s.log)
    (hnew : ∀ e, s'.log = s.log ++ [⟨s.block_height, s.gate, e⟩] → e.Cause d s₀ a s s' →
      P s.log ⟨s.block_height, s.gate, e⟩) : Runs.Along P s'.log := by
  rcases h.logs with hlog | ⟨e, hlog, hcause⟩
  · exact hlog ▸ halong
  · rw [hlog]
    exact halong.concat (hnew e hlog hcause)

/-- The log only grows. -/
theorem Move.log_extends {d : Deployment} {s₀ s s' : Ledger} {a : Action} (h : Move d s₀ a s s') :
    s.log <+: s'.log := by
  rcases h.log_cases with hlog | ⟨e, hlog⟩
  · rw [hlog]
  · rw [hlog]
    exact List.prefix_append _ _

theorem log_extends {d : Deployment} {s s' : Ledger} {a : Action} (h : step d s a = some s') :
    s.log <+: s'.log :=
  step_preserves (fun t => s.log <+: t.log) h (List.prefix_refl s.log)
    fun _ _ ht hmove => ht.trans hmove.log_extends

end SequentialNear
