/-
The gate account with its asynchronous receipts, as one transition function.

`Gate.lean` says what a method computes; this file says what the NEAR runtime
does around it. A state ([`Ledger`]) is the contract state, the block height,
the open yields, the receipts in flight, the account balance, and the **log**
of everything that has happened, oldest entry first. The log is never read by
[`step`]: it is what the theorems quantify over.

What is assumed of the runtime:

* NEP-519: a yield fires its callback exactly once, with the resumed payload or
  with a timeout error, and `YieldId::resume` succeeds only while it is open;
* a `.then` callback becomes runnable when the call it hangs on has finished,
  whatever the outcome;
* a receipt that panics is reverted whole, and so is one that creates a call
  which the host does not let it create: with more gas or NEAR than it has, or
  against the host's further rules (`Deployment.admits`);
* an attached deposit comes back when the call it was attached to fails.

Receipts in flight may be executed in any order, each at any later time. Calls
arrive from any account other than the gate's own; the gate acts under its own
account only through calls it dispatched. Gas is accounted where the contract
attaches it, in the yield callback, which is taken to have the gas for what it does
itself.
-/
import SequentialNear.Gate
import SequentialNear.Runs

set_option autoImplicit false

namespace SequentialNear

open Borsh Nep366

/-- What stays fixed over the lifetime of a deployed gate. -/
structure Deployment where
  host : Host
  /-- `env::current_account_id()`. -/
  gate_id : AccountId
  /-- near-sdk's method dispatch: a method name and its JSON arguments. -/
  decode_call : String → Bytes → Option GateCall
  /-- The protocol's limit on the gas of one receipt. -/
  max_prepaid_gas : Nat
  /-- What else the host asks of a receipt that has this balance and this much gas
  left and creates a call, with a `.then` callback if there is one: a method name
  that is not empty, its limits on lengths, the fees of the actions, the balance that
  the account's storage takes. -/
  admits : Nat → Nat → FunctionCall → Option (Nat × Nat) → Bool

/-! ## State -/

/-- A yield that has neither been resumed nor timed out, with its callback's gas. -/
structure OpenYield where
  args : CallbackArgs
  gas : Nat
deriving DecidableEq

instance : DecidableEq (Except PromiseError ResumeSignal)
  | .ok v, .ok w => decidable_of_iff (v = w) (by rw [Except.ok.injEq])
  | .error e, .error f => decidable_of_iff (e = f) (by rw [Except.error.injEq])
  | .ok _, .error _ => isFalse (fun h => by cases h)
  | .error _, .ok _ => isFalse (fun h => by cases h)

inductive Receipt
  /-- The yield fired: `on_intent_resumed(args)` with its promise result. -/
  | callback (yield_id : YieldId) (args : CallbackArgs) (gas : Nat)
      (signal : Except PromiseError ResumeSignal)
  /-- A dispatched call. `ran` says that the receiver has executed it, so that
  only the promise it returned is still open. -/
  | target_call (intent_id : Nat) (call : FunctionCall) (and_then : Option (Nat × Nat))
      (ran : Bool)
  /-- A `.then` callback whose target call has finished. -/
  | continue_chain (next_id next_seq : Nat)
  | transfer (to_id : AccountId) (amount : Nat)
deriving DecidableEq

/-- A receipt, the chained batch it descends from, and the block that made it
runnable. -/
structure InFlight where
  receipt : Receipt
  batch : Option Nat
  created : Nat
deriving DecidableEq

inductive Event
  /-- A method call that returned, from outside or from a dispatched call. -/
  | accepted (caller : AccountId) (deposit : Nat) (call : GateCall)
  /-- A method call that panicked and was reverted. -/
  | refused (caller : AccountId) (deposit : Nat) (call : GateCall) (msg : String)
  | timed_out (intent_id : Nat)
  | dispatched (intent_id : Nat) (call : FunctionCall) (seq : Option Nat) (batch : Option Nat)
  | rejected (intent_id : Nat) (timeout : Bool)
  /-- A callback that was reverted because its dispatch could not be created. -/
  | aborted (intent_id : Nat) (batch : Option Nat)
  | executed (intent_id : Nat) (call : FunctionCall) (success : Bool) (batch : Option Nat)
  | finished (intent_id : Nat) (success : Bool) (batch : Option Nat)
  | continued (next_id next_seq : Nat) (batch : Option Nat)
  | continue_failed (next_id next_seq : Nat) (msg : String) (batch : Option Nat)
  | transferred (to_id : AccountId) (amount : Nat) (success : Bool)
deriving DecidableEq

/-- An event, its block, and the contract state it found. -/
structure Entry where
  block : Nat
  before : Gate
  event : Event

structure Ledger where
  gate : Gate
  block_height : Nat
  next_yield : YieldId
  yields : Map YieldId OpenYield
  receipts : List InFlight
  balance : Nat
  log : List Entry

namespace Ledger

def init (owner_id approver_id : AccountId) (balance block_height : Nat) : Ledger where
  gate := Gate.new owner_id approver_id
  block_height := block_height
  next_yield := 0
  yields := ∅
  receipts := []
  balance := balance
  log := []

/-- The environment of a receipt executed now. -/
def env (d : Deployment) (s : Ledger) (caller : AccountId) (deposit : Nat) : Env where
  current_account_id := d.gate_id
  predecessor_account_id := caller
  attached_deposit := deposit
  block_height := s.block_height
  new_yield_id := s.next_yield
  yield_is_open := fun y => decide (y ∈ s.yields)

def record (s : Ledger) (e : Event) : Ledger :=
  { s with log := s.log ++ [⟨s.block_height, s.gate, e⟩] }

def push (s : Ledger) (r : Receipt) (batch : Option Nat) : Ledger :=
  { s with receipts := s.receipts ++ [⟨r, batch, s.block_height⟩] }

/-! ## Carrying out a method's action -/

end Ledger

/-- The NEAR an action takes from the account. -/
def HostAction.cost : HostAction → Nat
  | .function_call _ call _ => call.deposit
  | .transfer _ amount => amount
  | _ => 0

/-- The gas an action takes from the receipt that creates it. -/
def HostAction.gas : HostAction → Nat
  | .function_call _ call and_then =>
    call.gas + (if and_then.isSome then GAS_CONTINUE_CHAIN else 0)
  | _ => 0

/-- Whether the host's further rules let a receipt take the action. -/
def HostAction.admitted (d : Deployment) (balance gas_left : Nat) : HostAction → Bool
  | .function_call _ call and_then => d.admits balance gas_left call and_then
  | _ => true

/-- A receipt with this balance and this much gas left can take the action. -/
def HostAction.fits (d : Deployment) (balance gas_left : Nat) (act : HostAction) : Prop :=
  act.cost ≤ balance ∧ act.gas ≤ gas_left ∧ act.admitted d balance gas_left = true

instance (d : Deployment) (balance gas_left : Nat) (act : HostAction) :
    Decidable (act.fits d balance gas_left) :=
  inferInstanceAs (Decidable (_ ∧ _ ∧ _))

namespace Ledger

/-- The runtime side of an action. Receipts it creates belong to `batch`; a new
yield's callback gets `spare` gas on top of its static amount. -/
def commit (s : Ledger) (batch : Option Nat) (spare : Nat) : HostAction → Ledger
  | .none => s
  | .new_yield args =>
    { s with
      yields := s.yields.insert s.next_yield ⟨args, GAS_YIELD_CALLBACK + spare⟩
      next_yield := s.next_yield + 1 }
  | .resume y signal =>
    match s.yields.lookup y with
    | some w => { s with yields := s.yields.erase y }.push
        (.callback y w.args w.gas (.ok signal)) batch
    | none => s
  | .function_call id call and_then =>
    { s with balance := s.balance - call.deposit }.push
      (.target_call id call and_then false) batch
  | .transfer to_id amount =>
    { s with balance := s.balance - amount }.push (.transfer to_id amount) batch

/-- A receipt that returned: log it, keep its writes and its deposit, carry out
its action. -/
def apply (s : Ledger) (e : Event) (out : Outcome) (deposit : Nat) (batch : Option Nat)
    (spare : Nat) : Ledger :=
  { s.record e with gate := out.gate, balance := s.balance + deposit }.commit
    batch spare out.action

/-- The batch whose chain a call's receipts belong to: only an accepted
`resume_batch_chained` starts one, numbered by the counter it advances. -/
def batch_of (c : GateCall) (g : Gate) : Option Nat :=
  match c with
  | .resume_batch_chained _ => some g.active_batch_id
  | _ => none

/-- A gate method runs with `deposit` attached; the `Bool` says whether it
returned. -/
def call (d : Deployment) (s : Ledger) (caller : AccountId) (deposit spare : Nat)
    (c : GateCall) : Ledger × Bool :=
  match c.run d.host (s.env d caller deposit) s.gate with
  | .error msg => (s.record (.refused caller deposit c msg), false)
  | .ok out =>
    if out.action.cost ≤ s.balance + deposit then
      (s.apply (.accepted caller deposit c) out deposit (batch_of c out.gate) spare, true)
    else
      -- a withdrawal of more than the account holds
      (s.record (.refused caller deposit c "account balance exceeded"), false)

/-! ## Executing receipts -/

/-- What a callback that returned leaves in the log: the call that it asked for, or
the rejection it counted. -/
def callback_event (args : CallbackArgs) (batch : Option Nat)
    (signal : Except PromiseError ResumeSignal) : HostAction → Event
  | .function_call id call _ =>
    .dispatched id call (signal.toOption.bind (·.sequence_number)) batch
  | _ => .rejected args.intent_id signal.toOption.isNone

/-- `on_intent_resumed`, which itself burns `burnt` of its gas; the rest is there for the
promise it creates. -/
def run_callback (d : Deployment) (s : Ledger) (batch : Option Nat) (args : CallbackArgs)
    (gas burnt : Nat) (signal : Except PromiseError ResumeSignal) : Ledger :=
  match s.gate.on_intent_resumed args signal with
  | .error _ => s.record (.aborted args.intent_id batch)
  | .ok out =>
    if out.action.fits d s.balance (gas - burnt) then
      s.apply (callback_event args batch signal out.action) out 0 batch 0
    else
      -- the call cannot be created; the resume that led here stays
      s.record (.aborted args.intent_id batch)

/-- The dispatched call runs at its receiver. A call addressed to the gate runs
the method it names, with the gate as the caller; elsewhere `success` is the
receiver's own doing. -/
def run_target (d : Deployment) (s : Ledger) (call : FunctionCall) (spare : Nat)
    (success : Bool) : Ledger × Bool :=
  if call.receiver = d.gate_id then
    match d.decode_call call.method call.args with
    | some c => s.call d d.gate_id call.deposit spare c
    | none => (s, false) -- no such method, or arguments that do not parse
  else (s, success)

def execute (d : Deployment) (s : Ledger) (f : InFlight) (intent_id : Nat) (call : FunctionCall)
    (and_then : Option (Nat × Nat)) (spare : Nat) (success : Bool) : Ledger :=
  let (t, ok) := s.run_target d call spare success
  let t := t.record (.executed intent_id call ok f.batch)
  { t with
    -- a call that failed gives its deposit back
    balance := if ok then t.balance else t.balance + call.deposit
    receipts := t.receipts ++ [{ f with receipt := .target_call intent_id call and_then true }] }

/-- The promise the target returned has resolved: the `.then` callback, if any,
becomes runnable. -/
def finish (s : Ledger) (batch : Option Nat) (intent_id : Nat)
    (and_then : Option (Nat × Nat)) (success : Bool) : Ledger :=
  let t := s.record (.finished intent_id success batch)
  match and_then with
  | some (next_id, next_seq) => t.push (.continue_chain next_id next_seq) batch
  | none => t

def run_continue (d : Deployment) (s : Ledger) (batch : Option Nat) (next_id next_seq : Nat) :
    Ledger :=
  match (GateCall.continue_chain next_id next_seq).run d.host (s.env d d.gate_id 0) s.gate with
  | .error msg => s.record (.continue_failed next_id next_seq msg batch)
  | .ok out => s.apply (.continued next_id next_seq batch) out 0 batch 0

def settle (d : Deployment) (s : Ledger) (to_id : AccountId) (amount : Nat) (success : Bool) :
    Ledger :=
  let t := s.record (.transferred to_id amount success)
  if success = true ∧ to_id ≠ d.gate_id then t else { t with balance := t.balance + amount }

def time_out (s : Ledger) (y : YieldId) (w : OpenYield) : Ledger :=
  { s.record (.timed_out w.args.intent_id) with yields := s.yields.erase y }.push
    (.callback y w.args w.gas (.error .Failed)) none

end Ledger

/-! ## The transition function -/

/-- What can happen next. Receipts are named by their place in `receipts`. -/
inductive Action
  | advance (blocks : Nat)
  | call (caller : AccountId) (deposit spare : Nat) (c : GateCall)
  | timeout (y : YieldId)
  | run_callback (i burnt : Nat)
  | execute (i spare : Nat) (success : Bool)
  | finish (i : Nat) (success : Bool)
  | run_continue (i : Nat)
  | settle (i : Nat) (success : Bool)

/-- Take the receipt at place `i` out of the queue. -/
def Ledger.take (s : Ledger) (i : Nat) : Ledger := { s with receipts := s.receipts.eraseIdx i }

def step (d : Deployment) (s : Ledger) : Action → Option Ledger
  | .advance blocks => some { s with block_height := s.block_height + blocks }
  | .call caller deposit spare c =>
    -- the gate calls itself only by executing a call it dispatched
    if caller ≠ d.gate_id ∧ GAS_YIELD_CALLBACK + spare ≤ d.max_prepaid_gas then
      some (s.call d caller deposit spare c).1
    else none
  | .timeout y =>
    match s.yields.lookup y with
    | some w => some (s.time_out y w)
    | none => none
  | .run_callback i burnt =>
    match s.receipts[i]? with
    | some ⟨.callback _ args gas signal, batch, _⟩ =>
      if burnt ≤ gas then some ((s.take i).run_callback d batch args gas burnt signal) else none
    | _ => none
  | .execute i spare success =>
    match s.receipts[i]? with
    | some ⟨.target_call id call and_then false, batch, created⟩ =>
      if call.receiver = d.gate_id → GAS_YIELD_CALLBACK + spare ≤ d.max_prepaid_gas then
        some ((s.take i).execute d ⟨.target_call id call and_then false, batch, created⟩
          id call and_then spare success)
      else none
    | _ => none
  | .finish i success =>
    match s.receipts[i]? with
    | some ⟨.target_call id _ and_then true, batch, _⟩ =>
      some ((s.take i).finish batch id and_then success)
    | _ => none
  | .run_continue i =>
    match s.receipts[i]? with
    | some ⟨.continue_chain next_id next_seq, batch, _⟩ =>
      some ((s.take i).run_continue d batch next_id next_seq)
    | _ => none
  | .settle i success =>
    match s.receipts[i]? with
    | some ⟨.transfer to_id amount, _, _⟩ => some ((s.take i).settle d to_id amount success)
    | _ => none

/-- A state some run from some initial state reaches. -/
def Reachable (d : Deployment) (s : Ledger) : Prop :=
  ∃ owner_id approver_id balance block_height,
    Runs.Run (step d) Runs.anyAction (Ledger.init owner_id approver_id balance block_height) s

namespace Reachable

variable {d : Deployment} {s s' : Ledger}

theorem step {a : Action} (h : Reachable d s) (hst : SequentialNear.step d s a = some s') :
    Reachable d s' := by
  obtain ⟨owner_id, approver_id, balance, block_height, hrun⟩ := h
  exact ⟨owner_id, approver_id, balance, block_height, hrun.tail trivial hst⟩

theorem run {G : Ledger → Action → Prop} (h : Reachable d s)
    (hrun : Runs.Run (SequentialNear.step d) G s s') : Reachable d s' := by
  obtain ⟨owner_id, approver_id, balance, block_height, hrun₀⟩ := h
  exact ⟨owner_id, approver_id, balance, block_height,
    hrun₀.trans (hrun.mono fun _ _ _ => trivial)⟩

end Reachable

end SequentialNear
