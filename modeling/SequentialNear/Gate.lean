/-
`contracts/gate/src/lib.rs` and `types.rs`: the gate contract, method by method.

A method is a pure function from what `env::` returns during the call ([`Env`])
and the contract state to either the panic text or an [`Outcome`]: the new
state, the one promise-level action the method asks the runtime for, and the
log lines. A panic carries no state because the runtime reverts a panicking
receipt whole. What the runtime then does with the action is `Ledger.lean`.

The release profile sets `overflow-checks = true`, so every `+= 1` below goes
through [`increment`]. The JSON codecs of callback arguments and resume
signals are taken to round-trip, so both are carried as values.
-/
import SequentialNear.Nep366
import Mathlib.Data.List.AList
import Mathlib.Data.Finset.Basic

set_option autoImplicit false

namespace SequentialNear

open Borsh Nep366

/-- A storage map. Keys are unique by construction. -/
abbrev Map (κ ν : Type) := AList fun _ : κ => ν

/-- A `Vec` on the 32-bit wasm target: its length is a `usize`, so `len() as u32`
loses nothing. -/
structure Vec (α : Type) where
  toList : List α
  length_lt : toList.length < 2 ^ 32
deriving DecidableEq

/-! ## `types.rs` -/

/-- The data id behind a `near_sdk::YieldId`. -/
abbrev YieldId := Nat

/-- What is stored per intent while it is yielded. -/
structure PendingIntent where
  yield_id : YieldId
  sender : AccountId
  receiver_id : AccountId
  method : String
  args : Bytes
  deposit : U128
  gas : U64
  nonce : U64
  expires_at_block : U64
  submitted_at_block : Nat
deriving DecidableEq

/-- The payload `yield_id.resume(...)` delivers to `on_intent_resumed`. -/
structure ResumeSignal where
  approve : Bool
  sequence_number : Option Nat
  next_intent_id : Option Nat
deriving DecidableEq, Repr

/-- What `Promise::new(receiver).function_call(method, args, deposit, gas)` asks for. -/
structure FunctionCall where
  receiver : AccountId
  method : String
  args : Bytes
  deposit : U128
  gas : U64
deriving DecidableEq

/-- The arguments `submit_intent` bakes into the yield's callback. -/
structure CallbackArgs extends FunctionCall where
  intent_id : Nat
deriving DecidableEq

/-- `near_sdk::PromiseError`, as a timed-out yield delivers it. -/
inductive PromiseError
  | Failed
deriving DecidableEq, Repr

/-! ## The environment of a call, and what a call asks for -/

/-- What the `env::` functions and the yield host functions answer during one
receipt's execution. -/
structure Env where
  current_account_id : AccountId
  predecessor_account_id : AccountId
  attached_deposit : Nat
  block_height : Nat
  /-- The data id the next `Promise::new_yield` returns. -/
  new_yield_id : YieldId
  /-- Whether `YieldId::resume` would find this yield. -/
  yield_is_open : YieldId → Bool

/-- The promise-level action of a call; every method makes at most one. -/
inductive HostAction
  | none
  /-- `Promise::new_yield("on_intent_resumed", args, GAS_YIELD_CALLBACK, ..)`. -/
  | new_yield (args : CallbackArgs)
  /-- `yield_id.resume(signal)`. -/
  | resume (yield_id : YieldId) (signal : ResumeSignal)
  /-- A dispatched call, with the `continue_chain(next_id, next_seq)` that is
  `.then`-chained to it, if any. -/
  | function_call (intent_id : Nat) (call : FunctionCall) (and_then : Option (Nat × Nat))
  | transfer (to_id : AccountId) (amount : Nat)
deriving DecidableEq

/-- `require!`. -/
def require (cond : Prop) [Decidable cond] (msg : String) : Except String Unit :=
  if cond then .ok () else .error msg

/-- `a + b` on a `bits`-wide unsigned integer, with `overflow-checks` on. -/
def checked_add (bits a b : Nat) (msg : String) : Except String Nat :=
  if a + b < 2 ^ bits then .ok (a + b) else .error msg

/-- `n += 1` on a `u64` counter. -/
def increment (n : Nat) : Except String Nat :=
  checked_add 64 n 1 "attempt to add with overflow"

/-- A JSON string literal whose content is written out as it is. -/
def quoted (s : String) : String := "\"" ++ s ++ "\""

/-- `emit_trace`: the log line `trace:` followed by the object with these
already-rendered members. -/
def emit_trace (members : List (String × String)) : String :=
  "trace:\x7b" ++ ",".intercalate (members.map fun m => quoted m.1 ++ ":" ++ m.2) ++ "\x7d"

/-- `env::log_str` of the only line a receipt logs: the host traps on one that is too
long. Of the lines below only a submission's is checked: a dispatch's is no longer than
its submission's (`dispatched_line_le`), the others are made of account ids and numbers. -/
def log_str (host : Host) (line : String) : Except String Unit :=
  require (line.utf8ByteSize ≤ host.max_total_log_length)
    ("The length of a log message " ++ toString line.utf8ByteSize ++ " exceeds the limit " ++
      toString host.max_total_log_length)

def renderOption (n : Option Nat) : String :=
  match n with
  | some n => toString n
  | none => "null"

/-- The line that `submit_intent` logs. -/
def submitted_line (id : Nat) (delegate : DelegateAction) (method : String) : String :=
  emit_trace [("ev", quoted "intent_submitted"), ("id", toString id),
    ("sender", quoted delegate.sender_id.id), ("receiver", quoted delegate.receiver_id.id),
    ("method", quoted method), ("nonce", toString delegate.nonce.val)]

/-- The line that `on_intent_resumed` logs with a dispatch. -/
def dispatched_line (a : CallbackArgs) (s : ResumeSignal) : String :=
  emit_trace [("ev", quoted "intent_dispatched"), ("id", toString a.intent_id),
    ("receiver", quoted a.receiver.id), ("method", quoted a.method),
    ("seq", renderOption s.sequence_number)]

/-! ## The contract state -/

def GAS_YIELD_CALLBACK : Nat := 200000000000000
def GAS_CONTINUE_CHAIN : Nat := 60000000000000

/-- Caps are inclusive batch sizes, amounts are yocto-NEAR. -/
def DEFAULT_FEE_TIERS : List (Nat × Nat) :=
  [(3, 30000000000000000000000),
   (6, 50000000000000000000000),
   (12, 60000000000000000000000)]

structure Gate where
  owner_id : AccountId
  approver_id : AccountId
  relayers : Finset AccountId
  pending : Map Nat PendingIntent
  used_nonces : Map String Nat
  next_intent_id : Nat
  intents_submitted : Nat
  intents_dispatched : Nat
  intents_rejected : Nat
  batch_chain_tail : List Nat
  active_batch_id : Nat
  fee_tiers : List (Nat × Nat)
  fees_collected_total : Nat
  fees_withdrawn_total : Nat

structure Outcome where
  gate : Gate
  action : HostAction
  logs : List String

namespace Gate

def new (owner_id approver_id : AccountId) : Gate where
  owner_id := owner_id
  approver_id := approver_id
  relayers := ∅
  pending := ∅
  used_nonces := ∅
  next_intent_id := 0
  intents_submitted := 0
  intents_dispatched := 0
  intents_rejected := 0
  batch_chain_tail := []
  active_batch_id := 0
  fee_tiers := DEFAULT_FEE_TIERS
  fees_collected_total := 0
  fees_withdrawn_total := 0

/-! ## Owner-gated management -/

section Owner

variable (env : Env) (g : Gate)

def assert_owner : Except String Unit :=
  require (env.predecessor_account_id = g.owner_id) "owner-only"

def add_relayer (account_id : AccountId) : Except String Outcome := do
  g.assert_owner env
  return {
    gate := { g with relayers := insert account_id g.relayers }
    action := .none
    logs := [emit_trace [("ev", quoted "relayer_added"), ("account", quoted account_id.id)]] }

def remove_relayer (account_id : AccountId) : Except String Outcome := do
  g.assert_owner env
  return {
    gate := { g with relayers := g.relayers.erase account_id }
    action := .none
    logs := [emit_trace [("ev", quoted "relayer_removed"), ("account", quoted account_id.id)]] }

def set_approver (approver_id : AccountId) : Except String Outcome := do
  g.assert_owner env
  return {
    gate := { g with approver_id := approver_id }
    action := .none
    logs := [emit_trace [("ev", quoted "approver_set"), ("account", quoted approver_id.id)]] }

/-- The validation loop of `set_fee_tiers`; returns the last `prev_cap`. -/
def check_caps : Nat → List (Nat × Nat) → Except String Nat
  | prev_cap, [] => .ok prev_cap
  | prev_cap, (cap, _) :: tiers => do
    -- the amounts are the owner's business: only the caps are checked
    require (0 < cap) "fee tier cap must be > 0"
    require (prev_cap < cap) "fee tier caps must be strictly ascending"
    check_caps cap tiers

def set_fee_tiers (tiers : List (Nat × Nat)) : Except String Outcome := do
  g.assert_owner env
  require (tiers ≠ []) "fee tiers must be non-empty"
  let max_cap ← check_caps 0 tiers
  return {
    gate := { g with fee_tiers := tiers }
    action := .none
    logs := [emit_trace [("ev", quoted "fee_tiers_set"),
      ("tiers_len", toString tiers.length), ("max_cap", toString max_cap)]] }

def withdraw_fees (amount : Nat) (to_id : AccountId) : Except String Outcome := do
  g.assert_owner env
  -- `checked_sub(..).unwrap_or(0)` is truncated subtraction
  let available := g.fees_collected_total - g.fees_withdrawn_total
  require (amount ≤ available)
    ("insufficient fee balance: requested " ++ toString amount ++
      ", available " ++ toString available)
  let withdrawn ← checked_add 128 g.fees_withdrawn_total amount "fees_withdrawn_total overflow"
  return {
    gate := { g with fees_withdrawn_total := withdrawn }
    action := .transfer to_id amount
    logs := [emit_trace [("ev", quoted "fees_withdrawn"),
      ("amount", quoted (toString amount)), ("to", quoted to_id.id)]] }

def reset_batch_tail : Except String Outcome := do
  g.assert_owner env
  return {
    gate := { g with batch_chain_tail := [] }
    action := .none
    logs := [emit_trace [("ev", quoted "batch_tail_reset"),
      ("cleared", toString g.batch_chain_tail.length)]] }

end Owner

/-! ## Fees -/

/-- Smallest tier whose cap is at least `n`: the first one in ladder order. -/
def fee_for (g : Gate) (n : Nat) : Except String (Nat × Nat) := do
  require (g.fee_tiers ≠ []) "fee tiers not configured"
  match g.fee_tiers.find? fun tier => n ≤ tier.1 with
  | some tier => return tier
  | none =>
    let max_cap := (g.fee_tiers.getLast?.map (·.1)).getD 0
    throw ("batch size " ++ toString n ++ " exceeds max fee tier (" ++ toString max_cap ++ ")")

/-- Charge the fee of a batch of `n`; returns the new state and the log line. -/
def charge_fee (env : Env) (g : Gate) (n : Nat) : Except String (Gate × String) := do
  let (tier_cap, required) ← g.fee_for n
  -- what is attached beyond the tier stays with the contract, and is not counted
  require (required ≤ env.attached_deposit)
    ("insufficient fee: required " ++ toString required ++ " yocto for batch of " ++
      toString n ++ ", got " ++ toString env.attached_deposit)
  let collected ← checked_add 128 g.fees_collected_total required "fees_collected_total overflow"
  return ({ g with fees_collected_total := collected },
    emit_trace [("ev", quoted "fee_charged"), ("n", toString n),
      ("amount", quoted (toString required)), ("tier_cap", toString tier_cap)])

/-! ## Submission -/

/-- `format!("{}|{}", delegate.sender_id, delegate.nonce)`. -/
def nonce_key (delegate : DelegateAction) : String :=
  delegate.sender_id.id ++ "|" ++ toString delegate.nonce.val

/-- The callback arguments packed for intent `intent_id`. -/
def callback_args (intent_id : Nat) (delegate : DelegateAction) (fc : FunctionCallAction) :
    CallbackArgs where
  intent_id := intent_id
  receiver := delegate.receiver_id
  method := fc.method_name
  args := fc.args
  deposit := fc.deposit
  gas := fc.gas

/-- The record stored under `pending`. -/
def pending_intent (env : Env) (delegate : DelegateAction) (fc : FunctionCallAction) :
    PendingIntent where
  yield_id := env.new_yield_id
  sender := delegate.sender_id
  receiver_id := delegate.receiver_id
  method := fc.method_name
  args := fc.args
  deposit := fc.deposit
  gas := fc.gas
  nonce := delegate.nonce
  expires_at_block := delegate.max_block_height
  submitted_at_block := env.block_height

/-- `signed_delegate` is the base64-decoded argument. -/
def submit_intent (host : Host) (env : Env) (g : Gate) (signed_delegate : Bytes) :
    Except String Outcome := do
  require (env.predecessor_account_id ∈ g.relayers) "caller is not a whitelisted relayer"
  let signed ← (SignedDelegateAction.try_from_slice host signed_delegate).mapError
    ("invalid SignedDelegateAction: " ++ ·)
  require (signed.verify host = true) "signature verification failed"
  let delegate := signed.delegate_action
  require (env.block_height < delegate.max_block_height.val)
    "intent expired (max_block_height <= current block)"
  -- one nonce per sender, whatever the target and the key
  require (nonce_key delegate ∉ g.used_nonces)
    "nonce already used for this sender (replay rejected)"
  let fc ← delegate.require_single_function_call
  let intent_id := g.next_intent_id
  let next_intent_id ← increment g.next_intent_id
  let intents_submitted ← increment g.intents_submitted
  let line := submitted_line intent_id delegate fc.method_name
  log_str host line
  return {
    gate := { g with
      next_intent_id := next_intent_id
      used_nonces := g.used_nonces.insert (nonce_key delegate) env.block_height
      intents_submitted := intents_submitted
      pending := g.pending.insert intent_id (pending_intent env delegate fc) }
    action := .new_yield (callback_args intent_id delegate fc)
    logs := [line] }

/-! ## Approver-gated resume -/

/-- `self.pending.remove(&id).unwrap_or_else(panic)`. -/
def take_pending (g : Gate) (id : Nat) (msg : String) : Except String (PendingIntent × Gate) :=
  match g.pending.lookup id with
  | some p => .ok (p, { g with pending := g.pending.erase id })
  | none => .error msg

def resume_intent (env : Env) (g : Gate) (intent_id : Nat) (approve : Bool) :
    Except String Outcome := do
  require (env.predecessor_account_id = g.approver_id) "only approver can resume"
  let (g, fee_log) ← g.charge_fee env 1
  let (pending, g) ← g.take_pending intent_id "unknown intent_id"
  let signal : ResumeSignal := { approve, sequence_number := none, next_intent_id := none }
  require (env.yield_is_open pending.yield_id = true) "resume failed (not found or expired)"
  return {
    gate := g
    action := .resume pending.yield_id signal
    logs := [fee_log, emit_trace [("ev", quoted "intent_resumed"),
      ("id", toString intent_id), ("approve", toString approve)]] }

/-- The pre-validation loop of `resume_batch_chained`. -/
def check_known (g : Gate) : List Nat → Except String Unit
  | [] => .ok ()
  | id :: ids => do
    require (id ∈ g.pending) ("unknown intent_id " ++ toString id ++ " in batch")
    check_known g ids

def resume_batch_chained (env : Env) (g : Gate) (intent_ids : Vec Nat) :
    Except String Outcome := do
  require (env.predecessor_account_id = g.approver_id) "only approver can batch-resume"
  match intent_ids.toList with
  | [] => throw "batch must not be empty"
  | first_id :: rest =>
    require (g.batch_chain_tail = [])
      "a chained batch is already in flight; owner must reset_batch_tail if stuck"
    let n := (first_id :: rest).length
    -- one fee for the whole list
    let (g, fee_log) ← g.charge_fee env n
    -- every id by itself, before the first one is taken out
    check_known g (first_id :: rest)
    let batch_id ← increment g.active_batch_id
    let g := { g with active_batch_id := batch_id, batch_chain_tail := rest }
    let next_for_first := g.batch_chain_tail.head?
    let (pending, g) ← g.take_pending first_id "unknown intent_id for first in batch"
    let signal : ResumeSignal :=
      { approve := true, sequence_number := some 0, next_intent_id := next_for_first }
    require (env.yield_is_open pending.yield_id = true)
      "resume failed for first (not found or expired)"
    return {
      gate := g
      action := .resume pending.yield_id signal
      logs := [fee_log, emit_trace [("ev", quoted "batch_started"),
        ("batch_id", toString batch_id), ("n", toString n), ("first_id", toString first_id)]] }

/-! ## Private callbacks

The generated `#[private]` check sits in [`GateCall.run`], with the other checks
of near-sdk's method wrappers. -/

def continue_chain (env : Env) (g : Gate) (next_id next_seq : Nat) : Except String Outcome := do
  match g.batch_chain_tail with
  | [] => throw "batch_chain_tail empty but expected next_id"
  | popped :: rest =>
    -- the head of the tail is all that is compared: neither a batch nor a position
    require (popped = next_id) "chain tail mismatch (state drifted from expected next_id)"
    let g := { g with batch_chain_tail := rest }
    let (pending, g) ← g.take_pending next_id "unknown next_id in continue_chain"
    let signal : ResumeSignal :=
      { approve := true, sequence_number := some next_seq,
        next_intent_id := g.batch_chain_tail.head? }
    require (env.yield_is_open pending.yield_id = true) "resume failed in continue_chain"
    return {
      gate := g
      action := .resume pending.yield_id signal
      logs := [emit_trace [("ev", quoted "chain_continued"), ("next_id", toString next_id),
        ("next_seq", toString next_seq), ("tail_remaining", toString rest.length)]] }

/-- `seq.map(|s| s + 1).unwrap_or(1)`. -/
def next_seq (seq : Option Nat) : Except String Nat :=
  match seq with
  | some s => checked_add 32 s 1 "attempt to add with overflow"
  | none => .ok 1

/-- The `.then` target of a dispatch, if the signal names a next intent. -/
def chained_call (s : ResumeSignal) : Except String (Option (Nat × Nat)) :=
  match s.next_intent_id with
  | some next_id => do
    let seq ← next_seq s.sequence_number
    return some (next_id, seq)
  | none => .ok none

def on_intent_resumed (g : Gate) (a : CallbackArgs)
    (signal : Except PromiseError ResumeSignal) : Except String Outcome := do
  -- defensive cleanup: the resume paths have removed the entry, the timeout path has not
  let g := { g with pending := g.pending.erase a.intent_id }
  match signal with
  | .error e =>
    -- nobody resumed the yield in time
    let rejected ← increment g.intents_rejected
    return {
      gate := { g with intents_rejected := rejected }
      action := .none
      logs := [emit_trace [("ev", quoted "intent_resolved_err"), ("id", toString a.intent_id),
        ("reason", quoted "timeout"), ("detail", quoted (match e with | .Failed => "Failed"))]] }
  | .ok s =>
    if s.approve = false then
      let rejected ← increment g.intents_rejected
      return {
        gate := { g with intents_rejected := rejected }
        action := .none
        logs := [emit_trace [("ev", quoted "intent_resolved_err"), ("id", toString a.intent_id),
          ("reason", quoted "rejected")]] }
    else
      -- counted here, and taken back with the receipt if the call cannot be created
      let dispatched ← increment g.intents_dispatched
      let and_then ← chained_call s
      return {
        gate := { g with intents_dispatched := dispatched }
        action := .function_call a.intent_id a.toFunctionCall and_then
        logs := [dispatched_line a s] }

end Gate

/-! ## The contract's entry points -/

/-- A call of a gate method with its decoded arguments. The `get_*`, `is_*`,
`list_*` and `stats` views are one constructor: they return without a write. -/
inductive GateCall
  | add_relayer (account_id : AccountId)
  | remove_relayer (account_id : AccountId)
  | set_approver (approver_id : AccountId)
  | set_fee_tiers (tiers : List (Nat × Nat))
  | withdraw_fees (amount : Nat) (to_id : AccountId)
  | reset_batch_tail
  | submit_intent (signed_delegate : Bytes)
  | resume_intent (intent_id : Nat) (approve : Bool)
  | resume_batch_chained (intent_ids : Vec Nat)
  | continue_chain (next_id next_seq : Nat)
  | on_intent_resumed (args : CallbackArgs)
  | view
deriving DecidableEq

/-- The check near-sdk generates for a method without `#[payable]`. -/
def assert_no_deposit (method : String) (env : Env) : Except String Unit :=
  require (env.attached_deposit = 0) ("Method " ++ method ++ " doesn't accept deposit")

/-- The check near-sdk generates for `#[private]`. -/
def assert_private (method : String) (env : Env) : Except String Unit :=
  require (env.predecessor_account_id = env.current_account_id)
    ("Method " ++ method ++ " is private")

/-- The generated wrapper of each method, then the method. -/
def GateCall.run (host : Host) (env : Env) (g : Gate) : GateCall → Except String Outcome
  | .add_relayer a => do assert_no_deposit "add_relayer" env; g.add_relayer env a
  | .remove_relayer a => do assert_no_deposit "remove_relayer" env; g.remove_relayer env a
  | .set_approver a => do assert_no_deposit "set_approver" env; g.set_approver env a
  | .set_fee_tiers tiers => do
    assert_no_deposit "set_fee_tiers" env
    g.set_fee_tiers env tiers
  | .withdraw_fees amount to_id => do
    assert_no_deposit "withdraw_fees" env
    g.withdraw_fees env amount to_id
  | .reset_batch_tail => do assert_no_deposit "reset_batch_tail" env; g.reset_batch_tail env
  | .submit_intent b => do assert_no_deposit "submit_intent" env; g.submit_intent host env b
  -- the two payable methods
  | .resume_intent id approve => g.resume_intent env id approve
  | .resume_batch_chained ids => g.resume_batch_chained env ids
  | .continue_chain id seq => do
    assert_private "continue_chain" env
    assert_no_deposit "continue_chain" env
    g.continue_chain env id seq
  | .on_intent_resumed _ => do
    assert_private "on_intent_resumed" env
    assert_no_deposit "on_intent_resumed" env
    -- `#[callback_result]` of a call that is not a callback: there is no result to read
    throw "promise result is not available"
  | .view => return { gate := g, action := .none, logs := [] }

end SequentialNear
