/-
`contracts/register/src/lib.rs`: the demo target, and a deployment that uses it.

The register keeps its last value and everything it was ever set to, so one view
tells in which order the gate dispatched. [`Register.replay_sets`] is that fact:
a run of `set` calls is recovered from the state it leaves.

The second half is a gate, a register and the accounts around them, with real
keys: `alice.test` signs delegates over NEP-366 messages. The hash and the
signature functions are tabulated at the messages that occur, which is all the
model asks of them. Later files run the ledger on it.
-/
import SequentialNear.Ledger

set_option autoImplicit false

namespace SequentialNear

open Borsh Nep366

/-! ## The contract -/

structure Register where
  current : Nat
  log : List Nat
  set_count : Nat
deriving DecidableEq

/-- A state-changing call of the register. -/
inductive RegisterCall
  | set (value : U64)
  | reset
deriving DecidableEq

namespace Register

/-- `#[derive(Default)]`. -/
def default : Register := ⟨0, [], 0⟩

/-- Overwrite `current`, append to `log`, increment the `u32` `set_count`. -/
def set (r : Register) (value : U64) : Except String Register := do
  let set_count ← checked_add 32 r.set_count 1 "attempt to add with overflow"
  return { current := value.val, log := r.log ++ [value.val], set_count := set_count }

def get (r : Register) : Nat × List Nat × Nat := (r.current, r.log, r.set_count)

def reset (_ : Register) : Except String Register := .ok default

def run (r : Register) : RegisterCall → Except String Register
  | .set value => r.set value
  | .reset => r.reset

/-- The register after these calls, each of which must return. -/
def replay (r : Register) (calls : List RegisterCall) : Except String Register :=
  calls.foldlM run r

/-- **What a run of `set` calls leaves**: their values, in order, at the end of the
log, and the last of them as the current value. -/
theorem replay_sets (r : Register) (values : List U64) (hcount : r.set_count + values.length < 2 ^ 32) :
    r.replay (values.map .set) = .ok
      { current := ((values.map (·.val)).getLast?).getD r.current
        log := r.log ++ values.map (·.val)
        set_count := r.set_count + values.length } := by
  induction values generalizing r with
  | nil =>
    simp only [List.map_nil, List.getLast?_nil, Option.getD_none, List.append_nil,
      List.length_nil, Nat.add_zero]
    rfl
  | cons v values ih =>
    simp only [List.length_cons] at hcount ⊢
    have hset : r.set v = .ok ⟨v.val, r.log ++ [v.val], r.set_count + 1⟩ := by
      unfold set checked_add
      rw [if_pos (by omega)]
      rfl
    have hstep : r.replay ((v :: values).map .set) =
        replay ⟨v.val, r.log ++ [v.val], r.set_count + 1⟩ (values.map .set) := by
      simp only [replay, List.map_cons, List.foldlM_cons, run, hset]
      rfl
    -- one `set` done: the rest of the run starts from the register it leaves
    rw [hstep, ih _ (by simp only; omega)]
    simp only [List.map_cons, List.append_assoc, List.singleton_append, List.getLast?_cons,
      Option.getD_some, Nat.add_assoc, Nat.add_comm 1]

/-- The order of the values shows: two lists of `set` calls leave the same
register only when they are the same list. -/
theorem replay_sets_inj {r : Register} {values values' : List U64}
    (h : r.set_count + values.length < 2 ^ 32) (h' : r.set_count + values'.length < 2 ^ 32)
    (heq : r.replay (values.map .set) = r.replay (values'.map .set)) : values = values' := by
  rw [replay_sets r values h, replay_sets r values' h', Except.ok.injEq, Register.mk.injEq] at heq
  -- the logs agree, and they start with the same old entries
  have hlog := List.append_cancel_left heq.2.1
  exact List.map_injective_iff.2 (fun _ _ => Fin.ext) hlog

end Register

/-! ## A deployment -/

namespace Demo

def gate_id : AccountId := ⟨"gate.test"⟩
def owner : AccountId := ⟨"owner.test"⟩
def approver : AccountId := ⟨"approver.test"⟩
def relayer : AccountId := ⟨"relayer.test"⟩
def alice : AccountId := ⟨"alice.test"⟩
def register : AccountId := ⟨"register.test"⟩

/-- A key or signature from its little-endian value. -/
def bytes (n x : Nat) : List.Vector UInt8 n := ⟨toLE n x, toLE_length n x⟩

def public_key : Ed25519PublicKey :=
  ⟨bytes 32 0x508a2dbd0c72d7d4d8a18ce0123568574efe7344e65ecf764f2b889cc018ce0c⟩

/-- A delegate by alice that makes one call. -/
def delegate (nonce : U64) (receiver : AccountId) (method args : String) (gas : U64)
    (max_block_height : U64) : DelegateAction where
  sender_id := alice
  receiver_id := receiver
  actions := [.FunctionCall ⟨method, args.toByteArray.toList, gas, 0⟩]
  nonce := nonce
  max_block_height := max_block_height
  public_key := public_key

def set11 := delegate 1 register "set" "\x7b\"value\":\"11\"\x7d" 30000000000000 1000000
def set22 := delegate 2 register "set" "\x7b\"value\":\"22\"\x7d" 30000000000000 1000000
def set33 := delegate 3 register "set" "\x7b\"value\":\"33\"\x7d" 30000000000000 1000000
/-- Addressed to the gate itself. -/
def forged := delegate 4 gate_id "continue_chain" "\x7b\"next_id\":\"1\",\"next_seq\":9\x7d"
  30000000000000 1000000
/-- Asks for all the gas a `u64` can name. -/
def greedy := delegate 5 register "set" "\x7b\"value\":\"55\"\x7d" 18446744073709551615
  1000000
/-- Expires early. -/
def short_lived := delegate 6 register "set" "\x7b\"value\":\"66\"\x7d" 30000000000000 105

/-- Each delegate with its message hash and its signature. -/
def table : List (DelegateAction × Nat × Nat) :=
  [(set11, 0xcf6f25e8e1788186ef5f56bb54dbb145ab8124e66a93142d28a96d6ae320b80,
    0xe31b2abfebe12807c574e66c90780257ec52ab50a3f3a63ffb0d6d834ade01cd10ac78102b829bc324fdf1b8d248f9dbb220865ab3a3dfbff925e5504fcac94),
   (set22, 0x446d07780a9f0e2d8a4cb08208502e86a72ef9c13e8cf6235a7aa15de6b021d8,
    0x61528897509292a9966e56f9b57c3da6f275109eff5422caa6ee93d9bb6d0cb5f5c27bb2fd2bcf2a45513156bd2963601dd9d62f005b29c37b7a90f1c494376),
   (set33, 0x2a316eaad35054c758a9c20b59873136db72494c2b3dc45e6d264409f43788da,
    0x688ba0625cd942a39337f65a1e291d6cf33c88ddc6866e282543a57d69c87a656f9c5fbce3a154079b20635c5d56bd8f50fd16954629b83e9cadbfef96f65f6),
   (forged, 0x2028a62e2a8699ac1c78902982f22c05b01750f7185f18577129527b875072d3,
    0x918b6586fdcc3000a9ff9427e716c2964ae4638903f2ece7a67ad9b8fae19e38a99764a17a8dfb93f4f6e02bc08fff7617eddcf7b9dd80adba768e3719be8ca),
   (greedy, 0xccd715ba2cc57bf583364715a81668d0f9d68897a33c170d4c0b084d136851f9,
    0x4b9775b02751a903f10b590b90c800820887dca7a184712a9c0c0932e76b1574623277c506196573eb6804e2b5d38b9e44a73f0cb2f080fab07de91268dd09c),
   (short_lived, 0x7d7214876b87fc0616a92ffde90af177e6674c4989dc59f4edebd88b928a1807,
    0xab1fe13a599dd831bdc5b6f52cd3281bd7f711968076bacefbb2584acf1fc512a2cbf3e318aa89947e4eebb70889ff28f420037c8891fd8c94093ff86695d1a)]

def host : Host where
  sha256 m := match table.find? (fun e => e.1.signed_message = m) with
    | some e => toLE 32 e.2.1
    | none => []
  ed25519_verify sig msg pk := table.any fun e =>
    sig = toLE 64 e.2.2 ∧ msg = toLE 32 e.2.1 ∧ pk = public_key.bytes.toList
  is_valid_account_id s := s ∈ ["gate.test", "alice.test", "register.test"]
  parse_account_error _ := "the Account ID contains an invalid character"
  max_total_log_length := 16384

/-- The delegate with its signature, as the relayer submits it. -/
def signed (d : DelegateAction) : Bytes :=
  match table.find? (fun e => e.1 = d) with
  | some e => (SignedDelegateAction.mk d ⟨bytes 64 e.2.2⟩).serialize
  | none => []

def deployment : Deployment where
  host := host
  gate_id := gate_id
  decode_call method args :=
    if method = "continue_chain" ∧
        args = "\x7b\"next_id\":\"1\",\"next_seq\":9\x7d".toByteArray.toList then
      some (.continue_chain 1 9)
    else none
  max_prepaid_gas := 300000000000000
  admits _ gas_left call and_then :=
    -- the limits on a method name and its arguments, and a bound on the fees of the actions
    0 < call.method.utf8ByteSize ∧ call.method.utf8ByteSize ≤ 256 ∧
      call.args.length ≤ 4194304 ∧ (HostAction.function_call 0 call and_then).gas +
        10000000000000 ≤ gas_left

/-- The deployment in which alice has signed one delegate more. -/
def deployment_with (extra : DelegateAction) (hash signature : Nat) : Deployment :=
  { deployment with host := { host with
      sha256 := fun m => if m = extra.signed_message then toLE 32 hash else host.sha256 m
      ed25519_verify := fun sig msg pk =>
        decide (sig = toLE 64 signature ∧ msg = toLE 32 hash ∧ pk = public_key.bytes.toList) ||
          host.ed25519_verify sig msg pk } }

/-- The fresh gate, with five NEAR. -/
def start : Ledger := Ledger.init owner approver 5000000000000000000000000 100

/-- The fee of a batch of up to three. -/
def FEE : Nat := 30000000000000000000000

/-- The relayer submits these delegates, which become intents `0`, `1`, ... -/
def submissions (delegates : List DelegateAction) : List Action :=
  .call owner 0 0 (.add_relayer relayer) ::
    delegates.map fun d => .call relayer 0 0 (.submit_intent (signed d))

/-- The first two of them. -/
def first_two : Vec Nat := ⟨[0, 1], by decide⟩

/-- One chain step of the only receipt in flight: its callback, its target call,
each in the block after the one that made it runnable. -/
def deliver : List Action :=
  [.advance 1, .run_callback 0 0, .advance 1, .execute 0 0 true, .finish 0 true]

instance (s : Ledger) (a : Action) : Decidable (Runs.anyAction s a) := isTrue trivial

end Demo

end SequentialNear
