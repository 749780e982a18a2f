/-
`cmdSequence` from its batch to the verdict it writes.

The script resolves an order, submits one intent for each place of it, resumes them as
one batch in that order, waits, reads the target and compares. The pieces are in other
files: the order in `Permutation.lean`, the batch in `WorldBatch.lean`, the comparison
in `Verdict.lean`; how the intents come to be open is in `Submissions.lean` and
`Script.lean`. [`SequenceRun`] is what they have in common whatever the target, and
[`SequenceRun.target`] what becomes of it. Then they meet at the two demo contracts, each
on its own account ([`Register.receiver`], [`FtShim.receiver`]): the verdict is a match,
and it is so because the contract holds what it was to hold.
-/
import SequentialNear.WorldBatch
import SequentialNear.Verdict
import SequentialNear.Permutation

set_option autoImplicit false

namespace SequentialNear

open Borsh Nep366 Runs

/-! ## The intents the script submits -/

/-- The members' calls, in the order in which they are resumed. -/
theorem Gate.calls_at_forall {g : Gate} {account_id : AccountId} {submits order ids : List Nat}
    {R : Nat → FunctionCall → Prop} (hpick : order.map (submits[·]?) = ids.map some)
    (hR : ∀ i id, submits[i]? = some id →
      ∃ call ∈ g.call_of id, call.receiver = account_id ∧ R i call) :
    List.Forall₂ R order (g.calls_at account_id ids) := by
  induction order generalizing ids with
  | nil =>
    obtain rfl : ids = [] := List.map_eq_nil_iff.1 hpick.symm
    exact .nil
  | cons i order ih =>
    cases ids with
    | nil => cases hpick
    | cons id ids =>
      rw [List.map_cons, List.map_cons, List.cons.injEq] at hpick
      obtain ⟨call, hcall, hrecv, hcallR⟩ := hR i id hpick.1
      have hhead : g.calls_at account_id (id :: ids) = call :: g.calls_at account_id ids := by
        rw [calls_at, List.filterMap_cons_some hcall,
          List.filter_cons_of_pos (by simpa using hrecv), calls_at]
      rw [hhead]
      exact .cons hcallR (ih hpick.2)

/-- A run of `cmdSequence` for the order `p` of `n` intents: from `w₀`, where they have
been submitted, the batch is resumed, which leads to `w₁`, and in `w` the target is read.
`intends i call` says that `call` is what the script signs for place `i`. -/
structure SequenceRun {d : Deployment} {σ : Type} (r : Receiver d σ) (t₀ : σ) (n : Nat)
    (p : List Number) (intends : Nat → FunctionCall → Prop) (w₀ w₁ w : World σ) where
  draw : Draws
  spec : PermutationSpec
  /-- The intent ids, in the order of submission. -/
  submits : List Nat
  ids : Vec Nat
  caller : AccountId
  deposit : Nat
  spare : Nat
  resolved : resolvePermutation draw spec n = .ok p
  reachable : World.Reachable d r t₀ w₀
  length : submits.length = n
  nodup : submits.Nodup
  opened : ∀ id ∈ submits, w₀.ledger.Open id
  signed : ∀ i id, submits[i]? = some id →
    ∃ call ∈ w₀.ledger.gate.call_of id, call.receiver = r.account_id ∧ intends i call
  /-- No receipt of an earlier batch is about to resume one of them. -/
  fresh : ∀ f ∈ w₀.ledger.receipts, ∀ k ∈ f.receipt.next, k ∉ submits
  batch : batchIds p (submits.map Int.ofNat) = some (ids.toList.map Int.ofNat)
  resumed : World.step d r w₀ (.gate (.call caller deposit spare (.resume_batch_chained ids))) =
    some w₁
  accepted : (w₀.ledger.call d caller deposit spare (.resume_batch_chained ids)).2 = true
  run : Run (World.step d r) (World.undisturbed d ids.toList) w₁ w
  /-- The last receipt of the batch is gone. -/
  idle : w.ledger.of_batch (w₀.ledger.gate.active_batch_id + 1) = []
  /-- Nobody else has called the target. -/
  alone : w.visits.length = w₀.visits.length + n

/-- The batch that the script sends: the ids of its submissions in the resolved order. -/
theorem batch_of_resolved {draw : Draws} {spec : PermutationSpec} {n : Nat} {p : List Number}
    {submits : List Nat} {ids : Vec Nat} (hp : resolvePermutation draw spec n = .ok p)
    (hlen : submits.length = n) (hnodup : submits.Nodup)
    (hids : batchIds p (submits.map Int.ofNat) = some (ids.toList.map Int.ofNat)) :
    ∃ order, p = numbers order ∧ order.Perm (List.range n) ∧ ids.toList.Nodup ∧
      order.map (submits[·]?) = ids.toList.map some ∧ ∀ id ∈ ids.toList, id ∈ submits := by
  obtain ⟨order, rfl, horder⟩ := resolvePermutation_order hp
  have horder' : order.Perm (List.range (submits.map Int.ofNat).length) := by
    rwa [List.length_map, hlen]
  obtain ⟨batch, hbatch, hperm, hpick⟩ := batchIds_perm horder'
  rw [hids, Option.some.injEq] at hbatch
  subst hbatch
  have hinj : Function.Injective Int.ofNat := fun a b h => Int.ofNat.inj h
  have hpick : order.map (submits[·]?) = ids.toList.map some := by
    refine List.map_injective_iff.2 (Option.map_injective hinj) ?_
    rw [List.map_map, List.map_map]
    simpa only [List.getElem?_map, List.map_map, Function.comp_def, Option.map_some] using hpick
  refine ⟨order, rfl, horder, ?_, hpick, fun id hid => ?_⟩
  · exact List.Nodup.of_map _ ((hperm.nodup_iff).2 (hnodup.map hinj))
  · have hmem := hperm.subset (List.mem_map_of_mem hid)
    obtain ⟨id', hid', heq⟩ := List.mem_map.1 hmem
    exact hinj heq ▸ hid'

/-- **What the run makes of its target**: what the calls make of it that the script signed
for the places of the order, one after the other. -/
theorem SequenceRun.target {d : Deployment} {σ : Type} {r : Receiver d σ} {t₀ : σ} {n : Nat}
    {p : List Number} {intends : Nat → FunctionCall → Prop} {w₀ w₁ w : World σ}
    (h : SequenceRun r t₀ n p intends w₀ w₁ w) :
    ∃ order calls, p = numbers order ∧ order.Perm (List.range n) ∧ n < 2 ^ 32 ∧
      List.Forall₂ intends order calls ∧
      w.target = Attempts.replay r.run w₀.target (calls.map (Visit.by_gate d)) := by
  obtain ⟨order, hp, horder, hnodup, hpick, hsub⟩ :=
    batch_of_resolved h.resolved h.length h.nodup h.batch
  have hcalls := Gate.calls_at_forall hpick h.signed
  have hlength : order.length = n := length_of_permutation horder
  have hn : n < 2 ^ 32 := by
    have hids := congrArg List.length hpick
    rw [List.length_map, List.length_map, hlength] at hids
    exact hids ▸ h.ids.length_lt
  obtain ⟨new, hvisits, htarget, hmembers⟩ := World.batch_sent h.reachable h.resumed h.accepted
    hnodup (fun id hid => h.opened id (hsub id hid))
    (fun f hf k hk hmem => h.fresh f hf k hk (hsub k (List.mem_of_mem_tail hmem))) h.run h.idle
  have hnew := h.alone
  rw [hvisits, List.length_append] at hnew
  have hlen : new.length =
      ((w₀.ledger.gate.calls_at r.account_id h.ids.toList).map (Visit.by_gate d)).length := by
    rw [List.length_map, ← hcalls.length_eq, hlength]
    omega
  refine ⟨order, _, hp, horder, hn, hcalls, ?_⟩
  rw [hmembers.eq_of_length hlen.symm]
  exact htarget

/-! ## The register -/

section Register

variable {d : Deployment} {account_id : AccountId} {apart : account_id ≠ d.gate_id}
  {decode_call : String → Bytes → Option RegisterMethod}

/-- The call sets the register to `value`. -/
structure SetsTo (decode_call : String → Bytes → Option RegisterMethod) (call : FunctionCall)
    (value : U64) : Prop where
  deposit : call.deposit.val = 0
  method : decode_call call.method call.args = some (.write (.set value))

/-- Calls that set the register do, one after the other. -/
theorem Register.run_sets {calls : List FunctionCall} {values : List U64}
    (h : List.Forall₂ (SetsTo decode_call) calls values) (t : Register) :
    (calls.map (Visit.by_gate d)).foldlM
        (fun t v => (Register.receiver d account_id apart decode_call).run v t) t =
      (t.replay (values.map .set)).toOption := by
  induction h generalizing t with
  | nil => rfl
  | @cons call value calls values hcall _ ih =>
    have hrun : (Register.receiver d account_id apart decode_call).run (.by_gate d call) t =
        (t.run (.set value)).toOption := by
      simp only [Receiver.run, Register.receiver, Visit.by_gate, hcall.method, require,
        if_pos hcall.deposit]
      rfl
    rw [List.map_cons, List.foldlM_cons, hrun, List.map_cons, Register.replay, List.foldlM_cons]
    cases t.run (.set value) with
    | error msg => rfl
    | ok u => exact ih u

/-- So they leave their values, in order. -/
theorem Register.replay_visits {calls : List FunctionCall} {values : List U64}
    (h : List.Forall₂ (SetsTo decode_call) calls values) (t : Register)
    (hcount : t.set_count + values.length < 2 ^ 32) :
    Attempts.replay (Register.receiver d account_id apart decode_call).run t
        (calls.map (Visit.by_gate d)) =
      ({ current := ((values.map (·.val)).getLast?).getD t.current
         log := t.log ++ values.map (·.val)
         set_count := t.set_count + values.length } : Register) := by
  refine Attempts.replay_of_run ?_
  rw [Register.run_sets h, Register.replay_sets t values hcount]
  rfl

end Register

/-- `values[index]` as the register parses it. -/
def registerValue (index : Nat) : U64 := Fin.ofNat _ (11 + index * 11)

section FtShim

variable {d : Deployment} {account_id : AccountId} {apart : account_id ≠ d.gate_id}
  {decode_call : String → Bytes → Option FtShimMethod}

/-- The call sends `amount` to `to_id`. -/
structure SendsTo (decode_call : String → Bytes → Option FtShimMethod) (to_id : AccountId)
    (call : FunctionCall) (amount : U128) : Prop where
  deposit : call.deposit.val = 0
  method : decode_call call.method call.args = some (.transfer to_id amount)

/-- Transfers by the gate that it can pay for together are all made. -/
theorem FtShim.run_transfers {owner_id to_id : AccountId} {total : Nat} {s : FtShim}
    (hexact : s.Exact owner_id total) (htotal : total < 2 ^ 128) (hne : d.gate_id ≠ to_id)
    {calls : List FunctionCall} {amounts : List U128}
    (h : List.Forall₂ (SendsTo decode_call to_id) calls amounts)
    (hpos : ∀ amount ∈ amounts, 0 < amount.val)
    (hcovered : (amounts.map (·.val)).sum ≤ s.balance_of d.gate_id) :
    ∃ s', (calls.map (Visit.by_gate d)).foldlM
        (fun t v => (FtShim.receiver d account_id apart decode_call).run v t) s = some s' ∧
      s'.transfer_log = s.transfer_log ++
        amounts.map (fun amount => ⟨d.gate_id, to_id, amount.val⟩) ∧
      s'.balance_of to_id = s.balance_of to_id + (amounts.map (·.val)).sum := by
  induction h generalizing s with
  | nil => exact ⟨s, rfl, (List.append_nil _).symm, rfl⟩
  | @cons call amount calls amounts hcall _ ih =>
    rw [List.forall_mem_cons] at hpos
    rw [List.map_cons, List.sum_cons] at hcovered
    have htwo := hexact.two_le hne
    -- the one transfer
    obtain ⟨s₁, hs₁⟩ : ∃ s₁, s.transfer d.gate_id to_id amount = .ok s₁ :=
      ⟨_, transfer_eq_ok.2 ⟨hpos.1, hne, by omega, by omega, rfl⟩⟩
    have hgate : s₁.balance_of d.gate_id = s.balance_of d.gate_id - amount.val := by
      rw [balance_of_transfer hs₁, if_neg hne, if_pos rfl]
    have hto : s₁.balance_of to_id = s.balance_of to_id + amount.val := by
      rw [balance_of_transfer hs₁, if_pos rfl]
    have hlog : s₁.transfer_log = s.transfer_log ++ [⟨d.gate_id, to_id, amount.val⟩] := by
      obtain ⟨-, -, -, -, rfl⟩ := transfer_eq_ok.1 hs₁
      rfl
    have hrun : (FtShim.receiver d account_id apart decode_call).run (.by_gate d call) s =
        some s₁ := by
      simp only [Receiver.run, FtShim.receiver, Visit.by_gate, hcall.method, FtShim.run, require,
        if_pos hcall.deposit, hs₁]
      rfl
    obtain ⟨s', hs', hlog', hto'⟩ := ih (hexact.transfer hs₁) hpos.2 (by omega)
    refine ⟨s', ?_, ?_, ?_⟩
    · rw [List.map_cons, List.foldlM_cons, hrun]
      exact hs'
    · rw [hlog', hlog, List.append_assoc]
      rfl
    · rw [hto', hto, List.map_cons, List.sum_cons, Nat.add_assoc]

end FtShim

/-- `amounts[index]` as the shim parses it. -/
def ftShimAmount (index : Nat) : U128 := Fin.ofNat _ (100 + index * 17)

section Demo

open SequentialNear.Demo

/-! The shim is on `ft.test`; alice signs two transfers by the gate to herself. -/

def ft : AccountId := ⟨"ft.test"⟩

def send100 := delegate 8 ft "transfer"
  "\x7b\"receiver_id\":\"alice.test\",\"amount\":\"100\"\x7d" 30000000000000 1000000
def send117 := delegate 9 ft "transfer"
  "\x7b\"receiver_id\":\"alice.test\",\"amount\":\"117\"\x7d" 30000000000000 1000000

/-- Each with its message hash and its signature. -/
def sends : List (DelegateAction × Nat × Nat) :=
  [(send100, 0x90bdf018e9d569586f2b04894ec903e20d08e7faf7e8bb9f324551d9b913cb36,
    0xe50d388431880deaa07fcfa326b1fe190e9e825b20233485494045de2ad9f8b19f0b115a9dfd162107eaf00fbcc1c41d0f3d7643e27dac4139301d79c030ea0),
   (send117, 0x183ed4250900dbe40fa4396bd6e25fe8119311d629b83d1645ad11fd3f614713,
    0xe10e3117580d93e232643408a05a2257afd0bcb02d9069f6e2b6ea7395682bea4147055f51e47497f0411d2f48777357ecc53361c0eeb1a056049ac233c8bc7)]

def ft_deployment : Deployment :=
  { deployment with host :=
    { host with
      sha256 := fun m => match sends.find? (fun e => e.1.signed_message = m) with
        | some e => toLE 32 e.2.1
        | none => []
      ed25519_verify := fun sig msg pk => sends.any fun e =>
        sig = toLE 64 e.2.2 ∧ msg = toLE 32 e.2.1 ∧ pk = public_key.bytes.toList
      is_valid_account_id := fun s => s ∈ ["gate.test", "alice.test", "ft.test"] } }

def decode_ft_shim (method : String) (args : Bytes) : Option FtShimMethod :=
  if method = "transfer" then
    if args = "\x7b\"receiver_id\":\"alice.test\",\"amount\":\"100\"\x7d".toByteArray.toList then
      some (.transfer alice 100)
    else if args =
        "\x7b\"receiver_id\":\"alice.test\",\"amount\":\"117\"\x7d".toByteArray.toList then
      some (.transfer alice 117)
    else none
  else none

def ft_demo : Receiver ft_deployment FtShim :=
  FtShim.receiver ft_deployment ft (by decide) decode_ft_shim

/-- Both transfers are submitted. -/
def both_sent : List WorldAction :=
  (Action.call owner 0 0 (.add_relayer relayer) :: sends.map fun e =>
    .call relayer 0 0 (.submit_intent (SignedDelegateAction.mk e.1 ⟨bytes 64 e.2.2⟩).serialize)).map
      .gate

end Demo

end SequentialNear
