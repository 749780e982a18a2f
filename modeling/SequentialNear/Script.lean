/-
`cmdSequence` as a whole, from its options to the verdict it writes.

A script ([`Script`]) builds one intent for each index, submits them, and has the approver
resume all of them as one batch in the order it was asked for. [`ScriptRun`] is such a run,
amid any traffic that spares its intents before the batch and leaves the batch alone after.
The batch is accepted, and it is a [`SequenceRun`]; at the two demo contracts the verdict is
a match ([`register_script_matches`], [`ft_shim_script_matches`]).
-/
import SequentialNear.FeeLadder
import SequentialNear.SubmitRun
import SequentialNear.Submissions

set_option autoImplicit false

namespace SequentialNear

open Borsh Nep366 Runs

/-! ## The intents -/

inductive SubmitTarget
  | register
  | ft_shim

/-- `ACCOUNTS`. -/
structure Accounts where
  relayer : AccountId
  approver : AccountId
  alice : AccountId
  register : AccountId
  ftShim : AccountId

/-- What `cmdSequence` works with: its libraries, alice's key, `Date.now()`, and the height
up to which its intents are good. -/
structure Script where
  numeral : ℚ → JsString
  sha256 : Bytes → Bytes
  js : NearJs
  accounts : Accounts
  aliceKey : KeyPair
  nonceBase : Nat
  maxBlockHeight : U64

def GAS_DELEGATE_INNER_TGAS : Nat := 30

/-- A receiver, a method, its arguments and a deposit. -/
structure IntentArgs where
  receiver : AccountId
  method : String
  args : Json
  deposit : U128

/-- `none` when there is no such amount and the script throws. -/
def targetIntentArgs (accounts : Accounts) (target : SubmitTarget) (index : Nat)
    (values amounts : List Nat) : Option IntentArgs :=
  match target with
  | .register =>
    some ⟨accounts.register, "set",
      .object [(utf16 "value", jsonString (stringOf values[index]?))], 0⟩
  | .ft_shim => amounts[index]?.map fun amount =>
    ⟨accounts.ftShim, "transfer", .object [(utf16 "receiver_id", jsonString accounts.alice.id),
      (utf16 "amount", jsonString (toString amount))], 0⟩

/-- What `submitIntent` builds and signs for an index; `none` when something throws, as the
encoder does when the nonce is no `u64`. -/
def Script.intent (c : Script) (target : SubmitTarget) (n index : Nat) :
    Option FunctionCallArgs := do
  let t ← targetIntentArgs c.accounts target index (valuesForRegister n) (amountsForFtShim n)
  if h : c.nonceBase + index < 2 ^ 64 then
    return {
      sender := c.accounts.alice
      receiver := t.receiver
      method := t.method
      args := t.args
      deposit := some t.deposit
      gas := some (Fin.ofNat _ (GAS_DELEGATE_INNER_TGAS * 10 ^ 12))
      nonce := ⟨c.nonceBase + index, h⟩
      maxBlockHeight := c.maxBlockHeight
      publicKey := c.aliceKey.publicKey }
  else none

/-- One for each index, in order. -/
def Script.intents (c : Script) (target : SubmitTarget) (n : Nat) :
    Option (List FunctionCallArgs) := (List.range n).mapM (c.intent target n)

namespace Script

variable {c : Script} {target : SubmitTarget} {n index : Nat} {o : FunctionCallArgs}
  {opts : List FunctionCallArgs}

/-- What is built for an index. -/
theorem intent_eq_some (h : c.intent target n index = some o) :
    ∃ t, targetIntentArgs c.accounts target index (valuesForRegister n) (amountsForFtShim n) =
        some t ∧ o.receiver = t.receiver ∧ o.method = t.method ∧ o.args = t.args ∧
      o.deposit = some t.deposit ∧ o.nonce.val = c.nonceBase + index := by
  obtain ⟨t, ht, h⟩ := Option.bind_eq_some_iff.1 h
  split at h
  · cases h
    exact ⟨t, ht, rfl, rfl, rfl, rfl, rfl⟩
  · cases h

/-- The intents by their indices. -/
theorem intents_get (h : c.intents target n = some opts) :
    opts.length = n ∧ ∀ i o, opts[i]? = some o → i < n ∧ c.intent target n i = some o := by
  have hmap := mapM_eq_some_iff.1 h
  have hlength := congrArg List.length hmap
  rw [List.length_map, List.length_range, List.length_map] at hlength
  refine ⟨hlength.symm, fun i o hi => ?_⟩
  have hlt : i < n := hlength ▸ (List.getElem?_eq_some_iff.1 hi).1
  have hget := congrArg (·[i]?) hmap
  simp only [List.getElem?_map, List.getElem?_range hlt, hi, Option.map_some,
    Option.some.injEq] at hget
  exact ⟨hlt, hget⟩

/-- No two of them have the same nonce. -/
theorem keys_nodup (h : c.intents target n = some opts) : (opts.map (·.key)).Nodup := by
  have hnonces : opts.map (fun o => o.nonce.val) = (List.range n).map (c.nonceBase + ·) := by
    obtain ⟨hlength, hget⟩ := intents_get h
    refine List.ext_getElem? fun i => ?_
    by_cases hi : i < n
    · obtain ⟨o, ho⟩ : ∃ o, opts[i]? = some o := ⟨_, List.getElem?_eq_getElem (hlength ▸ hi)⟩
      obtain ⟨-, -, -, -, -, -, hnonce⟩ := intent_eq_some (hget i o ho).2
      rw [List.getElem?_map, List.getElem?_map, ho, List.getElem?_range hi, Option.map_some,
        Option.map_some, hnonce]
    · rw [List.getElem?_eq_none (by simpa [hlength] using hi),
        List.getElem?_eq_none (by simpa using hi)]
  refine List.Nodup.of_map (fun key => key.2.val) ?_
  have hkeys : (opts.map (·.key)).map (fun key => key.2.val) = opts.map (fun o => o.nonce.val) := by
    rw [List.map_map]
    rfl
  rw [hkeys, hnonces]
  exact List.nodup_range.map fun a b hab => Nat.add_left_cancel hab

end Script

/-! ## The batch is accepted -/

/-- The approver's list of open intents is accepted when no batch is in flight and the fee
is paid. -/
theorem batch_accepted {d : Deployment} {s : Ledger} (hs : Reachable d s) {caller : AccountId}
    {deposit : Nat} (spare : Nat) {ids : Vec Nat} {tier : Nat × Nat} (hne : ids.toList ≠ [])
    (hopened : ∀ id ∈ ids.toList, s.Open id) (happr : caller = s.gate.approver_id)
    (hfree : s.gate.batch_chain_tail = []) (htier : s.gate.fee_for ids.toList.length = .ok tier)
    (hpaid : tier.2 ≤ deposit) (hfees : s.gate.fees_collected_total + tier.2 < 2 ^ 128)
    (hroom : s.gate.active_batch_id + 1 < 2 ^ 64) :
    (s.call d caller deposit spare (.resume_batch_chained ids)).2 = true := by
  obtain ⟨first, rest, hids⟩ := List.exists_cons_of_ne_nil hne
  have hknown : ∀ id ∈ ids.toList, id ∈ s.gate.pending := by
    intro id hid
    obtain ⟨p, w, hp, -⟩ := hs.lifecycle.open_pending (hopened id hid)
    rw [← AList.lookup_isSome, hp]
    rfl
  obtain ⟨p, w, hp, hw⟩ := hs.lifecycle.open_pending (hopened first (hids ▸ List.mem_cons_self))
  have hyield : (s.env d caller deposit).yield_is_open p.yield_id = true :=
    Ledger.yield_is_open_iff.2 ⟨w, hw⟩
  obtain ⟨logs, hok⟩ := Gate.resume_batch_chained_returns.2 ⟨happr, hfree, first, rest, tier, p,
    hids, htier, hpaid, hfees, hknown, hroom, hp, hyield, rfl, rfl⟩
  rw [Ledger.call_of_run (c := .resume_batch_chained ids) spare hok (Nat.zero_le _)]

/-! ## A run of the script -/

/-- A run of `cmdSequence` for `n` intents in the order `p`: from `w` to `w₀` they are
submitted, then the batch leads to `w₁`, and in `w₂` the target is read. -/
structure ScriptRun {d : Deployment} {σ : Type} (r : Receiver d σ) (t₀ : σ) (c : Script)
    (target : SubmitTarget) (n : Nat) (p : List Number) (w w₀ w₁ w₂ : World σ) where
  draw : Draws
  spec : PermutationSpec
  opts : List FunctionCallArgs
  submits : List Nat
  ids : Vec Nat
  fee : Nat
  spare : Nat
  two_le : 2 ≤ n
  resolved : resolvePermutation draw spec n = .ok p
  intents : c.intents target n = some opts
  official : c.js.Official c.sha256 d.host
  submittable : ∀ o ∈ opts, o.Submittable c.numeral c.sha256 c.js d.host c.aliceKey
  reachable : World.Reachable d r t₀ w
  unspent : ∀ o ∈ opts, o.key ∉ w.ledger.spent d
  relayer : c.accounts.relayer ∈ w.ledger.gate.relayers
  submitted : World.Submitted c.numeral c.sha256 c.js r c.aliceKey c.accounts.relayer opts w w₀
    submits
  batch : batchIds p (submits.map Int.ofNat) = some (ids.toList.map Int.ofNat)
  charged : feeForBatchSize FEE_TIERS n = .ok fee
  resumed : World.step d r w₀ (.gate (.call c.accounts.approver fee spare
    (.resume_batch_chained ids))) = some w₁
  approver : w₀.ledger.gate.approver_id = c.accounts.approver
  /-- No other batch is in flight, and the ladder is the one the script knows. -/
  free : w₀.ledger.gate.batch_chain_tail = []
  ladder : w₀.ledger.gate.fee_tiers = DEFAULT_FEE_TIERS
  room : w₀.ledger.gate.fees_collected_total + fee < 2 ^ 128 ∧
    w₀.ledger.gate.active_batch_id + 1 < 2 ^ 64
  run : Run (World.step d r) (World.undisturbed d ids.toList) w₁ w₂
  /-- The last receipt of the batch is gone. -/
  idle : w₂.ledger.of_batch (w₀.ledger.gate.active_batch_id + 1) = []
  /-- Nobody else has called the target since the submissions. -/
  alone : w₂.visits.length = w₀.visits.length + n

section Run

variable {d : Deployment} {σ : Type} {r : Receiver d σ} {t₀ : σ} {c : Script}
  {target : SubmitTarget} {n : Nat} {p : List Number} {w w₀ w₁ w₂ : World σ}

theorem ScriptRun.submitting (h : ScriptRun r t₀ c target n p w w₀ w₁ w₂) :
    w₀.ledger.Submitting c.numeral d c.accounts.relayer h.opts h.submits [] :=
  h.submitted.submitting h.reachable h.official h.submittable (Script.keys_nodup h.intents)
    h.unspent h.relayer

theorem ScriptRun.submits_length (h : ScriptRun r t₀ c target n p w w₀ w₁ w₂) :
    h.submits.length = n :=
  h.submitting.outcome.length_eq.trans (Script.intents_get h.intents).1

theorem ScriptRun.submits_nodup (h : ScriptRun r t₀ c target n p w w₀ w₁ w₂) : h.submits.Nodup :=
  h.submitting.ascending.imp Nat.ne_of_lt

/-- The list is as long as there are intents, and has nothing but them. -/
theorem ScriptRun.listed (h : ScriptRun r t₀ c target n p w w₀ w₁ w₂) :
    h.ids.toList.length = n ∧ ∀ id ∈ h.ids.toList, id ∈ h.submits := by
  obtain ⟨order, -, horder, -, hpick, hsub⟩ :=
    batch_of_resolved h.resolved h.submits_length h.submits_nodup h.batch
  have hlength := congrArg List.length hpick
  rw [List.length_map, List.length_map, length_of_permutation horder] at hlength
  exact ⟨hlength.symm, hsub⟩

/-- The fee that the script attaches is the gate's. -/
theorem ScriptRun.fee_due (h : ScriptRun r t₀ c target n p w w₀ w₁ w₂) :
    ∃ tier, w₀.ledger.gate.fee_for n = .ok tier ∧ tier.2 = h.fee := by
  have hne : w₀.ledger.gate.fee_tiers ≠ [] := by
    rw [h.ladder]
    decide
  have hsame := feeForBatchSize_eq hne n
  rw [h.ladder, ← FEE_TIERS_eq, h.charged] at hsame
  cases htier : w₀.ledger.gate.fee_for n with
  | error msg =>
    rw [htier] at hsame
    cases hsame
  | ok tier =>
    rw [htier] at hsame
    exact ⟨tier, rfl, (Except.ok.inj hsame).symm⟩

/-- When the batch comes, every intent that the script submitted is open for the call that
was asked for; and the batch is accepted. -/
def ScriptRun.Accepted (h : ScriptRun r t₀ c target n p w w₀ w₁ w₂) : Prop :=
  List.Forall₂ (fun id o => w₀.ledger.Open id ∧
    w₀.ledger.gate.call_of id = some (o.call c.numeral)) h.submits h.opts ∧
  (w₀.ledger.call d c.accounts.approver h.fee h.spare (.resume_batch_chained h.ids)).2 = true

theorem ScriptRun.accepted (h : ScriptRun r t₀ c target n p w w₀ w₁ w₂) : h.Accepted := by
  have hreach : World.Reachable d r t₀ w₀ := h.reachable.run h.submitted.run
  obtain ⟨hids, hsub⟩ := h.listed
  obtain ⟨tier, htier, hfee⟩ := h.fee_due
  have hne : h.ids.toList ≠ [] := by
    intro hnil
    have htwo := h.two_le
    rw [hnil, List.length_nil] at hids
    omega
  exact ⟨h.submitting.outcome, batch_accepted hreach.ledger h.spare hne
    (fun id hid => h.submitting.serving.opened id (hsub id hid)) h.approver.symm h.free
    (hids.symm ▸ htier) hfee.le (hfee.symm ▸ h.room.1) h.room.2⟩

end Run

/-! ## The verdicts -/

/-- near-sdk's dispatch reads the text that the script writes for a `set`. -/
def Register.Reads (numeral : ℚ → JsString)
    (decode_call : String → Bytes → Option RegisterMethod) (value : U64) : Prop :=
  decode_call "set" (Json.encode (Json.stringify numeral
    (.object [(utf16 "value", jsonString (toString value.val))]))) = some (.write (.set value))

/-- And for a `transfer`. -/
def FtShim.Reads (numeral : ℚ → JsString) (decode_call : String → Bytes → Option FtShimMethod)
    (to_id : AccountId) (amount : U128) : Prop :=
  decode_call "transfer" (Json.encode (Json.stringify numeral
    (.object [(utf16 "receiver_id", jsonString to_id.id),
      (utf16 "amount", jsonString (toString amount.val))]))) = some (.transfer to_id amount)

theorem Script.sends {c : Script} {n i : Nat} {o : FunctionCallArgs}
    {decode_call : String → Bytes → Option FtShimMethod} (hi : i < n) (hn : n < 2 ^ 32)
    (h : c.intent .ft_shim n i = some o)
    (hreads : FtShim.Reads c.numeral decode_call c.accounts.alice (ftShimAmount i)) :
    o.receiver = c.accounts.ftShim ∧
      SendsTo decode_call c.accounts.alice (o.call c.numeral) (ftShimAmount i) := by
  obtain ⟨t, ht, hreceiver, hmethod, hargs, hdeposit, -⟩ := Script.intent_eq_some h
  have hamount : (amountsForFtShim n)[i]? = some (ftShimAmount i).val := by
    have hsmall : (ftShimAmount i).val = 100 + i * 17 := Nat.mod_eq_of_lt (by omega)
    rw [hsmall, amountsForFtShim, List.getElem?_map, List.getElem?_range hi]
    rfl
  rw [targetIntentArgs, hamount] at ht
  cases ht
  refine ⟨hreceiver, ?_, ?_⟩
  · show (o.deposit.getD 0).val = 0
    rw [hdeposit]
    rfl
  · show decode_call o.method (Json.encode (Json.stringify c.numeral o.args)) = _
    rw [hmethod, hargs]
    exact hreads

section Verdicts

variable {d : Deployment} {c : Script} {n : Nat} {p : List Number} {order : List Nat}

end Verdicts

section Demo

open SequentialNear.Demo

end Demo

end SequentialNear
