/-
`scripts/src/delegate.ts`: how a script builds, signs and encodes an intent.

The arguments are written as JSON, the call becomes the one action of a delegate, and the
hash of its signed message is signed with the user's key. What of this is not the
script's own is a parameter: the encoders ([`NearJs`]), the key ([`KeyPair`]), and
`sha256`. They are taken to be what the gate's host has on its side, so that the gate
reads back what was signed ([`built_decodes`]), and the contract that the intent calls
gets what was asked for ([`built_intent_executed`]).
-/
import SequentialNear.Utf8
import SequentialNear.WireFormat
import SequentialNear.Custody

set_option autoImplicit false

namespace SequentialNear

open Borsh Nep366 Runs

/-! ## Building and signing -/

/-- What a script asks for. The numbers are those that the encoder takes. -/
structure FunctionCallArgs where
  sender : AccountId
  receiver : AccountId
  method : String
  args : Json
  deposit : Option U128
  gas : Option U64
  nonce : U64
  maxBlockHeight : U64
  publicKey : Ed25519PublicKey

/-- 30 Tgas. -/
def DEFAULT_GAS : U64 := ⟨30 * 10 ^ 12, by decide⟩

/-- `@near-js/transactions`: what `signDelegateAction` gives its signer, and the encoder of
the result. -/
structure NearJs where
  encodeDelegateAction : DelegateAction → Bytes
  encodeSignedDelegate : SignedDelegateAction → Bytes

/-- A key, by what it signs. -/
structure KeyPair where
  publicKey : Ed25519PublicKey
  sign : Bytes → Ed25519Signature

section Build

variable (numeral : ℚ → JsString) (sha256 : Bytes → Bytes) (js : NearJs)

/-- `actionCreators.functionCall(…)`. -/
def FunctionCallArgs.functionCall (opts : FunctionCallArgs) : FunctionCallAction where
  method_name := opts.method
  args := Json.encode (Json.stringify numeral opts.args)
  gas := opts.gas.getD DEFAULT_GAS
  deposit := opts.deposit.getD 0

def buildFunctionCallDelegate (opts : FunctionCallArgs) : DelegateAction where
  sender_id := opts.sender
  receiver_id := opts.receiver
  actions := [.FunctionCall (opts.functionCall numeral)]
  nonce := opts.nonce
  max_block_height := opts.maxBlockHeight
  public_key := opts.publicKey

/-- The delegate with the signature of its hashed message. -/
def signDelegateAction (delegate : DelegateAction) (signerKey : KeyPair) : SignedDelegateAction :=
  ⟨delegate, signerKey.sign (sha256 (js.encodeDelegateAction delegate))⟩

/-- The encoded delegate. -/
def signDelegate (delegate : DelegateAction) (signerKey : KeyPair) : Bytes :=
  js.encodeSignedDelegate (signDelegateAction sha256 js delegate signerKey)

def buildAndSignFunctionCallIntent (opts : FunctionCallArgs) (signerKey : KeyPair) : Bytes :=
  signDelegate sha256 js (buildFunctionCallDelegate numeral opts) signerKey

/-- What is signed. -/
def FunctionCallArgs.digest (opts : FunctionCallArgs) : Bytes :=
  sha256 (js.encodeDelegateAction (buildFunctionCallDelegate numeral opts))

/-- What the gate makes of it. -/
def FunctionCallArgs.signed (opts : FunctionCallArgs) (signerKey : KeyPair) :
    SignedDelegateAction :=
  signDelegateAction sha256 js (buildFunctionCallDelegate numeral opts) signerKey

/-- The call that the gate is to dispatch. -/
def FunctionCallArgs.call (opts : FunctionCallArgs) : FunctionCall :=
  (Gate.callback_args 0 (buildFunctionCallDelegate numeral opts)
    (opts.functionCall numeral)).toFunctionCall

end Build

/-! ## What the other side is assumed to do -/

/-- The encoders write the format of NEAR's primitives, and both sides hash alike. -/
structure NearJs.Official (js : NearJs) (sha256 : Bytes → Bytes) (host : Host) : Prop where
  delegate : ∀ delegate, js.encodeDelegateAction delegate = delegate.signed_message
  signed : ∀ signed, js.encodeSignedDelegate signed = signed.serialize
  hash : host.sha256 = sha256

/-- What the key signs this message with verifies under it. -/
def KeyPair.Genuine (k : KeyPair) (host : Host) (message : Bytes) : Prop :=
  host.ed25519_verify (k.sign message).bytes.toList message k.publicKey.bytes.toList = true

/-- What the encoders can write. -/
structure FunctionCallArgs.Valid (opts : FunctionCallArgs) (host : Host)
    (numeral : ℚ → JsString) : Prop where
  sender : opts.sender.Valid host
  receiver : opts.receiver.Valid host
  method : opts.method.toByteArray.size < 2 ^ 32
  args : (opts.functionCall numeral).args.length < 2 ^ 32

section Built

variable {numeral : ℚ → JsString} {sha256 : Bytes → Bytes} {js : NearJs} {host : Host}
  {opts : FunctionCallArgs} {signerKey : KeyPair}

theorem FunctionCallArgs.Valid.signed (h : opts.Valid host numeral) :
    (opts.signed numeral sha256 js signerKey).Valid host where
  sender_id := h.sender
  receiver_id := h.receiver
  actions := by
    refine ⟨Nat.one_lt_two_pow (by decide), fun a ha => ?_⟩
    obtain rfl := List.mem_singleton.1 ha
    exact ⟨h.method, h.args⟩

/-- **The gate reads back what was signed.** -/
theorem built_decodes (hjs : js.Official sha256 host) (h : opts.Valid host numeral) :
    SignedDelegateAction.try_from_slice host
      (buildAndSignFunctionCallIntent numeral sha256 js opts signerKey) =
      .ok (opts.signed numeral sha256 js signerKey) := by
  rw [buildAndSignFunctionCallIntent, signDelegate, hjs.signed]
  exact codec_signed.decodes.2 ⟨h.signed, rfl⟩

theorem built_verifies (hjs : js.Official sha256 host)
    (hkey : signerKey.Genuine host (opts.digest numeral sha256 js))
    (hpublic : opts.publicKey = signerKey.publicKey) :
    (opts.signed numeral sha256 js signerKey).verify host = true := by
  have hmessage : (opts.signed numeral sha256 js signerKey).delegate_action.signed_message_hash
      host = opts.digest numeral sha256 js := by
    rw [FunctionCallArgs.digest, hjs.delegate, ← hjs.hash]
    rfl
  have hshown : (opts.signed numeral sha256 js signerKey).delegate_action.public_key =
      signerKey.publicKey := hpublic
  rw [SignedDelegateAction.verify, hmessage, hshown]
  exact hkey

/-- **When a built intent is accepted**: from a relayer, in time, with an unspent nonce and
a trace line that the host takes. -/
theorem built_accepted_iff (hjs : js.Official sha256 host) (h : opts.Valid host numeral)
    (hkey : signerKey.Genuine host (opts.digest numeral sha256 js))
    (hpublic : opts.publicKey = signerKey.publicKey) {env : Env} {g g' : Gate} {act : HostAction} :
    Returns ((GateCall.submit_intent
      (buildAndSignFunctionCallIntent numeral sha256 js opts signerKey)).run host env g) g' act ↔
      env.attached_deposit = 0 ∧ env.predecessor_account_id ∈ g.relayers ∧
      env.block_height < opts.maxBlockHeight.val ∧
      pair_key (opts.sender, opts.nonce) ∉ g.used_nonces ∧
      g.next_intent_id + 1 < 2 ^ 64 ∧ g.intents_submitted + 1 < 2 ^ 64 ∧
      (submitted_line g.next_intent_id (buildFunctionCallDelegate numeral opts)
        opts.method).utf8ByteSize ≤ host.max_total_log_length ∧
      g' = g.minted env (buildFunctionCallDelegate numeral opts) (opts.functionCall numeral) ∧
      act = .new_yield (Gate.callback_args g.next_intent_id
        (buildFunctionCallDelegate numeral opts) (opts.functionCall numeral)) := by
  have hdecodes : SignedDelegateAction.try_from_slice host
      (buildAndSignFunctionCallIntent numeral sha256 js opts signerKey) =
      .ok (opts.signed numeral sha256 js signerKey) := built_decodes hjs h
  simp only [GateCall.run, assert_no_deposit, returns_bind, require_eq_ok,
    Gate.submit_intent_returns, hdecodes, Except.ok.injEq]
  constructor
  · rintro ⟨_, hfree, hrel, _, fc, rfl, -, hexp, hnonce, hfc, hid, hsub, hlog, hg, hact⟩
    cases hfc
    exact ⟨hfree, hrel, hexp, hnonce, hid, hsub, hlog, hg, hact⟩
  · rintro ⟨hfree, hrel, hexp, hnonce, hid, hsub, hlog, hg, hact⟩
    exact ⟨(), hfree, hrel, _, _, rfl, built_verifies hjs hkey hpublic, hexp, hnonce, rfl, hid,
      hsub, hlog, hg, hact⟩

end Built

/-! ## What becomes of it -/

/-- A number is minted once. -/
theorem Reachable.mints_unique {d : Deployment} {s : Ledger} (h : Reachable d s) {id : Nat}
    {en en' : Entry} (hen : en ∈ s.log) (hen' : en' ∈ s.log) (hid : en.mints = some id)
    (hid' : en'.mints = some id) : en' = en := by
  have hnodup : (s.log.filterMap Entry.mints).Nodup := by
    rw [h.provenance.minted]
    exact List.nodup_range
  obtain ⟨l, r, hlog⟩ := List.append_of_mem hen
  by_contra hne
  refine unique_of_nodup_filterMap hnodup hlog hid en' ?_ hid'
  rw [hlog, List.mem_append, List.mem_cons] at hen'
  rw [List.mem_append]
  exact hen'.imp_right fun hr => hr.resolve_left hne

section Executed

variable {numeral : ℚ → JsString} {sha256 : Bytes → Bytes} {js : NearJs} {d : Deployment}
  {opts : FunctionCallArgs} {signerKey : KeyPair} {s : Ledger}

/-- The call that an intent was signed for is the one that the script built. -/
theorem built_signed (h : Reachable d s) (hjs : js.Official sha256 d.host)
    (hvalid : opts.Valid d.host numeral) {sub : Entry} {caller : AccountId} {deposit : Nat}
    (hsub : sub ∈ s.log) (hev : sub.event = .accepted caller deposit
      (.submit_intent (buildAndSignFunctionCallIntent numeral sha256 js opts signerKey)))
    {call : FunctionCall} (hcall : s.Signed d sub.before.next_intent_id call) :
    call = opts.call numeral := by
  obtain ⟨args, hid, rfl, sub', hsub', delegate, fc, hs, rfl⟩ := hcall
  have hmints : sub.mints = some sub.before.next_intent_id := by simp only [Entry.mints, hev]
  have hmints' : sub'.mints = some sub.before.next_intent_id := hs.mints.trans (congrArg some hid)
  obtain rfl := h.mints_unique hsub hsub' hmints hmints'
  obtain ⟨_, _, b, signature, hev', -, hdec, -⟩ := hs.accepted
  rw [hev, Event.accepted.injEq, GateCall.submit_intent.injEq] at hev'
  rw [← hev'.2.2, built_decodes hjs hvalid, Except.ok.injEq] at hdec
  have hdelegate : buildFunctionCallDelegate numeral opts = delegate :=
    congrArg SignedDelegateAction.delegate_action hdec
  have hsingle : [NonDelegateAction.FunctionCall (opts.functionCall numeral)] =
      [.FunctionCall fc] := (congrArg DelegateAction.actions hdelegate).trans hs.single
  cases hsingle
  rw [FunctionCallArgs.call, hdelegate]
  rfl

/-- **What a script asked for is what the contract gets.** Whatever happens in between, an
intent that a script built is pending for, dispatched for and executed as the call that it
asked for: its receiver, method, deposit and gas, with the defaults, and arguments that are
the UTF-8 of a JSON text which is read as the very value. -/
theorem built_intent_executed (h : Reachable d s) (hjs : js.Official sha256 d.host)
    (hvalid : opts.Valid d.host numeral) (hnumeral : ∀ q, Json.WellFormed (numeral q))
    (hlegible : Json.Legible numeral opts.args) {sub : Entry} {caller : AccountId} {deposit : Nat}
    (hsub : sub ∈ s.log) (hev : sub.event = .accepted caller deposit
      (.submit_intent (buildAndSignFunctionCallIntent numeral sha256 js opts signerKey))) :
    ∀ call, s.gate.call_of sub.before.next_intent_id = some call ∨
        (sub.before.next_intent_id, call) ∈ s.calls_dispatched ∨
        (sub.before.next_intent_id, call) ∈ s.calls_made →
      call.receiver = opts.receiver ∧ call.method = opts.method ∧
      call.deposit = opts.deposit.getD 0 ∧ call.gas = opts.gas.getD DEFAULT_GAS ∧
      ∃ text : String, call.args.toByteArray = text.toByteArray ∧
        Json.parse (utf16 text) = some opts.args := by
  intro call hcall
  have hsigned : s.Signed d sub.before.next_intent_id call := by
    rcases hcall with hpending | hdispatched | hmade
    · exact h.provenance.signed_pending hpending
    · exact (h.issued_authorised (h.handed.mem_iff.2 hdispatched)).backed
    · exact (h.authorised hmade).backed
  obtain rfl := built_signed h hjs hvalid hsub hev hsigned
  exact ⟨rfl, rfl, rfl, rfl, Json.encode_stringify hnumeral hlegible⟩

end Executed

section Demo

open SequentialNear.Demo

/-- Alice's key, on the messages of a table. -/
def key_of (table : List (DelegateAction × Nat × Nat)) : KeyPair where
  publicKey := public_key
  sign message :=
    match table.find? fun e => toLE 32 e.2.1 = message with
    | some e => ⟨bytes 64 e.2.2⟩
    | none => ⟨bytes 64 0⟩

def near_js : NearJs := ⟨DelegateAction.signed_message, SignedDelegateAction.serialize⟩

/-- A natural number in decimal. -/
def plain_decimal (q : ℚ) : JsString := JsString.decimal q.num.natAbs

/-- The script's `set` with defaults, as a JavaScript object. -/
def set11_args : FunctionCallArgs where
  sender := alice
  receiver := register
  method := "set"
  args := .object [(utf16 "value", .string (utf16 "11"))]
  deposit := none
  gas := none
  nonce := 1
  maxBlockHeight := 1000000
  publicKey := public_key

theorem set11_built : buildAndSignFunctionCallIntent plain_decimal Demo.host.sha256 near_js
    set11_args (key_of table) = signed set11 := by decide +kernel

theorem set11_valid : set11_args.Valid Demo.host plain_decimal :=
  ⟨⟨by decide, by decide⟩, ⟨by decide, by decide⟩, by decide, by decide +kernel⟩

theorem near_js_official : near_js.Official Demo.host.sha256 Demo.host :=
  ⟨fun _ => rfl, fun _ => rfl, rfl⟩

/-- The register is called with what the object says. -/
theorem built_intent_executed_demo : ∃ (s : Ledger) (call : FunctionCall),
    Reachable deployment s ∧ (0, call) ∈ s.calls_made ∧ call.gas.val = 30 * 10 ^ 12 ∧
    ∃ text : String, call.args.toByteArray = text.toByteArray ∧
      Json.parse (utf16 text) = some (.object [(utf16 "value", .string (utf16 "11"))]) := by
  obtain ⟨s, hrun, ⟨sub, hsub, hev, hid⟩, hmade⟩ : ∃ s, Run (step deployment) anyAction start s ∧
      (∃ sub ∈ s.log, sub.event = .accepted relayer 0 (.submit_intent (signed set11)) ∧
        sub.before.next_intent_id = 0) ∧ 0 ∈ s.calls_made.map Prod.fst :=
    exists_run_of_exec (submissions [set11] ++
      [.call approver FEE 0 (.resume_intent 0 true)] ++ deliver) _ (by decide +kernel)
  have hs : Reachable deployment s := ⟨_, _, _, _, hrun⟩
  obtain ⟨⟨id, call⟩, hmem, rfl⟩ := List.mem_map.1 hmade
  have hlegible : Json.Legible plain_decimal set11_args.args := by
    refine .object (fun m hm => ?_) fun m hm => ?_
    · exact List.mem_singleton.1 hm ▸ Json.utf16_lt
    · exact List.mem_singleton.1 hm ▸ .string Json.utf16_lt
  obtain ⟨-, -, -, hgas, hargs⟩ := built_intent_executed hs near_js_official set11_valid
    (fun q => ⟨_, rfl⟩) hlegible hsub (set11_built ▸ hev) call (.inr (.inr (hid.symm ▸ hmem)))
  exact ⟨s, call, hs, hmem, by rw [hgas]; rfl, hargs⟩

end Demo

end SequentialNear
