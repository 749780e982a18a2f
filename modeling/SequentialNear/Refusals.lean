/-
The variants of `cmdSubmit` that want to be refused, in `scripts/src/commands/submit.ts`.

`runBadSig` submits an intent with one bit of the signature flipped, `runExpired` one that
has expired, and `runReplay` one for the second time. Each looks for its own words in the
panic that the node reports and records `rejected`. What the gate checks first decides
what it panics with ([`Gate.first_refusal`]), and from it follows in which states, of all
that can be reached, the record says `true` ([`refusals_recorded`]).
-/
import SequentialNear.Rpc
import SequentialNear.Submissions

set_option autoImplicit false

namespace SequentialNear

open Borsh Nep366 Runs

/-! ## What the gate checks first -/

/-- The check of `submit_intent` that the delegate of a single call fails first, if there
is room for another intent and its line can be logged. -/
def Gate.first_refusal (host : Host) (env : Env) (g : Gate) (signed : SignedDelegateAction) :
    Option String :=
  if env.predecessor_account_id ∉ g.relayers then some "caller is not a whitelisted relayer"
  else if signed.verify host = false then some "signature verification failed"
  else if signed.delegate_action.max_block_height.val ≤ env.block_height then
    some "intent expired (max_block_height <= current block)"
  else if Gate.nonce_key signed.delegate_action ∈ g.used_nonces then some REPLAY_REJECTED
  else none

/-- A check that is followed by others. -/
theorem require_bind_eq_error {cond : Prop} [Decidable cond] {msg msg' : String} {α : Type}
    {f : Unit → Except String α} :
    require cond msg >>= f = .error msg' ↔ if cond then f () = .error msg' else msg = msg' := by
  by_cases hcond : cond
  · rw [require, if_pos hcond, if_pos hcond]
    rfl
  · rw [require, if_neg hcond, if_neg hcond]
    exact Except.error.injEq msg msg' ▸ Iff.rfl

/-- **What a submission is refused with** is the first check it fails. -/
theorem Gate.refused_iff {host : Host} {env : Env} {g : Gate} {b : Bytes}
    {signed : SignedDelegateAction} {fc : FunctionCallAction} {msg : String}
    (hdec : SignedDelegateAction.try_from_slice host b = .ok signed)
    (hfc : signed.delegate_action.actions = [.FunctionCall fc]) (hfree : env.attached_deposit = 0)
    (hid : g.next_intent_id + 1 < 2 ^ 64) (hsub : g.intents_submitted + 1 < 2 ^ 64)
    (hlog : (submitted_line g.next_intent_id signed.delegate_action fc.method_name).utf8ByteSize ≤
      host.max_total_log_length) :
    (GateCall.submit_intent b).run host env g = .error msg ↔
      g.first_refusal host env signed = some msg := by
  have hdec' : (SignedDelegateAction.try_from_slice host b).mapError
      ("invalid SignedDelegateAction: " ++ ·) = .ok signed := by rw [hdec]; rfl
  have hsingle : signed.delegate_action.require_single_function_call = .ok fc :=
    require_single_function_call_eq_ok.2 hfc
  have hroom : ∀ {n : Nat}, n + 1 < 2 ^ 64 → increment n = .ok (n + 1) := fun h => if_pos h
  have hline : log_str host (submitted_line g.next_intent_id signed.delegate_action
      fc.method_name) = .ok () := if_pos hlog
  unfold GateCall.run assert_no_deposit Gate.submit_intent Gate.first_refusal
  rw [require_bind_eq_error, if_pos hfree, require_bind_eq_error]
  by_cases hrelayer : env.predecessor_account_id ∈ g.relayers
  · rw [if_pos hrelayer, if_neg (not_not.2 hrelayer), hdec']
    refine require_bind_eq_error.trans ?_
    cases hverify : signed.verify host with
    | false => simp
    | true =>
      simp only [if_true, Bool.true_eq_false, if_false]
      rw [require_bind_eq_error]
      by_cases hexpired : signed.delegate_action.max_block_height.val ≤ env.block_height
      · rw [if_neg (Nat.not_lt.2 hexpired), if_pos hexpired, Option.some.injEq]
      · rw [if_pos (Nat.not_le.1 hexpired), if_neg hexpired, require_bind_eq_error]
        by_cases hused : Gate.nonce_key signed.delegate_action ∈ g.used_nonces
        · rw [if_neg (not_not.2 hused), if_pos hused, Option.some.injEq, REPLAY_REJECTED]
        · rw [if_pos hused, if_neg hused, hsingle]
          -- nothing is left that could fail
          refine iff_of_false (fun h => ?_) (Option.some_ne_none msg).symm
          obtain h | ⟨_, hok, h⟩ := bind_eq_error.1 h
          · cases h
          cases hok
          obtain h | ⟨_, hnext, h⟩ := bind_eq_error.1 h
          · rw [hroom hid] at h
            cases h
          obtain h | ⟨_, hcount, h⟩ := bind_eq_error.1 h
          · rw [hroom hsub] at h
            cases h
          obtain h | ⟨_, -, h⟩ := bind_eq_error.1 h
          · rw [hline] at h
            cases h
          · cases h
  · rw [if_neg hrelayer, if_pos hrelayer, Option.some.injEq]

/-! ## The variants -/

/-- The variants whose submission is to be refused. -/
inductive RefusedVariant
  | bad_sig
  | expired
  | replay

/-- `tampered[lastIdx] ^= 0x01`. -/
def tamper (encoded : Bytes) : Bytes := encoded.modify (encoded.length - 1) (· ^^^ 1)

namespace RefusedVariant

/-- What the failure reason is matched against. -/
def pattern : RefusedVariant → List (List String)
  | .bad_sig => [["signature verification failed"]]
  | .expired => [["expired"]]
  | .replay => [["replay"], ["nonce"]]

/-- `rejected` of the record. -/
def rejected (variant : RefusedVariant) (observed : Observed) : Bool :=
  observed.failureReason.any (JsString.test variant.pattern)

/-- The height until which the intent is to be valid, when the chain is at `current`. -/
def maxBlockHeight (variant : RefusedVariant) (current : Nat) : Nat :=
  match variant with
  | .expired => current - 1
  | _ => current + 10000

/-- What is submitted, in the replay twice. -/
def submission (numeral : ℚ → JsString) (sha256 : Bytes → Bytes) (js : NearJs)
    (opts : FunctionCallArgs) (signerKey : KeyPair) : RefusedVariant → Bytes
  | .bad_sig => tamper (buildAndSignFunctionCallIntent numeral sha256 js opts signerKey)
  | _ => buildAndSignFunctionCallIntent numeral sha256 js opts signerKey

/-- The panic that the pattern is meant for. -/
def message : RefusedVariant → String
  | .bad_sig => "signature verification failed"
  | .expired => "intent expired (max_block_height <= current block)"
  | .replay => REPLAY_REJECTED

end RefusedVariant

/-- The check that a variant is about fails, after those before it. -/
def RefusedVariant.Fails (host : Host) (env : Env) (g : Gate) (signed : SignedDelegateAction) :
    RefusedVariant → Prop
  | .bad_sig => signed.verify host = false
  | .expired => signed.verify host = true ∧
    signed.delegate_action.max_block_height.val ≤ env.block_height
  | .replay => signed.verify host = true ∧
    env.block_height < signed.delegate_action.max_block_height.val ∧
    Gate.nonce_key signed.delegate_action ∈ g.used_nonces

/-- The gate panics with a variant's message when the relayer's submission gets as far as
the check and fails it. -/
theorem Gate.first_refusal_eq_message {host : Host} {env : Env} {g : Gate}
    {signed : SignedDelegateAction} {variant : RefusedVariant} :
    g.first_refusal host env signed = some variant.message ↔
      env.predecessor_account_id ∈ g.relayers ∧ variant.Fails host env g signed := by
  unfold first_refusal
  by_cases hrelayer : env.predecessor_account_id ∈ g.relayers
  · simp only [hrelayer, not_true_eq_false, if_false, true_and]
    cases hverify : signed.verify host with
    | false =>
      cases variant <;>
        simp [RefusedVariant.message, RefusedVariant.Fails, hverify, REPLAY_REJECTED]
    | true =>
      simp only [Bool.true_eq_false, if_false]
      by_cases hexpired : signed.delegate_action.max_block_height.val ≤ env.block_height
      · cases variant <;>
          simp [RefusedVariant.message, RefusedVariant.Fails, hverify, hexpired, REPLAY_REJECTED]
      · rw [if_neg hexpired]
        cases variant <;>
          simp [RefusedVariant.message, RefusedVariant.Fails, hverify, hexpired, REPLAY_REJECTED,
            Nat.not_le.1 hexpired]
  · cases variant <;> simp [RefusedVariant.message, hrelayer, REPLAY_REJECTED]

/-! ## The flipped bit is one of the signature -/

theorem tamper_append (x : Bytes) {y : Bytes} (hy : y ≠ []) : tamper (x ++ y) = x ++ tamper y := by
  induction x with
  | nil => rfl
  | cons a x ih =>
    have hpos : 0 < (x ++ y).length := by
      rw [List.length_append]
      exact Nat.add_pos_right _ (List.length_pos_iff.2 hy)
    have hlast : (a :: (x ++ y)).length - 1 = (x ++ y).length - 1 + 1 := by
      rw [List.length_cons]
      omega
    calc tamper (a :: x ++ y) = a :: tamper (x ++ y) := by
          rw [tamper, List.cons_append, hlast, List.modify_succ_cons, tamper]
      _ = a :: x ++ tamper y := by rw [ih, List.cons_append]

/-- The signature with its last bit flipped. -/
def Nep366.Ed25519Signature.flipped (s : Ed25519Signature) : Ed25519Signature :=
  ⟨⟨tamper s.bytes.toList, by rw [tamper, List.length_modify, List.Vector.toList_length]⟩⟩

theorem tamper_signed (s : SignedDelegateAction) : tamper s.serialize =
    SignedDelegateAction.serialize ⟨s.delegate_action, s.signature.flipped⟩ := by
  have hbytes : s.signature.bytes.toList ≠ [] := by
    rw [← List.length_pos_iff, List.Vector.toList_length]
    decide
  have hsignature : tamper s.signature.serialize = s.signature.flipped.serialize :=
    tamper_append [0] hbytes
  have hne : s.signature.serialize ≠ [] := List.cons_ne_nil _ _
  rw [SignedDelegateAction.serialize, tamper_append _ hne, hsignature]
  rfl

/-! ## How a node words a panic -/

/-- The failure of a receipt in which the contract panicked. -/
def panicked (msg : String) : List (JsString × Json) :=
  [(utf16 "ActionError", .object [(utf16 "index", .number (.finite 0)),
    (utf16 "kind", .object [(utf16 "FunctionCallError", .object [(utf16 "ExecutionError",
      .string (utf16 "Smart contract panicked: " ++ utf16 msg))])])])]

/-- The panics that the checks end in. -/
def CHECKS : List String :=
  ["caller is not a whitelisted relayer", "signature verification failed",
    "intent expired (max_block_height <= current block)", REPLAY_REJECTED]

theorem Gate.first_refusal_mem {host : Host} {env : Env} {g : Gate}
    {signed : SignedDelegateAction} {msg : String}
    (h : g.first_refusal host env signed = some msg) : msg ∈ CHECKS := by
  unfold first_refusal at h
  split_ifs at h <;> cases h <;> decide

/-- The text of a panic, as a node prints it. -/
theorem stringify_panicked {toString : ℚ → JsString} (hzero : toString 0 = utf16 "0")
    (msg : String) : Json.stringify toString (.object (panicked msg)) =
      Json.stringify (fun _ => utf16 "0") (.object (panicked msg)) := by
  simp only [panicked, Json.stringify, Json.memberTexts, hzero]

/-- **The patterns tell the checks apart.** -/
theorem test_panicked {toString : ℚ → JsString} (hzero : toString 0 = utf16 "0")
    (variant : RefusedVariant) {msg : String} (hmsg : msg ∈ CHECKS) :
    JsString.test variant.pattern (Json.stringify toString (.object (panicked msg))) = true ↔
      msg = variant.message := by
  have hall : ∀ msg ∈ CHECKS, JsString.test variant.pattern
      (Json.stringify (fun _ => utf16 "0") (.object (panicked msg))) =
        decide (msg = variant.message) := by
    cases variant <;> decide +kernel
  rw [stringify_panicked hzero, hall msg hmsg, decide_eq_true_iff]

/-! ## What is taken for a refusal -/

/-- The submission was accepted, and the script reads the variant's words in the failure of
a receipt behind it. -/
def RefusedVariant.Misread (toString : ℚ → JsString) (x : Except String Outcome)
    (status : TxStatus) (variant : RefusedVariant) : Prop :=
  (∃ out, x = .ok out) ∧ ∃ r ∈ status.receipts_outcome.tail, ∃ reason,
    r.status.failureText toString = some reason ∧
      extractFailureReason toString status = some reason ∧
      JsString.test variant.pattern reason = true

/-- The failure reason that the script goes by is the status's. -/
theorem observe_reason {toString : ℚ → JsString} {status : TxStatus} {observed : Observed}
    (hobs : observe toString status = .ok observed) :
    observed.failureReason = extractFailureReason toString status := by
  simp only [observe] at hobs
  split at hobs
  · obtain rfl := Except.ok.inj hobs
    rfl
  · cases hintent : extractIntentId status.logs with
    | ok intentId =>
      rw [hintent] at hobs
      obtain rfl := Except.ok.inj hobs
      rfl
    | error text =>
      rw [hintent] at hobs
      cases hobs

/-- An accepted submission is recorded as rejected only so. -/
theorem Reports.rejected_iff_misread {toString : ℚ → JsString}
    {failure : String → List (JsString × Json)} {x : Except String Outcome} {status : TxStatus}
    (h : Reports failure x status) {out : Outcome} (hx : x = .ok out) {observed : Observed}
    (hobs : observe toString status = .ok observed) {variant : RefusedVariant} :
    variant.rejected observed = true ↔ variant.Misread toString x status := by
  rw [RefusedVariant.rejected, observe_reason hobs]
  constructor
  · intro hany
    obtain ⟨reason, hreason, htest⟩ := (Option.any_eq_true _ _).1 hany
    obtain ⟨r, hr, htext⟩ := h.accepted_reason hx hreason
    exact ⟨⟨out, hx⟩, r, hr, reason, htext, hreason, htest⟩
  · rintro ⟨-, r, -, reason, -, hsome, htest⟩
    rw [hsome]
    exact htest

/-! ## When a variant is refused as it wants to be -/

section Variants

variable (numeral : ℚ → JsString) (sha256 : Bytes → Bytes) (js : NearJs) (d : Deployment)
  (opts : FunctionCallArgs) (signerKey : KeyPair) (s : Ledger)

/-- The signature of the intent, with its last bit flipped, is none. -/
def Unsigned : Prop :=
  SignedDelegateAction.verify d.host ⟨buildFunctionCallDelegate numeral opts,
    (opts.signed numeral sha256 js signerKey).signature.flipped⟩ = false

/-- What has to be so for the gate to get as far as the check that the variant is about,
and to fail it. -/
def RefusedVariant.Cause : RefusedVariant → Prop
  | .bad_sig => Unsigned numeral sha256 js d opts signerKey
  | .expired => opts.maxBlockHeight.val ≤ s.block_height
  | .replay => s.block_height < opts.maxBlockHeight.val ∧ opts.key ∈ s.spent d

/-- What the script has seen to before its last submission: the height was read earlier,
and the replayed intent has been accepted once. -/
def RefusedVariant.Prepared (current : Nat) : RefusedVariant → Prop
  | .bad_sig => Unsigned numeral sha256 js d opts signerKey
  | .expired => current ≤ s.block_height
  | .replay => s.block_height < current + 10000 ∧
    ∃ first ∈ s.log, ∃ caller deposit, first.event = .accepted caller deposit
      (.submit_intent (buildAndSignFunctionCallIntent numeral sha256 js opts signerKey))

end Variants

section Recorded

variable {numeral : ℚ → JsString} {sha256 : Bytes → Bytes} {js : NearJs} {d : Deployment}
  {opts : FunctionCallArgs} {signerKey : KeyPair} {s : Ledger} {variant : RefusedVariant}
  {relayer : AccountId}

/-- What the gate decodes a variant's submission to. -/
theorem submission_decodes (hjs : js.Official sha256 d.host)
    (hvalid : opts.Valid d.host numeral) (signerKey : KeyPair) (variant : RefusedVariant) :
    ∃ signed : SignedDelegateAction, SignedDelegateAction.try_from_slice d.host
        (variant.submission numeral sha256 js opts signerKey) = .ok signed ∧
      signed.delegate_action = buildFunctionCallDelegate numeral opts ∧
      (variant = .bad_sig → signed = ⟨buildFunctionCallDelegate numeral opts,
        (opts.signed numeral sha256 js signerKey).signature.flipped⟩) ∧
      (variant ≠ .bad_sig → signed = opts.signed numeral sha256 js signerKey) := by
  cases variant with
  | bad_sig =>
    refine ⟨⟨buildFunctionCallDelegate numeral opts,
      (opts.signed numeral sha256 js signerKey).signature.flipped⟩, ?_, rfl, fun _ => rfl,
      fun h => absurd rfl h⟩
    have hvalid' : (opts.signed numeral sha256 js signerKey).Valid d.host := hvalid.signed
    have hbytes : buildAndSignFunctionCallIntent numeral sha256 js opts signerKey =
        (opts.signed numeral sha256 js signerKey).serialize := hjs.signed _
    refine codec_signed.decodes.2 ⟨hvalid', ?_⟩
    rw [RefusedVariant.submission, hbytes, tamper_signed]
    rfl
  | expired =>
    exact ⟨_, built_decodes hjs hvalid, rfl, fun h => (by cases h), fun _ => rfl⟩
  | replay =>
    exact ⟨_, built_decodes hjs hvalid, rfl, fun h => (by cases h), fun _ => rfl⟩

/-- How the submission is refused is decided by the checks. -/
theorem submission_refused_iff (hs : Reachable d s) (hjs : js.Official sha256 d.host)
    (hopts : opts.Submittable numeral sha256 js d.host signerKey)
    (hroom : s.gate.next_intent_id + 1 < 2 ^ 64)
    {signed : SignedDelegateAction}
    (hdec : SignedDelegateAction.try_from_slice d.host
      (variant.submission numeral sha256 js opts signerKey) = .ok signed) {msg : String} :
    (GateCall.submit_intent (variant.submission numeral sha256 js opts signerKey)).run d.host
        (s.env d relayer 0) s.gate = .error msg ↔
      s.gate.first_refusal d.host (s.env d relayer 0) signed = some msg := by
  obtain ⟨_, hdec', hdelegate, -⟩ := submission_decodes hjs hopts.valid signerKey variant
  obtain rfl := Except.ok.inj (hdec'.symm.trans hdec)
  have hsubmitted : s.gate.intents_submitted = s.gate.next_intent_id :=
    hs.lifecycle.counters.submitted
  have hfc := congrArg DelegateAction.actions hdelegate
  have hline : (submitted_line s.gate.next_intent_id (buildFunctionCallDelegate numeral opts)
      opts.method).utf8ByteSize ≤ d.host.max_total_log_length :=
    (submitted_line_le (by omega) _ _).trans hopts.loggable
  rw [← hdelegate] at hline
  exact Gate.refused_iff hdec hfc rfl hroom (hsubmitted.symm ▸ hroom) hline

/-- **Exactly when a variant fails the check it is about.** -/
theorem refused_as_meant_iff (hs : Reachable d s) (hjs : js.Official sha256 d.host)
    (hopts : opts.Submittable numeral sha256 js d.host signerKey)
    (hroom : s.gate.next_intent_id + 1 < 2 ^ 64) :
    (GateCall.submit_intent (variant.submission numeral sha256 js opts signerKey)).run d.host
        (s.env d relayer 0) s.gate = .error variant.message ↔
      relayer ∈ s.gate.relayers ∧ variant.Cause numeral sha256 js d opts signerKey s := by
  obtain ⟨signed, hdec, hdelegate, hflipped, hgenuine⟩ :=
    submission_decodes hjs hopts.valid signerKey variant
  rw [submission_refused_iff hs hjs hopts hroom hdec, Gate.first_refusal_eq_message]
  refine and_congr_right fun _ => ?_
  have hverify : variant ≠ .bad_sig → signed.verify d.host = true := by
    intro hne
    rw [hgenuine hne]
    exact built_verifies hjs hopts.genuine hopts.shown
  have hheight : signed.delegate_action.max_block_height = opts.maxBlockHeight := by
    rw [hdelegate]
    rfl
  cases variant with
  | bad_sig =>
    rw [RefusedVariant.Fails, RefusedVariant.Cause, hflipped rfl, Unsigned]
  | expired =>
    rw [RefusedVariant.Fails, RefusedVariant.Cause, hheight]
    exact and_iff_right (hverify fun h => by cases h)
  | replay =>
    have hused : Gate.nonce_key signed.delegate_action ∈ s.gate.used_nonces ↔
        opts.key ∈ s.spent d := by
      have hkey : Gate.nonce_key signed.delegate_action = pair_key opts.key := by
        rw [hdelegate]
        rfl
      rw [hkey, hs.replay.used]
      exact ⟨fun ⟨p, hp, hpair⟩ => pair_key_injective hpair ▸ hp, fun hp => ⟨_, hp, rfl⟩⟩
    rw [RefusedVariant.Fails, RefusedVariant.Cause, hheight, hused]
    exact and_iff_right (hverify fun h => by cases h)

/-- What the script sees to is cause enough. -/
theorem RefusedVariant.Prepared.cause {current : Nat}
    (h : variant.Prepared numeral sha256 js d opts signerKey s current)
    (hjs : js.Official sha256 d.host) (hvalid : opts.Valid d.host numeral)
    (hheight : opts.maxBlockHeight.val = variant.maxBlockHeight current) :
    variant.Cause numeral sha256 js d opts signerKey s := by
  cases variant with
  | bad_sig => exact h
  | expired =>
    have hcurrent : current ≤ s.block_height := h
    have hmax : opts.maxBlockHeight.val = current - 1 := hheight
    rw [Cause, hmax]
    omega
  | replay =>
    obtain ⟨hintime, first, hfirst, caller, deposit, hev⟩ := h
    refine ⟨hheight ▸ hintime, List.mem_filterMap.2 ⟨first, hfirst, ?_⟩⟩
    rw [Entry.spent, hev]
    exact built_nonce hjs hvalid

/-- **What `rejected` in the record is worth.** The relayer submits a variant's bytes in
whatever state can be reached, and the script observes it in whatever status the node then
lists. What the script has seen to is enough for `rejected` to be recorded, if the relayer
still is one. It is recorded exactly when the gate panicked in the very check the variant
is about, which is so exactly for the variant's cause, or when the submission was accepted
and the script takes the failure of a later receipt for its own. Of a submission that is
refused for its cause nothing is left but its entry in the log. -/
theorem refusals_recorded (hs : Reachable d s) (hjs : js.Official sha256 d.host)
    (hopts : opts.Submittable numeral sha256 js d.host signerKey)
    (hroom : s.gate.next_intent_id + 1 < 2 ^ 64) {toString : ℚ → JsString}
    (hzero : toString 0 = utf16 "0") {status : TxStatus}
    (htrue : Reports panicked ((GateCall.submit_intent (variant.submission numeral sha256 js opts
      signerKey)).run d.host (s.env d relayer 0) s.gate) status) :
    (∀ current, relayer ∈ s.gate.relayers →
      opts.maxBlockHeight.val = variant.maxBlockHeight current →
      variant.Prepared numeral sha256 js d opts signerKey s current →
        ∃ observed, observe toString status = .ok observed ∧ observed.intentId = none ∧
          variant.rejected observed = true) ∧
    (∀ observed, observe toString status = .ok observed → (variant.rejected observed = true ↔
      (relayer ∈ s.gate.relayers ∧ variant.Cause numeral sha256 js d opts signerKey s) ∨
        variant.Misread toString ((GateCall.submit_intent (variant.submission numeral sha256 js
          opts signerKey)).run d.host (s.env d relayer 0) s.gate) status)) ∧
    (relayer ∈ s.gate.relayers → variant.Cause numeral sha256 js d opts signerKey s →
      ∀ spare, s.call d relayer 0 spare (.submit_intent (variant.submission numeral sha256 js opts
        signerKey)) = (s.record (.refused relayer 0 (.submit_intent (variant.submission numeral
          sha256 js opts signerKey)) variant.message), false)) := by
  obtain ⟨signed, hdec, -⟩ := submission_decodes hjs hopts.valid signerKey variant
  have hcause := @refused_as_meant_iff numeral sha256 js d opts signerKey s variant relayer hs hjs
    hopts hroom
  generalize hrun : (GateCall.submit_intent (variant.submission numeral sha256 js opts
    signerKey)).run d.host (s.env d relayer 0) s.gate = x at htrue hcause ⊢
  have hchecks : ∀ msg, x = .error msg → msg ∈ CHECKS := by
    intro msg hmsg
    rw [hmsg] at hrun
    exact Gate.first_refusal_mem ((submission_refused_iff hs hjs hopts hroom hdec).1 hrun)
  have hobserve : ∀ msg, x = .error msg → observe toString status =
      .ok ⟨none, some (Json.stringify toString (.object (panicked msg)))⟩ :=
    fun msg hmsg => htrue.observe_failed (htrue.refused_reason hmsg)
  have hexact : ∀ observed, observe toString status = .ok observed →
      (variant.rejected observed = true ↔
        x = .error variant.message ∨ variant.Misread toString x status) := by
    intro observed hobs
    cases hx : x with
    | error msg =>
      rw [hobserve msg hx] at hobs
      obtain rfl := Except.ok.inj hobs
      rw [RefusedVariant.rejected, Option.any_some, test_panicked hzero variant (hchecks msg hx),
        Except.error.injEq]
      exact (or_iff_left fun ⟨⟨_, hout⟩, _⟩ => by cases hout).symm
    | ok out =>
      rw [htrue.rejected_iff_misread hx hobs, hx]
      exact (or_iff_right fun h => by cases h).symm
  refine ⟨fun current hrelayer hheight hprepared => ?_, fun observed hobs => ?_,
    fun hrelayer hc spare => ?_⟩
  · have hmeant := hcause.2 ⟨hrelayer, hprepared.cause hjs hopts.valid hheight⟩
    have hobs := hobserve _ hmeant
    exact ⟨_, hobs, rfl, (hexact _ hobs).2 (.inl hmeant)⟩
  · rw [hexact observed hobs, hcause]
  · have hmeant := hcause.2 ⟨hrelayer, hc⟩
    simp only [Ledger.call, hrun, hmeant]

end Recorded

section Demo

open SequentialNear.Demo

/-- The status of a submission that panicked. -/
def panic_status (msg : String) : TxStatus :=
  ⟨.failure (.object (panicked msg)), none, [⟨[], .failure (.object (panicked msg))⟩]⟩

theorem reports_panic {x : Except String Outcome} {msg : String} (hx : x = .error msg) :
    Reports panicked x (panic_status msg) where
  unlogged := rfl
  accepted out hout := by
    rw [hx] at hout
    cases hout
  refused msg' hmsg' := by
    rw [hx] at hmsg'
    cases hmsg'
    exact ⟨⟨[], rfl⟩, fun err herr => by cases herr; rfl⟩
  overall err herr := by
    cases herr
    exact ⟨_, List.mem_singleton.2 rfl, rfl⟩
  objects r hr err herr := by
    obtain rfl := List.mem_singleton.1 hr
    cases herr
    exact ⟨_, rfl⟩

/-- Alice's intent has been accepted and executed; submitted again it is recorded as
rejected, and so is the one with the flipped signature. -/
theorem refusals_recorded_demo : ∃ s, Reachable deployment s ∧ 0 ∈ s.calls_made.map Prod.fst ∧
    ∀ variant ∈ [RefusedVariant.bad_sig, .replay], ∃ observed,
      observe printed (panic_status variant.message) = .ok observed ∧
        variant.rejected observed = true := by
  obtain ⟨s, hrun, ⟨first, hfirst, hev⟩, hmade, hrelayer, hheight, hroom, hrefused⟩ : ∃ s,
      Run (step deployment) anyAction start s ∧
      (∃ first ∈ s.log, first.event = .accepted relayer 0 (.submit_intent (signed set11))) ∧
      0 ∈ s.calls_made.map Prod.fst ∧ relayer ∈ s.gate.relayers ∧ s.block_height < 1000000 ∧
      s.gate.next_intent_id + 1 < 2 ^ 64 ∧
      (∀ variant ∈ [RefusedVariant.bad_sig, .replay],
        refusal ((GateCall.submit_intent (variant.submission plain_decimal host.sha256 near_js
          (set_args 1 "11") (key_of table))).run deployment.host (s.env deployment relayer 0)
            s.gate) = some variant.message) :=
    exists_run_of_exec (submissions [set11] ++
      [.call approver FEE 0 (.resume_intent 0 true)] ++ deliver) _ (by decide +kernel)
  have hs : Reachable deployment s := ⟨_, _, _, _, hrun⟩
  have hsubmittable : (set_args 1 "11").Submittable plain_decimal host.sha256 near_js host
      (key_of table) := script_args_submittable (by decide +kernel)
  have hbuilt : buildAndSignFunctionCallIntent plain_decimal host.sha256 near_js (set_args 1 "11")
      (key_of table) = signed set11 := by decide +kernel
  have hunsigned : Unsigned plain_decimal host.sha256 near_js deployment (set_args 1 "11")
      (key_of table) := by
    unfold Unsigned
    decide +kernel
  have hprepared : ∀ variant ∈ [RefusedVariant.bad_sig, .replay],
      (set_args 1 "11").maxBlockHeight.val = variant.maxBlockHeight 990000 ∧
        variant.Prepared plain_decimal host.sha256 near_js deployment (set_args 1 "11")
          (key_of table) s 990000 := by
    rw [List.forall_mem_cons, List.forall_mem_singleton]
    exact ⟨⟨rfl, hunsigned⟩, rfl, hheight, first, hfirst, _, _, hbuilt ▸ hev⟩
  refine ⟨s, hs, hmade, fun variant hvariant => ?_⟩
  obtain ⟨hmax, hprep⟩ := hprepared variant hvariant
  have hzero : printed 0 = utf16 "0" := rfl
  obtain ⟨observed, hobs, -, hrejected⟩ := (refusals_recorded hs near_js_official hsubmittable hroom
    hzero (reports_panic (refusal_eq_some (hrefused variant hvariant)))).1 990000 hrelayer hmax
    hprep
  exact ⟨observed, hobs, hrejected⟩

end Demo

end SequentialNear
