/-
The submissions of a script, amid whatever else goes on.

`cmdSequence` submits its intents one after the other. Between two of them anybody may
call the gate or its target, and receipts of older batches are executed. Little of that
can spoil the script's work ([`Action.spares`]): its relayer is removed, one of its nonces
is spent, or one of its intents is resumed, listed or runs out of time. Short of that
every submission that comes before its intent expires is accepted, if the host takes its
trace line; and in the end the intents are what a batch needs: all of them open, for the
calls that were asked for, and named by no older chain ([`submissions_accepted`]).
-/
import SequentialNear.Authority
import SequentialNear.Delegate
import SequentialNear.Replay
import SequentialNear.Views
import SequentialNear.Wedged
import SequentialNear.WorldBatch

set_option autoImplicit false

namespace SequentialNear

open Borsh Nep366 Runs

/-! ## What others may do -/

/-- The pair of sender and nonce that an intent spends. -/
def FunctionCallArgs.key (opts : FunctionCallArgs) : AccountId × U64 := (opts.sender, opts.nonce)

/-- The action takes nothing from a script that has submitted `ids` through `relayer` and
uses these nonces. -/
def Action.spares (d : Deployment) (relayer : AccountId) (keys : List (AccountId × U64))
    (ids : List Nat) (s : Ledger) (a : Action) : Prop :=
  (∀ c ∈ a.accepted_call d s, c.2.2.relays relayer ≠ some false ∧
    (∀ key ∈ keys, c.2.2.nonce d.host ≠ some key) ∧
    ∀ id ∈ ids, c.2.2.single ≠ some id ∧ id ∉ c.2.2.listed) ∧
  ∀ id ∈ ids, a.lapses s ≠ some id

instance (d : Deployment) (relayer : AccountId) (keys : List (AccountId × U64)) (ids : List Nat)
    (s : Ledger) (a : Action) : Decidable (a.spares d relayer keys ids s) :=
  inferInstanceAs (Decidable ((∀ c ∈ a.accepted_call d s, _ ∧ (∀ key ∈ keys, _) ∧ ∀ id ∈ ids, _) ∧
    ∀ id ∈ ids, _))

/-- A smaller claim is spared with the larger one. -/
theorem Action.spares.mono {d : Deployment} {relayer : AccountId}
    {keys keys' : List (AccountId × U64)} {ids : List Nat} {s : Ledger} {a : Action}
    (h : a.spares d relayer keys ids s) (hkeys : keys' ⊆ keys) :
    a.spares d relayer keys' ids s := by
  refine ⟨fun c hc => ?_, h.2⟩
  obtain ⟨hrelays, hnonce, hids⟩ := h.1 c hc
  exact ⟨hrelays, fun key hkey => hnonce key (hkeys hkey), hids⟩

/-- Whether an action spares the script does not depend on a receiver's verdict. -/
theorem Action.spares.decided {d : Deployment} {relayer : AccountId}
    {keys : List (AccountId × U64)} {ids : List Nat} {s : Ledger} {a : Action} (success : Bool)
    (h : a.spares d relayer keys ids s) : (a.decided success).spares d relayer keys ids s := by
  cases a with
  | execute i spare _ => exact h
  | _ => exact h

namespace Ledger

/-- Where a script stands that has submitted `ids` and is going to spend these nonces. -/
structure Serving (d : Deployment) (relayer : AccountId) (keys : List (AccountId × U64))
    (ids : List Nat) (s : Ledger) : Prop where
  relayer : relayer ∈ s.gate.relayers
  unspent : ∀ key ∈ keys, key ∉ s.spent d
  opened : ∀ id ∈ ids, s.Open id
  unnamed : ∀ id ∈ ids, ¬ s.Named id

variable {d : Deployment} {s s' s₀ : Ledger} {a : Action} {relayer : AccountId}
  {keys : List (AccountId × U64)} {ids : List Nat}

/-- A relayer stays one until it is removed. -/
theorem relayer_of_move (h : relayer ∈ s.gate.relayers)
    (hcalls : ∀ c ∈ a.accepted_call d s₀, c.2.2.relays relayer ≠ some false)
    (hmove : Move d s₀ a s s') : relayer ∈ s'.gate.relayers := by
  rcases hmove.call_or_frame with ⟨caller, deposit, c, out, hrun, hgate, hlog⟩ | ⟨hframe, -⟩
  · obtain ⟨rfl, -, hacc, -⟩ := hmove.cause hlog
    have hrelays : c.relays relayer ≠ some false := hcalls _ hacc
    have hstored := (GateCall.run_roles hrun).relayers relayer
    rw [← hgate] at hstored
    cases hc : c.relays relayer with
    | none =>
      rw [hc, Option.getD_none] at hstored
      exact of_decide_eq_true (hstored.trans (decide_eq_true h))
    | some b =>
      cases b with
      | true =>
        rw [hc, Option.getD_some] at hstored
        exact of_decide_eq_true hstored
      | false => exact absurd hc hrelays
  · rw [hframe.relayers]
    exact h

/-- A pair stays unspent until a submission spends it. -/
theorem unspent_of_move {key : AccountId × U64} (h : key ∉ s.spent d)
    (hcalls : ∀ c ∈ a.accepted_call d s₀, c.2.2.nonce d.host ≠ some key)
    (hmove : Move d s₀ a s s') : key ∉ s'.spent d := by
  rcases hmove.logs with hlog | ⟨e, hlog, hcause⟩
  · rwa [spent, hlog]
  · rw [spent_of_log hlog, List.mem_append, Option.mem_toList]
    rintro (hold | hnew)
    · exact h hold
    · cases e with
      | accepted caller deposit c =>
        obtain ⟨rfl, -, hacc, -⟩ := hcause
        exact hcalls _ hacc hnew
      | _ => cases hnew

/-- An intent that no chain names stays open until it is resumed by itself, listed, or
runs out of time. -/
theorem open_unnamed_of_move (hlife : s.Lifecycle) {id : Nat} (ho : s.Open id)
    (hunnamed : ¬ s.Named id)
    (hcalls : ∀ c ∈ a.accepted_call d s₀, c.2.2.single ≠ some id ∧ id ∉ c.2.2.listed)
    (hlapses : a.lapses s₀ ≠ some id) (hmove : Move d s₀ a s s') : s'.Open id := by
  have hhead : ∀ rest, s.gate.batch_chain_tail ≠ id :: rest := by
    intro rest htail
    refine hunnamed (.inl ?_)
    rw [htail]
    exact List.mem_cons_self
  rcases open_of_move hlife hmove ho with ho' | ⟨e, hlog, he⟩ | hlap
  · exact ho'
  · exfalso
    rcases Event.resume_cases he with halone | ⟨caller, deposit, list, rfl, hfirst⟩ |
      ⟨caller, deposit, seq, rfl⟩ | ⟨seq, batch, rfl⟩
    · cases e with
      | accepted caller deposit c =>
        obtain ⟨rfl, -, hacc, -⟩ := hmove.cause hlog
        cases c with
        | resume_intent n approve => exact (hcalls _ hacc).1 he
        | _ => cases halone
      | rejected n timeout => cases he
      | _ => cases halone
    · obtain ⟨rfl, -, hacc, -⟩ := hmove.cause hlog
      exact (hcalls _ hacc).2 (List.mem_of_head? hfirst)
    · obtain ⟨rfl, -, -, -, act, heff⟩ := hmove.cause hlog
      generalize s'.gate = g' at heff
      cases heff with
      | admin hc => cases hc
      | chain hpriv hfree htail => exact hhead _ htail
    · obtain ⟨f, -, -, -, htail⟩ := hmove.cause hlog
      exact hhead _ htail
  · exact absurd hlap hlapses

/-- **What spares the script leaves it where it stands.** -/
theorem Serving.move (h : s.Serving d relayer keys ids) (hlife : s.Lifecycle)
    (hspares : a.spares d relayer keys ids s₀) (hmove : Move d s₀ a s s') :
    s'.Serving d relayer keys ids where
  relayer := relayer_of_move h.relayer (fun c hc => (hspares.1 c hc).1) hmove
  unspent key hkey :=
    unspent_of_move (h.unspent key hkey) (fun c hc => (hspares.1 c hc).2.1 key hkey) hmove
  opened id hid :=
    open_unnamed_of_move hlife (h.opened id hid) (h.unnamed id hid)
      (fun c hc => (hspares.1 c hc).2.2 id hid) (hspares.2 id hid) hmove
  unnamed id hid hnamed := by
    rcases named_of_move hlife hmove hnamed with hold | ⟨-, c, hc, hlisted⟩
    · exact h.unnamed id hid hold
    · exact ((hspares.1 c hc).2.2 id hid).2 hlisted

theorem Serving.step (h : s.Serving d relayer keys ids) (hs : Reachable d s)
    (hspares : a.spares d relayer keys ids s) (hst : SequentialNear.step d s a = some s') :
    s'.Serving d relayer keys ids := by
  let I : Ledger → Prop := fun t => t.Lifecycle ∧ t.Serving d relayer keys ids
  have hinv : I s' := by
    refine step_preserves I hst ⟨hs.lifecycle, h⟩ ?_
    rintro t t' ⟨hlife, ht⟩ hmove
    exact ⟨hlife.move hmove, ht.move hlife hspares hmove⟩
  exact hinv.2

end Ledger

/-! ## One submission -/

section Submit

variable {numeral : ℚ → JsString} {sha256 : Bytes → Bytes} {js : NearJs} {d : Deployment}
  {opts : FunctionCallArgs} {signerKey : KeyPair} {s s' : Ledger} {relayer : AccountId}
  {keys : List (AccountId × U64)} {ids : List Nat}

/-- What is encoded and signed can be submitted, and the host takes its trace line,
whatever id the intent gets. -/
structure FunctionCallArgs.Submittable (numeral : ℚ → JsString) (sha256 : Bytes → Bytes)
    (js : NearJs) (host : Host) (signerKey : KeyPair) (opts : FunctionCallArgs) : Prop where
  valid : opts.Valid host numeral
  genuine : signerKey.Genuine host (opts.digest numeral sha256 js)
  shown : opts.publicKey = signerKey.publicKey
  loggable : (submitted_line (2 ^ 64 - 1) (buildFunctionCallDelegate numeral opts)
    opts.method).utf8ByteSize ≤ host.max_total_log_length

/-- A call from outside leads to what the gate makes of it. -/
theorem eq_of_step_call {caller : AccountId} {deposit spare : Nat} {c : GateCall}
    (h : step d s (.call caller deposit spare c) = some s') :
    s' = (s.call d caller deposit spare c).1 := by
  simp only [step] at h
  split at h
  · exact (Option.some.inj h).symm
  · cases h

/-- A call from outside is what it says. -/
theorem Action.accepted_call_outside {caller : AccountId} {deposit spare : Nat} {c : GateCall}
    {x : AccountId × Nat × GateCall}
    (h : x ∈ (Action.call caller deposit spare c).accepted_call d s) :
    x = (caller, deposit, c) := by
  obtain ⟨caller', deposit', c'⟩ := x
  exact (Option.some.inj (Action.accepted_call_run h).1).symm

/-- The pair that a built submission spends. -/
theorem built_nonce (hjs : js.Official sha256 d.host) (hvalid : opts.Valid d.host numeral) :
    (GateCall.submit_intent (buildAndSignFunctionCallIntent numeral sha256 js opts
      signerKey)).nonce d.host = some opts.key := by
  rw [GateCall.nonce, built_decodes hjs hvalid]
  rfl

/-- **A submission of the script is accepted**, and what it leads to. -/
theorem submission_accepted (h : s.Serving d relayer (opts.key :: keys) ids)
    (hs : Reachable d s) (hjs : js.Official sha256 d.host)
    (hopts : opts.Submittable numeral sha256 js d.host signerKey) (hfresh : opts.key ∉ keys)
    (hintime : s.block_height < opts.maxBlockHeight.val)
    (hroom : s.gate.next_intent_id + 1 < 2 ^ 64) {spare : Nat}
    (hst : step d s (.call relayer 0 spare (.submit_intent
      (buildAndSignFunctionCallIntent numeral sha256 js opts signerKey))) = some s') :
    s'.Serving d relayer keys (ids ++ [s.gate.next_intent_id]) ∧
      s'.Signed d s.gate.next_intent_id (opts.call numeral) := by
  -- the call returns
  have hnonce : pair_key (opts.sender, opts.nonce) ∉ s.gate.used_nonces := by
    rw [hs.replay.used]
    rintro ⟨p, hp, hkey⟩
    obtain rfl : p = opts.key := pair_key_injective hkey
    exact h.unspent _ List.mem_cons_self hp
  have hsubmitted : s.gate.intents_submitted = s.gate.next_intent_id :=
    hs.lifecycle.counters.submitted
  have hline : (submitted_line s.gate.next_intent_id (buildFunctionCallDelegate numeral opts)
      opts.method).utf8ByteSize ≤ d.host.max_total_log_length :=
    (submitted_line_le (by omega) _ _).trans hopts.loggable
  obtain ⟨logs, hok⟩ : Returns ((GateCall.submit_intent (buildAndSignFunctionCallIntent numeral
      sha256 js opts signerKey)).run d.host (s.env d relayer 0) s.gate)
      (s.gate.minted (s.env d relayer 0) (buildFunctionCallDelegate numeral opts)
        (opts.functionCall numeral))
      (.new_yield (Gate.callback_args s.gate.next_intent_id
        (buildFunctionCallDelegate numeral opts) (opts.functionCall numeral))) :=
    (built_accepted_iff hjs hopts.valid hopts.genuine hopts.shown).2
      ⟨rfl, h.relayer, hintime, hnonce, hroom, hsubmitted.symm ▸ hroom, hline, rfl, rfl⟩
  have hcall := Ledger.call_of_run spare hok (Nat.zero_le _)
  have hacc := congrArg Prod.snd hcall
  have hlog := call_log hst hacc
  obtain ⟨-, hmove⟩ := call_moves hst
  have hs' := eq_of_step_call hst
  rw [hcall] at hs'
  have hgate : s'.gate = s.gate.minted (s.env d relayer 0)
      (buildFunctionCallDelegate numeral opts) (opts.functionCall numeral) := by
    rw [hs', Ledger.apply_gate]
  have hpending : s'.gate.pending.lookup s.gate.next_intent_id =
      some (Gate.pending_intent (s.env d relayer 0) (buildFunctionCallDelegate numeral opts)
        (opts.functionCall numeral)) := by
    rw [hgate]
    exact AList.lookup_insert _
  -- it spares what the script has and what it is going to do
  have hspares : (Action.call relayer 0 spare (.submit_intent
      (buildAndSignFunctionCallIntent numeral sha256 js opts signerKey))).spares d relayer keys ids
      s := by
    refine ⟨fun c hc => ?_, fun id _ => (Option.some_ne_none id).symm⟩
    obtain rfl := Action.accepted_call_outside hc
    refine ⟨(Option.some_ne_none false).symm, fun key hkey => ?_, fun id _ =>
      ⟨(Option.some_ne_none id).symm, List.not_mem_nil⟩⟩
    rw [built_nonce hjs hopts.valid, ne_eq, Option.some.injEq]
    rintro rfl
    exact hfresh hkey
  have hkept : s'.Serving d relayer keys ids := by
    refine Ledger.Serving.move ⟨h.relayer, fun key hkey => ?_, h.opened, h.unnamed⟩ hs.lifecycle
      hspares hmove
    exact h.unspent key (List.mem_cons_of_mem _ hkey)
  refine ⟨⟨hkept.relayer, hkept.unspent, ?_, ?_⟩, ?_⟩
  · rw [List.forall_mem_append, List.forall_mem_singleton]
    have hyield : s'.yields.lookup s.next_yield =
        some ⟨Gate.callback_args s.gate.next_intent_id (buildFunctionCallDelegate numeral opts)
          (opts.functionCall numeral), GAS_YIELD_CALLBACK + spare⟩ := by
      rw [hs', Ledger.apply_yields]
      exact AList.lookup_insert _
    exact ⟨hkept.opened, (hs.step hst).lifecycle.open_of_lookup hpending hyield⟩
  · rw [List.forall_mem_append, List.forall_mem_singleton]
    refine ⟨hkept.unnamed, fun hnamed => ?_⟩
    rcases Ledger.named_of_move hs.lifecycle hmove hnamed with hold | ⟨-, c, hc, hlisted⟩
    · exact Nat.lt_irrefl _ (hs.named_lt hold)
    · obtain rfl := Action.accepted_call_outside hc
      cases hlisted
  · refine (hs.step hst).provenance.signed_pending ?_
    rw [Gate.call_of, hpending]
    rfl

end Submit

/-! ## All of them -/

namespace Ledger

variable {numeral : ℚ → JsString} {d : Deployment} {s s' : Ledger} {a : Action}
  {relayer : AccountId} {opts bs : List FunctionCallArgs} {ids : List Nat}

/-- Only intents that have been submitted are signed for. -/
theorem Signed.lt {id : Nat} {call : FunctionCall} (h : s.Signed d id call) (hs : Reachable d s) :
    id < s.gate.next_intent_id := by
  obtain ⟨args, rfl, -, sub, hsub, delegate, fc, hs', rfl⟩ := h
  exact (hs.minted_iff _).2 ⟨sub, hsub, hs'.mints⟩

/-- Where a script stands that has got `ids` for the first of its intents and has `bs` still
to submit. -/
structure Submitting (numeral : ℚ → JsString) (d : Deployment) (relayer : AccountId)
    (opts : List FunctionCallArgs) (ids : List Nat) (bs : List FunctionCallArgs) (s : Ledger) :
    Prop where
  reachable : Reachable d s
  serving : s.Serving d relayer (bs.map (·.key)) ids
  ascending : ids.Pairwise (· < ·)
  signed : ∃ done, opts = done ++ bs ∧
    List.Forall₂ (fun id o => s.Signed d id (o.call numeral)) ids done

/-- Traffic that spares the script. -/
theorem Submitting.traffic (h : s.Submitting numeral d relayer opts ids bs)
    (hspares : a.spares d relayer (opts.map (·.key)) ids s) (hst : step d s a = some s') :
    s'.Submitting numeral d relayer opts ids bs := by
  obtain ⟨done, rfl, hsigned⟩ := h.signed
  have hkeys : bs.map (·.key) ⊆ (done ++ bs).map (·.key) := by
    rw [List.map_append]
    exact List.subset_append_right _ _
  refine ⟨h.reachable.step hst, h.serving.step h.reachable (hspares.mono hkeys) hst, h.ascending,
    done, rfl, ?_⟩
  exact hsigned.imp fun id o ho => ho.mono (log_extends hst)

/-- The next submission of the script. -/
theorem Submitting.submission {o : FunctionCallArgs} {sha256 : Bytes → Bytes} {js : NearJs}
    {signerKey : KeyPair} (h : s.Submitting numeral d relayer opts ids (o :: bs))
    (hjs : js.Official sha256 d.host) (ho : o.Submittable numeral sha256 js d.host signerKey)
    (hnodup : (opts.map (·.key)).Nodup) (hintime : s.block_height < o.maxBlockHeight.val)
    (hroom : s.gate.next_intent_id + 1 < 2 ^ 64) {spare : Nat}
    (hst : step d s (.call relayer 0 spare (.submit_intent
      (buildAndSignFunctionCallIntent numeral sha256 js o signerKey))) = some s') :
    s'.Submitting numeral d relayer opts (ids ++ [s.gate.next_intent_id]) bs := by
  obtain ⟨done, rfl, hsigned⟩ := h.signed
  have hfresh : o.key ∉ bs.map (·.key) := by
    rw [List.map_append, List.map_cons] at hnodup
    exact (List.nodup_cons.1 hnodup.of_append_right).1
  obtain ⟨hserving, hnew⟩ := submission_accepted h.serving h.reachable hjs ho hfresh hintime hroom
    hst
  have hlt : ∀ id ∈ ids, id < s.gate.next_intent_id :=
    ((List.forall₂_and_left _ _).1 (hsigned.imp fun _ _ hid => ⟨hid.lt h.reachable, hid⟩)).1
  refine ⟨h.reachable.step hst, hserving, ?_, done ++ [o], ?_, ?_⟩
  · -- the ids so far have been handed out, the new one has not
    rw [List.pairwise_append]
    refine ⟨h.ascending, List.pairwise_singleton _ _, fun id hid id' hid' => ?_⟩
    obtain rfl := List.mem_singleton.1 hid'
    exact hlt id hid
  · rw [List.append_assoc, List.singleton_append]
  · exact List.rel_append (hsigned.imp fun id o ho => ho.mono (log_extends hst)) (.cons hnew .nil)

/-- An open intent is pending for what was signed. -/
theorem Signed.call_of {id : Nat} {call : FunctionCall} (h : s.Signed d id call)
    (hs : Reachable d s) (ho : s.Open id) : s.gate.call_of id = some call := by
  obtain ⟨p, w, hp, -⟩ := hs.lifecycle.open_pending ho
  have hpending : s.gate.call_of id = some p.toFunctionCall := by
    rw [Gate.call_of, hp]
    rfl
  rw [hpending, hs.provenance.signed_unique h (hs.provenance.signed_pending hpending)]

/-- What it has in the end. -/
theorem Submitting.outcome (h : s.Submitting numeral d relayer opts ids []) :
    List.Forall₂ (fun id o => s.Open id ∧ s.gate.call_of id = some (o.call numeral)) ids opts := by
  obtain ⟨done, hdone, hsigned⟩ := h.signed
  rw [List.append_nil] at hdone
  subst hdone
  have hopened := (List.forall₂_and_left _ _).2 ⟨h.serving.opened, hsigned⟩
  exact hopened.imp fun id o ho => ⟨ho.1, ho.2.call_of h.reachable ho.1⟩

end Ledger

/-- Nothing of what the gate does takes anything from the script. -/
def World.spares {σ : Type} (d : Deployment) (relayer : AccountId) (keys : List (AccountId × U64))
    (ids : List Nat) (w : World σ) : WorldAction → Prop
  | .gate a => a.spares d relayer keys ids w.ledger
  | .visit _ => True

instance {σ : Type} (d : Deployment) (relayer : AccountId) (keys : List (AccountId × U64))
    (ids : List Nat) (w : World σ) : (a : WorldAction) → Decidable (w.spares d relayer keys ids a)
  | .gate a => inferInstanceAs (Decidable (a.spares d relayer keys ids w.ledger))
  | .visit _ => isTrue trivial

/-- Who submits what, with what deposit. -/
def WorldAction.submission : WorldAction → Option (AccountId × Nat × Bytes)
  | .gate (.call caller deposit _ (.submit_intent b)) => some (caller, deposit, b)
  | _ => none

/-- The relayer submits what the script has built, in time. -/
def World.submits {σ : Type} (numeral : ℚ → JsString) (sha256 : Bytes → Bytes) (js : NearJs)
    (signerKey : KeyPair) (relayer : AccountId) (w : World σ) (opts : FunctionCallArgs)
    (a : WorldAction) : Prop :=
  a.submission =
    some (relayer, 0, buildAndSignFunctionCallIntent numeral sha256 js opts signerKey) ∧
  w.ledger.block_height < opts.maxBlockHeight.val ∧ w.ledger.gate.next_intent_id + 1 < 2 ^ 64

instance {σ : Type} (numeral : ℚ → JsString) (sha256 : Bytes → Bytes) (js : NearJs)
    (signerKey : KeyPair) (relayer : AccountId) (w : World σ) (opts : FunctionCallArgs)
    (a : WorldAction) : Decidable (w.submits numeral sha256 js signerKey relayer opts a) :=
  inferInstanceAs (Decidable (_ = _ ∧ _ < _ ∧ _ < _))

theorem WorldAction.eq_of_submission {a : WorldAction} {caller : AccountId} {deposit : Nat}
    {b : Bytes} (h : a.submission = some (caller, deposit, b)) :
    ∃ spare, a = .gate (.call caller deposit spare (.submit_intent b)) := by
  unfold submission at h
  split at h
  · cases h
    exact ⟨_, rfl⟩
  · cases h

/-- The id that the next submission gets. -/
def World.next_id {σ : Type} (w : World σ) (_ : FunctionCallArgs) : Nat :=
  w.ledger.gate.next_intent_id

/-- The script's submissions, one after the other, from `w` to `w₀`, and the ids they get. -/
def World.Submitted {σ : Type} (numeral : ℚ → JsString) (sha256 : Bytes → Bytes) (js : NearJs)
    {d : Deployment} (r : Receiver d σ) (signerKey : KeyPair) (relayer : AccountId)
    (opts : List FunctionCallArgs) (w w₀ : World σ) (ids : List Nat) : Prop :=
  Served (World.step d r) (fun ids w => w.spares d relayer (opts.map (·.key)) ids)
    (World.submits numeral sha256 js signerKey relayer) World.next_id w [] opts w₀ ids

section Submitted

variable {numeral : ℚ → JsString} {sha256 : Bytes → Bytes} {js : NearJs} {d : Deployment}
  {σ : Type} {r : Receiver d σ} {t₀ : σ} {signerKey : KeyPair} {relayer : AccountId}
  {opts : List FunctionCallArgs} {w w₀ : World σ} {ids : List Nat}

theorem World.Submitted.submitting (h : World.Reachable d r t₀ w) (hjs : js.Official sha256 d.host)
    (hopts : ∀ o ∈ opts, o.Submittable numeral sha256 js d.host signerKey)
    (hnodup : (opts.map (·.key)).Nodup) (hunspent : ∀ o ∈ opts, o.key ∉ w.ledger.spent d)
    (hrelayer : relayer ∈ w.ledger.gate.relayers)
    (hserved : World.Submitted numeral sha256 js r signerKey relayer opts w w₀ ids) :
    w₀.ledger.Submitting numeral d relayer opts ids [] := by
  have hstart : w.ledger.Submitting numeral d relayer opts [] opts := by
    refine ⟨h.ledger, ⟨hrelayer, ?_, ?_, ?_⟩, .nil, [], rfl, .nil⟩
    · exact List.forall_mem_map.2 hunspent
    · exact fun _ hid => absurd hid List.not_mem_nil
    · exact fun _ hid => absurd hid List.not_mem_nil
  refine hserved.invariant
    (I := fun ids bs u => u.ledger.Submitting numeral d relayer opts ids bs) hstart ?_ ?_
  · intro xs bs u a u' hu hspares hst
    rcases World.step_cases hst with ⟨b, rfl, -, hs, -⟩ | ⟨b, call, rfl, -, hs, -⟩ |
      ⟨v, -, -, rfl⟩
    · exact hu.traffic hspares hs
    · exact hu.traffic (hspares.decided _) hs
    · exact hu
  · rintro xs o bs u a u' hu ⟨ha, hintime, hroom⟩ hst
    obtain ⟨spare, rfl⟩ := WorldAction.eq_of_submission ha
    -- a submission is not for the contract
    obtain ⟨s, hs, rfl⟩ := Option.map_eq_some_iff.1 hst
    have ho : o ∈ opts := by
      obtain ⟨done, hdone, -⟩ := hu.signed
      rw [hdone]
      exact List.mem_append_right _ List.mem_cons_self
    exact hu.submission hjs (hopts o ho) hnodup hintime hroom hs

/-- **Every submission is accepted** that is made before its intent expires and whose line
the host logs, amid any traffic that spares the script. The intents get ascending ids, and
after the last submission all of them are still open, for the calls that were asked for,
and no chain names any of them. -/
theorem submissions_accepted (h : World.Reachable d r t₀ w) (hjs : js.Official sha256 d.host)
    (hopts : ∀ o ∈ opts, o.Submittable numeral sha256 js d.host signerKey)
    (hnodup : (opts.map (·.key)).Nodup) (hunspent : ∀ o ∈ opts, o.key ∉ w.ledger.spent d)
    (hrelayer : relayer ∈ w.ledger.gate.relayers)
    (hserved : World.Submitted numeral sha256 js r signerKey relayer opts w w₀ ids) :
    List.Forall₂ (fun id o => w₀.ledger.Open id ∧ w₀.ledger.gate.call_of id = some (o.call numeral))
      ids opts ∧
    ids.Pairwise (· < ·) ∧ ∀ id ∈ ids, ¬ w₀.ledger.Named id := by
  have hend := hserved.submitting h hjs hopts hnodup hunspent hrelayer
  exact ⟨hend.outcome, hend.ascending, hend.serving.unnamed⟩

end Submitted

section Demo

open SequentialNear.Demo

/-- An intent of alice's as `submitIntent` builds it. -/
def script_args (nonce : U64) (receiver : AccountId) (method : String) (args : Json) :
    FunctionCallArgs where
  sender := alice
  receiver := receiver
  method := method
  args := args
  deposit := some 0
  gas := some 30000000000000
  nonce := nonce
  maxBlockHeight := 1000000
  publicKey := public_key

theorem script_args_submittable {host : Host} {table : List (DelegateAction × Nat × Nat)}
    {nonce : U64} {receiver : AccountId} {method : String} {args : Json}
    (h : (host.is_valid_account_id alice.id = true ∧ host.is_valid_account_id receiver.id = true ∧
      receiver.id.toByteArray.size < 2 ^ 32 ∧ method.toByteArray.size < 2 ^ 32) ∧
      (Json.encode (Json.stringify plain_decimal args)).length < 2 ^ 32 ∧
      let message := (script_args nonce receiver method args).digest plain_decimal host.sha256
        near_js
      host.ed25519_verify ((key_of table).sign message).bytes.toList message
        public_key.bytes.toList = true ∧
      (submitted_line (2 ^ 64 - 1) (buildFunctionCallDelegate plain_decimal
        (script_args nonce receiver method args)) method).utf8ByteSize ≤
          host.max_total_log_length) :
    (script_args nonce receiver method args).Submittable plain_decimal host.sha256 near_js host
      (key_of table) where
  valid :=
    have hsize : alice.id.toByteArray.size < 2 ^ 32 := by decide
    ⟨⟨h.1.1, hsize⟩, ⟨h.1.2.1, h.1.2.2.1⟩, h.1.2.2.2, h.2.1⟩
  genuine := h.2.2.1
  shown := rfl
  loggable := h.2.2.2

def set_args (nonce : U64) (value : String) : FunctionCallArgs :=
  script_args nonce register "set" (.object [(utf16 "value", .string (utf16 value))])

/-- Somebody else's intent is submitted and resumed between the two of the script. -/
theorem submissions_accepted_demo : ∃ w : World Register, w.ledger.gate.next_intent_id = 3 ∧
    w.ledger.gate.call_of 0 = some ((set_args 1 "11").call plain_decimal) ∧
    w.ledger.gate.call_of 2 = some ((set_args 2 "22").call plain_decimal) ∧
    w.ledger.Open 0 ∧ w.ledger.Open 2 := by
  have hsubmittable : ∀ o ∈ [set_args 1 "11", set_args 2 "22"],
      o.Submittable plain_decimal host.sha256 near_js host (key_of table) := by
    rw [List.forall_mem_cons, List.forall_mem_singleton]
    exact ⟨script_args_submittable (by decide +kernel), script_args_submittable (by decide +kernel)⟩
  obtain ⟨w, hrun, hrelayer, hspent, hserve⟩ : ∃ w : World Register,
      Run (World.step deployment register_demo) anyAction ⟨start, Register.default, []⟩ w ∧
      relayer ∈ w.ledger.gate.relayers ∧ w.ledger.spent deployment = [] ∧
      (serve (World.step deployment register_demo)
        (fun ids w => w.spares deployment relayer [(alice, 1), (alice, 2)] ids)
        (World.submits plain_decimal host.sha256 near_js (key_of table) relayer) World.next_id
        [.gate (.advance 1)]
        [([], set_args 1 "11", .gate (.call relayer 0 0 (.submit_intent (signed set11)))),
          ([.gate (.call relayer 0 0 (.submit_intent (signed set33))),
            .gate (.call approver FEE 0 (.resume_intent 1 true)), .gate (.advance 1),
            .gate (.run_callback 0 0)],
          set_args 2 "22", .gate (.call relayer 0 0 (.submit_intent (signed set22))))] w []).any
        (fun t => t.1.ledger.gate.next_intent_id = 3 ∧ t.2 = [0, 2]) = true :=
    exists_run_of_exec [.gate (.call owner 0 0 (.add_relayer relayer))] _ (by decide +kernel)
  obtain ⟨w₀, ids, hserved, hnext, rfl⟩ := exists_served_of_serve _ _
    (fun (t : World Register) ids => t.ledger.gate.next_intent_id = 3 ∧ ids = [0, 2]) hserve
  obtain ⟨hopen, -, -⟩ := submissions_accepted ⟨_, _, _, _, hrun⟩
    ⟨fun _ => rfl, fun _ => rfl, rfl⟩ hsubmittable (by decide)
    (fun o _ => by rw [hspent]; exact List.not_mem_nil) hrelayer hserved
  rw [List.forall₂_cons, List.forall₂_cons] at hopen
  obtain ⟨⟨hopen₀, hcall₀⟩, ⟨hopen₂, hcall₂⟩, -⟩ := hopen
  exact ⟨w₀, hnext, hcall₀, hcall₂, hopen₀, hopen₂⟩

end Demo

end SequentialNear
