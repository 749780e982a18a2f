/-
`scripts/src/directSender.ts`: how the scripts' transactions get to the chain.

A sender reads the nonce of its access key once and counts by itself from there; a nonce
whose transaction cannot be signed is lost. What it broadcasts may be repeated, by
`rpcCall` or on the way, and overtaken or lost; the chain executes a transaction when its
nonce is greater than the key's, which it then becomes. That is a numbered line
([`wire_step_eq`]) whose state is the world: no call of the script takes effect twice or
out of turn, whatever happens on the way ([`broadcasts_executed_once`]), and a script that
waits for each of its submissions gets them all accepted ([`submissions_over_line`]).
-/
import SequentialNear.Numbered
import SequentialNear.Submissions

set_option autoImplicit false

namespace SequentialNear

open Borsh Nep366 Runs
open Numbered (Line Step)

/-! ## `makeDirectSender` -/

/-- What is put into a transaction, besides the sender and the nonce. -/
structure CallBody where
  receiver_id : AccountId
  method_name : String
  args : Bytes
  gas : Nat
  deposit : Nat
deriving DecidableEq

structure DirectSender where
  accountId : AccountId
  nextNonce : Nat
deriving DecidableEq

/-- `nonce` is the access key's, as far as the node knows. -/
def makeDirectSender (accountId : AccountId) (nonce : Nat) : DirectSender := ⟨accountId, nonce + 1⟩

/-- The action of a transaction, and whom it is for. -/
def functionCall (numeral : ℚ → JsString) (receiverId : AccountId) (methodName : String)
    (args : Json) (gasTgas depositYocto : Nat) : CallBody where
  receiver_id := receiverId
  method_name := methodName
  args := Json.encode (Json.stringify numeral args)
  gas := gasTgas * 1000000000000
  deposit := depositYocto

/-- The transaction that is broadcast, and the sender after it. The nonce is taken before
the node is asked for a block and the signer for a signature; either may reject. -/
def DirectSender.broadcastFunctionCall (numeral : ℚ → JsString) (sender : DirectSender)
    (receiverId : AccountId) (methodName : String) (args : Json) (gasTgas depositYocto : Nat)
    (freshBlockHash signTransaction : Except JsString Unit) :
    Except JsString (Nat × CallBody) × DirectSender :=
  let nonce := sender.nextNonce
  let sender := { sender with nextNonce := sender.nextNonce + 1 }
  let signedTx := do
    freshBlockHash
    signTransaction
    return (nonce, functionCall numeral receiverId methodName args gasTgas depositYocto)
  (signedTx, sender)

/-- A call of `broadcastFunctionCall`, with the answers it gets. -/
structure Broadcast where
  receiverId : AccountId
  methodName : String
  args : Json
  gasTgas : Nat
  depositYocto : Nat
  freshBlockHash : Except JsString Unit
  signTransaction : Except JsString Unit

def Broadcast.run (numeral : ℚ → JsString) (b : Broadcast) (sender : DirectSender) :
    Except JsString (Nat × CallBody) × DirectSender :=
  sender.broadcastFunctionCall numeral b.receiverId b.methodName b.args b.gasTgas b.depositYocto
    b.freshBlockHash b.signTransaction

/-- The transaction, if it is signed. -/
def Broadcast.body (numeral : ℚ → JsString) (b : Broadcast) : CallBody :=
  functionCall numeral b.receiverId b.methodName b.args b.gasTgas b.depositYocto

/-! ## The way to the chain -/

/-- What a transaction has the gate do. -/
def CallBody.gate_call (d : Deployment) (body : CallBody) : Option GateCall :=
  if body.receiver_id = d.gate_id then d.decode_call body.method_name body.args else none

/-- An action that is a transaction of this account. -/
def WorldAction.caller : WorldAction → Option AccountId
  | .gate (.call caller _ _ _) => some caller
  | _ => none

namespace World

variable {σ : Type} (d : Deployment) (r : Receiver d σ) (account : AccountId)

/-- A transaction of `account` is executed; `spare` is what its gas leaves for a yield. What
it does elsewhere than at the gate is left out. -/
def perform (body : CallBody) (spare : Nat) (w : World σ) : Option (World σ) :=
  match body.gate_call d with
  | some c => World.step d r w (.gate (.call account body.deposit spare c))
  | none => some w

/-- Everything that is no transaction of `account`. -/
def others (w : World σ) (a : WorldAction) : Option (World σ) :=
  if a.caller = some account then none else World.step d r w a

end World

/-- What happens between a sender and the chain. -/
inductive WireAction
  | broadcast (b : Broadcast)
  /-- The `i`-th of the broadcast transactions arrives, maybe again. -/
  | deliver (i spare : Nat)
  /-- Somebody else uses the key. -/
  | skip (n : Nat)
  | other (a : WorldAction)

section Wire

variable {S : Type} (numeral : ℚ → JsString) (account : AccountId)
  (perform : CallBody → Nat → S → Option S) (act : S → WorldAction → Option S)

/-- The sender of `account` and its transactions: `l.next` is its `nextNonce` and `l.last`
the nonce of its key. -/
def wire_step (l : Line S CallBody) : WireAction → Option (Line S CallBody)
  | .broadcast b =>
    let (signedTx, sender) := b.run numeral ⟨account, l.next⟩
    some { l with next := sender.nextNonce, sent := l.sent ++ signedTx.toOption.toList }
  | .deliver i spare => Line.step perform act l (.deliver i spare)
  | .skip n => Line.step perform act l (.skip n)
  | .other a => Line.step perform act l (.other a)

/-- What an action is to the line. -/
def WireAction.line : WireAction → Step WorldAction CallBody Nat
  | .broadcast b =>
    match b.freshBlockHash, b.signTransaction with
    | .ok _, .ok _ => .send (b.body numeral)
    | _, _ => .waste
  | .deliver i spare => .deliver i spare
  | .skip n => .skip n
  | .other a => .other a

/-- **A sender numbers its transactions** as the line does. -/
theorem wire_step_eq (l : Line S CallBody) (e : WireAction) :
    wire_step numeral account perform act l e = Line.step perform act l (e.line numeral) := by
  cases e with
  | broadcast b =>
    obtain ⟨receiverId, methodName, args, gasTgas, depositYocto, freshBlockHash,
      signTransaction⟩ := b
    cases freshBlockHash with
    | error text => exact congrArg some (congrArg (Line.mk _ · _ _ _) (List.append_nil _))
    | ok =>
      cases signTransaction with
      | error text => exact congrArg some (congrArg (Line.mk _ · _ _ _) (List.append_nil _))
      | ok => rfl
  | _ => rfl

end Wire

/-- The call of an account that an entry accepted. -/
def Entry.accepted_of (account : AccountId) (en : Entry) : Option (Nat × GateCall) :=
  match en.event with
  | .accepted caller deposit c => if caller = account then some (deposit, c) else none
  | _ => none

namespace Ledger

variable {d : Deployment} {s s' : Ledger} {a : Action} {account : AccountId}

/-- The calls of an account that the gate accepted, in order. -/
def accepted_of (account : AccountId) (s : Ledger) : List (Nat × GateCall) :=
  s.log.filterMap (Entry.accepted_of account)

theorem accepted_of_log {e : Event} (hlog : s'.log = s.log ++ [⟨s.block_height, s.gate, e⟩]) :
    s'.accepted_of account = s.accepted_of account ++
      ((⟨s.block_height, s.gate, e⟩ : Entry).accepted_of account).toList := by
  rw [accepted_of, hlog, filterMap_concat, accepted_of]

/-- What is no transaction of the account has no call of it accepted. -/
theorem accepted_of_step (hne : account ≠ d.gate_id)
    (ha : ∀ deposit spare c, a ≠ .call account deposit spare c) (hst : step d s a = some s') :
    s'.accepted_of account = s.accepted_of account := by
  refine step_preserves (fun t => t.accepted_of account = s.accepted_of account) hst rfl ?_
  intro t t' ht hmove
  rcases hmove.logs with hlog | ⟨e, hlog, hcause⟩
  · rw [accepted_of, hlog]
    exact ht
  · rw [accepted_of_log hlog, ht]
    suffices hnone : (⟨t.block_height, t.gate, e⟩ : Entry).accepted_of account = none by
      rw [hnone]
      exact List.append_nil _
    cases e with
    | accepted caller deposit c =>
      obtain ⟨-, -, -, hcaller, -⟩ := hcause
      refine if_neg ?_
      rintro rfl
      rcases hcaller with ⟨⟨spare, hcall⟩, -⟩ | ⟨-, hgate⟩
      · exact ha deposit spare c hcall
      · exact hne hgate
    | _ => rfl

/-- A transaction's call is accepted once at most. -/
theorem accepted_of_call {deposit spare : Nat} {c : GateCall}
    (hst : step d s (.call account deposit spare c) = some s') :
    ∃ calls, s'.accepted_of account = s.accepted_of account ++ calls ∧
      calls.Sublist [(deposit, c)] := by
  obtain rfl := eq_of_step_call hst
  rcases s.call_cases (d := d) account deposit spare c with ⟨msg, hcall⟩ | ⟨out, -, hcall⟩
  · have hlog : (s.call d account deposit spare c).1.log =
        s.log ++ [⟨s.block_height, s.gate, .refused account deposit c msg⟩] := by
      rw [hcall]
      rfl
    exact ⟨[], accepted_of_log hlog, List.nil_sublist _⟩
  · have hlog : (s.call d account deposit spare c).1.log =
        s.log ++ [⟨s.block_height, s.gate, .accepted account deposit c⟩] := by
      rw [hcall]
      exact apply_log _ _ _ _ _
    have hentry : (⟨s.block_height, s.gate, .accepted account deposit c⟩ :
        Entry).accepted_of account = some (deposit, c) := if_pos rfl
    rw [accepted_of_log hlog, hentry]
    exact ⟨_, rfl, List.Sublist.refl _⟩

end Ledger

/-! ## Nothing twice, nothing out of turn -/

/-- The gate call that a transaction asks for, with its deposit. -/
def CallBody.asked (d : Deployment) (body : CallBody) : Option (Nat × GateCall) :=
  (body.gate_call d).map fun c => (body.deposit, c)

section Broadcast

variable {numeral : ℚ → JsString} {d : Deployment} {σ : Type} {r : Receiver d σ}
  {account : AccountId} {l l' : Line (World σ) CallBody} {w : World σ}

/-- The calls that the gate accepted from the account since `w` are among those of the
executed transactions. -/
def Backed (d : Deployment) (account : AccountId) (w : World σ) (l : Line (World σ) CallBody) :
    Prop :=
  ∃ calls, l.state.ledger.accepted_of account = w.ledger.accepted_of account ++ calls ∧
    calls.Sublist (l.taken.filterMap (·.2.asked d))

theorem World.perform_accepted {body : CallBody} {spare : Nat} {w' : World σ}
    (h : World.perform d r account body spare w = some w') :
    ∃ calls, w'.ledger.accepted_of account = w.ledger.accepted_of account ++ calls ∧
      calls.Sublist (body.asked d).toList := by
  unfold perform at h
  split at h
  · rename_i c hc
    obtain ⟨s, hs, rfl⟩ := Option.map_eq_some_iff.1 h
    rw [CallBody.asked, hc]
    exact Ledger.accepted_of_call hs
  · cases h
    exact ⟨[], (List.append_nil _).symm, List.nil_sublist _⟩

/-- What others do is no transaction of the account. -/
theorem World.others_step {a : WorldAction} {w' : World σ}
    (h : World.others d r account w a = some w') :
    a.caller ≠ some account ∧ World.step d r w a = some w' := by
  unfold others at h
  split at h
  · cases h
  · rename_i hcaller
    exact ⟨hcaller, h⟩

theorem World.others_accepted (hne : account ≠ d.gate_id) {a : WorldAction} {w' : World σ}
    (h : World.others d r account w a = some w') :
    w'.ledger.accepted_of account = w.ledger.accepted_of account := by
  obtain ⟨hcaller, h⟩ := World.others_step h
  rcases World.step_cases h with ⟨b, rfl, -, hs, -⟩ | ⟨b, call, rfl, -, hs, -⟩ |
    ⟨v, -, -, rfl⟩
  · refine Ledger.accepted_of_step hne ?_ hs
    rintro deposit spare c rfl
    exact hcaller rfl
  · refine Ledger.accepted_of_step hne ?_ hs
    intro deposit spare c hb
    cases b with
    | call caller deposit' spare' c' =>
      cases hb
      exact hcaller rfl
    | _ => cases hb
  · rfl

theorem Backed.step (h : Backed d account w l) (hne : account ≠ d.gate_id)
    {e : Step WorldAction CallBody Nat}
    (hst : Line.step (World.perform d r account) (World.others d r account) l e = some l') :
    Backed d account w l' := by
  obtain ⟨calls, hcalls, hsub⟩ := h
  rcases Line.step_cases hst with ⟨b, -, rfl⟩ | ⟨-, rfl⟩ |
    ⟨i, spare, q, u, -, -, -, hperform, rfl⟩ | ⟨i, spare, q, -, -, -, rfl⟩ | ⟨n, -, -, rfl⟩ |
    ⟨a, u, -, hact, rfl⟩
  · exact ⟨calls, hcalls, hsub⟩
  · exact ⟨calls, hcalls, hsub⟩
  · obtain ⟨new, hnew, hasked⟩ := World.perform_accepted hperform
    refine ⟨calls ++ new, ?_, ?_⟩
    · rw [hnew, hcalls, List.append_assoc]
    · rw [filterMap_concat]
      exact hsub.append hasked
  · exact ⟨calls, hcalls, hsub⟩
  · exact ⟨calls, hcalls, hsub⟩
  · exact ⟨calls, (World.others_accepted hne hact).trans hcalls, hsub⟩

/-- What a sender and the chain do is a run of the line. -/
theorem run_line {G : Line (World σ) CallBody → WireAction → Prop}
    (h : Run (wire_step numeral account (World.perform d r account) (World.others d r account)) G
      l l') :
    Run (Line.step (World.perform d r account) (World.others d r account)) anyAction l l' := by
  refine h.invariant (I := Run (Line.step (World.perform d r account)
    (World.others d r account)) anyAction l) (Run.refl l) ?_
  intro t e t' ht _ hst
  rw [wire_step_eq] at hst
  exact ht.tail trivial hst

/-- **Whatever is repeated, lost or overtaken**, and whenever a signature fails, the
transactions that are broadcast have ascending nonces; those that are executed are executed
once and in the order of broadcasting; and the calls that the gate accepts from the account
are, in order, some of theirs. What is executed later is none that had been overtaken. -/
theorem broadcasts_executed_once (hne : account ≠ d.gate_id) {viewed last : Nat}
    (hrun : Run (wire_step numeral account (World.perform d r account)
      (World.others d r account)) anyAction
      (Line.start (makeDirectSender account viewed).nextNonce last w) l) :
    l.sent.Pairwise (fun q q' => q.1 < q'.1) ∧ (∀ q ∈ l.sent, viewed < q.1) ∧
    l.taken.Sublist l.sent ∧ (l.taken.map Prod.fst).Nodup ∧
    (∃ calls, l.state.ledger.accepted_of account = w.ledger.accepted_of account ++ calls ∧
      calls.Sublist (l.taken.filterMap (·.2.asked d)) ∧
      calls.Sublist (l.sent.filterMap (·.2.asked d))) ∧
    ∀ l', Run (wire_step numeral account (World.perform d r account)
      (World.others d r account)) anyAction l l' →
        ∃ later, l'.taken = l.taken ++ later ∧ ∀ q ∈ later, l.last < q.1 := by
  have hline := run_line hrun
  have hkept : l.Kept (viewed + 1) := (Line.Kept.start (viewed + 1) last w).run hline
  obtain ⟨calls, hcalls, hsub⟩ : Backed d account w l := by
    refine hline.invariant (I := Backed d account w) ?_ fun t e t' ht _ hst => ht.step hne hst
    exact ⟨[], (List.append_nil _).symm, List.Sublist.refl _⟩
  have htaken := hkept.taken_sublist
  refine ⟨hkept.numbers, fun q hq => (hkept.range q hq).1, htaken, ?_,
    ⟨calls, hcalls, hsub, hsub.trans (htaken.filterMap _)⟩, fun l' hrun' =>
      (Line.taken_later (run_line hrun')).2⟩
  rw [List.Nodup, List.pairwise_map]
  exact hkept.ascending.imp fun hlt => Nat.ne_of_lt hlt

end Broadcast

/-! ## Submissions, one after the other -/

/-- The code unit of a digit of base 64. -/
def base64Digit (k : Nat) : Nat :=
  if k < 26 then 0x41 + k
  else if k < 52 then 0x61 + (k - 26)
  else if k < 62 then 0x30 + (k - 52)
  else if k = 62 then 0x2b
  else 0x2f

/-- `toString("base64")`. -/
def base64 : Bytes → JsString
  | a :: b :: c :: rest =>
    base64Digit (a.toNat / 4) :: base64Digit (a.toNat % 4 * 16 + b.toNat / 16) ::
      base64Digit (b.toNat % 16 * 4 + c.toNat / 64) :: base64Digit (c.toNat % 64) :: base64 rest
  | [a, b] =>
    [base64Digit (a.toNat / 4), base64Digit (a.toNat % 4 * 16 + b.toNat / 16),
      base64Digit (b.toNat % 16 * 4), 0x3d]
  | [a] => [base64Digit (a.toNat / 4), base64Digit (a.toNat % 4 * 16), 0x3d, 0x3d]
  | [] => []

def GAS_SUBMIT_TGAS : Nat := 300

section SubmitIntent

variable (numeral : ℚ → JsString) (sha256 : Bytes → Bytes) (js : NearJs) (d : Deployment)
  (signerKey : KeyPair)

/-- `{ signed_delegate: base64 }`. -/
def FunctionCallArgs.submitArgs (opts : FunctionCallArgs) : Json :=
  .object [(utf16 "signed_delegate",
    .string (base64 (buildAndSignFunctionCallIntent numeral sha256 js opts signerKey)))]

/-- What `submitIntent` broadcasts. -/
def FunctionCallArgs.submitIntent (opts : FunctionCallArgs)
    (freshBlockHash signTransaction : Except JsString Unit) : Broadcast where
  receiverId := d.gate_id
  methodName := "submit_intent"
  args := opts.submitArgs numeral sha256 js signerKey
  gasTgas := GAS_SUBMIT_TGAS
  depositYocto := 0
  freshBlockHash := freshBlockHash
  signTransaction := signTransaction

/-- The gate's dispatch decodes the arguments of the transaction. -/
def FunctionCallArgs.Arrives (opts : FunctionCallArgs) : Prop :=
  d.decode_call "submit_intent" (Json.encode (Json.stringify numeral
    (opts.submitArgs numeral sha256 js signerKey))) =
      some (.submit_intent (buildAndSignFunctionCallIntent numeral sha256 js opts signerKey))

end SubmitIntent

section Noted

variable {σ : Type} (d : Deployment) (r : Receiver d σ) (relayer : AccountId)

/-- The relayer's transaction is executed, and the script notes the id that it reads. -/
def World.perform_noted (body : CallBody) (spare : Nat) (w : World σ × List Nat) :
    Option (World σ × List Nat) :=
  (World.perform d r relayer body spare w.1).map fun u =>
    (u, w.2 ++ [w.1.ledger.gate.next_intent_id])

def World.others_noted (w : World σ × List Nat) (a : WorldAction) :
    Option (World σ × List Nat) :=
  (World.others d r relayer w.1 a).map fun u => (u, w.2)

end Noted

section Submit

variable (numeral : ℚ → JsString) (sha256 : Bytes → Bytes) (js : NearJs) (d : Deployment)
  {σ : Type} (signerKey : KeyPair) (relayer : AccountId) (opts : List FunctionCallArgs)

/-- The script broadcasts the next intent when it has seen the transactions before it
executed; each first arrives before its intent expires; only the script uses the relayer's
key, and the others spare it. A broadcast that fails to be signed may be tried again. -/
def Submits (l : Line (World σ × List Nat) CallBody) : WireAction → Prop
  | .broadcast b => l.taken = l.sent ∧ ∃ o ∈ opts[l.sent.length]?,
    b.body numeral = (o.submitIntent numeral sha256 js d signerKey b.freshBlockHash
      b.signTransaction).body numeral
  | .deliver i _ => ∀ q ∈ l.sent[i]?, l.last < q.1 → ∀ o ∈ opts[l.taken.length]?,
    l.state.1.ledger.block_height < o.maxBlockHeight.val ∧
      l.state.1.ledger.gate.next_intent_id + 1 < 2 ^ 64
  | .skip _ => False
  | .other a => l.state.1.spares d relayer (opts.map (·.key)) l.state.2 a

instance (l : Line (World σ × List Nat) CallBody) : (e : WireAction) →
    Decidable (Submits numeral sha256 js d signerKey relayer opts l e)
  | .broadcast _ => inferInstanceAs (Decidable (_ = _ ∧ ∃ o ∈ opts[l.sent.length]?, _ = _))
  | .deliver i _ => inferInstanceAs (Decidable (∀ q ∈ l.sent[i]?, l.last < q.1 →
      ∀ o ∈ opts[l.taken.length]?, _ < _ ∧ _ < _))
  | .skip _ => isFalse id
  | .other a => inferInstanceAs (Decidable (l.state.1.spares d relayer _ l.state.2 a))

end Submit

section Line

variable {numeral : ℚ → JsString} {sha256 : Bytes → Bytes} {js : NearJs} {d : Deployment}
  {σ : Type} {r : Receiver d σ} {t₀ : σ} {signerKey : KeyPair} {relayer : AccountId}
  {opts : List FunctionCallArgs} {first : Nat} {w : World σ}
  {l l' : Line (World σ × List Nat) CallBody}

/-- Where the script stands: what is on the line are the transactions of its first intents,
and what has been executed of them it has submitted. -/
structure OnTheLine (numeral : ℚ → JsString) (sha256 : Bytes → Bytes) (js : NearJs)
    {d : Deployment} (r : Receiver d σ) (signerKey : KeyPair) (relayer : AccountId)
    (opts : List FunctionCallArgs) (first : Nat) (w : World σ)
    (l : Line (World σ × List Nat) CallBody) : Prop where
  awaited : l.Awaited first
  bodies : ∀ (i : Nat) q, l.sent[i]? = some q → ∃ o ∈ opts[i]?,
    q.2 = (o.submitIntent numeral sha256 js d signerKey (.ok ()) (.ok ())).body numeral
  served : Served (World.step d r) (fun ids w => w.spares d relayer (opts.map (·.key)) ids)
    (World.submits numeral sha256 js signerKey relayer) World.next_id w []
    (opts.take l.taken.length) l.state.1 l.state.2

/-- Executing the transaction of an intent is submitting it. -/
theorem perform_submits {o : FunctionCallArgs} {q : Nat × CallBody} {spare : Nat}
    {w w' : World σ × List Nat} (hread : o.Arrives numeral sha256 js d signerKey)
    (hbody : q.2 = (o.submitIntent numeral sha256 js d signerKey (.ok ()) (.ok ())).body numeral)
    (hperform : World.perform_noted d r relayer q.2 spare w = some w') :
    World.step d r w.1 (.gate (.call relayer 0 spare (.submit_intent
      (buildAndSignFunctionCallIntent numeral sha256 js o signerKey)))) = some w'.1 ∧
      w'.2 = w.2 ++ [w.1.next_id o] := by
  obtain ⟨u, hu, rfl⟩ := Option.map_eq_some_iff.1 hperform
  have hcall : q.2.gate_call d = some (.submit_intent
      (buildAndSignFunctionCallIntent numeral sha256 js o signerKey)) := by
    rw [hbody]
    exact (if_pos rfl).trans hread
  have hfree : q.2.deposit = 0 := by
    rw [hbody]
    rfl
  simp only [World.perform, hcall, hfree] at hu
  exact ⟨hu, rfl⟩

theorem OnTheLine.step (h : OnTheLine numeral sha256 js r signerKey relayer opts first w l)
    (hread : ∀ o ∈ opts, o.Arrives numeral sha256 js d signerKey) {e : WireAction}
    (hG : Submits numeral sha256 js d signerKey relayer opts l e)
    (hst : wire_step numeral relayer (World.perform_noted d r relayer)
      (World.others_noted d r relayer) l e = some l') :
    OnTheLine numeral sha256 js r signerKey relayer opts first w l' := by
  rw [wire_step_eq] at hst
  have hwaits : l.Awaits (e.line numeral) := by
    cases e with
    | broadcast b =>
      simp only [WireAction.line]
      split
      · exact hG.1
      · trivial
    | skip n => exact hG
    | _ => trivial
  have hawaited := h.awaited.step hwaits hst
  cases e with
  | broadcast b =>
    -- the transaction of the next intent, or none
    obtain ⟨-, o, ho, hbody⟩ := hG
    simp only [WireAction.line] at hst
    split at hst
    · obtain rfl := Option.some.inj hst
      refine ⟨hawaited, fun i q hq => ?_, h.served⟩
      by_cases hi : i < l.sent.length
      · rw [List.getElem?_append_left hi] at hq
        exact h.bodies i q hq
      · have hlast : i = l.sent.length := by
          have hlength := (List.getElem?_eq_some_iff.1 hq).1
          rw [List.length_append, List.length_singleton] at hlength
          omega
        subst hlast
        rw [List.getElem?_concat_length] at hq
        obtain rfl := Option.some.inj hq
        exact ⟨o, ho, hbody⟩
    · obtain rfl := Option.some.inj hst
      exact ⟨hawaited, h.bodies, h.served⟩
  | deliver i spare =>
    rcases Line.step_cases hst with ⟨_, heq, -⟩ | ⟨heq, -⟩ | ⟨_, _, q, u, heq, hq, hlt, hu, rfl⟩ |
      ⟨_, _, q, -, -, -, rfl⟩ | ⟨_, heq, -⟩ | ⟨_, _, heq, -⟩
    · cases heq
    · cases heq
    · -- the transaction that is waited for
      cases heq
      have hsent := h.awaited.fresh hq hlt
      have hplace : l.sent[l.taken.length]? = some q := by
        rw [hsent, List.getElem?_concat_length]
      obtain ⟨o, ho, hbody⟩ := h.bodies _ q hplace
      obtain ⟨hst', hnote⟩ := perform_submits (hread o (List.mem_of_getElem? ho)) hbody hu
      obtain ⟨hintime, hroom⟩ := hG q hq hlt o ho
      refine ⟨hawaited, h.bodies, ?_⟩
      have htake : opts.take (l.taken ++ [q]).length = opts.take l.taken.length ++ [o] := by
        rw [List.length_append, List.length_singleton, List.take_add_one, ho]
        rfl
      rw [htake, hnote]
      exact h.served.request ⟨rfl, hintime, hroom⟩ hst'
    · exact h
    · cases heq
    · cases heq
  | skip n => exact absurd hG id
  | other a =>
    obtain ⟨u, hu, rfl⟩ := Option.map_eq_some_iff.1 hst
    obtain ⟨v, hv, rfl⟩ := Option.map_eq_some_iff.1 hu
    exact ⟨hawaited, h.bodies, h.served.traffic hG (World.others_step hv).2⟩

theorem OnTheLine.submitted (h : OnTheLine numeral sha256 js r signerKey relayer opts first w l) :
    World.Submitted numeral sha256 js r signerKey relayer (opts.take l.taken.length) w l.state.1
      l.state.2 := by
  refine h.served.mono fun ids u a hspares => ?_
  cases a with
  | gate b =>
    have hspares' : b.spares d relayer (opts.map (·.key)) ids u.ledger := hspares
    exact hspares'.mono (List.map_subset _ (List.take_subset _ _))
  | visit v => trivial

/-- **A script that waits gets all its intents accepted**, if it alone uses the relayer's key
and each of its transactions first arrives before its intent expires, whatever is repeated
on the way. What has been executed at any moment are the submissions of its first intents,
one after the other, as [`World.Submitted`] has them: they are open for the calls that were
asked for. At most one transaction is on its way, and it is executed when it arrives. -/
theorem submissions_over_line (h : World.Reachable d r t₀ w) (hjs : js.Official sha256 d.host)
    (hopts : ∀ o ∈ opts, o.Submittable numeral sha256 js d.host signerKey)
    (hnodup : (opts.map (·.key)).Nodup) (hunspent : ∀ o ∈ opts, o.key ∉ w.ledger.spent d)
    (hrelayer : relayer ∈ w.ledger.gate.relayers)
    (hread : ∀ o ∈ opts, o.Arrives numeral sha256 js d signerKey) {nonce : Nat}
    (hrun : Run (wire_step numeral relayer (World.perform_noted d r relayer)
      (World.others_noted d r relayer)) (Submits numeral sha256 js d signerKey relayer opts)
      (Line.start (makeDirectSender relayer nonce).nextNonce nonce (w, [])) l) :
    World.Submitted numeral sha256 js r signerKey relayer (opts.take l.taken.length) w l.state.1
      l.state.2 ∧
    List.Forall₂ (fun id o => l.state.1.ledger.Open id ∧
      l.state.1.ledger.gate.call_of id = some (o.call numeral)) l.state.2
        (opts.take l.taken.length) ∧
    l.state.2.Pairwise (· < ·) ∧ (∀ id ∈ l.state.2, ¬ l.state.1.ledger.Named id) ∧
    (l.taken = l.sent ∨ ∃ q, l.sent = l.taken ++ [q] ∧ ∀ (i spare : Nat) l',
      l.sent[i]? = some q →
      wire_step numeral relayer (World.perform_noted d r relayer) (World.others_noted d r relayer)
        l (.deliver i spare) = some l' → l'.taken = l'.sent) := by
  have hline : OnTheLine numeral sha256 js r signerKey relayer opts (nonce + 1) w l := by
    refine hrun.invariant (I := OnTheLine numeral sha256 js r signerKey relayer opts (nonce + 1) w)
      ⟨.start nonce (w, []), fun i q hq => ?_, .rest (Run.refl w)⟩ ?_
    · cases hq
    · exact fun t e t' ht hG hst => ht.step hread hG hst
  have hsubmitted := hline.submitted
  have hbegun : ∀ o ∈ opts.take l.taken.length, o ∈ opts := fun o ho => List.mem_of_mem_take ho
  have hkeys : ((opts.take l.taken.length).map (·.key)).Nodup :=
    hnodup.sublist ((List.take_sublist _ _).map _)
  have hend := hsubmitted.submitting h hjs (fun o ho => hopts o (hbegun o ho)) hkeys
    (fun o ho => hunspent o (hbegun o ho)) hrelayer
  refine ⟨hsubmitted, hend.outcome, hend.ascending, hend.serving.unnamed, ?_⟩
  rcases hline.awaited.waiting with hall | ⟨q, hwaiting, -⟩
  · exact .inl hall
  · refine .inr ⟨q, hwaiting, fun i spare l' hq hst => ?_⟩
    rw [wire_step_eq] at hst
    exact hline.awaited.arrives hwaiting hq hst

end Line

section Demo

open SequentialNear.Demo

/-- The gate's dispatch, on the arguments that the script's transactions have. -/
def decode_submission (method : String) (args : Bytes) : Option GateCall :=
  if method = "submit_intent" then
    ([set_args 1 "11", set_args 2 "22"].find? fun o => args = Json.encode (Json.stringify
      plain_decimal (o.submitArgs plain_decimal host.sha256 near_js (key_of table)))).map fun o =>
        .submit_intent
          (buildAndSignFunctionCallIntent plain_decimal host.sha256 near_js o (key_of table))
  else none

def sender_deployment : Deployment := { deployment with decode_call := decode_submission }

def sender_demo : Receiver sender_deployment Register :=
  Register.receiver sender_deployment register (by decide) decode_register

/-- The broadcast of an intent. -/
def submit_demo (o : FunctionCallArgs) : Broadcast :=
  o.submitIntent plain_decimal host.sha256 near_js sender_deployment (key_of table)
    (.ok ()) (.ok ())

/-- The gate when the relayer has been added. -/
def one_relayer : World Register :=
  ⟨{ start with gate := { start.gate with relayers := singleton relayer } }, Register.default, []⟩

instance any_step_decidable {σ : Type} (l : Line (World σ) CallBody) (e : WireAction) :
    Decidable (anyAction l e) := isTrue trivial

/-- The second transaction overtakes the first, and arrives twice: the gate accepts it once,
and the first one can never be executed again. Between the two a nonce is lost. -/
theorem broadcasts_executed_once_demo : ∃ l : Line (World Register) CallBody,
    l.sent.map Prod.fst = [7, 9] ∧ l.taken.map Prod.fst = [9] ∧
    l.state.ledger.gate.next_intent_id = 1 ∧
    ∀ l', Run (wire_step plain_decimal relayer (World.perform sender_deployment sender_demo relayer)
      (World.others sender_deployment sender_demo relayer)) anyAction l l' →
        7 ∉ l'.taken.map Prod.fst := by
  obtain ⟨l, hrun, hsent, htaken, hlast, hnext⟩ : ∃ l,
      Run (wire_step plain_decimal relayer
        (World.perform sender_deployment sender_demo relayer)
        (World.others sender_deployment sender_demo relayer)) anyAction
        (Line.start (makeDirectSender relayer 6).nextNonce 6 one_relayer) l ∧
      l.sent.map Prod.fst = [7, 9] ∧ l.taken.map Prod.fst = [9] ∧ l.last = 9 ∧
      l.state.ledger.gate.next_intent_id = 1 :=
    exists_run_of_exec [.broadcast (submit_demo (set_args 1 "11")),
      .broadcast { submit_demo (set_args 2 "22") with freshBlockHash := .error [] },
      .broadcast (submit_demo (set_args 2 "22")), .deliver 1 0, .deliver 0 0,
      .other (.gate (.advance 1)), .deliver 1 0] _ (by decide +kernel)
  obtain ⟨-, -, -, -, -, hlater⟩ := broadcasts_executed_once (by decide) hrun
  refine ⟨l, hsent, htaken, hnext, fun l' hrun' => ?_⟩
  obtain ⟨later, htaken', hnumbers⟩ := hlater l' hrun'
  rw [htaken', List.map_append, htaken, List.mem_append, List.mem_singleton]
  rintro (h | h)
  · exact absurd h (by decide)
  · obtain ⟨q, hq, hseven⟩ := List.mem_map.1 h
    have hgreater := hnumbers q hq
    omega

/-- Both transactions arrive more than once, and between them somebody else submits. -/
theorem submissions_over_line_demo : ∃ w : World Register,
    w.ledger.gate.next_intent_id = 3 ∧
    w.ledger.gate.call_of 0 = some ((set_args 1 "11").call plain_decimal) ∧
    w.ledger.gate.call_of 2 = some ((set_args 2 "22").call plain_decimal) := by
  have hsubmittable : ∀ o ∈ [set_args 1 "11", set_args 2 "22"],
      o.Submittable plain_decimal host.sha256 near_js sender_deployment.host (key_of table) := by
    rw [List.forall_mem_cons, List.forall_mem_singleton]
    exact ⟨script_args_submittable (by decide +kernel), script_args_submittable (by decide +kernel)⟩
  have hread : ∀ o ∈ [set_args 1 "11", set_args 2 "22"],
      o.Arrives plain_decimal host.sha256 near_js sender_deployment (key_of table) := by
    unfold FunctionCallArgs.Arrives
    decide +kernel
  obtain ⟨w, hrun, hrelayer, hspent, hline⟩ : ∃ w : World Register,
      Run (World.step sender_deployment sender_demo) anyAction ⟨start, Register.default, []⟩ w ∧
      relayer ∈ w.ledger.gate.relayers ∧ w.ledger.spent sender_deployment = [] ∧
      (exec (wire_step plain_decimal relayer
          (World.perform_noted sender_deployment sender_demo relayer)
          (World.others_noted sender_deployment sender_demo relayer))
        (Submits plain_decimal host.sha256 near_js sender_deployment (key_of table) relayer
          [set_args 1 "11", set_args 2 "22"])
        (Line.start (makeDirectSender relayer 6).nextNonce 6 (w, []))
        [.broadcast (submit_demo (set_args 1 "11")), .deliver 0 0, .deliver 0 0,
          .other (.gate (.call approver 0 0 (.submit_intent (signed set33)))),
          .broadcast (submit_demo (set_args 2 "22")), .deliver 0 0, .other (.gate (.advance 1)),
          .deliver 1 0, .deliver 1 0]).any
        (fun l => l.state.1.ledger.gate.next_intent_id = 3 ∧ l.state.2 = [0, 2] ∧
          l.taken.length = 2) = true :=
    exists_run_of_exec [.gate (.call owner 0 0 (.add_relayer relayer)),
      .gate (.call owner 0 0 (.add_relayer approver))] _ (by decide +kernel)
  obtain ⟨l, hl, hP⟩ := (Option.any_eq_true _ _).1 hline
  obtain ⟨hnext, hids, hlength⟩ := of_decide_eq_true hP
  obtain ⟨-, hopen, -⟩ := submissions_over_line ⟨_, _, _, _, hrun⟩
    ⟨fun _ => rfl, fun _ => rfl, rfl⟩ hsubmittable (by decide)
    (fun o _ => by rw [hspent]; exact List.not_mem_nil) hrelayer hread (run_of_exec hl)
  rw [hids, hlength] at hopen
  obtain ⟨⟨-, hcall₀⟩, ⟨-, hcall₂⟩, -⟩ := List.forall₂_cons.1 hopen |>.imp_right List.forall₂_cons.1
  exact ⟨l.state.1, hnext, hcall₀, hcall₂⟩

end Demo

end SequentialNear
