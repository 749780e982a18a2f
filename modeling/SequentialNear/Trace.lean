/-
The trace line of a submission, and what the coordinator reads out of it.

`contracts/gate/src/lib.rs` puts the method name between two quotation marks as it was
signed, without escapes; `scripts/src/rpc.ts` parses the line as JSON and drops it when
it does not parse, and `scripts/src/commands/sequence.ts` takes the intent id out of
it. [`trace_read_back_iff`] says for which method names the two agree.
-/
import SequentialNear.JsonSpec
import SequentialNear.GateSpec
import SequentialNear.Register
import SequentialNear.WireFormat

set_option autoImplicit false

namespace SequentialNear

open Nep366 Json

/-! ## `rpc.ts` and `sequence.ts` -/

/-- The logs of an `EXPERIMENTAL_tx_status` answer. -/
structure TxStatusResult where
  /-- `transaction_outcome?.outcome?.logs`. -/
  transaction_outcome : Option (List JsString)
  receipts_outcome : List (List JsString)

def TxStatusResult.allLogs (status : TxStatusResult) : List JsString :=
  status.transaction_outcome.getD [] ++ status.receipts_outcome.flatten

/-- A `trace:` line without its mark; `none` for other lines. -/
def untrace (line : JsString) : Option JsString :=
  if (utf16 "trace:").isPrefixOf line then some (line.drop (utf16 "trace:").length) else none

/-- The loop of `extractTraceEvents`: a line that does not parse is dropped. -/
def traceEvents (logs : List JsString) : List Json :=
  logs.filterMap fun line => (untrace line).bind parse

def extractTraceEvents (status : TxStatusResult) : List Json := traceEvents status.allLogs

/-- `ev[name]`, which throws on `null`. -/
def property (ev : Json) (name : String) : Except String (Option Json) :=
  match ev with
  | .null => .error "TypeError"
  | .object members => .ok (get members (utf16 name))
  | _ => .ok none

/-- `v === s`. -/
def isString (v : Option Json) (s : String) : Bool :=
  match v with
  | some (.string t) => t = utf16 s
  | _ => false

/-- `BigInt(n)`, which throws unless `n` is an integer. -/
def BigInt (n : Number) : Except String Int :=
  match n with
  | .finite q => if q.den = 1 then .ok q.num else .error "RangeError"
  | .infinite _ => .error "RangeError"

/-- The body of the loop of `extractIntentId`. -/
def intentIdOf (ev : Json) : Except String (Option Int) := do
  if isString (← property ev "ev") "intent_submitted" then
    match ← property ev "id" with
    | some (.number n) => return some (← BigInt n)
    | _ => return none
  else return none

def extractIntentId (status : TxStatusResult) : Except String (Option Int) :=
  (extractTraceEvents status).findSomeM? intentIdOf

/-! ## The line -/

/-- Between quotation marks the string is a JSON literal as it is: it has no quotation
mark, no backslash and no control character. -/
def NeedsNoEscape (s : String) : Prop :=
  ∀ c ∈ s.toList, c.toNat ≠ 0x22 ∧ c.toNat ≠ 0x5c ∧ 0x20 ≤ c.toNat

instance (s : String) : Decidable (NeedsNoEscape s) := List.decidableBAll _ s.toList

theorem utf16_append (s t : String) : utf16 (s ++ t) = utf16 s ++ utf16 t := by
  rw [utf16, String.toList_append, List.flatMap_append, utf16, utf16]

theorem charUnits_plain (c : Char) :
    (∀ u ∈ charUnits c, plain u = true) ↔
      c.toNat ≠ 0x22 ∧ c.toNat ≠ 0x5c ∧ 0x20 ≤ c.toNat := by
  unfold charUnits plain
  by_cases hc : c.toNat < 0x10000
  · simp [hc, and_assoc]
  -- a surrogate is none of them, and neither is what it stands for
  · refine iff_of_true (fun u hu => ?_) (by omega)
    rw [if_neg hc, List.mem_cons, List.mem_singleton] at hu
    have hlarge : u ≠ quote ∧ u ≠ backslash ∧ 0x20 ≤ u := by
      show u ≠ 0x22 ∧ u ≠ 0x5c ∧ 0x20 ≤ u
      omega
    simp [hlarge]

theorem utf16_plain (s : String) : (∀ u ∈ utf16 s, plain u = true) ↔ NeedsNoEscape s := by
  simp only [utf16, List.mem_flatMap, forall_exists_index, and_imp]
  constructor
  · intro h c hc
    exact (charUnits_plain c).1 fun u hu => h u c hc hu
  · intro h u c hc hu
    exact (charUnits_plain c).2 (h c hc) u hu

theorem utf16_quoted (s : String) : utf16 (quoted s) = quote :: utf16 s ++ [quote] := by
  rw [quoted, utf16_append, utf16_append]
  rfl

/-- The members of the line before the method, each with the value it is read as. -/
def head_members (id : Nat) (delegate : DelegateAction) : List (JsString × JsString × Json) :=
  [(utf16 "ev", utf16 (quoted "intent_submitted"), .string (utf16 "intent_submitted")),
   (utf16 "id", utf16 (toString id), .number (toDouble id)),
   (utf16 "sender", utf16 (quoted delegate.sender_id.id), .string (utf16 delegate.sender_id.id)),
   (utf16 "receiver", utf16 (quoted delegate.receiver_id.id),
    .string (utf16 delegate.receiver_id.id))]

theorem utf16_line (id : Nat) (delegate : DelegateAction) (method : String) :
    utf16 (submitted_line id delegate method) = utf16 "trace:" ++
      with_string (head_members id delegate) (utf16 "method") (utf16 method) (utf16 "nonce")
        (utf16 (toString delegate.nonce.val)) := by
  have hopen : utf16 "trace:\x7b" = utf16 "trace:" ++ [lbrace] := rfl
  have hcolon : utf16 ":" = [colon] := rfl
  have hcomma : utf16 "," = [comma] := rfl
  have hclose : utf16 "\x7d" = [rbrace] := rfl
  simp only [submitted_line, emit_trace, List.map_cons, List.map_nil, String.intercalate_cons_cons,
    String.intercalate_singleton, utf16_append, utf16_quoted, hopen, hcolon, hcomma, hclose]
  simp [with_string, head_members, member, utf16_quoted]

/-! ## Reading it -/

/-- The members of the event that says that this delegate became this intent. -/
structure IntentSubmitted (members : List (JsString × Json)) (id : Nat) (delegate : DelegateAction)
    (method : String) : Prop where
  ev : get members (utf16 "ev") = some (.string (utf16 "intent_submitted"))
  id : get members (utf16 "id") = some (.number (.finite id))
  sender : get members (utf16 "sender") = some (.string (utf16 delegate.sender_id.id))
  receiver : get members (utf16 "receiver") = some (.string (utf16 delegate.receiver_id.id))
  method : get members (utf16 "method") = some (.string (utf16 method))
  nonce : get members (utf16 "nonce") = some (.number (.finite delegate.nonce.val))

/-- The coordinator reads the submission out of the logs. -/
structure ReadBack (status : TxStatusResult) (id : Nat) (delegate : DelegateAction)
    (method : String) : Prop where
  event : ∃ members rest, extractTraceEvents status = .object members :: rest ∧
    IntentSubmitted members id delegate method
  intent : extractIntentId status = .ok (some id)

/-- The members in the order of the line. -/
def line_members (id : Nat) (delegate : DelegateAction) (method : String) :
    List (JsString × Json) :=
  ((head_members id delegate).map fun m => (m.1, m.2.2)) ++
    [(utf16 "method", .string (utf16 method))] ++
    [(utf16 "nonce", .number (toDouble delegate.nonce.val))]

theorem line_members_read {id : Nat} {delegate : DelegateAction} (method : String)
    (hid : id < 2 ^ 53) (hnonce : delegate.nonce.val < 2 ^ 53) :
    IntentSubmitted (line_members id delegate method) id delegate method := by
  constructor
  · rfl
  · show some (Json.number (toDouble id)) = _
    rw [toDouble_nat hid]
  · rfl
  · rfl
  · rfl
  · show some (Json.number (toDouble delegate.nonce.val)) = _
    rw [toDouble_nat hnonce]

section Line

variable {id : Nat} {delegate : DelegateAction} {method : String}

/-- The other members of the line are JSON, whatever is signed. -/
theorem head_members_read (hsender : NeedsNoEscape delegate.sender_id.id)
    (hreceiver : NeedsNoEscape delegate.receiver_id.id) :
    ∀ m ∈ head_members id delegate, (∀ c ∈ m.1, plain c = true) ∧ Reads m.2.1 m.2.2 := by
  have hquoted : ∀ s, NeedsNoEscape s → Reads (utf16 (quoted s)) (.string (utf16 s)) := by
    intro s hs
    rw [utf16_quoted]
    exact reads_string ((utf16_plain s).2 hs)
  simp only [head_members, List.forall_mem_cons, List.not_mem_nil, false_imp_iff, implies_true,
    and_true]
  refine ⟨⟨by decide, hquoted _ (by decide)⟩, ⟨by decide, ?_⟩, ⟨by decide, hquoted _ hsender⟩,
    by decide, hquoted _ hreceiver⟩
  rw [utf16_toString]
  exact reads_nat id

theorem untrace_line : untrace (utf16 (submitted_line id delegate method)) =
    some (with_string (head_members id delegate) (utf16 "method") (utf16 method) (utf16 "nonce")
      (utf16 (toString delegate.nonce.val))) := by
  rw [untrace, utf16_line, if_pos (List.isPrefixOf_iff_prefix.2 (List.prefix_append _ _)),
    List.drop_left]

/-- A method name without special characters. -/
theorem parse_line (hsender : NeedsNoEscape delegate.sender_id.id)
    (hreceiver : NeedsNoEscape delegate.receiver_id.id) (hmethod : NeedsNoEscape method) :
    (untrace (utf16 (submitted_line id delegate method))).bind parse =
      some (.object (line_members id delegate method)) := by
  rw [untrace_line, Option.bind_some, utf16_toString]
  exact parse_with_string (head_members_read hsender hreceiver) (by decide) (by decide)
    (reads_nat _) ((utf16_plain method).2 hmethod)

/-- Any other one. -/
theorem parse_line_special (hsender : NeedsNoEscape delegate.sender_id.id)
    (hreceiver : NeedsNoEscape delegate.receiver_id.id) (hmethod : ¬ NeedsNoEscape method) {w : Json}
    (h : (untrace (utf16 (submitted_line id delegate method))).bind parse = some w) :
    ∃ members, w = .object members ∧
      get members (utf16 "method") ≠ some (.string (utf16 method)) := by
  rw [untrace_line, Option.bind_some, utf16_toString] at h
  refine parse_with_special (head_members_read hsender hreceiver) (by decide) ?_ rfl (by decide)
    (by decide) (by decide) (reads_nat _) (fun h => hmethod ((utf16_plain method).1 h)) h
  simp only [head_members, List.forall_mem_cons, List.not_mem_nil, false_imp_iff, implies_true,
    and_true]
  decide

theorem extract_of_parsed {status : TxStatusResult} {later : List JsString}
    {members : List (JsString × Json)} (hlogs : status.allLogs =
      utf16 (submitted_line id delegate method) :: later)
    (hparse : (untrace (utf16 (submitted_line id delegate method))).bind parse =
      some (.object members)) :
    extractTraceEvents status = .object members :: traceEvents later := by
  rw [extractTraceEvents, hlogs, traceEvents, List.filterMap_cons, hparse, traceEvents]

/-- The id is taken out of the first event. -/
theorem intent_of_event {status : TxStatusResult} {members : List (JsString × Json)}
    {rest : List Json} (hevents : extractTraceEvents status = .object members :: rest)
    (hread : IntentSubmitted members id delegate method) :
    extractIntentId status = .ok (some id) := by
  have hev : property (.object members) "ev" =
      .ok (some (.string (utf16 "intent_submitted"))) := congrArg Except.ok hread.ev
  have hid : property (.object members) "id" = .ok (some (.number (.finite id))) :=
    congrArg Except.ok hread.id
  have hstr : isString (some (.string (utf16 "intent_submitted"))) "intent_submitted" = true := by
    simp [isString]
  have hint : BigInt (.finite id) = .ok (id : Int) := by
    rw [BigInt, Rat.den_natCast, Rat.num_natCast, if_pos rfl]
  have hone : intentIdOf (.object members) = .ok (some (id : Int)) := by
    simp only [intentIdOf, hev, hid, bind, Except.bind, hstr, if_true, hint]
    rfl
  rw [extractIntentId, hevents, List.findSomeM?, hone]
  rfl

end Line

/-- What a submission that returned has logged. -/
theorem submit_intent_logs {host : Host} {env : Env} {g : Gate} {b : Borsh.Bytes} {out : Outcome}
    (h : g.submit_intent host env b = .ok out) :
    ∃ signed fc, SignedDelegateAction.try_from_slice host b = .ok signed ∧
      signed.delegate_action.actions = [.FunctionCall fc] ∧
      out.action = .new_yield (Gate.callback_args g.next_intent_id signed.delegate_action fc) ∧
      out.logs = [submitted_line g.next_intent_id signed.delegate_action fc.method_name] := by
  simp only [Gate.submit_intent, bind_eq_ok, require_eq_ok, mapError_eq_ok, increment_eq_ok,
    pure_eq_ok, require_single_function_call_eq_ok] at h
  obtain ⟨_, -, signed, hdec, _, -, _, -, _, -, fc, hfc, _, -, _, -, _, -, rfl⟩ := h
  exact ⟨signed, fc, hdec, hfc, rfl, rfl⟩

/-- What an account id is made of. -/
def AccountChars (id : String) : Prop :=
  ∀ c ∈ id.toList, c.isLower = true ∨ c.isDigit = true ∨ c = '-' ∨ c = '_' ∨ c = '.'

instance (id : String) : Decidable (AccountChars id) := List.decidableBAll _ id.toList

theorem AccountChars.needs_no_escape {id : String} (h : AccountChars id) : NeedsNoEscape id := by
  intro c hc
  rcases h c hc with hlower | hdigit | rfl | rfl | rfl
  · have hmin : (97 : UInt32) ≤ c.val := of_decide_eq_true (Bool.and_eq_true_iff.1 hlower).1
    have hrange : 97 ≤ c.toNat := UInt32.le_iff_toNat_le.1 hmin
    omega
  · obtain ⟨hmin, hmax⟩ := Bool.and_eq_true_iff.1 hdigit
    have hmin : 48 ≤ c.toNat := UInt32.le_iff_toNat_le.1 (of_decide_eq_true hmin)
    have hmax : c.toNat ≤ 57 := UInt32.le_iff_toNat_le.1 (of_decide_eq_true hmax)
    omega
  · decide
  · decide
  · decide

/-- **The trace line is read back** exactly for the method names that need no escape. The
host's account ids are made of lower-case letters, digits, `-`, `_` and `.`; ids and
nonces below `2 ^ 53` are exact JavaScript numbers. -/
theorem trace_read_back_iff {host : Host}
    (hids : ∀ id, host.is_valid_account_id id = true → AccountChars id) {env : Env} {g : Gate}
    {b : Borsh.Bytes} {out : Outcome} (hid : g.next_intent_id < 2 ^ 53)
    (h : g.submit_intent host env b = .ok out) :
    ∃ signed fc, SignedDelegateAction.try_from_slice host b = .ok signed ∧
      signed.delegate_action.actions = [.FunctionCall fc] ∧
      out.action = .new_yield (Gate.callback_args g.next_intent_id signed.delegate_action fc) ∧
      (signed.delegate_action.nonce.val < 2 ^ 53 →
        (∀ status, status.allLogs = out.logs.map utf16 →
          (ReadBack status g.next_intent_id signed.delegate_action fc.method_name ↔
            NeedsNoEscape fc.method_name)) ∧
        (NeedsNoEscape fc.method_name → ∀ status later,
          status.allLogs = out.logs.map utf16 ++ later →
            ReadBack status g.next_intent_id signed.delegate_action fc.method_name)) := by
  obtain ⟨signed, fc, hdec, hfc, hact, hlogs⟩ := submit_intent_logs h
  refine ⟨signed, fc, hdec, hfc, hact, fun hnonce => ?_⟩
  have hvalid : signed.Valid host := (codec_signed.decodes.1 hdec).1
  have hsender := (hids _ hvalid.sender_id.1).needs_no_escape
  have hreceiver := (hids _ hvalid.receiver_id.1).needs_no_escape
  -- with any logs behind it, a line that parses is the first event
  have hread : NeedsNoEscape fc.method_name → ∀ status later,
      status.allLogs = out.logs.map utf16 ++ later →
        ReadBack status g.next_intent_id signed.delegate_action fc.method_name := by
    intro hmethod status later hall
    rw [hlogs, List.map_singleton, List.singleton_append] at hall
    have hevents := extract_of_parsed hall (parse_line hsender hreceiver hmethod)
    have hmembers := line_members_read fc.method_name hid hnonce
    exact ⟨⟨_, _, hevents, hmembers⟩, intent_of_event hevents hmembers⟩
  refine ⟨fun status hall => ⟨fun hback => ?_, fun hmethod => ?_⟩, hread⟩
  · by_contra hmethod
    obtain ⟨members, rest, hevents, hmembers⟩ := hback.event
    rw [hlogs, List.map_singleton] at hall
    cases hparse : (untrace (utf16 (submitted_line g.next_intent_id signed.delegate_action
        fc.method_name))).bind parse with
    | none =>
      rw [extractTraceEvents, hall, traceEvents, List.filterMap_cons, hparse] at hevents
      cases hevents
    | some w =>
      obtain ⟨members', rfl, hne⟩ := parse_line_special hsender hreceiver hmethod hparse
      rw [extract_of_parsed hall hparse, List.cons.injEq, Json.object.injEq] at hevents
      obtain ⟨rfl, -⟩ := hevents
      exact hne hmembers.method
  · exact hread hmethod status [] (hall.trans (List.append_nil _).symm)

section Demo

open SequentialNear.Demo

/-- A method name with quotation marks in it. -/
def hostile : DelegateAction :=
  delegate 8 register "set\",\"id\":7,\"x\":\"" "\x7b\"value\":\"88\"\x7d" 30000000000000 1000000

def hostile_signature : Nat :=
  0xa72976e3cccf3f0a4a4e2c348a9d95f139c3b704d15505bf5b9f3200b473cdb0ef0df1984154d9a2500ec0b91a6d2c2f9cfef46649b9d28943329bb799552e4

/-- The deployment in which alice has signed it. -/
def tricked : Deployment :=
  deployment_with hostile 0xbd526916b9c12a9d193d9ddff1242872a4a26db4e0f7a85ec316a66c01e6d37b
    hostile_signature

/-- A fresh gate that knows the relayer, and a call of the relayer's. -/
def open_gate : Gate := { Gate.new owner approver with relayers := singleton relayer }

def relayed : Env := start.env tricked relayer 0

def hostile_bytes : Borsh.Bytes :=
  (SignedDelegateAction.mk hostile ⟨bytes 64 hostile_signature⟩).serialize

/-- The logs of a transaction whose submission logged these lines. -/
def status_of (logs : List String) : TxStatusResult := ⟨none, [logs.map utf16]⟩

theorem allLogs_status_of (logs : List String) : (status_of logs).allLogs = logs.map utf16 := by
  simp [TxStatusResult.allLogs, status_of]

theorem ok_of_toOption {ε α : Type} {x : Except ε α} {a : α} (h : a ∈ x.toOption) : x = .ok a := by
  cases x with
  | error e => cases h
  | ok b =>
    cases h
    rfl

theorem demo_account_chars {id : String} (h : Demo.host.is_valid_account_id id = true) :
    AccountChars id := by
  have hid : id ∈ ["gate.test", "alice.test", "register.test"] := of_decide_eq_true h
  have hall : ∀ id ∈ ["gate.test", "alice.test", "register.test"], AccountChars id := by
    decide
  exact hall id hid

/-- Alice's `set` becomes intent `0`, and the coordinator reads that. -/
theorem trace_read_back_demo : ∃ (out : Outcome) (s : SignedDelegateAction)
    (fc : FunctionCallAction),
    open_gate.submit_intent Demo.host relayed (signed set11) = .ok out ∧
      s.delegate_action = set11 ∧ fc.method_name = "set" ∧
      ReadBack (status_of out.logs) 0 s.delegate_action fc.method_name := by
  have hsubmit : ∃ out ∈ (open_gate.submit_intent Demo.host relayed (signed set11)).toOption,
      out.logs.length = 1 := by decide +kernel
  have hdelegate : ∀ s ∈ (SignedDelegateAction.try_from_slice Demo.host (signed set11)).toOption,
      s.delegate_action = set11 := by decide +kernel
  obtain ⟨out, hout, -⟩ := hsubmit
  have h : open_gate.submit_intent Demo.host relayed (signed set11) = .ok out :=
    ok_of_toOption hout
  obtain ⟨s, fc, hdec, hfc, -, hread⟩ :=
    trace_read_back_iff (fun _ => demo_account_chars) (by decide) h
  have hs : s.delegate_action = set11 := hdelegate s (by rw [hdec]; rfl)
  rw [hs] at hfc hread
  have hmethod : fc.method_name = "set" := by
    cases hfc
    rfl
  have hplain : NeedsNoEscape fc.method_name := by
    rw [hmethod]
    decide
  have hback := ((hread (by decide)).1 _ (allLogs_status_of out.logs)).2 hplain
  exact ⟨out, s, fc, h, hs, hmethod, hs ▸ hback⟩

/-- The call returns with intent `0`, and the coordinator reads intent `7`. -/
theorem trace_read_back_fails : ¬ ∀ (host : Host) (env : Env) (g : Gate) (b : Borsh.Bytes)
    (out : Outcome) (s : SignedDelegateAction) (fc : FunctionCallAction) (status : TxStatusResult),
    (∀ id, host.is_valid_account_id id = true → AccountChars id) →
    g.submit_intent host env b = .ok out → SignedDelegateAction.try_from_slice host b = .ok s →
    s.delegate_action.actions = [.FunctionCall fc] → g.next_intent_id < 2 ^ 53 →
    s.delegate_action.nonce.val < 2 ^ 53 → status.allLogs = out.logs.map utf16 →
    ReadBack status g.next_intent_id s.delegate_action fc.method_name := by
  intro hall
  have hsubmit : ∃ out ∈ (open_gate.submit_intent tricked.host relayed hostile_bytes).toOption,
      (extractIntentId (status_of out.logs)).toOption = some (some 7) := by decide +kernel
  have hdelegate : ∀ s ∈ (SignedDelegateAction.try_from_slice tricked.host hostile_bytes).toOption,
      s.delegate_action = hostile := by decide +kernel
  obtain ⟨out, hout, hseven⟩ := hsubmit
  have h : open_gate.submit_intent tricked.host relayed hostile_bytes = .ok out :=
    ok_of_toOption hout
  obtain ⟨s, fc, hdec, hfc, -, -⟩ := submit_intent_logs h
  have hs : s.delegate_action = hostile := hdelegate s (by rw [hdec]; rfl)
  have hnonce : s.delegate_action.nonce.val < 2 ^ 53 := by
    rw [hs]
    decide
  have hids : ∀ id, tricked.host.is_valid_account_id id = true → AccountChars id :=
    fun _ h => demo_account_chars h
  have hback := hall tricked.host relayed open_gate hostile_bytes out s fc (status_of out.logs) hids h
    hdec hfc (by decide) hnonce (allLogs_status_of out.logs)
  rw [hback.intent] at hseven
  cases hseven

end Demo

end SequentialNear
