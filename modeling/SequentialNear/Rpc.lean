/-
`scripts/src/rpc.ts`: how the scripts ask a node, and how long.

A request is repeated with growing pauses while the node is overloaded or out of reach;
any other answer ends it ([`rpc_call_decided`]). After a submission the scripts ask for
the transaction's status until its outer receipt has been executed, since the yielded
callback comes up to two hundred blocks later; what they then read off it is what the gate
did, unless a receipt behind it has failed by then ([`submission_observed`]).

What the node answers, and when, is a parameter: a function of the number of the request.
-/
import SequentialNear.JsonText
import SequentialNear.Trace

set_option autoImplicit false

namespace SequentialNear

open Json Nep366
open JsString (isWhite numeral)

/-! ## Texts -/

namespace JsString

/-- `toLowerCase`, as far as ASCII letters come out of it. -/
def lowerUnit (c : Nat) : JsString :=
  if 0x41 ≤ c ∧ c ≤ 0x5a then [c + 0x20]
  else if c = 0x212a then [0x6b] -- the Kelvin sign
  else if c = 0x130 then [0x69, 0x307]
  else [c]

def toLowerCase (s : JsString) : JsString := s.flatMap lowerUnit

/-- The words stand here, with white space between them: `first\s+second`. -/
def wordsAt : List JsString → JsString → Bool
  | [], _ => true
  | [word], s => word.isPrefixOf s
  | word :: words, s =>
    word.isPrefixOf s && (s.drop word.length).head?.any isWhite &&
      wordsAt words ((s.drop word.length).dropWhile isWhite)

/-- `/…|…/.test(s)`. -/
def test (alternatives : List (List String)) (s : JsString) : Bool :=
  s.tails.any fun t => alternatives.any fun words => wordsAt (words.map utf16) t

end JsString

/-! ## Errors -/

structure JsonRpcError where
  code : Int
  message : JsString
  /-- `none` when the answer has no such member. -/
  data : Option Json

/-- What the scripts throw or pass on. -/
inductive Thrown
  | rpc (err : JsonRpcError)
  /-- `new Error(text)`, or what `fetch` and `res.json()` reject with. -/
  | error (text : JsString)

section Texts

variable (toString : ℚ → JsString)

/-- The message the constructor of `RpcError` composes. -/
def JsonRpcError.text (err : JsonRpcError) : JsString :=
  utf16 "RPC " ++ numeral err.code ++ utf16 ": " ++ err.message ++
    match err.data with
    | some data => utf16 " — " ++ Json.stringify toString data
    | none => []

/-- What the patterns are matched against. -/
def JsonRpcError.payload (err : JsonRpcError) : JsString :=
  let data :=
    match err.data with
    | some (.string s) => s
    | some .null | none => Json.stringify toString (.string []) -- `?? ""`
    | some data => Json.stringify toString data
  JsString.toLowerCase (err.text toString ++ utf16 " " ++ data)

def isTransientRpcError (err : JsonRpcError) : Bool :=
  JsString.test [["overload"], ["timeout"], ["too", "busy"], ["too", "many", "requests"]]
    (err.payload toString)

/-- The transaction is not there yet. -/
def isPending (err : JsonRpcError) : Bool :=
  JsString.test [["unknown"], ["doesn't exist"], ["does not exist"], ["not found"], ["pending"],
    ["included"]] (err.payload toString)

end Texts

/-! ## `rpcCall` -/

/-- What comes back from one request. -/
inductive Reply (α : Type)
  /-- `fetch` rejects. -/
  | unreachable (reason : JsString)
  /-- A status and what `res.json()` gives: the members `error` and `result`. -/
  | response (status : Nat) (body : Except JsString (Option JsonRpcError × Option α))

/-- How a call ends, after how many requests, and with what pauses between them. -/
structure Called (α : Type) where
  outcome : Except Thrown α
  requests : Nat
  waits : List Nat

def maxAttempts : Nat := 8

def backoffMs (attempt : Nat) : Nat := min 8000 (500 * 2 ^ (attempt - 1))

section RpcCall

variable {α : Type} (toString : ℚ → JsString) (method : JsString) (replies : Nat → Reply α)

/-- The rest of the loop, one request later. -/
def Called.after (attempt : Nat) (rest : Called α) : Called α :=
  ⟨rest.outcome, rest.requests + 1, backoffMs attempt :: rest.waits⟩

/-- The loop from `attempt` on, with `left` rounds to go. -/
def rpcLoop : (left attempt : Nat) → (lastErr : Option Thrown) → Called α
  | 0, _, lastErr =>
    ⟨.error (lastErr.getD (.error (utf16 "RPC " ++ method ++ utf16 " failed after " ++
      numeral maxAttempts ++ utf16 " attempts"))), 0, []⟩
  | left + 1, attempt, _ =>
    -- `catch`, for what is no `RpcError`
    let again (err : Thrown) : Called α :=
      if attempt = maxAttempts then ⟨.error err, 1, []⟩
      else (rpcLoop left (attempt + 1) (some err)).after attempt
    match replies attempt with
    | .unreachable reason => again (.error reason)
    | .response status body =>
      if status = 429 ∨ 500 ≤ status then again (.error (utf16 "HTTP " ++ numeral status))
      else match body with
        | .error reason => again (.error reason)
        | .ok (some err, _) =>
          if isTransientRpcError toString err ∧ attempt < maxAttempts then again (.rpc err)
          else ⟨.error (.rpc err), 1, []⟩
        | .ok (none, none) =>
          again (.error (utf16 "RPC returned no result for " ++ method))
        | .ok (none, some result) => ⟨.ok result, 1, []⟩

def rpcCall : Called α := rpcLoop toString method replies maxAttempts 1 none

/-! ## What decides a call -/

/-- A reply that ends the call, whichever it is: a result, or an error that is not
transient. -/
def Reply.final : Reply α → Option (Except Thrown α)
  | .unreachable _ => none
  | .response status body =>
    if status = 429 ∨ 500 ≤ status then none
    else match body with
      | .error _ => none
      | .ok (some err, _) =>
        if isTransientRpcError toString err then none else some (.error (.rpc err))
      | .ok (none, none) => none
      | .ok (none, some result) => some (.ok result)

/-- What is wrong with a reply that does not end the call. -/
def Reply.failure : Reply α → Thrown
  | .unreachable reason => .error reason
  | .response status body =>
    if status = 429 ∨ 500 ≤ status then .error (utf16 "HTTP " ++ numeral status)
    else match body with
      | .error reason => .error reason
      | .ok (some err, _) => .rpc err
      | .ok (none, _) => .error (utf16 "RPC returned no result for " ++ method)

/-- One round of the loop. -/
theorem rpcLoop_succ {left attempt : Nat} (hattempt : attempt ≤ maxAttempts)
    (lastErr : Option Thrown) : rpcLoop toString method replies (left + 1) attempt lastErr =
      match (replies attempt).final toString with
      | some outcome => ⟨outcome, 1, []⟩
      | none =>
        if attempt = maxAttempts then ⟨.error ((replies attempt).failure method), 1, []⟩
        else (rpcLoop toString method replies left (attempt + 1)
          (some ((replies attempt).failure method))).after attempt := by
  rw [rpcLoop]
  cases replies attempt with
  | unreachable reason => rfl
  | response status body =>
    simp only [Reply.final, Reply.failure]
    by_cases hstatus : status = 429 ∨ 500 ≤ status
    · simp only [if_pos hstatus]
    · simp only [if_neg hstatus]
      match body with
      | .error reason => rfl
      | .ok (none, none) => rfl
      | .ok (none, some result) => rfl
      | .ok (some err, _) =>
        by_cases htransient : isTransientRpcError toString err = true
        · by_cases hlast : attempt = maxAttempts
          · simp only [htransient, hlast, Nat.lt_irrefl, and_false, if_true, if_false]
          · have hlt : attempt < maxAttempts := by omega
            simp only [htransient, hlast, hlt, and_self, if_true, if_false]
        · simp only [htransient, false_and, if_false, Bool.false_eq_true]

/-- A call that was decided by its request number `k`, counted from `first`. -/
structure Decided (first k : Nat) (c : Called α) : Prop where
  first_le : first ≤ k
  le_max : k ≤ maxAttempts
  requests : c.requests = k + 1 - first
  waits : c.waits = (List.range' first (k - first)).map backoffMs
  earlier : ∀ j, first ≤ j → j < k → (replies j).final toString = none
  outcome : (replies k).final toString = some c.outcome ∨
    k = maxAttempts ∧ (replies k).final toString = none ∧
      c.outcome = .error ((replies k).failure method)

variable {toString method replies}

theorem Decided.after {first k : Nat} {c : Called α}
    (h : Decided toString method replies (first + 1) k c)
    (hfirst : (replies first).final toString = none) :
    Decided toString method replies first k (c.after first) := by
  have hle := h.first_le
  refine ⟨by omega, h.le_max, ?_, ?_, fun j hj hjk => ?_, h.outcome⟩
  · have hrequests : (c.after first).requests = c.requests + 1 := rfl
    rw [hrequests, h.requests]
    omega
  · have hlength : k - first = k - (first + 1) + 1 := by omega
    rw [Called.after, h.waits, hlength, List.range'_succ, List.map_cons]
  · rcases Nat.eq_or_lt_of_le hj with rfl | hlt
    · exact hfirst
    · exact h.earlier j hlt hjk

theorem rpcLoop_decided {left attempt : Nat} (hleft : left + attempt = maxAttempts + 1)
    (hpos : 0 < left) (lastErr : Option Thrown) : ∃ k, Decided toString method replies attempt k
      (rpcLoop toString method replies left attempt lastErr) := by
  induction left generalizing attempt lastErr with
  | zero => exact absurd hpos (Nat.lt_irrefl 0)
  | succ left ih =>
    have hattempt : attempt ≤ maxAttempts := by omega
    rw [rpcLoop_succ toString method replies hattempt]
    cases hfinal : (replies attempt).final toString with
    | some outcome =>
      refine ⟨attempt, le_rfl, hattempt, by simp, by simp, fun j hj hjk => by omega, .inl hfinal⟩
    | none =>
      by_cases hlast : attempt = maxAttempts
      · simp only [if_pos hlast]
        exact ⟨attempt, le_rfl, hattempt, by simp, by simp, fun j hj hjk => by omega,
          .inr ⟨hlast, hfinal, rfl⟩⟩
      · simp only [if_neg hlast]
        obtain ⟨k, hk⟩ := ih (show left + (attempt + 1) = maxAttempts + 1 by omega) (by omega)
          (some ((replies attempt).failure method))
        exact ⟨k, hk.after hfinal⟩

/-- The pauses before request `k` are at most those before the last one. -/
theorem waits_sum_le {k : Nat} (hk : k ≤ maxAttempts) :
    ((List.range' 1 (k - 1)).map backoffMs).sum ≤ 31500 := by
  unfold maxAttempts at hk
  interval_cases k <;> decide

end RpcCall

/-- **What decides a call.** A call makes between one and eight requests. The first reply
that is final decides it, whatever would have come after; if none of the eight is, the
error of the eighth. Before every further request it has paused for half a second, doubled
each time up to eight, so never for more than 31.5 seconds in all. -/
theorem rpc_call_decided {α : Type} (toString : ℚ → JsString) (method : JsString)
    (replies : Nat → Reply α) : ∃ k, 1 ≤ k ∧ k ≤ 8 ∧
      (rpcCall toString method replies).requests = k ∧
      (∀ j, 1 ≤ j → j < k → (replies j).final toString = none) ∧
      ((replies k).final toString = some (rpcCall toString method replies).outcome ∨
        k = 8 ∧ (replies 8).final toString = none ∧
          (rpcCall toString method replies).outcome = .error ((replies 8).failure method)) ∧
      (rpcCall toString method replies).waits = (List.range' 1 (k - 1)).map backoffMs ∧
      (rpcCall toString method replies).waits.sum ≤ 31500 := by
  obtain ⟨k, hk⟩ : ∃ k, Decided toString method replies 1 k (rpcCall toString method replies) :=
    rpcLoop_decided rfl (by decide) none
  refine ⟨k, hk.first_le, hk.le_max, hk.requests, hk.earlier, ?_, hk.waits, ?_⟩
  · rcases hk.outcome with h | ⟨rfl, hnone, hout⟩
    · exact .inl h
    · exact .inr ⟨rfl, hnone, hout⟩
  · exact hk.waits ▸ waits_sum_le hk.le_max

/-! ## `waitForOuterReceipt` -/

/-- `outcome.status`. -/
inductive ExecutionStatus
  /-- A string such as `Started`. -/
  | text (s : JsString)
  /-- An object without a member `Failure`. -/
  | success
  | failure (err : Json)

structure ReceiptOutcome where
  logs : List JsString
  status : ExecutionStatus

/-- The answer to `EXPERIMENTAL_tx_status`. -/
structure TxStatus where
  status : ExecutionStatus
  /-- The logs of the transaction itself. -/
  transaction_outcome : Option (List JsString)
  receipts_outcome : List ReceiptOutcome

def TxStatus.logs (status : TxStatus) : TxStatusResult :=
  ⟨status.transaction_outcome, status.receipts_outcome.map (·.logs)⟩

/-- `typeof outer.outcome.status === "object"`. -/
def TxStatus.outer_executed (status : TxStatus) : Bool :=
  match status.receipts_outcome.head? with
  | some ⟨_, .text _⟩ => false
  | some _ => true
  | none => false

def pollBackoffMs (attempt : Nat) : Nat := min 1500 (250 + attempt * 100)

section Polling

variable (toString : ℚ → JsString) (txHash : JsString) (timeoutMs : Nat)
  (clock : Nat → Nat) (replies : Nat → Except Thrown TxStatus)

/-- The errors that the loop waits out. -/
def Thrown.ignored : Thrown → Bool
  | .rpc err => isPending toString err
  | .error _ => false

/-- The loop after `attempt` requests. `clock 0` is the time the deadline is counted from
and `clock (attempt + 1)` the one read before the next request; no fuel, no answer. -/
def waitLoop : (fuel attempt : Nat) → Option (Except Thrown TxStatus × Nat)
  | 0, _ => none
  | fuel + 1, attempt =>
    if clock (attempt + 1) < clock 0 + timeoutMs then
      match replies (attempt + 1) with
      | .ok status =>
        if status.outer_executed then some (.ok status, attempt + 1)
        else waitLoop fuel (attempt + 1)
      | .error err =>
        if err.ignored toString then waitLoop fuel (attempt + 1)
        else some (.error err, attempt + 1)
    else some (.error (.error (utf16 "waitForOuterReceipt(" ++ txHash ++
      utf16 ") timed out after " ++ numeral timeoutMs ++
      utf16 "ms without outer-receipt execution")), attempt)

def waitForOuterReceipt (fuel : Nat) : Option (Except Thrown TxStatus × Nat) :=
  waitLoop toString txHash timeoutMs clock replies fuel 0

/-- An answer that ends the polling: an executed outer receipt, or an error that is not
about a transaction on its way. -/
def final_answer (answer : Except Thrown TxStatus) : Bool :=
  match answer with
  | .ok status => status.outer_executed
  | .error err => !err.ignored toString

/-- **One round of the loop.** -/
theorem waitLoop_succ (fuel attempt : Nat) :
    waitLoop toString txHash timeoutMs clock replies (fuel + 1) attempt =
      if clock (attempt + 1) < clock 0 + timeoutMs then
        if final_answer toString (replies (attempt + 1)) then
          some (replies (attempt + 1), attempt + 1)
        else waitLoop toString txHash timeoutMs clock replies fuel (attempt + 1)
      else some (.error (.error (utf16 "waitForOuterReceipt(" ++ txHash ++
        utf16 ") timed out after " ++ numeral timeoutMs ++
        utf16 "ms without outer-receipt execution")), attempt) := by
  rw [waitLoop]
  cases hreply : replies (attempt + 1) with
  | ok status => rfl
  | error err => cases herr : err.ignored toString <;> simp [final_answer, herr]

/-- A polling that ended after `k` requests. -/
structure Polled (k : Nat) (outcome : Except Thrown TxStatus) : Prop where
  in_time : ∀ j < k, clock (j + 1) < clock 0 + timeoutMs
  earlier : ∀ j, 1 ≤ j → j < k → final_answer toString (replies j) = false
  ended : (1 ≤ k ∧ final_answer toString (replies k) = true ∧ outcome = replies k) ∨
    (clock 0 + timeoutMs ≤ clock (k + 1) ∧ (1 ≤ k → final_answer toString (replies k) = false) ∧
      ∃ text, outcome = .error (.error text))

variable {toString txHash timeoutMs clock replies}

/-- Each request is followed by a pause of more than a third of a second. -/
theorem clock_le (hclock : clock 0 ≤ clock 1)
    (hpause : ∀ i, clock (i + 1) + pollBackoffMs (i + 1) ≤ clock (i + 2)) (i : Nat) :
    clock 0 + 350 * i ≤ clock (i + 1) := by
  induction i with
  | zero => simpa using hclock
  | succ i ih =>
    have hbackoff : 350 ≤ pollBackoffMs (i + 1) := by
      unfold pollBackoffMs
      omega
    calc clock 0 + 350 * (i + 1) = clock 0 + 350 * i + 350 := by omega
      _ ≤ clock (i + 1) + pollBackoffMs (i + 1) := Nat.add_le_add ih hbackoff
      _ ≤ clock (i + 1 + 1) := hpause i

theorem waitLoop_polled (hclock : clock 0 ≤ clock 1)
    (hpause : ∀ i, clock (i + 1) + pollBackoffMs (i + 1) ≤ clock (i + 2)) {fuel attempt : Nat}
    (hfuel : timeoutMs ≤ 350 * (fuel - 1 + attempt)) (hpos : 0 < fuel)
    (hin : ∀ j < attempt, clock (j + 1) < clock 0 + timeoutMs)
    (hnone : ∀ j, 1 ≤ j → j ≤ attempt → final_answer toString (replies j) = false) :
    ∃ outcome k, waitLoop toString txHash timeoutMs clock replies fuel attempt = some (outcome, k) ∧
      Polled toString timeoutMs clock replies k outcome := by
  induction fuel generalizing attempt with
  | zero => exact absurd hpos (Nat.lt_irrefl 0)
  | succ fuel ih =>
    rw [waitLoop_succ]
    by_cases htime : clock (attempt + 1) < clock 0 + timeoutMs
    · rw [if_pos htime]
      have hin' : ∀ j < attempt + 1, clock (j + 1) < clock 0 + timeoutMs := by
        intro j hj
        rcases Nat.lt_succ_iff_lt_or_eq.1 hj with hlt | rfl
        · exact hin j hlt
        · exact htime
      by_cases hfinal : final_answer toString (replies (attempt + 1)) = true
      · rw [if_pos hfinal]
        exact ⟨_, _, rfl, hin', fun j hj hjk => hnone j hj (by omega),
          .inl ⟨by omega, hfinal, rfl⟩⟩
      · rw [if_neg hfinal]
        -- the time that has passed says that fuel is left
        have hpassed := clock_le hclock hpause attempt
        refine ih (by omega) (by omega) hin' fun j hj hjk => ?_
        rcases Nat.eq_or_lt_of_le hjk with rfl | hlt
        · exact Bool.eq_false_iff.2 hfinal
        · exact hnone j hj (by omega)
    · rw [if_neg htime]
      exact ⟨_, _, rfl, hin, fun j hj hjk => hnone j hj (by omega),
        .inr ⟨Nat.not_lt.1 htime, fun hk => hnone _ hk le_rfl, _, rfl⟩⟩

end Polling

/-! ## `submitAndObserve` -/

section Observing

variable (toString : ℚ → JsString)

def ExecutionStatus.failureText : ExecutionStatus → Option JsString
  | .failure err => some (Json.stringify toString err)
  | _ => none

def extractFailureReason (status : TxStatus) : Option JsString :=
  match status.status.failureText toString with
  | some reason => some reason
  | none => status.receipts_outcome.findSome? fun r => r.status.failureText toString

/-- What the script knows about its submission. -/
structure Observed where
  intentId : Option Int
  failureReason : Option JsString

/-- A failure reason that is empty counts as none. -/
def observe (status : TxStatus) : Except Thrown Observed :=
  let failureReason := extractFailureReason toString status
  if failureReason.any (· ≠ []) then .ok ⟨none, failureReason⟩
  else match extractIntentId status.logs with
    | .ok intentId => .ok ⟨intentId, failureReason⟩
    | .error text => .error (.error (utf16 text))

/-- `submitAndObserve` once the transaction has been sent; `none` without fuel. -/
def submitAndObserve (txHash : JsString) (timeoutMs : Nat) (clock : Nat → Nat)
    (replies : Nat → Except Thrown TxStatus) (fuel : Nat) : Option (Except Thrown Observed) :=
  (waitForOuterReceipt toString txHash timeoutMs clock replies fuel).map fun ended =>
    ended.1.bind (observe toString)

/-! ### What a node lists -/

def ExecutionStatus.failed : ExecutionStatus → Bool
  | .failure _ => true
  | _ => false

/-- A receipt behind the first one is listed as failed. -/
def TxStatus.fails_later (status : TxStatus) : Bool :=
  status.receipts_outcome.tail.any (·.status.failed)

/-- How a node lists the transaction of a submission, once its outer receipt has been
executed. The transaction itself logs nothing. The outer receipt, which is the gate's
call, comes first: with the gate's logs when the call returned, with the members of
`failure` when it panicked. Whatever the transaction has created since, with whatever
outcome, comes behind it. The transaction fails as one of its receipts does, as the first
one if that failed; and a failure is an object. -/
structure Reports (failure : String → List (JsString × Json)) (x : Except String Outcome)
    (status : TxStatus) : Prop where
  unlogged : status.transaction_outcome.getD [] = []
  accepted : ∀ out, x = .ok out →
    status.receipts_outcome.head? = some ⟨out.logs.map utf16, .success⟩
  refused : ∀ msg, x = .error msg →
    (∃ logs, status.receipts_outcome.head? = some ⟨logs, .failure (.object (failure msg))⟩) ∧
      ∀ err, status.status = .failure err → err = .object (failure msg)
  overall : ∀ err, status.status = .failure err →
    ∃ r ∈ status.receipts_outcome, r.status = .failure err
  objects : ∀ r ∈ status.receipts_outcome, ∀ err, r.status = .failure err →
    ∃ members, err = .object members

/-- There is a failure reason exactly when something is listed as failed. -/
theorem extractFailureReason_isSome (status : TxStatus) :
    (extractFailureReason toString status).isSome =
      (status.status.failed || status.receipts_outcome.any (·.status.failed)) := by
  have htext : ∀ e : ExecutionStatus, (e.failureText toString).isSome = e.failed := by
    intro e
    cases e <;> rfl
  have hlist : ∀ rs : List ReceiptOutcome,
      (rs.findSome? fun r => r.status.failureText toString).isSome = rs.any (·.status.failed) := by
    intro rs
    induction rs with
    | nil => rfl
    | cons r rs ih =>
      rw [List.any_cons, ← htext r.status, List.findSome?_cons]
      cases r.status.failureText toString with
      | none => exact ih
      | some text => rfl
  rw [← htext, ← hlist, extractFailureReason]
  cases status.status.failureText toString <;> rfl

section Listed

variable {toString : ℚ → JsString} {failure : String → List (JsString × Json)}
  {x : Except String Outcome} {status : TxStatus}

/-- A failure reason is the failure of a receipt that is listed. -/
theorem Reports.reason_listed (h : Reports failure x status) {reason : JsString}
    (hreason : extractFailureReason toString status = some reason) :
    ∃ r ∈ status.receipts_outcome, r.status.failureText toString = some reason := by
  unfold extractFailureReason at hreason
  cases hstatus : status.status with
  | failure err =>
    rw [hstatus] at hreason
    -- the transaction failed, so a receipt did with the same error
    obtain ⟨r, hr, hfail⟩ := h.overall err hstatus
    exact ⟨r, hr, by rw [hfail]; exact hreason⟩
  | _ =>
    rw [hstatus] at hreason
    exact List.exists_of_findSome?_eq_some hreason

theorem Reports.reason_ne_nil (h : Reports failure x status) {reason : JsString}
    (hreason : extractFailureReason toString status = some reason) : reason ≠ [] := by
  obtain ⟨r, hr, htext⟩ := h.reason_listed hreason
  cases hfail : r.status with
  | failure err =>
    obtain ⟨members, rfl⟩ := h.objects r hr err hfail
    rw [hfail] at htext
    cases htext
    -- the text of an object starts with its brace
    rw [Json.stringify]
    exact List.cons_ne_nil _ _
  | _ =>
    rw [hfail] at htext
    cases htext

/-- **The failure reason of an accepted submission** is the failure of a later receipt. -/
theorem Reports.accepted_reason (h : Reports failure x status) {out : Outcome} (hx : x = .ok out)
    {reason : JsString} (hreason : extractFailureReason toString status = some reason) :
    ∃ r ∈ status.receipts_outcome.tail, r.status.failureText toString = some reason := by
  obtain ⟨later, hlater⟩ := List.head?_eq_some_iff.1 (h.accepted out hx)
  obtain ⟨r, hr, htext⟩ := h.reason_listed hreason
  rw [hlater, List.mem_cons] at hr
  rcases hr with rfl | hr
  · cases htext
  · exact ⟨r, hlater ▸ hr, htext⟩

/-- It has one exactly when a later receipt failed. -/
theorem Reports.accepted_reason_isSome (h : Reports failure x status) {out : Outcome}
    (hx : x = .ok out) : (extractFailureReason toString status).isSome = status.fails_later := by
  obtain ⟨later, hlater⟩ := List.head?_eq_some_iff.1 (h.accepted out hx)
  have htail : status.receipts_outcome.any (·.status.failed) = status.fails_later := by
    rw [TxStatus.fails_later, hlater]
    rfl
  rw [extractFailureReason_isSome, htail]
  cases hstatus : status.status with
  | failure err =>
    obtain ⟨r, hr, hfail⟩ := h.overall err hstatus
    have hany : status.receipts_outcome.any (·.status.failed) = true :=
      List.any_eq_true.2 ⟨r, hr, by rw [hfail]; rfl⟩
    rw [← htail, hany]
    rfl
  | _ => exact Bool.false_or _

/-- **The failure reason of a refused submission** is how the node words its panic. -/
theorem Reports.refused_reason (h : Reports failure x status) {msg : String}
    (hx : x = .error msg) : extractFailureReason toString status =
      some (Json.stringify toString (.object (failure msg))) := by
  obtain ⟨⟨logs, hhead⟩, hfailure⟩ := h.refused msg hx
  unfold extractFailureReason
  cases hstatus : status.status with
  | failure err =>
    rw [hfailure err hstatus]
    rfl
  | _ =>
    obtain ⟨rest, hrest⟩ := List.head?_eq_some_iff.1 hhead
    rw [hrest]
    rfl

/-- The gate's lines come first among the logs. -/
theorem Reports.logs (h : Reports failure x status) {out : Outcome} (hx : x = .ok out) :
    ∃ later, status.logs.allLogs = out.logs.map utf16 ++ later := by
  obtain ⟨later, hlater⟩ := List.head?_eq_some_iff.1 (h.accepted out hx)
  refine ⟨(later.map (·.logs)).flatten, ?_⟩
  rw [TxStatusResult.allLogs, TxStatus.logs, h.unlogged, hlater]
  rfl

/-- A submission with a failure reason is taken for refused. -/
theorem Reports.observe_failed (h : Reports failure x status) {reason : JsString}
    (hreason : extractFailureReason toString status = some reason) :
    observe toString status = .ok ⟨none, some reason⟩ := by
  have hne := h.reason_ne_nil hreason
  simp only [observe, hreason, Option.any_some, ne_eq, hne, not_false_eq_true, decide_true, if_true]

end Listed

end Observing

/-- **What the script observes is what the gate did**, unless a later receipt got in
between. As long as the node lists the transaction truly, the polling of a submission
ends, after a number of requests that the timeout bounds; and unless a request fails or
the time runs out, the script takes a refused submission for refused. An accepted one it
takes for accepted, with the id that the gate gave it, exactly when no later receipt is
listed as failed; otherwise for refused. -/
theorem submission_observed {host : Host} {env : Env} {g : Gate} {b : Borsh.Bytes}
    {toString : ℚ → JsString} {failure : String → List (JsString × Json)} {txHash : JsString}
    {timeoutMs fuel : Nat} {clock : Nat → Nat} {replies : Nat → Except Thrown TxStatus}
    (hids : ∀ id, host.is_valid_account_id id = true → AccountChars id)
    (hid : g.next_intent_id < 2 ^ 53)
    (hplain : ∀ signed fc, SignedDelegateAction.try_from_slice host b = .ok signed →
      signed.delegate_action.actions = [.FunctionCall fc] →
        NeedsNoEscape fc.method_name ∧ signed.delegate_action.nonce.val < 2 ^ 53)
    (hclock : clock 0 ≤ clock 1)
    (hpause : ∀ i, clock (i + 1) + pollBackoffMs (i + 1) ≤ clock (i + 2))
    (htrue : ∀ i status, replies i = .ok status → status.outer_executed = true →
      Reports failure (g.submit_intent host env b) status)
    (hfuel : timeoutMs / 350 + 2 ≤ fuel) :
    ∃ outcome, submitAndObserve toString txHash timeoutMs clock replies fuel = some outcome ∧
      ((∃ k status, replies k = .ok status ∧ status.outer_executed = true ∧
          ((∃ out, g.submit_intent host env b = .ok out ∧
            (status.fails_later = false ∧ outcome = .ok ⟨some g.next_intent_id, none⟩ ∨
              status.fails_later = true ∧ ∃ reason, outcome = .ok ⟨none, some reason⟩)) ∨
          ∃ msg reason, g.submit_intent host env b = .error msg ∧
            outcome = .ok ⟨none, some reason⟩)) ∨
        ∃ err k, outcome = .error err ∧
          (replies k = .error err ∧ err.ignored toString = false ∨
            clock 0 + timeoutMs ≤ clock (k + 1) ∧
              ∀ j, 1 ≤ j → j ≤ k → final_answer toString (replies j) = false)) := by
  have hdiv : timeoutMs < 350 * (timeoutMs / 350 + 1) := by omega
  have hscaled : 350 * (timeoutMs / 350 + 1) ≤ 350 * (fuel - 1 + 0) :=
    Nat.mul_le_mul_left 350 (by omega)
  obtain ⟨ended, k, hwait, hpolled⟩ : ∃ ended k,
      waitForOuterReceipt toString txHash timeoutMs clock replies fuel = some (ended, k) ∧
        Polled toString timeoutMs clock replies k ended :=
    waitLoop_polled hclock hpause (hdiv.le.trans hscaled) (by omega)
      (fun j hj => absurd hj (Nat.not_lt_zero j)) fun j hj hj0 => by omega
  refine ⟨ended.bind (observe toString), by rw [submitAndObserve, hwait]; rfl, ?_⟩
  rcases hpolled.ended with ⟨hk, hfinal, rfl⟩ | ⟨hlate, hlast, text, rfl⟩
  · cases hreply : replies k with
    | error err =>
      rw [hreply] at hfinal
      exact .inr ⟨err, k, rfl, .inl ⟨hreply, by simpa [final_answer] using hfinal⟩⟩
    | ok status =>
      rw [hreply] at hfinal
      have hreports := htrue k status hreply hfinal
      refine .inl ⟨k, status, hreply, hfinal, ?_⟩
      cases hx : g.submit_intent host env b with
      | ok out =>
        refine .inl ⟨out, rfl, ?_⟩
        have hsome : (extractFailureReason toString status).isSome = status.fails_later :=
          hreports.accepted_reason_isSome hx
        cases hlater : status.fails_later with
        | true =>
          rw [hlater] at hsome
          obtain ⟨reason, hreason⟩ := Option.isSome_iff_exists.1 hsome
          exact .inr ⟨rfl, reason, hreports.observe_failed hreason⟩
        | false =>
          rw [hlater] at hsome
          have hnone := Option.isSome_eq_false_iff.1 hsome
          rw [Option.isNone_iff_eq_none] at hnone
          obtain ⟨later, hlogs⟩ := hreports.logs hx
          obtain ⟨signed, fc, hdec, hfc, -, hline⟩ := submit_intent_logs hx
          obtain ⟨hmethod, hnonce⟩ := hplain signed fc hdec hfc
          have hvalid : signed.Valid host := (codec_signed.decodes.1 hdec).1
          rw [hline, List.map_singleton, List.singleton_append] at hlogs
          have hevents := extract_of_parsed hlogs
            (parse_line (hids _ hvalid.sender_id.1).needs_no_escape
              (hids _ hvalid.receiver_id.1).needs_no_escape hmethod)
          have hintent := intent_of_event hevents (line_members_read fc.method_name hid hnonce)
          refine .inl ⟨rfl, ?_⟩
          simp only [Except.bind, observe, hnone, hintent, Option.any_none, Bool.false_eq_true,
            if_false]
      | error msg =>
        exact .inr ⟨msg, _, rfl, hreports.observe_failed (hreports.refused_reason hx)⟩
  · refine .inr ⟨_, k, rfl, .inr ⟨hlate, fun j hj hjk => ?_⟩⟩
    rcases Nat.eq_or_lt_of_le hjk with rfl | hlt
    · exact hlast hj
    · exact hpolled.earlier j hj hlt

section Demo

open SequentialNear.Demo

/-- The first answer finds the receipt not executed, every later one does. -/
def two_answers (logs : List String) (i : Nat) : Except Thrown TxStatus :=
  if i ≤ 1 then .ok ⟨.text (utf16 "Started"), none, [⟨[], .text (utf16 "Started")⟩]⟩
  else .ok ⟨.success, none, [⟨logs.map utf16, .success⟩]⟩

/-- What the node would print a number as; it prints none here. -/
def printed (q : ℚ) : JsString := numeral q.num

theorem submission_observed_demo : ∃ out,
    open_gate.submit_intent Demo.host relayed (signed set11) = .ok out ∧
    submitAndObserve printed [] 30000 (2000 * ·) (two_answers out.logs) 100 =
      some (.ok ⟨some 0, none⟩) := by
  obtain ⟨out, hout, -⟩ :
      ∃ out ∈ (open_gate.submit_intent Demo.host relayed (signed set11)).toOption,
        out.logs.length = 1 := by decide +kernel
  have hsubmit : open_gate.submit_intent Demo.host relayed (signed set11) = .ok out :=
    ok_of_toOption hout
  have hdelegate : ∀ s ∈ (SignedDelegateAction.try_from_slice Demo.host (signed set11)).toOption,
      s.delegate_action = set11 := by decide +kernel
  have hexecuted : two_answers out.logs 2 =
      .ok ⟨.success, none, [⟨out.logs.map utf16, .success⟩]⟩ := rfl
  have hnoerror : ∀ i err, two_answers out.logs i ≠ .error err := by
    intro i err
    unfold two_answers
    split <;> exact fun h => by cases h
  have hplain : ∀ s fc, SignedDelegateAction.try_from_slice Demo.host (signed set11) = .ok s →
      s.delegate_action.actions = [.FunctionCall fc] →
        NeedsNoEscape fc.method_name ∧ s.delegate_action.nonce.val < 2 ^ 53 := by
    intro s fc hdec hfc
    have hs : s.delegate_action = set11 := hdelegate s (by rw [hdec]; rfl)
    rw [hs] at hfc ⊢
    cases hfc
    exact ⟨by decide, by decide⟩
  have htrue : ∀ i status, two_answers out.logs i = .ok status → status.outer_executed = true →
      Reports (fun _ => []) (open_gate.submit_intent Demo.host relayed (signed set11))
        status := by
    intro i status hstatus hexec
    unfold two_answers at hstatus
    split at hstatus
    · cases hstatus
      cases hexec
    · cases hstatus
      rw [hsubmit]
      refine ⟨rfl, fun out' hout' => ?_, fun msg hmsg => (by cases hmsg),
        fun err herr => (by cases herr), fun r hr err herr => ?_⟩
      · cases hout'
        rfl
      · obtain rfl := List.mem_singleton.1 hr
        cases herr
  have hpause : ∀ i, 2000 * (i + 1) + pollBackoffMs (i + 1) ≤ 2000 * (i + 2) := by
    intro i
    unfold pollBackoffMs
    omega
  obtain ⟨outcome, hobserved, hcases⟩ := @submission_observed Demo.host relayed open_gate
    (signed set11) printed (fun _ => []) [] 30000 100 (2000 * ·) (two_answers out.logs)
    (fun _ => demo_account_chars) (by decide) hplain (by decide) hpause htrue (by decide)
  refine ⟨out, hsubmit, hobserved.trans (congrArg some ?_)⟩
  have hlisted : ∀ i status, two_answers out.logs i = .ok status → status.fails_later = false := by
    intro i status hstatus
    unfold two_answers at hstatus
    split at hstatus <;> cases hstatus <;> rfl
  rcases hcases with ⟨k, status, hreply, -, ⟨out', -, ⟨-, rfl⟩ | ⟨hlater, -⟩⟩ | ⟨msg, -, hmsg, -⟩⟩ |
    ⟨err, k, -, ⟨herr, -⟩ | ⟨hlate, hnone⟩⟩
  · rfl
  · rw [hlisted k status hreply] at hlater
    cases hlater
  · rw [hsubmit] at hmsg
    cases hmsg
  · exact absurd herr (hnoerror k err)
  · have hfinal := hnone 2 (by decide) (by omega)
    rw [hexecuted] at hfinal
    cases hfinal

end Demo

end SequentialNear
