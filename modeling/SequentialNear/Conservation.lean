/-
Where an intent is, and when its dispatch cannot be made.

`on_intent_resumed` creates the user's call with the method, the gas and the deposit
the user signed, and `submit_intent` bounds none of them. A call that asks for more gas
than the callback has left, for more NEAR than the account holds, or for anything else
that the host does not let a receipt create, is not a failed call: it reverts the
callback that creates it, after the resume that removed the intent from `pending` has
been committed. [`dispatch_fits`] is the condition under which that does not happen. It
is exact relative to the host's rules, which are a parameter (`Deployment.admits`).

While every approved dispatch fits, an intent is always in one of four places:
pending, resumed with its callback outstanding, dispatched, or rejected. A
callback that is reverted leaves its intent in none of them.
-/
import SequentialNear.Exchange
import SequentialNear.Register

set_option autoImplicit false

namespace SequentialNear

open Nep366 Tickets Runs

/-! ## When a dispatch can be created -/

/-- The call an approved callback makes can be paid for and given its gas, the
sequence number of the next one is still a `u32`, and the host's further rules let the
callback create the call. -/
def dispatch_fits (d : Deployment) (balance gas_left : Nat) (args : CallbackArgs)
    (v : ResumeSignal) : Prop :=
  args.deposit.val ≤ balance ∧
  args.gas.val + (if v.next_intent_id.isSome then GAS_CONTINUE_CHAIN else 0) ≤ gas_left ∧
  (v.next_intent_id.isSome → v.sequence_number.getD 0 + 1 < 2 ^ 32) ∧
  d.admits balance gas_left args.toFunctionCall
    (v.next_intent_id.map fun id => (id, v.sequence_number.getD 0 + 1)) = true

instance (d : Deployment) (balance gas_left : Nat) (args : CallbackArgs) (v : ResumeSignal) :
    Decidable (dispatch_fits d balance gas_left args v) :=
  inferInstanceAs (Decidable (_ ∧ _ ∧ _ ∧ _))

/-- A dispatch fits when its sequence number does and the runtime can create its call. -/
theorem dispatch_fits_iff {d : Deployment} {balance gas_left : Nat} {args : CallbackArgs}
    {v : ResumeSignal} : dispatch_fits d balance gas_left args v ↔
      (v.next_intent_id.isSome → v.sequence_number.getD 0 + 1 < 2 ^ 32) ∧
      (HostAction.function_call args.intent_id args.toFunctionCall
        (v.next_intent_id.map fun id => (id, v.sequence_number.getD 0 + 1))).fits
          d balance gas_left := by
  simp only [dispatch_fits, HostAction.fits, HostAction.cost, HostAction.gas, HostAction.admitted,
    Option.isSome_map]
  constructor
  · rintro ⟨hdeposit, hgas, hseq, hadmits⟩
    exact ⟨hseq, hdeposit, hgas, hadmits⟩
  · rintro ⟨hseq, hdeposit, hgas, hadmits⟩
    exact ⟨hdeposit, hgas, hseq, hadmits⟩

/-- The `.then` callback is for the next intent at the next sequence number. -/
theorem chained_call_eq_ok {v : ResumeSignal} {and_then : Option (Nat × Nat)} :
    Gate.chained_call v = .ok and_then ↔
      (v.next_intent_id.isSome → v.sequence_number.getD 0 + 1 < 2 ^ 32) ∧
      and_then = v.next_intent_id.map fun id => (id, v.sequence_number.getD 0 + 1) := by
  cases hn : v.next_intent_id with
  | none =>
    rw [Gate.chained_call_none hn]
    simp [eq_comm]
  | some id =>
    have hseq : ∀ n, Gate.next_seq v.sequence_number = .ok n ↔
        v.sequence_number.getD 0 + 1 < 2 ^ 32 ∧ n = v.sequence_number.getD 0 + 1 := by
      intro n
      -- `map(|s| s + 1).unwrap_or(1)`: only a number that is there can overflow
      cases v.sequence_number with
      | none => simp [Gate.next_seq, eq_comm]
      | some s => simp [Gate.next_seq, checked_add_eq_ok]
    simp only [Gate.chained_call, hn, bind_eq_ok, hseq, pure_eq_ok, Option.isSome_some,
      Option.map_some, true_implies]
    constructor
    · rintro ⟨n, ⟨hlt, rfl⟩, rfl⟩
      exact ⟨hlt, rfl⟩
    · rintro ⟨hlt, rfl⟩
      exact ⟨_, ⟨hlt, rfl⟩, rfl⟩

/-- Executing this receipt now, when it burns `burnt` gas itself, creates what it asks
for. -/
def InFlight.fits (d : Deployment) (balance burnt : Nat) : InFlight → Prop
  | ⟨.callback _ args gas (.ok v), _, _⟩ =>
    v.approve = true → dispatch_fits d balance (gas - burnt) args v
  | _ => True

instance (d : Deployment) (f : InFlight) (balance burnt : Nat) :
    Decidable (f.fits d balance burnt) :=
  match f with
  | ⟨.callback _ args gas (.ok v), _, _⟩ =>
    inferInstanceAs (Decidable (v.approve = true → dispatch_fits d balance (gas - burnt) args v))
  | ⟨.callback _ _ _ (.error _), _, _⟩ => isTrue trivial
  | ⟨.target_call _ _ _ _, _, _⟩ => isTrue trivial
  | ⟨.continue_chain _ _, _, _⟩ => isTrue trivial
  | ⟨.transfer _ _, _, _⟩ => isTrue trivial

/-- The action is not the execution of a callback whose dispatch cannot be
created. -/
def Action.fits (d : Deployment) (s : Ledger) : Action → Prop
  | .run_callback i burnt => ∀ f ∈ s.receipts[i]?, f.fits d s.balance burnt
  | _ => True

instance (d : Deployment) (s : Ledger) : (a : Action) → Decidable (a.fits d s)
  | .run_callback i burnt =>
    inferInstanceAs (Decidable (∀ f ∈ s.receipts[i]?, f.fits d s.balance burnt))
  | .advance _ => isTrue trivial
  | .call _ _ _ _ => isTrue trivial
  | .timeout _ => isTrue trivial
  | .execute _ _ _ => isTrue trivial
  | .finish _ _ => isTrue trivial
  | .run_continue _ => isTrue trivial
  | .settle _ _ => isTrue trivial

namespace Ledger

variable {d : Deployment} {s s' s₀ : Ledger}

/-- What the delivery of an approval is for: the callback returns, its intent is
counted as dispatched and its call created, with `continue_chain` for the next
intent, if the signal names one, scheduled behind it. -/
def Completes (d : Deployment) (s : Ledger) (i burnt : Nat) (args : CallbackArgs)
    (v : ResumeSignal) (batch : Option Nat) : Prop :=
  ∃ s', step d s (.run_callback i burnt) = some s' ∧
    s'.gate.intents_dispatched = s.gate.intents_dispatched + 1 ∧
    s'.log = s.log ++ [⟨s.block_height, s.gate,
      .dispatched args.intent_id args.toFunctionCall v.sequence_number batch⟩] ∧
    s'.receipts = s.receipts.eraseIdx i ++ [⟨.target_call args.intent_id args.toFunctionCall
      (v.next_intent_id.map fun id => (id, v.sequence_number.getD 0 + 1)) false, batch,
      s.block_height⟩]

section Callback

variable {i burnt : Nat} {y : YieldId} {args : CallbackArgs} {gas : Nat} {v : ResumeSignal}
  {batch : Option Nat} {created : Nat}

/-- A callback in the queue that has the gas to start does take its step. -/
theorem step_run_callback {signal : Except PromiseError ResumeSignal}
    (hget : s.receipts[i]? = some ⟨.callback y args gas signal, batch, created⟩)
    (hburnt : burnt ≤ gas) : step d s (.run_callback i burnt) =
      some ((s.take i).run_callback d batch args gas burnt signal) := by
  simp only [step, hget, if_pos hburnt]

/-- An approved callback whose dispatch fits returns, with the dispatch. -/
theorem on_intent_resumed_fits (h : s.Lifecycle)
    (hget : s.receipts[i]? = some ⟨.callback y args gas (.ok v), batch, created⟩)
    (hv : v.approve = true) (hfits : dispatch_fits d s.balance (gas - burnt) args v) :
    ∃ g, Returns (s.gate.on_intent_resumed args (.ok v)) g
      (.function_call args.intent_id args.toFunctionCall
        (v.next_intent_id.map fun id => (id, v.sequence_number.getD 0 + 1))) := by
  obtain ⟨pre, post, htake⟩ := takes_of_get hget
  have hroom := (h.room rfl htake.split).1
  exact ⟨_, (Gate.on_intent_resumed_approve hv).2
    ⟨hroom, _, chained_call_eq_ok.2 ⟨hfits.2.2.1, rfl⟩, rfl, rfl⟩⟩

/-- An approved callback whose dispatch fits carries it out. -/
theorem run_callback_fits (h : s.Lifecycle)
    (hget : s.receipts[i]? = some ⟨.callback y args gas (.ok v), batch, created⟩)
    (hv : v.approve = true) (hfits : dispatch_fits d s.balance (gas - burnt) args v) :
    ∃ logs, (s.take i).run_callback d batch args gas burnt (.ok v) =
      (s.take i).apply (.dispatched args.intent_id args.toFunctionCall v.sequence_number batch)
        ⟨{ s.gate with
            pending := s.gate.pending.erase args.intent_id
            intents_dispatched := s.gate.intents_dispatched + 1 },
          .function_call args.intent_id args.toFunctionCall
            (v.next_intent_id.map fun id => (id, v.sequence_number.getD 0 + 1)), logs⟩
        0 batch 0 := by
  -- the method returns, and what it schedules fits what is left
  obtain ⟨g, logs, hret⟩ := on_intent_resumed_fits h hget hv hfits
  obtain ⟨-, and_then, -, hg, -⟩ := (Gate.on_intent_resumed_approve hv).1 ⟨logs, hret⟩
  refine ⟨logs, ?_⟩
  simp only [run_callback, show (s.take i).gate = s.gate from rfl, hret, hg]
  exact if_pos (dispatch_fits_iff.1 hfits).2

theorem completes_of_fits (h : s.Lifecycle)
    (hget : s.receipts[i]? = some ⟨.callback y args gas (.ok v), batch, created⟩)
    (hv : v.approve = true) (hburnt : burnt ≤ gas)
    (hfits : dispatch_fits d s.balance (gas - burnt) args v) :
    s.Completes d i burnt args v batch := by
  obtain ⟨logs, hrun⟩ := run_callback_fits h hget hv hfits
  refine ⟨_, step_run_callback hget hburnt, ?_, ?_, ?_⟩
  · rw [hrun, apply_gate]
  · rw [hrun, apply_log]
    rfl
  · rw [hrun, apply_receipts]
    rfl

/-- A callback whose dispatch fits is not reverted. -/
theorem not_reverted_of_fits (h : s.Lifecycle)
    (hget : s.receipts[i]? = some ⟨.callback y args gas (.ok v), batch, created⟩)
    (hv : v.approve = true) (hfits : dispatch_fits d s.balance (gas - burnt) args v) :
    ¬ ∀ g act, Returns (s.gate.on_intent_resumed args (.ok v)) g act →
      ¬ act.fits d s.balance (gas - burnt) := by
  obtain ⟨g, hg⟩ := on_intent_resumed_fits h hget hv hfits
  intro hfail
  exact hfail _ _ hg (dispatch_fits_iff.1 hfits).2

/-- A callback whose dispatch does not fit is reverted. -/
theorem run_callback_unfit (hv : v.approve = true)
    (hunfit : ¬ dispatch_fits d s.balance (gas - burnt) args v) :
    s.run_callback d batch args gas burnt (.ok v) = s.record (.aborted args.intent_id batch) := by
  unfold run_callback
  split
  · rfl
  · rename_i out hout
    obtain ⟨-, and_then, hc, -, hact⟩ :=
      (Gate.on_intent_resumed_approve hv).1 (returns_of_eq_ok hout)
    obtain ⟨hseq, rfl⟩ := chained_call_eq_ok.1 hc
    -- had the host let the call be created, the dispatch would fit
    refine if_neg fun hcan => hunfit ?_
    rw [hact] at hcan
    exact dispatch_fits_iff.2 ⟨hseq, hcan⟩

theorem fits_of_completes
    (hget : s.receipts[i]? = some ⟨.callback y args gas (.ok v), batch, created⟩)
    (hv : v.approve = true) (hburnt : burnt ≤ gas) (h : s.Completes d i burnt args v batch) :
    dispatch_fits d s.balance (gas - burnt) args v := by
  -- otherwise the callback logs `aborted` where the completed one logs `dispatched`
  by_contra hunfit
  have hrun : (s.take i).run_callback d batch args gas burnt (.ok v) = _ :=
    run_callback_unfit hv hunfit
  obtain ⟨s', hstep, -, hlog, -⟩ := h
  rw [step_run_callback hget hburnt, hrun, Option.some.injEq] at hstep
  subst hstep
  simp [Ledger.take] at hlog

/-- **An approval completes exactly when its dispatch fits**: in every reachable
state, for every approval delivered, however little gas the callback burns itself. -/
theorem approval_completes_iff (h : Reachable d s)
    (hget : s.receipts[i]? = some ⟨.callback y args gas (.ok v), batch, created⟩)
    (hv : v.approve = true) (hburnt : burnt ≤ gas) :
    s.Completes d i burnt args v batch ↔ dispatch_fits d s.balance (gas - burnt) args v :=
  ⟨fits_of_completes hget hv hburnt, completes_of_fits h.lifecycle hget hv hburnt⟩

end Callback

section Demo

open SequentialNear.Demo

/-- Two intents in one batch, up to the first one's callback. -/
def first_approval (delegates : List DelegateAction) : List Action :=
  submissions delegates ++ [.call approver FEE 0 (.resume_batch_chained first_two)]

theorem approval_completes_iff_demo : ∃ s args, Reachable deployment s ∧
    (s.Completes deployment 0 0 args ⟨true, some 0, some 1⟩ (some 1) ↔
      dispatch_fits deployment s.balance GAS_YIELD_CALLBACK args ⟨true, some 0, some 1⟩) := by
  have hrun : ∃ s, Run (step deployment) anyAction start s ∧
      s.receipts[0]? = some ⟨.callback 0 ⟨⟨register, "set", "\x7b\"value\":\"11\"\x7d".toByteArray.toList,
        0, 30000000000000⟩, 0⟩ GAS_YIELD_CALLBACK (.ok ⟨true, some 0, some 1⟩), some 1, 100⟩ :=
    exists_run_of_exec (first_approval [set11, set22]) _ (by decide +kernel)
  obtain ⟨s, hrun, hget⟩ := hrun
  have hs : Reachable deployment s := ⟨_, _, _, _, hrun⟩
  exact ⟨s, _, hs, approval_completes_iff hs hget rfl (Nat.zero_le _)⟩

/-- The greedy intent's approval is delivered, and cannot complete. -/
theorem approval_completes_fails : ¬ ∀ (s : Ledger) (i burnt : Nat) (y : YieldId)
    (args : CallbackArgs) (gas : Nat) (v : ResumeSignal) (batch : Option Nat) (created : Nat),
    Reachable deployment s →
    s.receipts[i]? = some ⟨.callback y args gas (.ok v), batch, created⟩ → v.approve = true →
    burnt ≤ gas → s.Completes deployment i burnt args v batch := by
  intro h
  have hrun : ∃ s, Run (step deployment) anyAction start s ∧
      s.receipts[0]? = some ⟨.callback 0 ⟨⟨register, "set", "\x7b\"value\":\"55\"\x7d".toByteArray.toList,
        0, 2 ^ 64 - 1⟩, 0⟩ GAS_YIELD_CALLBACK (.ok ⟨true, some 0, some 1⟩), some 1, 100⟩ :=
    exists_run_of_exec (first_approval [greedy, set22]) _ (by decide +kernel)
  obtain ⟨s, hrun, hget⟩ := hrun
  have hdone := h s 0 0 _ _ _ _ _ _ ⟨_, _, _, _, hrun⟩ hget rfl (Nat.zero_le _)
  have hfits := fits_of_completes hget rfl (Nat.zero_le _) hdone
  -- 2^64 - 1 gas and the gas of `continue_chain`, out of 200 Tgas
  exact absurd hfits.2.1 (by decide)

end Demo

/-! ## The four places -/

end Ledger

/-- Where an intent can be. -/
inductive Place
  | pending
  | resumed
  | dispatched
  | rejected

namespace Ledger

variable {d : Deployment} {s s' s₀ : Ledger}

/-- A pending intent is listed, and its callback has not run: its yield is open,
or has timed out and the callback is on its way. A resumed one has its callback
outstanding; the other two are what the log says. -/
def At (s : Ledger) (id : Nat) : Place → Prop
  | .pending => ∃ p, s.gate.pending.lookup id = some p ∧
      ((∃ w, s.yields.lookup p.yield_id = some w ∧ w.args.intent_id = id) ∨
        (p.yield_id, id) ∈ s.lapsed)
  | .resumed => id ∈ s.resumed
  | .dispatched => id ∈ s.met .dispatched
  | .rejected => id ∈ s.met .rejected

/-- **Conservation**: every minted intent is in exactly one place, no other number
is in any, no yield is resumed twice, the calls issued are those of the dispatched
intents, none of them twice or after a rejection, and the counters add up. -/
structure Conserved (s : Ledger) : Prop where
  place : ∀ id < s.gate.next_intent_id, ∃! place, s.At id place
  unminted : ∀ id, s.gate.next_intent_id ≤ id → ∀ place, ¬ s.At id place
  pending : ∀ id, id ∈ s.gate.pending ↔ s.At id .pending
  resumed_once : ∀ id, s.resumes.count id ≤ 1
  issued : ∀ id, id ∈ s.calls_issued.map Prod.fst ↔ s.At id .dispatched
  issued_once : ∀ id, (s.calls_issued.map Prod.fst).count id ≤ 1
  never_after : ∀ id ∈ s.calls_issued.map Prod.fst, id ∉ s.met .rejected
  submitted : s.gate.intents_submitted = s.gate.next_intent_id
  total : s.gate.intents_submitted =
    s.gate.pending.keys.length + s.resumed.length + s.gate.intents_dispatched +
      s.gate.intents_rejected

/-- How often an intent is in a place, as the books count it. -/
def occupancy (s : Ledger) (id : Nat) : Place → Nat
  | .pending => s.books.held id
  | .resumed => s.resumed.count id
  | .dispatched => (s.met .dispatched).count id
  | .rejected => (s.met .rejected).count id

theorem exists_unique_place {f : Place → Nat}
    (h : f .pending + f .resumed + f .dispatched + f .rejected = 1) : ∃! q, 0 < f q := by
  have hsome : ∃ q, 0 < f q := by
    by_contra hnone
    have hzero : ∀ q, f q = 0 := fun q => Nat.eq_zero_of_not_pos fun hq => hnone ⟨q, hq⟩
    rw [hzero, hzero, hzero, hzero] at h
    cases h
  obtain ⟨q, hq⟩ := hsome
  -- two occupied places would already make two
  refine ⟨q, hq, fun r hr => ?_⟩
  cases q <;> cases r <;> first | rfl | omega

/-- Every fate is one of the three. -/
theorem fates_count (id : Nat) : (s.fates.map Prod.fst).count id =
    (s.met .dispatched).count id + (s.met .rejected).count id + (s.met .aborted).count id := by
  unfold met
  induction s.fates with
  | nil => rfl
  | cons f fs ih =>
    obtain ⟨n, w⟩ := f
    cases w <;>
      simp only [List.map_cons, List.filterMap_cons, reduceCtorEq, if_true, if_false,
        List.count_cons, ih] <;> omega

theorem fates_length : s.fates.length =
    (s.met .dispatched).length + (s.met .rejected).length + (s.met .aborted).length := by
  unfold met
  induction s.fates with
  | nil => rfl
  | cons f fs ih =>
    obtain ⟨n, w⟩ := f
    cases w <;>
      simp only [List.filterMap_cons, reduceCtorEq, if_true, if_false, List.length_cons, ih] <;>
      omega

theorem mem_pending_iff {id : Nat} :
    id ∈ s.gate.pending ↔ (s.books.hold id).isSome = true := by
  rw [← AList.lookup_isSome]
  simp only [books, Option.isSome_map]

theorem held_pos_iff {id : Nat} : 0 < s.books.held id ↔ id ∈ s.gate.pending := by
  rw [mem_pending_iff]
  unfold Books.held
  split <;> simp_all

namespace Lifecycle

theorem pending_iff (h : s.Lifecycle) (id : Nat) : id ∈ s.gate.pending ↔ s.At id .pending := by
  constructor
  · intro hid
    obtain ⟨p, hp⟩ := Option.isSome_iff_exists.1 (AList.lookup_isSome.2 hid)
    have hhold : s.books.hold id = some p.yield_id := by simp only [Ledger.books, hp, Option.map_some]
    refine ⟨p, hp, ?_⟩
    rcases h.books.held_under id p.yield_id hhold with hopen | hlap
    · obtain ⟨w, hw, hwid⟩ := Option.map_eq_some_iff.1 hopen
      exact .inl ⟨w, hw, hwid⟩
    · exact .inr hlap
  · rintro ⟨p, hp, -⟩
    exact AList.lookup_isSome.1 (hp ▸ rfl)

theorem at_iff (h : s.Lifecycle) (id : Nat) (q : Place) : s.At id q ↔ 0 < s.occupancy id q := by
  cases q with
  | pending => rw [← h.pending_iff, occupancy, held_pos_iff]
  | resumed => exact List.count_pos_iff.symm
  | dispatched => exact List.count_pos_iff.symm
  | rejected => exact List.count_pos_iff.symm

/-- The intents, wherever they are, are the numbers minted so far. -/
theorem perm (h : s.Lifecycle) : (s.gate.pending.keys ++ s.resumed ++ s.fates.map Prod.fst).Perm
    (List.range s.gate.next_intent_id) :=
  h.books.perm s.gate.pending.keys_nodup fun t => by
    rw [← AList.mem_keys, mem_pending_iff]

theorem once (h : s.Lifecycle) (id : Nat) : s.books.held id + s.resumed.count id +
    ((s.met .dispatched).count id + (s.met .rejected).count id + (s.met .aborted).count id) =
      if id < s.gate.next_intent_id then 1 else 0 := by
  rw [← fates_count]
  exact h.books.once id

end Lifecycle

/-- **Conservation is what an aborted callback breaks, and nothing else does.** -/
theorem conserved_iff (h : Reachable d s) : s.Conserved ↔ s.met .aborted = [] := by
  have hlife := h.lifecycle
  have hlen := hlife.perm.length_eq
  simp only [List.length_append, List.length_map, List.length_range, fates_length] at hlen
  have hsub := hlife.counters.submitted
  have hd := hlife.counters.dispatched
  have hr := hlife.counters.rejected
  constructor
  · intro hc
    have htotal := hc.total
    -- the books count the aborted intents too, the contract's total does not
    exact List.eq_nil_of_length_eq_zero (by omega)
  · intro hab
    -- nothing aborted: the four places are all that is left of `once`
    have honce := hlife.once
    simp only [hab, List.count_nil, Nat.add_zero] at honce
    rw [hab, List.length_nil] at hlen
    have hissued := h.issued_perm
    refine ⟨fun id hid => ?_, fun id hid place => ?_, hlife.pending_iff, fun id => ?_,
      fun id => hissued.mem_iff, fun id => ?_, fun id hid hid' => ?_, hsub, by omega⟩
    · have h1 : s.occupancy id .pending + s.occupancy id .resumed + s.occupancy id .dispatched +
          s.occupancy id .rejected = 1 := by
        rw [Nat.add_assoc]
        exact (honce id).trans (if_pos hid)
      simp only [hlife.at_iff]
      exact exists_unique_place h1
    · have h1 := (honce id).trans (if_neg (Nat.not_lt.2 hid))
      rw [hlife.at_iff]
      cases place <;> simp only [occupancy] <;> omega
    · have hrel := hlife.books.releases id
      unfold Books.minted at hrel
      have : s.books.releases.count id = s.resumes.count id := rfl
      split at hrel <;> omega
    · have h1 := honce id
      rw [hissued.count_eq]
      split at h1 <;> omega
    · have h1 := honce id
      have hpos := List.count_pos_iff.2 (hissued.mem_iff.1 hid)
      have hpos' := List.count_pos_iff.2 hid'
      split at h1 <;> omega

/-! ## Runs in which every dispatch fits -/

/-- A move of an action that fits reverts no callback. -/
theorem not_aborted_of_fits {a : Action} (h : s.Lifecycle) (hab : s.met .aborted = [])
    (hfits : a.fits d s₀) (hmove : Move d s₀ a s s') : s'.met .aborted = [] := by
  have hsame : s'.fates = s.fates → s'.met .aborted = [] := fun hf => by
    rw [met, hf]
    exact hab
  cases hmove with
  | advance ha => exact hab
  | refused hcall => exact hsame (by simp [fates, Event.fate])
  | called hcall hacc hcaller hspare heff => exact hsame (by simp [fates, Event.fate])
  | timed_out ha hw => exact hsame (by simp [fates, time_out, Event.fate])
  | @resumed i burnt y args gas signal batch created pre post out ha htake hret hfits =>
    obtain ⟨w, hfate, hw⟩ := resumed_effect batch hret
    have hw : w ≠ .aborted := by
      rcases hw with ⟨rfl, -⟩ | ⟨rfl, -⟩ <;> exact Fate.noConfusion
    rw [met_apply, hfate]
    have hnew : (if w = .aborted then some args.intent_id else none) = none := if_neg hw
    simp only [Option.toList_some, List.filterMap_cons, hnew, List.filterMap_nil, List.append_nil]
    exact hab
  | @aborted i burnt y args gas signal batch created pre post ha htake hfail =>
    -- a callback is reverted for three reasons, and none applies
    exfalso
    cases signal with
    | error e =>
      obtain ⟨g, hg⟩ := h.timeout_completes rfl htake.split
      exact hfail _ _ hg (HostAction.fits_none _ _ _)
    | ok v =>
      cases hv : v.approve with
      | false =>
        obtain ⟨g, hg⟩ := h.reject_completes rfl hv htake.split
        exact hfail _ _ hg (HostAction.fits_none _ _ _)
      | true =>
        subst ha
        exact not_reverted_of_fits h htake.get hv (hfits _ htake.get hv) hfail
  | ran hf hblock hrecs => exact hsame (by simp [fates, ran, without, Event.fate])
  | @finished i success id call and_then batch created pre post ha htake =>
    cases and_then <;> exact hsame (by simp [fates, Ledger.finish, without, Event.fate])
  | continued ha htake heff => exact hsame (by simp [fates, without, Event.fate])
  | continue_failed ha htake hfail => exact hsame (by simp [fates, without, Event.fate])
  | @settled i success to_id amount batch created pre post ha htake =>
    refine hsame ?_
    unfold Ledger.settle
    split <;> simp [fates, without, Event.fate]

end Ledger

theorem fits_step {d : Deployment} {s s' : Ledger} {a : Action} (h : s.Lifecycle)
    (hab : s.met .aborted = []) (hfits : a.fits d s) (hstep : step d s a = some s') :
    s'.met .aborted = [] := by
  refine (step_preserves (fun t => t.Lifecycle ∧ t.met .aborted = []) hstep ⟨h, hab⟩ ?_).2
  rintro t t' ⟨ht, hab⟩ hmove
  exact ⟨ht.move hmove, Ledger.not_aborted_of_fits ht hab hfits hmove⟩

/-- A step that reverts no callback fits. -/
theorem fits_of_step {d : Deployment} {s s' : Ledger} {a : Action} (hab : s'.met .aborted = [])
    (hstep : step d s a = some s') : a.fits d s := by
  cases a with
  | run_callback i burnt =>
    intro f hget
    obtain ⟨receipt, batch, created⟩ := f
    cases receipt with
    | callback y args gas signal =>
      cases signal with
      | error e => trivial
      | ok v =>
        intro hv
        -- a dispatch that does not fit is reverted, and `hab` says nothing was
        by_contra hunfit
        have hrun : (s.take i).run_callback d batch args gas burnt (.ok v) = _ :=
          Ledger.run_callback_unfit hv hunfit
        have hburnt : burnt ≤ gas := by
          simp only [step, Option.mem_def.1 hget] at hstep
          split at hstep
          · assumption
          · cases hstep
        rw [Ledger.step_run_callback hget hburnt, hrun, Option.some.injEq] at hstep
        subst hstep
        simp [Event.fate] at hab
    | _ => trivial
  | _ => trivial

/-- What has been aborted stays aborted. -/
theorem not_aborted_of_step {d : Deployment} {s s' : Ledger} {a : Action}
    (hab : s'.met .aborted = []) (hstep : step d s a = some s') : s.met .aborted = [] := by
  obtain ⟨l, hl⟩ := log_extends hstep
  rw [Ledger.met, Ledger.fates, ← hl, List.filterMap_append, List.filterMap_append,
    List.append_eq_nil_iff] at hab
  exact hab.1

/-- **Intents are conserved exactly as long as every dispatch fits**: over any
interleaving of submissions, resumes, timeouts, chain steps, owner calls and
resets, a run ends with every intent accounted for if and only if it can be
made without a callback whose dispatch does not fit. -/
theorem intents_conserved_iff {d : Deployment} {owner_id approver_id : AccountId}
    {balance block_height : Nat} {s : Ledger}
    (h : Run (step d) anyAction (Ledger.init owner_id approver_id balance block_height) s) :
    s.Conserved ↔ Run (step d) (fun s a => a.fits d s)
      (Ledger.init owner_id approver_id balance block_height) s := by
  constructor
  · intro hc
    have hab := (Ledger.conserved_iff ⟨_, _, _, _, h⟩).1 hc
    -- backwards along the run: the log only grows, so no earlier state had an abort either
    clear hc
    induction h with
    | refl => exact Run.refl _
    | tail hrun hstep ih =>
      obtain ⟨a, -, hst⟩ := hstep
      exact (ih (not_aborted_of_step hab hst)).tail (fits_of_step hab hst) hst
  -- forwards: the life cycle and the absence of aborts are kept together
  · intro hrun
    let I : Ledger → Prop := fun t => t.Lifecycle ∧ t.met .aborted = []
    have hinv : I s := by
      refine hrun.invariant ⟨.init owner_id approver_id balance block_height, rfl⟩ ?_
      intro t a t' ht hfits hst
      exact ⟨ht.1.step hst, fits_step ht.1 ht.2 hfits hst⟩
    exact (Ledger.conserved_iff ⟨_, _, _, _, h⟩).2 hinv.2

section Demo

open SequentialNear.Demo

/-- A whole batch of two, each step in the block after the one before. -/
def two_intents : List Action :=
  Ledger.first_approval [set11, set22] ++ deliver ++ [.advance 1, .run_continue 0] ++ deliver

theorem intents_conserved_iff_demo : ∃ s, Run (step deployment) anyAction start s ∧
    s.met .dispatched = [0, 1] ∧
    (s.Conserved ↔ Run (step deployment) (fun s a => a.fits deployment s) start s) := by
  have hrun : ∃ s, Run (step deployment) anyAction start s ∧ s.met .dispatched = [0, 1] :=
    exists_run_of_exec two_intents _ (by decide +kernel)
  obtain ⟨s, hrun, hmet⟩ := hrun
  exact ⟨s, hrun, hmet, intents_conserved_iff hrun⟩

/-- The greedy intent's callback is reverted, and the intent is gone. -/
theorem intents_conserved_fails : ¬ ∀ s, Reachable deployment s → s.Conserved := by
  intro h
  have hrun : ∃ s, Run (step deployment) anyAction start s ∧ s.met .aborted = [0] :=
    exists_run_of_exec (Ledger.first_approval [greedy, set22] ++ [.advance 1, .run_callback 0 0]) _
      (by decide +kernel)
  obtain ⟨s, hrun, hmet⟩ := hrun
  have hs : Reachable deployment s := ⟨_, _, _, _, hrun⟩
  have hnil := (Ledger.conserved_iff hs).1 (h s hs)
  rw [hmet] at hnil
  cases hnil

end Demo

end SequentialNear
