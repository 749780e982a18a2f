/-
Is the fee pot there?

`withdraw_fees` reads the available amount off the ledger, not off the account, and
the account pays for something else besides: the deposits that users sign into their
intents. Nobody funds those. What the account holds beyond the pot, its slack, only
grows, except in the callback that creates a dispatch with a deposit
([`Ledger.slack_move`], [`Ledger.slack_callback`]). So the pot is there in every state of a
run exactly as long as each such deposit fits into the slack
([`fee_pot_solvent_iff`]).

A withdrawal itself is an asynchronous transfer. The ledger is advanced when it is
asked for and is not touched again when the outcome arrives
([`withdrawals_by_outcome`]).
-/
import SequentialNear.Fees
import SequentialNear.Conservation

set_option autoImplicit false

namespace SequentialNear

open Nep366 Runs

/-- What `withdraw_fees` reports as available. -/
def Gate.available (g : Gate) : Nat := g.fees_collected_total - g.fees_withdrawn_total

/-- The NEAR that executing a receipt takes from the account: the deposit of the
dispatch it creates. -/
def InFlight.draws (d : Deployment) (balance burnt : Nat) : InFlight → Nat
  | ⟨.callback _ args gas (.ok v), _, _⟩ =>
    if v.approve = true ∧ dispatch_fits d balance (gas - burnt) args v then args.deposit.val else 0
  | _ => 0

def Action.draws (d : Deployment) (s : Ledger) : Action → Nat
  | .run_callback i burnt => (s.receipts[i]?).elim 0 (·.draws d s.balance burnt)
  | _ => 0

/-- What the action draws fits into what the account holds beyond the fees. -/
def funded (d : Deployment) (s : Ledger) (a : Action) : Prop :=
  a.draws d s ≤ s.balance - s.gate.available

instance (d : Deployment) (s : Ledger) (a : Action) : Decidable (funded d s a) :=
  inferInstanceAs (Decidable (_ ≤ _))

namespace Ledger

variable {d : Deployment} {s s' s₀ : Ledger} {a : Action}

/-- The account holds the available fees. -/
def Solvent (s : Ledger) : Prop := s.gate.available ≤ s.balance

/-! ## What the account holds beyond the fees -/

def slack (s : Ledger) : Int :=
  (s.balance : Int) + s.gate.fees_withdrawn_total - s.gate.fees_collected_total

theorem solvent_iff_slack : s.Solvent ↔ 0 ≤ s.slack := by
  unfold Solvent slack Gate.available
  omega

theorem slack_congr (hgate : s.gate.CallFrame s'.gate) {n : Nat}
    (hbal : s'.balance = s.balance + n) : s.slack ≤ s'.slack := by
  simp only [slack, hgate.fees_collected_total, hgate.fees_withdrawn_total, hbal]
  omega

/-- An accepted call pays its fee out of what was attached, and a withdrawal is booked. -/
theorem slack_called {c : GateCall} {caller : AccountId} {deposit spare : Nat} {out : Outcome}
    {e : Event} {batch : Option Nat}
    (hrun : c.run d.host (s.env d caller deposit) s.gate = .ok out) :
    s.slack ≤ (s.apply e out deposit batch spare).slack := by
  have hfees := GateCall.run_fees hrun
  have hpaid := hfees.paid
  have hwith := hfees.withdrawn
  have hattached : out.gate.fees_collected_total ≤ s.gate.fees_collected_total + deposit :=
    hfees.attached
  simp only [slack, apply_balance, apply_gate]
  omega

/-- **Only a callback can take from the slack.** -/
theorem slack_move (hmove : Move d s₀ a s s') (hrest : ∀ i burnt, a ≠ .run_callback i burnt) :
    s.slack ≤ s'.slack := by
  cases hmove with
  | advance ha => exact le_rfl
  | refused hcall => exact le_rfl
  | called hcall hacc hcaller hspare heff hrun => exact slack_called hrun
  | timed_out ha hw => exact le_rfl
  | resumed ha => exact absurd ha (hrest _ _)
  | aborted ha => exact absurd ha (hrest _ _)
  | @ran _ id call and_then batch created pre post ok hf hblock hrecs =>
    cases ok with
    | true => exact slack_congr (n := 0) (.refl _) rfl
    -- a call that failed brings its deposit back
    | false => exact slack_congr (n := call.deposit) (.refl _) rfl
  | @finished i success id call and_then batch created pre post ha htake =>
    cases and_then <;> exact le_rfl
  | @continued i next_id next_seq batch created pre post out ha htake heff =>
    generalize hg : out.gate = g' at heff
    generalize hact : out.action = act at heff
    cases heff with
    | admin hc => cases hc
    | chain =>
      refine slack_congr (n := 0) ?_ ?_
      · rw [apply_gate, hg]
        exact ⟨rfl, rfl, rfl, rfl, rfl, rfl, rfl, rfl, rfl, rfl⟩
      · rw [apply_balance, hact]
        rfl
  | continue_failed ha => exact le_rfl
  | @settled i success to_id amount batch created pre post ha htake =>
    unfold Ledger.settle
    split
    · exact le_rfl
    · exact slack_congr (n := amount) (.refl _) rfl

/-- A callback that creates no call takes nothing. -/
theorem slack_callback_idle {batch : Option Nat} {args : CallbackArgs} {gas burnt : Nat}
    {signal : Except PromiseError ResumeSignal}
    (hidle : ∀ v, signal = .ok v → v.approve = false) :
    (s.run_callback d batch args gas burnt signal).slack = s.slack := by
  unfold run_callback
  split
  · rfl
  · rename_i out hout
    split
    · obtain ⟨w, -, ⟨-, ⟨v, hv, happr, -⟩, -⟩ | ⟨-, hact, hg⟩⟩ :=
        resumed_effect batch (returns_of_eq_ok hout)
      · rw [hidle v hv] at happr
        cases happr
      · simp only [slack, apply_balance, apply_gate, hact, hg, HostAction.cost]
        rfl
    · rfl

/-- **What a callback takes from the slack is what it draws**, and the account has it. -/
theorem slack_callback (h : s.Lifecycle) {i burnt : Nat}
    (hstep : step d s (.run_callback i burnt) = some s') :
    s'.slack = s.slack - (Action.run_callback i burnt).draws d s ∧
      (Action.run_callback i burnt).draws d s ≤ s.balance := by
  simp only [step] at hstep
  split at hstep
  · rename_i y args gas signal batch created hget
    split at hstep
    · simp only [Option.some.injEq] at hstep
      subst hstep
      simp only [Action.draws, hget, Option.elim_some]
      cases signal with
      | error e =>
        refine ⟨?_, Nat.zero_le _⟩
        rw [slack_callback_idle fun v hv => by cases hv]
        exact (sub_zero _).symm
      | ok v =>
        by_cases hv : v.approve = true
        · by_cases hfits : dispatch_fits d s.balance (gas - burnt) args v
          · have hdep := hfits.1
            obtain ⟨logs, hrun⟩ := run_callback_fits h hget hv hfits
            simp only [InFlight.draws, if_pos (And.intro hv hfits)]
            refine ⟨?_, hdep⟩
            rw [hrun]
            simp only [slack, apply_balance, apply_gate, HostAction.cost, Ledger.take]
            omega
          -- a dispatch that cannot be created is reverted, and takes nothing
          · simp only [InFlight.draws, if_neg (fun hc : _ ∧ _ => hfits hc.2)]
            refine ⟨?_, Nat.zero_le _⟩
            rw [run_callback_unfit (s := s.take i) hv hfits]
            exact (sub_zero _).symm
        · simp only [InFlight.draws, if_neg (fun hc : _ ∧ _ => hv hc.1)]
          refine ⟨?_, Nat.zero_le _⟩
          rw [slack_callback_idle fun w hw => by cases hw; exact Bool.eq_false_iff.2 hv]
          exact (sub_zero _).symm
    · cases hstep
  · cases hstep

/-- **A step from a solvent state stays solvent exactly when it is funded.** -/
theorem solvent_step_iff (h : s.Lifecycle) (hs : s.Solvent) (hstep : step d s a = some s') :
    s'.Solvent ↔ funded d s a := by
  by_cases hcb : ∃ i burnt, a = .run_callback i burnt
  · obtain ⟨i, burnt, rfl⟩ := hcb
    obtain ⟨hslack, hdraws⟩ := slack_callback h hstep
    rw [solvent_iff_slack, hslack]
    unfold Solvent Gate.available at hs
    unfold funded Gate.available slack
    omega
  · have hrest : ∀ i burnt, a ≠ .run_callback i burnt := fun i burnt ha => hcb ⟨i, burnt, ha⟩
    have hfunded : funded d s a := by
      cases a with
      | run_callback i burnt => exact absurd rfl (hrest i burnt)
      | _ => exact Nat.zero_le _
    have hkept : s.slack ≤ s'.slack :=
      step_preserves (fun t => s.slack ≤ t.slack) hstep le_rfl fun _ _ ht hmove =>
        ht.trans (slack_move hmove hrest)
    refine iff_of_true ?_ hfunded
    exact solvent_iff_slack.2 ((solvent_iff_slack.1 hs).trans hkept)

end Ledger

/-! ## Whole runs -/

/-- Every state the action can lead to is solvent. -/
def stays_solvent (d : Deployment) (s : Ledger) (a : Action) : Prop :=
  ∀ s', step d s a = some s' → s'.Solvent

/-- What the available amount lets the owner ask for, a solvent account pays. -/
theorem Ledger.Solvent.withdrawal_paid {d : Deployment} {s : Ledger} (hs : s.Solvent)
    (hbook : s.FeeBook) {amount : Nat} (to_id : AccountId) (spare : Nat)
    (havail : amount ≤ s.gate.available) :
    (s.call d s.gate.owner_id 0 spare (.withdraw_fees amount to_id)).2 = true := by
  have hle : s.gate.available ≤ s.balance := hs
  have hbound := hbook.bound
  have hcov := hbook.covered
  have hfits : s.gate.fees_withdrawn_total + amount < 2 ^ 128 := by
    unfold Gate.available at havail
    omega
  have hret : Returns (s.gate.withdraw_fees (s.env d s.gate.owner_id 0) amount to_id) _ _ :=
    withdraw_fees_returns.2 ⟨rfl, havail, hfits, rfl, rfl⟩
  obtain ⟨logs, hrun⟩ := hret
  have hcall : (GateCall.withdraw_fees amount to_id).run d.host (s.env d s.gate.owner_id 0) s.gate =
      .ok _ := bind_eq_ok.2 ⟨(), require_eq_ok.2 rfl, hrun⟩
  exact congrArg Prod.snd (Ledger.call_of_run spare hcall (havail.trans hle))

/-- **The fee pot is there in every state of a run exactly when every dispatch is funded**,
and then what the owner may withdraw is paid. -/
theorem fee_pot_solvent_iff (d : Deployment) (owner_id approver_id : AccountId)
    (balance block_height : Nat) (s : Ledger) :
    (Run (step d) (stays_solvent d) (.init owner_id approver_id balance block_height) s ↔
      Run (step d) (funded d) (.init owner_id approver_id balance block_height) s) ∧
    (Run (step d) (funded d) (.init owner_id approver_id balance block_height) s → s.Solvent ∧
      ∀ amount to_id spare, amount ≤ s.gate.available →
        (s.call d s.gate.owner_id 0 spare (.withdraw_fees amount to_id)).2 = true) := by
  let I : Ledger → Prop := fun t => t.Lifecycle ∧ t.Solvent
  have h0 : I (.init owner_id approver_id balance block_height) :=
    ⟨.init _ _ _ _, Nat.zero_le _⟩
  have hfunded : ∀ t a t', I t → funded d t a → step d t a = some t' → stays_solvent d t a ∧ I t' := by
    rintro t a t' ⟨hlife, hsolv⟩ hf hst
    have hkeep : stays_solvent d t a := fun u hu => (Ledger.solvent_step_iff hlife hsolv hu).2 hf
    exact ⟨hkeep, hlife.step hst, hkeep t' hst⟩
  have hsolvent : ∀ t a t', I t → stays_solvent d t a → step d t a = some t' →
      funded d t a ∧ I t' := by
    rintro t a t' ⟨hlife, hsolv⟩ hk hst
    exact ⟨(Ledger.solvent_step_iff hlife hsolv hst).1 (hk t' hst), hlife.step hst, hk t' hst⟩
  refine ⟨⟨fun hrun => (hrun.reguard h0 hsolvent).1, fun hrun => (hrun.reguard h0 hfunded).1⟩, ?_⟩
  intro hrun
  have hs := (hrun.reguard h0 hfunded).2.2
  have hreach : Reachable d s :=
    ⟨owner_id, approver_id, balance, block_height, hrun.mono fun _ _ _ => trivial⟩
  exact ⟨hs, fun amount to_id spare => hs.withdrawal_paid hreach.fee_book to_id spare⟩

section Demo

open SequentialNear.Demo

/-- A call of the register with 0.03 NEAR attached, which is what the approver pays. -/
def generous : DelegateAction :=
  { delegate 7 register "set" "\x7b\"value\":\"77\"\x7d" 30000000000000 1000000 with
    actions := [.FunctionCall ⟨"set", "\x7b\"value\":\"77\"\x7d".toByteArray.toList,
      30000000000000, 30000000000000000000000⟩] }

def generous_signature : Nat :=
  0x3c051cfc2a612927c08b1b8dfea71a7a07b0facf14ac58cccf8941e6268854baf6fb91054c7f2da53699facacf7844a63f029f80c520828669d7cb3a61c201

def generous_deployment : Deployment :=
  deployment_with generous 0x97dc7e56d23cf9b69e2fa82a6da6b6b00841358447bdf9b16b3b6160c845b739
    generous_signature

/-- A gate that holds nothing, up to the dispatch of the intent. -/
def drained : List Action :=
  [.call owner 0 0 (.add_relayer relayer),
   .call relayer 0 0 (.submit_intent
    (SignedDelegateAction.mk generous ⟨bytes 64 generous_signature⟩).serialize),
   .call approver FEE 0 (.resume_intent 0 true), .advance 1, .run_callback 0 0]

/-- The fee is on the books, and has been spent on the intent's deposit. -/
theorem fee_pot_solvent_fails : ¬ ∀ d s, Reachable d s → s.Solvent := by
  intro h
  obtain ⟨s, hrun, havail, hbal⟩ :
      ∃ s, Run (step generous_deployment) anyAction (.init owner approver 0 100) s ∧
        s.gate.available = FEE ∧ s.balance = 0 :=
    exists_run_of_exec drained _ (by decide +kernel)
  have hs : s.gate.available ≤ s.balance := h _ s ⟨_, _, _, _, hrun⟩
  rw [havail, hbal] at hs
  exact absurd hs (by decide)

end Demo

/-! ## Withdrawals and their outcomes -/

/-- The amount of a transfer in flight. -/
def Receipt.amount : Receipt → Nat
  | .transfer _ amount => amount
  | _ => 0

/-- The amount of a transfer with this outcome. -/
def Entry.transferred (success : Bool) (en : Entry) : Nat :=
  match en.event with
  | .transferred _ amount ok => if ok = success then amount else 0
  | _ => 0

namespace Ledger

variable {d : Deployment} {s s' s₀ : Ledger} {a : Action}

/-- The amounts of the transfers in flight. -/
def in_flight (s : Ledger) : Nat := (s.receipts.map (·.receipt.amount)).sum

/-- The amounts of the transfers that succeeded, or that failed. -/
def transferred (s : Ledger) (success : Bool) : Nat := (s.log.map (Entry.transferred success)).sum

/-- Every withdrawal is in flight, or has succeeded, or has failed. -/
def Settles (s : Ledger) : Prop :=
  s.gate.fees_withdrawn_total = s.transferred true + s.transferred false + s.in_flight

theorem in_flight_split {pre post : List InFlight} {f : InFlight}
    (h : s.receipts = pre ++ f :: post) :
    s.in_flight = (s.without pre post).in_flight + f.receipt.amount := by
  simp only [in_flight, without, h, List.map_append, List.map_cons, List.sum_append, List.sum_cons]
  omega

theorem transferred_of_log {e : Event} (hlog : s'.log = s.log ++ [⟨s.block_height, s.gate, e⟩])
    (success : Bool) : s'.transferred success =
      s.transferred success + (⟨s.block_height, s.gate, e⟩ : Entry).transferred success := by
  rw [transferred, hlog, List.map_append, List.sum_append, transferred]
  simp

/-- What is no outcome of a transfer, and neither asks for one nor takes one out of the
queue, keeps the account. -/
theorem Settles.congr (h : s.Settles) {e : Event}
    (hlog : s'.log = s.log ++ [⟨s.block_height, s.gate, e⟩])
    (he : ∀ success, (⟨s.block_height, s.gate, e⟩ : Entry).transferred success = 0)
    {n : Nat} (hwith : s'.gate.fees_withdrawn_total = s.gate.fees_withdrawn_total + n)
    (hfl : s'.in_flight = s.in_flight + n) : s'.Settles := by
  unfold Settles at h ⊢
  rw [transferred_of_log hlog, transferred_of_log hlog, he, he, hwith, hfl]
  omega

/-- A gate call creates transfers of what it costs. -/
theorem in_flight_created {c : GateCall} {caller : AccountId} {deposit : Nat} {g' : Gate}
    {act : HostAction} (heff : CallEffect d.host (s.env d caller deposit) s.gate c g' act)
    (t : Ledger) (batch : Option Nat) :
    ((t.created batch act).map (·.receipt.amount)).sum = act.cost := by
  have hresume : ∀ y signal, ((t.created batch (.resume y signal)).map (·.receipt.amount)).sum = 0 := by
    intro y signal
    simp only [created]
    split <;> rfl
  cases heff with
  | admin hc frame ha =>
    rcases ha with rfl | ⟨to_id, amount, rfl⟩
    · rfl
    · exact Nat.add_zero amount
  | reset => rfl
  | submit => rfl
  | _ => exact hresume _ _

theorem in_flight_apply {e : Event} {out : Outcome} {deposit : Nat} {batch : Option Nat}
    {spare : Nat} : (s.apply e out deposit batch spare).in_flight =
      s.in_flight + ((s.created batch out.action).map (·.receipt.amount)).sum := by
  rw [in_flight, apply_receipts, List.map_append, List.sum_append, in_flight]

/-- Every move keeps the account of the transfers. -/
theorem Settles.move (h : s.Settles) (hmove : Move d s₀ a s s') : s'.Settles := by
  cases hmove with
  | advance ha => exact h
  | refused hcall => exact h.congr (n := 0) rfl (fun _ => rfl) rfl rfl
  | @called caller deposit spare c out hcall hacc hcaller hspare heff hrun =>
    have hfees := GateCall.run_fees hrun
    refine h.congr (n := c.withdrawal) (apply_log _ _ _ _ _) (fun _ => rfl) ?_ ?_
    · rw [apply_gate]
      exact hfees.withdrawn
    · rw [in_flight_apply, in_flight_created heff, hfees.paid]
  | timed_out ha hw =>
    refine h.congr (n := 0) rfl (fun _ => rfl) rfl ?_
    simp [in_flight, time_out, Receipt.amount]
  | @resumed i burnt y args gas signal batch created pre post out ha htake hret =>
    have hw : s.in_flight = (s.without pre post).in_flight := in_flight_split htake.split
    obtain ⟨_, _, hg⟩ := resumed_gate hret
    refine h.congr (n := 0) (apply_log _ _ _ _ _) ?_ (by rw [apply_gate, hg]; rfl) ?_
    · intro success
      rcases callback_event_cases batch hret with ⟨_, he⟩ | ⟨_, he⟩ <;> rw [he] <;> rfl
    · rcases resumed_action hret with hact | ⟨_, hact⟩ <;> rw [in_flight_apply, hact, hw] <;> rfl
  | aborted ha htake =>
    exact h.congr (n := 0) rfl (fun _ => rfl) rfl (in_flight_split htake.split).symm
  | @ran _ id call and_then batch created pre post ok hf hblock hrecs =>
    refine h.congr (n := 0) rfl (fun _ => rfl) rfl ?_
    rw [in_flight_split hrecs]
    simp [in_flight, ran, without, Receipt.amount]
  | @finished i success id call and_then batch created pre post ha htake =>
    refine h.congr (n := 0) (finish_log _ _ _ _) (fun _ => rfl) ?_ ?_
    · cases and_then <;> rfl
    · rw [in_flight_split htake.split]
      cases and_then <;> simp [in_flight, Ledger.finish, without, Receipt.amount]
  | @continued i next_id next_seq batch created pre post out ha htake heff =>
    have hw : s.in_flight = (s.without pre post).in_flight := in_flight_split htake.split
    have hcreated := in_flight_created heff (s.without pre post) batch
    generalize hg : out.gate = g' at heff
    generalize hact : out.action = act at heff hcreated
    cases heff with
    | admin hc => cases hc
    | chain =>
      refine h.congr (n := 0) (apply_log _ _ _ _ _) (fun _ => rfl) (by rw [apply_gate, hg]; rfl) ?_
      rw [in_flight_apply, hact, hcreated, hw]
      rfl
  | continue_failed ha htake =>
    exact h.congr (n := 0) rfl (fun _ => rfl) rfl (in_flight_split htake.split).symm
  | @settled i success to_id amount batch created pre post ha htake =>
    have hw : s.in_flight = (s.without pre post).in_flight + amount := in_flight_split htake.split
    have hgate : ((s.without pre post).settle d to_id amount success).gate = s.gate ∧
        ((s.without pre post).settle d to_id amount success).in_flight =
          (s.without pre post).in_flight := by
      unfold Ledger.settle
      split <;> exact ⟨rfl, rfl⟩
    have hlog : ((s.without pre post).settle d to_id amount success).log =
        s.log ++ [⟨s.block_height, s.gate, .transferred to_id amount success⟩] := settle_log _ _ _ _
    unfold Settles at h ⊢
    rw [hgate.1, hgate.2, transferred_of_log hlog, transferred_of_log hlog, h, hw]
    -- the amount moves from the queue to one of the two sums
    cases success <;> simp [Entry.transferred] <;> omega

/-- The outcome of a transfer leaves the contract alone, and one that failed brings its
amount back. -/
theorem settle_effect {i : Nat} {success : Bool}
    (hstep : step d s (.settle i success) = some s') : s'.gate = s.gate ∧
      ∃ to_id amount batch created, s.receipts[i]? = some ⟨.transfer to_id amount, batch, created⟩ ∧
        (success = false → s'.balance = s.balance + amount) := by
  simp only [step] at hstep
  split at hstep
  · rename_i to_id amount batch created hget
    simp only [Option.some.injEq] at hstep
    subst hstep
    unfold Ledger.settle
    split
    · rename_i hok
      refine ⟨rfl, to_id, amount, batch, created, hget, fun hfail => ?_⟩
      rw [hfail] at hok
      cases hok.1
    · exact ⟨rfl, to_id, amount, batch, created, hget, fun _ => rfl⟩
  · cases hstep

end Ledger

/-- **Withdrawals by outcome.** The total withdrawn is what has been transferred, what is
on its way and what has failed. A failure returns the amount to the account and leaves
the ledger as it is. -/
theorem withdrawals_by_outcome {d : Deployment} {s : Ledger} (h : Reachable d s) :
    s.gate.fees_withdrawn_total = s.transferred true + s.in_flight + s.transferred false ∧
    ∀ i success s', step d s (.settle i success) = some s' → s'.gate = s.gate ∧
      ∃ to_id amount batch created, s.receipts[i]? = some ⟨.transfer to_id amount, batch, created⟩ ∧
        (success = false → s'.balance = s.balance + amount) := by
  refine ⟨?_, fun i success s' => Ledger.settle_effect⟩
  have hinv : s.Settles := by
    refine h.invariant Ledger.Settles (fun _ _ _ _ => rfl) ?_
    intro s₀ a t t' ht hmove
    exact ht.move hmove
  rw [show s.gate.fees_withdrawn_total = _ from hinv]
  omega

section Demo

open SequentialNear.Demo

/-- The fee of one resume is withdrawn to an account that does not exist. -/
def bounced : List Action :=
  submissions [set11] ++
  [.call approver FEE 0 (.resume_intent 0 true),
   .call owner 0 0 (.withdraw_fees FEE ⟨"nobody.test"⟩), .settle 1 false]

theorem bounced_run : ∃ s, Run (step deployment) anyAction start s ∧
    s.gate.fees_withdrawn_total = FEE ∧ s.transferred true + s.in_flight = 0 :=
  exists_run_of_exec bounced _ (by decide +kernel)

theorem withdrawals_by_outcome_demo : ∃ s, Reachable deployment s ∧ s.transferred false = FEE := by
  obtain ⟨s, hrun, hwith, hzero⟩ := bounced_run
  have hs : Reachable deployment s := ⟨_, _, _, _, hrun⟩
  have hsum := (withdrawals_by_outcome hs).1
  exact ⟨s, hs, by omega⟩

/-- The fee has come back, and stays withdrawn. -/
theorem withdrawals_settle_fails : ¬ ∀ s, Reachable deployment s →
    s.gate.fees_withdrawn_total = s.transferred true + s.in_flight := by
  intro h
  obtain ⟨s, hrun, hwith, hzero⟩ := bounced_run
  have heq := h s ⟨_, _, _, _, hrun⟩
  rw [hwith, hzero] at heq
  exact absurd heq (by decide)

end Demo

end SequentialNear
