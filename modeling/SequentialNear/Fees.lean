/-
The fee ledger: what it says is what was charged and withdrawn.

The owner may install any ladder whose caps are positive and ascend strictly, and may
do so again between two charges. So the amount of a charge is read off the ladder in
force at that call, which the log keeps with the entry. [`Ledger.FeeBook`] is the
invariant; a move is a gate call that returned or leaves the fee fields alone
(`Move.call_or_frame`), and [`GateCall.run_fees`] says what a call does to them.
-/
import SequentialNear.Accounting
import SequentialNear.Register
import SequentialNear.Ladder

set_option autoImplicit false

namespace SequentialNear

open Nep366 Runs Ladder

/-! ## The ladder -/

/-- What `set_fee_tiers` checks of a ladder. -/
structure ValidTiers (tiers : List (Nat × Nat)) : Prop where
  non_empty : tiers ≠ []
  positive : ∀ tier ∈ tiers, 0 < tier.1
  ascending : Ascending tiers

theorem default_tiers_valid : ValidTiers DEFAULT_FEE_TIERS :=
  ⟨by decide, by decide, by simp [Ascending, DEFAULT_FEE_TIERS]⟩

/-- The loop over the caps passes exactly when every cap is above the one before it. -/
theorem check_caps_ok {prev max : Nat} {tiers : List (Nat × Nat)}
    (h : Gate.check_caps prev tiers = .ok max) :
    (∀ tier ∈ tiers, prev < tier.1 ∧ 0 < tier.1) ∧ Ascending tiers := by
  induction tiers generalizing prev with
  | nil => exact ⟨fun _ h => (by cases h), .nil⟩
  | cons tier tiers ih =>
    simp only [Gate.check_caps, bind_eq_ok, require_eq_ok] at h
    obtain ⟨_, hpos, _, hprev, hrest⟩ := h
    obtain ⟨hall, hasc⟩ := ih hrest
    refine ⟨?_, List.pairwise_cons.2 ⟨fun u hu => (hall u hu).1, hasc⟩⟩
    intro u hu
    rcases List.mem_cons.1 hu with rfl | hu
    · exact ⟨hprev, hpos⟩
    · exact ⟨hprev.trans (hall u hu).1, (hall u hu).2⟩

theorem fee_for_cover {g : Gate} {n : Nat} {tier : Nat × Nat} :
    g.fee_for n = .ok tier ↔ cover g.fee_tiers n = some tier := Gate.fee_for_eq_ok

/-! ## What a call does to the fee ledger -/

/-- What a call withdraws, if it returns. -/
def GateCall.withdrawal : GateCall → Nat
  | .withdraw_fees amount _ => amount
  | _ => 0

/-- The ladder a call installs, if it returns. -/
def GateCall.ladder : GateCall → Option (List (Nat × Nat))
  | .set_fee_tiers tiers => some tiers
  | _ => none

/-- The call `c` may turn the fee fields of `g` into those of `g'`, and ask for `a`. -/
structure FeeEffect (env : Env) (c : GateCall) (g g' : Gate) (a : HostAction) : Prop where
  tiers : g'.fee_tiers = g.fee_tiers ∨ ValidTiers g'.fee_tiers
  withdrawn : g'.fees_withdrawn_total = g.fees_withdrawn_total + c.withdrawal
  available : c.withdrawal ≤ g.fees_collected_total - g.fees_withdrawn_total
  paid : a.cost = c.withdrawal
  grows : g.fees_collected_total ≤ g'.fees_collected_total
  attached : g'.fees_collected_total ≤ g.fees_collected_total + env.attached_deposit
  fits : g.fees_collected_total < 2 ^ 128 → g'.fees_collected_total < 2 ^ 128

/-- A call that sets no ladder, moves no NEAR and charges nothing. -/
theorem FeeEffect.idle {env : Env} {c : GateCall} {g g' : Gate} {a : HostAction}
    (hc : c.withdrawal = 0) (ha : a.cost = 0) (htiers : g'.fee_tiers = g.fee_tiers)
    (hwith : g'.fees_withdrawn_total = g.fees_withdrawn_total)
    (hcoll : g'.fees_collected_total = g.fees_collected_total) : FeeEffect env c g g' a where
  tiers := .inl htiers
  withdrawn := by rw [hwith, hc, Nat.add_zero]
  available := by rw [hc]; exact Nat.zero_le _
  paid := ha.trans hc.symm
  grows := hcoll.ge
  attached := hcoll ▸ Nat.le_add_right _ _
  fits := fun h => hcoll ▸ h

theorem withdraw_fees_returns {env : Env} {g g' : Gate} {a : HostAction} {amount : Nat}
    {to_id : AccountId} :
    Returns (g.withdraw_fees env amount to_id) g' a ↔
      env.predecessor_account_id = g.owner_id ∧
      amount ≤ g.fees_collected_total - g.fees_withdrawn_total ∧
      g.fees_withdrawn_total + amount < 2 ^ 128 ∧
      g' = { g with fees_withdrawn_total := g.fees_withdrawn_total + amount } ∧
      a = .transfer to_id amount := by
  simp only [Gate.withdraw_fees, Gate.assert_owner, returns_bind, require_eq_ok,
    checked_add_eq_ok, returns_pure]
  constructor
  · rintro ⟨_, howner, _, havail, _, ⟨hlt, rfl⟩, rfl, rfl⟩
    exact ⟨howner, havail, hlt, rfl, rfl⟩
  · rintro ⟨howner, havail, hlt, rfl, rfl⟩
    exact ⟨(), howner, (), havail, _, ⟨hlt, rfl⟩, rfl, rfl⟩

theorem set_fee_tiers_returns {env : Env} {g g' : Gate} {a : HostAction} {tiers : List (Nat × Nat)}
    (h : Returns (g.set_fee_tiers env tiers) g' a) :
    ValidTiers tiers ∧ g' = { g with fee_tiers := tiers } ∧ a = .none := by
  simp only [Gate.set_fee_tiers, returns_bind, require_eq_ok, returns_pure] at h
  obtain ⟨_, -, _, hne, max, hcaps, rfl, rfl⟩ := h
  obtain ⟨hall, hasc⟩ := check_caps_ok hcaps
  exact ⟨⟨hne, fun tier htier => (hall tier htier).2, hasc⟩, rfl, rfl⟩

/-- What an administrative call does to the ladder and to the withdrawals. -/
structure AdminEffect (c : GateCall) (g g' : Gate) (a : HostAction) : Prop where
  ladder : g'.fee_tiers = c.ladder.getD g.fee_tiers
  valid : ∀ tiers, c.ladder = some tiers → ValidTiers tiers
  withdrawn : g'.fees_withdrawn_total = g.fees_withdrawn_total + c.withdrawal
  available : c.withdrawal ≤ g.fees_collected_total - g.fees_withdrawn_total
  paid : a.cost = c.withdrawal

/-- An administrative call that has nothing to do with fees. -/
theorem AdminEffect.idle {c : GateCall} {g g' : Gate} (hladder : c.ladder = none)
    (hc : c.withdrawal = 0) (htiers : g'.fee_tiers = g.fee_tiers)
    (hwith : g'.fees_withdrawn_total = g.fees_withdrawn_total) : AdminEffect c g g' .none where
  ladder := by rw [hladder, htiers, Option.getD_none]
  valid := by
    intro tiers htiers
    rw [hladder] at htiers
    cases htiers
  withdrawn := by rw [hwith, hc, Nat.add_zero]
  available := by rw [hc]; exact Nat.zero_le _
  paid := hc.symm

theorem GateCall.run_admin {host : Host} {env : Env} {g g' : Gate} {c : GateCall} {a : HostAction}
    (hc : c.isAdmin = true) (hr : Returns (c.run host env g) g' a) : AdminEffect c g g' a := by
  cases c with
  | add_relayer account_id =>
    simp only [run, Gate.add_relayer, returns_bind, returns_pure] at hr
    obtain ⟨_, _, _, _, rfl, rfl⟩ := hr
    exact .idle rfl rfl rfl rfl
  | remove_relayer account_id =>
    simp only [run, Gate.remove_relayer, returns_bind, returns_pure] at hr
    obtain ⟨_, _, _, _, rfl, rfl⟩ := hr
    exact .idle rfl rfl rfl rfl
  | set_approver account_id =>
    simp only [run, Gate.set_approver, returns_bind, returns_pure] at hr
    obtain ⟨_, _, _, _, rfl, rfl⟩ := hr
    exact .idle rfl rfl rfl rfl
  | set_fee_tiers tiers =>
    obtain ⟨_, -, hr⟩ := returns_bind.1 hr
    obtain ⟨hvalid, rfl, rfl⟩ := set_fee_tiers_returns hr
    refine ⟨rfl, ?_, rfl, Nat.zero_le _, rfl⟩
    intro tiers' hladder
    cases hladder
    exact hvalid
  | withdraw_fees amount to_id =>
    obtain ⟨_, -, hr⟩ := returns_bind.1 hr
    obtain ⟨-, havail, -, rfl, rfl⟩ := withdraw_fees_returns.1 hr
    refine ⟨rfl, ?_, rfl, havail, rfl⟩
    intro tiers htiers
    cases htiers
  | view =>
    obtain ⟨rfl, rfl⟩ := returns_pure.1 hr
    exact .idle rfl rfl rfl rfl
  | _ => cases hc

/-- **A call that returned leaves the ladder alone unless it sets one.** -/
theorem GateCall.run_ladder {host : Host} {env : Env} {g : Gate} {c : GateCall} {out : Outcome}
    (h : c.run host env g = .ok out) : out.gate.fee_tiers = c.ladder.getD g.fee_tiers := by
  have hr := returns_of_eq_ok h
  have heff := GateCall.run_effect h
  generalize out.gate = g' at hr heff
  generalize out.action = act at hr heff
  cases heff with
  | admin hc frame => exact (run_admin hc hr).ladder
  | _ => rfl

/-- **What a call that returned has done to the fee ledger.** -/
theorem GateCall.run_fees {host : Host} {env : Env} {g : Gate} {c : GateCall} {out : Outcome}
    (h : c.run host env g = .ok out) : FeeEffect env c g out.gate out.action := by
  have hr := returns_of_eq_ok h
  have heff := GateCall.run_effect h
  generalize out.gate = g' at hr heff
  generalize out.action = act at hr heff
  cases heff with
  | reset => exact .idle rfl rfl rfl rfl rfl
  | submit => exact .idle rfl rfl rfl rfl rfl
  | chain => exact .idle rfl rfl rfl rfl rfl
  | resume happr htier hdep hfee =>
    exact ⟨.inl rfl, rfl, Nat.zero_le _, rfl, Nat.le_add_right _ _, Nat.add_le_add_left hdep _,
      fun _ => hfee⟩
  | batch happr htail hids htier hdep hfee =>
    exact ⟨.inl rfl, rfl, Nat.zero_le _, rfl, Nat.le_add_right _ _, Nat.add_le_add_left hdep _,
      fun _ => hfee⟩
  | admin hc frame =>
    -- the frame covers the total; the ladder and the withdrawals differ from call to call
    have hadmin := run_admin hc hr
    have hcoll := frame.fees_collected_total
    refine ⟨?_, hadmin.withdrawn, hadmin.available, hadmin.paid, hcoll.ge,
      hcoll ▸ Nat.le_add_right _ _, fun h => hcoll ▸ h⟩
    rw [hadmin.ladder]
    cases hladder : c.ladder with
    | none => exact .inl rfl
    | some tiers => exact .inr (hadmin.valid tiers hladder)

/-! ## The invariant -/

/-- The size of the list a call is charged for, and what was attached to the call. -/
def Event.charge : Event → Option (Nat × Nat)
  | .accepted _ deposit (.resume_intent _ _) => some (1, deposit)
  | .accepted _ deposit (.resume_batch_chained ids) => some (ids.toList.length, deposit)
  | _ => none

/-- What the call of an entry withdrew. -/
def Entry.withdrawal (en : Entry) : Nat :=
  match en.event with
  | .accepted _ _ c => c.withdrawal
  | _ => 0

/-- The entry was charged the smallest tier that covers it, out of what was attached. -/
structure Entry.Charged (en : Entry) (n deposit : Nat) (tier : Nat × Nat) : Prop where
  least : Least en.before.fee_tiers n tier
  unique : ∀ u, Least en.before.fee_tiers n u → u = tier
  fee : en.fee = tier.2
  attached : tier.2 ≤ deposit

namespace Ledger

variable {d : Deployment} {s s' s₀ : Ledger} {a : Action}

/-- The withdrawals of the log. -/
def withdrawals (s : Ledger) : Nat := (s.log.map Entry.withdrawal).sum

/-- The fee invariant. -/
structure FeeBook (s : Ledger) : Prop where
  tiers : ValidTiers s.gate.fee_tiers
  charged : ∀ en ∈ s.log, ∀ n deposit, en.event.charge = some (n, deposit) →
    ∃ tier, en.Charged n deposit tier
  withdrawn : s.gate.fees_withdrawn_total = s.withdrawals
  covered : s.gate.fees_withdrawn_total ≤ s.gate.fees_collected_total
  bound : s.gate.fees_collected_total < 2 ^ 128

/-- A charge that was collected was the right one. -/
theorem charged_of_effect (h : ValidTiers s.gate.fee_tiers) {c : GateCall} {caller : AccountId}
    {attached : Nat} {g' : Gate} {act : HostAction}
    (heff : CallEffect d.host (s.env d caller attached) s.gate c g' act) {n deposit : Nat}
    (hcharge : (Event.accepted caller attached c).charge = some (n, deposit)) :
    ∃ tier, (⟨s.block_height, s.gate, .accepted caller attached c⟩ : Entry).Charged n deposit
      tier := by
  -- the two charging calls differ in the size they are charged for
  have hcharged : ∀ tier, s.gate.fee_for n = .ok tier → tier.2 ≤ deposit →
      (⟨s.block_height, s.gate, .accepted caller attached c⟩ : Entry).fee = s.gate.fee n →
      (⟨s.block_height, s.gate, .accepted caller attached c⟩ : Entry).Charged n deposit tier := by
    intro tier htier hdep hfee
    have hleast := cover_least h.ascending (fee_for_cover.1 htier)
    refine ⟨hleast, fun u hu => hleast.unique h.ascending hu, ?_, hdep⟩
    rw [hfee, Gate.fee, htier]
  cases heff with
  | admin hc frame =>
    cases c with
    | resume_intent | resume_batch_chained => cases hc
    | _ => cases hcharge
  | resume happr htier hdep =>
    cases hcharge
    exact ⟨_, hcharged _ htier hdep rfl⟩
  | batch happr htail hids htier hdep =>
    cases hcharge
    exact ⟨_, hcharged _ htier hdep rfl⟩
  | _ => cases hcharge

theorem withdrawals_of_log {e : Event} (hlog : s'.log = s.log ++ [⟨s.block_height, s.gate, e⟩]) :
    s'.withdrawals = s.withdrawals + (⟨s.block_height, s.gate, e⟩ : Entry).withdrawal := by
  rw [withdrawals, hlog, List.map_append, List.sum_append, withdrawals]
  simp

/-- What is no gate call keeps the invariant. -/
theorem FeeBook.frame (h : s.FeeBook) (hframe : s.gate.CallFrame s'.gate)
    (hlog : s'.log = s.log ∨
      ∃ e, e.isCall = false ∧ s'.log = s.log ++ [⟨s.block_height, s.gate, e⟩]) : s'.FeeBook where
  tiers := hframe.fee_tiers ▸ h.tiers
  charged := by
    intro en hen n deposit hcharge
    rcases hlog with hlog | ⟨e, he, hlog⟩
    · exact h.charged en (hlog ▸ hen) n deposit hcharge
    · rw [hlog, List.mem_append, List.mem_singleton] at hen
      rcases hen with hen | rfl
      · exact h.charged en hen n deposit hcharge
      · cases e with
        | accepted => cases he
        | _ => cases hcharge
  withdrawn := by
    rw [hframe.fees_withdrawn_total, h.withdrawn]
    rcases hlog with hlog | ⟨e, he, hlog⟩
    · rw [withdrawals, withdrawals, hlog]
    · rw [withdrawals_of_log hlog]
      cases e with
      | accepted => cases he
      | _ => rfl
  covered := by
    rw [hframe.fees_withdrawn_total, hframe.fees_collected_total]
    exact h.covered
  bound := hframe.fees_collected_total ▸ h.bound

/-- Every move keeps the invariant. -/
theorem FeeBook.move (h : s.FeeBook) (hmove : Move d s₀ a s s') : s'.FeeBook := by
  rcases hmove.call_or_frame with ⟨caller, deposit, c, out, hrun, hgate, hlog⟩ | ⟨hframe, hlog⟩
  · have hfees := GateCall.run_fees hrun
    rw [← hgate] at hfees
    refine ⟨?_, ?_, ?_, ?_, hfees.fits h.bound⟩
    · rcases hfees.tiers with htiers | hvalid
      · exact htiers ▸ h.tiers
      · exact hvalid
    · intro en hen n dep hcharge
      rw [hlog, List.mem_append, List.mem_singleton] at hen
      rcases hen with hen | rfl
      · exact h.charged en hen n dep hcharge
      · exact charged_of_effect h.tiers (GateCall.run_effect hrun) hcharge
    · rw [hfees.withdrawn, withdrawals_of_log hlog, h.withdrawn]
      rfl
    · have hcov := h.covered
      have havail := hfees.available
      have hgrows := hfees.grows
      rw [hfees.withdrawn]
      omega
  · exact h.frame hframe hlog

/-- No move takes either total back. -/
theorem fees_grow (hmove : Move d s₀ a s s') :
    s.gate.fees_collected_total ≤ s'.gate.fees_collected_total ∧
      s.gate.fees_withdrawn_total ≤ s'.gate.fees_withdrawn_total := by
  rcases hmove.call_or_frame with ⟨caller, deposit, c, out, hrun, hgate, -⟩ | ⟨hframe, -⟩
  · have hfees := GateCall.run_fees hrun
    rw [hgate, hfees.withdrawn]
    exact ⟨hfees.grows, Nat.le_add_right _ _⟩
  · exact ⟨hframe.fees_collected_total.ge, hframe.fees_withdrawn_total.ge⟩

end Ledger

theorem Reachable.fee_book {d : Deployment} {s : Ledger} (h : Reachable d s) : s.FeeBook := by
  refine h.invariant Ledger.FeeBook
    (fun _ _ _ _ => ⟨default_tiers_valid, ?_, rfl, le_rfl, Nat.two_pow_pos 128⟩) ?_
  · intro en hen
    cases hen
  · intro s₀ a t t' ht hmove
    exact ht.move hmove

/-- Over a run, neither total goes back. -/
theorem fees_monotone {d : Deployment} {s s' : Ledger} (hrun : Run (step d) anyAction s s') :
    s.gate.fees_collected_total ≤ s'.gate.fees_collected_total ∧
      s.gate.fees_withdrawn_total ≤ s'.gate.fees_withdrawn_total := by
  let I : Ledger → Prop := fun t => s.gate.fees_collected_total ≤ t.gate.fees_collected_total ∧
    s.gate.fees_withdrawn_total ≤ t.gate.fees_withdrawn_total
  refine hrun.invariant (I := I) ⟨le_rfl, le_rfl⟩ ?_
  intro t a t' ht _ hst
  refine step_preserves I hst ht fun u u' hu hmove => ?_
  have hgrow := Ledger.fees_grow hmove
  exact ⟨hu.1.trans hgrow.1, hu.2.trans hgrow.2⟩

/-- A withdrawal is refused for its caller, its deposit or its amount, never for an
overflow. -/
theorem Ledger.FeeBook.no_overflow {s : Ledger} (h : s.FeeBook) {host : Host} {env : Env}
    {amount : Nat} {to_id : AccountId} :
    (GateCall.withdraw_fees amount to_id).run host env s.gate ≠
      .error "fees_withdrawn_total overflow" := by
  intro herr
  rcases bind_eq_error.1 herr with herr | ⟨_, -, herr⟩
  · exact absurd (require_eq_error.1 herr).2 (by decide)
  unfold Gate.withdraw_fees at herr
  rcases bind_eq_error.1 herr with herr | ⟨_, -, herr⟩
  · exact absurd (require_eq_error.1 herr).2 (by decide)
  rcases bind_eq_error.1 herr with herr | ⟨_, havail, herr⟩
  · have hhead := congrArg (fun s => s.toList.head?) (require_eq_error.1 herr).2
    simp [String.toList_append] at hhead
  -- past the check on the amount, the new total is at most what was collected
  have havail := require_eq_ok.1 havail
  have hcov := h.covered
  have hbound := h.bound
  rcases bind_eq_error.1 herr with herr | ⟨_, -, herr⟩
  · unfold checked_add at herr
    split at herr
    · cases herr
    · omega
  · cases herr

/-- **The fee ledger is exact.** -/
theorem fee_ledger_exact {d : Deployment} {s : Ledger} (h : Reachable d s) :
    s.gate.fees_collected_total = (s.log.map Entry.fee).sum ∧
    (∀ en ∈ s.log,
      (∀ n deposit, en.event.charge = some (n, deposit) → ∃ tier, en.Charged n deposit tier) ∧
      (en.event.charge = none → en.fee = 0)) ∧
    s.gate.fees_withdrawn_total = (s.log.map Entry.withdrawal).sum ∧
    (∀ s', Run (step d) anyAction s s' →
      s.gate.fees_collected_total ≤ s'.gate.fees_collected_total ∧
      s.gate.fees_withdrawn_total ≤ s'.gate.fees_withdrawn_total) ∧
    s.gate.fees_withdrawn_total ≤ s.gate.fees_collected_total ∧
    ∀ caller deposit amount to_id,
      (GateCall.withdraw_fees amount to_id).run d.host (s.env d caller deposit) s.gate ≠
        .error "fees_withdrawn_total overflow" := by
  have hbook := h.fee_book
  refine ⟨h.fees, fun en hen => ⟨hbook.charged en hen, ?_⟩, hbook.withdrawn,
    fun s' => fees_monotone, hbook.covered, fun _ _ _ _ => hbook.no_overflow⟩
  intro hfree
  unfold Entry.fee
  split
  · rename_i he
    rw [he] at hfree
    cases hfree
  · rename_i he
    rw [he] at hfree
    cases hfree
  · rfl

section Demo

open SequentialNear.Demo

/-- The second and the third intent. -/
def last_two : Vec Nat := ⟨[1, 2], by decide⟩

/-- A resume, a new ladder, a batch of two at its price, and a withdrawal. -/
def repriced : List Action :=
  submissions [set11, set22, set33] ++
  [.call approver FEE 0 (.resume_intent 0 true),
   .call owner 0 0 (.set_fee_tiers [(1, 5), (4, 7)]),
   .call approver 7 0 (.resume_batch_chained last_two),
   .call owner 0 0 (.withdraw_fees 10 owner)]

theorem fee_ledger_exact_demo : ∃ s, Reachable deployment s ∧
    (s.log.map Entry.fee).sum = FEE + 7 ∧ (s.log.map Entry.withdrawal).sum = 10 := by
  obtain ⟨s, hrun, hcoll, hwith⟩ : ∃ s, Run (step deployment) anyAction start s ∧
      s.gate.fees_collected_total = FEE + 7 ∧ s.gate.fees_withdrawn_total = 10 :=
    exists_run_of_exec repriced _ (by decide +kernel)
  have hs : Reachable deployment s := ⟨_, _, _, _, hrun⟩
  obtain ⟨hfees, -, hsum, -⟩ := fee_ledger_exact hs
  exact ⟨s, hs, hfees ▸ hcoll, hsum ▸ hwith⟩

end Demo

end SequentialNear
