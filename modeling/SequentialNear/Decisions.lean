/-
What is decided about an intent, and what is ordered to be paid, happens once.

An intent is resumed with an approval, resumed with a rejection, or left to its timeout.
The decision is taken in one receipt and carried out in a later one, when other calls may
have come in between, so that an intent could be decided twice or carried out against
what was decided. [`decision_is_final`] says that it cannot. It may not be carried out at
all: the callback of an approval is reverted when the host cannot create the call.
Withdrawals go the same way, from the owner's order to a transfer, which the recipient
gets or which fails and comes back: [`payments_as_ordered`].
-/
import SequentialNear.Custody
import SequentialNear.Authority
import SequentialNear.Fees

set_option autoImplicit false

namespace SequentialNear

open Nep366 Runs Handover Tickets

/-! ## Decisions -/

/-- What ends the wait of an intent. -/
inductive Decision
  | approve
  | reject
  | timeout
deriving DecidableEq

def Decision.of_approve (approve : Bool) : Decision := if approve then .approve else .reject
def Decision.of_timeout (timeout : Bool) : Decision := if timeout then .timeout else .reject

/-- The decision an event takes. -/
def Event.decision : Event → Option (Nat × Decision)
  | .accepted _ _ call => call.decides.map fun p => (p.1, .of_approve p.2)
  | .continued id _ _ => some (id, .approve)
  | .timed_out id => some (id, .timeout)
  | _ => none

/-- The decision an event carries out. -/
def Event.carries_out : Event → Option (Nat × Decision)
  | .dispatched id _ _ _ => some (id, .approve)
  | .rejected id timeout => some (id, .of_timeout timeout)
  | _ => none

/-- The decision that comes to nothing when its callback is reverted: an approval whose
call cannot be created. -/
def Event.reverts : Event → Option (Nat × Decision)
  | .aborted id _ => some (id, .approve)
  | _ => none

/-- The decision that a callback in flight is to carry out. -/
def Receipt.awaits : Receipt → Option (Nat × Decision)
  | .callback _ args _ (.ok v) => some (args.intent_id, .of_approve v.approve)
  | .callback _ args _ (.error _) => some (args.intent_id, .timeout)
  | _ => none

namespace Ledger

variable {s : Ledger}

def decisions (s : Ledger) : List (Nat × Decision) := s.log.filterMap (·.event.decision)
def carried_out (s : Ledger) : List (Nat × Decision) := s.log.filterMap (·.event.carries_out)
def reverted (s : Ledger) : List (Nat × Decision) := s.log.filterMap (·.event.reverts)
def awaited (s : Ledger) : List (Nat × Decision) := s.receipts.filterMap (·.receipt.awaits)

/-- The decisions between the resume and the callback. -/
def deciding : Account Event Receipt (Nat × Decision) where
  ordered := Event.decision
  delivered e := e.carries_out.or e.reverts
  held := Receipt.awaits

theorem carries_out_or_reverts (e : Event) : e.carries_out = none ∨ e.reverts = none := by
  cases e with
  | aborted => exact .inl rfl
  | _ => exact .inr rfl

theorem deciding_passes {events : List Event} {taken new : List Receipt}
    (h : Exchange events taken new) : PassesOn deciding events taken new := by
  cases h with
  | accepted caller deposit hnew =>
    cases hnew <;>
      simp_all [PassesOn, deciding, Event.decision, Event.carries_out, Event.reverts,
        Receipt.awaits]
  | @rejected y args gas v hv | @dispatched y args gas v batch and_then hv
  | @aborted y args gas v batch hv | @continued next_seq batch y args gas v hv =>
    obtain ⟨approve, seq⟩ := v
    cases hv
    exact .refl _
  | finished id call and_then => cases and_then <;> exact .refl _
  | _ => exact .refl _

/-- The decisions whose callback has run. -/
theorem ended_perm (s : Ledger) : (s.carried_out ++ s.reverted).Perm
    (s.log.filterMap fun en => en.event.carries_out.or en.event.reverts) :=
  filterMap_either (fun en : Entry => carries_out_or_reverts en.event) s.log

/-- What a decision is carried out on, or reverted, has met its fate. -/
theorem ended_fst (s : Ledger) :
    ((s.carried_out ++ s.reverted).map Prod.fst).Perm (s.fates.map Prod.fst) := by
  refine (s.ended_perm.map Prod.fst).trans (.of_eq ?_)
  rw [fates, List.map_filterMap, List.map_filterMap]
  refine List.filterMap_congr fun en _ => ?_
  obtain ⟨block, before, event⟩ := en
  cases event <;> rfl

/-- The callbacks in flight are the resumed and the lapsed ones. -/
theorem awaited_fst (s : Ledger) (id : Nat) :
    (s.awaited.map Prod.fst).count id = s.resumed.count id + (s.lapsed.map Prod.snd).count id := by
  rw [awaited, resumed, lapsed]
  induction s.receipts with
  | nil => rfl
  | cons f rest ih =>
    let waiting := (rest.filterMap (·.receipt.awaits)).map Prod.fst
    let resumed := rest.filterMap (·.receipt.resumed)
    let lapsed := (rest.filterMap (·.receipt.lapsed)).map Prod.snd
    change waiting.count id = resumed.count id + lapsed.count id at ih
    obtain ⟨receipt, batch, created⟩ := f
    cases receipt with
    | callback y args gas signal =>
      cases signal with
      | ok v =>
        change (args.intent_id :: waiting).count id =
          (args.intent_id :: resumed).count id + lapsed.count id
        rw [List.count_cons, List.count_cons, ih]
        omega
      | error e =>
        change (args.intent_id :: waiting).count id =
          resumed.count id + (args.intent_id :: lapsed).count id
        rw [List.count_cons, List.count_cons, ih]
        omega
    | _ => exact ih

/-- Only an approval dispatches. -/
theorem carried_out_of_dispatched {id : Nat} (h : id ∈ s.met .dispatched) :
    (id, .approve) ∈ s.carried_out := by
  rw [← dispatched_fst] at h
  obtain ⟨⟨id, call⟩, hmem, rfl⟩ := List.mem_map.1 h
  obtain ⟨⟨block, before, event⟩, hen, hev⟩ := List.mem_filterMap.1 hmem
  refine List.mem_filterMap.2 ⟨_, hen, ?_⟩
  cases event with
  | dispatched =>
    cases hev
    rfl
  | _ => cases hev

end Ledger

theorem Reachable.decisions_balance {d : Deployment} {s : Ledger} (h : Reachable d s) :
    (s.carried_out ++ s.reverted ++ s.awaited).Perm s.decisions := by
  have hbalanced := h.balanced Ledger.deciding fun _ _ _ => Ledger.deciding_passes
  rw [InBalance, Ledger.events, Ledger.queued, List.filterMap_map, List.filterMap_map,
    List.filterMap_map] at hbalanced
  exact (s.ended_perm.append_right _).trans hbalanced

/-- No intent is decided twice. -/
theorem Reachable.decided_once {d : Deployment} {s : Ledger} (h : Reachable d s) :
    (s.decisions.map Prod.fst).Nodup := by
  rw [← (h.decisions_balance.map Prod.fst).nodup_iff, List.map_append, List.nodup_iff_count_le_one]
  intro id
  have honce := h.lifecycle.books.once id
  have hlapsed := h.lifecycle.books.lapsed_count_le id
  have hminted : s.books.minted id ≤ 1 := by
    unfold Books.minted
    split <;> omega
  rw [List.count_append, s.ended_fst.count_eq, Ledger.awaited_fst]
  change s.books.held id + s.resumed.count id + (s.fates.map Prod.fst).count id = _ at honce
  change (s.lapsed.map Prod.snd).count id ≤ _ at hlapsed
  omega

/-- **A decision is final.** Whatever the order of the receipts, no intent is resumed with
an approval, resumed with a rejection or timed out twice or in two ways. What has been
decided has been carried out as decided, or is about to be, or was an approval whose
callback has been reverted, and only one of the three and once. An intent that was resumed
with a rejection or ran out of time is never dispatched, then or later, and its call is
never issued. -/
theorem decision_is_final {d : Deployment} {s : Ledger} (h : Reachable d s) :
    (s.decisions.map Prod.fst).Nodup ∧
    (s.carried_out ++ s.reverted ++ s.awaited).Perm s.decisions ∧
    ∀ id w, (id, w) ∈ s.decisions → ∀ t, Run (step d) anyAction s t →
      (∀ w', (id, w') ∈ t.carried_out ++ t.reverted ++ t.awaited → w' = w) ∧
      (w ≠ .approve → id ∉ t.met .dispatched ∧ ∀ call, (id, call) ∉ t.calls_issued) := by
  refine ⟨h.decided_once, h.decisions_balance, ?_⟩
  intro id w hw t hrun
  have ht : Reachable d t := h.run hrun
  have hlog : s.log <+: t.log :=
    hrun.invariant (I := fun u => s.log <+: u.log) (List.prefix_refl _)
      fun _ _ _ hu _ hst => hu.trans (log_extends hst)
  have hdecided : (id, w) ∈ t.decisions := (hlog.filterMap _).subset hw
  have hsame : ∀ w', (id, w') ∈ t.carried_out ++ t.reverted ++ t.awaited → w' = w := by
    intro w' hw'
    have hmem : (id, w') ∈ t.decisions := ht.decisions_balance.subset hw'
    exact congrArg Prod.snd (List.inj_on_of_nodup_map ht.decided_once hmem hdecided rfl)
  refine ⟨hsame, fun hno => ?_⟩
  have hnot : id ∉ t.met .dispatched := fun hmem => by
    have hcarried := Ledger.carried_out_of_dispatched hmem
    exact hno (hsame _ (List.mem_append_left _ (List.mem_append_left _ hcarried))).symm
  refine ⟨hnot, fun call hcall => hnot ?_⟩
  rw [← Ledger.dispatched_fst]
  exact List.mem_map_of_mem (ht.handed.subset hcall)

section Demo

open SequentialNear.Demo

/-- One intent is approved, one rejected and one runs out of time. -/
def three_ways : List Action := submissions [set11, set22, set33] ++
  [.call approver FEE 0 (.resume_intent 0 true), .call approver FEE 0 (.resume_intent 1 false),
   Action.advance 200, .timeout 2]

/-- The rejected one is not executed when all three callbacks have been. -/
theorem decision_is_final_demo : ∃ s t : Ledger, Reachable deployment s ∧
    s.decisions = [(0, .approve), (1, .reject), (2, .timeout)] ∧
    t.carried_out = [(2, .timeout), (1, .reject), (0, .approve)] ∧ 1 ∉ t.met .dispatched := by
  obtain ⟨s, u, t, hs, hone, hrun, hdecisions, hcarried⟩ : ∃ s u t,
      Run (step deployment) anyAction start s ∧ step deployment s (.run_callback 2 0) = some u ∧
      Run (step deployment) anyAction u t ∧
      s.decisions = [(0, .approve), (1, .reject), (2, .timeout)] ∧
      t.carried_out = [(2, .timeout), (1, .reject), (0, .approve)] :=
    exists_runs_of_exec three_ways (.run_callback 2 0) [.run_callback 1 0, .run_callback 0 0] _
      (by decide +kernel)
  have hreach : Reachable deployment s := ⟨_, _, _, _, hs⟩
  have hmem : (1, Decision.reject) ∈ s.decisions := by
    rw [hdecisions]
    decide
  have hfinal := (decision_is_final hreach).2.2 1 .reject hmem t (hrun.head trivial hone)
  exact ⟨s, t, hreach, hdecisions, hcarried, (hfinal.2 (by decide)).1⟩

end Demo

/-! ## Payments -/

/-- The payment an event orders. -/
def Event.orders : Event → Option (AccountId × Nat)
  | .accepted _ _ call => call.pays
  | _ => none

/-- The payment that an event is. -/
def Event.pays : Event → Option (AccountId × Nat)
  | .transferred to_id amount true => some (to_id, amount)
  | _ => none

/-- The payment that failed, so that the gate got its money back. -/
def Event.refunds : Event → Option (AccountId × Nat)
  | .transferred to_id amount false => some (to_id, amount)
  | _ => none

/-- The payment in flight. -/
def Receipt.pays : Receipt → Option (AccountId × Nat)
  | .transfer to_id amount => some (to_id, amount)
  | _ => none

namespace Ledger

def payments_ordered (s : Ledger) : List (AccountId × Nat) := s.log.filterMap (·.event.orders)
def payments_made (s : Ledger) : List (AccountId × Nat) := s.log.filterMap (·.event.pays)
def payments_refunded (s : Ledger) : List (AccountId × Nat) := s.log.filterMap (·.event.refunds)
def payments_due (s : Ledger) : List (AccountId × Nat) := s.receipts.filterMap (·.receipt.pays)

/-- The payments between the order and the transfer. -/
def paying : Account Event Receipt (AccountId × Nat) where
  ordered := Event.orders
  delivered e := e.pays.or e.refunds
  held := Receipt.pays

theorem pays_or_refunds (e : Event) : e.pays = none ∨ e.refunds = none := by
  cases e with
  | transferred to_id amount success =>
    cases success
    · exact .inl rfl
    · exact .inr rfl
  | _ => exact .inl rfl

theorem paying_passes {events : List Event} {taken new : List Receipt}
    (h : Exchange events taken new) : PassesOn paying events taken new := by
  cases h with
  | accepted caller deposit hnew =>
    cases hnew <;>
      simp_all [PassesOn, paying, Event.orders, Event.pays, Event.refunds, Receipt.pays]
  | settled to_id amount success => cases success <;> exact .refl _
  | finished id call and_then => cases and_then <;> exact .refl _
  | _ => exact .refl _

/-- The amounts of the orders are the withdrawals. -/
theorem payments_ordered_sum (s : Ledger) :
    (s.payments_ordered.map Prod.snd).sum = s.withdrawals := by
  rw [payments_ordered, withdrawals]
  induction s.log with
  | nil => rfl
  | cons en log ih =>
    obtain ⟨block, before, event⟩ := en
    rw [List.map_cons, List.sum_cons, ← ih]
    cases event with
    | accepted caller deposit call => cases call <;> first | rfl | exact (Nat.zero_add _).symm
    | _ => exact (Nat.zero_add _).symm

end Ledger

/-- **Payments are made as ordered.** Every transfer that the recipient has got, that has
failed and come back, or that is under way is one that the owner ordered, to that account
and of that amount, and each order is one of the three and once; together they never come
to more than the fees that were charged. -/
theorem payments_as_ordered {d : Deployment} {owner_id approver_id : AccountId}
    {balance block_height : Nat} {s : Ledger}
    (hrun : Run (step d) anyAction (Ledger.init owner_id approver_id balance block_height) s) :
    (s.payments_made ++ s.payments_refunded ++ s.payments_due).Perm s.payments_ordered ∧
    (∀ en ∈ s.log, ∀ caller deposit call, en.event = .accepted caller deposit call →
      call.pays ≠ none → caller = owner_id) ∧
    ((s.payments_made ++ s.payments_refunded ++ s.payments_due).map Prod.snd).sum ≤
      (s.log.map Entry.fee).sum := by
  have h : Reachable d s := ⟨_, _, _, _, hrun⟩
  have hbalanced := h.balanced Ledger.paying fun _ _ _ => Ledger.paying_passes
  rw [InBalance, Ledger.events, Ledger.queued, List.filterMap_map, List.filterMap_map,
    List.filterMap_map] at hbalanced
  have hsettled : (s.payments_made ++ s.payments_refunded).Perm
      (s.log.filterMap fun en => en.event.pays.or en.event.refunds) :=
    filterMap_either (fun en : Entry => Ledger.pays_or_refunds en.event) s.log
  have hperm : (s.payments_made ++ s.payments_refunded ++ s.payments_due).Perm
      s.payments_ordered := (hsettled.append_right _).trans hbalanced
  refine ⟨hperm, ?_, ?_⟩
  · intro en hen caller deposit call hev hpays
    obtain ⟨pre, post, hlog⟩ := List.append_of_mem hen
    have hpermit :=
      (Ledger.RolesAgree.of_run hrun).entitled pre en post hlog caller deposit call hev
    cases call with
    | withdraw_fees amount to_id => exact hpermit
    | _ => exact absurd rfl hpays
  · have hbook := h.fee_book
    have hsum := (hperm.map Prod.snd).sum_eq
    rw [hsum, Ledger.payments_ordered_sum, ← hbook.withdrawn]
    exact hbook.covered.trans_eq h.fees

section Demo

open SequentialNear.Demo

/-- One payment has been made, one has failed and one is due. -/
theorem payments_as_ordered_demo : ∃ s, Reachable deployment s ∧
    s.payments_ordered = [(alice, 3), (relayer, 4), (alice, 5)] ∧
    s.payments_made = [(relayer, 4)] ∧ s.payments_refunded = [(alice, 3)] ∧
    ([(relayer, 4)] ++ [(alice, 3)] ++ s.payments_due).Perm
      [(alice, 3), (relayer, 4), (alice, 5)] := by
  obtain ⟨s, hrun, hordered, hmade, hrefunded⟩ : ∃ s, Run (step deployment) anyAction start s ∧
      s.payments_ordered = [(alice, 3), (relayer, 4), (alice, 5)] ∧
      s.payments_made = [(relayer, 4)] ∧ s.payments_refunded = [(alice, 3)] :=
    exists_run_of_exec (submissions [set11] ++ [.call approver FEE 0 (.resume_intent 0 true),
      .call owner 0 0 (.withdraw_fees 3 alice), .call owner 0 0 (.withdraw_fees 4 relayer),
      .call owner 0 0 (.withdraw_fees 5 alice), .settle 2 true, .settle 1 false]) _
      (by decide +kernel)
  have hperm := (payments_as_ordered hrun).1
  rw [hordered, hmade, hrefunded] at hperm
  exact ⟨s, ⟨_, _, _, _, hrun⟩, hordered, hmade, hrefunded, hperm⟩

end Demo

end SequentialNear
