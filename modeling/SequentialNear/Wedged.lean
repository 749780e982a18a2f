/-
A chain whose next intent is gone.

`resume_intent` and a timeout can take an intent out of `pending` while it stands in the
tail of a chain (`TailPending.lean`). When it comes to the head, the chain has stopped
for good: `continue_chain` finds the head and not the intent, and reverts the pop.
`resume_batch_chained` refuses every list while there is a tail. So no call but the
owner's `reset_batch_tail` helps, which is what it is for ([`wedged_until_reset`]).
-/
import SequentialNear.TailPending

set_option autoImplicit false

namespace SequentialNear

open Nep366 Runs

namespace Ledger

variable {d : Deployment} {s s' s₀ : Ledger} {a : Action} {id : Nat} {rest : List Nat}

/-! ## Whom the chains name -/

/-- The intent stands in the tail, or a receipt will have it resumed next. -/
def Named (s : Ledger) (n : Nat) : Prop :=
  n ∈ s.gate.batch_chain_tail ∨ ∃ f ∈ s.receipts, f.receipt.next = some n

/-- Who is named was named before, or stands in a list that is just accepted. -/
theorem named_of_move (hlife : s.Lifecycle) (hmove : Move d s₀ a s s') {n : Nat}
    (hn : s'.Named n) : s.Named n ∨ s = s₀ ∧ ∃ c ∈ a.accepted_call d s₀, n ∈ c.2.2.listed := by
  -- a receipt that is added or replaced names a member of the tail, or whom the old one named
  have hadded : ∀ {kept : List InFlight} {f : InFlight} {rest : List Nat},
      s'.receipts = kept ++ [f] → f.receipt.next = rest.head? →
      s'.gate.batch_chain_tail = rest → (∀ g ∈ kept, g ∈ s.receipts) →
      s.Named n ∨ n ∈ rest := by
    intro kept f rest hrecs hnext htail hold
    rcases hn with hn | ⟨g, hg, hgn⟩
    · exact .inr (htail ▸ hn)
    · rw [hrecs, List.mem_append, List.mem_singleton] at hg
      rcases hg with hg | rfl
      · exact .inl (.inr ⟨g, hold g hg, hgn⟩)
      · exact .inr (List.mem_of_head? (hnext ▸ hgn))
  cases relay_of_move hlife hmove with
  | still hst htail =>
    rcases hn with hn | ⟨g, hg, hgn⟩
    · exact .inl (.inl (htail ▸ hn))
    · obtain ⟨f, hf, hfn, -⟩ := hst.next g hg n hgn
      exact .inl (.inr ⟨f, hf, hfn⟩)
  | reset hst hcall htail =>
    rcases hn with hn | ⟨g, hg, hgn⟩
    · rw [htail] at hn
      cases hn
    · obtain ⟨f, hf, hfn, -⟩ := hst.next g hg n hgn
      exact .inl (.inr ⟨f, hf, hfn⟩)
  | start hcall hids htail htail' hactive hnow hrecs =>
    rcases hadded hrecs rfl htail' (fun g hg => hg) with hold | hrest
    · exact .inl hold
    · refine .inr ⟨rfl, _, hcall, ?_⟩
      rw [GateCall.listed, hids]
      exact List.mem_cons_of_mem _ hrest
  | @pass _ _ f pre post st new hsame htail hexec hblock hsplit hrecs hnew hpass =>
    rcases hn with hn | ⟨g, hg, hgn⟩
    · exact .inl (.inl (htail ▸ hn))
    · rw [hrecs, List.mem_append] at hg
      rcases hg with hg | hg
      · exact .inl (.inr ⟨g, mem_of_without hsplit hg, hgn⟩)
      · rw [hpass.next _ (List.mem_map_of_mem hg)] at hgn
        exact .inl (.inr ⟨f, mem_of_split hsplit, hgn⟩)
  | stop hsame htail hsplit hrecs =>
    rcases hn with hn | ⟨g, hg, hgn⟩
    · exact .inl (.inl (htail ▸ hn))
    · exact .inl (.inr ⟨g, mem_of_without hsplit (hrecs ▸ hg), hgn⟩)
  | pop hsame hexec hsplit htail htail' hrecs =>
    rcases hadded hrecs rfl htail' (fun g hg => mem_of_without hsplit hg) with hold | hrest
    · exact .inl hold
    · exact .inl (.inl (htail ▸ List.mem_cons_of_mem _ hrest))
  | forge hforges hsame htail htail' hrecs =>
    rcases hadded hrecs rfl htail' (fun g hg => hg) with hold | hrest
    · exact .inl hold
    · exact .inl (.inl (htail ▸ List.mem_cons_of_mem _ hrest))

/-! ## The head is gone -/

/-- The chain should go on with `id`, which is no longer pending. -/
structure Wedged (id : Nat) (rest : List Nat) (s : Ledger) : Prop where
  tail : s.gate.batch_chain_tail = id :: rest
  gone : s.books.hold id = none
  minted : id < s.books.next

theorem Wedged.not_pending (h : s.Wedged id rest) : id ∉ s.gate.pending := by
  rw [mem_pending_iff, h.gone]
  exact Bool.false_ne_true

/-- A gate call other than a reset leaves the tail of a wedged chain. -/
theorem Wedged.call {c : GateCall} {caller : AccountId} {deposit : Nat} {g' : Gate}
    {act : HostAction}
    (h : s.Wedged id rest) (hc : c ≠ .reset_batch_tail)
    (heff : CallEffect d.host (s.env d caller deposit) s.gate c g' act) :
    g'.batch_chain_tail = id :: rest := by
  have htail := h.tail
  cases heff with
  | admin hc frame => exact frame.batch_chain_tail.trans htail
  | reset => exact absurd rfl hc
  | submit => exact htail
  | resume => exact htail
  | batch happr hempty =>
    rw [htail] at hempty
    cases hempty
  | chain hpriv hfree hhead hp hopen =>
    -- only the head can be popped, and it would have to be pending
    rw [htail, List.cons.injEq] at hhead
    obtain ⟨rfl, -⟩ := hhead
    refine absurd (AList.lookup_isSome.1 ?_) h.not_pending
    rw [hp]
    rfl

theorem Wedged.move (h : s.Wedged id rest) (hlife : s.Lifecycle)
    (hreset : ∀ c ∈ a.accepted_call d s₀, c.2.2 ≠ .reset_batch_tail) (hmove : Move d s₀ a s s') :
    s'.Wedged id rest := by
  obtain ⟨hgone, hminted⟩ := (move_books hlife hmove).hold_gone h.minted h.gone
  refine ⟨?_, hgone, hminted⟩
  cases hmove with
  | advance ha => exact h.tail
  | refused hcall => exact h.tail
  | called hcall hacc hcaller hspare heff =>
    rw [apply_gate]
    exact h.call (hreset _ hacc) heff
  | timed_out ha hw => exact h.tail
  | resumed ha htake hret hfits =>
    obtain ⟨_, _, hg⟩ := resumed_gate hret
    rw [apply_gate, hg]
    exact h.tail
  | aborted ha htake hfail => exact h.tail
  | ran hf hblock hrecs => exact h.tail
  | @finished i success n call and_then batch created pre post ha htake =>
    cases and_then <;> exact h.tail
  | continued ha htake heff =>
    rw [apply_gate]
    exact h.call GateCall.noConfusion heff
  | continue_failed ha htake hfail => exact h.tail
  | settled ha htake =>
    unfold Ledger.settle
    split <;> exact h.tail

end Ledger

/-- Only intents that have been submitted are named. -/
theorem Reachable.named_lt {d : Deployment} {s : Ledger} (h : Reachable d s) {n : Nat}
    (hn : s.Named n) : n < s.gate.next_intent_id := by
  let I : Ledger → Prop := fun u => u.Lifecycle ∧ ∀ n, u.Named n → n < u.gate.next_intent_id
  have hinv : I s := by
    refine h.invariant I (fun _ _ _ _ => ⟨.init _ _ _ _, ?_⟩) ?_
    · rintro n (hn | ⟨f, hf, -⟩)
      · cases hn
      · cases hf
    · rintro s₀ a u u' ⟨hlife, hu⟩ hmove
      have hnext : u.gate.next_intent_id ≤ u'.gate.next_intent_id :=
        (Ledger.move_books hlife hmove).next_le
      refine ⟨hlife.move hmove, fun n hn => Nat.lt_of_lt_of_le ?_ hnext⟩
      rcases Ledger.named_of_move hlife hmove hn with hold |
        ⟨rfl, ⟨caller, deposit, c⟩, hacc, hlist⟩
      · exact hu n hold
      · cases c with
        | resume_batch_chained ids =>
          -- every member of an accepted list is pending
          obtain ⟨y, hy⟩ := Option.isSome_iff_exists.1
            (Ledger.mem_pending_iff.1 ((Action.batch_checked hacc).2 n hlist))
          exact (hlife.books.of_held hy).1
        | _ => cases hlist
  exact hinv.2 n hn

/-- **A wedged chain blocks the gate until the owner resets it.** Once the intent at the
head of the tail is not pending, the tail stays as it is in every run without an accepted
reset; no list is accepted and no chain step is taken in any state of it; and in each of
them the owner's reset is accepted and clears the tail, and nothing else. -/
theorem wedged_until_reset {d : Deployment} {s t : Ledger} {id : Nat} {rest : List Nat}
    (h : Reachable d s) (htail : s.gate.batch_chain_tail = id :: rest) (hgone : id ∉ s.gate.pending)
    (hrun : Run (step d) (fun u a => ¬ a.resets d u) s t) :
    t.gate.batch_chain_tail = id :: rest ∧
    (∀ caller deposit spare ids,
      (t.call d caller deposit spare (.resume_batch_chained ids)).2 = false) ∧
    (∀ caller deposit spare next_id next_seq,
      (t.call d caller deposit spare (.continue_chain next_id next_seq)).2 = false) ∧
    ∀ spare, (t.call d t.gate.owner_id 0 spare .reset_batch_tail).2 = true ∧
      (t.call d t.gate.owner_id 0 spare .reset_batch_tail).1.gate =
        { t.gate with batch_chain_tail := [] } := by
  have hhead : s.Named id := by
    refine .inl ?_
    rw [htail]
    exact List.mem_cons_self
  have hs : s.Wedged id rest := by
    refine ⟨htail, ?_, h.named_lt hhead⟩
    rw [← Option.not_isSome_iff_eq_none]
    exact fun hsome => hgone (Ledger.mem_pending_iff.2 hsome)
  obtain ⟨-, ht⟩ : t.Lifecycle ∧ t.Wedged id rest := by
    let I : Ledger → Prop := fun u => u.Lifecycle ∧ u.Wedged id rest
    refine hrun.invariant (I := I) ⟨h.lifecycle, hs⟩ ?_
    intro u a u' hu hcalm hst
    refine step_preserves I hst hu ?_
    rintro v v' ⟨hlife, hv⟩ hmove
    refine ⟨hlife.move hmove, hv.move hlife ?_ hmove⟩
    rintro ⟨caller, deposit, c⟩ hc rfl
    exact hcalm ⟨caller, deposit, hc⟩
  have hblocked : ∀ caller deposit spare c, c ≠ .reset_batch_tail →
      (∀ g' act, CallEffect d.host (t.env d caller deposit) t.gate c g' act →
        g'.batch_chain_tail ≠ id :: rest) → (t.call d caller deposit spare c).2 = false := by
    intro caller deposit spare c hc hmoves
    rcases t.call_cases (d := d) caller deposit spare c with ⟨msg, hcall⟩ | ⟨out, hok, -⟩
    · rw [hcall]
    · have heff := GateCall.run_effect hok
      exact absurd (ht.call hc heff) (hmoves _ _ heff)
  refine ⟨ht.tail, ?_, ?_, ?_⟩
  · intro caller deposit spare ids
    refine hblocked _ _ _ _ GateCall.noConfusion ?_
    rintro g' act heff -
    cases heff with
    | admin hc => cases hc
    | batch happr hempty =>
      rw [ht.tail] at hempty
      cases hempty
  · intro caller deposit spare next_id next_seq
    refine hblocked _ _ _ _ GateCall.noConfusion ?_
    rintro g' act heff hsame
    cases heff with
    | admin hc => cases hc
    | @chain _ _ rest' p hpriv hfree hhead hp hopen =>
      -- a pop would leave less than the tail
      rw [ht.tail, List.cons.injEq] at hhead
      have hlength := congrArg List.length (hhead.2.trans hsame)
      rw [List.length_cons] at hlength
      omega
  · intro spare
    have hret : Returns (GateCall.reset_batch_tail.run d.host (t.env d t.gate.owner_id 0) t.gate)
        { t.gate with batch_chain_tail := [] } .none := by
      simp only [GateCall.run, assert_no_deposit, Gate.reset_batch_tail, Gate.assert_owner,
        returns_bind, require_eq_ok, returns_pure]
      exact ⟨(), rfl, (), rfl, trivial, trivial⟩
    obtain ⟨logs, hok⟩ := hret
    have hcall := Ledger.call_of_run (c := .reset_batch_tail) spare hok (Nat.zero_le _)
    rw [hcall]
    exact ⟨rfl, Ledger.apply_gate _ _ _ _ _⟩

section Demo

open SequentialNear.Demo

/-- The second member of a batch is rejected by itself; a day later nothing has moved. -/
theorem wedged_until_reset_demo : ∃ s t, Reachable deployment s ∧
    Run (step deployment) (fun u a => ¬ a.resets deployment u) s t ∧
    t.block_height = s.block_height + 80001 ∧ t.receipts = [] ∧
    t.gate.batch_chain_tail = [1] ∧
    ∀ ids, (t.call deployment approver FEE 0 (.resume_batch_chained ids)).2 = false := by
  obtain ⟨r, s, t, hrun, hone, hcalm, htail, hgone, hheight, hreceipts⟩ :
      ∃ r s t, Run (step deployment) anyAction start r ∧ step deployment r (.advance 1) = some s ∧
        Run (step deployment) (fun v a => ¬ a.resets deployment v) s t ∧
        s.gate.batch_chain_tail = [1] ∧ 1 ∉ s.gate.pending ∧
        t.block_height = s.block_height + 80001 ∧ t.receipts = [] :=
    exists_runs_of_exec rejected_alone (.advance 1)
      [.run_callback 0 0, .advance 1, .run_callback 0 0, .execute 0 0 true, .finish 0 true,
        .advance 80000, .run_continue 0] _ (by decide +kernel)
  have hs : Reachable deployment s := ⟨_, _, _, _, hrun.tail trivial hone⟩
  obtain ⟨htail', hrefused, -⟩ := wedged_until_reset hs htail hgone hcalm
  exact ⟨s, t, hs, hcalm, hheight, hreceipts, htail', fun ids => hrefused _ _ _ ids⟩

end Demo

end SequentialNear
