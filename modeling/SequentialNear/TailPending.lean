/-
The tail of a chain against the pending intents.

`batch_chain_tail` names intents and `pending` holds them, and two operations take
an intent out of `pending` without a look at the tail: `resume_intent`, and the
callback of a yield that timed out. The chain then stops with a panic when it
comes to that intent, and the owner has to reset it. Nothing else drives the two
apart, as long as the lists that are accepted do not repeat an intent.

[`Ledger.pending_of_move`] and [`Ledger.tail_of_move`] say once how a move can
change the one and the other.
-/
import SequentialNear.Continuation

set_option autoImplicit false

namespace SequentialNear

open Nep366 Runs

/-! ## How the two change -/

/-- The event takes the intent out of `pending` by itself: an accepted
`resume_intent`, or the callback of its timed-out yield. -/
def Event.takes_alone (id : Nat) : Event → Bool
  | .accepted _ _ (.resume_intent n _) => n = id
  | .rejected n timeout => timeout && n = id
  | _ => false

/-- What else resumes an intent: the head of a list, or a step of the chain. -/
theorem Event.resume_cases {e : Event} {id : Nat} (h : e.resume = some id) :
    e.takes_alone id = true ∨
    (∃ caller deposit ids, e = .accepted caller deposit (.resume_batch_chained ids) ∧
      ids.toList.head? = some id) ∨
    (∃ caller deposit seq, e = .accepted caller deposit (.continue_chain id seq)) ∨
    ∃ seq batch, e = .continued id seq batch := by
  cases e with
  | accepted caller deposit c =>
    cases c with
    | resume_intent n approve =>
      cases h
      exact .inl (decide_eq_true rfl)
    | resume_batch_chained ids => exact .inr (.inl ⟨caller, deposit, ids, rfl, h⟩)
    | continue_chain n seq =>
      cases h
      exact .inr (.inr (.inl ⟨caller, deposit, seq, rfl⟩))
    | _ => cases h
  | continued n seq batch =>
    cases h
    exact .inr (.inr (.inr ⟨seq, batch, rfl⟩))
  | _ => cases h

/-- The members of a list a call asks to resume. -/
def GateCall.listed : GateCall → List Nat
  | .resume_batch_chained ids => ids.toList
  | _ => []

namespace Ledger

variable {d : Deployment} {s s' s₀ : Ledger} {a : Action}

/-- A pending intent stays pending, unless the move resumes it or logs the timeout
of its yield. -/
theorem pending_of_move (h : s.Lifecycle) (hmove : Move d s₀ a s s') {id : Nat}
    (hid : id ∈ s.gate.pending) : id ∈ s'.gate.pending ∨
      ∃ e, s'.log = s.log ++ [⟨s.block_height, s.gate, e⟩] ∧
        (e.resume = some id ∨ e = .rejected id true) := by
  -- an intent leaves `pending` only when it is the one erased
  have herase : ∀ n, id ∈ s.gate.pending.erase n ∨ n = id := by
    intro n
    by_cases hn : id = n
    · exact .inr hn.symm
    · exact .inl (AList.mem_erase.2 ⟨hn, hid⟩)
  cases hmove with
  | advance ha => exact .inl hid
  | refused hcall => exact .inl hid
  | @called caller deposit spare c out hcall hacc hcaller hspare heff =>
    have hlog := apply_log (s := s) (.accepted caller deposit c) out deposit (batch_of c out.gate) spare
    rw [apply_gate]
    generalize out.gate = g' at heff hlog
    generalize out.action = act at heff
    cases heff with
    | admin hc frame => exact .inl (frame.pending.symm ▸ hid)
    | reset howner => exact .inl hid
    | submit hrel hdec hver hexp hnonce hfc hlt hsub => exact .inl ((AList.mem_insert _).2 (.inr hid))
    | @resume n approve tier p happr htier hdep hfee hp hopen =>
      refine (herase n).imp_right ?_
      rintro rfl
      exact ⟨_, hlog, .inl rfl⟩
    | @batch ids first rest tier p happr htail hids htier hdep hfee hknown hlt hp hopen =>
      refine (herase first).imp_right ?_
      rintro rfl
      exact ⟨_, hlog, .inl (by rw [Event.resume, hids]; rfl)⟩
    | @chain n seq rest p hpriv hfree htail hp hopen =>
      refine (herase n).imp_right ?_
      rintro rfl
      exact ⟨_, hlog, .inl rfl⟩
  | timed_out ha hw => exact .inl hid
  | @resumed i burnt y args gas signal batch created pre post out ha htake hret hfits =>
    have hlog := apply_log (s := s.without pre post) (callback_event args batch signal out.action)
      out 0 batch 0
    have hgate : out.gate.pending = s.gate.pending.erase args.intent_id := by
      obtain ⟨_, _, hg⟩ := resumed_gate hret
      rw [hg]
    rw [apply_gate, hgate]
    refine (herase args.intent_id).imp_right ?_
    rintro rfl
    cases signal with
    | error e => exact ⟨_, hlog, .inr (callback_event_timeout hret)⟩
    | ok v =>
      -- an intent that was resumed is not pending any more
      exfalso
      have hrel : args.intent_id ∈ s.books.released :=
        List.mem_filterMap.2 ⟨_, mem_of_split htake.split, rfl⟩
      have hnone := (h.books.of_released hrel).1
      obtain ⟨p, hp⟩ := Option.isSome_iff_exists.1 (AList.lookup_isSome.2 hid)
      simp only [Ledger.books, hp, Option.map_some] at hnone
      cases hnone
  | aborted ha htake hfail => exact .inl hid
  | ran hf hblock hrecs => exact .inl hid
  | @finished i success n call and_then batch created pre post ha htake =>
    cases and_then <;> exact .inl hid
  | @continued i n seq batch created pre post out ha htake heff =>
    have hlog := apply_log (s := s.without pre post) (.continued n seq batch) out 0 batch 0
    rw [apply_gate]
    generalize out.gate = g' at heff hlog
    generalize out.action = act at heff
    cases heff with
    | admin hc => cases hc
    | chain hpriv hfree htail hp hopen =>
      refine (herase n).imp_right ?_
      rintro rfl
      exact ⟨_, hlog, .inl rfl⟩
  | continue_failed ha htake hfail => exact .inl hid
  | settled ha htake =>
    unfold Ledger.settle
    split <;> exact .inl hid

/-- A move leaves the tail, empties it, pops it, or starts a batch. -/
theorem tail_of_move (h : s.Lifecycle) (hmove : Move d s₀ a s s') :
    (s'.gate.active_batch_id = s.gate.active_batch_id ∧
      (s'.gate.batch_chain_tail = s.gate.batch_chain_tail ∨ s'.gate.batch_chain_tail = [] ∨
        ∃ id, s.gate.batch_chain_tail = id :: s'.gate.batch_chain_tail)) ∨
    ∃ caller deposit ids, a.accepted_call d s₀ = some (caller, deposit, .resume_batch_chained ids) ∧
      s = s₀ ∧ s'.gate.batch_chain_tail = ids.toList.tail ∧
      s'.log = s.log ++ [⟨s.block_height, s.gate,
        .accepted caller deposit (.resume_batch_chained ids)⟩] := by
  cases relay_of_move h hmove with
  | still hst htail => exact .inl ⟨hst.active, .inl htail⟩
  | reset hst hcall htail => exact .inl ⟨hst.active, .inr (.inl htail)⟩
  | @start _ caller deposit first ids rest y args gas hcall hids htail htail' hactive hnow hrecs hid hlog =>
    refine .inr ⟨caller, deposit, ids, hcall, rfl, ?_, hlog⟩
    rw [htail', hids]
    rfl
  | pass new hsame htail => exact .inl ⟨hsame.active, .inl htail⟩
  | stop hsame htail => exact .inl ⟨hsame.active, .inl htail⟩
  | pop hsame hexec hsplit htail htail' | forge hforges hsame htail htail' =>
    rw [htail, htail']
    exact .inl ⟨hsame.active, .inr (.inr ⟨_, rfl⟩)⟩

/-- A move that resumes an intent of the tail pops it, unless an accepted
`resume_intent` does it alone. -/
theorem popped_of_resume (hmove : Move d s₀ a s s') {e : Event} {id : Nat}
    (hlog : s'.log = s.log ++ [⟨s.block_height, s.gate, e⟩]) (he : e.resume = some id)
    (hid : id ∈ s.gate.batch_chain_tail) : e.takes_alone id = true ∨
      s.gate.batch_chain_tail = id :: s'.gate.batch_chain_tail := by
  rcases Event.resume_cases he with halone | ⟨caller, deposit, ids, rfl, -⟩ |
    ⟨caller, deposit, seq, rfl⟩ | ⟨seq, batch, rfl⟩
  · exact .inl halone
  · -- a list is only accepted when there is no tail
    exfalso
    obtain ⟨rfl, -, hacc, -⟩ := hmove.cause hlog
    rw [(Action.batch_checked hacc).1] at hid
    cases hid
  · obtain ⟨rfl, -, -, -, act, heff⟩ := hmove.cause hlog
    right
    generalize s'.gate = g' at heff
    cases heff with
    | admin hc => cases hc
    | chain hpriv hfree htail => exact htail
  · obtain ⟨f, -, -, -, htail⟩ := hmove.cause hlog
    exact .inr htail

/-! ## The invariant -/

/-- The tail repeats nobody, and names pending intents and those that were taken
alone since its batch was accepted. -/
structure TailHeld (s : Ledger) : Prop where
  nodup : s.gate.batch_chain_tail.Nodup
  held : ∀ id ∈ s.gate.batch_chain_tail, id ∈ s.gate.pending ∨
    ∃ en ∈ s.log, en.before.active_batch_id = s.gate.active_batch_id ∧
      en.event.takes_alone id = true

namespace TailHeld

/-- A member that stays in the tail stays held. -/
theorem held_move (h : s.TailHeld) (hlife : s.Lifecycle) (hmove : Move d s₀ a s s')
    (hactive : s'.gate.active_batch_id = s.gate.active_batch_id) {id : Nat}
    (hid : id ∈ s.gate.batch_chain_tail)
    (hstays : s.gate.batch_chain_tail ≠ id :: s'.gate.batch_chain_tail) :
    id ∈ s'.gate.pending ∨ ∃ en ∈ s'.log,
      en.before.active_batch_id = s'.gate.active_batch_id ∧ en.event.takes_alone id = true := by
  rw [hactive]
  rcases h.held id hid with hp | ⟨en, hen, hbefore, halone⟩
  · rcases pending_of_move hlife hmove hp with hp' | ⟨e, hlog, he⟩
    · exact .inl hp'
    · have hlast : (⟨s.block_height, s.gate, e⟩ : Entry) ∈ s'.log := by
        rw [hlog]
        exact List.mem_append_right _ (List.mem_singleton.2 rfl)
      have halone : e.takes_alone id = true := by
        rcases he with he | rfl
        · exact (popped_of_resume hmove hlog he hid).resolve_right hstays
        · simp [Event.takes_alone]
      exact .inr ⟨_, hlast, rfl, halone⟩
  · exact .inr ⟨en, hmove.log_extends.subset hen, hbefore, halone⟩

theorem move (h : s.TailHeld) (hlife : s.Lifecycle)
    (hlisted : ∀ c ∈ a.accepted_call d s₀, c.2.2.listed.Nodup) (hmove : Move d s₀ a s s') :
    s'.TailHeld := by
  rcases tail_of_move hlife hmove with ⟨hactive, htail⟩ | ⟨caller, deposit, ids, hacc, rfl, htail, hlog⟩
  -- the batch goes on: its tail as it was, emptied, or without its head
  · rcases htail with htail | htail | ⟨n, htail⟩
    · refine ⟨htail ▸ h.nodup, fun id hid => ?_⟩
      refine h.held_move hlife hmove hactive (htail ▸ hid) ?_
      rw [htail]
      exact List.ne_cons_self
    · constructor
      · rw [htail]
        exact List.nodup_nil
      · intro id hid
        rw [htail] at hid
        cases hid
    · have hnodup := h.nodup
      rw [htail, List.nodup_cons] at hnodup
      refine ⟨hnodup.2, fun id hid => ?_⟩
      refine h.held_move hlife hmove hactive (htail ▸ List.mem_cons_of_mem n hid) ?_
      -- whoever is still in the tail was not its head
      intro heq
      rw [htail, List.cons.injEq] at heq
      exact hnodup.1 (heq.1 ▸ hid)
  -- a new batch: every member was checked to be pending, and only the first is resumed
  · have hnodup : ids.toList.Nodup := hlisted _ hacc
    refine ⟨by rw [htail]; exact hnodup.tail, fun id hid => .inl ?_⟩
    rw [htail] at hid
    have hp := (Action.batch_checked hacc).2 id (List.mem_of_mem_tail hid)
    refine (pending_of_move hlife hmove hp).resolve_right ?_
    rintro ⟨e, hlog', he⟩
    obtain rfl := last_event hlog hlog'
    rcases he with he | he
    · -- the one intent that the call resumes is the first of the list
      obtain ⟨rest, hids⟩ := List.head?_eq_some_iff.1 he
      rw [hids] at hnodup hid
      exact (List.nodup_cons.1 hnodup).1 hid
    · cases he

theorem init (owner_id approver_id : AccountId) (balance block_height : Nat) :
    (Ledger.init owner_id approver_id balance block_height).TailHeld where
  nodup := List.nodup_nil
  held id hid := by cases hid

end TailHeld

/-! ## The panic -/

/-- The panic over an unknown intent has a reason in the log. -/
def Explained (before : List Entry) (en : Entry) : Prop :=
  ∀ id seq batch, en.event = .continue_failed id seq "unknown next_id in continue_chain" batch →
    ∃ en' ∈ before, en'.before.active_batch_id = en.before.active_batch_id ∧
      en'.event.takes_alone id = true

theorem TailHeld.explained (h : s.TailHeld) (halong : Along Explained s.log)
    (hmove : Move d s₀ a s s') : Along Explained s'.log := by
  refine hmove.along halong ?_
  rintro _ - hcause id seq batch rfl
  obtain ⟨-, f, -, -, -, hfail⟩ := hcause
  obtain ⟨hhead, hnot⟩ := GateCall.continue_chain_unknown hfail
  exact (h.held id (List.mem_of_head? hhead)).resolve_left hnot

end Ledger

/-- The lists that are accepted repeat nobody. -/
def distinct_lists (d : Deployment) (s : Ledger) (a : Action) : Prop :=
  ∀ c ∈ a.accepted_call d s, c.2.2.listed.Nodup

instance (d : Deployment) (s : Ledger) (a : Action) : Decidable (distinct_lists d s a) :=
  inferInstanceAs (Decidable (∀ c ∈ a.accepted_call d s, c.2.2.listed.Nodup))

/-- **The tail names pending intents, and those that were taken out alone** since its
batch was accepted: by a `resume_intent`, or by the callback of a timed-out yield.
`continue_chain` panics over an unknown intent only when it comes to such a one. -/
theorem tail_pending_or_taken {d : Deployment} {owner_id approver_id : AccountId}
    {balance block_height : Nat} {s : Ledger}
    (hrun : Run (step d) (distinct_lists d)
      (Ledger.init owner_id approver_id balance block_height) s) :
    (∀ id ∈ s.gate.batch_chain_tail, id ∈ s.gate.pending ∨
      ∃ en ∈ s.log, en.before.active_batch_id = s.gate.active_batch_id ∧
        en.event.takes_alone id = true) ∧
    ∀ pre en post, s.log = pre ++ en :: post → ∀ id seq batch,
      en.event = .continue_failed id seq "unknown next_id in continue_chain" batch →
      ∃ en' ∈ pre, en'.before.active_batch_id = en.before.active_batch_id ∧
        en'.event.takes_alone id = true := by
  let I : Ledger → Prop := fun t => t.Lifecycle ∧ t.TailHeld ∧ Along Ledger.Explained t.log
  have hinv : I s := by
    refine hrun.invariant ⟨.init _ _ _ _, .init _ _ _ _, Along.nil⟩ ?_
    intro t a t' ht hlisted hst
    refine step_preserves I hst ht ?_
    rintro u u' ⟨hlife, hheld, halong⟩ hmove
    exact ⟨hlife.move hmove, hheld.move hlife hlisted hmove, hheld.explained halong hmove⟩
  exact ⟨hinv.2.1.held, hinv.2.2⟩

section Demo

open SequentialNear.Demo

/-- A batch of two, and then its second member rejected by itself. -/
def rejected_alone : List Action :=
  Ledger.first_approval [set11, set22] ++ [.call approver FEE 0 (.resume_intent 1 false)]

theorem rejected_alone_run : ∃ s, Run (step deployment) (distinct_lists deployment) start s ∧
    s.gate.batch_chain_tail = [1] ∧ 1 ∉ s.gate.pending :=
  exists_run_of_exec rejected_alone _ (by decide +kernel)

theorem tail_pending_or_taken_demo :
    ∃ s, Run (step deployment) (distinct_lists deployment) start s ∧
      s.gate.batch_chain_tail = [1] ∧ ∃ en ∈ s.log, en.event.takes_alone 1 = true := by
  obtain ⟨s, hrun, htail, hnot⟩ := rejected_alone_run
  have hmem : 1 ∈ s.gate.batch_chain_tail := by
    rw [htail]
    exact List.mem_singleton.2 rfl
  obtain ⟨en, hen, -, halone⟩ := ((tail_pending_or_taken hrun).1 1 hmem).resolve_left hnot
  exact ⟨s, hrun, htail, en, hen, halone⟩

/-- The tail names intent `1`, which is no longer pending. -/
theorem tail_pending_fails : ¬ ∀ s,
    Run (step deployment) (distinct_lists deployment) start s →
    ∀ id ∈ s.gate.batch_chain_tail, id ∈ s.gate.pending := by
  intro h
  obtain ⟨s, hrun, htail, hnot⟩ := rejected_alone_run
  refine hnot (h s hrun 1 ?_)
  rw [htail]
  exact List.mem_singleton.2 rfl

end Demo

end SequentialNear
