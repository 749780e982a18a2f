/-
What the order of a chained batch rests on.

Nothing ties a `continue_chain` to the batch that scheduled it but the id it asks
for, so an owner's reset in the middle of a chain can make it meet a later batch.
And an intent may be addressed to the gate itself: the gate is then its own
caller, which is all that the private check asks for.

Both theorems here are about runs that avoid the one or the other, and say what
`continue_chain` then does; a run that does not is given after each.
-/
import SequentialNear.Sequencing

set_option autoImplicit false

namespace SequentialNear

open Nep366 Runs

/-! ## Continuations after a reset -/

namespace Ledger

variable {d : Deployment} {s s' s₀ : Ledger} {a : Action}

/-- Every `continue_chain` that popped a tail was scheduled by the chain of the
newest batch, whose tail it is. -/
def OwnTail (_ : List Entry) (en : Entry) : Prop :=
  ∀ id seq batch, en.event = .continued id seq batch →
    batch = some en.before.active_batch_id ∧ en.before.batch_chain_tail.head? = some id

theorem Scripted.own_tail (h : s.Scripted) (halong : Along OwnTail s.log)
    (hmove : Move d s₀ a s s') : Along OwnTail s'.log := by
  refine hmove.along halong ?_
  rintro _ - hcause id seq batch rfl
  obtain ⟨f, hf, rfl, hr, htail⟩ := hcause
  refine ⟨h.chained.pop_active hf hr htail, ?_⟩
  rw [htail]
  rfl

end Ledger

/-- No list is accepted while a receipt in flight names one of its later members, and
no intent is addressed to the gate. Resets are admitted. -/
def fresh_lists (d : Deployment) (s : Ledger) (a : Action) : Prop :=
  ¬ a.stale d s ∧ ¬ a.targets_gate d s

instance (d : Deployment) (s : Ledger) (a : Action) : Decidable (fresh_lists d s a) :=
  inferInstanceAs (Decidable (_ ∧ _))

/-- **Continuations stay in their batch, resets included**, in every run whose
accepted lists are not stale: a `continue_chain` pops the tail of the batch that
scheduled it and of no later one, and every batch follows its script. -/
theorem continuation_stays_in_batch {d : Deployment} {owner_id approver_id : AccountId}
    {balance block_height : Nat} {s : Ledger}
    (hrun : Run (step d) (fresh_lists d)
      (Ledger.init owner_id approver_id balance block_height) s) :
    (∀ en ∈ s.log, ∀ id seq batch, en.event = .continued id seq batch →
      batch = some en.before.active_batch_id ∧ en.before.batch_chain_tail.head? = some id) ∧
    ∀ b ids, (b, ids) ∈ s.batches → s.trace b <+: script 0 ids := by
  let I : Ledger → Prop := fun t => t.Scripted ∧ t.Outward d ∧ Along Ledger.OwnTail t.log
  have hinv : I s := by
    refine hrun.invariant ⟨.init _ _ _ _, .init _ _ _ _, Along.nil⟩ ?_
    intro t a t' ht hg hst
    have hforges := ht.2.1.not_forges hst
    refine step_preserves I hst ht ?_
    rintro u u' ⟨hu, hout, halong⟩ hmove
    exact ⟨hu.move hforges hg.1 hmove, hout.move hg.2 hmove, hu.own_tail halong hmove⟩
  refine ⟨?_, fun b ids hb => hinv.1.chained.prefix_script hb⟩
  intro en hen
  obtain ⟨pre, post, hlog⟩ := List.append_of_mem hen
  exact hinv.2.2 pre en post hlog

section Demo

open SequentialNear.Demo

/-- The approver resumes three intents in two batches, with a reset in between. -/
def first_batch : List Action :=
  submissions [set11, set22, set33] ++
  [.call approver FEE 0 (.resume_batch_chained first_two)]

def second_batch : Action := .call approver FEE 0 (.resume_batch_chained ⟨[2, 1], by decide⟩)

/-- The `continue_chain` of the first batch arrives before the second one starts. -/
def reset_between : List Action :=
  first_batch ++ deliver ++
  [.call owner 0 0 .reset_batch_tail, .advance 1, .run_continue 0, second_batch] ++
  deliver ++ [.advance 1, .run_continue 0] ++ deliver

theorem continuation_stays_in_batch_demo :
    ∃ s, Run (step deployment) (fresh_lists deployment) start s ∧
      s.trace 2 = script 0 [2, 1] ∧ s.trace 2 <+: script 0 [2, 1] ∧
      ∀ en ∈ s.log, ∀ id seq batch, en.event = .continued id seq batch →
        batch = some en.before.active_batch_id := by
  have hrun : ∃ s, Run (step deployment) (fresh_lists deployment) start s ∧
      (2, [2, 1]) ∈ s.batches ∧ s.trace 2 = script 0 [2, 1] :=
    exists_run_of_exec reset_between _ (by decide +kernel)
  obtain ⟨s, hrun, hb, htrace⟩ := hrun
  obtain ⟨hown, hpre⟩ := continuation_stays_in_batch hrun
  exact ⟨s, hrun, htrace, hpre 2 _ hb, fun en hen id seq batch he => (hown en hen id seq batch he).1⟩

/-- The same two batches, and the `continue_chain` of the first one arrives when the
tail is the second one's: it asks for intent `1`, and that is the head. -/
def reset_mid_chain : List Action :=
  first_batch ++ [.call owner 0 0 .reset_batch_tail, second_batch, .advance 1, .run_callback 0 0,
    .advance 1, .execute 1 0 true, .finish 1 true, .advance 1, .run_continue 1]

/-- Intent `1` of the second batch is resumed by the first one's chain. -/
theorem continuation_stays_in_batch_fails : ¬ ∀ s,
    Run (step deployment) (fun s a => ¬ a.targets_gate deployment s) start s →
    ∀ en ∈ s.log, ∀ id seq batch, en.event = .continued id seq batch →
      batch = some en.before.active_batch_id := by
  intro h
  have hrun : ∃ s, Run (step deployment) (fun s a => ¬ a.targets_gate deployment s) start s ∧
      ∃ en ∈ s.log, en.event = .continued 1 1 (some 1) ∧ en.before.active_batch_id = 2 :=
    exists_run_of_exec reset_mid_chain _ (by decide +kernel)
  obtain ⟨s, hrun, en, hen, he, hactive⟩ := hrun
  have hbatch := h s hrun en hen 1 1 (some 1) he
  rw [hactive] at hbatch
  cases hbatch

end Demo

/-! ## The private chain step -/

/-- In a trace that follows a script, a member that is resumed last is the first one,
or the member before it has just been dispatched, executed and finished. -/
theorem script_resumed {l : List ChainStep} {i id seq : Nat} {ids : List Nat}
    (h : l ++ [.resumed id seq] <+: script i ids) :
    (l = [] ∧ ids.head? = some id ∧ seq = i) ∨
    ∃ j x, ids[j]? = some x ∧ ids[j + 1]? = some id ∧ seq = i + j + 1 ∧
      [.dispatched x (some (i + j)), .executed x, .finished x] <:+ l := by
  induction ids generalizing i l with
  | nil => simp [script] at h
  | cons x xs ih =>
    rw [script] at h
    -- a script resumes only at every fourth step
    match l, h with
    | [], h =>
      rw [List.nil_append, List.cons_prefix_cons] at h
      cases h.1
      exact .inl ⟨rfl, rfl, rfl⟩
    | [_], h => simp at h
    | [_, _], h => simp at h
    | [_, _, _], h => simp at h
    | r :: e :: f :: g :: l, h =>
      simp only [List.cons_append, List.cons_prefix_cons] at h
      obtain ⟨rfl, rfl, rfl, rfl, h⟩ := h
      right
      rcases ih h with ⟨rfl, hid, rfl⟩ | ⟨j, x', hx', hid, rfl, hsuf⟩
      · refine ⟨0, x, rfl, ?_, rfl, List.suffix_cons _ _⟩
        rw [List.getElem?_cons_succ, ← List.head?_eq_getElem?, hid]
      · refine ⟨j + 1, x', hx', hid, by omega, ?_⟩
        rw [show i + (j + 1) = i + 1 + j by omega]
        exact hsuf.trans (List.suffix_append [_, _, _, _] l)

namespace Ledger

variable {d : Deployment} {s s' s₀ : Ledger} {a : Action}

/-- An accepted list has resumed its first member. -/
theorem trace_ne_nil {b : Nat} {ids : List Nat} (hb : (b, ids) ∈ s.batches) (hids : ids ≠ []) :
    s.trace b ≠ [] := by
  obtain ⟨en, hen, hbatch⟩ := List.mem_filterMap.1 hb
  obtain ⟨first, rest, hcons⟩ := List.exists_cons_of_ne_nil hids
  have hstep : en.chain_step b = some (.resumed first 0) := by
    unfold Entry.batch at hbatch
    split at hbatch
    · rename_i he
      cases hbatch
      simp [Entry.chain_step, he, hcons]
    · cases hbatch
  rw [trace_eq]
  exact List.ne_nil_of_mem (List.mem_filterMap.2 ⟨en, hen, hstep⟩)

end Ledger

/-- An approval that interferes with a chain: of a member of the tail, which is open, or of
a list when there is no tail. -/
def GateCall.drives (s : Ledger) : GateCall → Prop
  | .resume_batch_chained _ => s.gate.batch_chain_tail = []
  | .resume_intent id _ => id ∈ s.gate.batch_chain_tail ∧ s.Open id
  | _ => False

instance (s : Ledger) : (c : GateCall) → Decidable (c.drives s)
  | .resume_batch_chained _ => inferInstanceAs (Decidable (s.gate.batch_chain_tail = []))
  | .resume_intent id _ => inferInstanceAs (Decidable (id ∈ s.gate.batch_chain_tail ∧ s.Open id))
  | .add_relayer _ | .remove_relayer _ | .set_approver _ | .set_fee_tiers _ | .withdraw_fees _ _
  | .reset_batch_tail | .submit_intent _ | .continue_chain _ _ | .on_intent_resumed _ | .view =>
    isFalse id

/-- The gate is its own approver, and a call it dispatched approves for it. -/
def Action.self_approves (d : Deployment) (s : Ledger) (a : Action) : Prop :=
  s.gate.approver_id = d.gate_id ∧ ∃ c ∈ a.gate_call d s, c.1 = d.gate_id ∧ c.2.2.drives s

instance (d : Deployment) (s : Ledger) (a : Action) : Decidable (a.self_approves d s) :=
  inferInstanceAs (Decidable (s.gate.approver_id = d.gate_id ∧
    ∃ c ∈ a.gate_call d s, c.1 = d.gate_id ∧ c.2.2.drives s))

namespace Ledger

variable {d : Deployment} {s s' s₀ : Ledger} {a : Action}

/-- What stands in the log before a member is resumed by `continue_chain`: its batch,
and last of its batch the dispatch, the execution and the end of the member before
it. -/
def Scheduled (before : List Entry) (en : Entry) : Prop :=
  ∀ id seq batch, en.event = .continued id seq batch →
    ∃ b ids i x, batch = some b ∧ (b, ids) ∈ before.filterMap Entry.batch ∧
      ids[i]? = some x ∧ ids[i + 1]? = some id ∧ seq = i + 1 ∧
      [.dispatched x (some i), .executed x, .finished x] <:+
        before.filterMap (Entry.chain_step b)

theorem Scripted.scheduled (h : s.Scripted) (h' : s'.Scripted) (halong : Along Scheduled s.log)
    (hmove : Move d s₀ a s s') : Along Scheduled s'.log := by
  refine hmove.along halong ?_
  rintro _ hlog hcause id seq batch rfl
  obtain ⟨f, hf, rfl, hr, htail⟩ := hcause
  -- whoever popped the tail belongs to the newest batch
  have hactive := h.chained.pop_active hf hr htail
  obtain ⟨ids, hb⟩ := h.chained.tagged f hf _ hactive
  have hbatches : s'.batches = s.batches := (batches_of_log hlog).trans (List.append_nil _)
  have htrace : s'.trace s.gate.active_batch_id =
      s.trace s.gate.active_batch_id ++ [.resumed id seq] := by
    rw [trace_append (stamps_of_log hlog _)]
    simp [Entry.chain_step, hactive]
  have hpre := h'.chained.prefix_script (hbatches ▸ hb)
  rw [htrace] at hpre
  have hids : ids ≠ [] := by
    rintro rfl
    simp [script] at hpre
  rcases script_resumed hpre with ⟨hnil, -⟩ | ⟨i, x, hx, hid, rfl, hsuf⟩
  · exact absurd hnil (trace_ne_nil hb hids)
  · rw [Nat.zero_add] at hsuf ⊢
    rw [trace_eq] at hsuf
    exact ⟨_, ids, i, x, hactive, hb, hx, hid, rfl, hsuf⟩

/-- A dispatched call changes no tail and resumes no member of one, unless it forges,
approves or resets. -/
theorem execute_keeps (h : s.Lifecycle) {i spare : Nat} {success : Bool}
    (ha : a = .execute i spare success) (hreset : ¬ a.resets d s) (hforges : ¬ a.forges d s)
    (hself : ¬ a.self_approves d s) (hst : step d s a = some s') :
    s'.gate.batch_chain_tail = s.gate.batch_chain_tail ∧
      ∀ id ∈ s.gate.batch_chain_tail, s'.resumes.count id = s.resumes.count id := by
  let I : Ledger → Prop := fun t => t.gate.batch_chain_tail = s.gate.batch_chain_tail ∧
    ∀ id ∈ s.gate.batch_chain_tail, t.resumes.count id = s.resumes.count id
  refine step_preserves I hst ⟨rfl, fun _ _ => rfl⟩ ?_
  rintro t t' ⟨htail, hcount⟩ hmove
  cases hmove with
  | refused hcall => exact ⟨htail, fun id hid => by simp [resumes, Event.resume]⟩
  | @called caller deposit spare' c out hcall hacc hcaller hspare heff =>
    -- a dispatched call runs under the gate's own account
    have hgate : caller = d.gate_id := by
      rcases hcaller with ⟨⟨_, hc⟩, -⟩ | ⟨-, hc⟩
      · rw [ha] at hc
        cases hc
      · exact hc
    have hkeeps : out.gate.batch_chain_tail = s.gate.batch_chain_tail ∧
        ∀ id ∈ s.gate.batch_chain_tail, (Event.accepted caller deposit c).resume ≠ some id := by
      generalize out.gate = g' at heff
      generalize out.action = act at heff
      cases heff with
      | admin hc frame =>
        refine ⟨frame.batch_chain_tail, fun id _ => ?_⟩
        cases c with
        | resume_intent | resume_batch_chained | continue_chain => cases hc
        | _ => exact fun h => by cases h
      | reset howner => exact absurd ⟨_, _, hacc⟩ hreset
      | submit hrel hdec hver hexp hnonce hfc hid hsub => exact ⟨rfl, fun id _ h => by cases h⟩
      | resume happr htier hdep hfee hp hopen =>
        refine ⟨rfl, fun id hid heq => hself ⟨happr.symm.trans hgate, _, hcall, hgate, ?_⟩⟩
        cases heq
        obtain ⟨w, hw⟩ := yield_is_open_iff.1 hopen
        exact ⟨hid, h.open_of_lookup hp hw⟩
      | batch happr htail hids htier hdep hfee hknown hid hp hopen =>
        exact absurd ⟨happr.symm.trans hgate, _, hcall, hgate, htail⟩ hself
      | chain hpriv hfree htail hp hopen =>
        exact absurd (forges_of_chain h hcall hcaller (.chain hpriv hfree htail hp hopen)) hforges
    refine ⟨by rw [apply_gate, hkeeps.1], fun id hid => ?_⟩
    -- the call may resume somebody, but nobody in the tail
    have hne := hkeeps.2 id hid
    cases hres : (Event.accepted caller deposit c).resume with
    | none => simp [resumes, hres]
    | some n =>
      have hn : n ≠ id := fun h => hne (hres.trans (congrArg some h))
      simp [resumes, hres, hn]
  | ran hf hblock hrecs =>
    refine ⟨htail, fun id hid => ?_⟩
    rw [← hcount id hid]
    simp [resumes, ran, without, Event.resume]
  | _ =>
    subst ha
    contradiction

end Ledger

/-- No reset, no forged `continue_chain`, and no dispatched call that approves for the
gate. Intents may be addressed to anybody. -/
def unforged (d : Deployment) (s : Ledger) (a : Action) : Prop :=
  ¬ a.resets d s ∧ ¬ a.forges d s ∧ ¬ a.self_approves d s

instance (d : Deployment) (s : Ledger) (a : Action) : Decidable (unforged d s a) :=
  inferInstanceAs (Decidable (_ ∧ _ ∧ _))

/-- **Who drives the chain**, in a run in which nothing is forged: `continue_chain`
succeeds only as the receipt that the dispatch of the member before scheduled, with
that member's position plus one; a dispatched call, whoever receives it, leaves the
tail alone and resumes no member of it. -/
theorem continuation_is_scheduled {d : Deployment} {owner_id approver_id : AccountId}
    {balance block_height : Nat} {s : Ledger}
    (hrun : Run (step d) (unforged d) (Ledger.init owner_id approver_id balance block_height) s) :
    (∀ en ∈ s.log, ∀ caller deposit id seq,
      en.event ≠ .accepted caller deposit (.continue_chain id seq)) ∧
    (∀ pre en post, s.log = pre ++ en :: post → ∀ id seq batch,
      en.event = .continued id seq batch →
      ∃ b ids i x, batch = some b ∧ (b, ids) ∈ pre.filterMap Entry.batch ∧
        ids[i]? = some x ∧ ids[i + 1]? = some id ∧ seq = i + 1 ∧
        [.dispatched x (some i), .executed x, .finished x] <:+
          pre.filterMap (Entry.chain_step b)) ∧
    ∀ i spare success s', unforged d s (.execute i spare success) →
      step d s (.execute i spare success) = some s' →
      s'.gate.batch_chain_tail = s.gate.batch_chain_tail ∧
        ∀ id ∈ s.gate.batch_chain_tail, s'.resumes.count id = s.resumes.count id := by
  let I : Ledger → Prop := fun t => t.Scripted ∧ t.Tight ∧ Along Ledger.Scheduled t.log ∧
    ∀ en ∈ t.log, ∀ caller deposit id seq,
      en.event ≠ .accepted caller deposit (.continue_chain id seq)
  have hinv : I s := by
    refine hrun.invariant ⟨.init _ _ _ _, fun _ hf => (nomatch hf), Along.nil,
      fun _ hen => (nomatch hen)⟩ ?_
    rintro t a t' ht ⟨hreset, hforges, hself⟩ hst
    -- without a reset no list is stale, so the chains keep their scripts
    have hstale := ht.2.1.not_stale (d := d) (a := a)
    refine step_preserves I hst ht ?_
    rintro u u' ⟨hu, htight, halong, hnone⟩ hmove
    have hu' := hu.move hforges hstale hmove
    refine ⟨hu', htight.relay hu.chained hforges hreset (Ledger.relay_of_move hu.life hmove),
      hu.scheduled hu' halong hmove, ?_⟩
    intro en hen
    rcases hmove.mem_log hen with hen | ⟨e, -, rfl, hcause⟩
    · exact hnone en hen
    · rintro caller deposit id seq rfl
      obtain ⟨rfl, hcall, -, hcaller, act, heff⟩ := hcause
      exact hforges (Ledger.forges_of_chain hu.life hcall hcaller heff)
  refine ⟨hinv.2.2.2, hinv.2.2.1, ?_⟩
  intro i spare success s' hguard hst
  exact Ledger.execute_keeps hinv.1.life rfl hguard.1 hguard.2.1 hguard.2.2 hst

section Demo

open SequentialNear.Demo

/-- A batch of two beside an intent that calls the gate's own `continue_chain`. -/
def with_forged : List Action :=
  submissions [set11, set22, forged] ++
  [.call approver FEE 0 (.resume_batch_chained first_two)]

/-- The forged call is dispatched when the chain is over, and refused. -/
def forged_late : List Action :=
  with_forged ++ deliver ++ [.advance 1, .run_continue 0] ++ deliver ++
  [.call approver FEE 0 (.resume_intent 2 true)] ++ deliver

theorem continuation_is_scheduled_demo :
    ∃ s, Run (step deployment) (unforged deployment) start s ∧ 2 ∈ s.met .dispatched ∧
      ∃ en ∈ s.log, en.event = .continued 1 1 (some 1) ∧
        ∃ pre, pre <+: s.log ∧ ∃ x, [0, 1][0]? = some x ∧
          [.dispatched x (some 0), .executed x, .finished x] <:+
            pre.filterMap (Entry.chain_step 1) := by
  have hrun : ∃ s, Run (step deployment) (unforged deployment) start s ∧
      2 ∈ s.met .dispatched ∧ s.batches = [(1, [0, 1])] ∧
      ∃ en ∈ s.log, en.event = .continued 1 1 (some 1) :=
    exists_run_of_exec forged_late _ (by decide +kernel)
  obtain ⟨s, hrun, hmet, hbatches, en, hen, he⟩ := hrun
  obtain ⟨pre, post, hlog⟩ := List.append_of_mem hen
  obtain ⟨b, ids, i, x, hb, hids, hx, -, hseq, hsuf⟩ :=
    (continuation_is_scheduled hrun).2.1 pre en post hlog 1 1 (some 1) he
  have hpre : pre <+: s.log := ⟨en :: post, hlog.symm⟩
  have hmem := (hpre.filterMap Entry.batch).subset hids
  have hbatches' : s.log.filterMap Entry.batch = [(1, [0, 1])] := hbatches
  rw [hbatches', List.mem_singleton] at hmem
  cases hmem
  have hi : i = 0 := by omega
  subst hi
  exact ⟨s, hrun, hmet, en, hen, he, pre, hpre, x, hx, hsuf⟩

/-- The user's call reaches the gate before intent `0` has been dispatched, and pops
the tail. -/
theorem continuation_is_scheduled_fails : ¬ ∀ s,
    Run (step deployment) (fun s a => ¬ a.resets deployment s) start s →
    ∀ en ∈ s.log, ∀ caller deposit id seq,
      en.event ≠ .accepted caller deposit (.continue_chain id seq) := by
  intro h
  have hrun : ∃ s, Run (step deployment) (fun s a => ¬ a.resets deployment s) start s ∧
      ∃ en ∈ s.log, en.event = .accepted gate_id 0 (.continue_chain 1 9) :=
    exists_run_of_exec (with_forged ++ [.call approver FEE 0 (.resume_intent 2 true), .advance 1,
      .run_callback 1 0, .advance 1, .execute 1 0 true]) _ (by decide +kernel)
  obtain ⟨s, hrun, en, hen, he⟩ := hrun
  exact h s hrun en hen _ _ _ _ he

end Demo

end SequentialNear
