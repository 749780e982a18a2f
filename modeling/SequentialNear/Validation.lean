/-
The check that `resume_batch_chained` makes before it accepts a list.

It looks at every member by itself, but only the first one is taken out of `pending`
there and then; the others follow one by one, each in a `continue_chain`. A list that
names an intent twice passes. Run with nothing but its own receipts, an accepted list
completes exactly when it repeats nobody ([`accepted_list_completes_iff`]); otherwise
the second `continue_chain` for the same intent panics, and the tail stays.

That a list completes means here that its chain can always take another step until
no receipt is left ([`Ledger.receipt_enabled`]), that every such step is one more in
a trace of bounded length ([`Ledger.Live.grows`]), and that everybody has been
dispatched at the end.
-/
import SequentialNear.Delivery

set_option autoImplicit false

namespace SequentialNear

open Nep366 Runs Ledger

/-! ## Nothing but its own receipts -/

/-- The action lets time pass. -/
def Action.waits : Action → Bool
  | .advance _ => true
  | _ => false

/-- Time passes, or a receipt of batch `b` is executed: it creates what it has to, and
it is no call of the gate. -/
def own_receipts (d : Deployment) (b : Nat) (s : Ledger) (a : Action) : Prop :=
  (a.waits = true ∨ ∃ f ∈ a.receipt s, f.batch = some b) ∧ a.fits d s ∧ ¬ a.calls_gate d s

instance (d : Deployment) (b : Nat) (s : Ledger) (a : Action) : Decidable (own_receipts d b s a) :=
  inferInstanceAs (Decidable ((_ ∨ ∃ f ∈ a.receipt s, f.batch = some b) ∧ _ ∧ _))

namespace own_receipts

variable {d : Deployment} {s : Ledger} {a : Action} {b : Nat}

theorem no_call (h : own_receipts d b s a) : a.gate_call d s = none := by
  obtain ⟨hwaits | ⟨f, hf, -⟩, -, hgate⟩ := h
  · cases a with
    | advance blocks => rfl
    | _ => cases hwaits
  · refine Option.eq_none_iff_forall_ne_some.2 fun c hc => hgate ⟨c, hc, ?_⟩
    exact Action.gate_call_of_receipt hf hc

theorem no_accepted_call (h : own_receipts d b s a) : a.accepted_call d s = none := by
  refine Option.eq_none_iff_forall_ne_some.2 ?_
  rintro ⟨caller, deposit, c⟩ hc
  have hcall := (Action.accepted_call_run hc).1
  rw [h.no_call] at hcall
  cases hcall

theorem batch (h : own_receipts d b s a) {f : InFlight} (hf : f ∈ a.receipt s) :
    f.batch = some b := by
  obtain ⟨hwaits | ⟨g, hg, hb⟩, -⟩ := h
  · cases a with
    | advance blocks => cases hf
    | _ => cases hwaits
  · cases Option.mem_unique hf hg
    exact hb

/-- Its own receipts leave a batch alone. -/
theorem calm (h : own_receipts d b s a) (ids : List Nat) : undisturbed d ids s a := by
  have hlapses : a.lapses s = none := by
    obtain ⟨hwaits | ⟨f, hf, -⟩, -⟩ := h
    · cases a with
      | advance blocks => rfl
      | _ => cases hwaits
    · cases a with
      | timeout y => cases hf
      | _ => rfl
  refine ⟨?_, h.2.2, h.2.1, fun id _ => ?_⟩
  · rintro ⟨caller, deposit, hcall⟩
    rw [h.no_accepted_call] at hcall
    cases hcall
  · rintro (⟨c, hc, -⟩ | hlap)
    · rw [h.no_accepted_call] at hc
      cases hc
    · rw [hlapses] at hlap
      cases hlap

end own_receipts

/-! ## The chain can go on -/

/-- A step that a receipt pays without a `continue_chain` resumes nobody. -/
theorem Passes.resumes_none {r : Receipt} {st : ChainStep} {new : List Receipt}
    (h : Passes r st new) : st.resume = none := by
  cases h <;> rfl

namespace Ledger

variable {d : Deployment} {s s' s₀ s₁ : Ledger} {a : Action}

/-- **A receipt in flight can be executed.** -/
theorem receipt_enabled (d : Deployment) {f : InFlight} (hf : f ∈ s.receipts)
    (hgas : GAS_YIELD_CALLBACK ≤ d.max_prepaid_gas) :
    ∃ a, a.receipt s = some f ∧ (step d s a).isSome = true := by
  obtain ⟨i, hget⟩ := List.mem_iff_getElem?.1 hf
  obtain ⟨r, batch, created⟩ := f
  cases r with
  | callback y args gas signal =>
    refine ⟨.run_callback i 0, hget, ?_⟩
    simp only [step, hget, Nat.zero_le, if_true, Option.isSome_some]
  | target_call id call and_then ran =>
    cases ran with
    | false =>
      refine ⟨.execute i 0 true, hget, ?_⟩
      have hspare : call.receiver = d.gate_id → GAS_YIELD_CALLBACK + 0 ≤ d.max_prepaid_gas :=
        fun _ => hgas
      simp only [step, hget, if_pos hspare, Option.isSome_some]
    | true =>
      refine ⟨.finish i true, hget, ?_⟩
      simp only [step, hget, Option.isSome_some]
  | continue_chain id seq =>
    refine ⟨.run_continue i, hget, ?_⟩
    simp only [step, hget, Option.isSome_some]
  | transfer to_id amount =>
    refine ⟨.settle i true, hget, ?_⟩
    simp only [step, hget, Option.isSome_some]

/-- A logged step makes the trace longer. -/
theorem trace_lt {t : Ledger} {b : Nat} {e : Event} {st : ChainStep}
    (hpre : s.trace b <+: t.trace b) (hlog : s'.log = t.log ++ [⟨t.block_height, t.gate, e⟩])
    (hst : (⟨t.block_height, t.gate, e⟩ : Entry).chain_step b = some st) :
    (s.trace b).length < (s'.trace b).length := by
  have hle := hpre.length_le
  rw [trace_eq s' b, hlog, List.filterMap_append, ← trace_eq, List.length_append]
  have hone : (List.filterMap (Entry.chain_step b) [⟨t.block_height, t.gate, e⟩]).length = 1 := by
    simp [hst]
  omega

/-- **A live batch takes a step whenever its receipt is executed.** -/
theorem Live.grows {b : Nat} {ids : List Nat} (h : s.Live b ids) (hlife : s.Lifecycle)
    (hcalm : undisturbed d ids s a) {f : InFlight} (hf : f ∈ a.receipt s) (hb : f.batch = some b)
    (hst : step d s a = some s') : (s.trace b).length < (s'.trace b).length := by
  obtain ⟨rest, rem, -, -, howes, -⟩ := h.owes (Action.receipt_mem hf) hb
  have hcall : ∀ c, a.gate_call d s ≠ some c :=
    fun c hc => hcalm.2.1 ⟨c, hc, Action.gate_call_of_receipt hf hc⟩
  obtain ⟨t, hst, hmove⟩ := step_moves hst
  have hpre : s.trace b <+: t.trace b := by
    rw [trace_eq, trace_eq]
    cases hst with
    | refl => exact List.prefix_refl _
    | single hst => exact hst.log_extends.filterMap _
  -- the move that ends the step logs a step of the batch
  cases hmove with
  | advance ha =>
    subst ha
    cases hf
  | refused hgate => exact absurd hgate (hcall _)
  | called hgate => exact absurd hgate (hcall _)
  | timed_out ha hw =>
    subst ha
    cases hf
  | @resumed i burnt y args gas signal batch created pre post out ha htake hret hfits =>
    subst ha
    cases Option.mem_unique hf htake.get
    cases howes with
    | @callback _ _ _ v _ _ hv =>
      rw [callback_event_approve hv hret]
      exact trace_lt hpre (apply_log _ _ _ _ _) (if_pos hb)
  | @aborted i burnt y args gas signal batch created pre post ha htake hfail =>
    subst ha
    cases Option.mem_unique hf htake.get
    cases howes with
    | callback hv =>
      exact absurd hfail (not_reverted_of_fits hlife htake.get hv (hcalm.2.2.1 _ htake.get hv))
  | ran hg hblock hrecs =>
    cases Option.mem_unique hf hg
    exact trace_lt hpre rfl (if_pos hb)
  | @finished i success id call and_then batch created pre post ha htake =>
    subst ha
    cases Option.mem_unique hf htake.get
    exact trace_lt hpre (finish_log _ _ _ _) (if_pos hb)
  | continued ha htake heff =>
    subst ha
    cases Option.mem_unique hf htake.get
    exact trace_lt hpre (apply_log _ _ _ _ _) (if_pos hb)
  | @continue_failed i id seq batch created pre post msg ha htake hfail =>
    subst ha
    cases Option.mem_unique hf htake.get
    obtain ⟨hhead, hopen⟩ := h.continues (Action.receipt_mem hf) hb rfl
    obtain ⟨out, hrun⟩ := hlife.continue_runs d seq hhead hopen
    rw [hrun] at hfail
    cases hfail
  | settled ha htake =>
    subst ha
    cases Option.mem_unique hf htake.get
    cases howes

/-! ## The tail at the end -/

/-- The members that have been resumed and the tail make up the list. -/
def Divided (s : Ledger) (b : Nat) (ids : List Nat) : Prop :=
  s.chain_resumes b ++ s.gate.batch_chain_tail = ids

theorem chain_resumes_append {b : Nat} {l : List (Nat × ChainStep)}
    (h : s'.stamps b = s.stamps b ++ l) :
    s'.chain_resumes b = s.chain_resumes b ++ (l.map Prod.snd).filterMap ChainStep.resume := by
  rw [chain_resumes, trace_append h, List.filterMap_append, chain_resumes]

namespace Divided

variable {b : Nat} {ids : List Nat}

/-- The batch's own receipts keep the list divided, whether it repeats an intent or
not: a member leaves the tail as it is resumed. -/
theorem move (h : s.Divided b ids) (hlife : s.Lifecycle) (hown : own_receipts d b s₀ a)
    (hmove : Move d s₀ a s s') : s'.Divided b ids := by
  have hkeep : s'.gate.batch_chain_tail = s.gate.batch_chain_tail → s'.stamps b = s.stamps b →
      s'.Divided b ids := fun ht hst => by
    rw [Divided, chain_resumes, trace_congr hst, ht]
    exact h
  cases relay_of_move hlife hmove with
  | still hst htail => exact hkeep htail (hst.stamps b)
  | reset hst hcall =>
    rw [hown.no_accepted_call] at hcall
    cases hcall
  | start hcall =>
    rw [hown.no_accepted_call] at hcall
    cases hcall
  | @pass _ _ f pre post st new hsame htail hexec hblock hsplit hrecs hnew hpass hcreated hstamps =>
    have hres : s'.chain_resumes b = s.chain_resumes b := by
      rw [chain_resumes_append (hstamps b), if_pos (hown.batch hexec)]
      simp only [List.map_cons, List.map_nil, List.filterMap_cons, hpass.resumes_none,
        List.filterMap_nil, List.append_nil]
    rw [Divided, hres, htail]
    exact h
  | stop hsame htail hsplit hrecs hstops hstamps => exact hkeep htail (hstamps b)
  | @pop _ pre post id seq created batch rest y args gas hsame hexec hsplit htail htail' hrecs hid
      hstamps =>
    have hres : s'.chain_resumes b = s.chain_resumes b ++ [id] := by
      rw [chain_resumes_append (hstamps b), if_pos (hown.batch hexec)]
      rfl
    rw [Divided, htail] at h
    rw [Divided, hres, htail', List.append_assoc]
    exact h
  | forge hforges => exact absurd hforges (hown.calm []).not_forges

theorem start {caller : AccountId} {deposit : Nat} {ids : Vec Nat} (htagged : s.Tagged)
    (hlife : s.Lifecycle) (hmove : Move d s a s s') (hlog : s'.log = s.log ++
      [⟨s.block_height, s.gate, .accepted caller deposit (.resume_batch_chained ids)⟩]) :
    s'.Divided s'.gate.active_batch_id ids.toList := by
  obtain ⟨first, rest, f, rem, hids, htail, hactive, htrace, -⟩ := htagged.start hlife hmove hlog
  rw [Divided, chain_resumes, hactive, htrace, htail, hids]
  rfl

/-- **A tail that has been used up repeats nobody**: no intent is resumed twice. -/
theorem nodup (h : s.Divided b ids) (hlife : s.Lifecycle) (htail : s.gate.batch_chain_tail = []) :
    ids.Nodup := by
  rw [Divided, htail, List.append_nil] at h
  rw [← h]
  exact hlife.resumes_nodup.sublist (chain_resumes_sublist s b)

end Divided

end Ledger

/-- **When the check of `resume_batch_chained` is enough.** From any reachable state,
let a list of open intents be accepted, and let nothing happen but the chain's own
receipts. While one is left it can be executed. When none is left, everybody has been
dispatched, the tail is empty and no `continue_chain` has panicked, if and only if the
list repeats no intent; if it does, the tail is left behind. A list that repeats none
comes to that end: all its steps are in its script, and every receipt adds one. -/
theorem accepted_list_completes_iff {d : Deployment} {s₀ s₁ s : Ledger} {caller : AccountId}
    {deposit spare : Nat} {ids : Vec Nat} (h₀ : Reachable d s₀)
    (hstart : step d s₀ (.call caller deposit spare (.resume_batch_chained ids)) = some s₁)
    (hacc : (s₀.call d caller deposit spare (.resume_batch_chained ids)).2 = true)
    (hopen : ∀ id ∈ ids.toList, s₀.Open id)
    (hrun : Run (step d) (own_receipts d (s₀.gate.active_batch_id + 1)) s₁ s) :
    (s.of_batch (s₀.gate.active_batch_id + 1) ≠ [] →
      ∃ a, (∃ f ∈ a.receipt s, f.batch = some (s₀.gate.active_batch_id + 1)) ∧
        (step d s a).isSome = true) ∧
    (s.of_batch (s₀.gate.active_batch_id + 1) = [] →
      ((s.Unbroken (s₀.gate.active_batch_id + 1) ∧ (∀ id ∈ ids.toList, id ∈ s.met .dispatched) ∧
        s.gate.batch_chain_tail = []) ↔ ids.toList.Nodup) ∧
      (s.gate.batch_chain_tail = [] ↔ ids.toList.Nodup)) ∧
    (ids.toList.Nodup →
      s.Unbroken (s₀.gate.active_batch_id + 1) ∧
      s.trace (s₀.gate.active_batch_id + 1) <+: script 0 ids.toList ∧
      ∀ a s', own_receipts d (s₀.gate.active_batch_id + 1) s a → a.waits = false →
        step d s a = some s' →
        (s.trace (s₀.gate.active_batch_id + 1)).length <
          (s'.trace (s₀.gate.active_batch_id + 1)).length) := by
  obtain ⟨hgas, hmove⟩ := call_moves hstart
  have hlog := call_log hstart hacc
  obtain ⟨_, _, _, _, -, -, hactive, -⟩ := h₀.tagged.start h₀.lifecycle hmove hlog
  have hdivided₁ : s₁.Divided (s₀.gate.active_batch_id + 1) ids.toList :=
    hactive ▸ .start h₀.tagged h₀.lifecycle hmove hlog
  have hkept₁ : ids.toList.Nodup → s₁.Kept (s₀.gate.active_batch_id + 1) ids.toList :=
    fun hnodup => hactive ▸ .start h₀.tagged h₀.lifecycle hnodup hopen rfl hmove hlog
  have hlife₁ := h₀.lifecycle.move hmove
  generalize s₀.gate.active_batch_id + 1 = b at *
  let I : Ledger → Prop := fun t =>
    t.Lifecycle ∧ t.Divided b ids.toList ∧ (ids.toList.Nodup → t.Kept b ids.toList)
  have hinv : I s := by
    refine hrun.invariant ⟨hlife₁, hdivided₁, hkept₁⟩ ?_
    intro t a t' ht hown hst
    refine step_preserves I hst ht ?_
    rintro u u' ⟨hlife, hdivided, hkept⟩ hmove
    refine ⟨hlife.move hmove, hdivided.move hlife hown hmove, fun hnodup => ?_⟩
    exact (hkept hnodup).move hnodup (hown.calm _)
      (fun _ f hf hb => absurd (hown.batch hf) hb) hmove
  obtain ⟨hlife, hdivided, hkept⟩ := hinv
  -- without receipts, the members of a list that repeats none are all resumed
  have hend : ids.toList.Nodup → s.of_batch b = [] → (∀ id ∈ ids.toList, id ∈ s.met .dispatched) ∧
      s.gate.batch_chain_tail = [] := fun hnodup hidle => by
    obtain ⟨htrace, -⟩ := (hkept hnodup).live.done hlife hidle
    refine ⟨fun id hid => ?_, ?_⟩
    · obtain ⟨seq, hmem⟩ := dispatched_mem_script (i := 0) hid
      exact met_of_trace (htrace ▸ hmem)
    · rw [Divided, chain_resumes, htrace, script_resumes] at hdivided
      exact List.append_right_eq_self.1 hdivided
  refine ⟨fun hbusy => ?_, fun hidle => ⟨⟨?_, ?_⟩, ?_, ?_⟩, fun hnodup => ?_⟩
  · obtain ⟨f, hf⟩ := List.exists_mem_of_ne_nil _ hbusy
    obtain ⟨hmem, hb⟩ := mem_of_batch.1 hf
    obtain ⟨a, ha, hen⟩ := receipt_enabled d hmem ((Nat.le_add_right _ _).trans hgas)
    exact ⟨a, ⟨f, ha, hb⟩, hen⟩
  · rintro ⟨-, -, htail⟩
    exact hdivided.nodup hlife htail
  · intro hnodup
    exact ⟨(hkept hnodup).unbroken, hend hnodup hidle⟩
  · exact hdivided.nodup hlife
  · exact fun hnodup => (hend hnodup hidle).2
  · have hk := hkept hnodup
    obtain ⟨rest, rem, hrem, -⟩ := hk.live.carried
    refine ⟨hk.unbroken, ⟨rem, hrem⟩, fun a s' hown hwaits hst => ?_⟩
    have hcalm := hown.calm ids.toList
    obtain ⟨hwait | ⟨f, hf, hb⟩, -⟩ := hown
    · rw [hwaits] at hwait
      cases hwait
    · exact hk.live.grows hlife hcalm hf hb hst

section Demo

open SequentialNear.Demo

/-- The batch of two alone, to its end. -/
theorem accepted_list_completes_iff_demo : ∃ s, Reachable deployment s ∧ s.of_batch 1 = [] ∧
    ((s.Unbroken 1 ∧ (∀ id ∈ [0, 1], id ∈ s.met .dispatched) ∧ s.gate.batch_chain_tail = []) ↔
      [0, 1].Nodup) := by
  have hrun : ∃ s₀ s₁ s, Run (step deployment) anyAction start s₀ ∧
      step deployment s₀ (.call approver FEE 0 (.resume_batch_chained first_two)) =
        some s₁ ∧ Run (step deployment) (own_receipts deployment 1) s₁ s ∧
      (s₀.call deployment approver FEE 0 (.resume_batch_chained first_two)).2 = true ∧
      s₀.gate.active_batch_id = 0 ∧ (∀ id ∈ [0, 1], s₀.Open id) ∧ s.of_batch 1 = [] :=
    exists_runs_of_exec (submissions [set11, set22])
      (.call approver FEE 0 (.resume_batch_chained first_two))
      (deliver ++ [.advance 1, .run_continue 0] ++ deliver) _ (by decide +kernel)
  obtain ⟨s₀, s₁, s, hrun₀, hstart, hrun, hacc, hactive, hopen, hidle⟩ := hrun
  have h₀ : Reachable deployment s₀ := ⟨_, _, _, _, hrun₀⟩
  have hiff := (accepted_list_completes_iff h₀ hstart hacc hopen (by rw [hactive]; exact hrun)).2.1
  rw [hactive] at hiff
  exact ⟨s, (h₀.step hstart).run hrun, hidle, (hiff hidle).1⟩

/-- The list `[0, 0]` is accepted, and leaves a tail that nobody takes. -/
theorem accepted_list_completes_fails : ¬ ∀ (s₀ s₁ s : Ledger) (caller : AccountId)
    (deposit spare : Nat) (ids : Vec Nat), Reachable deployment s₀ →
    step deployment s₀ (.call caller deposit spare (.resume_batch_chained ids)) = some s₁ →
    (s₀.call deployment caller deposit spare (.resume_batch_chained ids)).2 = true →
    (∀ id ∈ ids.toList, s₀.Open id) →
    Run (step deployment) (own_receipts deployment (s₀.gate.active_batch_id + 1)) s₁ s →
    s.of_batch (s₀.gate.active_batch_id + 1) = [] → s.gate.batch_chain_tail = [] := by
  intro h
  have hrun : ∃ s₀ s₁ s, Run (step deployment) anyAction start s₀ ∧
      step deployment s₀ (.call approver FEE 0 (.resume_batch_chained ⟨[0, 0], by decide⟩)) =
        some s₁ ∧ Run (step deployment) (own_receipts deployment 1) s₁ s ∧
      (s₀.call deployment approver FEE 0 (.resume_batch_chained ⟨[0, 0], by decide⟩)).2 = true ∧
      s₀.gate.active_batch_id = 0 ∧ (∀ id ∈ [0, 0], s₀.Open id) ∧ s.of_batch 1 = [] ∧
      s.gate.batch_chain_tail = [0] :=
    exists_runs_of_exec (submissions [set11])
      (.call approver FEE 0 (.resume_batch_chained ⟨[0, 0], by decide⟩))
      (deliver ++ [.advance 1, .run_continue 0]) _ (by decide +kernel)
  obtain ⟨s₀, s₁, s, hrun₀, hstart, hrun, hacc, hactive, hopen, hidle, htail⟩ := hrun
  have hnil := h s₀ s₁ s approver FEE 0 ⟨[0, 0], by decide⟩ ⟨_, _, _, _, hrun₀⟩ hstart hacc hopen
    (by rw [hactive]; exact hrun) (by rw [hactive, hidle])
  rw [htail] at hnil
  cases hnil

end Demo

end SequentialNear
