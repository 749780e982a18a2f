/-
A chained batch that nothing disturbs.

[`Ledger.Live`] is the state of a batch from its acceptance on: one receipt carries
the rest of the list, and while the batch is the newest one the tail is that rest
and all of it is open. It survives every step that leaves the batch alone
([`undisturbed`]), so the receipt is never dropped, and when it is gone nothing is
left to do.

It is started from any reachable state: its number keeps the new batch apart from
everything before it ([`Ledger.Tagged`]).
-/
import SequentialNear.TailPending

set_option autoImplicit false

namespace SequentialNear

open Nep366 Runs

/-! ## Leaving a batch alone -/

/-- The intent of a `resume_intent`. -/
def GateCall.single : GateCall → Option Nat
  | .resume_intent id _ => some id
  | _ => none

/-- The intent whose yield an action lets time out. -/
def Action.lapses (s : Ledger) : Action → Option Nat
  | .timeout y => (s.yields.lookup y).map (·.args.intent_id)
  | _ => none

/-- The action resolves the intent by itself. -/
def Action.resolves (d : Deployment) (s : Ledger) (a : Action) (id : Nat) : Prop :=
  (∃ c ∈ a.accepted_call d s, c.2.2.single = some id) ∨ a.lapses s = some id

/-- A dispatched call addressed to the gate is executed. -/
def Action.calls_gate (d : Deployment) (s : Ledger) (a : Action) : Prop :=
  ∃ c ∈ a.gate_call d s, c.1 = d.gate_id

/-- No reset, no call of the gate by the gate, no reverted callback, and no listed
intent resolved by itself. -/
def undisturbed (d : Deployment) (ids : List Nat) (s : Ledger) (a : Action) : Prop :=
  ¬ a.resets d s ∧ ¬ a.calls_gate d s ∧ a.fits d s ∧ ∀ id ∈ ids, ¬ a.resolves d s id

instance (d : Deployment) (s : Ledger) (a : Action) (id : Nat) : Decidable (a.resolves d s id) :=
  inferInstanceAs (Decidable ((∃ c ∈ a.accepted_call d s, c.2.2.single = some id) ∨ _))

instance (d : Deployment) (s : Ledger) (a : Action) : Decidable (a.calls_gate d s) :=
  inferInstanceAs (Decidable (∃ c ∈ a.gate_call d s, c.1 = d.gate_id))

instance (d : Deployment) (ids : List Nat) (s : Ledger) (a : Action) :
    Decidable (undisturbed d ids s a) :=
  inferInstanceAs (Decidable (_ ∧ _ ∧ _ ∧ ∀ id ∈ ids, ¬ a.resolves d s id))

theorem undisturbed.not_forges {d : Deployment} {ids : List Nat} {s : Ledger} {a : Action}
    (h : undisturbed d ids s a) : ¬ a.forges d s := by
  rintro ⟨c, hcall, hself, -⟩
  exact h.2.1 ⟨c, hcall, hself⟩

namespace Ledger

variable {d : Deployment} {s s' s₀ : Ledger} {a : Action}

/-- An open yield stays open, unless the move resumes it or lets it time out. -/
theorem open_of_move (h : s.Lifecycle) (hmove : Move d s₀ a s s') {id : Nat} (ho : s.Open id) :
    s'.Open id ∨ (∃ e, s'.log = s.log ++ [⟨s.block_height, s.gate, e⟩] ∧ e.resume = some id) ∨
      a.lapses s₀ = some id := by
  obtain ⟨y, hy⟩ := ho
  rcases h.books.open_step (move_books h hmove) hy with ho | hrel | hlap
  · exact .inl ⟨y, ho⟩
  · right; left
    have hrel : s'.resumes = s.resumes ++ [id] := hrel
    rcases hmove.log_cases with hlog | ⟨e, hlog⟩
    · rw [resumes, hlog, resumes] at hrel
      exact absurd (congrArg List.length hrel) (by simp)
    · refine ⟨e, hlog, ?_⟩
      rw [resumes, hlog, List.filterMap_append, resumes, List.append_cancel_left_eq] at hrel
      cases he : e.resume <;> simp_all
  · right; right
    have hlap : s'.lapsed = s.lapsed ++ [(y, id)] := hlap
    rcases lapsed_of_move hmove with hsub | ⟨y', w, rfl, hw, hlap', -⟩
    · have hle := hsub.length_le
      rw [hlap, List.length_append, List.length_singleton] at hle
      omega
    · rw [hlap, List.append_cancel_left_eq, List.cons.injEq, Prod.mk.injEq] at hlap'
      rw [Action.lapses, hw, Option.map_some, hlap'.1.2]

end Ledger

/-! ## The members that have been resumed -/

/-- The intent a step resumes. -/
def ChainStep.resume : ChainStep → Option Nat
  | .resumed id _ => some id
  | _ => none

theorem script_resumes (i : Nat) (ids : List Nat) :
    (script i ids).filterMap ChainStep.resume = ids := by
  induction ids generalizing i with
  | nil => rfl
  | cons x xs ih =>
    rw [script]
    simp only [List.filterMap_cons, ChainStep.resume, ih]

/-- What a receipt owes resumes the members that it has left. -/
theorem Owes.resumes {r : Receipt} {rest : List Nat} {rem : List ChainStep} (h : Owes r rest rem) :
    rem.filterMap ChainStep.resume = rest := by
  cases h with
  | to_continue => exact script_resumes _ _
  | _ => simp only [List.filterMap_cons, ChainStep.resume, script_resumes]

/-- A step that resumes a member is logged by an event that resumes it. -/
theorem Entry.resume_of_chain_step {en : Entry} {b id : Nat}
    (h : (en.chain_step b).bind ChainStep.resume = some id) : en.event.resume = some id := by
  obtain ⟨st, hst, hid⟩ := Option.bind_eq_some_iff.1 h
  obtain ⟨block, before, event⟩ := en
  cases event with
  | accepted caller deposit c =>
    cases c with
    | resume_batch_chained ids =>
      simp only [Entry.chain_step] at hst
      split at hst
      · obtain ⟨n, hn, rfl⟩ := Option.map_eq_some_iff.1 hst
        cases hid
        exact hn
      · cases hst
    | _ => cases hst
  | continued n seq batch =>
    simp only [Entry.chain_step] at hst
    split at hst
    · cases hst
      exact hid
    · cases hst
  | dispatched n call seq batch | executed n call ok batch | finished n ok batch =>
    simp only [Entry.chain_step] at hst
    split at hst
    · cases hst
      cases hid
    · cases hst
  | _ => cases hst

namespace Ledger

variable {d : Deployment} {s s' s₀ : Ledger} {a : Action}

/-- The members of batch `b` that have been resumed. -/
def chain_resumes (s : Ledger) (b : Nat) : List Nat := (s.trace b).filterMap ChainStep.resume

/-- A batch resumes its members among all others. -/
theorem chain_resumes_sublist (s : Ledger) (b : Nat) : (s.chain_resumes b).Sublist s.resumes := by
  rw [chain_resumes, trace_eq, List.filterMap_filterMap, resumes]
  exact filterMap_sublist fun en _ id h => Entry.resume_of_chain_step h

/-- An intent that was resumed is not pending. -/
theorem Lifecycle.resumed_gone (h : s.Lifecycle) {id : Nat} (hid : id ∈ s.resumes) :
    id ∉ s.gate.pending := by
  intro hp
  obtain ⟨p, hp⟩ := Option.isSome_iff_exists.1 (AList.lookup_isSome.2 hp)
  have hheld : s.books.hold id = some p.yield_id := by
    simp only [Ledger.books, hp, Option.map_some]
  have hzero := (h.books.of_held hheld).2.2.2
  have hpos := List.count_pos_iff.2 hid
  have hsame : s.books.releases.count id = s.resumes.count id := rfl
  omega

theorem Lifecycle.resumes_nodup (h : s.Lifecycle) : s.resumes.Nodup := by
  rw [List.nodup_iff_count_le_one]
  intro id
  have hle := h.books.releases id
  have hsame : s.books.releases.count id = s.resumes.count id := rfl
  unfold Tickets.Books.minted at hle
  split at hle <;> omega

/-! ## A live batch -/

/-- Batch `b`, with the members `ids`, has lost nothing so far. -/
structure Live (s : Ledger) (b : Nat) (ids : List Nat) : Prop where
  born : b ≤ s.gate.active_batch_id
  /-- Newer batches list none of its members. -/
  newer : b < s.gate.active_batch_id → ∀ n ∈ s.gate.batch_chain_tail, n ∉ ids
  carried : ∃ rest rem, s.trace b ++ rem = script 0 ids ∧
    (s.of_batch b = [] ∧ rest = [] ∧ rem = [] ∨
      ∃ f, s.of_batch b = [f] ∧ Owes f.receipt rest rem) ∧
    (rest ≠ [] → s.gate.active_batch_id = b) ∧
    (s.gate.active_batch_id = b → s.gate.batch_chain_tail = rest ∧ ∀ n ∈ rest, s.Open n)

/-- While batch `b` is the newest, no other receipt names a member of the tail. -/
def Apart (s : Ledger) (b : Nat) : Prop :=
  s.gate.active_batch_id = b → ∀ f ∈ s.receipts, f.batch ≠ some b →
    ∀ n, f.receipt.next = some n → n ∉ s.gate.batch_chain_tail

/-- A member of the tail stays open until it is popped. -/
theorem stays_open {ids : List Nat} (hlife : s.Lifecycle) (hcalm : undisturbed d ids s₀ a)
    (hmove : Move d s₀ a s s') {n : Nat} (hids : n ∈ ids) (hn : n ∈ s.gate.batch_chain_tail)
    (ho : s.Open n) (hstays : s.gate.batch_chain_tail ≠ n :: s'.gate.batch_chain_tail) :
    s'.Open n := by
  rcases open_of_move hlife hmove ho with ho' | ⟨e, hlog, he⟩ | hlap
  · exact ho'
  · exfalso
    have halone := (popped_of_resume hmove hlog he hn).resolve_right hstays
    cases e with
    | accepted caller deposit c =>
      cases c with
      | resume_intent id approve =>
        cases he
        obtain ⟨rfl, -, hacc, -⟩ := hmove.cause hlog
        exact hcalm.2.2.2 n hids (.inl ⟨_, hacc, rfl⟩)
      | _ => cases halone
    | rejected id timeout => cases he
    | _ => cases halone
  · exact absurd (.inr hlap) (hcalm.2.2.2 n hids)

/-- The members are those resumed so far and those the receipt has left. -/
theorem members_of_carried {b : Nat} {ids rest : List Nat} {rem : List ChainStep}
    (hrem : s.trace b ++ rem = script 0 ids) (hrec : s.of_batch b = [] ∧ rest = [] ∧ rem = [] ∨
      ∃ f, s.of_batch b = [f] ∧ Owes f.receipt rest rem) : s.chain_resumes b ++ rest = ids := by
  have hrest : rem.filterMap ChainStep.resume = rest := by
    rcases hrec with ⟨-, rfl, rfl⟩ | ⟨f, -, howes⟩
    · rfl
    · exact howes.resumes
  rw [chain_resumes, ← hrest, ← List.filterMap_append, hrem, script_resumes]

namespace Live

/-- The receipt of a live batch owes the rest of it. -/
theorem owes {b : Nat} {ids : List Nat} (h : s.Live b ids) {f : InFlight} (hf : f ∈ s.receipts)
    (hb : f.batch = some b) : ∃ rest rem, s.trace b ++ rem = script 0 ids ∧
      s.of_batch b = [f] ∧ Owes f.receipt rest rem ∧
      (rest ≠ [] → s.gate.active_batch_id = b) ∧
      (s.gate.active_batch_id = b → s.gate.batch_chain_tail = rest ∧ ∀ n ∈ rest, s.Open n) := by
  obtain ⟨rest, rem, hrem, ⟨hnil, -⟩ | ⟨g, hone, howes⟩, hact, htl⟩ := h.carried
  · exact absurd hnil (of_batch_ne_nil hf hb)
  · obtain rfl := of_batch_singleton hf hb hone
    exact ⟨rest, rem, hrem, hone, howes, hact, htl⟩

/-- Its `continue_chain` asks for the head of the tail, which is open. -/
theorem continues {b id seq : Nat} {ids : List Nat} (h : s.Live b ids) {f : InFlight}
    (hf : f ∈ s.receipts) (hb : f.batch = some b) (hr : f.receipt = .continue_chain id seq) :
    s.gate.batch_chain_tail.head? = some id ∧ s.Open id := by
  obtain ⟨rest, rem, -, -, howes, hact, htl⟩ := h.owes hf hb
  rw [hr] at howes
  cases howes with
  | to_continue =>
    obtain ⟨htail, hopen⟩ := htl (hact (List.cons_ne_nil _ _))
    refine ⟨?_, hopen id List.mem_cons_self⟩
    rw [htail]
    rfl

/-- A member of its tail stays open until it is popped. -/
theorem stays {b : Nat} {ids : List Nat} (h : s.Live b ids) (hlife : s.Lifecycle)
    (hcalm : undisturbed d ids s₀ a) (hmove : Move d s₀ a s s') (hb : s.gate.active_batch_id = b)
    {n : Nat} (hn : n ∈ s.gate.batch_chain_tail)
    (hstays : s.gate.batch_chain_tail ≠ n :: s'.gate.batch_chain_tail) : s'.Open n := by
  obtain ⟨rest, rem, hrem, hrec, -, htl⟩ := h.carried
  have hrest : n ∈ rest := (htl hb).1 ▸ hn
  have hmem : n ∈ ids := members_of_carried hrem hrec ▸ List.mem_append_right _ hrest
  exact stays_open hlife hcalm hmove hmem hn ((htl hb).2 n hrest) hstays

/-- A move that concerns other receipts only keeps the batch live. -/
theorem keep {b : Nat} {ids : List Nat} (h : s.Live b ids) (hlife : s.Lifecycle)
    (hcalm : undisturbed d ids s₀ a) (hmove : Move d s₀ a s s')
    (ha : s'.gate.active_batch_id = s.gate.active_batch_id)
    (ht : s'.gate.batch_chain_tail = s.gate.batch_chain_tail) (hst : s'.stamps b = s.stamps b)
    (hof : s'.of_batch b = s.of_batch b) : s'.Live b ids := by
  obtain ⟨rest, rem, hrem, hrec, hact, htl⟩ := h.carried
  refine ⟨ha ▸ h.born, ?_, rest, rem, ?_, ?_, ?_, fun hb => ⟨?_, fun n hn => ?_⟩⟩
  · rw [ha, ht]
    exact h.newer
  · rw [trace_congr hst, hrem]
  · rw [hof]
    exact hrec
  · rw [ha]
    exact hact
  · rw [ht]
    exact (htl (ha ▸ hb)).1
  · have hb : s.gate.active_batch_id = b := ha ▸ hb
    refine h.stays hlife hcalm hmove hb ((htl hb).1.symm ▸ hn) ?_
    rw [ht]
    exact List.ne_cons_self

/-- A newer batch starts with an empty tail, so the older one has nobody left to
resume; and the newer one cannot list what the older one has resumed. -/
theorem outlived {b : Nat} {ids : List Nat} (h : s.Live b ids) (hlife : s.Lifecycle)
    {caller : AccountId} {deposit first : Nat} {ids' : Vec Nat} {rest' : List Nat}
    {new : InFlight} (hcall : a.accepted_call d s = some (caller, deposit, .resume_batch_chained ids'))
    (hids' : ids'.toList = first :: rest') (htail : s.gate.batch_chain_tail = [])
    (htail' : s'.gate.batch_chain_tail = rest')
    (hactive : s'.gate.active_batch_id = s.gate.active_batch_id + 1)
    (hrecs : s'.receipts = s.receipts ++ [new])
    (hnew : new.batch = some (s.gate.active_batch_id + 1))
    (hlog : s'.log = s.log ++ [⟨s.block_height, s.gate,
      .accepted caller deposit (.resume_batch_chained ids')⟩]) : s'.Live b ids := by
  obtain ⟨rest, rem, hrem, hrec, hact, htl⟩ := h.carried
  have hids := members_of_carried hrem hrec
  have hborn := h.born
  have hnil : rest = [] := by
    by_contra hne
    have heq := (htl (hact hne)).1
    rw [htail] at heq
    exact hne heq.symm
  have hne : s.gate.active_batch_id + 1 ≠ b := by omega
  have hst : s'.stamps b = s.stamps b := stamps_accepted_ne hlog hne
  have hof : s'.of_batch b = s.of_batch b := by
    refine of_batch_push hrecs ?_
    rw [hnew, ne_eq, Option.some.injEq]
    exact hne
  refine ⟨by omega, fun _ n hn hmem => ?_, rest, rem, ?_, ?_, fun hr => absurd hnil hr,
    fun hb => by omega⟩
  · rw [hnil, List.append_nil] at hids
    have hres : n ∈ s.resumes := (chain_resumes_sublist s b).subset (hids ▸ hmem)
    refine hlife.resumed_gone hres ((Action.batch_checked hcall).2 n ?_)
    rw [hids', ← htail']
    exact List.mem_cons_of_mem _ hn
  · rw [trace_congr hst, hrem]
  · rw [hof]
    exact hrec

/-- Its receipt passes it on, or ends it. -/
theorem passed {b : Nat} {ids : List Nat} (h : s.Live b ids) (hlife : s.Lifecycle)
    (hcalm : undisturbed d ids s₀ a) (hmove : Move d s₀ a s s') {f : InFlight}
    {pre post new : List InFlight} {st : ChainStep} (hsame : SameBatches s s')
    (htail : s'.gate.batch_chain_tail = s.gate.batch_chain_tail) (hf : f.batch = some b)
    (hsplit : s.receipts = pre ++ f :: post) (hrecs : s'.receipts = pre ++ post ++ new)
    (hnew : ∀ g ∈ new, g.batch = f.batch) (hpass : Passes f.receipt st (new.map (·.receipt)))
    (hstamps : s'.stamps b = s.stamps b ++ [(s.block_height, st)]) : s'.Live b ids := by
  obtain ⟨rest, rem, hrem, hone, howes, hact, htl⟩ := h.owes (mem_of_split hsplit) hf
  obtain ⟨rem', rfl, hout⟩ := howes.pass hpass
  refine ⟨hsame.active ▸ h.born, ?_, rest, rem', ?_, ?_, ?_, fun hb => ⟨?_, fun n hn => ?_⟩⟩
  · rw [hsame.active, htail]
    exact h.newer
  · rw [trace_append hstamps, List.append_assoc, ← hrem]
    rfl
  · rw [of_batch_same hsplit hrecs hnew hf hone]
    rcases hout with ⟨hnil, hrest, hrem'⟩ | ⟨r, hr, howes'⟩
    · exact .inl ⟨List.map_eq_nil_iff.1 hnil, hrest, hrem'⟩
    · obtain ⟨k, rfl, rfl⟩ := List.map_eq_singleton_iff.1 hr
      exact .inr ⟨k, rfl, howes'⟩
  · rw [hsame.active]
    exact hact
  · rw [htail]
    exact (htl (hsame.active ▸ hb)).1
  · have hb : s.gate.active_batch_id = b := hsame.active ▸ hb
    refine h.stays hlife hcalm hmove hb ((htl hb).1.symm ▸ hn) ?_
    rw [htail]
    exact List.ne_cons_self

/-- Its own `continue_chain` pops the tail and goes on with the rest. -/
theorem popped {b : Nat} {ids : List Nat} (h : s.Live b ids) (hlife : s.Lifecycle)
    (hnodup : ids.Nodup) (hcalm : undisturbed d ids s₀ a) (hmove : Move d s₀ a s s')
    {pre post : List InFlight} {id seq created : Nat} {rest' : List Nat} {y : YieldId}
    {args : CallbackArgs} {gas : Nat} (hsame : SameBatches s s')
    (hsplit : s.receipts = pre ++ ⟨.continue_chain id seq, some b, created⟩ :: post)
    (htail : s.gate.batch_chain_tail = id :: rest') (htail' : s'.gate.batch_chain_tail = rest')
    (hrecs : s'.receipts = pre ++ post ++
      [⟨.callback y args gas (.ok ⟨true, some seq, rest'.head?⟩), some b, s.block_height⟩])
    (hid : args.intent_id = id)
    (hstamps : s'.stamps b = s.stamps b ++ [(s.block_height, .resumed id seq)]) : s'.Live b ids := by
  obtain ⟨rest, rem, hrem, hone, howes, hact, htl⟩ := h.owes (mem_of_split hsplit) rfl
  have hids := members_of_carried hrem (.inr ⟨_, hone, howes⟩)
  have hof := of_batch_same hsplit hrecs (batch_of_singleton _) rfl hone
  cases howes with
  | @to_continue _ _ rest₁ =>
    have hactive := hact (List.cons_ne_nil _ _)
    obtain rfl : rest' = rest₁ := by
      have heq := (htl hactive).1
      rw [htail] at heq
      exact (List.cons.inj heq).2
    have hdisj : (id :: rest').Nodup := (hids ▸ hnodup).of_append_right
    have howes : Owes (.callback y args gas (.ok ⟨true, some seq, rest'.head?⟩)) rest' _ :=
      .callback rfl rfl rfl
    refine ⟨hsame.active ▸ h.born, fun hlt => ?_, rest', _, ?_, .inr ⟨_, hof, howes⟩,
      fun _ => hsame.active.trans hactive, fun _ => ⟨htail', fun n hn => ?_⟩⟩
    · rw [hsame.active, hactive] at hlt
      exact absurd hlt (Nat.lt_irrefl _)
    · rw [trace_append hstamps, List.append_assoc, ← hrem, hid]
      rfl
    · -- the others stay: the list names the popped member once
      have hmem : n ∈ s.gate.batch_chain_tail := htail ▸ List.mem_cons_of_mem _ hn
      refine h.stays hlife hcalm hmove hactive hmem ?_
      intro heq
      rw [htail, List.cons.injEq] at heq
      exact (List.nodup_cons.1 hdisj).1 (heq.1 ▸ hn)

/-- Another batch pops its own tail: then this one is not the newest, and all of it is
resumed. -/
theorem passed_over {b : Nat} {ids : List Nat} (h : s.Live b ids)
    (hnot : s.gate.active_batch_id ≠ b) {id : Nat} {rest' : List Nat} (hsame : SameBatches s s')
    (htail : s.gate.batch_chain_tail = id :: rest') (htail' : s'.gate.batch_chain_tail = rest')
    (hst : s'.stamps b = s.stamps b) (hof : s'.of_batch b = s.of_batch b) : s'.Live b ids := by
  obtain ⟨rest, rem, hrem, hrec, hact, -⟩ := h.carried
  have hnil : rest = [] := by
    by_contra hne
    exact hnot (hact hne)
  refine ⟨hsame.active ▸ h.born, fun hlt n hn => ?_, rest, rem, ?_, ?_,
    fun hr => absurd hnil hr, fun hactive => absurd (hsame.active ▸ hactive) hnot⟩
  · refine h.newer (hsame.active ▸ hlt) n ?_
    rw [htail]
    exact List.mem_cons_of_mem _ (htail' ▸ hn)
  · rw [trace_congr hst, hrem]
  · rw [hof]
    exact hrec

/-- **A live batch stays live** while nothing disturbs it and no receipt of another
batch pops its tail. -/
theorem move {b : Nat} {ids : List Nat} (h : s.Live b ids) (hlife : s.Lifecycle)
    (hnodup : ids.Nodup) (hcalm : undisturbed d ids s₀ a)
    (hown : s₀.gate.active_batch_id = b → ∀ f ∈ a.receipt s₀, f.batch ≠ some b →
      ∀ n, f.receipt.next = some n → n ∉ s₀.gate.batch_chain_tail)
    (hmove : Move d s₀ a s s') : s'.Live b ids := by
  cases relay_of_move hlife hmove with
  | still hst htail =>
    exact h.keep hlife hcalm hmove hst.active htail (hst.stamps b) (hst.of_batch b)
  | reset hst hcall htail => exact absurd ⟨_, _, hcall⟩ hcalm.1
  | forge hforges => exact absurd hforges hcalm.not_forges
  | start hcall hids' htail htail' hactive hnow hrecs hid hlog =>
    exact h.outlived hlife hcall hids' htail htail' hactive hrecs rfl hlog
  | @pass _ _ f pre post st new hsame htail hexec hblock hsplit hrecs hnew hpass hcreated hstamps =>
    have hst := hstamps b
    by_cases hf : f.batch = some b
    · rw [if_pos hf] at hst
      exact h.passed hlife hcalm hmove hsame htail hf hsplit hrecs hnew hpass hst
    · rw [if_neg hf, List.append_nil] at hst
      exact h.keep hlife hcalm hmove hsame.active htail hst (of_batch_other hsplit hrecs hnew hf)
  | @stop _ f pre post hsame htail hsplit hrecs hstops hstamps =>
    by_cases hf : f.batch = some b
    · -- its receipt does not stop: it fits, it owes, and its `continue_chain` returns
      exfalso
      obtain ⟨rest', rem', -, -, howes, -⟩ := h.owes (mem_of_split hsplit) hf
      rcases hstops with hunfit | hno | ⟨id, seq, hr, hcannot⟩
      · exact hunfit hcalm.2.2.1
      · exact hno _ _ howes
      · exact hcannot (h.continues (mem_of_split hsplit) hf hr)
    · have hrecs' : s'.receipts = pre ++ post ++ [] := by rw [hrecs, List.append_nil]
      exact h.keep hlife hcalm hmove hsame.active htail (hstamps b)
        (of_batch_other hsplit hrecs' (fun _ hg => by cases hg) hf)
  | @pop _ pre post id seq created batch rest' y args gas hsame hexec hsplit htail htail' hrecs hid
      hstamps =>
    have hst := hstamps b
    by_cases hb : batch = some b
    · subst hb
      rw [if_pos rfl] at hst
      exact h.popped hlife hnodup hcalm hmove hsame hsplit htail htail' hrecs hid hst
    · rw [if_neg hb, List.append_nil] at hst
      have hnot : s.gate.active_batch_id ≠ b := by
        intro hactive
        refine hown hactive _ hexec hb id rfl ?_
        rw [htail]
        exact List.mem_cons_self
      exact h.passed_over hnot hsame htail htail' hst
        (of_batch_other hsplit hrecs (batch_of_singleton _) hb)

end Live

theorem Apart.move {b : Nat} {ids : List Nat} (h : s.Apart b) (hborn : b ≤ s.gate.active_batch_id)
    (hlife : s.Lifecycle) (hcalm : undisturbed d ids s₀ a) (hmove : Move d s₀ a s s') :
    s'.Apart b := by
  intro hb g hg hgb n hn
  cases relay_of_move hlife hmove with
  | still hst htail =>
    obtain ⟨f, hf, hfn, hfb⟩ := hst.next g hg n hn
    rw [htail]
    exact h (hst.active ▸ hb) f hf (hfb ▸ hgb) n hfn
  | reset hst hcall htail => exact absurd ⟨_, _, hcall⟩ hcalm.1
  | forge hforges => exact absurd hforges hcalm.not_forges
  | start hcall hids htail htail' hactive => omega
  | pass new hsame htail hexec hblock hsplit hrecs hnew hpass =>
    rw [htail]
    rw [hrecs, List.mem_append] at hg
    rcases hg with hg | hg
    · exact h (hsame.active ▸ hb) g (mem_of_without hsplit hg) hgb n hn
    · have hnext := hpass.next g.receipt (List.mem_map.2 ⟨g, hg, rfl⟩)
      rw [hnew g hg] at hgb
      exact h (hsame.active ▸ hb) _ (mem_of_split hsplit) hgb n (hnext ▸ hn)
  | stop hsame htail hsplit hrecs =>
    rw [htail]
    rw [hrecs] at hg
    exact h (hsame.active ▸ hb) g (mem_of_without hsplit hg) hgb n hn
  | pop hsame hexec hsplit htail htail' hrecs =>
    have hb := hsame.active ▸ hb
    rw [hrecs, List.mem_append, List.mem_singleton] at hg
    rcases hg with hg | rfl
    · intro hmem
      refine h hb g (mem_of_without hsplit hg) hgb n hn ?_
      rw [htail]
      exact List.mem_cons_of_mem _ (htail' ▸ hmem)
    · -- no receipt of another batch pops this tail
      refine absurd ?_ (h hb _ (mem_of_split hsplit) hgb _ rfl)
      rw [htail]
      exact List.mem_cons_self

/-- A move that logs an accepted list starts a batch. -/
theorem started {caller : AccountId} {deposit : Nat} {ids : Vec Nat} (hlife : s.Lifecycle)
    (hmove : Move d s a s s') (hlog : s'.log = s.log ++
      [⟨s.block_height, s.gate, .accepted caller deposit (.resume_batch_chained ids)⟩]) :
    ∃ first rest y args gas, ids.toList = first :: rest ∧ args.intent_id = first ∧
      s'.gate.batch_chain_tail = rest ∧
      s'.gate.active_batch_id = s.gate.active_batch_id + 1 ∧
      s'.receipts = s.receipts ++ [⟨.callback y args gas (.ok ⟨true, some 0, rest.head?⟩),
        some (s.gate.active_batch_id + 1), s.block_height⟩] := by
  have hbatches : s'.batches ≠ s.batches := by
    intro h
    have hlen := congrArg List.length ((batches_of_log hlog).symm.trans h)
    simp [Entry.batch] at hlen
  cases relay_of_move hlife hmove with
  | start hcall hids htail htail' hactive hnow hrecs hid hlog' =>
    cases last_event hlog hlog'
    exact ⟨_, _, _, _, _, hids, hid, htail', hactive, hrecs⟩
  | still hst => exact absurd hst.batches hbatches
  | reset hst => exact absurd hst.batches hbatches
  | pass new hsame => exact absurd hsame.batches hbatches
  | stop hsame => exact absurd hsame.batches hbatches
  | pop hsame => exact absurd hsame.batches hbatches
  | forge hforges hsame => exact absurd hsame.batches hbatches

/-- The receipts of a batch that has just started: the first member's callback. -/
theorem Tagged.start {caller : AccountId} {deposit : Nat} {ids : Vec Nat} (h : s.Tagged)
    (hlife : s.Lifecycle) (hmove : Move d s a s s') (hlog : s'.log = s.log ++
      [⟨s.block_height, s.gate, .accepted caller deposit (.resume_batch_chained ids)⟩]) :
    ∃ first rest f rem, ids.toList = first :: rest ∧ s'.gate.batch_chain_tail = rest ∧
      s'.gate.active_batch_id = s.gate.active_batch_id + 1 ∧
      s'.trace (s.gate.active_batch_id + 1) = [.resumed first 0] ∧
      s'.trace (s.gate.active_batch_id + 1) ++ rem = script 0 ids.toList ∧
      s'.of_batch (s.gate.active_batch_id + 1) = [f] ∧ Owes f.receipt rest rem ∧
      s'.receipts = s.receipts ++ [f] := by
  obtain ⟨first, rest, y, args, gas, hids, hid, htail, hactive, hrecs⟩ := started hlife hmove hlog
  have htrace : s'.trace (s.gate.active_batch_id + 1) = [.resumed first 0] := by
    rw [trace, h.stamps_accepted hlog hids]
    rfl
  have howes : Owes (.callback y args gas (.ok ⟨true, some 0, rest.head?⟩)) rest _ :=
    .callback rfl rfl rfl
  refine ⟨first, rest, _, _, hids, htail, hactive, htrace, ?_, h.of_batch_accepted hrecs rfl,
    howes, hrecs⟩
  rw [htrace, hids, hid]
  rfl

/-- An accepted list of open intents is a live batch. -/
theorem Live.start {caller : AccountId} {deposit : Nat} {ids : Vec Nat} (htagged : s.Tagged)
    (hlife : s.Lifecycle) (hnodup : ids.toList.Nodup) (hopen : ∀ id ∈ ids.toList, s.Open id)
    (hlapses : a.lapses s = none) (hmove : Move d s a s s') (hlog : s'.log = s.log ++
      [⟨s.block_height, s.gate, .accepted caller deposit (.resume_batch_chained ids)⟩]) :
    s'.Live s'.gate.active_batch_id ids.toList := by
  obtain ⟨first, rest, f, rem, hids, htail, hactive, htrace, hrem, hone, howes, hrecs⟩ :=
    htagged.start hlife hmove hlog
  rw [hactive]
  refine ⟨Nat.le_of_eq hactive.symm, fun hlt => by omega, rest, rem, hrem, .inr ⟨f, hone, howes⟩,
    fun _ => hactive, fun _ => ⟨htail, fun n hn => ?_⟩⟩
  have hmem : n ∈ ids.toList := hids ▸ List.mem_cons_of_mem _ hn
  rcases open_of_move hlife hmove (hopen n hmem) with ho | ⟨e, hlog', he⟩ | hlap
  · exact ho
  · -- the one intent that the call resumes is the first
    exfalso
    obtain rfl := last_event hlog hlog'
    rw [Event.resume, hids, List.head?_cons, Option.some.injEq] at he
    rw [hids, he, List.nodup_cons] at hnodup
    exact hnodup.1 hn
  · rw [hlapses] at hlap
    cases hlap

/-- It is apart from what was in flight before, when nothing there names a later
member. -/
theorem Apart.start {caller : AccountId} {deposit : Nat} {ids : Vec Nat} (htagged : s.Tagged)
    (hlife : s.Lifecycle) (hfresh : ∀ f ∈ s.receipts, ∀ n ∈ f.receipt.next, n ∉ ids.toList.tail)
    (hmove : Move d s a s s') (hlog : s'.log = s.log ++
      [⟨s.block_height, s.gate, .accepted caller deposit (.resume_batch_chained ids)⟩]) :
    s'.Apart s'.gate.active_batch_id := by
  obtain ⟨first, rest, f, rem, hids, htail, hactive, -, -, hone, -, hrecs⟩ :=
    htagged.start hlife hmove hlog
  intro _ g hg hgb n hn
  rw [htail]
  rw [hrecs, List.mem_append, List.mem_singleton] at hg
  rcases hg with hg | rfl
  · have hnot := hfresh g hg n hn
    rwa [hids] at hnot
  · have hmem : g ∈ s'.of_batch (s.gate.active_batch_id + 1) := by
      rw [hone]
      exact List.mem_singleton.2 rfl
    rw [hactive] at hgb
    exact absurd (mem_of_batch.1 hmem).2 hgb

end Ledger

end SequentialNear
