/-
Where a dispatched call comes from.

The checks are made at submission, the data of the call travels in the yield's
callback arguments, the approval arrives later through one of three resume
sites, and the callback checks nothing. What ties them together is read off the
log: [`Submission`] and [`Entry.approves`] say what one logged call established,
and [`Ledger.Provenance`] says that whatever the ledger still carries (a yield,
a callback in flight, an id in the chain's tail) is backed by such an entry.
Every dispatch then is, at the moment it is made.
-/
import SequentialNear.Exchange
import SequentialNear.Register

set_option autoImplicit false

namespace SequentialNear

open Nep366 Runs

/-! ## What a logged call established -/

/-- The entry is an accepted submission of `delegate`, whose only action is `fc`:
relayed by an account in `relayers` at that moment, signed under the key it
carries, and not expired. -/
structure Submission (d : Deployment) (en : Entry) (delegate : DelegateAction)
    (fc : FunctionCallAction) : Prop where
  accepted : ∃ caller deposit b signature,
    en.event = .accepted caller deposit (.submit_intent b) ∧ caller ∈ en.before.relayers ∧
    SignedDelegateAction.try_from_slice d.host b = .ok ⟨delegate, signature⟩ ∧
    SignedDelegateAction.verify d.host ⟨delegate, signature⟩ = true
  unexpired : en.block < delegate.max_block_height.val
  single : delegate.actions = [.FunctionCall fc]

/-- The intent an entry mints. -/
def Entry.mints (en : Entry) : Option Nat :=
  match en.event with
  | .accepted _ _ (.submit_intent _) => some en.before.next_intent_id
  | _ => none

/-- The entry is a call by the account that was approver at that moment, which
approves `id` alone or as a member of a batch. -/
def Entry.approves (id : Nat) (en : Entry) : Bool :=
  match en.event with
  | .accepted caller _ (.resume_intent i approve) =>
    decide (caller = en.before.approver_id ∧ i = id) && approve
  | .accepted caller _ (.resume_batch_chained ids) =>
    decide (caller = en.before.approver_id ∧ id ∈ ids.toList)
  | _ => false

/-- The entry minted the intent these callback arguments are for, from a
delegate that asked for exactly this call. -/
def Entry.backs (d : Deployment) (args : CallbackArgs) (en : Entry) : Prop :=
  ∃ delegate fc, Submission d en delegate fc ∧
    args = Gate.callback_args en.before.next_intent_id delegate fc

/-- The entry minted the intent `id` that this record is stored for. -/
def Entry.records (d : Deployment) (id : Nat) (p : PendingIntent) (en : Entry) : Prop :=
  ∃ delegate fc env, Submission d en delegate fc ∧ en.before.next_intent_id = id ∧
    env.block_height = en.block ∧ p = Gate.pending_intent env delegate fc

theorem Submission.mints {d : Deployment} {en : Entry} {delegate : DelegateAction}
    {fc : FunctionCallAction} (h : Submission d en delegate fc) :
    en.mints = some en.before.next_intent_id := by
  obtain ⟨caller, deposit, b, signature, he, -⟩ := h.accepted
  simp only [Entry.mints, he]

namespace Ledger

variable {d : Deployment} {s s' s₀ : Ledger} {a : Action}

/-- These callback arguments wait under a yield, or travel in a callback. -/
def Carries (s : Ledger) (args : CallbackArgs) : Prop :=
  (∃ y w, s.yields.lookup y = some w ∧ w.args = args) ∨
  ∃ f ∈ s.receipts, ∃ y gas signal, f.receipt = .callback y args gas signal

/-- The intent is on its way to a dispatch: queued in the tail, or approved with
its callback in flight. -/
def Cleared (s : Ledger) (id : Nat) : Prop :=
  id ∈ s.gate.batch_chain_tail ∨
  ∃ f ∈ s.receipts, ∃ y args gas v, f.receipt = .callback y args gas (.ok v) ∧
    v.approve = true ∧ args.intent_id = id

/-- Everything the ledger still carries is backed by the log. -/
structure Provenance (d : Deployment) (s : Ledger) : Prop where
  minted : s.log.filterMap Entry.mints = List.range s.gate.next_intent_id
  pending : ∀ id p, s.gate.pending.lookup id = some p → ∃ en ∈ s.log, en.records d id p
  carried : ∀ args, s.Carries args → ∃ en ∈ s.log, en.backs d args
  cleared : ∀ id, s.Cleared id → ∃ en ∈ s.log, en.approves id
  released : ∀ id ∈ s.resumed, id ∈ s.resumes

/-! ## What a move can add -/

theorem lookup_of_erase {κ ν : Type} [DecidableEq κ] {m : Map κ ν} {k i : κ} {v : ν}
    (h : (m.erase k).lookup i = some v) : m.lookup i = some v := by
  by_cases hi : i = k
  · subst hi
    rw [AList.lookup_erase] at h
    cases h
  · rwa [AList.lookup_erase_ne hi] at h

theorem Carries.of_without {pre post : List InFlight} {f : InFlight} {args : CallbackArgs}
    (hrecs : s.receipts = pre ++ f :: post) (h : (s.without pre post).Carries args) :
    s.Carries args := by
  rcases h with hy | ⟨g, hg, hc⟩
  · exact .inl hy
  · exact .inr ⟨g, mem_of_without hrecs hg, hc⟩

theorem Cleared.of_without {pre post : List InFlight} {f : InFlight} {id : Nat}
    (hrecs : s.receipts = pre ++ f :: post) (h : (s.without pre post).Cleared id) :
    s.Cleared id := by
  rcases h with ht | ⟨g, hg, hc⟩
  · exact .inl ht
  · exact .inr ⟨g, mem_of_without hrecs hg, hc⟩

/-- Carrying out an action moves callback arguments about; only a new yield
brings new ones. -/
theorem Carries.of_apply {e : Event} {out : Outcome} {deposit : Nat} {batch : Option Nat}
    {spare : Nat} {args : CallbackArgs} (h : (s.apply e out deposit batch spare).Carries args) :
    s.Carries args ∨ out.action = .new_yield args := by
  simp only [Carries, apply_yields, apply_receipts, List.mem_append] at h
  cases hact : out.action with
  | new_yield args' =>
    rcases h with ⟨y, w, hw, rfl⟩ | ⟨f, hf, hc⟩
    · simp only [hact, yields_after] at hw
      by_cases hy : y = s.next_yield
      · subst hy
        rw [AList.lookup_insert] at hw
        cases hw
        exact .inr rfl
      · rw [AList.lookup_insert_ne hy] at hw
        exact .inl (.inl ⟨y, w, hw, rfl⟩)
    · simp only [hact, created, List.not_mem_nil, or_false] at hf
      exact .inl (.inr ⟨f, hf, hc⟩)
  | resume y signal =>
    left
    rcases h with ⟨z, w, hw, hargs⟩ | ⟨f, hf, hc⟩
    · simp only [hact, yields_after] at hw
      exact .inl ⟨z, w, lookup_of_erase hw, hargs⟩
    · rcases hf with hf | hf
      · exact .inr ⟨f, hf, hc⟩
      · simp only [hact, created] at hf
        split at hf
        · rename_i w hw
          obtain rfl := List.mem_singleton.1 hf
          obtain ⟨z, gas, sig, hc⟩ := hc
          cases hc
          exact .inl ⟨y, w, hw, rfl⟩
        · cases hf
  | none =>
    simp only [hact, yields_after, created, List.not_mem_nil, or_false] at h
    exact .inl h
  | function_call | transfer =>
    left
    rcases h with hy | ⟨f, hf | hf, y, gas, signal, hc⟩
    · simp only [hact, yields_after] at hy
      exact .inl hy
    · exact .inr ⟨f, hf, y, gas, signal, hc⟩
    · simp only [hact, created, List.mem_singleton] at hf
      subst hf
      cases hc

/-- Carrying out an action clears what the new tail lists and what it resumes. -/
theorem Cleared.of_apply {e : Event} {out : Outcome} {deposit : Nat} {batch : Option Nat}
    {spare id : Nat} (h : (s.apply e out deposit batch spare).Cleared id) :
    (∃ f ∈ s.receipts, ∃ y args gas v, f.receipt = .callback y args gas (.ok v) ∧
      v.approve = true ∧ args.intent_id = id) ∨
    id ∈ out.gate.batch_chain_tail ∨
    ∃ y v w, out.action = .resume y v ∧ v.approve = true ∧ s.yields.lookup y = some w ∧
      w.args.intent_id = id := by
  simp only [Cleared, apply_gate, apply_receipts, List.mem_append] at h
  rcases h with ht | ⟨f, hf | hf, hc⟩
  · exact .inr (.inl ht)
  · exact .inl ⟨f, hf, hc⟩
  · obtain ⟨y, args, gas, v, hr, hv, hid⟩ := hc
    cases hact : out.action with
    | none => simp only [hact, created, List.not_mem_nil] at hf
    | new_yield args' => simp only [hact, created, List.not_mem_nil] at hf
    | resume z signal =>
      simp only [hact, created] at hf
      split at hf
      · rename_i w hw
        obtain rfl := List.mem_singleton.1 hf
        cases hr
        exact .inr (.inr ⟨_, _, w, rfl, hv, hw, hid⟩)
      · cases hf
    | function_call n call and_then =>
      simp only [hact, created, List.mem_singleton] at hf
      subst hf
      cases hr
    | transfer to_id amount =>
      simp only [hact, created, List.mem_singleton] at hf
      subst hf
      cases hr

/-! ## Accepted calls -/

/-- The entries of a longer log back what those of a shorter one did. -/
theorem backed_mono {P : Entry → Prop} {l l' : List Entry} (hl : l <+: l')
    (h : ∃ en ∈ l, P en) : ∃ en ∈ l', P en := by
  obtain ⟨en, hmem, hp⟩ := h
  exact ⟨en, hl.subset hmem, hp⟩

theorem backed_last {P : Entry → Prop} {l : List Entry} {en : Entry} (h : P en) :
    ∃ e ∈ l ++ [en], P e :=
  ⟨en, List.mem_append_right _ (List.mem_singleton.2 rfl), h⟩

/-- The logged event of a gate call that returned: the call itself, or the
`.then` callback. -/
inductive Event.LogsCall (caller : AccountId) (deposit : Nat) : GateCall → Event → Prop
  | call (c : GateCall) : Event.LogsCall caller deposit c (.accepted caller deposit c)
  | then_callback (id seq : Nat) (batch : Option Nat) :
      Event.LogsCall caller deposit (.continue_chain id seq) (.continued id seq batch)

namespace Provenance

/-- A call that mints nothing logs no submission. -/
theorem mints_none {c : GateCall} {caller : AccountId} {deposit block : Nat} {g : Gate} {e : Event}
    (he : Event.LogsCall caller deposit c e) (hc : ∀ b, c ≠ .submit_intent b) :
    (⟨block, g, e⟩ : Entry).mints = none := by
  cases he with
  | call =>
    cases c with
    | submit_intent b => exact absurd rfl (hc b)
    | _ => rfl
  | then_callback => rfl

/-- What a receipt that mints no intent has to show: it writes no new record, and
whatever it queues or resumes was cleared before or is approved by itself. -/
theorem apply (h : s.Provenance d) {e : Event} {out : Outcome} {deposit : Nat}
    {batch : Option Nat} {spare : Nat}
    (hmint : (⟨s.block_height, s.gate, e⟩ : Entry).mints = none)
    (hnext : out.gate.next_intent_id = s.gate.next_intent_id)
    (hpend : ∀ id p, out.gate.pending.lookup id = some p → s.gate.pending.lookup id = some p)
    (hact : ∀ args, out.action ≠ .new_yield args)
    (htail : ∀ id ∈ out.gate.batch_chain_tail,
      s.Cleared id ∨ (⟨s.block_height, s.gate, e⟩ : Entry).approves id)
    (hres : ∀ y v w, out.action = .resume y v → s.yields.lookup y = some w →
      e.resume = some w.args.intent_id ∧ (v.approve = true →
        s.Cleared w.args.intent_id ∨
          (⟨s.block_height, s.gate, e⟩ : Entry).approves w.args.intent_id)) :
    (s.apply e out deposit batch spare).Provenance d := by
  have hlog : s.log <+: (s.apply e out deposit batch spare).log := by
    rw [apply_log]
    exact List.prefix_append _ _
  -- whatever is queued or resumed was approved earlier, or by the entry being logged
  have hclear : ∀ id, (s.Cleared id ∨ (⟨s.block_height, s.gate, e⟩ : Entry).approves id) →
      ∃ en ∈ (s.apply e out deposit batch spare).log, en.approves id := by
    rintro id (hc | hc)
    · exact backed_mono hlog (h.cleared id hc)
    · rw [apply_log]
      exact backed_last hc
  constructor
  · rw [apply_log, List.filterMap_append, List.filterMap_cons_none hmint, List.filterMap_nil,
      List.append_nil, h.minted, apply_gate, hnext]
  · intro id p hp
    rw [apply_gate] at hp
    exact backed_mono hlog (h.pending id p (hpend id p hp))
  · intro args hc
    rcases hc.of_apply with hc | hnew
    · exact backed_mono hlog (h.carried args hc)
    · exact absurd hnew (hact args)
  · intro id hc
    rcases hc.of_apply with hrec | ht | ⟨y, v, w, ha, hv, hw, rfl⟩
    · exact hclear id (.inl (.inr hrec))
    · exact hclear id (htail id ht)
    · exact hclear _ ((hres y v w ha hw).2 hv)
  · intro id hid
    -- a resumed callback was in flight before, or is the one this action creates
    have hold : id ∈ s.resumed → id ∈ (s.apply e out deposit batch spare).resumes := fun hm => by
      rw [resumes, apply_log, List.filterMap_append]
      exact List.mem_append_left _ (h.released id hm)
    rw [resumed, apply_receipts, List.filterMap_append, List.mem_append] at hid
    rcases hid with hid | hid
    · exact hold hid
    · obtain ⟨f, hf, hfid⟩ := List.mem_filterMap.1 hid
      cases ha : out.action with
      | resume y v =>
        simp only [ha, created] at hf
        split at hf
        · rename_i w hw
          obtain rfl := List.mem_singleton.1 hf
          cases hfid
          rw [resumes, apply_log, List.filterMap_append, List.mem_append]
          exact .inr (List.mem_filterMap.2 ⟨_, List.mem_singleton.2 rfl, (hres y v w ha hw).1⟩)
        · cases hf
      | none => simp only [ha, created, List.not_mem_nil] at hf
      | new_yield args => exact absurd ha (hact args)
      | function_call n call and_then =>
        simp only [ha, created, List.mem_singleton] at hf
        subst hf
        cases hfid
      | transfer to_id amount =>
        simp only [ha, created, List.mem_singleton] at hf
        subst hf
        cases hfid

/-- The one call that mints: the entry it logs is the submission of its intent. -/
theorem submitted (h : s.Provenance d) {b : Borsh.Bytes} {signed : SignedDelegateAction}
    {fc : FunctionCallAction} {caller : AccountId} {deposit dep spare : Nat} {batch : Option Nat}
    {out : Outcome}
    (hsubm : Submission d ⟨s.block_height, s.gate, .accepted caller deposit (.submit_intent b)⟩
      signed.delegate_action fc)
    (hg : out.gate = s.gate.minted (s.env d caller deposit) signed.delegate_action fc)
    (ha : out.action =
      .new_yield (Gate.callback_args s.gate.next_intent_id signed.delegate_action fc)) :
    (s.apply (.accepted caller deposit (.submit_intent b)) out dep batch spare).Provenance d := by
  have hlog : s.log <+: (s.apply (.accepted caller deposit (.submit_intent b)) out dep batch
      spare).log := by
    rw [apply_log]
    exact List.prefix_append _ _
  constructor
  · rw [apply_log, List.filterMap_append, h.minted, apply_gate, hg]
    -- the minted numbers are consecutive
    exact List.range_succ.symm
  · intro id p hp
    rw [apply_gate, hg] at hp
    by_cases hidn : id = s.gate.next_intent_id
    · subst hidn
      simp only [Gate.minted, AList.lookup_insert] at hp
      cases hp
      rw [apply_log]
      exact backed_last ⟨_, _, _, hsubm, rfl, rfl, rfl⟩
    · simp only [Gate.minted, AList.lookup_insert_ne hidn] at hp
      exact backed_mono hlog (h.pending id p hp)
  · intro args hc
    rcases hc.of_apply with hc | hnew
    · exact backed_mono hlog (h.carried args hc)
    · rw [ha, HostAction.new_yield.injEq] at hnew
      rw [apply_log]
      exact backed_last ⟨_, _, hsubm, hnew.symm⟩
  · intro id hc
    rcases hc.of_apply with hrec | ht | ⟨y, v, w, hact, -⟩
    · exact backed_mono hlog (h.cleared id (.inr hrec))
    · rw [hg] at ht
      exact backed_mono hlog (h.cleared id (.inl ht))
    · rw [ha] at hact
      cases hact
  · intro id hid
    simp only [resumed, apply_receipts, created, ha, List.append_nil] at hid
    rw [resumes, apply_log, List.filterMap_append]
    exact List.mem_append_left _ (h.released id hid)

/-- Every gate call keeps the provenance of what the ledger carries. -/
theorem called (h : s.Provenance d) (hlife : s.Lifecycle) {c : GateCall} {caller : AccountId}
    {deposit dep spare : Nat} {batch : Option Nat} {out : Outcome} {e : Event}
    (he : Event.LogsCall caller deposit c e)
    (heff : CallEffect d.host (s.env d caller deposit) s.gate c out.gate out.action) :
    (s.apply e out dep batch spare).Provenance d := by
  generalize hg : out.gate = g' at heff
  generalize ha : out.action = act at heff
  cases heff with
  | admin hc frame hact =>
    refine h.apply (mints_none he ?_) ?_ ?_ ?_ ?_ ?_
    · rintro b rfl
      cases hc
    · rw [hg, frame.next_intent_id]
    · rw [hg, frame.pending]
      exact fun _ _ hp => hp
    · rcases hact with rfl | ⟨to_id, amount, rfl⟩ <;> simp [ha]
    · rw [hg, frame.batch_chain_tail]
      exact fun id hid => .inl (.inl hid)
    · rcases hact with rfl | ⟨to_id, amount, rfl⟩ <;> simp [ha]
  | reset howner =>
    refine h.apply (mints_none he (fun b => GateCall.noConfusion)) ?_ ?_ ?_ ?_ ?_
    · rw [hg]
    · rw [hg]
      exact fun _ _ hp => hp
    · simp [ha]
    · simp [hg]
    · simp [ha]
  | @submit b signed fc hrel hdec hver hexp hnonce hfc hid hsub =>
    cases he
    exact h.submitted
      ⟨⟨caller, deposit, b, signed.signature, rfl, hrel, hdec, hver⟩, hexp, hfc⟩ hg ha
  | @resume id approve tier p happr htier hdep hfee hp hopen =>
    cases he
    refine h.apply rfl ?_ ?_ ?_ ?_ ?_
    · rw [hg]
    · rw [hg]
      exact fun _ _ hp => lookup_of_erase hp
    · simp [ha]
    · rw [hg]
      exact fun id hid => .inl (.inl hid)
    · intro y v w hact hw
      rw [ha, HostAction.resume.injEq] at hact
      obtain ⟨rfl, rfl⟩ := hact
      rw [hlife.resume_same hp hw]
      -- a call with `approve` unset resumes too, but approves nothing
      refine ⟨rfl, fun hv => .inr ?_⟩
      exact Bool.and_eq_true_iff.2 ⟨decide_eq_true ⟨happr, rfl⟩, hv⟩
  | @batch ids first rest tier p happr htail hids htier hdep hfee hknown hid hp hopen =>
    cases he
    -- the batch approves every member, the one it resumes and those it queues
    have hmem : ∀ id, id = first ∨ id ∈ rest → (⟨s.block_height, s.gate,
        .accepted caller deposit (.resume_batch_chained ids)⟩ : Entry).approves id := fun id hid =>
      decide_eq_true ⟨happr, hids ▸ List.mem_cons.2 hid⟩
    refine h.apply rfl ?_ ?_ ?_ ?_ ?_
    · rw [hg]
    · rw [hg]
      exact fun _ _ hp => lookup_of_erase hp
    · simp [ha]
    · rw [hg]
      exact fun id hid => .inr (hmem id (.inr hid))
    · intro y v w hact hw
      rw [ha, HostAction.resume.injEq] at hact
      obtain ⟨rfl, rfl⟩ := hact
      rw [hlife.resume_same hp hw]
      refine ⟨?_, fun _ => .inr (hmem first (.inl rfl))⟩
      simp only [Event.resume, hids, List.head?_cons]
  | @chain next_id next_seq rest p hpriv hfree htail hp hopen =>
    -- no approver here: the tail was cleared when the batch was accepted
    have hres : e.resume = some next_id := by cases he <;> rfl
    refine h.apply (mints_none he (fun b => GateCall.noConfusion)) ?_ ?_ ?_ ?_ ?_
    · rw [hg]
    · rw [hg]
      exact fun _ _ hp => lookup_of_erase hp
    · simp [ha]
    · rw [hg]
      exact fun id hid => .inl (.inl (htail ▸ List.mem_cons_of_mem _ hid))
    · intro y v w hact hw
      rw [ha, HostAction.resume.injEq] at hact
      obtain ⟨rfl, rfl⟩ := hact
      rw [hlife.resume_same hp hw]
      exact ⟨hres, fun _ => .inl (.inl (htail ▸ List.mem_cons_self))⟩

/-- A move that changes no contract state, carries nothing new, and logs at most
an event that is no gate call. -/
theorem quiet (h : s.Provenance d) (hgate : s'.gate = s.gate) (hlog : s.log <+: s'.log)
    (hmint : s'.log.filterMap Entry.mints = s.log.filterMap Entry.mints)
    (hcarried : ∀ args, s'.Carries args → s.Carries args)
    (hcleared : ∀ id, s'.Cleared id → s.Cleared id)
    (hresumed : ∀ id ∈ s'.resumed, id ∈ s.resumed) : s'.Provenance d where
  minted := by rw [hmint, hgate, h.minted]
  pending id p hp := backed_mono hlog (h.pending id p (by rwa [hgate] at hp))
  carried args hc := backed_mono hlog (h.carried args (hcarried args hc))
  cleared id hc := backed_mono hlog (h.cleared id (hcleared id hc))
  released id hid := (hlog.sublist.filterMap _).subset (h.released id (hresumed id hid))

theorem resumed_without {pre post : List InFlight} {f : InFlight} {id : Nat}
    (hrecs : s.receipts = pre ++ f :: post) (h : id ∈ (s.without pre post).resumed) :
    id ∈ s.resumed := by
  obtain ⟨g, hg, hid⟩ := List.mem_filterMap.1 h
  exact List.mem_filterMap.2 ⟨g, mem_of_without hrecs hg, hid⟩

theorem without (h : s.Provenance d) {pre post : List InFlight} {f : InFlight}
    (hrecs : s.receipts = pre ++ f :: post) : (s.without pre post).Provenance d :=
  h.quiet rfl (List.prefix_refl _) rfl (fun _ hc => hc.of_without hrecs)
    (fun _ hc => hc.of_without hrecs) (fun _ hid => resumed_without hrecs hid)

theorem record (h : s.Provenance d) {e : Event}
    (hmint : (⟨s.block_height, s.gate, e⟩ : Entry).mints = none) : (s.record e).Provenance d :=
  h.quiet rfl (List.prefix_append _ _)
    (by rw [record_log, List.filterMap_append, List.filterMap_cons_none hmint, List.filterMap_nil,
      List.append_nil])
    (fun _ hc => hc) (fun _ hc => hc) (fun _ hid => hid)

/-- A receipt that is no callback can join the queue. -/
theorem queue (h : s.Provenance d) {f : InFlight} (hgate : s'.gate = s.gate)
    (hyields : s'.yields = s.yields) (hlog : s'.log = s.log)
    (hrecs : s'.receipts = s.receipts ++ [f])
    (hf : ∀ y args gas signal, f.receipt ≠ .callback y args gas signal) : s'.Provenance d := by
  refine h.quiet hgate (hlog ▸ List.prefix_refl _) (by rw [hlog]) ?_ ?_ ?_
  · rintro args (⟨y, w, hw, hargs⟩ | ⟨g, hg, y, gas, signal, hc⟩)
    · exact .inl ⟨y, w, hyields ▸ hw, hargs⟩
    · rw [hrecs, List.mem_append, List.mem_singleton] at hg
      rcases hg with hg | rfl
      · exact .inr ⟨g, hg, y, gas, signal, hc⟩
      · exact absurd hc (hf _ _ _ _)
  · rintro id (ht | ⟨g, hg, y, args, gas, v, hc, hv⟩)
    · exact .inl (hgate ▸ ht)
    · rw [hrecs, List.mem_append, List.mem_singleton] at hg
      rcases hg with hg | rfl
      · exact .inr ⟨g, hg, y, args, gas, v, hc, hv⟩
      · exact absurd hc (hf _ _ _ _)
  · intro id hid
    obtain ⟨g, hg, hgid⟩ := List.mem_filterMap.1 hid
    rw [hrecs, List.mem_append, List.mem_singleton] at hg
    rcases hg with hg | rfl
    · exact List.mem_filterMap.2 ⟨g, hg, hgid⟩
    · cases hr : g.receipt with
      | callback y args gas signal => exact absurd hr (hf _ _ _ _)
      | _ =>
        rw [hr] at hgid
        cases hgid

/-- A timed-out callback carries what its yield carried. -/
theorem time_out (h : s.Provenance d) {y : YieldId} {w : OpenYield}
    (hw : s.yields.lookup y = some w) : (s.time_out y w).Provenance d := by
  have hrec : (s.record (.timed_out w.args.intent_id)).Provenance d := h.record rfl
  refine hrec.quiet rfl (List.prefix_refl _) rfl ?_ ?_ ?_
  · rintro args (⟨z, v, hv, hargs⟩ | ⟨g, hg, z, gas, signal, hc⟩)
    · exact .inl ⟨z, v, lookup_of_erase hv, hargs⟩
    · simp only [Ledger.time_out, push_receipts, record_receipts, List.mem_append,
        List.mem_singleton] at hg
      rcases hg with hg | rfl
      · exact .inr ⟨g, hg, z, gas, signal, hc⟩
      · cases hc
        exact .inl ⟨y, w, hw, rfl⟩
  · rintro id (ht | ⟨g, hg, z, args, gas, v, hc, hv⟩)
    · exact .inl ht
    · simp only [Ledger.time_out, push_receipts, record_receipts, List.mem_append,
        List.mem_singleton] at hg
      rcases hg with hg | rfl
      · exact .inr ⟨g, hg, z, args, gas, v, hc, hv⟩
      · cases hc
  · intro id hid
    simpa [Ledger.time_out, resumed, Receipt.resumed] using hid

/-- **Every move keeps the provenance of what the ledger carries.** -/
theorem move (h : s.Provenance d) (hlife : s.Lifecycle) (hmove : Move d s₀ a s s') :
    s'.Provenance d := by
  cases hmove with
  | advance ha =>
    exact h.quiet rfl (List.prefix_refl _) rfl (fun _ hc => hc) (fun _ hc => hc)
      (fun _ hid => hid)
  | refused hcall => exact h.record rfl
  | @called caller deposit spare c out hcall hacc hcaller hspare heff =>
    exact h.called hlife (.call c) heff
  | timed_out ha hw => exact h.time_out hw
  | @resumed i burnt y args gas signal batch created pre post out ha htake hret hfits =>
    obtain ⟨_, _, hg⟩ := resumed_gate hret
    have hact := resumed_action hret
    -- a callback erases from `pending` and schedules a call; it queues and resumes nothing
    refine (h.without htake.split).apply ?_ ?_ ?_ ?_ ?_ ?_
    · rcases callback_event_cases batch hret with ⟨_, he⟩ | ⟨_, he⟩ <;> rw [he] <;> rfl
    · rw [hg]
      rfl
    · rw [hg]
      exact fun _ _ hp => lookup_of_erase hp
    · rcases hact with hact | ⟨_, hact⟩ <;> simp [hact]
    · rw [hg]
      exact fun id hid => .inl (.inl hid)
    · rcases hact with hact | ⟨_, hact⟩ <;> simp [hact]
  | aborted ha htake hfail => exact (h.without htake.split).record rfl
  | @ran _ id call and_then batch created pre post ok hf hblock hrecs =>
    have hrec : ((s.without pre post).record (.executed id call ok batch)).Provenance d :=
      (h.without hrecs).record rfl
    exact hrec.queue rfl rfl rfl rfl (fun _ _ _ _ => Receipt.noConfusion)
  | @finished i success id call and_then batch created pre post ha htake =>
    have hrec : ((s.without pre post).record (.finished id success batch)).Provenance d :=
      (h.without htake.split).record rfl
    cases and_then with
    | none => exact hrec
    | some next => exact hrec.queue rfl rfl rfl rfl (fun _ _ _ _ => Receipt.noConfusion)
  | @continued i next_id next_seq batch created pre post out ha htake heff =>
    exact (h.without htake.split).called (hlife.without htake.split rfl rfl)
      (.then_callback next_id next_seq batch) heff
  | continue_failed ha htake hfail => exact (h.without htake.split).record rfl
  | @settled i success to_id amount batch created pre post ha htake =>
    have hrec : ((s.without pre post).record (.transferred to_id amount success)).Provenance d :=
      (h.without htake.split).record rfl
    unfold Ledger.settle
    split
    · exact hrec
    · exact hrec.quiet rfl (List.prefix_refl _) rfl (fun _ hc => hc) (fun _ hc => hc)
        (fun _ hid => hid)

theorem init (owner_id approver_id : AccountId) (balance block_height : Nat) :
    (Ledger.init owner_id approver_id balance block_height).Provenance d where
  minted := rfl
  pending id p hp := by cases hp
  carried args hc := by
    rcases hc with ⟨y, w, hw, -⟩ | ⟨f, hf, -⟩
    · cases hw
    · cases hf
  cleared id hc := by
    rcases hc with ht | ⟨f, hf, -⟩
    · cases ht
    · cases hf
  released id hid := by cases hid

end Provenance

end Ledger

theorem Reachable.provenance {d : Deployment} {s : Ledger} (h : Reachable d s) :
    s.Provenance d := by
  let I : Ledger → Prop := fun t => t.Lifecycle ∧ t.Provenance d
  have hinv : I s := by
    refine h.invariant I (fun _ _ _ _ => ⟨.init _ _ _ _, .init _ _ _ _⟩) ?_
    intro s₀ a t t' ht hmove
    exact ⟨ht.1.move hmove, ht.2.move ht.1 hmove⟩
  exact hinv.2

/-! ## Every dispatch, at the moment it is made -/

/-- What stands in the log before a dispatch. -/
def Traced (d : Deployment) (before : List Entry) (en : Entry) : Prop :=
  ∀ id call seq batch, en.event = .dispatched id call seq batch →
    (∃ args, args.intent_id = id ∧ args.toFunctionCall = call ∧
      ∃ sub ∈ before, sub.backs d args) ∧
    (∃ ap ∈ before, ap.approves id) ∧ id ∈ before.filterMap (·.event.resume)

theorem Reachable.traced {d : Deployment} {s : Ledger} (h : Reachable d s) :
    Along (Traced d) s.log := by
  let I : Ledger → Prop := fun t => t.Lifecycle ∧ t.Provenance d ∧ Along (Traced d) t.log
  have hinv : I s := by
    refine h.invariant I (fun _ _ _ _ => ⟨.init _ _ _ _, .init _ _ _ _, Along.nil⟩) ?_
    rintro s₀ a t t' ⟨hlife, hprov, halong⟩ hmove
    refine ⟨hlife.move hmove, hprov.move hlife hmove, hmove.along halong ?_⟩
    -- the dispatching callback was in flight, so the invariant speaks of its arguments
    rintro _ - hcause id call seq batch rfl
    obtain ⟨f, hf, -, y, args, gas, v, hr, hv, rfl, rfl, -⟩ := hcause
    exact ⟨⟨args, rfl, rfl, hprov.carried args (.inr ⟨f, hf, y, gas, _, hr⟩)⟩,
      hprov.cleared _ (.inr ⟨f, hf, y, args, gas, v, hr, hv, rfl⟩),
      hprov.released _ (List.mem_filterMap.2 ⟨f, hf, by rw [hr]; rfl⟩)⟩
  exact hinv.2.2

/-- The submission behind a dispatch is the only one of its intent. -/
theorem Reachable.one_submission {d : Deployment} {s : Ledger} (h : Reachable d s)
    {pre post : List Entry} {en sub : Entry} {args : CallbackArgs}
    (hlog : s.log = pre ++ en :: post) (hsub : sub ∈ pre) (hback : sub.backs d args) :
    ∃ l r, pre = l ++ sub :: r ∧
      ∀ en' ∈ l ++ r ++ en :: post, en'.mints ≠ some args.intent_id := by
  obtain ⟨l, r, rfl⟩ := List.append_of_mem hsub
  obtain ⟨delegate, fc, hs, rfl⟩ := hback
  refine ⟨l, r, rfl, ?_⟩
  -- no number is minted twice, so no other entry mints this one
  have hnodup : (s.log.filterMap Entry.mints).Nodup := by
    rw [h.provenance.minted]
    exact List.nodup_range
  have hsplit : s.log = l ++ sub :: (r ++ en :: post) := by
    rw [hlog, List.append_assoc, List.cons_append]
  rw [List.append_assoc]
  exact unique_of_nodup_filterMap hnodup hsplit hs.mints

/-- An intent that was released was released once. -/
theorem Reachable.one_release {d : Deployment} {s : Ledger} (h : Reachable d s) {id : Nat}
    (hid : id ∈ s.resumes) : s.resumes.count id = 1 := by
  have hle := h.lifecycle.books.releases id
  have hpos : 0 < s.resumes.count id := List.count_pos_iff.2 hid
  have heq : s.books.releases.count id = s.resumes.count id := rfl
  unfold Tickets.Books.minted at hle
  split at hle <;> omega

/-- **Provenance of a call.** Every call the gate has issued, executed or still in flight,
was dispatched by the one callback that settled its intent. Before that stands the one
accepted submission that minted the intent, at that moment whitelisted, verified,
unexpired and with a single action, and the call is that action; an approval by whoever
was approver when it was given; and the one call or chain step that resumed the yield. -/
theorem dispatch_provenance {d : Deployment} {s : Ledger} (h : Reachable d s) {id : Nat}
    {call : FunctionCall} (hissued : (id, call) ∈ s.calls_issued) :
    ∃ pre en post seq batch, s.log = pre ++ en :: post ∧
      en.event = .dispatched id call seq batch ∧
      (∀ en' ∈ pre ++ post, en'.event.fate.map Prod.fst ≠ some id) ∧
      (∃ l sub r delegate fc, pre = l ++ sub :: r ∧ Submission d sub delegate fc ∧
        sub.mints = some id ∧ (∀ en' ∈ l ++ r ++ en :: post, en'.mints ≠ some id) ∧
        call = ⟨delegate.receiver_id, fc.method_name, fc.args, fc.deposit, fc.gas⟩) ∧
      (∃ ap ∈ pre, ap.approves id) ∧
      id ∈ pre.filterMap (·.event.resume) ∧ s.resumes.count id = 1 := by
  obtain ⟨pre, en, post, seq, batch, hlog, hen, hother⟩ := h.issued_dispatched hissued
  obtain ⟨⟨args, rfl, rfl, sub, hsub, hback⟩, hap, hres⟩ := h.traced pre en post hlog _ _ _ _ hen
  obtain ⟨l, r, hpre, hone⟩ := h.one_submission hlog hsub hback
  obtain ⟨delegate, fc, hs, rfl⟩ := hback
  have hmem : (Gate.callback_args sub.before.next_intent_id delegate fc).intent_id ∈ s.resumes := by
    rw [Ledger.resumes, hlog, List.filterMap_append]
    exact List.mem_append_left _ hres
  exact ⟨pre, en, post, seq, batch, hlog, hen, hother,
    ⟨l, sub, r, delegate, fc, hpre, hs, hs.mints, hone, rfl⟩, hap, hres, h.one_release hmem⟩

section Demo

open SequentialNear.Demo

/-- A batch of both intents, and then the second one approved again by itself,
before its turn in the chain. -/
def approved_twice : List Action :=
  submissions [set11, set22] ++
  [.call approver FEE 0 (.resume_batch_chained first_two),
   .call approver FEE 0 (.resume_intent 1 true), .advance 1, .run_callback 1 0]

theorem approved_twice_run : ∃ s, Run (step deployment) anyAction start s ∧
    s.log.getLast?.bind (·.event.fate) = some (1, .dispatched) ∧
    s.log.dropLast.countP (·.approves 1) = 2 :=
  exists_run_of_exec approved_twice _ (by decide +kernel)

/-- The last entry of a log whose last fate is a dispatch. -/
theorem last_dispatch {log : List Entry} {id : Nat}
    (h : log.getLast?.bind (·.event.fate) = some (id, .dispatched)) :
    ∃ en call seq batch, log = log.dropLast ++ [en] ∧ en.event = .dispatched id call seq batch := by
  obtain ⟨en, hen, hfate⟩ := Option.bind_eq_some_iff.1 h
  obtain ⟨l, hl⟩ := List.getLast?_eq_some_iff.1 hen
  cases he : en.event with
  | dispatched n call seq batch =>
    rw [he] at hfate
    cases hfate
    exact ⟨en, call, seq, batch, by rw [hl, List.dropLast_concat], he⟩
  | _ =>
    rw [he] at hfate
    cases hfate

theorem dispatch_provenance_demo : ∃ s call, Reachable deployment s ∧ (1, call) ∈ s.calls_issued ∧
    ∃ pre post sub delegate fc, s.log = pre ++ post ∧ sub ∈ pre ∧
      Submission deployment sub delegate fc ∧ sub.mints = some 1 ∧
      call = ⟨delegate.receiver_id, fc.method_name, fc.args, fc.deposit, fc.gas⟩ := by
  obtain ⟨s, hrun, hlast, -⟩ := approved_twice_run
  obtain ⟨en, call, seq, batch, hlog, hen⟩ := last_dispatch hlast
  have hs : Reachable deployment s := ⟨_, _, _, _, hrun⟩
  have hissued : (1, call) ∈ s.calls_issued :=
    hs.dispatched_issued (hlog ▸ List.mem_concat_self) hen
  obtain ⟨pre, en', post, _, _, hsplit, -, -, hsource, -⟩ := dispatch_provenance hs hissued
  obtain ⟨l, sub, r, delegate, fc, rfl, hsub, hmints, -, hcall⟩ := hsource
  have hmem : sub ∈ l ++ sub :: r := List.mem_append_right _ List.mem_cons_self
  exact ⟨s, call, hs, hissued, _, _, sub, delegate, fc, hsplit, hmem, hsub, hmints, hcall⟩

/-- Two calls of the approver stand before the call of the second intent is issued. -/
theorem one_approval_fails : ¬ ∀ s, Reachable deployment s → ∀ id call,
    (id, call) ∈ s.calls_issued → ∀ pre en post seq batch, s.log = pre ++ en :: post →
      en.event = .dispatched id call seq batch → pre.countP (·.approves id) = 1 := by
  intro h
  obtain ⟨s, hrun, hlast, hcount⟩ := approved_twice_run
  obtain ⟨en, call, seq, batch, hlog, hen⟩ := last_dispatch hlast
  have hs : Reachable deployment s := ⟨_, _, _, _, hrun⟩
  have hissued : (1, call) ∈ s.calls_issued :=
    hs.dispatched_issued (hlog ▸ List.mem_concat_self) hen
  have hone := h s hs 1 call hissued _ en [] seq batch hlog hen
  rw [hcount] at hone
  cases hone

end Demo

/-! ## The deadline

`max_block_height` is compared with the block once, at submission. It is stored,
and nothing reads it again. -/

/-- The `max_block_height` a submission was signed with. -/
def Entry.signed_expiry (d : Deployment) (en : Entry) : Option Nat :=
  match en.event with
  | .accepted _ _ (.submit_intent b) =>
    match SignedDelegateAction.try_from_slice d.host b with
    | .ok signed => some signed.delegate_action.max_block_height.val
    | .error _ => none
  | _ => none

/-- The `max_block_height` that the delegate of intent `id` was signed with. -/
def Ledger.signed_expiry (d : Deployment) (s : Ledger) (id : Nat) : Option Nat :=
  (s.log.find? fun en => en.mints = some id).bind (·.signed_expiry d)

theorem Submission.signed_expiry {d : Deployment} {en : Entry} {delegate : DelegateAction}
    {fc : FunctionCallAction} (h : Submission d en delegate fc) :
    en.signed_expiry d = some delegate.max_block_height.val := by
  obtain ⟨caller, deposit, b, signature, he, -, hdec, -⟩ := h.accepted
  simp only [Entry.signed_expiry, he, hdec]

theorem Reachable.signed_expiry {d : Deployment} {s : Ledger} (h : Reachable d s) {sub : Entry}
    {delegate : DelegateAction} {fc : FunctionCallAction} (hmem : sub ∈ s.log)
    (hsub : Submission d sub delegate fc) :
    s.signed_expiry d sub.before.next_intent_id = some delegate.max_block_height.val := by
  obtain ⟨l, r, hlog⟩ := List.append_of_mem hmem
  have hnodup : (s.log.filterMap Entry.mints).Nodup := by
    rw [h.provenance.minted]
    exact List.nodup_range
  have hother := unique_of_nodup_filterMap hnodup hlog hsub.mints
  -- `find?` stops at the submission: nothing before it mints the number
  have hnone : l.find? (fun en => en.mints = some sub.before.next_intent_id) = none := by
    rw [List.find?_eq_none]
    intro en hen
    simpa using hother en (List.mem_append_left _ hen)
  rw [Ledger.signed_expiry, hlog, List.find?_append, hnone, Option.none_or,
    List.find?_cons_of_pos (by simpa using hsub.mints), Option.bind_some, hsub.signed_expiry]

/-- Only `submit_intent` looks at the block height. -/
theorem GateCall.run_block_height (host : Host) (env : Env) (g : Gate) (c : GateCall)
    (block_height : Nat) (hc : ∀ b, c ≠ .submit_intent b) :
    c.run host { env with block_height := block_height } g = c.run host env g := by
  cases c with
  | submit_intent b => exact absurd rfl (hc b)
  | _ => rfl

/-- **The deadline is checked at submission**: it is stored as `expires_at_block`,
a dispatched intent was submitted strictly before it, and no other call depends
on the block height it runs at (`on_intent_resumed` is not even given one). -/
theorem expiry_checked_at_submission {d : Deployment} {s : Ledger} (h : Reachable d s) :
    (∀ id p, s.gate.pending.lookup id = some p →
      s.signed_expiry d id = some p.expires_at_block.val ∧
      p.submitted_at_block < p.expires_at_block.val) ∧
    (∀ pre en post id call seq batch, s.log = pre ++ en :: post →
      en.event = .dispatched id call seq batch →
      ∃ height, s.signed_expiry d id = some height ∧
        ∃ sub ∈ pre, sub.mints = some id ∧ sub.block < height) ∧
    ∀ host env g (c : GateCall) block_height, (∀ b, c ≠ .submit_intent b) →
      c.run host { env with block_height := block_height } g = c.run host env g := by
  refine ⟨?_, ?_, GateCall.run_block_height⟩
  · intro id p hp
    obtain ⟨sub, hmem, delegate, fc, env, hsub, rfl, henv, rfl⟩ := h.provenance.pending id p hp
    refine ⟨h.signed_expiry hmem hsub, ?_⟩
    simpa only [Gate.pending_intent, henv] using hsub.unexpired
  · intro pre en post id call seq batch hlog hen
    obtain ⟨⟨args, rfl, rfl, sub, hsub, hback⟩, -⟩ := h.traced pre en post hlog _ _ _ _ hen
    obtain ⟨delegate, fc, hs, rfl⟩ := hback
    have hmem : sub ∈ s.log := hlog ▸ List.mem_append_left _ hsub
    exact ⟨_, h.signed_expiry hmem hs, sub, hsub, hs.mints, hs.unexpired⟩

section Demo

open SequentialNear.Demo

/-- The delegate that expires at 105, submitted at 100 and approved at 110. -/
def held_too_long : List Action :=
  submissions [short_lived] ++
  [.advance 10, .call approver FEE 0 (.resume_intent 0 true), .advance 1, .run_callback 0 0]

theorem held_too_long_run : ∃ s, Run (step deployment) anyAction start s ∧
    s.log.getLast?.bind (·.event.fate) = some (0, .dispatched) ∧
    s.log.getLast?.map (·.block) = some 111 ∧ s.signed_expiry deployment 0 = some 105 :=
  exists_run_of_exec held_too_long _ (by decide +kernel)

theorem expiry_checked_at_submission_demo : ∃ s, Reachable deployment s ∧
    ∃ pre sub, sub ∈ pre ∧ pre <+: s.log ∧ sub.mints = some 0 ∧ sub.block < 105 := by
  obtain ⟨s, hrun, hlast, -, hexp⟩ := held_too_long_run
  obtain ⟨en, call, seq, batch, hlog, hen⟩ := last_dispatch hlast
  have hs : Reachable deployment s := ⟨_, _, _, _, hrun⟩
  obtain ⟨height, hheight, sub, hsub, hmints, hlt⟩ :=
    (expiry_checked_at_submission hs).2.1 _ en [] 0 call seq batch hlog hen
  rw [hexp] at hheight
  cases hheight
  exact ⟨s, hs, _, sub, hsub, ⟨[en], hlog.symm⟩, hmints, hlt⟩

/-- The user's deadline was 105, and the call goes out at 111. -/
theorem expiry_honoured_fails : ¬ ∀ s, Reachable deployment s → ∀ pre en post id call seq batch,
    s.log = pre ++ en :: post → en.event = .dispatched id call seq batch →
    ∀ height, s.signed_expiry deployment id = some height → en.block < height := by
  intro h
  obtain ⟨s, hrun, hlast, hblock, hexp⟩ := held_too_long_run
  obtain ⟨en, call, seq, batch, hlog, hen⟩ := last_dispatch hlast
  have hlt := h s ⟨_, _, _, _, hrun⟩ _ en [] 0 call seq batch hlog hen 105 hexp
  rw [hlog, List.getLast?_concat, Option.map_some, Option.some.injEq] at hblock
  omega

end Demo

end SequentialNear
