/-
In which order, and how far apart, a chained batch goes out.

[`Ledger.Chained`] says that the log follows the script of every batch. Here that
is read off as the list of its dispatches, and timed: between two dispatches of
one batch stand the execution of the first one's target call, the resolution of
its promise, and the `continue_chain` behind it, and all but the resolution are
receipts of their own. No dispatch outside a batch carries a sequence number.

The results are about runs without a reset in which no intent is addressed to
the gate. `Continuation.lean` is about the other ones.
-/
import SequentialNear.Ordering

set_option autoImplicit false

namespace SequentialNear

open Nep366 Runs

/-! ## Dispatches -/

/-- The block, the intent and the sequence number of a dispatch of batch `b`. -/
def Entry.dispatch (b : Nat) (en : Entry) : Option (Nat × Nat × Option Nat) :=
  match en.event with
  | .dispatched id _ seq batch => if batch = some b then some (en.block, id, seq) else none
  | _ => none

/-- The dispatches of batch `b`, in order. -/
def Ledger.dispatches (s : Ledger) (b : Nat) : List (Nat × Nat × Option Nat) :=
  s.log.filterMap (Entry.dispatch b)

/-- The intent and the sequence number of a dispatching step. -/
def ChainStep.dispatch : ChainStep → Option (Nat × Option Nat)
  | .dispatched id seq => some (id, seq)
  | _ => none

/-- The dispatches among stamped steps. -/
def stamped_dispatches (l : List (Nat × ChainStep)) : List (Nat × Nat × Option Nat) :=
  l.filterMap fun p => p.2.dispatch.map fun e => (p.1, e)

theorem Entry.dispatch_eq (b : Nat) (en : Entry) :
    en.dispatch b = ((en.chain_step b).bind ChainStep.dispatch).map fun e => (en.block, e) := by
  obtain ⟨block, before, event⟩ := en
  cases event with
  | accepted caller deposit c =>
    cases c with
    | resume_batch_chained ids =>
      simp only [dispatch, chain_step]
      split
      · cases ids.toList.head? <;> rfl
      · rfl
    | _ => rfl
  | dispatched id call seq batch =>
    simp only [dispatch, chain_step]
    split <;> rfl
  | executed id call success batch | finished id success batch | continued id seq batch =>
    simp only [dispatch, chain_step]
    split <;> rfl
  | _ => rfl

theorem Ledger.dispatches_eq (s : Ledger) (b : Nat) :
    s.dispatches b = stamped_dispatches (s.stamps b) := by
  rw [dispatches, stamped_dispatches, stamps, List.filterMap_filterMap]
  refine List.filterMap_congr fun en _ => ?_
  rw [Entry.dispatch_eq]
  cases en.chain_step b <;> rfl

theorem stamped_dispatches_snd (l : List (Nat × ChainStep)) :
    (stamped_dispatches l).map Prod.snd = (l.map Prod.snd).filterMap ChainStep.dispatch := by
  rw [stamped_dispatches, List.map_filterMap, List.filterMap_map]
  refine List.filterMap_congr fun p _ => ?_
  rw [Function.comp_apply]
  cases p.2.dispatch <;> rfl

/-- A script dispatches its members in order, numbered from its start. -/
theorem script_dispatches (i : Nat) (ids : List Nat) :
    (script i ids).filterMap ChainStep.dispatch = (ids.zipIdx i).map fun p => (p.1, some p.2) := by
  induction ids generalizing i with
  | nil => rfl
  | cons x xs ih =>
    rw [List.zipIdx_cons, List.map_cons, ← ih]
    rfl

theorem zipIdx_take {α : Type*} (l : List α) (n : Nat) : (l.take n).zipIdx = l.zipIdx.take n := by
  refine List.ext_getElem? fun i => ?_
  rw [List.getElem?_zipIdx, List.getElem?_take, List.getElem?_take, List.getElem?_zipIdx]
  split <;> rfl

/-- What a prefix of the script dispatches: the first members, numbered from `0`. -/
theorem dispatches_of_prefix {l : List (Nat × ChainStep)} {ids : List Nat}
    (h : l.map Prod.snd <+: script 0 ids) : ∃ k ≤ ids.length,
      (stamped_dispatches l).map Prod.snd = ((ids.take k).zipIdx).map fun p => (p.1, some p.2) := by
  have hpre := h.filterMap ChainStep.dispatch
  rw [script_dispatches, ← stamped_dispatches_snd] at hpre
  refine ⟨((stamped_dispatches l).map Prod.snd).length, ?_, ?_⟩
  · simpa using hpre.length_le
  · rw [zipIdx_take, List.map_take]
    exact List.prefix_iff_eq_take.1 hpre

/-! ## The pace of a chain -/

/-- Of two steps of a batch the earlier one stands in an earlier block, unless the
later one resolves a promise, which takes no receipt of its own. -/
def Before (p q : Nat × ChainStep) : Prop :=
  p.1 ≤ q.1 ∧ ((∀ id, q.2 ≠ .finished id) → p.1 < q.1)

/-- The first of the steps that follow a script. -/
theorem prefix_cases {l : List (Nat × ChainStep)} {st : ChainStep} {rest : List ChainStep}
    (h : l.map Prod.snd <+: st :: rest) :
    l = [] ∨ ∃ n l', l = (n, st) :: l' ∧ l'.map Prod.snd <+: rest := by
  cases l with
  | nil => exact .inl rfl
  | cons p l =>
    obtain ⟨n, st'⟩ := p
    rw [List.map_cons, List.cons_prefix_cons] at h
    obtain ⟨rfl, h⟩ := h
    exact .inr ⟨n, l, rfl, h⟩

/-- **Three blocks between two dispatches**: the target call, the `continue_chain`
behind it and the next callback each take one. -/
theorem dispatches_apart {i : Nat} {ids : List Nat} {l : List (Nat × ChainStep)}
    (hl : l.map Prod.snd <+: script i ids) (hpace : l.Pairwise Before) :
    (stamped_dispatches l).Pairwise fun p q => p.1 + 3 ≤ q.1 := by
  induction ids generalizing i l with
  | nil =>
    have hnil := List.map_eq_nil_iff.1 (List.prefix_nil.1 hl)
    rw [hnil]
    exact .nil
  | cons x xs ih =>
    -- up to its dispatch the chain has none; before the next one it has one
    obtain rfl | ⟨r, l, rfl, hl₁⟩ := prefix_cases hl
    · exact .nil
    obtain rfl | ⟨n, l, rfl, hl₂⟩ := prefix_cases hl₁
    · exact .nil
    obtain rfl | ⟨e, l, rfl, hl₃⟩ := prefix_cases hl₂
    · exact List.pairwise_singleton _ _
    obtain rfl | ⟨f, l, rfl, hl₄⟩ := prefix_cases hl₃
    · exact List.pairwise_singleton _ _
    -- what each of the four steps says about the blocks after it
    obtain ⟨-, hpace⟩ := List.pairwise_cons.1 hpace
    obtain ⟨hn, hpace⟩ := List.pairwise_cons.1 hpace
    obtain ⟨he, hpace⟩ := List.pairwise_cons.1 hpace
    obtain ⟨hf, hpace⟩ := List.pairwise_cons.1 hpace
    have hrest : (stamped_dispatches l).Pairwise fun p q => p.1 + 3 ≤ q.1 := ih hl₄ hpace
    refine List.pairwise_cons.2 ⟨?_, hrest⟩
    intro q hq
    have hq : q ∈ stamped_dispatches l := hq
    cases xs with
    | nil =>
      have hnil := List.map_eq_nil_iff.1 (List.prefix_nil.1 hl₄)
      rw [hnil] at hq
      cases hq
    | cons x' xs =>
      obtain rfl | ⟨r', l, rfl, -⟩ := prefix_cases hl₄
      · cases hq
      obtain ⟨hr', -⟩ := List.pairwise_cons.1 hpace
      have hq : q ∈ stamped_dispatches l := hq
      obtain ⟨⟨m, st⟩, hmem, hq⟩ := List.mem_filterMap.1 hq
      cases st with
      | dispatched id seq =>
        cases hq
        -- dispatched at `n`, executed at `e`, finished at `f`, the next member resumed at `r'` and
        -- dispatched at `m`
        have h₁ : n < e := (hn _ List.mem_cons_self).2 fun _ => ChainStep.noConfusion
        have h₂ : e ≤ f := (he _ List.mem_cons_self).1
        have h₃ : f < r' := (hf _ List.mem_cons_self).2 fun _ => ChainStep.noConfusion
        have h₄ : r' < m := (hr' _ hmem).2 fun _ => ChainStep.noConfusion
        show n + 3 ≤ m
        omega
      | _ => cases hq

/-- The receiver has executed the call: what is left is to resolve its promise. -/
def Receipt.ran : Receipt → Bool
  | .target_call _ _ _ ran => ran
  | _ => false

/-- The receipt an action executes was created in an earlier block. Resolving the
promise of a call that has run executes none. -/
def Action.later (s : Ledger) (a : Action) : Prop :=
  ∀ f ∈ a.receipt s, f.receipt.ran = true ∨ f.created < s.block_height

instance (s : Ledger) (a : Action) : Decidable (a.later s) :=
  inferInstanceAs (Decidable (∀ f ∈ a.receipt s, f.receipt.ran = true ∨ f.created < s.block_height))

namespace Ledger

variable {d : Deployment} {s s' s₀ : Ledger} {a : Action}

/-- The steps of every batch are paced, and its receipt in flight is younger than
all of them. -/
structure Timed (s : Ledger) : Prop where
  paced : ∀ b, (s.stamps b).Pairwise Before
  past : ∀ b, ∀ p ∈ s.stamps b, p.1 ≤ s.block_height
  after : ∀ f ∈ s.receipts, ∀ b, f.batch = some b →
    f.receipt.ran = true ∨ ∀ p ∈ s.stamps b, p.1 ≤ f.created

namespace Timed

/-- A receipt executed in a later block than it was created in stamps its step
after all others. -/
theorem before (h : s.Timed) {f : InFlight} {b : Nat} {st : ChainStep} (hf : f ∈ s.receipts)
    (hb : f.batch = some b) (hlater : f.receipt.ran = true ∨ f.created < s.block_height)
    (hran : f.receipt.ran = true → ∃ id, st = .finished id) :
    ∀ p ∈ s.stamps b, Before p (s.block_height, st) := by
  intro p hp
  refine ⟨h.past b p hp, fun hst => ?_⟩
  -- the step is no `finished`, so the receipt had not run yet and was executed a block later
  have hnot : f.receipt.ran ≠ true := fun hr => by
    obtain ⟨id, hid⟩ := hran hr
    exact hst id hid
  have hcreated := hlater.resolve_left hnot
  have hp := (h.after f hf b hb).resolve_left hnot p hp
  exact Nat.lt_of_le_of_lt hp hcreated

theorem still (h : s.Timed) (hst : Still s s') : s'.Timed where
  paced b := by
    rw [hst.stamps]
    exact h.paced b
  past b p hp := by
    rw [hst.stamps] at hp
    exact (h.past b p hp).trans hst.now
  after f hf b hb := by
    have hmem : f ∈ s'.of_batch b := mem_of_batch.2 ⟨hf, hb⟩
    rw [hst.of_batch] at hmem
    rw [hst.stamps]
    exact h.after f (mem_of_batch.1 hmem).1 b hb

/-- Replacing the receipt of a batch stamps one step and leaves younger receipts. -/
theorem replace (h : s.Timed) (hchain : s.Chained) {f : InFlight} {pre post new : List InFlight}
    {st : ChainStep} (hnow : s'.block_height = s.block_height)
    (hsplit : s.receipts = pre ++ f :: post) (hrecs : s'.receipts = pre ++ post ++ new)
    (hnew : ∀ g ∈ new, g.batch = f.batch)
    (hcreated : ∀ g ∈ new, g.created = s.block_height ∨ g.receipt.ran = true)
    (hbefore : ∀ b, f.batch = some b → ∀ p ∈ s.stamps b, Before p (s.block_height, st))
    (hstamps : ∀ b, s'.stamps b =
      s.stamps b ++ if f.batch = some b then [(s.block_height, st)] else []) : s'.Timed where
  paced b := by
    rw [hstamps]
    by_cases hb : f.batch = some b
    · rw [if_pos hb, List.pairwise_append]
      refine ⟨h.paced b, List.pairwise_singleton _ _, ?_⟩
      intro p hp q hq
      rw [List.mem_singleton.1 hq]
      exact hbefore b hb p hp
    · rw [if_neg hb, List.append_nil]
      exact h.paced b
  past b p hp := by
    rw [hstamps, List.mem_append] at hp
    rw [hnow]
    rcases hp with hp | hp
    · exact h.past b p hp
    · split at hp
      · rw [List.mem_singleton.1 hp]
      · cases hp
  after g hg b hb := by
    by_cases hfb : f.batch = some b
    · -- the batch has no other receipt than the new ones
      have hmem : g ∈ s'.of_batch b := mem_of_batch.2 ⟨hg, hb⟩
      rw [hchain.replaced hsplit hrecs hnew hfb] at hmem
      refine (hcreated g hmem).symm.imp_right fun hcr p hp => ?_
      rw [hstamps, if_pos hfb, List.mem_append, List.mem_singleton] at hp
      rw [hcr]
      rcases hp with hp | rfl
      · exact h.past b p hp
      · exact Nat.le_refl _
    · rw [hstamps, if_neg hfb, List.append_nil]
      rw [hrecs, List.mem_append] at hg
      rcases hg with hg | hg
      · exact h.after g (mem_of_without hsplit hg) b hb
      · exact absurd ((hnew g hg).symm.trans hb) hfb

/-- **Every relay keeps the pace**, as long as receipts execute in later blocks. -/
theorem relay (h : s.Timed) (hchain : s.Chained) (hforges : ¬ a.forges d s₀)
    (hlater : a.later s₀) (hrelay : Relay d s₀ a s s') : s'.Timed := by
  cases hrelay with
  | still hst htail => exact h.still hst
  | reset hst hcall htail => exact h.still hst
  | @start _ caller deposit first ids rest y args gas hcall hids htail htail' hactive hnow hrecs
      hid hlog =>
    -- the new batch has one step, stamped with this block; no other batch has a new one
    have hother : ∀ b, b ≠ s.gate.active_batch_id + 1 → s'.stamps b = s.stamps b :=
      fun b hb => stamps_accepted_ne hlog (Ne.symm hb)
    have hfirst := hchain.stamps_accepted hlog hids
    constructor
    · intro b
      by_cases hb : b = s.gate.active_batch_id + 1
      · rw [hb, hfirst]
        exact List.pairwise_singleton _ _
      · rw [hother b hb]
        exact h.paced b
    · intro b p hp
      rw [hnow]
      by_cases hb : b = s.gate.active_batch_id + 1
      · rw [hb, hfirst, List.mem_singleton] at hp
        rw [hp]
      · rw [hother b hb] at hp
        exact h.past b p hp
    · intro f hf b hb
      rw [hrecs, List.mem_append, List.mem_singleton] at hf
      rcases hf with hf | rfl
      -- an old receipt cannot be of the new batch
      · have hne : b ≠ s.gate.active_batch_id + 1 := by
          rintro rfl
          obtain ⟨ids', hids'⟩ := hchain.tagged f hf _ hb
          have := hchain.le_active hids'
          omega
        rw [hother b hne]
        exact h.after f hf b hb
      · cases hb
        right
        intro p hp
        rw [hfirst, List.mem_singleton] at hp
        rw [hp]
  | @pass _ _ f pre post st new hsame htail hexec hblock hsplit hrecs hnew hpass hcreated hstamps =>
    refine h.replace hchain hsame.now hsplit hrecs hnew ?_ ?_ hstamps
    · intro g hg
      refine (hcreated g hg).imp_right ?_
      rintro ⟨id, call, and_then, hr⟩
      rw [hr]
      rfl
    · intro b hb
      refine h.before (mem_of_split hsplit) hb (hblock ▸ hlater f hexec) ?_
      intro hran
      generalize hr : f.receipt = r at hpass hran
      generalize new.map (·.receipt) = out at hpass
      -- only a call that has run is finished
      cases hpass with
      | dispatch hv => cases hran
      | execute => cases hran
      | finish => exact ⟨_, rfl⟩
  | stop hsame htail hsplit hrecs hstops hstamps =>
    constructor
    · intro b
      rw [hstamps]
      exact h.paced b
    · intro b p hp
      rw [hstamps] at hp
      rw [hsame.now]
      exact h.past b p hp
    · intro g hg b hb
      rw [hrecs] at hg
      rw [hstamps]
      exact h.after g (mem_of_without hsplit hg) b hb
  | @pop _ pre post id seq created batch rest y args gas hsame hexec hsplit htail htail' hrecs hid
      hstamps =>
    refine h.replace hchain hsame.now hsplit hrecs (batch_of_singleton ⟨_, batch, _⟩) ?_ ?_ hstamps
    · intro g hg
      rw [List.mem_singleton.1 hg]
      exact .inl rfl
    · intro b hb
      exact h.before (mem_of_split hsplit) hb (hlater _ hexec) (fun hran => by cases hran)
  | forge hf => exact absurd hf hforges

theorem init (owner_id approver_id : AccountId) (balance block_height : Nat) :
    (Ledger.init owner_id approver_id balance block_height).Timed where
  paced b := .nil
  past b p hp := by cases hp
  after f hf := by cases hf

end Timed

end Ledger

/-! ## Sequence numbers stay in their batch -/

/-- The sequence number a resumed callback carries. -/
def Receipt.seq : Receipt → Option Nat
  | .callback _ _ _ (.ok v) => v.sequence_number
  | _ => none

namespace Ledger

variable {d : Deployment} {s s' s₀ : Ledger} {a : Action}

/-- A receipt of no batch carries no sequence number, and a dispatch that carries
one belongs to an accepted batch. -/
structure Numbered (s : Ledger) : Prop where
  receipts : ∀ f ∈ s.receipts, f.batch = none → f.receipt.seq = none
  log : ∀ en ∈ s.log, ∀ id call i batch, en.event = .dispatched id call (some i) batch →
    ∃ b ids, batch = some b ∧ (b, ids) ∈ s.batches

namespace Numbered

theorem receipts_of_apply (h : ∀ f ∈ s.receipts, f.batch = none → f.receipt.seq = none)
    {e : Event} {out : Outcome} {deposit : Nat} {batch : Option Nat} {spare : Nat}
    (hout : ∀ y signal, out.action = .resume y signal → batch = none →
      signal.sequence_number = none) :
    ∀ f ∈ (s.apply e out deposit batch spare).receipts, f.batch = none → f.receipt.seq = none := by
  intro f hf hb
  rw [apply_receipts, List.mem_append] at hf
  rcases hf with hf | hf
  · exact h f hf hb
  · cases hact : out.action with
    | resume y signal =>
      simp only [hact, created] at hf
      split at hf
      · rw [List.mem_singleton.1 hf] at hb ⊢
        exact hout y signal hact hb
      · cases hf
    | function_call id call and_then =>
      simp only [hact, created, List.mem_singleton] at hf
      rw [hf]
      rfl
    | transfer to_id amount =>
      simp only [hact, created, List.mem_singleton] at hf
      rw [hf]
      rfl
    | none => simp only [hact, created, List.not_mem_nil] at hf
    | new_yield args => simp only [hact, created, List.not_mem_nil] at hf

/-- Of the calls, only one that starts a batch hands out a sequence number. -/
theorem receipts_called (h : s.Numbered) (hlife : s.Lifecycle) (hforges : ¬ a.forges d s)
    {c : GateCall} {caller : AccountId} {deposit spare : Nat} {out : Outcome}
    (hcall : a.gate_call d s = some (caller, deposit, c))
    (hcaller : (∃ spare, a = .call caller deposit spare c) ∧ caller ≠ d.gate_id ∨
      (∃ i spare success, a = .execute i spare success) ∧ caller = d.gate_id)
    (heff : CallEffect d.host (s.env d caller deposit) s.gate c out.gate out.action) :
    ∀ f ∈ (s.apply (.accepted caller deposit c) out deposit (batch_of c out.gate) spare).receipts,
      f.batch = none → f.receipt.seq = none := by
  -- `resume_intent` signals no number, a batch has one; a `continue_chain` would be forged
  refine receipts_of_apply h.receipts ?_
  intro y signal hact hb
  generalize out.gate = g' at heff hb
  generalize out.action = act at heff hact
  cases heff with
  | admin hc frame ha =>
    rcases ha with rfl | ⟨to_id, amount, rfl⟩ <;> cases hact
  | reset howner => cases hact
  | submit hrel hdec hver hexp hnonce hfc hid hsub => cases hact
  | resume happr htier hdep hfee hp hopen =>
    cases hact
    rfl
  | batch happr htail hids htier hdep hfee hknown hid hp hopen => cases hb
  | chain hpriv hfree htail hp hopen =>
    exact absurd (forges_of_chain hlife hcall hcaller (.chain hpriv hfree htail hp hopen)) hforges

/-- A move that queues no callback keeps the receipts numbered. -/
theorem receipts_of_queue {new : List InFlight} {l : List InFlight}
    (h : ∀ f ∈ l, f.batch = none → f.receipt.seq = none)
    (hnew : ∀ f ∈ new, f.receipt.seq = none) :
    ∀ f ∈ l ++ new, f.batch = none → f.receipt.seq = none := by
  intro f hf hb
  rcases List.mem_append.1 hf with hf | hf
  · exact h f hf hb
  · exact hnew f hf

theorem receipts_move (h : s.Numbered) (hlife : s.Lifecycle) (hchain : s.Chained)
    (hforges : ¬ a.forges d s₀) (hmove : Move d s₀ a s s') :
    ∀ f ∈ s'.receipts, f.batch = none → f.receipt.seq = none := by
  have hwithout : ∀ {pre post : List InFlight} {f : InFlight}, s.receipts = pre ++ f :: post →
      ∀ g ∈ (s.without pre post).receipts, g.batch = none → g.receipt.seq = none :=
    fun hsplit g hg => h.receipts g (mem_of_without hsplit hg)
  cases hmove with
  | advance ha => exact h.receipts
  | refused hcall => exact h.receipts
  | called hcall hacc hcaller hspare heff =>
    exact receipts_called h hlife hforges hcall hcaller heff
  | timed_out ha hw =>
    refine receipts_of_queue h.receipts fun f hf => ?_
    rw [List.mem_singleton.1 hf]
    rfl
  | @resumed i burnt y args gas signal batch created pre post out ha htake hret hfits =>
    refine receipts_of_apply (hwithout htake.split) fun y' signal' hact _ => ?_
    rcases resumed_action hret with hact' | ⟨_, hact'⟩
    · rw [hact'] at hact
      cases hact
    · rw [hact'] at hact
      cases hact
  | aborted ha htake hfail => exact hwithout htake.split
  | ran hf hblock hrecs =>
    refine receipts_of_queue (hwithout hrecs) fun f hf => ?_
    rw [List.mem_singleton.1 hf]
    rfl
  | @finished i success id call and_then batch created pre post ha htake =>
    cases and_then with
    | none => exact hwithout htake.split
    | some n =>
      refine receipts_of_queue (hwithout htake.split) fun f hf => ?_
      rw [List.mem_singleton.1 hf]
      rfl
  | @continued i id seq batch created pre post out ha htake heff =>
    refine receipts_of_apply (hwithout htake.split) fun y signal hact hb => ?_
    generalize out.gate = g' at heff
    generalize out.action = act at heff hact
    cases heff with
    | admin hc => cases hc
    | chain hpriv hfree htail hp hopen =>
      -- whoever pops the tail belongs to the newest batch
      have hactive : batch = _ := hchain.pop_active (mem_of_split htake.split) rfl htail
      rw [hactive] at hb
      cases hb
  | continue_failed ha htake hfail => exact hwithout htake.split
  | @settled i success to_id amount batch created pre post ha htake =>
    unfold Ledger.settle
    split <;> exact hwithout htake.split

theorem move (h : s.Numbered) (hlife : s.Lifecycle) (hchain : s.Chained)
    (hforges : ¬ a.forges d s₀) (hmove : Move d s₀ a s s') : s'.Numbered where
  receipts := receipts_move h hlife hchain hforges hmove
  log := by
    have hgrow : ∀ b ids, (b, ids) ∈ s.batches → (b, ids) ∈ s'.batches := fun b ids hb =>
      (hmove.log_extends.filterMap Entry.batch).subset hb
    intro en hen id call i batch he
    rcases hmove.mem_log hen with hen | ⟨e, -, rfl, hcause⟩
    · obtain ⟨b, ids, rfl, hb⟩ := h.log en hen id call i batch he
      exact ⟨b, ids, rfl, hgrow b ids hb⟩
    · -- the dispatch takes number and batch from its callback
      obtain rfl := he
      obtain ⟨f, hf, rfl, y, args, gas, v, hr, -, -, -, hseq⟩ := hcause
      cases hb : f.batch with
      | none =>
        have hnone := h.receipts f hf hb
        rw [hr, Receipt.seq, hseq] at hnone
        cases hnone
      | some b =>
        obtain ⟨ids, hids⟩ := hchain.tagged f hf b hb
        exact ⟨b, ids, rfl, hgrow b ids hids⟩

theorem init (owner_id approver_id : AccountId) (balance block_height : Nat) :
    (Ledger.init owner_id approver_id balance block_height).Numbered where
  receipts f hf := by cases hf
  log en hen := by cases hen

end Numbered

/-! ## Runs -/

/-- The invariants of the chains, with the accounts they rest on. -/
structure Scripted (s : Ledger) : Prop where
  life : s.Lifecycle
  chained : s.Chained
  numbered : s.Numbered

theorem Scripted.move (h : s.Scripted) (hforges : ¬ a.forges d s₀) (hstale : ¬ a.stale d s₀)
    (hmove : Move d s₀ a s s') : s'.Scripted where
  life := h.life.move hmove
  chained := h.chained.relay (h.chained.toTagged.move h.life hmove) hforges hstale
    (relay_of_move h.life hmove)
  numbered := h.numbered.move h.life h.chained hforges hmove

theorem Scripted.init (owner_id approver_id : AccountId) (balance block_height : Nat) :
    (Ledger.init owner_id approver_id balance block_height).Scripted :=
  ⟨.init _ _ _ _, .init _ _ _ _, .init _ _ _ _⟩

/-- What holds, besides, in a run without a reset in which no intent is addressed to
the gate. -/
structure Orderly (d : Deployment) (s : Ledger) : Prop extends s.Scripted where
  tight : s.Tight
  outward : s.Outward d

namespace Orderly

/-- One step: in such a state no list is stale, and nothing forges. -/
theorem step (h : s.Orderly d) (hreset : ¬ a.resets d s) (htarget : ¬ a.targets_gate d s)
    (hst : step d s a = some s') : s'.Orderly d := by
  have hforges := h.outward.not_forges hst
  refine step_preserves (Orderly d) hst h ?_
  intro t t' ht hmove
  have hrelay := relay_of_move ht.life hmove
  exact ⟨ht.toScripted.move hforges h.tight.not_stale hmove,
    ht.tight.relay ht.chained hforges hreset hrelay, ht.outward.move htarget hmove⟩

theorem step_timed (h : s.Orderly d) (ht : s.Timed) (hlater : a.later s)
    (hst : SequentialNear.step d s a = some s') : s'.Timed := by
  have hforges := h.outward.not_forges hst
  let I : Ledger → Prop := fun t => t.Scripted ∧ t.Timed
  have hinv : I s' := by
    refine step_preserves I hst ⟨h.toScripted, ht⟩ ?_
    rintro t t' ⟨ht, htime⟩ hmove
    exact ⟨ht.move hforges h.tight.not_stale hmove,
      htime.relay ht.chained hforges hlater (relay_of_move ht.life hmove)⟩
  exact hinv.2

theorem init (owner_id approver_id : AccountId) (balance block_height : Nat) :
    (Ledger.init owner_id approver_id balance block_height).Orderly d :=
  ⟨.init _ _ _ _, fun _ hf => (nomatch hf), .init _ _ _ _⟩

end Orderly

end Ledger

/-- No reset, and no intent addressed to the gate. -/
def orderly (d : Deployment) (s : Ledger) (a : Action) : Prop :=
  ¬ a.resets d s ∧ ¬ a.targets_gate d s

instance (d : Deployment) (s : Ledger) (a : Action) : Decidable (orderly d s a) :=
  inferInstanceAs (Decidable (_ ∧ _))

/-- **The order of a chained batch.** In every run without a reset and without an
intent addressed to the gate, the log follows the script of every accepted list:
member `i + 1` is resumed after the target call of member `i` has finished. The
dispatches of the batch are the first `k` members, in order, numbered from `0`,
and no other dispatch carries a sequence number. When every receipt executes in
a later block than the one that created it, any two of them are at least three
blocks apart. -/
theorem batch_dispatched_in_order {d : Deployment} {owner_id approver_id : AccountId}
    {balance block_height : Nat} {s : Ledger}
    (hrun : Run (step d) (orderly d) (Ledger.init owner_id approver_id balance block_height) s) :
    (∀ b ids, (b, ids) ∈ s.batches →
      s.trace b <+: script 0 ids ∧
      (∃ k ≤ ids.length,
        (s.dispatches b).map Prod.snd = (ids.take k).zipIdx.map fun p => (p.1, some p.2)) ∧
      (Run (step d) (fun s a => orderly d s a ∧ a.later s)
          (Ledger.init owner_id approver_id balance block_height) s →
        (s.dispatches b).Pairwise fun p q => p.1 + 3 ≤ q.1)) ∧
    ∀ en ∈ s.log, ∀ id call i batch, en.event = .dispatched id call (some i) batch →
      ∃ b ids, batch = some b ∧ (b, ids) ∈ s.batches := by
  have hord : s.Orderly d :=
    hrun.invariant (.init _ _ _ _) fun t a t' ht hg hst => ht.step hg.1 hg.2 hst
  refine ⟨fun b ids hb => ?_, hord.numbered.log⟩
  have hpre := hord.chained.prefix_script hb
  rw [Ledger.dispatches_eq]
  refine ⟨hpre, dispatches_of_prefix hpre, fun hlater => ?_⟩
  -- the pace is a second invariant, for the runs in which receipts take a block each
  let I : Ledger → Prop := fun t => t.Orderly d ∧ t.Timed
  have htimed : I s := by
    refine hlater.invariant ⟨.init _ _ _ _, .init _ _ _ _⟩ ?_
    intro t a t' ht hg hst
    exact ⟨ht.1.step hg.1.1 hg.1.2 hst, ht.1.step_timed ht.2 hg.2 hst⟩
  exact dispatches_apart hpre (htimed.2.paced b)

section Demo

open SequentialNear.Demo

/-- The batch of two of `two_intents`, to its end. -/
theorem batch_dispatched_in_order_demo : ∃ s, Run (step deployment) (orderly deployment) start s ∧
    s.trace 1 = script 0 [0, 1] ∧ s.trace 1 <+: script 0 [0, 1] ∧
    (s.dispatches 1).Pairwise (fun p q => p.1 + 3 ≤ q.1) := by
  have hrun : ∃ s, Run (step deployment) (fun s a => orderly deployment s a ∧ a.later s) start s ∧
      (1, [0, 1]) ∈ s.batches ∧ s.trace 1 = script 0 [0, 1] :=
    exists_run_of_exec two_intents _ (by decide +kernel)
  obtain ⟨s, hrun, hb, htrace⟩ := hrun
  have hord := hrun.mono fun _ _ h => h.1
  obtain ⟨hpre, -, hapart⟩ := (batch_dispatched_in_order hord).1 1 [0, 1] hb
  exact ⟨s, hord, htrace, hpre, hapart hrun⟩

end Demo

end SequentialNear
