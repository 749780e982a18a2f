/-
One chained batch at a time?

`resume_batch_chained` refuses a list while the tail is not empty. But the tail is
what has not been resumed yet: it is empty as soon as the last member is resumed,
and for a list of one from the start, when the callback and the target call of that
member are still to come.

What the guard would have to ask is [`Ledger.LastDone`]. Without a reset and without
a forged `continue_chain` it decides, at every accepted list, whether the earlier
batches are over; and in the runs that respect it no two batches are ever in flight
together ([`one_batch_at_a_time`]).
-/
import SequentialNear.Continuation

set_option autoImplicit false

namespace SequentialNear

open Nep366 Runs

/-! ## The end of a batch -/

/-- The batch whose chain an event cuts short: its `continue_chain` panicked, or the
callback of a member was reverted. -/
def Event.stops : Event → Option Nat
  | .aborted _ batch | .continue_failed _ _ _ batch => batch
  | _ => none

theorem Event.batch_of_stops {e : Event} {b : Nat} (h : e.stops = some b) : e.batch = some b := by
  cases e with
  | aborted | continue_failed => exact h
  | _ => cases h

/-- By the log, every member of batch `b` has been dispatched and its target call has
finished, or the chain was cut short. -/
def Over (log : List Entry) (b : Nat) (ids : List Nat) : Prop :=
  log.filterMap (Entry.chain_step b) = script 0 ids ∨ ∃ en ∈ log, en.event.stops = some b

/-- All batches accepted so far are over. -/
def AllOver (log : List Entry) : Prop :=
  ∀ b ids, (b, ids) ∈ log.filterMap Entry.batch → Over log b ids

/-- Every receipt that carries a batch has somebody left to resume: neither the
callback nor the target call of a last member is outstanding. -/
def Ledger.LastDone (s : Ledger) : Prop :=
  ∀ f ∈ s.receipts, f.batch ≠ none → f.receipt.next ≠ none

instance (s : Ledger) : Decidable s.LastDone :=
  inferInstanceAs (Decidable (∀ f ∈ s.receipts, f.batch ≠ none → f.receipt.next ≠ none))

/-- A list is accepted. -/
def GateCall.starts : GateCall → Bool
  | .resume_batch_chained _ => true
  | _ => false

def Action.starts (d : Deployment) (s : Ledger) (a : Action) : Prop :=
  ∃ c ∈ a.accepted_call d s, c.2.2.starts = true

instance (d : Deployment) (s : Ledger) (a : Action) : Decidable (a.starts d s) :=
  inferInstanceAs (Decidable (∃ c ∈ a.accepted_call d s, c.2.2.starts = true))

/-- A list is accepted only when the last member of the batch before is done. -/
def awaited (d : Deployment) (s : Ledger) (a : Action) : Prop := a.starts d s → s.LastDone

instance (d : Deployment) (s : Ledger) (a : Action) : Decidable (awaited d s a) :=
  inferInstanceAs (Decidable (a.starts d s → s.LastDone))

/-- Two ways to take one element out of a list that leave the same rest take the same
element. -/
theorem removed_unique {α : Type} {pre post pre' post' : List α} {x y : α}
    (h : pre ++ x :: post = pre' ++ y :: post') (hrest : pre ++ post = pre' ++ post') : x = y := by
  have hx : (pre ++ x :: post).Perm (x :: (pre ++ post)) := List.perm_middle
  have hy : (pre' ++ y :: post').Perm (y :: (pre' ++ post')) := List.perm_middle
  rw [← h, ← hrest] at hy
  have heq : x ::ₘ (↑(pre ++ post) : Multiset α) = y ::ₘ ↑(pre ++ post) :=
    Multiset.coe_eq_coe.2 (hx.symm.trans hy)
  exact (Multiset.cons_inj_left _).1 heq

namespace Ledger

variable {d : Deployment} {s s' s₀ : Ledger} {a : Action}

/-- An event that cuts a chain short takes its receipt out of the queue. -/
theorem stop_taken (hmove : Move d s₀ a s s') {e : Event} {b : Nat}
    (hlog : s'.log = s.log ++ [⟨s.block_height, s.gate, e⟩]) (he : e.stops = some b) :
    ∃ f pre post, f.batch = some b ∧ s.receipts = pre ++ f :: post ∧
      s'.receipts = pre ++ post := by
  cases hmove with
  | aborted ha htake | continue_failed ha htake =>
    cases last_event hlog rfl
    exact ⟨_, _, _, he, htake.split, rfl⟩
  | advance ha => exact absurd hlog (log_ne_append rfl)
  | refused | timed_out | ran =>
    cases last_event hlog rfl
    cases he
  | called | continued =>
    cases last_event hlog (apply_log _ _ _ _ _)
    cases he
  | @resumed i burnt y args gas signal batch created pre post out ha htake hret =>
    cases last_event hlog (apply_log _ _ _ _ _)
    rcases callback_event_cases batch hret with ⟨_, h⟩ | ⟨_, h⟩
    · rw [h] at he
      cases he
    · rw [h] at he
      cases he
  | finished =>
    cases last_event hlog (finish_log _ _ _ _)
    cases he
  | settled =>
    cases last_event hlog (settle_log _ _ _ _)
    cases he

/-- A receipt that leaves the queue and still owed steps of its batch, none of which
is logged, leaves the reason in the log. -/
theorem stop_logged (hmove : Move d s₀ a s s') {f : InFlight} {pre post : List InFlight} {b : Nat}
    {rest : List Nat} {rem : List ChainStep} (hsplit : s.receipts = pre ++ f :: post)
    (hrecs : s'.receipts = pre ++ post) (hb : f.batch = some b) (howes : Owes f.receipt rest rem)
    (hstamps : s'.stamps b = s.stamps b) : ∃ en ∈ s'.log, en.event.stops = some b := by
  have hlen : s'.receipts.length < s.receipts.length := by
    rw [hrecs, hsplit, List.length_append, List.length_append, List.length_cons]
    omega
  cases hmove with
  -- these put back what they take, or take nothing
  | advance | refused => exact absurd hlen (Nat.lt_irrefl _)
  | called =>
    rw [apply_receipts, List.length_append] at hlen
    omega
  | timed_out =>
    simp [time_out] at hlen
  | ran hf hblock hold =>
    rw [hold] at hlen
    simp [Ledger.ran, without] at hlen
  | @resumed i burnt y args gas signal batch block pre' post' out ha htake hret =>
    rw [apply_receipts] at hrecs hlen
    obtain ⟨w, hfate, hw⟩ := resumed_effect batch hret
    rcases hw with ⟨-, ⟨v, -, -, and_then, -, hact⟩, -⟩ | ⟨rfl, hact, -⟩
    · rw [hact, htake.split] at hlen
      simp [created, without] at hlen
    · -- a callback that owes a dispatch was approved, and does not reject
      rw [hact] at hrecs
      have hrest : pre' ++ post' = pre ++ post := (List.append_nil _).symm.trans hrecs
      obtain rfl := removed_unique (hsplit.symm.trans htake.split) hrest.symm
      cases howes with
      | callback hv =>
        rw [callback_event_approve hv hret] at hfate
        cases hfate
  | aborted ha htake hfail =>
    obtain rfl := removed_unique (hsplit.symm.trans htake.split) hrecs.symm
    exact ⟨_, List.mem_append_right _ (List.mem_singleton.2 rfl), hb⟩
  | @finished i success id call and_then batch block pre' post' ha htake =>
    cases and_then with
    | none =>
      obtain rfl := removed_unique (hsplit.symm.trans htake.split) hrecs.symm
      -- the end of a target call is logged as a step
      have hlog := finish_log (s := s.without pre' post') batch id none success
      have hlast := hstamps.symm.trans (stamps_of_log hlog b)
      simp [Entry.chain_step, show batch = some b from hb, without, stamps] at hlast
    | some n =>
      rw [htake.split] at hlen
      simp [Ledger.finish, without] at hlen
  | @continued i next_id next_seq batch block pre' post' out ha htake heff =>
    rw [apply_receipts, htake.split] at hlen
    generalize out.gate = g' at heff
    generalize out.action = act at heff hlen
    cases heff with
    | admin hc => cases hc
    | chain hpriv hfree htail hp hopen =>
      obtain ⟨w, hw⟩ := open_lookup hopen
      simp [created, without, hw] at hlen
  | continue_failed ha htake hfail =>
    obtain rfl := removed_unique (hsplit.symm.trans htake.split) hrecs.symm
    exact ⟨_, List.mem_append_right _ (List.mem_singleton.2 rfl), hb⟩
  | @settled i success to_id amount batch block pre' post' ha htake =>
    have hrest : (s.without pre' post').receipts = pre ++ post := by
      rw [← hrecs]
      unfold settle
      split <;> rfl
    obtain rfl := removed_unique (hsplit.symm.trans htake.split) hrest.symm
    cases howes

/-- Every receipt that owes anything owes a step. -/
theorem owes_step {r : Receipt} {rest : List Nat} {rem : List ChainStep} (h : Owes r rest rem) :
    rem ≠ [] := by
  cases h with
  | to_continue =>
    rw [script]
    exact List.cons_ne_nil _ _
  | _ => exact List.cons_ne_nil _ _

/-- A batch that has no receipt in flight gets none any more. -/
theorem Tagged.gone_stays (h : s.Tagged) (hforges : ¬ a.forges d s₀) {b : Nat} {ids : List Nat}
    (hb : (b, ids) ∈ s.batches) (hnil : s.of_batch b = []) (hrelay : Relay d s₀ a s s') :
    s'.of_batch b = [] := by
  have hborn := (h.le_active hb).2
  -- the receipt that is replaced is of another batch
  have hother : ∀ {f : InFlight} {pre post new : List InFlight},
      s.receipts = pre ++ f :: post → s'.receipts = pre ++ post ++ new →
      (∀ g ∈ new, g.batch = f.batch) → s'.of_batch b = [] := by
    intro f pre post new hsplit hrecs hnew
    have hne : f.batch ≠ some b := fun hf => of_batch_ne_nil (mem_of_split hsplit) hf hnil
    rw [of_batch_other hsplit hrecs hnew hne, hnil]
  cases hrelay with
  | still hst | reset hst => rw [hst.of_batch, hnil]
  | start hcall hids htail htail' hactive hnow hrecs =>
    have hne : some (s.gate.active_batch_id + 1) ≠ some b := by
      rw [ne_eq, Option.some.injEq]
      omega
    rw [of_batch_push hrecs hne, hnil]
  | pass new hsame htail hexec hblock hsplit hrecs hnew => exact hother hsplit hrecs hnew
  | stop hsame htail hsplit hrecs =>
    exact hother hsplit (hrecs.trans (List.append_nil _).symm) fun _ hg => by cases hg
  | pop hsame hexec hsplit htail htail' hrecs =>
    exact hother hsplit hrecs (batch_of_singleton _)
  | forge hf => exact absurd hf hforges

/-! ## The invariant -/

/-- A batch is over exactly when none of its receipts is in flight. -/
structure Ending (s : Ledger) : Prop where
  closed : ∀ b ids, (b, ids) ∈ s.batches → s.of_batch b = [] → Over s.log b ids
  stopped : ∀ en ∈ s.log, ∀ b, en.event.stops = some b → s.of_batch b = []

theorem Ending.over_iff (h : s.Ending) (hchain : s.Chained) {b : Nat} {ids : List Nat}
    (hb : (b, ids) ∈ s.batches) : Over s.log b ids ↔ s.of_batch b = [] := by
  constructor
  · rintro (htrace | ⟨en, hen, hstops⟩)
    · rw [← trace_eq] at htrace
      obtain ⟨rest, rem, hrem, hnil | ⟨f, -, howes, -⟩⟩ := hchain.chain b ids hb
      · exact hnil
      -- nothing is left of the script for a receipt to owe
      · rw [htrace, List.append_right_eq_self] at hrem
        exact absurd hrem (owes_step howes)
    · exact h.stopped en hen b hstops
  · exact h.closed b ids hb

theorem over_mono {b : Nat} {ids : List Nat} (h : Over s.log b ids)
    (hstamps : s'.stamps b = s.stamps b) (hlog : s.log <+: s'.log) : Over s'.log b ids := by
  rcases h with htrace | ⟨en, hen, hstops⟩
  · left
    rw [← trace_eq, trace_congr hstamps, trace_eq]
    exact htrace
  · exact .inr ⟨en, hlog.subset hen, hstops⟩

/-- A batch that is over stays over. -/
theorem Ending.keep (h : s.Ending) (hmove : Move d s₀ a s s') {b : Nat} {ids : List Nat}
    (hb : (b, ids) ∈ s.batches) (hof : s'.of_batch b = s.of_batch b)
    (hstamps : s'.stamps b = s.stamps b) (hnil : s'.of_batch b = []) : Over s'.log b ids :=
  over_mono (h.closed b ids hb (hof.symm.trans hnil)) hstamps hmove.log_extends

/-- A new batch has a receipt; the others are as they were. -/
theorem Ending.start (h : s.Ending) (hmove : Move d s₀ a s s') {caller : AccountId} {deposit : Nat}
    {ids : Vec Nat} {new : InFlight} (hrecs : s'.receipts = s.receipts ++ [new])
    (hnew : new.batch = some (s.gate.active_batch_id + 1))
    (hlog : s'.log = s.log ++ [⟨s.block_height, s.gate,
      .accepted caller deposit (.resume_batch_chained ids)⟩]) {b : Nat} {ids' : List Nat}
    (hb : (b, ids') ∈ s'.batches) (hnil : s'.of_batch b = []) : Over s'.log b ids' := by
  have hlast : new ∈ s'.receipts := by
    rw [hrecs]
    exact List.mem_append_right _ (List.mem_singleton.2 rfl)
  have hne : s.gate.active_batch_id + 1 ≠ b := by
    rintro rfl
    exact of_batch_ne_nil hlast hnew hnil
  have hold : (b, ids') ∈ s.batches := by
    rw [batches_of_log hlog, List.mem_append] at hb
    refine hb.resolve_right fun hb => hne ?_
    rw [Entry.batch, Option.toList_some, List.mem_singleton] at hb
    exact (congrArg Prod.fst hb).symm
  have hother : new.batch ≠ some b := fun h => hne (Option.some.inj (hnew.symm.trans h))
  exact h.keep hmove hold (of_batch_push hrecs hother) (stamps_accepted_ne hlog hne) hnil

/-- The receipt that logs the last step of its batch leaves nothing in flight. -/
theorem over_of_pass (hchain : s.Chained) {f : InFlight} {pre post new : List InFlight}
    {st : ChainStep} {b : Nat} {ids : List Nat} (hb : (b, ids) ∈ s.batches)
    (hf : f.batch = some b) (hsplit : s.receipts = pre ++ f :: post)
    (hrecs : s'.receipts = pre ++ post ++ new) (hnew : ∀ g ∈ new, g.batch = f.batch)
    (hpass : Passes f.receipt st (new.map (·.receipt)))
    (hstamps : s'.stamps b = s.stamps b ++ [(s.block_height, st)]) (hnil : s'.of_batch b = []) :
    Over s'.log b ids := by
  obtain ⟨rest, rem, hrem, hone, howes, -⟩ :=
    (hchain.chain b ids hb).carried (mem_of_split hsplit) hf
  obtain rfl : new = [] := (of_batch_same hsplit hrecs hnew hf hone).symm.trans hnil
  obtain ⟨rem', rfl, hout⟩ := howes.pass hpass
  left
  rw [← trace_eq, trace_append hstamps, ← hrem]
  rcases hout with ⟨-, -, rfl⟩ | ⟨r, hr, -⟩
  · rfl
  · cases hr

theorem Ending.over_move (h : s.Ending) (hs : s.Scripted) (hforges : ¬ a.forges d s₀)
    (hmove : Move d s₀ a s s') {b : Nat} {ids : List Nat} (hb : (b, ids) ∈ s'.batches)
    (hnil : s'.of_batch b = []) : Over s'.log b ids := by
  cases relay_of_move hs.life hmove with
  | still hst | reset hst =>
    exact h.keep hmove (hst.batches ▸ hb) (hst.of_batch b) (hst.stamps b) hnil
  | start hcall hids htail htail' hactive hnow hrecs hid hlog =>
    exact h.start hmove hrecs rfl hlog hb hnil
  | @pass _ _ f pre post st new hsame htail hexec hblock hsplit hrecs hnew hpass hcreated hstamps =>
    rw [hsame.batches] at hb
    have hst := hstamps b
    by_cases hf : f.batch = some b
    · rw [if_pos hf] at hst
      exact over_of_pass hs.chained hb hf hsplit hrecs hnew hpass hst hnil
    · rw [if_neg hf, List.append_nil] at hst
      exact h.keep hmove hb (of_batch_other hsplit hrecs hnew hf) hst hnil
  | @stop _ f pre post hsame htail hsplit hrecs hstops hstamps =>
    rw [hsame.batches] at hb
    have hrecs' : s'.receipts = pre ++ post ++ [] := hrecs.trans (List.append_nil _).symm
    by_cases hf : f.batch = some b
    · obtain ⟨rest, rem, -, -, howes, -⟩ :=
        (hs.chained.chain b ids hb).carried (mem_of_split hsplit) hf
      exact .inr (stop_logged hmove hsplit hrecs hf howes (hstamps b))
    · have hof := of_batch_other hsplit hrecs' (fun _ hg => by cases hg) hf
      exact h.keep hmove hb hof (hstamps b) hnil
  | @pop _ pre post id seq created batch rest y args gas hsame hexec hsplit htail htail' hrecs hid
      hstamps =>
    rw [hsame.batches] at hb
    have hst := hstamps b
    by_cases hf : batch = some b
    -- the next member's callback is in flight
    · have hmem : (⟨.callback y args gas (.ok ⟨true, some seq, rest.head?⟩), batch,
          s.block_height⟩ : InFlight) ∈ s'.receipts := by
        rw [hrecs]
        exact List.mem_append_right _ (List.mem_singleton.2 rfl)
      exact absurd hnil (of_batch_ne_nil hmem hf)
    · rw [if_neg hf, List.append_nil] at hst
      exact h.keep hmove hb (of_batch_other hsplit hrecs (batch_of_singleton _) hf) hst hnil
  | forge hf => exact absurd hf hforges

theorem Ending.move (h : s.Ending) (hs : s.Scripted) (hforges : ¬ a.forges d s₀)
    (hmove : Move d s₀ a s s') : s'.Ending where
  closed b ids hb hnil := h.over_move hs hforges hmove hb hnil
  stopped en hen b hstops := by
    rcases hmove.mem_log hen with hold | ⟨e, hlog, rfl, hcause⟩
    · obtain ⟨ids, hb⟩ := hs.chained.logged en hold b (Event.batch_of_stops hstops)
      exact hs.chained.toTagged.gone_stays hforges hb (h.stopped en hold b hstops)
        (relay_of_move hs.life hmove)
    · obtain ⟨f, pre, post, hf, hsplit, hrecs⟩ := stop_taken hmove hlog hstops
      exact hs.chained.replaced hsplit (hrecs.trans (List.append_nil _).symm)
        (fun _ hg => by cases hg) hf

theorem Ending.init (owner_id approver_id : AccountId) (balance block_height : Nat) :
    (Ledger.init owner_id approver_id balance block_height).Ending where
  closed b ids hb := by cases hb
  stopped en hen := by cases hen

/-! ## Which batch the receipts in flight carry -/

/-- Nothing in flight carries a batch. -/
def Idle (s : Ledger) : Prop := ∀ f ∈ s.receipts, f.batch = none

/-- While the tail is empty, every batch receipt is one of a last member. -/
theorem Tight.idle_iff (h : s.Tight) (htail : s.gate.batch_chain_tail = []) :
    s.Idle ↔ s.LastDone := by
  constructor
  · intro hidle f hf hb
    exact absurd (hidle f hf) hb
  · intro hlast f hf
    by_contra hb
    obtain ⟨n, hn⟩ := Option.ne_none_iff_exists'.1 (hlast f hf hb)
    -- whom a receipt names heads the tail
    have hhead := (h f hf n hn).2
    rw [htail] at hhead
    cases hhead

theorem Ending.all_over_iff (h : s.Ending) (hchain : s.Chained) : AllOver s.log ↔ s.Idle := by
  constructor
  · intro hall f hf
    by_contra hb
    obtain ⟨b, hb⟩ := Option.ne_none_iff_exists'.1 hb
    obtain ⟨ids, hids⟩ := hchain.tagged f hf b hb
    exact of_batch_ne_nil hf hb ((h.over_iff hchain hids).1 (hall b ids hids))
  · intro hidle b ids hb
    rw [h.over_iff hchain hb, of_batch, List.filter_eq_nil_iff]
    intro f hf hfb
    rw [hidle f hf] at hfb
    cases of_decide_eq_true hfb

/-- Whatever carries a batch carries the newest one. -/
def Newest (s : Ledger) : Prop :=
  ∀ f ∈ s.receipts, ∀ b, f.batch = some b → b = s.gate.active_batch_id

theorem Newest.replace (h : s.Newest) (hsame : SameBatches s s') {f : InFlight}
    {pre post new : List InFlight} (hsplit : s.receipts = pre ++ f :: post)
    (hrecs : s'.receipts = pre ++ post ++ new) (hnew : ∀ g ∈ new, g.batch = f.batch) :
    s'.Newest := by
  intro g hg b hb
  rw [hsame.active]
  rw [hrecs, List.mem_append] at hg
  rcases hg with hg | hg
  · exact h g (mem_of_without hsplit hg) b hb
  · exact h f (mem_of_split hsplit) b ((hnew g hg).symm.trans hb)

theorem Newest.relay (h : s.Newest) (htight : s.Tight) (hforges : ¬ a.forges d s₀)
    (hawaited : awaited d s₀ a) (hrelay : Relay d s₀ a s s') : s'.Newest := by
  cases hrelay with
  | still hst | reset hst =>
    intro f hf b hb
    have hmem : f ∈ s'.of_batch b := mem_of_batch.2 ⟨hf, hb⟩
    rw [hst.of_batch] at hmem
    rw [hst.active]
    exact h f (mem_of_batch.1 hmem).1 b hb
  | start hcall hids htail htail' hactive hnow hrecs =>
    -- nothing in flight carried a batch when this one was accepted
    have hidle := (htight.idle_iff htail).2 (hawaited ⟨_, hcall, rfl⟩)
    intro f hf b hb
    rw [hrecs, List.mem_append, List.mem_singleton] at hf
    rcases hf with hf | rfl
    · rw [hidle f hf] at hb
      cases hb
    · rw [hactive]
      exact (Option.some.inj hb).symm
  | pass new hsame htail hexec hblock hsplit hrecs hnew => exact h.replace hsame hsplit hrecs hnew
  | stop hsame htail hsplit hrecs =>
    exact h.replace hsame hsplit (hrecs.trans (List.append_nil _).symm) fun _ hg => by cases hg
  | pop hsame hexec hsplit htail htail' hrecs =>
    exact h.replace hsame hsplit hrecs (batch_of_singleton _)
  | forge hf => exact absurd hf hforges

end Ledger

/-! ## Runs -/

/-- No reset, and no forged `continue_chain`: the gate alone drives its chains. -/
def gate_driven (d : Deployment) (s : Ledger) (a : Action) : Prop :=
  ¬ a.resets d s ∧ ¬ a.forges d s

instance (d : Deployment) (s : Ledger) (a : Action) : Decidable (gate_driven d s a) :=
  inferInstanceAs (Decidable (_ ∧ _))

namespace Ledger

variable {d : Deployment} {s s' s₀ : Ledger} {a : Action}

/-- The invariants of a run in which the gate drives its chains. -/
structure Driven (s : Ledger) : Prop extends s.Scripted where
  tight : s.Tight
  ending : s.Ending

theorem Driven.move (h : s.Driven) (hdriven : gate_driven d s₀ a) (hstale : ¬ a.stale d s₀)
    (hmove : Move d s₀ a s s') : s'.Driven where
  toScripted := h.toScripted.move hdriven.2 hstale hmove
  tight := h.tight.relay h.chained hdriven.2 hdriven.1 (relay_of_move h.life hmove)
  ending := h.ending.move h.toScripted hdriven.2 hmove

theorem Driven.step (h : s.Driven) (hdriven : gate_driven d s a)
    (hst : SequentialNear.step d s a = some s') : s'.Driven := by
  have hstale := h.tight.not_stale (d := d) (a := a)
  exact step_preserves Driven hst h fun t t' ht hmove => ht.move hdriven hstale hmove

theorem Driven.init (owner_id approver_id : AccountId) (balance block_height : Nat) :
    (Ledger.init owner_id approver_id balance block_height).Driven :=
  ⟨.init _ _ _ _, fun _ hf => (nomatch hf), .init _ _ _ _⟩

/-- **What the guard leaves open**: when a list is accepted, the earlier batches are
over exactly when no last member is outstanding. -/
theorem Driven.accepts (h : s.Driven) (hstart : a.starts d s) :
    (AllOver s.log ↔ s.LastDone) ∧ (s.Idle ↔ s.LastDone) := by
  obtain ⟨⟨caller, deposit, c⟩, hacc, hc⟩ := hstart
  have htail : s.gate.batch_chain_tail = [] := by
    cases c with
    | resume_batch_chained ids => exact (Action.batch_checked hacc).1
    | _ => cases hc
  have hidle := h.tight.idle_iff htail
  exact ⟨(h.ending.all_over_iff h.chained).trans hidle, hidle⟩

/-- A list is accepted after the end of all earlier ones. -/
def Awaited (before : List Entry) (en : Entry) : Prop := en.batch ≠ none → AllOver before

theorem Driven.awaited_move (h : s.Driven) (hawaited : awaited d s₀ a)
    (halong : Along Awaited s.log) (hmove : Move d s₀ a s s') : Along Awaited s'.log := by
  refine hmove.along halong ?_
  intro e hlog hcause hbatch
  cases e with
  | accepted caller deposit c =>
    obtain ⟨rfl, -, hacc, -⟩ := hcause
    cases c with
    | resume_batch_chained ids =>
      have hstart : a.starts d s := ⟨_, hacc, rfl⟩
      exact (h.accepts hstart).1.2 (hawaited hstart)
    | _ => exact absurd rfl hbatch
  | _ => exact absurd rfl hbatch

end Ledger

/-- **One chained batch at a time.** In every run without a reset and without a forged
`continue_chain`: when a list is accepted, every member of every earlier batch whose
chain was not cut short has been dispatched and its target call has finished, and no
receipt carries a batch, if and only if no last member is outstanding. In the runs in
which lists are only accepted then, that holds of every accepted list, and the
receipts in flight never belong to two batches. -/
theorem one_batch_at_a_time {d : Deployment} {owner_id approver_id : AccountId}
    {balance block_height : Nat} {s : Ledger}
    (hrun : Run (step d) (gate_driven d)
      (Ledger.init owner_id approver_id balance block_height) s) :
    (∀ a : Action, a.starts d s → (AllOver s.log ↔ s.LastDone) ∧ (s.Idle ↔ s.LastDone)) ∧
    (Run (step d) (fun s a => gate_driven d s a ∧ awaited d s a)
        (Ledger.init owner_id approver_id balance block_height) s →
      (∀ pre en post, s.log = pre ++ en :: post → en.batch ≠ none → AllOver pre) ∧
      ∀ f ∈ s.receipts, ∀ b, f.batch = some b → b = s.gate.active_batch_id) := by
  have hdriven : s.Driven :=
    hrun.invariant (.init _ _ _ _) fun t a t' ht hg hst => ht.step hg hst
  refine ⟨fun a hstart => hdriven.accepts hstart, fun hawaited => ?_⟩
  let I : Ledger → Prop := fun t => t.Driven ∧ t.Newest ∧ Along Ledger.Awaited t.log
  have hinv : I s := by
    refine hawaited.invariant ⟨.init _ _ _ _, fun _ hf => (nomatch hf), Along.nil⟩ ?_
    rintro t a t' ht ⟨hg, hwait⟩ hst
    have hstale := ht.1.tight.not_stale (d := d) (a := a)
    refine step_preserves I hst ht ?_
    rintro u u' ⟨hu, hnew, halong⟩ hmove
    exact ⟨hu.move hg hstale hmove,
      hnew.relay hu.tight hg.2 hwait (Ledger.relay_of_move hu.life hmove),
      hu.awaited_move hwait halong hmove⟩
  exact ⟨hinv.2.2, hinv.2.1⟩

section Demo

open SequentialNear.Demo

def Demo.only (id : Nat) : Vec Nat := ⟨[id], by simp⟩

/-- Two lists of one, and the callback of the first one has not run yet. -/
def back_to_back : List Action :=
  submissions [set11, set22] ++ [.call approver FEE 0 (.resume_batch_chained (only 0)),
    .call approver FEE 0 (.resume_batch_chained (only 1))]

/-- A list of two, carried out to its end, and then a list of one. -/
def one_by_one : List Action :=
  submissions [set11, set22, set33] ++
  [.call approver FEE 0 (.resume_batch_chained first_two)] ++ deliver ++
  [Action.advance 1, .run_continue 0] ++ deliver ++
  [.call approver FEE 0 (.resume_batch_chained (only 2))]

instance (log : List Entry) (b : Nat) (ids : List Nat) : Decidable (Over log b ids) :=
  inferInstanceAs (Decidable (_ ∨ ∃ en ∈ log, en.event.stops = some b))

theorem one_batch_at_a_time_demo : ∃ s,
    Run (step deployment) (gate_driven deployment) start s ∧
      s.batches = [(1, [0, 1]), (2, [2])] ∧ s.met .dispatched = [0, 1] ∧
      (∀ pre en post, s.log = pre ++ en :: post → en.batch ≠ none → AllOver pre) ∧
      ∀ f ∈ s.receipts, ∀ b, f.batch = some b → b = s.gate.active_batch_id := by
  have hrun : ∃ s, Run (step deployment)
      (fun s a => gate_driven deployment s a ∧ awaited deployment s a) start s ∧
      s.batches = [(1, [0, 1]), (2, [2])] ∧ s.met .dispatched = [0, 1] :=
    exists_run_of_exec one_by_one _ (by decide +kernel)
  obtain ⟨s, hrun, hbatches, hmet⟩ := hrun
  have hdriven := hrun.mono fun _ _ h => h.1
  exact ⟨s, hdriven, hbatches, hmet, (one_batch_at_a_time hdriven).2 hrun⟩

/-- The last entry of the log accepts a list, and an earlier batch is not over. -/
theorem overlap_of_last {log : List Entry} {en : Entry} {b : Nat} {ids : List Nat}
    (hen : en ∈ log.getLast?) (hbatch : en.batch ≠ none)
    (hb : (b, ids) ∈ log.dropLast.filterMap Entry.batch) (hnot : ¬ Over log.dropLast b ids) :
    ¬ ∀ pre en post, log = pre ++ en :: post → en.batch ≠ none → AllOver pre := by
  intro h
  have hlog : log = log.dropLast ++ [en] := (List.dropLast_append_getLast? en hen).symm
  exact hnot (h _ en [] hlog hbatch b ids hb)

/-- The second list is accepted, and nothing of the first one has been dispatched. -/
theorem one_batch_at_a_time_fails : ¬ ∀ s,
    Run (step deployment) (fun s a => ¬ a.resets deployment s) start s →
    ∀ pre en post, s.log = pre ++ en :: post → en.batch ≠ none → AllOver pre := by
  intro h
  have hrun : ∃ s, Run (step deployment) (fun s a => ¬ a.resets deployment s) start s ∧
      ∃ en ∈ s.log.getLast?, en.batch = some (2, [1]) ∧
        (1, [0]) ∈ s.log.dropLast.filterMap Entry.batch ∧ ¬ Over s.log.dropLast 1 [0] :=
    exists_run_of_exec back_to_back _ (by decide +kernel)
  obtain ⟨s, hrun, en, hen, hbatch, hfirst, hnot⟩ := hrun
  exact overlap_of_last hen (hbatch ▸ Option.some_ne_none _) hfirst hnot (h s hrun)

/-- An intent that calls the gate's own `continue_chain` empties the tail as well: intent
`1` is resumed by it while the callback of intent `0`, which names it, is outstanding. -/
def forged_between : List Action :=
  submissions [set11, set22, forged, set33] ++
  [.call approver FEE 0 (.resume_batch_chained first_two),
    .call approver FEE 0 (.resume_intent 2 true), .advance 1, .run_callback 1 0, .advance 1,
    .execute 1 0 true, .call approver FEE 0 (.resume_batch_chained (only 3))]

/-- So without the private check the same goes wrong with no last member outstanding. -/
theorem one_batch_at_a_time_forged : ¬ ∀ s,
    Run (step deployment) (fun s a => ¬ a.resets deployment s ∧ awaited deployment s a) start s →
    ∀ pre en post, s.log = pre ++ en :: post → en.batch ≠ none → AllOver pre := by
  intro h
  have hrun : ∃ s, Run (step deployment)
      (fun s a => ¬ a.resets deployment s ∧ awaited deployment s a) start s ∧
      ∃ en ∈ s.log.getLast?, en.batch = some (2, [3]) ∧
        (1, [0, 1]) ∈ s.log.dropLast.filterMap Entry.batch ∧ ¬ Over s.log.dropLast 1 [0, 1] :=
    exists_run_of_exec forged_between _ (by decide +kernel)
  obtain ⟨s, hrun, en, hen, hbatch, hfirst, hnot⟩ := hrun
  exact overlap_of_last hen (hbatch ▸ Option.some_ne_none _) hfirst hnot (h s hrun)

end Demo

end SequentialNear
