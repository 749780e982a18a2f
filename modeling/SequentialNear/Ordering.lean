/-
The order in which a chained batch is dispatched.

The invariant [`Ledger.Chained`] says of every batch accepted so far that its
trace, continued by what its receipt in flight owes, is its script. The tail of
the contract belongs to the newest batch only, so what has to be kept out is a
receipt of an older one that names a member of the tail: `continue_chain`
recognises its turn by nothing but that name.

A list that is accepted while such a receipt is in flight is [`Action.stale`].
It takes a reset to get there: in a run without one, the tail is empty only when
no receipt names anybody ([`Ledger.Tight`]).
-/
import SequentialNear.Numbering

set_option autoImplicit false

namespace SequentialNear

open Nep366 Runs

/-! ## The invariant -/

namespace Ledger

variable {d : Deployment} {s s' s₀ : Ledger} {a : Action}

/-- Batch `b` with the list `ids` has followed its script so far, and one receipt
carries the rest of it, unless it was dropped. While it is the newest batch, the
contract's tail is that rest, unless it was reset. -/
def Chain (s : Ledger) (b : Nat) (ids : List Nat) : Prop :=
  ∃ rest rem, s.trace b ++ rem = script 0 ids ∧
    (s.of_batch b = [] ∨ ∃ f, s.of_batch b = [f] ∧ Owes f.receipt rest rem ∧
      (b = s.gate.active_batch_id → s.gate.batch_chain_tail = [] ∨ s.gate.batch_chain_tail = rest))

/-- The receipt of a chained batch is the one that carries the rest of it. -/
theorem Chain.carried {b : Nat} {ids : List Nat} {f : InFlight} (h : s.Chain b ids)
    (hf : f ∈ s.receipts) (hb : f.batch = some b) :
    ∃ rest rem, s.trace b ++ rem = script 0 ids ∧ s.of_batch b = [f] ∧ Owes f.receipt rest rem ∧
      (b = s.gate.active_batch_id →
        s.gate.batch_chain_tail = [] ∨ s.gate.batch_chain_tail = rest) := by
  obtain ⟨rest, rem, hrem, hnil | ⟨g, hone, howes, htail⟩⟩ := h
  · exact absurd hnil (of_batch_ne_nil hf hb)
  · obtain rfl := of_batch_singleton hf hb hone
    exact ⟨rest, rem, hrem, hone, howes, htail⟩

/-- The invariant of all chains. -/
structure Chained (s : Ledger) : Prop extends s.Tagged where
  chain : ∀ b ids, (b, ids) ∈ s.batches → s.Chain b ids
  apart : ∀ f ∈ s.receipts, f.batch ≠ some s.gate.active_batch_id →
    ∀ n, f.receipt.next = some n → n ∉ s.gate.batch_chain_tail

end Ledger

/-- The members of a batch that are not resumed with it. -/
def GateCall.later_members : GateCall → List Nat
  | .resume_batch_chained ids => ids.toList.tail
  | _ => []

/-- A batch is accepted while a receipt in flight names one of its members other
than the first. -/
def Action.stale (d : Deployment) (s : Ledger) (a : Action) : Prop :=
  ∃ c ∈ a.accepted_call d s, ∃ f ∈ s.receipts, ∃ n ∈ f.receipt.next, n ∈ c.2.2.later_members

instance (d : Deployment) (s : Ledger) (a : Action) : Decidable (a.stale d s) :=
  inferInstanceAs (Decidable (∃ c ∈ a.accepted_call d s, ∃ f ∈ s.receipts,
    ∃ n ∈ f.receipt.next, n ∈ c.2.2.later_members))

namespace Ledger

variable {d : Deployment} {s s' s₀ : Ledger} {a : Action}

namespace Chained

/-- What a chain has shown so far is a prefix of its script. -/
theorem prefix_script (h : s.Chained) {b : Nat} {ids : List Nat} (hb : (b, ids) ∈ s.batches) :
    s.trace b <+: script 0 ids := by
  obtain ⟨rest, rem, hrem, -⟩ := h.chain b ids hb
  exact ⟨rem, hrem⟩

/-- A receipt that carries a chained batch is the only one of it. -/
theorem only (h : s.Chained) {f g : InFlight} {b : Nat} (hf : f ∈ s.receipts)
    (hfb : f.batch = some b) (hg : g ∈ s.receipts) (hgb : g.batch = some b) : f = g := by
  obtain ⟨ids, hids⟩ := h.tagged f hf b hfb
  obtain ⟨rest, rem, -, hone, -⟩ := (h.chain b ids hids).carried hf hfb
  exact (of_batch_singleton hg hgb hone).symm

/-- Of a chained batch, what replaces its receipt is all there is afterwards. -/
theorem replaced (h : s.Chained) {pre post new : List InFlight} {f : InFlight} {b : Nat}
    (hsplit : s.receipts = pre ++ f :: post) (hrecs : s'.receipts = pre ++ post ++ new)
    (hnew : ∀ g ∈ new, g.batch = f.batch) (hb : f.batch = some b) : s'.of_batch b = new := by
  have hmem := mem_of_split hsplit
  obtain ⟨ids, hids⟩ := h.tagged f hmem b hb
  obtain ⟨rest, rem, -, hone, -⟩ := (h.chain b ids hids).carried hmem hb
  exact of_batch_same hsplit hrecs hnew hb hone

/-! ## Every relay keeps it -/

theorem still (h : s.Chained) (htagged : s'.Tagged) (hst : Still s s')
    (htail : s'.gate.batch_chain_tail = s.gate.batch_chain_tail ∨ s'.gate.batch_chain_tail = []) :
    s'.Chained where
  toTagged := htagged
  chain b ids hb := by
    rw [hst.batches] at hb
    obtain ⟨rest, rem, hrem, hrec⟩ := h.chain b ids hb
    refine ⟨rest, rem, by rw [trace_congr (hst.stamps b), hrem], ?_⟩
    rw [hst.of_batch, hst.active]
    rcases hrec with hnil | ⟨f, hone, howes, ht⟩
    · exact .inl hnil
    · refine .inr ⟨f, hone, howes, fun hact => ?_⟩
      rcases htail with htail | htail
      · rw [htail]
        exact ht hact
      · exact .inl htail
  apart f hf hne n hn := by
    obtain ⟨g, hg, hgn, hgb⟩ := hst.next f hf n hn
    rw [hst.active, ← hgb] at hne
    rcases htail with htail | htail
    · rw [htail]
      exact h.apart g hg hne n hgn
    · rw [htail]
      exact List.not_mem_nil

/-- An accepted batch gets the next number; no older receipt names a member that is
still to come. -/
theorem start (h : s.Chained) (htagged : s'.Tagged) {caller : AccountId} {deposit first : Nat} {ids : Vec Nat}
    {rest : List Nat} {y : YieldId} {args : CallbackArgs} {gas : Nat}
    (hstale : ¬ a.stale d s)
    (hcall : a.accepted_call d s = some (caller, deposit, .resume_batch_chained ids))
    (hids : ids.toList = first :: rest) (htail' : s'.gate.batch_chain_tail = rest)
    (hactive : s'.gate.active_batch_id = s.gate.active_batch_id + 1)
    (hrecs : s'.receipts = s.receipts ++
      [⟨.callback y args gas (.ok ⟨true, some 0, rest.head?⟩),
        some (s.gate.active_batch_id + 1), s.block_height⟩]) (hid : args.intent_id = first)
    (hlog : s'.log = s.log ++ [⟨s.block_height, s.gate,
      .accepted caller deposit (.resume_batch_chained ids)⟩]) : s'.Chained := by
  have hbatches : s'.batches = s.batches ++ [(s.gate.active_batch_id + 1, ids.toList)] :=
    batches_of_log hlog
  have hfresh : ∀ b ids', (b, ids') ∈ s.batches → b ≠ s.gate.active_batch_id + 1 := by
    intro b ids' hb
    have := h.le_active hb
    omega
  have hother : ∀ b, b ≠ s.gate.active_batch_id + 1 →
      s'.stamps b = s.stamps b ∧ s'.of_batch b = s.of_batch b := by
    intro b hb
    have hne : some (s.gate.active_batch_id + 1) ≠ some b := by
      intro h
      exact hb (Option.some.inj h).symm
    exact ⟨stamps_accepted_ne hlog (Ne.symm hb), of_batch_push hrecs hne⟩
  refine ⟨htagged, ?_, ?_⟩
  · intro b ids' hb
    rw [hbatches, List.mem_append, List.mem_singleton, Prod.mk.injEq] at hb
    rcases hb with hb | ⟨rfl, rfl⟩
    · have hne := hfresh b ids' hb
      obtain ⟨rest', rem, hrem, hrec⟩ := h.chain b ids' hb
      -- an older batch: untouched, and no longer the one the tail belongs to
      refine ⟨rest', rem, by rw [trace_congr (hother b hne).1, hrem], ?_⟩
      rw [(hother b hne).2]
      rcases hrec with hnil | ⟨f, hone, howes, -⟩
      · exact .inl hnil
      · exact .inr ⟨f, hone, howes, fun hact => absurd (hact.trans hactive) hne⟩
    · -- the new batch: its first member has just been resumed
      have htrace : s'.trace (s.gate.active_batch_id + 1) = [.resumed first 0] := by
        rw [trace, h.stamps_accepted hlog hids]
        rfl
      have howes : Owes (.callback y args gas (.ok ⟨true, some 0, rest.head?⟩)) rest _ :=
        .callback rfl rfl rfl
      refine ⟨rest, _, ?_, .inr ⟨_, h.of_batch_accepted hrecs rfl, howes, fun _ => .inr htail'⟩⟩
      rw [htrace, hids, hid]
      rfl
  · intro f hf hne n hn
    rw [hrecs, List.mem_append, List.mem_singleton] at hf
    rcases hf with hf | rfl
    · rw [htail']
      intro hmem
      -- an older receipt that names a later member is what `stale` is about
      refine hstale ⟨_, hcall, f, hf, n, hn, ?_⟩
      rw [GateCall.later_members, hids]
      exact hmem
    · exact absurd (hactive ▸ rfl) hne

/-- Of the chains, passing a batch on concerns only its own, which pays one step. -/
theorem pass (h : s.Chained) (htagged : s'.Tagged) {f : InFlight} {pre post new : List InFlight} {st : ChainStep}
    (hsame : SameBatches s s') (htail : s'.gate.batch_chain_tail = s.gate.batch_chain_tail)
    (hsplit : s.receipts = pre ++ f :: post) (hrecs : s'.receipts = pre ++ post ++ new)
    (hnew : ∀ g ∈ new, g.batch = f.batch) (hpass : Passes f.receipt st (new.map (·.receipt)))
    (hstamps : ∀ b, s'.stamps b =
      s.stamps b ++ if f.batch = some b then [(s.block_height, st)] else []) : s'.Chained where
  toTagged := htagged
  chain b ids hb := by
    rw [hsame.batches] at hb
    by_cases hf : f.batch = some b
    · obtain ⟨rest, rem, hrem, hone, howes, ht⟩ :=
        (h.chain b ids hb).carried (mem_of_split hsplit) hf
      -- the step logged is the first of the steps owed
      obtain ⟨rem', rfl, hout⟩ := howes.pass hpass
      have htrace : s'.trace b = s.trace b ++ [st] := by
        rw [trace_append (hstamps b), if_pos hf]
        rfl
      refine ⟨rest, rem', by rw [htrace, List.append_assoc, ← hrem]; rfl, ?_⟩
      rw [of_batch_same hsplit hrecs hnew hf hone, hsame.active, htail]
      rcases hout with ⟨hnil, -, -⟩ | ⟨r, hr, howes'⟩
      · exact .inl (List.map_eq_nil_iff.1 hnil)
      · obtain ⟨k, rfl, rfl⟩ := List.map_eq_singleton_iff.1 hr
        exact .inr ⟨k, rfl, howes', ht⟩
    -- another batch: neither its receipt nor its trace has moved
    · obtain ⟨rest, rem, hrem, hrec⟩ := h.chain b ids hb
      have hst : s'.stamps b = s.stamps b := by
        rw [hstamps, if_neg hf, List.append_nil]
      refine ⟨rest, rem, by rw [trace_congr hst, hrem], ?_⟩
      rw [of_batch_other hsplit hrecs hnew hf, hsame.active, htail]
      exact hrec
  apart g hg hne n hn := by
    rw [hsame.active] at hne
    rw [htail]
    rw [hrecs, List.mem_append] at hg
    rcases hg with hg | hg
    · exact h.apart g (mem_of_without hsplit hg) hne n hn
    -- what is passed on names whom its predecessor named
    · have hnext := hpass.next g.receipt (List.mem_map.2 ⟨g, hg, rfl⟩)
      rw [hnew g hg] at hne
      exact h.apart f (mem_of_split hsplit) hne n (hnext ▸ hn)

/-- A receipt that leaves the queue drops the chain it carried. -/
theorem stop (h : s.Chained) (htagged : s'.Tagged) {f : InFlight} {pre post : List InFlight}
    (hsame : SameBatches s s') (htail : s'.gate.batch_chain_tail = s.gate.batch_chain_tail)
    (hsplit : s.receipts = pre ++ f :: post) (hrecs : s'.receipts = pre ++ post)
    (hstamps : ∀ b, s'.stamps b = s.stamps b) : s'.Chained where
  toTagged := htagged
  chain b ids hb := by
    rw [hsame.batches] at hb
    obtain ⟨rest, rem, hrem, hrec⟩ := h.chain b ids hb
    refine ⟨rest, rem, by rw [trace_congr (hstamps b), hrem], ?_⟩
    have hrecs' : s'.receipts = pre ++ post ++ [] := by rw [hrecs, List.append_nil]
    by_cases hf : f.batch = some b
    · left
      exact h.replaced hsplit hrecs' (fun _ hg => by cases hg) hf
    · rw [of_batch_other hsplit hrecs' (fun _ hg => by cases hg) hf, hsame.active, htail]
      exact hrec
  apart g hg hne n hn := by
    rw [hrecs] at hg
    rw [hsame.active] at hne
    rw [htail]
    exact h.apart g (mem_of_without hsplit hg) hne n hn

/-- A `continue_chain` that pops the tail belongs to the newest batch: a receipt of
an older one names nobody there. -/
theorem pop_active (h : s.Chained) {f : InFlight} {id seq : Nat} {rest : List Nat}
    (hf : f ∈ s.receipts) (hr : f.receipt = .continue_chain id seq)
    (htail : s.gate.batch_chain_tail = id :: rest) : f.batch = some s.gate.active_batch_id := by
  by_contra hne
  refine h.apart f hf hne id (by rw [hr, Receipt.next]) ?_
  rw [htail]
  exact List.mem_cons_self

/-- Popping the tail resumes the member the chain has come to. -/
theorem pop (h : s.Chained) (htagged : s'.Tagged) {pre post : List InFlight} {id seq created : Nat} {batch : Option Nat}
    {rest : List Nat} {y : YieldId} {args : CallbackArgs} {gas : Nat} (hsame : SameBatches s s')
    (hsplit : s.receipts = pre ++ ⟨.continue_chain id seq, batch, created⟩ :: post)
    (htail : s.gate.batch_chain_tail = id :: rest) (htail' : s'.gate.batch_chain_tail = rest)
    (hrecs : s'.receipts = pre ++ post ++
      [⟨.callback y args gas (.ok ⟨true, some seq, rest.head?⟩), batch, s.block_height⟩])
    (hid : args.intent_id = id)
    (hstamps : ∀ b, s'.stamps b = s.stamps b ++
      if batch = some b then [(s.block_height, .resumed id seq)] else []) : s'.Chained := by
  obtain rfl : batch = _ := h.pop_active (mem_of_split hsplit) rfl htail
  have hmem : (⟨.continue_chain id seq, some s.gate.active_batch_id, created⟩ : InFlight) ∈
      s.receipts := mem_of_split hsplit
  have hnew := batch_of_singleton
    ⟨.callback y args gas (.ok ⟨true, some seq, rest.head?⟩), some s.gate.active_batch_id,
      s.block_height⟩
  refine ⟨htagged, ?_, ?_⟩
  · intro b ids hb
    rw [hsame.batches] at hb
    by_cases hb' : some s.gate.active_batch_id = some b
    · have hact := Option.some.inj hb'
      obtain ⟨rest₀, rem, hrem, hone, howes, ht⟩ := (h.chain b ids hb).carried hmem hb'
      have hof := of_batch_same hsplit hrecs hnew hb' hone
      cases howes with
      | @to_continue _ _ rest₁ =>
        -- the tail is what the receipt says is left
        have heq : rest₁ = rest := by
          rcases ht hact.symm with ht | ht
          · rw [htail] at ht
            cases ht
          · rw [htail] at ht
            exact (List.cons.inj ht).2.symm
        subst heq
        have htrace : s'.trace b = s.trace b ++ [.resumed id seq] := by
          rw [trace_append (hstamps b), if_pos hb']
          rfl
        have howes : Owes (.callback y args gas (.ok ⟨true, some seq, rest₁.head?⟩)) rest₁ _ :=
          .callback rfl rfl rfl
        refine ⟨rest₁, _, ?_, .inr ⟨_, hof, howes, fun _ => .inr htail'⟩⟩
        rw [htrace, List.append_assoc, ← hrem, hid]
        rfl
    · obtain ⟨rest₀, rem, hrem, hrec⟩ := h.chain b ids hb
      have hst : s'.stamps b = s.stamps b := by
        rw [hstamps, if_neg hb', List.append_nil]
      refine ⟨rest₀, rem, by rw [trace_congr hst, hrem], ?_⟩
      rw [of_batch_other hsplit hrecs hnew hb', hsame.active]
      -- an older batch says nothing about the tail
      rcases hrec with hnil | ⟨g, hone, howes, -⟩
      · exact .inl hnil
      · exact .inr ⟨g, hone, howes, fun hact => absurd (hact ▸ rfl) hb'⟩
  · intro g hg hne n hn
    rw [hsame.active] at hne
    rw [hrecs, List.mem_append] at hg
    rcases hg with hg | hg
    · intro hmem'
      refine h.apart g (mem_of_without hsplit hg) hne n hn ?_
      rw [htail]
      exact List.mem_cons_of_mem _ (htail' ▸ hmem')
    · exact absurd (hnew g hg) hne

/-- **Every relay keeps the chains**, as long as nothing is forged and no stale list is
accepted. -/
theorem relay (h : s.Chained) (htagged : s'.Tagged) (hforges : ¬ a.forges d s₀)
    (hstale : ¬ a.stale d s₀) (hrelay : Relay d s₀ a s s') : s'.Chained := by
  cases hrelay with
  | still hst htail => exact h.still htagged hst (.inl htail)
  | reset hst hcall htail => exact h.still htagged hst (.inr htail)
  | start hcall hids htail htail' hactive hnow hrecs hid hlog =>
    exact h.start htagged hstale hcall hids htail' hactive hrecs hid hlog
  | pass new hsame htail hexec hblock hsplit hrecs hnew hpass hcreated hstamps =>
    exact h.pass htagged hsame htail hsplit hrecs hnew hpass hstamps
  | stop hsame htail hsplit hrecs hstops hstamps => exact h.stop htagged hsame htail hsplit hrecs hstamps
  | pop hsame hexec hsplit htail htail' hrecs hid hstamps =>
    exact h.pop htagged hsame hsplit htail htail' hrecs hid hstamps
  | forge hf => exact absurd hf hforges

theorem init (owner_id approver_id : AccountId) (balance block_height : Nat) :
    (Ledger.init owner_id approver_id balance block_height).Chained where
  toTagged := .init _ _ _ _
  chain b ids hb := by cases hb
  apart f hf := by cases hf

end Chained

/-! ## Runs without a reset -/

/-- Whoever a receipt in flight names heads the tail, and the receipt is of the
newest batch. -/
def Tight (s : Ledger) : Prop :=
  ∀ f ∈ s.receipts, ∀ n, f.receipt.next = some n →
    f.batch = some s.gate.active_batch_id ∧ s.gate.batch_chain_tail.head? = some n

end Ledger

/-- An accepted `reset_batch_tail`. -/
def Action.resets (d : Deployment) (s : Ledger) (a : Action) : Prop :=
  ∃ caller deposit, a.accepted_call d s = some (caller, deposit, .reset_batch_tail)

instance (d : Deployment) (s : Ledger) (a : Action) : Decidable (a.resets d s) :=
  decidable_of_iff ((a.accepted_call d s).map (fun c => c.2.2) = some .reset_batch_tail) (by
    rw [Option.map_eq_some_iff]
    constructor
    · rintro ⟨⟨caller, deposit, c⟩, h, rfl⟩
      exact ⟨caller, deposit, h⟩
    · rintro ⟨caller, deposit, h⟩
      exact ⟨_, h, rfl⟩)

/-- A list is only accepted when the tail is empty and its members are pending. -/
theorem Action.batch_checked {d : Deployment} {s : Ledger} {a : Action} {caller : AccountId}
    {deposit : Nat} {ids : Vec Nat}
    (h : a.accepted_call d s = some (caller, deposit, .resume_batch_chained ids)) :
    s.gate.batch_chain_tail = [] ∧ ∀ id ∈ ids.toList, id ∈ s.gate.pending := by
  obtain ⟨-, out, hrun⟩ := Action.accepted_call_run h
  have heff := GateCall.run_effect hrun
  generalize out.gate = g' at heff
  generalize out.action = act at heff
  cases heff with
  | admin hc => cases hc
  | batch happr htail hids htier hdep hfee hknown => exact ⟨htail, hknown⟩

namespace Ledger

variable {d : Deployment} {s s' s₀ : Ledger} {a : Action}

namespace Tight

/-- When the tail is empty nobody is named, so no list is stale. -/
theorem not_stale (h : s.Tight) : ¬ a.stale d s := by
  rintro ⟨⟨caller, deposit, c⟩, hcall, f, hf, n, hn, hmem⟩
  cases c with
  | resume_batch_chained ids =>
    -- whoever is named heads the tail, but a list is accepted on an empty one
    have hhead := (h f hf n hn).2
    rw [(Action.batch_checked hcall).1] at hhead
    cases hhead
  | _ => cases hmem

theorem relay (h : s.Tight) (hchain : s.Chained) (hforges : ¬ a.forges d s₀)
    (hreset : ¬ a.resets d s₀) (hrelay : Relay d s₀ a s s') : s'.Tight := by
  intro g hg n hn
  cases hrelay with
  | still hst htail =>
    obtain ⟨f, hf, hfn, hfb⟩ := hst.next g hg n hn
    rw [htail, hst.active, ← hfb]
    exact h f hf n hfn
  | reset hst hcall htail => exact absurd ⟨_, _, hcall⟩ hreset
  | start hcall hids htail htail' hactive hnow hrecs hid hlog =>
    rw [hrecs, List.mem_append, List.mem_singleton] at hg
    rcases hg with hg | rfl
    · -- the tail was empty, so no older receipt names anybody
      have hhead := (h g hg n hn).2
      rw [htail] at hhead
      cases hhead
    · rw [hactive, htail']
      exact ⟨rfl, hn⟩
  | @pass _ _ f pre post st new hsame htail hexec hblock hsplit hrecs hnew hpass hcreated hstamps =>
    rw [htail, hsame.active]
    rw [hrecs, List.mem_append] at hg
    rcases hg with hg | hg
    · exact h g (mem_of_without hsplit hg) n hn
    · have hnext := hpass.next g.receipt (List.mem_map.2 ⟨g, hg, rfl⟩)
      rw [hnew g hg]
      exact h f (mem_of_split hsplit) n (hnext ▸ hn)
  | stop hsame htail hsplit hrecs hstops hstamps =>
    rw [htail, hsame.active]
    rw [hrecs] at hg
    exact h g (mem_of_without hsplit hg) n hn
  | @pop _ pre post id seq created batch rest y args gas hsame hexec hsplit htail htail' hrecs
      hid hstamps =>
    rw [htail', hsame.active]
    have hactive := hchain.pop_active (mem_of_split hsplit) rfl htail
    rw [hrecs, List.mem_append, List.mem_singleton] at hg
    rcases hg with hg | rfl
    · -- a second receipt that names somebody would be a second one of the batch
      exfalso
      have hgb := (h g (mem_of_without hsplit hg) n hn).1
      have hrecs' : (s.without pre post).receipts = pre ++ post ++ [] :=
        (List.append_nil _).symm
      have hrest := hchain.replaced hsplit hrecs' (fun _ h => by cases h) hactive
      have hmem : g ∈ (s.without pre post).of_batch s.gate.active_batch_id :=
        mem_of_batch.2 ⟨hg, hgb⟩
      rw [hrest] at hmem
      cases hmem
    · exact ⟨hactive, hn⟩
  | forge hf => exact absurd hf hforges

end Tight

/-! ## Intents that stay away from the gate -/

/-- The ledger carries this call: under a yield, in a callback, or on its way. -/
def CarriesCall (s : Ledger) (call : FunctionCall) : Prop :=
  (∃ y w, s.yields.lookup y = some w ∧ w.args.toFunctionCall = call) ∨
  ∃ f ∈ s.receipts, (∃ y args gas signal, f.receipt = .callback y args gas signal ∧
      args.toFunctionCall = call) ∨
    ∃ id and_then ran, f.receipt = .target_call id call and_then ran

/-- No call the ledger carries is addressed to the gate. -/
def Outward (d : Deployment) (s : Ledger) : Prop :=
  ∀ call, s.CarriesCall call → call.receiver ≠ d.gate_id

end Ledger

/-- The receiver of the intent a submission carries. -/
def GateCall.submitted (host : Host) : GateCall → Option AccountId
  | .submit_intent b =>
    match SignedDelegateAction.try_from_slice host b with
    | .ok signed => some signed.delegate_action.receiver_id
    | .error _ => none
  | _ => none

/-- An accepted submission of an intent addressed to the gate. -/
def Action.targets_gate (d : Deployment) (s : Ledger) (a : Action) : Prop :=
  (a.accepted_call d s).bind (fun c => c.2.2.submitted d.host) = some d.gate_id

instance (d : Deployment) (s : Ledger) (a : Action) : Decidable (a.targets_gate d s) :=
  inferInstanceAs (Decidable (_ = some d.gate_id))

namespace Ledger

variable {d : Deployment} {s s' s₀ : Ledger} {a : Action}

theorem CarriesCall.of_apply {e : Event} {out : Outcome} {deposit : Nat} {batch : Option Nat}
    {spare : Nat} {call : FunctionCall} (h : (s.apply e out deposit batch spare).CarriesCall call) :
    s.CarriesCall call ∨ (∃ args, out.action = .new_yield args ∧ args.toFunctionCall = call) ∨
      ∃ id and_then, out.action = .function_call id call and_then := by
  have hcarries : ∀ args, (s.apply e out deposit batch spare).Carries args →
      args.toFunctionCall = call → s.CarriesCall call ∨
        ∃ args, out.action = .new_yield args ∧ args.toFunctionCall = call := by
    intro args hc hcall
    rcases hc.of_apply with (⟨y, w, hw, rfl⟩ | ⟨f, hf, y, gas, signal, hr⟩) | hnew
    · exact .inl (.inl ⟨y, w, hw, hcall⟩)
    · exact .inl (.inr ⟨f, hf, .inl ⟨y, args, gas, signal, hr, hcall⟩⟩)
    · exact .inr ⟨args, hnew, hcall⟩
  rcases h with ⟨y, w, hw, hcall⟩ | ⟨f, hf, ⟨y, args, gas, signal, hr, hcall⟩ | ⟨id, th, ran, hr⟩⟩
  · rcases hcarries w.args (.inl ⟨y, w, hw, rfl⟩) hcall with h | h
    · exact .inl h
    · exact .inr (.inl h)
  · rcases hcarries args (.inr ⟨f, hf, y, gas, signal, hr⟩) hcall with h | h
    · exact .inl h
    · exact .inr (.inl h)
  · rw [apply_receipts, List.mem_append] at hf
    rcases hf with hf | hf
    · exact .inl (.inr ⟨f, hf, .inr ⟨id, th, ran, hr⟩⟩)
    · exact .inr (.inr ⟨_, _, target_of_created hf hr⟩)

theorem CarriesCall.of_without {pre post : List InFlight} {f : InFlight} {call : FunctionCall}
    (hrecs : s.receipts = pre ++ f :: post) (h : (s.without pre post).CarriesCall call) :
    s.CarriesCall call := by
  rcases h with hy | ⟨g, hg, hc⟩
  · exact .inl hy
  · exact .inr ⟨g, mem_of_without hrecs hg, hc⟩

/-- A gate call brings no new call but by a submission. -/
theorem CarriesCall.of_called {c : GateCall} {caller : AccountId} {deposit dep spare : Nat}
    {batch : Option Nat} {out : Outcome} {e : Event} {call : FunctionCall}
    (heff : CallEffect d.host (s.env d caller deposit) s.gate c out.gate out.action)
    (h : (s.apply e out dep batch spare).CarriesCall call) :
    s.CarriesCall call ∨ ∃ b signed, c = .submit_intent b ∧
      SignedDelegateAction.try_from_slice d.host b = .ok signed ∧
      call.receiver = signed.delegate_action.receiver_id := by
  rcases h.of_apply with h | ⟨args, hnew, rfl⟩ | ⟨id, and_then, hcall⟩
  · exact .inl h
  · right
    generalize out.gate = g' at heff
    rw [hnew] at heff
    generalize hact : HostAction.new_yield args = act at heff
    cases heff with
    | admin hc frame ha =>
      subst hact
      rcases ha with ha | ⟨to_id, amount, ha⟩ <;> cases ha
    | @submit b signed fc hrel hdec hver hexp hnonce hfc hid hsub =>
      cases hact
      exact ⟨b, signed, rfl, hdec, rfl⟩
    | _ => cases hact
  · exact absurd hcall (called_dispatches_not heff)

/-- A timed-out callback carries the call of its yield. -/
theorem CarriesCall.of_time_out {y : YieldId} {w : OpenYield} {call : FunctionCall}
    (hw : s.yields.lookup y = some w) (h : (s.time_out y w).CarriesCall call) :
    s.CarriesCall call := by
  rcases h with ⟨z, v, hv, hcall⟩ | ⟨f, hf, hr⟩
  · exact .inl ⟨z, v, lookup_of_erase hv, hcall⟩
  · simp only [Ledger.time_out, push_receipts, record_receipts, List.mem_append,
      List.mem_singleton] at hf
    rcases hf with hf | rfl
    · exact .inr ⟨f, hf, hr⟩
    · rcases hr with ⟨z, args, gas, signal, hr, hcall⟩ | ⟨id, th, ran, hr⟩
      · cases hr
        exact .inl ⟨y, w, hw, hcall⟩
      · cases hr

/-- The call a callback sends out is the one in its arguments. -/
theorem CarriesCall.of_resumed {y : YieldId} {args : CallbackArgs} {gas created : Nat}
    {signal : Except PromiseError ResumeSignal} {batch : Option Nat} {pre post : List InFlight}
    {out : Outcome} {call : FunctionCall}
    (hrecs : s.receipts = pre ++ ⟨.callback y args gas signal, batch, created⟩ :: post)
    (hret : Returns (s.gate.on_intent_resumed args signal) out.gate out.action)
    (h : ((s.without pre post).apply (callback_event args batch signal out.action) out 0 batch
      0).CarriesCall call) : s.CarriesCall call := by
  rcases h.of_apply with h | ⟨args', hnew, -⟩ | ⟨id, and_then, hact⟩
  · exact h.of_without hrecs
  · rcases resumed_action hret with hact | ⟨_, hact⟩
    · rw [hact] at hnew
      cases hnew
    · rw [hact] at hnew
      cases hnew
  · rcases resumed_action hret with hact' | ⟨_, hact'⟩
    · rw [hact'] at hact
      cases hact
    · rw [hact'] at hact
      cases hact
      exact .inr ⟨⟨_, batch, created⟩, mem_of_split hrecs, .inl ⟨y, args, gas, signal, rfl, rfl⟩⟩

/-- A target call that has run still carries its own call. -/
theorem CarriesCall.of_ran {id created : Nat} {call call' : FunctionCall}
    {and_then : Option (Nat × Nat)} {batch : Option Nat} {pre post : List InFlight} {ok : Bool}
    (hrecs : s.receipts = pre ++ ⟨.target_call id call' and_then false, batch, created⟩ :: post)
    (h : ((s.without pre post).ran ⟨.target_call id call' and_then false, batch, created⟩
      id call' and_then ok).CarriesCall call) : s.CarriesCall call := by
  rcases h with hy | ⟨f, hf, hr⟩
  · exact .inl hy
  · have hf : f ∈ pre ++ post ++ [⟨.target_call id call' and_then true, batch, created⟩] := hf
    rw [List.mem_append, List.mem_singleton] at hf
    rcases hf with hf | rfl
    · exact .inr ⟨f, mem_of_without hrecs hf, hr⟩
    · rcases hr with ⟨z, args, gas, signal, hr, -⟩ | ⟨id', th, ran, hr⟩
      · cases hr
      · cases hr
        exact .inr ⟨⟨_, batch, created⟩, mem_of_split hrecs, .inr ⟨id, and_then, false, rfl⟩⟩

/-- A `continue_chain` that is queued carries no call. -/
theorem CarriesCall.of_finish {batch : Option Nat} {id : Nat} {and_then : Option (Nat × Nat)}
    {success : Bool} {call : FunctionCall}
    (h : (s.finish batch id and_then success).CarriesCall call) : s.CarriesCall call := by
  cases and_then with
  | none => exact h
  | some next =>
    rcases h with hy | ⟨f, hf, hr⟩
    · exact .inl hy
    · simp only [Ledger.finish, push_receipts, record_receipts, List.mem_append,
        List.mem_singleton] at hf
      rcases hf with hf | rfl
      · exact .inr ⟨f, hf, hr⟩
      · rcases hr with ⟨z, args, gas, signal, hr, -⟩ | ⟨id', th, ran, hr⟩
        · cases hr
        · cases hr

theorem CarriesCall.of_settle {to_id : AccountId} {amount : Nat} {success : Bool}
    {call : FunctionCall} (h : (s.settle d to_id amount success).CarriesCall call) :
    s.CarriesCall call := by
  unfold Ledger.settle at h
  split at h <;> exact h

namespace Outward

theorem move (h : s.Outward d) (htarget : ¬ a.targets_gate d s₀) (hmove : Move d s₀ a s s') :
    s'.Outward d := by
  intro call hc
  cases hmove with
  | advance ha => exact h call hc
  | refused hcall => exact h call hc
  | @called caller deposit spare c out hcall hacc hcaller hspare heff =>
    rcases CarriesCall.of_called heff hc with hc | ⟨b, signed, rfl, hdec, hrecv⟩
    · exact h call hc
    · intro heq
      -- the new intent is the one just submitted, and it is addressed to the gate
      refine htarget ?_
      rw [Action.targets_gate, hacc, Option.bind_some]
      simp only [GateCall.submitted, hdec]
      rw [← hrecv, heq]
  | timed_out ha hw => exact h call (hc.of_time_out hw)
  | resumed ha htake hret => exact h call (hc.of_resumed htake.split hret)
  | aborted ha htake hfail =>
    have hc' := CarriesCall.of_without htake.split hc
    exact h call hc'
  | ran hf hblock hrecs => exact h call (hc.of_ran hrecs)
  | finished ha htake => exact h call (hc.of_finish.of_without htake.split)
  | @continued i next_id next_seq batch created pre post out ha htake heff =>
    rcases CarriesCall.of_called (s := s.without pre post) heff hc with hc | ⟨b, signed, hb, -⟩
    · exact h call (hc.of_without htake.split)
    · cases hb
  | continue_failed ha htake hfail =>
    have hc' := CarriesCall.of_without htake.split hc
    exact h call hc'
  | settled ha htake => exact h call (hc.of_settle.of_without htake.split)

theorem init (owner_id approver_id : AccountId) (balance block_height : Nat) :
    (Ledger.init owner_id approver_id balance block_height).Outward d := by
  rintro call (⟨y, w, hw, -⟩ | ⟨f, hf, -⟩)
  · cases hw
  · cases hf

/-- Where every call goes outside, no dispatched call is a gate call. -/
theorem gate_call_execute (h : s.Outward d) (i spare : Nat) (success : Bool) :
    (Action.execute i spare success).gate_call d s = none := by
  simp only [Action.gate_call]
  split
  · rename_i id call and_then batch created hget
    have hne : call.receiver ≠ d.gate_id :=
      h call (.inr ⟨⟨_, batch, created⟩, List.mem_of_getElem? hget,
        .inr ⟨id, and_then, false, rfl⟩⟩)
    rw [if_neg hne]
  · rfl

theorem not_forges (h : s.Outward d) (hstep : step d s a = some s') : ¬ a.forges d s := by
  rintro ⟨c, hcall, hself, -⟩
  cases a with
  | call caller deposit spare c =>
    cases hcall
    simp only at hself
    simp [step, hself] at hstep
  | execute i spare success =>
    rw [h.gate_call_execute] at hcall
    cases hcall
  | _ => cases hcall

end Outward

end Ledger

end SequentialNear
