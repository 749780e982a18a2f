/-
What a move of the ledger takes from the queue, what it logs and what it leaves.

Most accounts of the gate are kept by no method alone. A call orders something, and a
receipt delivers it blocks later: an approval orders a dispatch, a dispatch orders a
call, a withdrawal orders a transfer. [`Exchange`] lists for every kind of move the
event it logs, the receipt it takes and the receipt it creates, with the little that
these have to say about each other; [`Ledger.move_exchange`] is the inversion. An
account then is kept when it passes a case analysis over the list
([`Reachable.balanced`]). The first account is that of the calls themselves: what has
been dispatched is a call in the queue, or one that was executed
([`Reachable.handed`]).
-/
import SequentialNear.Lifecycle
import SequentialNear.Handover

set_option autoImplicit false

namespace SequentialNear

open Nep366 Handover Runs

/-- The intent a call resumes if it returns, and whether with an approval. -/
def GateCall.decides : GateCall → Option (Nat × Bool)
  | .resume_intent id approve => some (id, approve)
  | .resume_batch_chained ids => ids.toList.head?.map fun id => (id, true)
  | .continue_chain id _ => some (id, true)
  | _ => none

/-- What a call pays out if it returns, and to whom. -/
def GateCall.pays : GateCall → Option (AccountId × Nat)
  | .withdraw_fees amount to_id => some (to_id, amount)
  | _ => none

/-- The receipts that an accepted call creates. -/
inductive Creates : GateCall → List Receipt → Prop
  | nothing {c : GateCall} (hdecides : c.decides = none) (hpays : c.pays = none) : Creates c []
  | payment {c : GateCall} {to_id : AccountId} {amount : Nat} (hdecides : c.decides = none)
      (hpays : c.pays = some (to_id, amount)) : Creates c [.transfer to_id amount]
  | callback {c : GateCall} {y : YieldId} {args : CallbackArgs} {gas : Nat} {v : ResumeSignal}
      (hdecides : c.decides = some (args.intent_id, v.approve)) (hpays : c.pays = none) :
      Creates c [.callback y args gas (.ok v)]

/-- An administrative call that returns asks for what it pays out, and for nothing else. -/
theorem GateCall.run_pays {host : Host} {env : Env} {g : Gate} {c : GateCall} {out : Outcome}
    (h : c.run host env g = .ok out) (hc : c.isAdmin = true) :
    out.action = c.pays.elim .none fun p => .transfer p.1 p.2 := by
  have hr := returns_of_eq_ok h
  cases c with
  | add_relayer account_id =>
    simp only [run, Gate.add_relayer, returns_bind, returns_pure] at hr
    obtain ⟨_, -, _, -, -, ha⟩ := hr
    exact ha
  | remove_relayer account_id =>
    simp only [run, Gate.remove_relayer, returns_bind, returns_pure] at hr
    obtain ⟨_, -, _, -, -, ha⟩ := hr
    exact ha
  | set_approver account_id =>
    simp only [run, Gate.set_approver, returns_bind, returns_pure] at hr
    obtain ⟨_, -, _, -, -, ha⟩ := hr
    exact ha
  | set_fee_tiers tiers =>
    simp only [run, Gate.set_fee_tiers, returns_bind, returns_pure] at hr
    obtain ⟨_, -, _, -, _, -, _, -, -, ha⟩ := hr
    exact ha
  | withdraw_fees amount to_id =>
    simp only [run, Gate.withdraw_fees, returns_bind, returns_pure] at hr
    obtain ⟨_, -, _, -, _, -, _, -, -, ha⟩ := hr
    exact ha
  | view =>
    simp only [run, returns_pure] at hr
    exact hr.2
  | _ => cases hc

/-- The events a move logs, the receipts it takes and those it creates. -/
inductive Exchange : List Event → List Receipt → List Receipt → Prop
  | wait : Exchange [] [] []
  | refused (caller : AccountId) (deposit : Nat) (c : GateCall) (msg : String) :
      Exchange [.refused caller deposit c msg] [] []
  | accepted (caller : AccountId) (deposit : Nat) {c : GateCall} {new : List Receipt}
      (hnew : Creates c new) : Exchange [.accepted caller deposit c] [] new
  | timed_out (y : YieldId) (args : CallbackArgs) (gas : Nat) (e : PromiseError) :
      Exchange [.timed_out args.intent_id] [] [.callback y args gas (.error e)]
  | lapsed (y : YieldId) (args : CallbackArgs) (gas : Nat) (e : PromiseError) :
      Exchange [.rejected args.intent_id true] [.callback y args gas (.error e)] []
  | rejected (y : YieldId) (args : CallbackArgs) (gas : Nat) {v : ResumeSignal}
      (hv : v.approve = false) :
      Exchange [.rejected args.intent_id false] [.callback y args gas (.ok v)] []
  | dispatched (y : YieldId) (args : CallbackArgs) (gas : Nat) {v : ResumeSignal}
      (batch : Option Nat) (and_then : Option (Nat × Nat)) (hv : v.approve = true) :
      Exchange [.dispatched args.intent_id args.toFunctionCall v.sequence_number batch]
        [.callback y args gas (.ok v)]
        [.target_call args.intent_id args.toFunctionCall and_then false]
  | aborted (y : YieldId) (args : CallbackArgs) (gas : Nat) {v : ResumeSignal}
      (batch : Option Nat) (hv : v.approve = true) :
      Exchange [.aborted args.intent_id batch] [.callback y args gas (.ok v)] []
  | executed (id : Nat) (call : FunctionCall) (and_then : Option (Nat × Nat)) (batch : Option Nat)
      (ok : Bool) : Exchange [.executed id call ok batch] [.target_call id call and_then false]
        [.target_call id call and_then true]
  | finished (id : Nat) (call : FunctionCall) (and_then : Option (Nat × Nat)) (batch : Option Nat)
      (success : Bool) : Exchange [.finished id success batch] [.target_call id call and_then true]
        (and_then.toList.map fun n => .continue_chain n.1 n.2)
  | continued (next_seq : Nat) (batch : Option Nat) (y : YieldId) (args : CallbackArgs) (gas : Nat)
      {v : ResumeSignal} (hv : v.approve = true) :
      Exchange [.continued args.intent_id next_seq batch] [.continue_chain args.intent_id next_seq]
        [.callback y args gas (.ok v)]
  | continue_failed (next_id next_seq : Nat) (msg : String) (batch : Option Nat) :
      Exchange [.continue_failed next_id next_seq msg batch] [.continue_chain next_id next_seq] []
  | settled (to_id : AccountId) (amount : Nat) (success : Bool) :
      Exchange [.transferred to_id amount success] [.transfer to_id amount] []

namespace Ledger

variable {d : Deployment} {s s' s₀ : Ledger} {a : Action}

def events (s : Ledger) : List Event := s.log.map (·.event)
def queued (s : Ledger) : List Receipt := s.receipts.map (·.receipt)

/-- From `s` to `s'` an exchange took place, and nothing else in the log and the queue. -/
def Exchanged (s s' : Ledger) : Prop :=
  ∃ events taken new rest, Exchange events taken new ∧ s.queued.Perm (taken ++ rest) ∧
    s'.queued.Perm (rest ++ new) ∧ s'.events = s.events ++ events

theorem events_of_log {e : Event} (hlog : s'.log = s.log ++ [⟨s.block_height, s.gate, e⟩]) :
    s'.events = s.events ++ [e] := by
  rw [events, hlog, List.map_append]
  rfl

/-- A move that takes no receipt. -/
theorem Exchanged.of_new {e : Event} {new : List Receipt} (h : Exchange [e] [] new)
    (hlog : s'.log = s.log ++ [⟨s.block_height, s.gate, e⟩])
    (hnew : s'.queued = s.queued ++ new) : s.Exchanged s' :=
  ⟨_, _, _, s.queued, h, .refl _, .of_eq hnew, events_of_log hlog⟩

/-- A move that executes a receipt. -/
theorem Exchanged.of_taken {pre post : List InFlight} {f : InFlight} {e : Event}
    {new : List Receipt} (hrecs : s.receipts = pre ++ f :: post) (h : Exchange [e] [f.receipt] new)
    (hlog : s'.log = s.log ++ [⟨s.block_height, s.gate, e⟩])
    (hnew : s'.queued = (s.without pre post).queued ++ new) : s.Exchanged s' := by
  refine ⟨_, _, _, (s.without pre post).queued, h, ?_, .of_eq hnew, events_of_log hlog⟩
  have hswap : s.receipts.Perm (f :: (pre ++ post)) := hrecs ▸ List.perm_middle
  exact hswap.map (·.receipt)

theorem queued_apply (e : Event) (out : Outcome) (deposit : Nat) (batch : Option Nat)
    (spare : Nat) : (s.apply e out deposit batch spare).queued =
      s.queued ++ (s.created batch out.action).map (·.receipt) := by
  rw [queued, apply_receipts, List.map_append, queued]

/-- What an accepted call creates. -/
theorem creates_of_call (h : s.Lifecycle) {c : GateCall} {caller : AccountId} {deposit : Nat}
    {g' : Gate} {act : HostAction} {batch : Option Nat}
    (heff : CallEffect d.host (s.env d caller deposit) s.gate c g' act)
    (hpays : c.isAdmin = true → act = (c.pays.elim .none fun p => .transfer p.1 p.2)) :
    Creates c ((s.created batch act).map (·.receipt)) := by
  have hresume : ∀ {id : Nat} {p : PendingIntent} {v : ResumeSignal},
      s.gate.pending.lookup id = some p → (s.env d caller deposit).yield_is_open p.yield_id = true →
      c.decides = some (id, v.approve) → c.pays = none →
      Creates c ((s.created batch (.resume p.yield_id v)).map (·.receipt)) := by
    intro id p v hp hopen hdecides hnone
    obtain ⟨w, hw⟩ := yield_is_open_iff.1 hopen
    have hid := h.resume_same hp hw
    simp only [created, hw, List.map_singleton]
    exact .callback (hid ▸ hdecides) hnone
  cases heff with
  | admin hc frame ha =>
    rw [hpays hc]
    cases c with
    | withdraw_fees amount to_id => exact .payment rfl rfl
    | add_relayer | remove_relayer | set_approver | set_fee_tiers | view => exact .nothing rfl rfl
    | _ => cases hc
  | reset | submit => exact .nothing rfl rfl
  | resume happr htier hdep hfee hp hopen => exact hresume hp hopen rfl rfl
  | batch happr htail hids htier hdep hfee hknown hid hp hopen =>
    refine hresume hp hopen ?_ rfl
    simp only [GateCall.decides, hids, List.head?_cons, Option.map_some]
  | chain hpriv hfree htail hp hopen => exact hresume hp hopen rfl rfl

/-- **Every move is an exchange.** -/
theorem move_exchange (h : s.Lifecycle) (hmove : Move d s₀ a s s') : s.Exchanged s' := by
  cases hmove with
  | advance ha =>
    exact ⟨[], [], [], s.queued, .wait, .refl _, .of_eq (List.append_nil _).symm,
      (List.append_nil _).symm⟩
  | refused hcall => exact .of_new (.refused _ _ _ _) rfl (List.append_nil _).symm
  | called hcall hacc hcaller hspare heff hrun =>
    exact .of_new (.accepted _ _ (creates_of_call h heff (GateCall.run_pays hrun)))
      (apply_log _ _ _ _ _) (queued_apply _ _ _ _ _)
  | @timed_out y w ha hw =>
    refine .of_new (.timed_out y w.args w.gas .Failed) rfl ?_
    simp only [queued, time_out, push_receipts, record_receipts, List.map_append]
    rfl
  | @resumed i burnt y args gas signal batch created pre post out ha htake hret hfits =>
    have hlog := apply_log (s := s.without pre post)
      (callback_event args batch signal out.action) out 0 batch 0
    have hnew := queued_apply (s := s.without pre post)
      (callback_event args batch signal out.action) out 0 batch 0
    refine .of_taken htake.split ?_ hlog hnew
    cases signal with
    | error e =>
      obtain ⟨-, -, hact⟩ := Gate.on_intent_resumed_timeout.1 hret
      rw [callback_event_timeout hret, hact]
      exact .lapsed y args gas e
    | ok v =>
      cases hv : v.approve with
      | false =>
        obtain ⟨-, -, hact⟩ := (Gate.on_intent_resumed_reject hv).1 hret
        rw [callback_event_reject hv hret, hact]
        exact .rejected y args gas hv
      | true =>
        obtain ⟨-, and_then, -, -, hact⟩ := (Gate.on_intent_resumed_approve hv).1 hret
        rw [callback_event_approve hv hret, hact]
        exact .dispatched y args gas batch and_then hv
  | @aborted i burnt y args gas signal batch created pre post ha htake hfail =>
    refine .of_taken htake.split ?_ rfl (List.append_nil _).symm
    -- only an approval can ask for more than there is
    have hcheap : ∀ g, Returns (s.gate.on_intent_resumed args signal) g .none → False :=
      fun g hg => hfail _ _ hg (HostAction.fits_none _ _ _)
    cases signal with
    | error e =>
      obtain ⟨g, hg⟩ := h.timeout_completes rfl htake.split
      exact (hcheap g hg).elim
    | ok v =>
      cases hv : v.approve with
      | false =>
        obtain ⟨g, hg⟩ := h.reject_completes rfl hv htake.split
        exact (hcheap g hg).elim
      | true => exact .aborted y args gas batch hv
  | @ran _ id call and_then batch created pre post ok hf hblock hrecs =>
    refine .of_taken hrecs (.executed id call and_then batch ok) rfl ?_
    simp only [queued, Ledger.ran, List.map_append]
    rfl
  | @finished i success id call and_then batch created pre post ha htake =>
    refine .of_taken htake.split (.finished id call and_then batch success) (finish_log _ _ _ _) ?_
    cases and_then with
    | none => exact (List.append_nil _).symm
    | some next =>
      simp only [queued, Ledger.finish, push_receipts, record_receipts, List.map_append]
      rfl
  | @continued i next_id next_seq batch created pre post out ha htake heff =>
    have hlog := apply_log (s := s.without pre post) (.continued next_id next_seq batch) out
      0 batch 0
    have hnew := queued_apply (s := s.without pre post) (.continued next_id next_seq batch) out 0
      batch 0
    refine .of_taken htake.split ?_ hlog hnew
    have hlife := h.without htake.split rfl rfl
    generalize out.gate = g' at heff
    generalize out.action = act at heff
    cases heff with
    | admin hc => cases hc
    | @chain _ _ rest p hpriv hfree htail hp hopen =>
      obtain ⟨w, hw⟩ := yield_is_open_iff.1 hopen
      have hid := hlife.resume_same hp hw
      have hw' : (s.without pre post).yields.lookup p.yield_id = some w := hw
      simp only [Ledger.created, hw', List.map_singleton]
      subst hid
      exact .continued next_seq batch p.yield_id w.args w.gas rfl
  | continue_failed ha htake hfail =>
    exact .of_taken htake.split (.continue_failed _ _ _ _) rfl (List.append_nil _).symm
  | @settled i success to_id amount batch created pre post ha htake =>
    refine .of_taken htake.split (.settled to_id amount success) (settle_log _ _ _ _) ?_
    unfold Ledger.settle
    split <;> exact (List.append_nil _).symm

end Ledger

/-- **The account rule.** An account that every exchange passes on is balanced in every
reachable state. -/
theorem Reachable.balanced {α : Type} {d : Deployment} {s : Ledger} (h : Reachable d s)
    (k : Account Event Receipt α)
    (hpasses : ∀ events taken new, Exchange events taken new → PassesOn k events taken new) :
    InBalance k s.events s.queued := by
  let I : Ledger → Prop := fun t => t.Lifecycle ∧ InBalance k t.events t.queued
  have hinv : I s := by
    refine h.invariant I (fun _ _ _ _ => ⟨.init _ _ _ _, inBalance_nil⟩) ?_
    rintro s₀ a t t' ⟨hlife, ht⟩ hmove
    obtain ⟨events, taken, new, rest, hexchange, hqueue, hqueue', hlog⟩ :=
      Ledger.move_exchange hlife hmove
    exact ⟨hlife.move hmove, ht.step hqueue (hpasses _ _ _ hexchange) hlog hqueue'⟩
  exact hinv.2

/-! ## From a dispatch to its execution -/

/-- The call a callback dispatched. -/
def Event.dispatch : Event → Option (Nat × FunctionCall)
  | .dispatched id call _ _ => some (id, call)
  | _ => none

/-- The call a receiver executed. -/
def Event.execution : Event → Option (Nat × FunctionCall)
  | .executed id call _ _ => some (id, call)
  | _ => none

/-- The call a receipt has still to make. -/
def Receipt.owed : Receipt → Option (Nat × FunctionCall)
  | .target_call id call _ false => some (id, call)
  | _ => none

namespace Ledger

def calls_dispatched (s : Ledger) : List (Nat × FunctionCall) := s.log.filterMap (·.event.dispatch)
def calls_made (s : Ledger) : List (Nat × FunctionCall) := s.log.filterMap (·.event.execution)
def calls_owed (s : Ledger) : List (Nat × FunctionCall) := s.receipts.filterMap (·.receipt.owed)

/-- The calls the gate has issued: those executed and those in flight. -/
def calls_issued (s : Ledger) : List (Nat × FunctionCall) := s.calls_made ++ s.calls_owed

/-- The calls between their dispatch and their execution. -/
def custody : Account Event Receipt (Nat × FunctionCall) where
  ordered := Event.dispatch
  delivered := Event.execution
  held := Receipt.owed

/-- A callback that dispatches a call owes it, and the receipt that executes it owes it no
longer. -/
theorem custody_passes {events : List Event} {taken new : List Receipt}
    (h : Exchange events taken new) : PassesOn custody events taken new := by
  cases h with
  | accepted caller deposit hnew => cases hnew <;> exact .refl _
  | finished id call and_then => cases and_then <;> exact .refl _
  | _ => exact .refl _

/-- The dispatched calls, without the calls, are the intents dispatched. -/
theorem dispatched_fst (s : Ledger) : s.calls_dispatched.map Prod.fst = s.met .dispatched := by
  rw [calls_dispatched, met, fates, List.map_filterMap, List.filterMap_filterMap]
  refine List.filterMap_congr fun en _ => ?_
  obtain ⟨block, before, event⟩ := en
  cases event <;> rfl

end Ledger

/-- **Every dispatched call** has been executed or is still to be, once. -/
theorem Reachable.handed {d : Deployment} {s : Ledger} (h : Reachable d s) :
    (s.calls_made ++ s.calls_owed).Perm s.calls_dispatched := by
  have hbalanced := h.balanced Ledger.custody fun _ _ _ => Ledger.custody_passes
  rw [InBalance, Ledger.events, Ledger.queued, List.filterMap_map, List.filterMap_map,
    List.filterMap_map] at hbalanced
  exact hbalanced

/-- The intents whose call has been issued are the dispatched ones. -/
theorem Reachable.issued_perm {d : Deployment} {s : Ledger} (h : Reachable d s) :
    (s.calls_issued.map Prod.fst).Perm (s.met .dispatched) := by
  rw [← Ledger.dispatched_fst]
  exact h.handed.map Prod.fst

theorem Reachable.dispatched_issued {d : Deployment} {s : Ledger} (h : Reachable d s) {en : Entry}
    {id : Nat} {call : FunctionCall} {seq batch : Option Nat} (hen : en ∈ s.log)
    (hev : en.event = .dispatched id call seq batch) : (id, call) ∈ s.calls_issued :=
  h.handed.mem_iff.2 (List.mem_filterMap.2 ⟨en, hen, by rw [hev]; rfl⟩)

/-- A call that has been issued was dispatched, and its intent met no other fate. -/
theorem Reachable.issued_dispatched {d : Deployment} {s : Ledger} (h : Reachable d s) {id : Nat}
    {call : FunctionCall} (hissued : (id, call) ∈ s.calls_issued) :
    ∃ pre en post seq batch, s.log = pre ++ en :: post ∧
      en.event = .dispatched id call seq batch ∧
      ∀ en' ∈ pre ++ post, en'.event.fate.map Prod.fst ≠ some id := by
  have hdispatched : (id, call) ∈ s.calls_dispatched := h.handed.mem_iff.1 hissued
  obtain ⟨en, hen, hcall⟩ := List.mem_filterMap.1 hdispatched
  obtain ⟨pre, post, hlog⟩ := List.append_of_mem hen
  have hevent : ∃ seq batch, en.event = .dispatched id call seq batch := by
    cases hev : en.event with
    | dispatched n c seq batch =>
      rw [hev] at hcall
      cases hcall
      exact ⟨seq, batch, rfl⟩
    | _ =>
      rw [hev] at hcall
      cases hcall
  obtain ⟨seq, batch, hev⟩ := hevent
  have hnodup : (s.log.filterMap fun e => e.event.fate.map Prod.fst).Nodup := by
    have hfates := h.lifecycle.fates_nodup
    rwa [Ledger.fates, List.map_filterMap] at hfates
  exact ⟨pre, en, post, seq, batch, hlog, hev,
    unique_of_nodup_filterMap hnodup hlog (by rw [hev]; rfl)⟩

/-- No intent is executed twice. -/
theorem Reachable.made_nodup {d : Deployment} {s : Ledger} (h : Reachable d s) :
    ((s.calls_made ++ s.calls_owed).map Prod.fst).Nodup := by
  have hperm : ((s.calls_made ++ s.calls_owed).map Prod.fst).Perm _ := h.issued_perm
  exact hperm.nodup_iff.2 (h.lifecycle.met_nodup _)

end SequentialNear
