/-
The life of an intent, from submission to settlement.

Every intent is a one-shot ticket whose hold is its yield: `submit_intent` mints
it, the three resume sites release it, a timeout lets it lapse, and the yield
callback settles it with a [`Fate`]. [`Ledger.books`] reads the ledger this way
and [`move_books`] is the simulation: every move of the ledger is a step of the
books. The accounts of `Tickets.lean` then hold of every reachable state.

The contract's own counters are read against the same books. They matter for
more than statistics: a callback whose counter overflowed would abort, and
[`Counters`] is what shows that none does.
-/
import SequentialNear.LedgerSpec
import SequentialNear.Tickets
import Mathlib.Data.List.Count

set_option autoImplicit false

namespace SequentialNear

open Nep366 Tickets

/-! ## Reading the books off a ledger -/

/-- What became of an intent whose callback has been executed. -/
inductive Fate
  | dispatched
  | rejected
  /-- The callback was reverted. -/
  | aborted
deriving DecidableEq

/-- The yield and the intent of a timed-out callback. -/
def Receipt.lapsed : Receipt → Option (YieldId × Nat)
  | .callback y args _ (.error _) => some (y, args.intent_id)
  | _ => none

/-- The intent of a resumed callback. -/
def Receipt.resumed : Receipt → Option Nat
  | .callback _ args _ (.ok _) => some args.intent_id
  | _ => none

/-- The intent an event settles, and how. -/
def Event.fate : Event → Option (Nat × Fate)
  | .dispatched id _ _ _ => some (id, .dispatched)
  | .rejected id _ => some (id, .rejected)
  | .aborted id _ => some (id, .aborted)
  | _ => none

/-- The intent whose yield an event resumed. -/
def Event.resume : Event → Option Nat
  | .accepted _ _ (.resume_intent id _) => some id
  | .accepted _ _ (.resume_batch_chained ids) => ids.toList.head?
  | .accepted _ _ (.continue_chain id _) => some id
  | .continued id _ _ => some id
  | _ => none

namespace Ledger

def lapsed (s : Ledger) : List (YieldId × Nat) := s.receipts.filterMap (·.receipt.lapsed)
def resumed (s : Ledger) : List Nat := s.receipts.filterMap (·.receipt.resumed)
def fates (s : Ledger) : List (Nat × Fate) := s.log.filterMap (·.event.fate)
def resumes (s : Ledger) : List Nat := s.log.filterMap (·.event.resume)

/-- The intents that met the fate `w`, in order. -/
def met (s : Ledger) (w : Fate) : List Nat :=
  s.fates.filterMap fun f => if f.2 = w then some f.1 else none

/-- The intents as tickets. -/
def books (s : Ledger) : Books Fate where
  next := s.gate.next_intent_id
  next_hold := s.next_yield
  hold id := (s.gate.pending.lookup id).map (·.yield_id)
  ticket y := (s.yields.lookup y).map (·.args.intent_id)
  lapsed := s.lapsed
  released := s.resumed
  settled := s.fates
  releases := s.resumes

/-- The contract's counters, and the `u64` they live in. -/
structure Counters (s : Ledger) : Prop where
  submitted : s.gate.intents_submitted = s.gate.next_intent_id
  dispatched : s.gate.intents_dispatched = (s.met .dispatched).length
  rejected : s.gate.intents_rejected = (s.met .rejected).length
  bound : s.gate.next_intent_id < 2 ^ 64

/-- The life-cycle invariant. -/
structure Lifecycle (s : Ledger) : Prop where
  books : s.books.Inv
  counters : s.Counters

end Ledger

/-! ## Maps as functions -/

section Maps

variable {κ ν β : Type} [DecidableEq κ] (m : Map κ ν) (f : ν → β)

theorem lookup_insert_fun (k : κ) (v : ν) :
    (fun i => ((m.insert k v).lookup i).map f) =
      Function.update (fun i => (m.lookup i).map f) k (some (f v)) := by
  funext i
  by_cases hi : i = k
  · subst hi
    rw [AList.lookup_insert, Function.update_self, Option.map_some]
  · rw [AList.lookup_insert_ne hi, Function.update_of_ne hi]

theorem lookup_erase_fun (k : κ) :
    (fun i => ((m.erase k).lookup i).map f) =
      Function.update (fun i => (m.lookup i).map f) k none := by
  funext i
  by_cases hi : i = k
  · subst hi
    rw [AList.lookup_erase, Function.update_self, Option.map_none]
  · rw [AList.lookup_erase_ne hi, Function.update_of_ne hi]

end Maps

namespace Ledger

variable {d : Deployment} {s s' s₀ : Ledger} {a : Action}

/-- Two ledgers with the same contract maps, yields and projections have the
same books. -/
theorem books_congr (hp : s'.gate.pending = s.gate.pending)
    (hn : s'.gate.next_intent_id = s.gate.next_intent_id) (hy : s'.yields = s.yields)
    (hny : s'.next_yield = s.next_yield) (hl : s'.lapsed = s.lapsed)
    (hr : s'.resumed = s.resumed) (hf : s'.fates = s.fates) (hrs : s'.resumes = s.resumes) :
    s'.books = s.books := by
  simp only [books, hp, hn, hy, hny, hl, hr, hf, hrs]

/-- Taking a receipt that is no callback out of the queue leaves the books. -/
theorem books_without {pre post : List InFlight} {f : InFlight}
    (hrecs : s.receipts = pre ++ f :: post) (hl : f.receipt.lapsed = none)
    (hr : f.receipt.resumed = none) : (s.without pre post).books = s.books := by
  refine books_congr rfl rfl rfl rfl ?_ ?_ rfl rfl
  · simp [lapsed, without, hrecs, hl]
  · simp [resumed, without, hrecs, hr]

/-- Logging an event that neither settles nor resumes leaves the books. -/
theorem books_record {e : Event} (hf : e.fate = none) (hr : e.resume = none) :
    (s.record e).books = s.books :=
  books_congr rfl rfl rfl rfl rfl rfl (by simp [fates, hf]) (by simp [resumes, hr])

/-- A call that resumes no yield and mints nothing leaves the books. -/
theorem books_apply_idle {e : Event} {out : Outcome} {deposit : Nat} {batch : Option Nat}
    {spare : Nat} (hp : out.gate.pending = s.gate.pending)
    (hn : out.gate.next_intent_id = s.gate.next_intent_id)
    (ha : out.action = .none ∨ ∃ to_id amount, out.action = .transfer to_id amount)
    (hf : e.fate = none) (hr : e.resume = none) :
    (s.apply e out deposit batch spare).books = s.books := by
  refine books_congr (by simpa using hp) (by simpa using hn) ?_ ?_ ?_ ?_ ?_ ?_
  · rcases ha with ha | ⟨to_id, amount, ha⟩ <;> simp [yields_after, ha]
  · rcases ha with ha | ⟨to_id, amount, ha⟩ <;> simp [ha]
  · rcases ha with ha | ⟨to_id, amount, ha⟩ <;> simp [lapsed, created, ha, Receipt.lapsed]
  · rcases ha with ha | ⟨to_id, amount, ha⟩ <;> simp [resumed, created, ha, Receipt.resumed]
  · simp [fates, hf]
  · simp [resumes, hr]

/-- A call that resumes the yield of `id` releases its ticket. -/
theorem books_apply_resume {e : Event} {out : Outcome} {deposit : Nat} {batch : Option Nat}
    {spare id : Nat} {p : PendingIntent} {w : OpenYield} {signal : ResumeSignal}
    (hp : s.gate.pending.lookup id = some p) (hw : s.yields.lookup p.yield_id = some w)
    (hgp : out.gate.pending = s.gate.pending.erase id)
    (hn : out.gate.next_intent_id = s.gate.next_intent_id)
    (ha : out.action = .resume p.yield_id signal) (hf : e.fate = none) (hr : e.resume = some id) :
    s.books.Step (s.apply e out deposit batch spare).books := by
  have hhold : s.books.hold id = some p.yield_id := by simp only [books, hp, Option.map_some]
  have hopen : s.books.ticket p.yield_id = some w.args.intent_id := by
    simp only [books, hw, Option.map_some]
  -- the books after are those of a release; what is left is that each projection agrees
  convert Books.Step.release hhold hopen using 1
  simp only [books, apply_gate, apply_next_yield, apply_yields, hgp, hn, ha, yields_after,
    lookup_erase_fun, Books.mk.injEq, true_and, Nat.add_zero]
  refine ⟨?_, ?_, ?_, ?_⟩
  · simp [lapsed, created, ha, hw, Receipt.lapsed]
  · simp [resumed, created, ha, hw, Receipt.resumed]
  · simp [fates, hf]
  · simp [resumes, hr]

theorem open_lookup {caller : AccountId} {deposit : Nat} {y : YieldId}
    (h : (s.env d caller deposit).yield_is_open y = true) : ∃ w, s.yields.lookup y = some w :=
  yield_is_open_iff.1 h

/-- Every accepted call is a step of the books. -/
theorem called_books {c : GateCall} {caller : AccountId} {deposit spare : Nat} {out : Outcome}
    (heff : CallEffect d.host (s.env d caller deposit) s.gate c out.gate out.action) :
    s.books.Step
      (s.apply (.accepted caller deposit c) out deposit (batch_of c out.gate) spare).books := by
  generalize hg : out.gate = g' at heff
  generalize ha : out.action = act at heff
  cases heff with
  | admin hc frame hact =>
    -- no admin call is one of the three that resume
    have hr : (Event.accepted caller deposit c).resume = none := by
      cases c <;> first | rfl | cases hc
    rw [books_apply_idle (hg ▸ frame.pending) (hg ▸ frame.next_intent_id) (ha ▸ hact) rfl hr]
    exact .idle
  | reset howner =>
    rw [books_apply_idle (by rw [hg]) (by rw [hg]) (.inl ha) rfl rfl]
    exact .idle
  | submit hrel hdec hver hexp hnonce hfc hid hsub =>
    -- the yield is created under `next_yield` and listed under `next_intent_id`, both still free
    convert Books.Step.mint using 1
    simp only [books, apply_gate, apply_next_yield, apply_yields, hg, ha, yields_after,
      Gate.minted, lookup_insert_fun, Books.mk.injEq, true_and]
    refine ⟨rfl, rfl, ?_, ?_, ?_, ?_⟩
    · simp [lapsed, created, ha]
    · simp [resumed, created, ha]
    · simp [fates, Event.fate]
    · simp [resumes, Event.resume]
  | resume happr htier hdep hfee hp hopen =>
    obtain ⟨w, hw⟩ := open_lookup hopen
    exact books_apply_resume hp hw (by rw [hg]) (by rw [hg]) ha rfl rfl
  | batch happr htail hids htier hdep hfee hknown hid hp hopen =>
    obtain ⟨w, hw⟩ := open_lookup hopen
    refine books_apply_resume hp hw (by rw [hg]) (by rw [hg]) ha rfl ?_
    simp only [Event.resume, hids, List.head?_cons]
  | chain hpriv hfree htail hp hopen =>
    obtain ⟨w, hw⟩ := open_lookup hopen
    exact books_apply_resume hp hw (by rw [hg]) (by rw [hg]) ha rfl rfl

/-! ## The counters -/

@[simp] theorem met_record (e : Event) (w : Fate) : (s.record e).met w =
    s.met w ++ (e.fate.toList.filterMap fun f => if f.2 = w then some f.1 else none) := by
  cases hf : e.fate <;> simp [met, fates, record, hf]

@[simp] theorem met_apply (e : Event) (out : Outcome) (deposit : Nat) (batch : Option Nat)
    (spare : Nat) (w : Fate) : (s.apply e out deposit batch spare).met w =
    s.met w ++ (e.fate.toList.filterMap fun f => if f.2 = w then some f.1 else none) := by
  cases hf : e.fate <;> simp [met, fates, hf]

theorem Counters.congr (h : s.Counters) (hsub : s'.gate.intents_submitted = s.gate.intents_submitted)
    (hn : s'.gate.next_intent_id = s.gate.next_intent_id)
    (hd : s'.gate.intents_dispatched = s.gate.intents_dispatched)
    (hr : s'.gate.intents_rejected = s.gate.intents_rejected) (hf : s'.fates = s.fates) :
    s'.Counters where
  submitted := by rw [hsub, hn, h.submitted]
  dispatched := by rw [hd, h.dispatched, met, met, hf]
  rejected := by rw [hr, h.rejected, met, met, hf]
  bound := hn ▸ h.bound

theorem met_length_le (w : Fate) : (s.met w).length ≤ s.fates.length :=
  List.length_filterMap_le _ _

/-- **No counter can overflow in a callback**: the intent it is for is minted and
not settled yet. -/
theorem Lifecycle.room (h : s.Lifecycle) {pre post : List InFlight} {f : InFlight} {y : YieldId}
    {args : CallbackArgs} {gas : Nat} {signal : Except PromiseError ResumeSignal}
    (hf : f.receipt = .callback y args gas signal) (hrecs : s.receipts = pre ++ f :: post) :
    s.gate.intents_dispatched + 1 < 2 ^ 64 ∧ s.gate.intents_rejected + 1 < 2 ^ 64 := by
  have hpend : args.intent_id ∈ s.books.released ∨ ∃ y, (y, args.intent_id) ∈ s.books.lapsed := by
    cases signal with
    | error e =>
      refine .inr ⟨y, List.mem_filterMap.2 ⟨f, ?_, by rw [hf]; rfl⟩⟩
      rw [hrecs]
      exact List.mem_append_right _ List.mem_cons_self
    | ok v =>
      refine .inl (List.mem_filterMap.2 ⟨f, ?_, by rw [hf]; rfl⟩)
      rw [hrecs]
      exact List.mem_append_right _ List.mem_cons_self
  -- each counter is at most the number of settled intents, and `next_intent_id` is a `u64`
  have hlt : s.fates.length < s.gate.next_intent_id := h.books.settled_lt hpend
  have hb := h.counters.bound
  have hd := met_length_le (s := s) .dispatched
  have hr := met_length_le (s := s) .rejected
  rw [h.counters.dispatched, h.counters.rejected]
  omega

/-- The callback of a timed-out yield always completes. -/
theorem Lifecycle.timeout_completes (h : s.Lifecycle) {pre post : List InFlight} {f : InFlight}
    {y : YieldId} {args : CallbackArgs} {gas : Nat} {e : PromiseError}
    (hf : f.receipt = .callback y args gas (.error e)) (hrecs : s.receipts = pre ++ f :: post) :
    ∃ g, Returns (s.gate.on_intent_resumed args (.error e)) g .none :=
  ⟨_, Gate.on_intent_resumed_timeout.2 ⟨(h.room hf hrecs).2, rfl, rfl⟩⟩

/-- So does the callback of a rejected intent. -/
theorem Lifecycle.reject_completes (h : s.Lifecycle) {pre post : List InFlight} {f : InFlight}
    {y : YieldId} {args : CallbackArgs} {gas : Nat} {signal : ResumeSignal}
    (hf : f.receipt = .callback y args gas (.ok signal)) (hs : signal.approve = false)
    (hrecs : s.receipts = pre ++ f :: post) :
    ∃ g, Returns (s.gate.on_intent_resumed args (.ok signal)) g .none :=
  ⟨_, (Gate.on_intent_resumed_reject hs).2 ⟨(h.room hf hrecs).2, rfl, rfl⟩⟩

/-- What a callback that completes does: it settles its intent, and its counter
and its fate agree. -/
theorem resumed_effect (batch : Option Nat) {args : CallbackArgs}
    {signal : Except PromiseError ResumeSignal} {g : Gate} {act : HostAction}
    (h : Returns (s.gate.on_intent_resumed args signal) g act) :
    ∃ w, (callback_event args batch signal act).fate = some (args.intent_id, w) ∧
      (w = .dispatched ∧ (∃ v, signal = .ok v ∧ v.approve = true ∧
          ∃ and_then, Gate.chained_call v = .ok and_then ∧
            act = .function_call args.intent_id args.toFunctionCall and_then) ∧
        g = { s.gate with
          pending := s.gate.pending.erase args.intent_id
          intents_dispatched := s.gate.intents_dispatched + 1 } ∨
      w = .rejected ∧ act = .none ∧ g = { s.gate with
          pending := s.gate.pending.erase args.intent_id
          intents_rejected := s.gate.intents_rejected + 1 }) := by
  cases signal with
  | error e =>
    obtain ⟨-, hg, ha⟩ := Gate.on_intent_resumed_timeout.1 h
    exact ⟨.rejected, by rw [callback_event_timeout h]; rfl, .inr ⟨rfl, ha, hg⟩⟩
  | ok v =>
    cases hv : v.approve with
    | false =>
      obtain ⟨-, hg, ha⟩ := (Gate.on_intent_resumed_reject hv).1 h
      exact ⟨.rejected, by rw [callback_event_reject hv h]; rfl, .inr ⟨rfl, ha, hg⟩⟩
    | true =>
      obtain ⟨-, and_then, hc, hg, ha⟩ := (Gate.on_intent_resumed_approve hv).1 h
      exact ⟨.dispatched, by rw [callback_event_approve hv h]; rfl,
        .inl ⟨rfl, ⟨v, rfl, hv, and_then, hc, ha⟩, hg⟩⟩

/-- Either way the intent leaves `pending`, and of the rest only a counter changes. -/
theorem resumed_gate {args : CallbackArgs} {signal : Except PromiseError ResumeSignal} {g : Gate}
    {act : HostAction} (h : Returns (s.gate.on_intent_resumed args signal) g act) :
    ∃ dispatched rejected, g = { s.gate with
      pending := s.gate.pending.erase args.intent_id
      intents_dispatched := dispatched
      intents_rejected := rejected } := by
  obtain ⟨w, -, ⟨-, -, hg⟩ | ⟨-, -, hg⟩⟩ := resumed_effect none h
  · exact ⟨_, _, hg⟩
  · exact ⟨_, _, hg⟩

/-- Either way it creates its own call or nothing. -/
theorem resumed_action {args : CallbackArgs} {signal : Except PromiseError ResumeSignal} {g : Gate}
    {act : HostAction} (h : Returns (s.gate.on_intent_resumed args signal) g act) :
    act = .none ∨ ∃ and_then, act = .function_call args.intent_id args.toFunctionCall and_then := by
  obtain ⟨w, -, ⟨-, ⟨v, -, -, and_then, -, hact⟩, -⟩ | ⟨-, hact, -⟩⟩ := resumed_effect none h
  · exact .inr ⟨and_then, hact⟩
  · exact .inl hact

/-- The yield a gate call resumes belongs to the intent the call names. -/
theorem Lifecycle.resume_same (h : s.Lifecycle) {id : Nat} {p : PendingIntent} {w : OpenYield}
    (hp : s.gate.pending.lookup id = some p) (hw : s.yields.lookup p.yield_id = some w) :
    w.args.intent_id = id := by
  have hhold : s.books.hold id = some p.yield_id := by
    simp only [Ledger.books, hp, Option.map_some]
  have hopen : s.books.ticket p.yield_id = some w.args.intent_id := by
    simp only [Ledger.books, hw, Option.map_some]
  exact h.books.release_same hhold hopen

/-- Taking a receipt that is no callback out of the queue keeps the books in
order. -/
theorem Lifecycle.without (h : s.Lifecycle) {pre post : List InFlight} {f : InFlight}
    (hrecs : s.receipts = pre ++ f :: post) (hl : f.receipt.lapsed = none)
    (hr : f.receipt.resumed = none) : (s.without pre post).Lifecycle where
  books := by
    rw [books_without hrecs hl hr]
    exact h.books
  counters := h.counters.congr rfl rfl rfl rfl rfl

/-! ## Every move is a step of the books -/

/-- A callback that leaves the queue settles its intent. Only a reverted one
leaves `pending` alone, and only a resumed one is ever reverted. -/
theorem books_settle {t : Ledger} {pre post : List InFlight} {f : InFlight} {y : YieldId}
    {args : CallbackArgs} {gas : Nat} {signal : Except PromiseError ResumeSignal} {w : Fate}
    (hf : f.receipt = .callback y args gas signal) (hrecs : s.receipts = pre ++ f :: post)
    (hp : t.gate.pending = s.gate.pending.erase args.intent_id ∨
      t.gate.pending = s.gate.pending ∧ ∃ v, signal = .ok v)
    (hn : t.gate.next_intent_id = s.gate.next_intent_id) (hy : t.yields = s.yields)
    (hny : t.next_yield = s.next_yield) (hl : t.lapsed = (s.without pre post).lapsed)
    (hr : t.resumed = (s.without pre post).resumed)
    (hfates : t.fates = s.fates ++ [(args.intent_id, w)]) (hrs : t.resumes = s.resumes) :
    s.books.Step t.books := by
  have herase : t.gate.pending = s.gate.pending.erase args.intent_id →
      t.books.hold = Function.update s.books.hold args.intent_id none := fun h => by
    simp only [books, h, lookup_erase_fun]
  cases signal with
  | error e =>
    -- a timed-out callback is not reverted, so it did erase the intent
    have hp : t.gate.pending = s.gate.pending.erase args.intent_id := by
      rcases hp with hp | ⟨-, v, hv⟩
      · exact hp
      · cases hv
    have hlap : s.books.lapsed =
        pre.filterMap (·.receipt.lapsed) ++ (y, args.intent_id) :: post.filterMap (·.receipt.lapsed) := by
      simp [books, lapsed, hrecs, hf, Receipt.lapsed]
    convert Books.Step.settle_lapsed (w := w) hlap using 1
    simp only [books, hp, hn, hy, hny, hl, hr, hfates, hrs, lookup_erase_fun, Books.mk.injEq,
      true_and, and_true]
    constructor
    · simp [lapsed, without]
    · simp [resumed, without, hrecs, hf, Receipt.resumed]
  | ok v =>
    have hrel : s.books.released =
        pre.filterMap (·.receipt.resumed) ++ args.intent_id :: post.filterMap (·.receipt.resumed) := by
      simp [books, resumed, hrecs, hf, Receipt.resumed]
    -- the resume erased the intent already; the callback erases it again unless it is reverted
    have hhold : t.books.hold = s.books.hold ∨
        t.books.hold = Function.update s.books.hold args.intent_id none := by
      rcases hp with hp | ⟨hp, -⟩
      · exact .inr (herase hp)
      · exact .inl (by simp only [books, hp])
    convert Books.Step.settle (w := w) hrel hhold using 1
    simp only [books, hn, hy, hny, hl, hr, hfates, hrs, Books.mk.injEq, true_and, and_true]
    constructor
    · simp [lapsed, without, hrecs, hf, Receipt.lapsed]
    · simp [resumed, without]

theorem books_time_out {y : YieldId} {w : OpenYield} (hw : s.yields.lookup y = some w) :
    s.books.Step (s.time_out y w).books := by
  have hopen : s.books.ticket y = some w.args.intent_id := by
    simp only [books, hw, Option.map_some]
  convert Books.Step.lapse hopen using 1
  simp only [books, time_out, push_gate, push_next_yield, push_yields, record_gate,
    record_next_yield, lookup_erase_fun, Books.mk.injEq, true_and]
  refine ⟨?_, ?_, ?_, ?_⟩
  · simp [lapsed, Receipt.lapsed]
  · simp [resumed, Receipt.resumed]
  · simp [fates, Event.fate]
  · simp [resumes, Event.resume]

/-- **The simulation.** -/
theorem move_books (h : s.Lifecycle) (hmove : Move d s₀ a s s') : s.books.Step s'.books := by
  cases hmove with
  | advance ha => exact .idle
  | refused hcall =>
    rw [books_record rfl rfl]
    exact .idle
  | called hcall hacc hcaller hspare heff => exact called_books heff
  | timed_out ha hw => exact books_time_out hw
  | @resumed i burnt y args gas signal batch created pre post out ha htake hret hfits =>
    -- dispatch and rejection write the same fields of the books, so one argument serves both
    obtain ⟨w, hfate, -⟩ := resumed_effect batch hret
    obtain ⟨_, _, hg⟩ := resumed_gate hret
    have hact := resumed_action hret
    have hrs : (callback_event args batch signal out.action).resume = none := by
      rcases callback_event_cases batch hret with ⟨_, he⟩ | ⟨_, he⟩ <;> rw [he] <;> rfl
    refine books_settle rfl htake.split (w := w) (.inl ?_) ?_ ?_ ?_ ?_ ?_ ?_ ?_
    · simp [hg]
    · simp [hg]
    · rcases hact with hact | ⟨_, hact⟩ <;> simp [hact, yields_after, without]
    · rcases hact with hact | ⟨_, hact⟩ <;> simp [hact, without]
    · rcases hact with hact | ⟨_, hact⟩ <;> simp [lapsed, hact, Ledger.created, Receipt.lapsed]
    · rcases hact with hact | ⟨_, hact⟩ <;> simp [resumed, hact, Ledger.created, Receipt.resumed]
    · simp [fates, hfate, without]
    · simp [resumes, hrs, without]
  | @aborted i burnt y args gas signal batch created pre post ha htake hfail =>
    have hok : ∃ v, signal = .ok v := by
      cases signal with
      | ok v => exact ⟨v, rfl⟩
      -- the counter has room, and a callback that schedules nothing costs nothing
      | error e =>
        obtain ⟨g, hg⟩ := h.timeout_completes rfl htake.split
        exact absurd (HostAction.fits_none _ _ _) (hfail _ _ hg)
    refine books_settle rfl htake.split (w := .aborted) (.inr ⟨rfl, hok⟩) rfl rfl rfl rfl rfl ?_ ?_
    · simp [fates, without, Event.fate]
    · simp [resumes, without, Event.resume]
  | @ran _ id call and_then batch created pre post ok hf hblock hrecs =>
    rw [← books_without hrecs rfl rfl]
    convert Books.Step.idle using 1
    refine books_congr rfl rfl rfl rfl ?_ ?_ ?_ ?_
    · simp [lapsed, ran, Receipt.lapsed]
    · simp [resumed, ran, Receipt.resumed]
    · simp [fates, ran, Event.fate]
    · simp [resumes, ran, Event.resume]
  | @finished i success id call and_then batch created pre post ha htake =>
    rw [← books_without htake.split rfl rfl]
    convert Books.Step.idle using 1
    cases and_then with
    | none => exact books_record rfl rfl
    | some next =>
      refine books_congr rfl rfl rfl rfl ?_ ?_ ?_ ?_
      · simp [lapsed, Ledger.finish, Receipt.lapsed]
      · simp [resumed, Ledger.finish, Receipt.resumed]
      · simp [fates, Ledger.finish, Event.fate]
      · simp [resumes, Ledger.finish, Event.resume]
  | @continued i next_id next_seq batch created pre post out ha htake heff =>
    -- the receipt leaves the queue first, then the method runs as an ordinary resume
    rw [← books_without htake.split rfl rfl]
    generalize hg : out.gate = g' at heff
    generalize hact : out.action = act at heff
    cases heff with
    | admin hc => cases hc
    | chain hpriv hfree htail hp hopen =>
      obtain ⟨w, hw⟩ := open_lookup hopen
      exact books_apply_resume hp hw (by rw [hg]; rfl) (by rw [hg]; rfl) hact rfl rfl
  | continue_failed ha htake hfail =>
    rw [books_record rfl rfl, books_without htake.split rfl rfl]
    exact .idle
  | @settled i success to_id amount batch created pre post ha htake =>
    -- a refund moves the balance only, which is not in the books
    have hsettle : ((s.without pre post).settle d to_id amount success).books =
        ((s.without pre post).record (.transferred to_id amount success)).books := by
      unfold Ledger.settle
      split <;> rfl
    rw [hsettle, books_record rfl rfl, books_without htake.split rfl rfl]
    exact .idle

/-! ## Every move keeps the counters -/

theorem counters_called {c : GateCall} {caller : AccountId} {deposit spare : Nat} {out : Outcome}
    (h : s.Counters)
    (heff : CallEffect d.host (s.env d caller deposit) s.gate c out.gate out.action)
    {e : Event} {dep : Nat} {batch : Option Nat} (hf : e.fate = none) :
    (s.apply e out dep batch spare).Counters := by
  have hfates : (s.apply e out dep batch spare).fates = s.fates := by simp [fates, hf]
  generalize hg : out.gate = g' at heff
  generalize hact : out.action = act at heff
  cases heff with
  | admin hc frame ha =>
    subst hg
    exact h.congr (by simp [frame.intents_submitted]) (by simp [frame.next_intent_id])
      (by simp [frame.intents_dispatched]) (by simp [frame.intents_rejected]) hfates
  -- `next_intent_id` and `intents_submitted` are incremented together
  | submit hrel hdec hver hexp hnonce hfc hid hsub =>
    constructor
    · simp [hg, Gate.minted, h.submitted]
    · simpa [hg, Gate.minted, met, hfates] using h.dispatched
    · simpa [hg, Gate.minted, met, hfates] using h.rejected
    · simpa [hg, Gate.minted] using hid
  | reset howner => exact h.congr (by simp [hg]) (by simp [hg]) (by simp [hg]) (by simp [hg]) hfates
  | resume happr htier hdep hfee hp hopen =>
    exact h.congr (by simp [hg]) (by simp [hg]) (by simp [hg]) (by simp [hg]) hfates
  | batch happr htail hids htier hdep hfee hknown hid hp hopen =>
    exact h.congr (by simp [hg]) (by simp [hg]) (by simp [hg]) (by simp [hg]) hfates
  | chain hpriv hfree htail hp hopen =>
    exact h.congr (by simp [hg]) (by simp [hg]) (by simp [hg]) (by simp [hg]) hfates

theorem counters_resumed {pre post : List InFlight} {args : CallbackArgs}
    {signal : Except PromiseError ResumeSignal} {batch : Option Nat} {out : Outcome}
    (h : s.Counters) (hret : Returns (s.gate.on_intent_resumed args signal) out.gate out.action) :
    ((s.without pre post).apply (callback_event args batch signal out.action) out 0 batch
      0).Counters := by
  obtain ⟨w, hfate, hw⟩ := resumed_effect batch hret
  rcases hw with ⟨rfl, -, hg⟩ | ⟨rfl, -, hg⟩
  · constructor
    · simpa [hg] using h.submitted
    · simp [hg, hfate, h.dispatched, met, fates, without]
    · simpa [hg, hfate, met, fates, without] using h.rejected
    · simpa [hg] using h.bound
  · constructor
    · simpa [hg] using h.submitted
    · simpa [hg, hfate, met, fates, without] using h.dispatched
    · simp [hg, hfate, h.rejected, met, fates, without]
    · simpa [hg] using h.bound

theorem move_counters (h : s.Counters) (hmove : Move d s₀ a s s') : s'.Counters := by
  cases hmove with
  | advance ha => exact h.congr rfl rfl rfl rfl rfl
  | refused hcall => exact h.congr rfl rfl rfl rfl (by simp [fates, Event.fate])
  | called hcall hacc hcaller hspare heff => exact counters_called h heff rfl
  | timed_out ha hw => exact h.congr rfl rfl rfl rfl (by simp [fates, time_out, Event.fate])
  | resumed ha htake hret hfits => exact counters_resumed h hret
  | @aborted i burnt y args gas signal batch created pre post ha htake hfail =>
    have hmet : ∀ w, w ≠ .aborted →
        ((s.without pre post).record (.aborted args.intent_id batch)).met w = s.met w := by
      intro w hw
      simp [met, fates, without, Event.fate, Ne.symm hw]
    constructor
    · exact h.submitted
    · rw [hmet .dispatched (by decide)]
      exact h.dispatched
    · rw [hmet .rejected (by decide)]
      exact h.rejected
    · exact h.bound
  | ran hf hblock hrecs => exact h.congr rfl rfl rfl rfl (by simp [fates, ran, without, Event.fate])
  | @finished i success id call and_then batch created pre post ha htake =>
    cases and_then <;>
      exact h.congr rfl rfl rfl rfl (by simp [fates, Ledger.finish, without, Event.fate])
  | @continued i next_id next_seq batch created pre post out ha htake heff =>
    have hw : (s.without pre post).Counters := h.congr rfl rfl rfl rfl rfl
    exact counters_called hw heff rfl
  | continue_failed ha htake hfail =>
    exact h.congr rfl rfl rfl rfl (by simp [fates, without, Event.fate])
  | @settled i success to_id amount batch created pre post ha htake =>
    unfold Ledger.settle
    split <;> exact h.congr rfl rfl rfl rfl (by simp [fates, without, Event.fate])

/-- Only a timeout adds to the lapsed yields. -/
theorem lapsed_of_move (hmove : Move d s₀ a s s') :
    s'.lapsed.Sublist s.lapsed ∨ ∃ y w, a = .timeout y ∧ s₀.yields.lookup y = some w ∧
      s'.lapsed = s.lapsed ++ [(y, w.args.intent_id)] ∧
      s'.log = s.log ++ [⟨s.block_height, s.gate, .timed_out w.args.intent_id⟩] := by
  have hwithout : ∀ {pre post : List InFlight} {f : InFlight}, s.receipts = pre ++ f :: post →
      (s.without pre post).lapsed.Sublist s.lapsed := by
    intro pre post f hsplit
    rw [lapsed, lapsed, hsplit]
    exact ((List.sublist_cons_self f post).append_left pre).filterMap _
  have hcreated : ∀ (t : Ledger) (batch : Option Nat) (act : HostAction),
      (t.created batch act).filterMap (·.receipt.lapsed) = [] := by
    intro t batch act
    cases act with
    | resume y signal => simp only [created]; split <;> rfl
    | _ => rfl
  have happly : ∀ (t : Ledger) (e : Event) (out : Outcome) (deposit : Nat) (batch : Option Nat)
      (spare : Nat), (t.apply e out deposit batch spare).lapsed = t.lapsed := by
    intro t e out deposit batch spare
    rw [lapsed, apply_receipts, List.filterMap_append, hcreated, List.append_nil, lapsed]
  cases hmove with
  | advance ha => exact .inl (.refl _)
  | refused hcall => exact .inl (.refl _)
  | called hcall hacc hcaller hspare heff =>
    rw [happly]
    exact .inl (.refl _)
  | timed_out ha hw => 
    exact .inr ⟨_, _, ha, hw, by simp [lapsed, time_out, Receipt.lapsed], rfl⟩
  | resumed ha htake hret hfits =>
    rw [happly]
    exact .inl (hwithout htake.split)
  | aborted ha htake hfail => exact .inl (hwithout htake.split)
  | ran hf hblock hrecs =>
    left
    simpa [lapsed, ran, Receipt.lapsed] using hwithout hrecs
  | @finished i success id call and_then batch created pre post ha htake =>
    left
    cases and_then with
    | none => exact hwithout htake.split
    | some n => simpa [lapsed, Ledger.finish, Receipt.lapsed] using hwithout htake.split
  | continued ha htake heff =>
    rw [happly]
    exact .inl (hwithout htake.split)
  | continue_failed ha htake hfail => exact .inl (hwithout htake.split)
  | settled ha htake =>
    left
    unfold Ledger.settle
    split <;> exact hwithout htake.split

/-! ## Every reachable ledger -/

theorem Lifecycle.init (owner_id approver_id : AccountId) (balance block_height : Nat) :
    (Ledger.init owner_id approver_id balance block_height).Lifecycle where
  books := Books.inv_empty
  counters := ⟨rfl, rfl, rfl, Nat.two_pow_pos 64⟩

theorem Lifecycle.move (h : s.Lifecycle) (hmove : Move d s₀ a s s') : s'.Lifecycle where
  books := h.books.step (move_books h hmove)
  counters := move_counters h.counters hmove

theorem Lifecycle.step (h : s.Lifecycle) (hstep : step d s a = some s') : s'.Lifecycle :=
  step_preserves Lifecycle hstep h fun _ _ ht hmove => ht.move hmove

/-- No intent is settled twice. -/
theorem Lifecycle.fates_nodup (h : s.Lifecycle) : (s.fates.map Prod.fst).Nodup := by
  rw [List.nodup_iff_count_le_one]
  intro id
  have honce := h.books.once id
  have hsame : s.books.settlements id = (s.fates.map Prod.fst).count id := rfl
  unfold Tickets.Books.minted at honce
  split at honce <;> omega

theorem Lifecycle.met_nodup (h : s.Lifecycle) (w : Fate) : (s.met w).Nodup := by
  refine List.Nodup.sublist ?_ h.fates_nodup
  rw [met]
  generalize s.fates = l
  induction l with
  | nil => exact .slnil
  | cons f l ih =>
    rw [List.filterMap_cons, List.map_cons]
    by_cases hf : f.2 = w
    · rw [if_pos hf]
      exact ih.cons_cons f.1
    · rw [if_neg hf]
      exact ih.cons f.1

end Ledger

/-- **The books of every reachable ledger balance.** -/
theorem Reachable.lifecycle {d : Deployment} {s : Ledger} (h : Reachable d s) : s.Lifecycle := by
  refine h.invariant Ledger.Lifecycle (fun _ _ _ _ => .init _ _ _ _) ?_
  intro s₀ a t t' ht hmove
  exact ht.move hmove

/-! ## What only a call writes -/

/-- Everything but the intents and the chain: what callbacks and chain steps leave alone. -/
structure Gate.CallFrame (g g' : Gate) : Prop where
  owner_id : g'.owner_id = g.owner_id
  approver_id : g'.approver_id = g.approver_id
  relayers : g'.relayers = g.relayers
  used_nonces : g'.used_nonces = g.used_nonces
  next_intent_id : g'.next_intent_id = g.next_intent_id
  intents_submitted : g'.intents_submitted = g.intents_submitted
  active_batch_id : g'.active_batch_id = g.active_batch_id
  fee_tiers : g'.fee_tiers = g.fee_tiers
  fees_collected_total : g'.fees_collected_total = g.fees_collected_total
  fees_withdrawn_total : g'.fees_withdrawn_total = g.fees_withdrawn_total

theorem Gate.CallFrame.refl (g : Gate) : g.CallFrame g :=
  ⟨rfl, rfl, rfl, rfl, rfl, rfl, rfl, rfl, rfl, rfl⟩

/-- The event is a gate call that returned. -/
def Event.isCall : Event → Bool
  | .accepted _ _ _ => true
  | _ => false

open Ledger in
/-- **A move is a gate call that returned, or writes intents and chain only.** -/
theorem Move.call_or_frame {d : Deployment} {s₀ s s' : Ledger} {a : Action} (h : Move d s₀ a s s') :
    (∃ caller deposit c out, c.run d.host (s.env d caller deposit) s.gate = .ok out ∧
      s'.gate = out.gate ∧
      s'.log = s.log ++ [⟨s.block_height, s.gate, .accepted caller deposit c⟩]) ∨
    s.gate.CallFrame s'.gate ∧ (s'.log = s.log ∨
      ∃ e, e.isCall = false ∧ s'.log = s.log ++ [⟨s.block_height, s.gate, e⟩]) := by
  cases h with
  | advance ha => exact .inr ⟨.refl _, .inl rfl⟩
  | refused hcall => exact .inr ⟨.refl _, .inr ⟨_, rfl, rfl⟩⟩
  | called hcall hacc hcaller hspare heff hrun =>
    exact .inl ⟨_, _, _, _, hrun, apply_gate _ _ _ _ _, apply_log _ _ _ _ _⟩
  | timed_out ha hw => exact .inr ⟨.refl _, .inr ⟨_, rfl, rfl⟩⟩
  | @resumed i burnt y args gas signal batch created pre post out ha htake hret =>
    refine .inr ⟨?_, .inr ⟨_, ?_, apply_log _ _ _ _ _⟩⟩
    · obtain ⟨_, _, hg⟩ := resumed_gate hret
      rw [apply_gate, hg]
      exact ⟨rfl, rfl, rfl, rfl, rfl, rfl, rfl, rfl, rfl, rfl⟩
    · rcases callback_event_cases batch hret with ⟨_, he⟩ | ⟨_, he⟩ <;> rw [he] <;> rfl
  | aborted ha htake => exact .inr ⟨.refl _, .inr ⟨_, rfl, rfl⟩⟩
  | ran hf hblock hrecs => exact .inr ⟨.refl _, .inr ⟨_, rfl, rfl⟩⟩
  | @finished i success id call and_then batch =>
    refine .inr ⟨?_, .inr ⟨_, rfl, finish_log _ _ _ _⟩⟩
    cases and_then <;> exact .refl _
  | continued ha htake heff =>
    refine .inr ⟨?_, .inr ⟨_, rfl, apply_log _ _ _ _ _⟩⟩
    rw [apply_gate]
    generalize Outcome.gate _ = g' at heff
    generalize Outcome.action _ = act at heff
    cases heff with
    | admin hc => cases hc
    | chain => exact ⟨rfl, rfl, rfl, rfl, rfl, rfl, rfl, rfl, rfl, rfl⟩
  | continue_failed ha htake => exact .inr ⟨.refl _, .inr ⟨_, rfl, rfl⟩⟩
  | settled ha htake =>
    refine .inr ⟨?_, .inr ⟨_, rfl, settle_log _ _ _ _⟩⟩
    unfold Ledger.settle
    split <;> exact .refl _

end SequentialNear
