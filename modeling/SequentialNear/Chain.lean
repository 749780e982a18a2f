/-
A chained batch, and what each step of the ledger does to one.

A batch is carried by one receipt at a time: the callback of the member resumed
last, then its target call, then the `continue_chain` behind it. [`script`] is
what the log should show of a batch, member by member; [`Owes`] is what the
receipt in flight still owes of it, and it is also where the position in the
list and the rest of the list are kept.

[`Relay`] is a move of the ledger as the chains see it. It forgets everything
but the tail, the batch counter, the receipts that carry a batch, and the log
entries that belong to one, and it has seven cases where a move has eleven and an
accepted call six more. Every invariant of the chain is proved from it.
-/
import SequentialNear.Conservation
import SequentialNear.Provenance

set_option autoImplicit false

namespace SequentialNear

open Nep366 Runs

/-! ## The script of a batch -/

/-- What the log shows of a chained batch. -/
inductive ChainStep
  | resumed (id seq : Nat)
  | dispatched (id : Nat) (seq : Option Nat)
  | executed (id : Nat)
  | finished (id : Nat)
deriving DecidableEq

/-- The steps of the members `ids`, the first of them at position `i`: each member
is resumed, dispatched with its position as sequence number, executed at its
receiver and finished, before the next one is resumed. -/
def script : Nat → List Nat → List ChainStep
  | _, [] => []
  | i, x :: xs =>
    .resumed x i :: .dispatched x (some i) :: .executed x :: .finished x :: script (i + 1) xs

/-- The step of batch `b` that an entry logs. An accepted `resume_batch_chained`
starts the batch whose number it advances the counter to. -/
def Entry.chain_step (b : Nat) (en : Entry) : Option ChainStep :=
  match en.event with
  | .accepted _ _ (.resume_batch_chained ids) =>
    if en.before.active_batch_id + 1 = b then ids.toList.head?.map (.resumed · 0) else none
  | .dispatched id _ seq batch => if batch = some b then some (.dispatched id seq) else none
  | .executed id _ _ batch => if batch = some b then some (.executed id) else none
  | .finished id _ batch => if batch = some b then some (.finished id) else none
  | .continued id seq batch => if batch = some b then some (.resumed id seq) else none
  | _ => none

/-- The number and the list of a batch that an entry accepts. -/
def Entry.batch (en : Entry) : Option (Nat × List Nat) :=
  match en.event with
  | .accepted _ _ (.resume_batch_chained ids) => some (en.before.active_batch_id + 1, ids.toList)
  | _ => none

namespace Ledger

/-- The steps of batch `b` so far, with their blocks. -/
def stamps (s : Ledger) (b : Nat) : List (Nat × ChainStep) :=
  s.log.filterMap fun en => (en.chain_step b).map fun st => (en.block, st)

/-- The steps of batch `b` so far. -/
def trace (s : Ledger) (b : Nat) : List ChainStep := (s.stamps b).map Prod.snd

/-- The batches accepted so far. -/
def batches (s : Ledger) : List (Nat × List Nat) := s.log.filterMap Entry.batch

/-- The receipts in flight that descend from batch `b`. -/
def of_batch (s : Ledger) (b : Nat) : List InFlight := s.receipts.filter (·.batch = some b)

end Ledger

/-- The intent a receipt will have resumed next: the one its signal names, the one
its `.then` callback is for, or the one `continue_chain` is called with. -/
def Receipt.next : Receipt → Option Nat
  | .callback _ _ _ (.ok v) => v.next_intent_id
  | .target_call _ _ and_then _ => and_then.map Prod.fst
  | .continue_chain id _ => some id
  | _ => none

/-- `Owes r rest rem`: of its batch, the receipt `r` still owes the steps `rem`, and
the members `rest` have not been resumed. -/
inductive Owes : Receipt → List Nat → List ChainStep → Prop
  | callback {y : YieldId} {args : CallbackArgs} {gas : Nat} {v : ResumeSignal} {i : Nat}
      {rest : List Nat} (hv : v.approve = true) (hseq : v.sequence_number = some i)
      (hnext : v.next_intent_id = rest.head?) :
      Owes (.callback y args gas (.ok v)) rest
        (.dispatched args.intent_id (some i) :: .executed args.intent_id ::
          .finished args.intent_id :: script (i + 1) rest)
  | to_run {id : Nat} {call : FunctionCall} {and_then : Option (Nat × Nat)} {i : Nat}
      {rest : List Nat} (hnext : and_then = rest.head?.map fun n => (n, i)) :
      Owes (.target_call id call and_then false) rest
        (.executed id :: .finished id :: script i rest)
  | to_finish {id : Nat} {call : FunctionCall} {and_then : Option (Nat × Nat)} {i : Nat}
      {rest : List Nat} (hnext : and_then = rest.head?.map fun n => (n, i)) :
      Owes (.target_call id call and_then true) rest (.finished id :: script i rest)
  | to_continue {id i : Nat} {rest : List Nat} :
      Owes (.continue_chain id i) (id :: rest) (script i (id :: rest))

/-- A receipt that owes a rest names the head of it. -/
theorem Owes.next {r : Receipt} {rest : List Nat} {rem : List ChainStep} (h : Owes r rest rem) :
    r.next = rest.head? := by
  cases h with
  | callback hv hseq hnext => exact hnext
  | to_run hnext | to_finish hnext =>
    rw [Receipt.next, hnext, Option.map_map]
    cases rest.head? <;> rfl
  | to_continue => rfl

/-! ## A receipt passing its batch on -/

/-- `Passes r st new`: executing `r` is the step `st`, and leaves `new` in flight. -/
inductive Passes : Receipt → ChainStep → List Receipt → Prop
  | dispatch {y : YieldId} {args : CallbackArgs} {gas : Nat} {v : ResumeSignal}
      (hv : v.approve = true) :
      Passes (.callback y args gas (.ok v)) (.dispatched args.intent_id v.sequence_number)
        [.target_call args.intent_id args.toFunctionCall
          (v.next_intent_id.map fun id => (id, v.sequence_number.getD 0 + 1)) false]
  | execute {id : Nat} {call : FunctionCall} {and_then : Option (Nat × Nat)} :
      Passes (.target_call id call and_then false) (.executed id)
        [.target_call id call and_then true]
  | finish {id : Nat} {call : FunctionCall} {and_then : Option (Nat × Nat)} :
      Passes (.target_call id call and_then true) (.finished id)
        (and_then.toList.map fun n => .continue_chain n.1 n.2)

/-- What is passed on names the same next intent. -/
theorem Passes.next {r : Receipt} {st : ChainStep} {new : List Receipt} (h : Passes r st new) :
    ∀ r' ∈ new, r'.next = r.next := by
  intro r' hr'
  cases h with
  | @dispatch y args gas v hv =>
    obtain rfl := List.mem_singleton.1 hr'
    rw [Receipt.next, Receipt.next, Option.map_map]
    cases v.next_intent_id <;> rfl
  | execute =>
    obtain rfl := List.mem_singleton.1 hr'
    rfl
  | @finish id call and_then =>
    cases and_then with
    | none => cases hr'
    | some n =>
      obtain rfl := List.mem_singleton.1 hr'
      rfl

/-- Passing a batch on pays one step of what is owed. -/
theorem Owes.pass {r : Receipt} {rest : List Nat} {rem : List ChainStep} {st : ChainStep}
    {new : List Receipt} (h : Owes r rest rem) (hp : Passes r st new) :
    ∃ rem', rem = st :: rem' ∧
      (new = [] ∧ rest = [] ∧ rem' = [] ∨ ∃ r', new = [r'] ∧ Owes r' rest rem') := by
  cases h with
  | @callback y args gas v i rest hv hseq hnext =>
    cases hp
    -- position `i` was dispatched, so `.then` is scheduled for `i + 1`
    rw [hseq]
    refine ⟨_, rfl, .inr ⟨_, rfl, .to_run ?_⟩⟩
    rw [hnext]
    rfl
  | to_run hnext =>
    cases hp
    exact ⟨_, rfl, .inr ⟨_, rfl, .to_finish hnext⟩⟩
  | @to_finish id call and_then i rest hnext =>
    cases hp
    refine ⟨_, rfl, ?_⟩
    -- nothing left to resume: no `.then` was scheduled, and the batch is over
    cases rest with
    | nil =>
      rw [hnext]
      exact .inl ⟨rfl, rfl, rfl⟩
    | cons n rest =>
      rw [hnext]
      exact .inr ⟨_, rfl, .to_continue⟩
  | to_continue => cases hp

/-! ## Moves, as the chains see them -/

namespace Ledger

variable {d : Deployment} {s s' s₀ : Ledger} {a : Action}

/-- The intent's yield is open. -/
def Open (s : Ledger) (id : Nat) : Prop := ∃ y, s.books.ticket y = some id

instance (s : Ledger) (id : Nat) : Decidable (s.Open id) :=
  decidable_of_iff (∃ y ∈ s.yields.keys, s.books.ticket y = some id) (by
    constructor
    · rintro ⟨y, -, hy⟩
      exact ⟨y, hy⟩
    · rintro ⟨y, hy⟩
      obtain ⟨w, hw, -⟩ := Option.map_eq_some_iff.1 hy
      refine ⟨y, ?_, hy⟩
      rw [← AList.mem_keys, ← AList.lookup_isSome, hw]
      rfl)

/-- An open intent is pending, under that yield. -/
theorem Lifecycle.open_pending (h : s.Lifecycle) {id : Nat} (ho : s.Open id) :
    ∃ p w, s.gate.pending.lookup id = some p ∧ s.yields.lookup p.yield_id = some w := by
  obtain ⟨y, hy⟩ := ho
  obtain ⟨p, hp, rfl⟩ := Option.map_eq_some_iff.1 (h.books.open_held y id hy)
  obtain ⟨w, hw, -⟩ := Option.map_eq_some_iff.1 hy
  exact ⟨p, w, hp, hw⟩

theorem Lifecycle.open_of_lookup (h : s.Lifecycle) {id : Nat} {p : PendingIntent} {w : OpenYield}
    (hp : s.gate.pending.lookup id = some p) (hw : s.yields.lookup p.yield_id = some w) :
    s.Open id := by
  refine ⟨p.yield_id, ?_⟩
  rw [← h.resume_same hp hw]
  simp only [Ledger.books, hw, Option.map_some]

/-- `continue_chain` returns when the head of the tail is open. -/
theorem Lifecycle.continue_runs (h : s.Lifecycle) (d : Deployment) {id : Nat} (seq : Nat)
    (hhead : s.gate.batch_chain_tail.head? = some id) (hopen : s.Open id) :
    ∃ out, (GateCall.continue_chain id seq).run d.host (s.env d d.gate_id 0) s.gate = .ok out := by
  obtain ⟨rest, htail⟩ := List.head?_eq_some_iff.1 hhead
  obtain ⟨p, w, hp, hw⟩ := h.open_pending hopen
  exact GateCall.continue_chain_runs rfl rfl htail hp (yield_is_open_iff.2 ⟨w, hw⟩)

/-- The move touches no batch: it starts none, and adds to none. -/
structure Still (s s' : Ledger) : Prop where
  now : s.block_height ≤ s'.block_height
  active : s'.gate.active_batch_id = s.gate.active_batch_id
  of_batch : ∀ b, s'.of_batch b = s.of_batch b
  next : ∀ f' ∈ s'.receipts, ∀ n, f'.receipt.next = some n →
    ∃ f ∈ s.receipts, f.receipt.next = some n ∧ f.batch = f'.batch
  stamps : ∀ b, s'.stamps b = s.stamps b
  batches : s'.batches = s.batches

/-- The part of a move that no receipt of a batch changes. -/
structure SameBatches (s s' : Ledger) : Prop where
  now : s'.block_height = s.block_height
  active : s'.gate.active_batch_id = s.gate.active_batch_id
  batches : s'.batches = s.batches

end Ledger

/-- The intent a `continue_chain` call asks for. -/
def GateCall.continues : GateCall → Option Nat
  | .continue_chain id _ => some id
  | _ => none

/-- A dispatched call addressed to the gate runs `continue_chain` on the head of the
tail, which is open: the private check lets it pass. -/
def Action.forges (d : Deployment) (s : Ledger) (a : Action) : Prop :=
  ∃ c ∈ a.gate_call d s, c.1 = d.gate_id ∧ c.2.1 = 0 ∧
    ∃ id ∈ c.2.2.continues, s.gate.batch_chain_tail.head? = some id ∧ s.Open id

instance (d : Deployment) (s : Ledger) (a : Action) : Decidable (a.forges d s) :=
  inferInstanceAs (Decidable (∃ c ∈ a.gate_call d s, c.1 = d.gate_id ∧ c.2.1 = 0 ∧
    ∃ id ∈ c.2.2.continues, s.gate.batch_chain_tail.head? = some id ∧ s.Open id))

/-- Why a receipt leaves the queue without passing its batch on: its dispatch cannot
be created, it never belonged to a chain, or its `continue_chain` panicked. -/
def Stops (d : Deployment) (s : Ledger) (a : Action) (r : Receipt) : Prop :=
  ¬ a.fits d s ∨ (∀ rest rem, ¬ Owes r rest rem) ∨
  ∃ id seq, r = .continue_chain id seq ∧
    ¬ (s.gate.batch_chain_tail.head? = some id ∧ s.Open id)

open Ledger in
/-- A move of the ledger, as the chains see it. -/
inductive Relay (d : Deployment) (s₀ : Ledger) (a : Action) : Ledger → Ledger → Prop
  | still {s s' : Ledger} (h : Still s s')
      (htail : s'.gate.batch_chain_tail = s.gate.batch_chain_tail) : Relay d s₀ a s s'
  | reset {s' : Ledger} {caller : AccountId} {deposit : Nat} (h : Still s₀ s')
      (hcall : a.accepted_call d s₀ = some (caller, deposit, .reset_batch_tail))
      (htail : s'.gate.batch_chain_tail = []) : Relay d s₀ a s₀ s'
  | start {s' : Ledger} {caller : AccountId} {deposit first : Nat} {ids : Vec Nat}
      {rest : List Nat} {y : YieldId} {args : CallbackArgs} {gas : Nat}
      (hcall : a.accepted_call d s₀ = some (caller, deposit, .resume_batch_chained ids))
      (hids : ids.toList = first :: rest) (htail : s₀.gate.batch_chain_tail = [])
      (htail' : s'.gate.batch_chain_tail = rest)
      (hactive : s'.gate.active_batch_id = s₀.gate.active_batch_id + 1)
      (hnow : s'.block_height = s₀.block_height)
      (hrecs : s'.receipts = s₀.receipts ++
        [⟨.callback y args gas (.ok ⟨true, some 0, rest.head?⟩),
          some (s₀.gate.active_batch_id + 1), s₀.block_height⟩]) (hid : args.intent_id = first)
      (hlog : s'.log = s₀.log ++ [⟨s₀.block_height, s₀.gate,
        .accepted caller deposit (.resume_batch_chained ids)⟩]) : Relay d s₀ a s₀ s'
  | pass {s s' : Ledger} {f : InFlight} {pre post : List InFlight} {st : ChainStep}
      (new : List InFlight) (h : SameBatches s s') (htail : s'.gate.batch_chain_tail = s.gate.batch_chain_tail)
      (hexec : a.receipt s₀ = some f) (hblock : s.block_height = s₀.block_height)
      (hsplit : s.receipts = pre ++ f :: post)
      (hrecs : s'.receipts = pre ++ post ++ new) (hnew : ∀ g ∈ new, g.batch = f.batch)
      (hpass : Passes f.receipt st (new.map (·.receipt)))
      (hcreated : ∀ g ∈ new, g.created = s.block_height ∨ ∃ id call and_then,
        g.receipt = .target_call id call and_then true)
      (hstamps : ∀ b, s'.stamps b =
        s.stamps b ++ if f.batch = some b then [(s.block_height, st)] else []) : Relay d s₀ a s s'
  | stop {s' : Ledger} {f : InFlight} {pre post : List InFlight}
      (h : SameBatches s₀ s') (htail : s'.gate.batch_chain_tail = s₀.gate.batch_chain_tail)
      (hsplit : s₀.receipts = pre ++ f :: post) (hrecs : s'.receipts = pre ++ post)
      (hstops : Stops d s₀ a f.receipt) (hstamps : ∀ b, s'.stamps b = s₀.stamps b) :
      Relay d s₀ a s₀ s'
  | pop {s' : Ledger} {pre post : List InFlight} {id seq created : Nat} {batch : Option Nat}
      {rest : List Nat} {y : YieldId} {args : CallbackArgs} {gas : Nat} (h : SameBatches s₀ s')
      (hexec : a.receipt s₀ = some ⟨.continue_chain id seq, batch, created⟩)
      (hsplit : s₀.receipts = pre ++ ⟨.continue_chain id seq, batch, created⟩ :: post)
      (htail : s₀.gate.batch_chain_tail = id :: rest) (htail' : s'.gate.batch_chain_tail = rest)
      (hrecs : s'.receipts = pre ++ post ++
        [⟨.callback y args gas (.ok ⟨true, some seq, rest.head?⟩), batch, s₀.block_height⟩])
      (hid : args.intent_id = id)
      (hstamps : ∀ b, s'.stamps b = s₀.stamps b ++
        if batch = some b then [(s₀.block_height, .resumed id seq)] else []) : Relay d s₀ a s₀ s'
  | forge {s' : Ledger} {id seq : Nat} {rest : List Nat} {y : YieldId} {args : CallbackArgs}
      {gas : Nat} (hforges : a.forges d s₀) (h : SameBatches s₀ s')
      (htail : s₀.gate.batch_chain_tail = id :: rest) (htail' : s'.gate.batch_chain_tail = rest)
      (hrecs : s'.receipts = s₀.receipts ++
        [⟨.callback y args gas (.ok ⟨true, some seq, rest.head?⟩), none, s₀.block_height⟩])
      (hid : args.intent_id = id) (hstamps : ∀ b, s'.stamps b = s₀.stamps b) : Relay d s₀ a s₀ s'

namespace Ledger

variable {d : Deployment} {s s' s₀ : Ledger} {a : Action}

/-! ### The log -/

theorem stamps_of_log {e : Event} (hlog : s'.log = s.log ++ [⟨s.block_height, s.gate, e⟩])
    (b : Nat) : s'.stamps b = s.stamps b ++
      (((⟨s.block_height, s.gate, e⟩ : Entry).chain_step b).map
        fun st => (s.block_height, st)).toList := by
  rw [stamps, hlog, List.filterMap_append, stamps]
  cases hst : (⟨s.block_height, s.gate, e⟩ : Entry).chain_step b <;> simp [hst]

/-- An event that logs a step of the batch it carries stamps that batch only. -/
theorem stamps_step {e : Event} {batch : Option Nat} {st : ChainStep}
    (he : ∀ block g b,
      (⟨block, g, e⟩ : Entry).chain_step b = if batch = some b then some st else none)
    (hlog : s'.log = s.log ++ [⟨s.block_height, s.gate, e⟩]) (b : Nat) :
    s'.stamps b = s.stamps b ++ if batch = some b then [(s.block_height, st)] else [] := by
  rw [stamps_of_log hlog, he]
  by_cases hb : batch = some b
  · rw [if_pos hb, if_pos hb]
    rfl
  · rw [if_neg hb, if_neg hb]
    rfl

theorem batches_of_log {e : Event} (hlog : s'.log = s.log ++ [⟨s.block_height, s.gate, e⟩]) :
    s'.batches = s.batches ++ ((⟨s.block_height, s.gate, e⟩ : Entry).batch).toList := by
  rw [batches, hlog, List.filterMap_append, batches]
  cases hb : (⟨s.block_height, s.gate, e⟩ : Entry).batch <;> simp [hb]

end Ledger

/-- The event is no step of any batch, and starts none. -/
def Event.Plain (e : Event) : Prop :=
  ∀ block g, (∀ b, (⟨block, g, e⟩ : Entry).chain_step b = none) ∧
    (⟨block, g, e⟩ : Entry).batch = none

theorem Event.plain_accepted {caller : AccountId} {deposit : Nat} {c : GateCall}
    (hc : ∀ ids, c ≠ .resume_batch_chained ids) : (Event.accepted caller deposit c).Plain := by
  intro block g
  cases c with
  | resume_batch_chained ids => exact absurd rfl (hc ids)
  | _ => exact ⟨fun _ => rfl, rfl⟩

namespace Ledger

variable {d : Deployment} {s s' s₀ : Ledger} {a : Action}

theorem stamps_plain {e : Event} (he : e.Plain)
    (hlog : s'.log = s.log ++ [⟨s.block_height, s.gate, e⟩]) (b : Nat) :
    s'.stamps b = s.stamps b := by
  rw [stamps_of_log hlog, (he _ _).1 b, Option.map_none, Option.toList_none, List.append_nil]

theorem batches_plain {e : Event} (he : e.Plain)
    (hlog : s'.log = s.log ++ [⟨s.block_height, s.gate, e⟩]) : s'.batches = s.batches := by
  rw [batches_of_log hlog, (he _ _).2, Option.toList_none, List.append_nil]

/-- A move that logs no step, and queues only receipts of no batch that name
nothing, touches no batch. -/
theorem still_of_queue {e : Event} {new : List InFlight} (he : e.Plain)
    (hnow : s'.block_height = s.block_height)
    (hactive : s'.gate.active_batch_id = s.gate.active_batch_id)
    (hlog : s'.log = s.log ++ [⟨s.block_height, s.gate, e⟩])
    (hrecs : s'.receipts = s.receipts ++ new)
    (hnew : ∀ f ∈ new, f.batch = none ∧ f.receipt.next = none) : Still s s' where
  now := Nat.le_of_eq hnow.symm
  active := hactive
  of_batch b := by
    -- what joins the queue is of no batch, so the filter does not see it
    have hnil : new.filter (fun f => decide (f.batch = some b)) = [] := by
      rw [List.filter_eq_nil_iff]
      intro f hf
      rw [(hnew f hf).1]
      exact fun h => by cases of_decide_eq_true h
    rw [of_batch, hrecs, List.filter_append, hnil, List.append_nil, of_batch]
  next f' hf' n hn := by
    rw [hrecs, List.mem_append] at hf'
    rcases hf' with hf' | hf'
    · exact ⟨f', hf', hn, rfl⟩
    · rw [(hnew f' hf').2] at hn
      cases hn
  stamps := stamps_plain he hlog
  batches := batches_plain he hlog

/-! ### Calls -/

/-- A `continue_chain` that returns as a call, and not as a receipt of its own, is
forged: from outside the private check refuses it. -/
theorem forges_of_chain {id seq deposit : Nat} {caller : AccountId} {g' : Gate} {act : HostAction}
    (hlife : s.Lifecycle) (hcall : a.gate_call d s = some (caller, deposit, .continue_chain id seq))
    (hcaller : (∃ spare, a = .call caller deposit spare (.continue_chain id seq)) ∧
        caller ≠ d.gate_id ∨ (∃ i spare success, a = .execute i spare success) ∧ caller = d.gate_id)
    (heff : CallEffect d.host (s.env d caller deposit) s.gate (.continue_chain id seq) g' act) :
    a.forges d s := by
  cases heff with
  | admin hc => cases hc
  | chain hpriv hfree htail hp hopen =>
    rcases hcaller with ⟨-, hne⟩ | ⟨-, rfl⟩
    · exact absurd hpriv hne
    · obtain ⟨w, hw⟩ := open_lookup hopen
      have hzero : deposit = 0 := hfree
      subst hzero
      refine ⟨_, hcall, rfl, rfl, id, rfl, ?_, hlife.open_of_lookup hp hw⟩
      rw [htail]
      rfl

/-- A gate call touches no batch, resets the tail, starts a batch, or is forged. -/
theorem relay_of_called {c : GateCall} {caller : AccountId} {deposit spare : Nat} {out : Outcome}
    (hlife : s.Lifecycle) (hcall : a.gate_call d s = some (caller, deposit, c))
    (hacc : a.accepted_call d s = some (caller, deposit, c))
    (hcaller : (∃ spare, a = .call caller deposit spare c) ∧ caller ≠ d.gate_id ∨
      (∃ i spare success, a = .execute i spare success) ∧ caller = d.gate_id)
    (heff : CallEffect d.host (s.env d caller deposit) s.gate c out.gate out.action) :
    Relay d s a s
      (s.apply (.accepted caller deposit c) out deposit (batch_of c out.gate) spare) := by
  generalize hb : batch_of c out.gate = batch
  have hlog := apply_log (s := s) (.accepted caller deposit c) out deposit batch spare
  have hrecs := apply_receipts (s := s) (.accepted caller deposit c) out deposit batch spare
  generalize hg : out.gate = g' at heff
  generalize ha : out.action = act at heff
  cases heff with
  | admin hc frame hact =>
    have hplain : (Event.accepted caller deposit c).Plain := by
      refine Event.plain_accepted ?_
      rintro ids rfl
      cases hc
    -- only `resume_batch_chained` has a batch number to hand on
    have hnone : batch = none := by
      cases c with
      | resume_batch_chained ids => cases hc
      | _ => exact hb.symm
    refine .still (still_of_queue hplain (apply_block_height _ _ _ _ _) ?_ hlog hrecs ?_) ?_
    · rw [apply_gate, hg, frame.active_batch_id]
    · intro f hf
      rcases hact with rfl | ⟨to_id, amount, rfl⟩
      · simp only [ha, created, List.not_mem_nil] at hf
      · simp only [ha, created, List.mem_singleton] at hf
        rw [hf]
        exact ⟨hnone, rfl⟩
    · rw [apply_gate, hg, frame.batch_chain_tail]
  | reset howner =>
    refine .reset (still_of_queue (Event.plain_accepted fun _ => GateCall.noConfusion)
      (apply_block_height _ _ _ _ _) ?_ hlog hrecs ?_) hacc ?_
    · rw [apply_gate, hg]
    · simp [ha, created]
    · rw [apply_gate, hg]
  | submit hrel hdec hver hexp hnonce hfc hid hsub =>
    refine .still (still_of_queue (Event.plain_accepted fun _ => GateCall.noConfusion)
      (apply_block_height _ _ _ _ _) ?_ hlog hrecs ?_) ?_
    · rw [apply_gate, hg]
      rfl
    · simp [ha, created]
    · rw [apply_gate, hg]
      rfl
  | @resume id approve tier p happr htier hdep hfee hp hopen =>
    refine .still (still_of_queue (Event.plain_accepted fun _ => GateCall.noConfusion)
      (apply_block_height _ _ _ _ _) ?_ hlog hrecs ?_) ?_
    · rw [apply_gate, hg]
    · intro f hf
      simp only [ha, created] at hf
      split at hf
      · rw [List.mem_singleton.1 hf]
        exact ⟨hb.symm, rfl⟩
      · cases hf
    · rw [apply_gate, hg]
  | @batch ids first rest tier p happr htail hids htier hdep hfee hknown hid hp hopen =>
    obtain ⟨w, hw⟩ := open_lookup hopen
    have hcreated : s.created batch out.action =
        [⟨.callback p.yield_id w.args w.gas (.ok ⟨true, some 0, rest.head?⟩),
          some (s.gate.active_batch_id + 1), s.block_height⟩] := by
      rw [← hb]
      simp only [ha, created, hw, batch_of, hg]
    rw [hcreated] at hrecs
    refine .start hacc hids htail ?_ ?_ (apply_block_height _ _ _ _ _) hrecs
      (hlife.resume_same hp hw) hlog
    · rw [apply_gate, hg]
    · rw [apply_gate, hg]
  | @chain next_id next_seq rest p hpriv hfree htail hp hopen =>
    obtain ⟨w, hw⟩ := open_lookup hopen
    have hplain : (Event.accepted caller deposit (.continue_chain next_id next_seq)).Plain :=
      Event.plain_accepted fun _ => GateCall.noConfusion
    -- as a call it is forged; `Move.continued` is the receipt
    have hforges := forges_of_chain hlife hcall hcaller (.chain hpriv hfree htail hp hopen)
    have hcreated : s.created batch out.action =
        [⟨.callback p.yield_id w.args w.gas (.ok ⟨true, some next_seq, rest.head?⟩), none,
          s.block_height⟩] := by
      rw [← hb]
      simp only [ha, created, hw, batch_of]
    rw [hcreated] at hrecs
    refine .forge hforges ⟨apply_block_height _ _ _ _ _, ?_, batches_plain hplain hlog⟩ htail ?_ hrecs
      (hlife.resume_same hp hw) (stamps_plain hplain hlog)
    · rw [apply_gate, hg]
    · rw [apply_gate, hg]

/-! ### Receipts -/

/-- A callback that returned dispatches and passes its batch on, or rejects. -/
theorem relay_of_resumed {i burnt : Nat} {y : YieldId} {args : CallbackArgs} {gas : Nat}
    {signal : Except PromiseError ResumeSignal} {batch : Option Nat} {created : Nat}
    {pre post : List InFlight} {out : Outcome} (ha : a = .run_callback i burnt)
    (htake : s.Takes i ⟨.callback y args gas signal, batch, created⟩ pre post)
    (hret : Returns (s.gate.on_intent_resumed args signal) out.gate out.action) :
    Relay d s a s
      ((s.without pre post).apply (callback_event args batch signal out.action) out 0 batch 0) := by
  obtain ⟨w, hfate, hw⟩ := resumed_effect batch hret
  have hlog := apply_log (s := s.without pre post) (callback_event args batch signal out.action)
    out 0 batch 0
  rcases hw with ⟨rfl, ⟨v, rfl, hv, and_then, hc, hact⟩, hg⟩ | ⟨rfl, hact, hg⟩
  · rw [callback_event_approve hv hret] at hlog ⊢
    obtain ⟨-, rfl⟩ := chained_call_eq_ok.1 hc
    -- dispatched: the target call takes the callback's place
    refine .pass [⟨_, batch, s.block_height⟩] ⟨?_, ?_, ?_⟩ ?_ (ha ▸ htake.get) rfl
      htake.split ?_ ?_ (.dispatch hv) ?_ ?_
    · exact apply_block_height _ _ _ _ _
    · rw [apply_gate, hg]
    · exact (batches_of_log hlog).trans (List.append_nil _)
    · rw [apply_gate, hg]
    · rw [apply_receipts, hact]
      rfl
    · intro g hg
      rw [List.mem_singleton.1 hg]
    · intro g hg
      rw [List.mem_singleton.1 hg]
      exact .inl rfl
    · exact stamps_step (fun _ _ _ => rfl) hlog
  -- rejected: nothing takes its place
  · have hplain : (callback_event args batch signal out.action).Plain := by
      intro block g
      rcases callback_event_cases batch hret with ⟨_, he⟩ | ⟨_, he⟩
      · rw [he] at hfate
        cases hfate
      · rw [he]
        exact ⟨fun _ => rfl, rfl⟩
    refine .stop ⟨?_, ?_, ?_⟩ ?_ htake.split ?_ (.inr (.inl ?_)) ?_
    · exact apply_block_height _ _ _ _ _
    · rw [apply_gate, hg]
    · exact batches_plain hplain hlog
    · rw [apply_gate, hg]
    · rw [apply_receipts, hact]
      exact List.append_nil _
    · -- a callback that rejects was not approved
      intro rest rem howes
      cases howes with
      | callback hv =>
        rw [callback_event_approve hv hret] at hfate
        cases hfate
    · exact fun b => stamps_plain hplain hlog b

theorem relay_of_aborted {i burnt : Nat} {y : YieldId} {args : CallbackArgs} {gas : Nat}
    {signal : Except PromiseError ResumeSignal} {batch : Option Nat} {created : Nat}
    {pre post : List InFlight} (hlife : s.Lifecycle) (ha : a = .run_callback i burnt)
    (htake : s.Takes i ⟨.callback y args gas signal, batch, created⟩ pre post)
    (hfail : ∀ g act, Returns (s.gate.on_intent_resumed args signal) g act →
      ¬ act.fits d s.balance (gas - burnt)) :
    Relay d s a s ((s.without pre post).record (.aborted args.intent_id batch)) := by
  have hplain : (Event.aborted args.intent_id batch).Plain := fun _ _ => ⟨fun _ => rfl, rfl⟩
  refine .stop ⟨rfl, rfl, batches_plain hplain rfl⟩ rfl htake.split rfl ?_
    (fun b => stamps_plain hplain rfl b)
  by_cases howes : ∃ rest rem, Owes (.callback y args gas signal) rest rem
  · left
    obtain ⟨rest, rem, howes⟩ := howes
    cases howes with
    | @callback _ _ _ v i rest hv hseq hnext =>
      -- it owed a dispatch, so it was approved, and a dispatch that fits is not reverted
      subst ha
      intro hfits
      exact not_reverted_of_fits hlife htake.get hv (hfits _ htake.get hv) hfail
  · exact .inr (.inl fun rest rem h => howes ⟨rest, rem, h⟩)

theorem relay_of_ran {id : Nat} {call : FunctionCall} {and_then : Option (Nat × Nat)}
    {batch : Option Nat} {created : Nat} {pre post : List InFlight} {ok : Bool}
    (hf : a.receipt s₀ = some ⟨.target_call id call and_then false, batch, created⟩)
    (hblock : s.block_height = s₀.block_height)
    (hrecs : s.receipts = pre ++ ⟨.target_call id call and_then false, batch, created⟩ :: post) :
    Relay d s₀ a s ((s.without pre post).ran ⟨.target_call id call and_then false, batch, created⟩
      id call and_then ok) := by
  have hlog : ((s.without pre post).ran ⟨.target_call id call and_then false, batch, created⟩
      id call and_then ok).log = s.log ++ [⟨s.block_height, s.gate, .executed id call ok batch⟩] :=
    rfl
  refine .pass [⟨.target_call id call and_then true, batch, created⟩] ⟨rfl, rfl, ?_⟩ rfl hf
    hblock hrecs rfl ?_ .execute ?_ ?_
  · exact (batches_of_log hlog).trans (List.append_nil _)
  · intro g hg
    rw [List.mem_singleton.1 hg]
  · intro g hg
    rw [List.mem_singleton.1 hg]
    exact .inr ⟨_, _, _, rfl⟩
  · exact stamps_step (fun _ _ _ => rfl) hlog

theorem relay_of_finished {i : Nat} {success : Bool} {id : Nat} {call : FunctionCall}
    {and_then : Option (Nat × Nat)} {batch : Option Nat} {created : Nat} {pre post : List InFlight}
    (ha : a = .finish i success)
    (htake : s.Takes i ⟨.target_call id call and_then true, batch, created⟩ pre post) :
    Relay d s a s ((s.without pre post).finish batch id and_then success) := by
  have hlog : ((s.without pre post).finish batch id and_then success).log =
      s.log ++ [⟨s.block_height, s.gate, .finished id success batch⟩] := by
    cases and_then <;> rfl
  have hstamps : ∀ b, ((s.without pre post).finish batch id and_then success).stamps b =
      s.stamps b ++ if batch = some b then [(s.block_height, .finished id)] else [] :=
    stamps_step (fun _ _ _ => rfl) hlog
  have hbatches := (batches_of_log hlog).trans (List.append_nil _)
  cases and_then with
  | none =>
    -- the last member: the batch leaves the queue with its receipt
    exact .pass [] ⟨rfl, rfl, hbatches⟩ rfl (ha ▸ htake.get) rfl htake.split
      (List.append_nil _).symm (fun _ hg => by cases hg) .finish (fun _ hg => by cases hg) hstamps
  | some n =>
    refine .pass [⟨.continue_chain n.1 n.2, batch, s.block_height⟩] ⟨rfl, rfl, hbatches⟩ rfl
      (ha ▸ htake.get) rfl htake.split rfl ?_ .finish ?_ hstamps
    · intro g hg
      rw [List.mem_singleton.1 hg]
    · intro g hg
      rw [List.mem_singleton.1 hg]
      exact .inl rfl

/-- A `continue_chain` that returned pops the tail and hands the batch to the next
member's callback. -/
theorem relay_of_continued {i next_id next_seq : Nat} {batch : Option Nat} {created : Nat}
    {pre post : List InFlight} {out : Outcome} (hlife : s.Lifecycle) (ha : a = .run_continue i)
    (htake : s.Takes i ⟨.continue_chain next_id next_seq, batch, created⟩ pre post)
    (heff : CallEffect d.host (s.env d d.gate_id 0) s.gate (.continue_chain next_id next_seq)
      out.gate out.action) :
    Relay d s a s
      ((s.without pre post).apply (.continued next_id next_seq batch) out 0 batch 0) := by
  have hlog := apply_log (s := s.without pre post) (.continued next_id next_seq batch) out 0 batch 0
  have hrecs := apply_receipts (s := s.without pre post) (.continued next_id next_seq batch) out 0
    batch 0
  generalize hg : out.gate = g' at heff
  generalize hact : out.action = act at heff
  cases heff with
  | admin hc => cases hc
  | @chain _ _ rest p hpriv hfree htail hp hopen =>
    obtain ⟨w, hw⟩ := open_lookup hopen
    have hcreated : (s.without pre post).created batch out.action =
        [⟨.callback p.yield_id w.args w.gas (.ok ⟨true, some next_seq, rest.head?⟩), batch,
          s.block_height⟩] := by
      rw [hact]
      simp only [Ledger.created, without, hw]
    rw [hcreated] at hrecs
    refine .pop ⟨apply_block_height _ _ _ _ _, ?_, (batches_of_log hlog).trans (List.append_nil _)⟩
      (ha ▸ htake.get) htake.split htail ?_ hrecs (hlife.resume_same hp hw) ?_
    · rw [apply_gate, hg]
    · rw [apply_gate, hg]
    · exact stamps_step (fun _ _ _ => rfl) hlog

/-- A `continue_chain` panics only when the tail has drifted, or when its intent is
no longer there to be resumed. -/
theorem relay_of_continue_failed {i next_id next_seq : Nat} {batch : Option Nat} {created : Nat}
    {pre post : List InFlight} {msg : String} (hlife : s.Lifecycle)
    (htake : s.Takes i ⟨.continue_chain next_id next_seq, batch, created⟩ pre post)
    (hfail : (GateCall.continue_chain next_id next_seq).run d.host (s.env d d.gate_id 0) s.gate
      = .error msg) :
    Relay d s a s ((s.without pre post).record (.continue_failed next_id next_seq msg batch)) := by
  have hplain : (Event.continue_failed next_id next_seq msg batch).Plain :=
    fun _ _ => ⟨fun _ => rfl, rfl⟩
  refine .stop ⟨rfl, rfl, batches_plain hplain rfl⟩ rfl htake.split rfl
    (.inr (.inr ⟨next_id, next_seq, rfl, ?_⟩)) (fun b => stamps_plain hplain rfl b)
  -- at the head of the tail and still open it would have returned
  rintro ⟨hhead, hopen⟩
  obtain ⟨out, hrun⟩ := hlife.continue_runs d next_seq hhead hopen
  rw [hrun] at hfail
  cases hfail

/-- **Every move is a relay.** -/
theorem relay_of_move (hlife : s.Lifecycle) (hmove : Move d s₀ a s s') : Relay d s₀ a s s' := by
  cases hmove with
  | advance ha =>
    exact .still ⟨Nat.le_add_right _ _, rfl, fun _ => rfl, fun f hf n hn => ⟨f, hf, hn, rfl⟩,
      fun _ => rfl, rfl⟩ rfl
  | refused hcall =>
    have hplain : ∀ caller deposit c msg, (Event.refused caller deposit c msg).Plain :=
      fun _ _ _ _ _ _ => ⟨fun _ => rfl, rfl⟩
    exact .still (still_of_queue (hplain _ _ _ _) rfl rfl rfl (List.append_nil _).symm
      (fun _ hf => by cases hf)) rfl
  | called hcall hacc hcaller hspare heff =>
    exact relay_of_called hlife hcall hacc hcaller heff
  | @timed_out y w ha hw =>
    have hplain : (Event.timed_out w.args.intent_id).Plain := fun _ _ => ⟨fun _ => rfl, rfl⟩
    refine .still (still_of_queue hplain rfl rfl rfl rfl ?_) rfl
    intro f hf
    rw [List.mem_singleton.1 hf]
    exact ⟨rfl, rfl⟩
  | resumed ha htake hret hfits => exact relay_of_resumed ha htake hret
  | aborted ha htake hfail => exact relay_of_aborted hlife ha htake hfail
  | ran hf hblock hrecs => exact relay_of_ran hf hblock hrecs
  | finished ha htake => exact relay_of_finished ha htake
  | continued ha htake heff => exact relay_of_continued hlife ha htake heff
  | continue_failed ha htake hfail => exact relay_of_continue_failed hlife htake hfail
  | @settled i success to_id amount batch created pre post ha htake =>
    have hplain : (Event.transferred to_id amount success).Plain := fun _ _ => ⟨fun _ => rfl, rfl⟩
    -- a withdrawal was never part of a chain
    have hno : ∀ rest rem, ¬ Owes (.transfer to_id amount) rest rem := fun _ _ h => by cases h
    unfold Ledger.settle
    split
    · exact .stop ⟨rfl, rfl, batches_plain hplain rfl⟩ rfl htake.split rfl (.inr (.inl hno))
        (fun b => stamps_plain hplain rfl b)
    · exact .stop ⟨rfl, rfl, batches_plain hplain rfl⟩ rfl htake.split rfl (.inr (.inl hno))
        (fun b => stamps_plain hplain rfl b)

end Ledger

end SequentialNear
