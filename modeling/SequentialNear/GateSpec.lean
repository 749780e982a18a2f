/-
What each gate method does when it returns, one lemma per method.

[`Returns`] forgets the log lines; every `*_returns` lemma is an equivalence, so
the left-to-right direction inverts a successful call and the right-to-left
direction shows that a call succeeds. [`CallEffect`] collects them: it is the
complete list of what an accepted call can have done, guards included, and
every invariant of the ledger is proved from it without unfolding a method.
-/
import SequentialNear.Gate

set_option autoImplicit false

namespace SequentialNear

open Borsh Nep366

/-! ## Straight-line code in `Except` -/

section Except

variable {ε α β : Type}

/-- A sequence succeeds when its first part does and the rest does on its value. -/
theorem bind_eq_ok {x : Except ε α} {f : α → Except ε β} {b : β} :
    (x >>= f) = .ok b ↔ ∃ a, x = .ok a ∧ f a = .ok b := by
  cases x with
  | error e => exact ⟨fun h => (by cases h), fun ⟨_, h, _⟩ => (by cases h)⟩
  | ok a => exact ⟨fun h => ⟨a, rfl, h⟩, fun ⟨_, h, h'⟩ => by cases h; exact h'⟩

theorem pure_eq_ok {a b : α} : (pure a : Except ε α) = .ok b ↔ a = b :=
  ⟨fun h => by cases h; rfl, fun h => by rw [h]; rfl⟩

theorem bind_eq_error {x : Except ε α} {f : α → Except ε β} {e : ε} :
    (x >>= f) = .error e ↔ x = .error e ∨ ∃ a, x = .ok a ∧ f a = .error e := by
  cases x with
  | error e' =>
    constructor
    · intro h
      exact .inl (by cases h; rfl)
    · rintro (h | ⟨a, h, -⟩)
      · cases h
        rfl
      · cases h
  | ok a =>
    refine ⟨fun h => .inr ⟨a, rfl, h⟩, fun h => ?_⟩
    obtain ⟨b, hb, h⟩ := h.resolve_left fun h => by cases h
    cases hb
    exact h

theorem throw_ne_ok {e : ε} {b : α} : (throw e : Except ε α) = .ok b ↔ False :=
  ⟨fun h => (by cases h), False.elim⟩

theorem mapError_eq_ok {x : Except ε α} {f : ε → β} {a : α} :
    x.mapError f = .ok a ↔ x = .ok a := by
  cases x with
  | error e => exact ⟨fun h => (by cases h), fun h => (by cases h)⟩
  | ok b => exact ⟨fun h => by cases h; rfl, fun h => by cases h; rfl⟩

end Except

theorem require_eq_ok {c : Prop} [Decidable c] {msg : String} {u : Unit} :
    require c msg = .ok u ↔ c := by
  unfold require
  split
  · rename_i h
    exact ⟨fun _ => h, fun _ => rfl⟩
  · rename_i h
    exact ⟨fun h' => (by cases h'), fun h' => absurd h' h⟩

theorem require_eq_error {c : Prop} [Decidable c] {msg e : String} :
    require c msg = .error e ↔ ¬ c ∧ msg = e := by
  unfold require
  split
  · rename_i h
    exact ⟨fun h' => (by cases h'), fun h' => absurd h h'.1⟩
  · rename_i h
    exact ⟨fun h' => ⟨h, by cases h'; rfl⟩, fun h' => by rw [h'.2]⟩

theorem checked_add_eq_ok {bits a b n : Nat} {msg : String} :
    checked_add bits a b msg = .ok n ↔ a + b < 2 ^ bits ∧ n = a + b := by
  unfold checked_add
  split
  · rename_i h
    exact ⟨fun h' => ⟨h, by cases h'; rfl⟩, fun h' => by rw [h'.2]⟩
  · rename_i h
    exact ⟨fun h' => (by cases h'), fun h' => absurd h'.1 h⟩

theorem increment_eq_ok {a n : Nat} :
    increment a = .ok n ↔ a + 1 < 2 ^ 64 ∧ n = a + 1 := checked_add_eq_ok

/-! ## Returning calls -/

/-- The call returned with this state and this action, whatever it logged. -/
def Returns (x : Except String Outcome) (g : Gate) (a : HostAction) : Prop :=
  ∃ logs, x = .ok ⟨g, a, logs⟩

theorem returns_of_eq_ok {x : Except String Outcome} {out : Outcome} (h : x = .ok out) :
    Returns x out.gate out.action := ⟨out.logs, h⟩

theorem returns_bind {α : Type} {x : Except String α} {f : α → Except String Outcome} {g : Gate}
    {a : HostAction} : Returns (x >>= f) g a ↔ ∃ v, x = .ok v ∧ Returns (f v) g a := by
  constructor
  · rintro ⟨logs, h⟩
    obtain ⟨v, hv, hf⟩ := bind_eq_ok.1 h
    exact ⟨v, hv, logs, hf⟩
  · rintro ⟨v, hv, logs, hf⟩
    exact ⟨logs, bind_eq_ok.2 ⟨v, hv, hf⟩⟩

theorem returns_pure {g g' : Gate} {a a' : HostAction} {logs : List String} :
    Returns (pure ⟨g', a', logs⟩) g a ↔ g = g' ∧ a = a' := by
  constructor
  · rintro ⟨l, h⟩
    cases h
    exact ⟨rfl, rfl⟩
  · rintro ⟨rfl, rfl⟩
    exact ⟨logs, rfl⟩

theorem returns_throw {e : String} {g : Gate} {a : HostAction} :
    Returns (throw e) g a ↔ False :=
  ⟨fun ⟨_, h⟩ => (by cases h), False.elim⟩

/-! ## What is logged -/

theorem utf8ByteSize_ascii {l : List Char} (h : ∀ c ∈ l, c.utf8Size = 1) :
    (String.ofList l).utf8ByteSize = l.length := by
  induction l with
  | nil => rfl
  | cons c l ih =>
    have hsplit : String.ofList (c :: l) = String.ofList [c] ++ String.ofList l := by
      rw [← String.ofList_append, List.singleton_append]
    have hone : (String.ofList [c]).utf8ByteSize = c.utf8Size := String.utf8ByteSize_singleton
    rw [hsplit, String.utf8ByteSize_append, hone, ih fun d hd => h d (List.mem_cons_of_mem c hd),
      h c List.mem_cons_self, List.length_cons, Nat.add_comm]

/-- A number is as many bytes as it has digits. -/
theorem utf8ByteSize_toString (n : Nat) :
    (toString n).utf8ByteSize = (Nat.toDigits 10 n).length := by
  refine utf8ByteSize_ascii (l := Nat.toDigits 10 n) fun c hc => ?_
  have hdigit := Nat.isDigit_of_mem_toDigits (by decide) (by decide) hc
  have hle : c.val ≤ 57 := of_decide_eq_true (Bool.and_eq_true_iff.1 hdigit).2
  exact Char.utf8Size_eq_one_iff.2 (UInt32.le_trans hle (by decide))

theorem utf8ByteSize_toString_le {n e : Nat} (he : 0 < e) (hn : n < 10 ^ e) :
    (toString n).utf8ByteSize ≤ e := by
  rw [utf8ByteSize_toString]
  exact (Nat.length_toDigits_le_iff (by decide) he).2 hn

/-- No submission's line is longer than that of the last id there is. -/
theorem submitted_line_le {id : Nat} (hid : id < 2 ^ 64) (delegate : DelegateAction)
    (method : String) : (submitted_line id delegate method).utf8ByteSize ≤
      (submitted_line (2 ^ 64 - 1) delegate method).utf8ByteSize := by
  have hlen : (toString id).utf8ByteSize ≤ 20 :=
    utf8ByteSize_toString_le (by decide) (Nat.lt_trans hid (by decide))
  have hlast : (toString (2 ^ 64 - 1)).utf8ByteSize = 20 := by decide +kernel
  simp only [submitted_line, emit_trace, List.map_cons, List.map_nil,
    String.intercalate_cons_cons, String.intercalate_singleton, String.utf8ByteSize_append]
  omega

/-- **A dispatch logs no more than its submission did**, so it does not trap on its line. -/
theorem dispatched_line_le {id : Nat} {delegate : DelegateAction} {fc : FunctionCallAction}
    {s : ResumeSignal} (hseq : ∀ n ∈ s.sequence_number, n < 2 ^ 32) :
    (dispatched_line (Gate.callback_args id delegate fc) s).utf8ByteSize ≤
      (submitted_line id delegate fc.method_name).utf8ByteSize := by
  have hlen : (renderOption s.sequence_number).utf8ByteSize ≤ 10 := by
    cases hs : s.sequence_number with
    | none => decide
    | some n => exact utf8ByteSize_toString_le (by decide) (Nat.lt_trans (hseq n hs) (by decide))
  have hpos : 0 < (toString delegate.nonce.val).utf8ByteSize := by
    rw [utf8ByteSize_toString]
    exact Nat.length_toDigits_pos
  -- the sender and the nonce are longer than the sequence number
  have hsubmitted : (quoted "intent_submitted").utf8ByteSize = 18 := rfl
  have hdispatched : (quoted "intent_dispatched").utf8ByteSize = 19 := rfl
  have hsender : (quoted "sender").utf8ByteSize = 8 := rfl
  have hnonce : (quoted "nonce").utf8ByteSize = 7 := rfl
  have hseq : (quoted "seq").utf8ByteSize = 5 := rfl
  have hcomma : ",".utf8ByteSize = 1 := rfl
  simp only [submitted_line, dispatched_line, emit_trace, List.map_cons, List.map_nil,
    String.intercalate_cons_cons, String.intercalate_singleton, String.utf8ByteSize_append,
    Gate.callback_args, hsubmitted, hdispatched, hsender, hnonce, hseq, hcomma]
  omega

namespace Gate

variable {host : Host} {env : Env} {g g' : Gate} {a : HostAction}

/-! ## Fees -/

/-- `fee_for` returns the first tier of the ladder that covers `n`. -/
theorem fee_for_eq_ok {n : Nat} {tier : Nat × Nat} :
    g.fee_for n = .ok tier ↔ g.fee_tiers.find? (fun t => n ≤ t.1) = some tier := by
  simp only [fee_for, bind_eq_ok, require_eq_ok]
  constructor
  · rintro ⟨-, -, h⟩
    split at h
    · rename_i t ht
      rw [ht, pure_eq_ok.1 h]
    · exact absurd h (by rw [throw_ne_ok]; exact id)
  · intro h
    refine ⟨(), ?_, by rw [h]; rfl⟩
    intro hnil
    rw [hnil] at h
    cases h

theorem charge_fee_eq_ok {n : Nat} :
    (∃ log, g.charge_fee env n = .ok (g', log)) ↔
      ∃ tier, g.fee_for n = .ok tier ∧ tier.2 ≤ env.attached_deposit ∧
        g.fees_collected_total + tier.2 < 2 ^ 128 ∧
        g' = { g with fees_collected_total := g.fees_collected_total + tier.2 } := by
  simp only [charge_fee, bind_eq_ok, require_eq_ok, checked_add_eq_ok, pure_eq_ok, Prod.mk.injEq]
  constructor
  · rintro ⟨_, tier, htier, _, hdep, c, ⟨hlt, rfl⟩, rfl, _⟩
    exact ⟨tier, htier, hdep, hlt, rfl⟩
  · rintro ⟨tier, htier, hdep, hlt, rfl⟩
    exact ⟨_, tier, htier, (), hdep, _, ⟨hlt, rfl⟩, rfl, rfl⟩

/-! ## The three resume sites -/

theorem take_pending_eq_ok {id : Nat} {msg : String} {p : PendingIntent} :
    g.take_pending id msg = .ok (p, g') ↔
      g.pending.lookup id = some p ∧ g' = { g with pending := g.pending.erase id } := by
  unfold take_pending
  split
  · rename_i q hq
    rw [hq]
    constructor
    · intro h
      cases h
      exact ⟨rfl, rfl⟩
    · rintro ⟨hp, rfl⟩
      cases hp
      rfl
  · rename_i hq
    rw [hq]
    exact ⟨fun h => (by cases h), fun h => (by cases h.1)⟩

/-- `check_known` passes exactly when every listed id is pending. -/
theorem check_known_eq_ok {ids : List Nat} {u : Unit} :
    g.check_known ids = .ok u ↔ ∀ id ∈ ids, id ∈ g.pending := by
  induction ids with
  | nil => exact ⟨fun _ _ h => (by cases h), fun _ => rfl⟩
  | cons id ids ih =>
    simp only [check_known, bind_eq_ok, require_eq_ok, List.forall_mem_cons]
    constructor
    · rintro ⟨_, hid, h⟩
      exact ⟨hid, ih.1 h⟩
    · rintro ⟨hid, h⟩
      exact ⟨(), hid, ih.2 h⟩

theorem resume_intent_returns {id : Nat} {approve : Bool} :
    Returns (g.resume_intent env id approve) g' a ↔
      env.predecessor_account_id = g.approver_id ∧
      ∃ tier p, g.fee_for 1 = .ok tier ∧ tier.2 ≤ env.attached_deposit ∧
        g.fees_collected_total + tier.2 < 2 ^ 128 ∧
        g.pending.lookup id = some p ∧ env.yield_is_open p.yield_id = true ∧
        g' = { g with
          fees_collected_total := g.fees_collected_total + tier.2
          pending := g.pending.erase id } ∧
        a = .resume p.yield_id ⟨approve, none, none⟩ := by
  simp only [resume_intent, returns_bind, require_eq_ok, returns_pure]
  constructor
  · rintro ⟨_, happr, ⟨g₁, log⟩, hfee, ⟨p, g₂⟩, htake, _, hopen, rfl, rfl⟩
    obtain ⟨tier, htier, hdep, hlt, rfl⟩ := charge_fee_eq_ok.1 ⟨log, hfee⟩
    obtain ⟨hp, rfl⟩ := take_pending_eq_ok.1 htake
    exact ⟨happr, tier, p, htier, hdep, hlt, hp, hopen, rfl, rfl⟩
  · rintro ⟨happr, tier, p, htier, hdep, hlt, hp, hopen, rfl, rfl⟩
    obtain ⟨log, hfee⟩ := charge_fee_eq_ok.2 ⟨tier, htier, hdep, hlt, rfl⟩
    exact ⟨(), happr, _, hfee, _, take_pending_eq_ok.2 ⟨hp, rfl⟩, (), hopen, rfl, rfl⟩

theorem resume_batch_chained_returns {intent_ids : Vec Nat} :
    Returns (g.resume_batch_chained env intent_ids) g' a ↔
      env.predecessor_account_id = g.approver_id ∧ g.batch_chain_tail = [] ∧
      ∃ first rest tier p, intent_ids.toList = first :: rest ∧
        g.fee_for intent_ids.toList.length = .ok tier ∧ tier.2 ≤ env.attached_deposit ∧
        g.fees_collected_total + tier.2 < 2 ^ 128 ∧
        (∀ id ∈ intent_ids.toList, id ∈ g.pending) ∧ g.active_batch_id + 1 < 2 ^ 64 ∧
        g.pending.lookup first = some p ∧ env.yield_is_open p.yield_id = true ∧
        g' = { g with
          fees_collected_total := g.fees_collected_total + tier.2
          active_batch_id := g.active_batch_id + 1
          batch_chain_tail := rest
          pending := g.pending.erase first } ∧
        a = .resume p.yield_id ⟨true, some 0, rest.head?⟩ := by
  simp only [resume_batch_chained, returns_bind, require_eq_ok]
  constructor
  · rintro ⟨_, happr, h⟩
    split at h
    · exact absurd h (by rw [returns_throw]; exact id)
    · rename_i first rest hids
      simp only [returns_bind, require_eq_ok, returns_pure] at h
      -- the order of the source: tail free, fee, membership, batch number, then the head's resume
      obtain ⟨_, htail, ⟨g₁, log⟩, hfee, _, hknown, n, hinc, ⟨p, g₂⟩, htake, _, hopen, rfl, rfl⟩ := h
      obtain ⟨tier, htier, hdep, hlt, rfl⟩ := charge_fee_eq_ok.1 ⟨log, hfee⟩
      obtain ⟨hid, rfl⟩ := increment_eq_ok.1 hinc
      obtain ⟨hp, rfl⟩ := take_pending_eq_ok.1 htake
      -- `hknown` speaks of the gate after the fee, whose `pending` is the one before it
      have hall := check_known_eq_ok.1 hknown
      refine ⟨happr, htail, first, rest, tier, p, hids, ?_⟩
      rw [hids]
      exact ⟨htier, hdep, hlt, hall, hid, hp, hopen, rfl, rfl⟩
  · rintro ⟨happr, htail, first, rest, tier, p, hids, htier, hdep, hlt, hknown, hid, hp, hopen,
      rfl, rfl⟩
    refine ⟨(), happr, ?_⟩
    rw [hids] at htier hknown ⊢
    simp only [returns_bind, require_eq_ok, returns_pure]
    obtain ⟨log, hfee⟩ := charge_fee_eq_ok.2 ⟨tier, htier, hdep, hlt, rfl⟩
    exact ⟨(), htail, _, hfee, (), check_known_eq_ok.2 hknown, _, increment_eq_ok.2 ⟨hid, rfl⟩,
      _, take_pending_eq_ok.2 ⟨hp, rfl⟩, (), hopen, rfl, rfl⟩

theorem continue_chain_returns {next_id next_seq : Nat} :
    Returns (g.continue_chain env next_id next_seq) g' a ↔
      ∃ rest p, g.batch_chain_tail = next_id :: rest ∧
        g.pending.lookup next_id = some p ∧ env.yield_is_open p.yield_id = true ∧
        g' = { g with batch_chain_tail := rest, pending := g.pending.erase next_id } ∧
        a = .resume p.yield_id ⟨true, some next_seq, rest.head?⟩ := by
  unfold continue_chain
  constructor
  · intro h
    split at h
    · exact absurd h (by rw [returns_throw]; exact id)
    · rename_i popped rest htail
      simp only [returns_bind, require_eq_ok, returns_pure] at h
      obtain ⟨_, rfl, ⟨p, g₁⟩, htake, _, hopen, rfl, rfl⟩ := h
      obtain ⟨hp, rfl⟩ := take_pending_eq_ok.1 htake
      exact ⟨rest, p, htail, hp, hopen, rfl, rfl⟩
  · rintro ⟨rest, p, htail, hp, hopen, rfl, rfl⟩
    rw [htail]
    simp only [returns_bind, require_eq_ok, returns_pure]
    exact ⟨(), trivial, _, take_pending_eq_ok.2 ⟨hp, rfl⟩, (), hopen, rfl, rfl⟩

/-! ## Submission -/

/-- The state after minting intent `g.next_intent_id` for `delegate`. -/
def minted (g : Gate) (env : Env) (delegate : DelegateAction) (fc : FunctionCallAction) : Gate :=
  { g with
    next_intent_id := g.next_intent_id + 1
    used_nonces := g.used_nonces.insert (nonce_key delegate) env.block_height
    intents_submitted := g.intents_submitted + 1
    pending := g.pending.insert g.next_intent_id (pending_intent env delegate fc) }

theorem submit_intent_returns {b : Bytes} :
    Returns (g.submit_intent host env b) g' a ↔
      env.predecessor_account_id ∈ g.relayers ∧
      ∃ signed fc, SignedDelegateAction.try_from_slice host b = .ok signed ∧
        signed.verify host = true ∧
        env.block_height < signed.delegate_action.max_block_height.val ∧
        nonce_key signed.delegate_action ∉ g.used_nonces ∧
        signed.delegate_action.actions = [.FunctionCall fc] ∧
        g.next_intent_id + 1 < 2 ^ 64 ∧ g.intents_submitted + 1 < 2 ^ 64 ∧
        (submitted_line g.next_intent_id signed.delegate_action fc.method_name).utf8ByteSize ≤
          host.max_total_log_length ∧
        g' = g.minted env signed.delegate_action fc ∧
        a = .new_yield (callback_args g.next_intent_id signed.delegate_action fc) := by
  simp only [submit_intent, log_str, returns_bind, require_eq_ok, mapError_eq_ok, increment_eq_ok,
    returns_pure, require_single_function_call_eq_ok]
  constructor
  · rintro ⟨_, hrel, signed, hdec, _, hver, _, hexp, _, hnonce, fc, hfc, _, ⟨hid, rfl⟩, _,
      ⟨hsub, rfl⟩, _, hlog, rfl, rfl⟩
    exact ⟨hrel, signed, fc, hdec, hver, hexp, hnonce, hfc, hid, hsub, hlog, rfl, rfl⟩
  · rintro ⟨hrel, signed, fc, hdec, hver, hexp, hnonce, hfc, hid, hsub, hlog, rfl, rfl⟩
    exact ⟨(), hrel, signed, hdec, (), hver, (), hexp, (), hnonce, fc, hfc, _, ⟨hid, rfl⟩, _,
      ⟨hsub, rfl⟩, (), hlog, rfl, rfl⟩

/-! ## The yield callback -/

variable {args : CallbackArgs}

theorem on_intent_resumed_timeout {e : PromiseError} :
    Returns (g.on_intent_resumed args (.error e)) g' a ↔
      g.intents_rejected + 1 < 2 ^ 64 ∧
      g' = { g with
        pending := g.pending.erase args.intent_id
        intents_rejected := g.intents_rejected + 1 } ∧
      a = .none := by
  simp only [on_intent_resumed, returns_bind, increment_eq_ok, returns_pure]
  constructor
  · rintro ⟨_, ⟨hlt, rfl⟩, rfl, rfl⟩
    exact ⟨hlt, rfl, rfl⟩
  · rintro ⟨hlt, rfl, rfl⟩
    exact ⟨_, ⟨hlt, rfl⟩, rfl, rfl⟩

theorem on_intent_resumed_reject {s : ResumeSignal} (hs : s.approve = false) :
    Returns (g.on_intent_resumed args (.ok s)) g' a ↔
      g.intents_rejected + 1 < 2 ^ 64 ∧
      g' = { g with
        pending := g.pending.erase args.intent_id
        intents_rejected := g.intents_rejected + 1 } ∧
      a = .none := by
  simp only [on_intent_resumed, if_pos hs, returns_bind, increment_eq_ok, returns_pure]
  constructor
  · rintro ⟨_, ⟨hlt, rfl⟩, rfl, rfl⟩
    exact ⟨hlt, rfl, rfl⟩
  · rintro ⟨hlt, rfl, rfl⟩
    exact ⟨_, ⟨hlt, rfl⟩, rfl, rfl⟩

theorem on_intent_resumed_approve {s : ResumeSignal} (hs : s.approve = true) :
    Returns (g.on_intent_resumed args (.ok s)) g' a ↔
      g.intents_dispatched + 1 < 2 ^ 64 ∧
      ∃ and_then, chained_call s = .ok and_then ∧
        g' = { g with
          pending := g.pending.erase args.intent_id
          intents_dispatched := g.intents_dispatched + 1 } ∧
        a = .function_call args.intent_id args.toFunctionCall and_then := by
  have hne : ¬ s.approve = false := by rw [hs]; exact Bool.noConfusion
  simp only [on_intent_resumed, if_neg hne, returns_bind, increment_eq_ok, returns_pure]
  constructor
  · rintro ⟨_, ⟨hlt, rfl⟩, th, hth, rfl, rfl⟩
    exact ⟨hlt, th, hth, rfl, rfl⟩
  · rintro ⟨hlt, th, hth, rfl, rfl⟩
    exact ⟨_, ⟨hlt, rfl⟩, th, hth, rfl, rfl⟩

/-- A signal without a next intent schedules nothing. -/
theorem chained_call_none {s : ResumeSignal} (h : s.next_intent_id = none) :
    chained_call s = .ok none := by
  simp only [chained_call, h]

/-- What the owner's calls other than `reset_batch_tail`, and the views, leave
alone: every field that submissions, resumes and callbacks write. -/
structure Frame (g g' : Gate) : Prop where
  pending : g'.pending = g.pending
  used_nonces : g'.used_nonces = g.used_nonces
  next_intent_id : g'.next_intent_id = g.next_intent_id
  intents_submitted : g'.intents_submitted = g.intents_submitted
  intents_dispatched : g'.intents_dispatched = g.intents_dispatched
  intents_rejected : g'.intents_rejected = g.intents_rejected
  batch_chain_tail : g'.batch_chain_tail = g.batch_chain_tail
  active_batch_id : g'.active_batch_id = g.active_batch_id
  fees_collected_total : g'.fees_collected_total = g.fees_collected_total

end Gate

/-! ## What an accepted call can have done -/

/-- The calls that touch neither intents nor the chain. -/
def GateCall.isAdmin : GateCall → Bool
  | .add_relayer _ | .remove_relayer _ | .set_approver _ | .set_fee_tiers _
  | .withdraw_fees _ _ | .view => true
  | _ => false

/-- `CallEffect host env g c g' a`: the call `c` may return from state `g` with
state `g'` and action `a`. -/
inductive CallEffect (host : Host) (env : Env) (g : Gate) : GateCall → Gate → HostAction → Prop
  | admin {c : GateCall} {g' : Gate} {a : HostAction} (hc : c.isAdmin = true)
      (frame : g.Frame g') (ha : a = .none ∨ ∃ to_id amount, a = .transfer to_id amount) :
      CallEffect host env g c g' a
  | reset (howner : env.predecessor_account_id = g.owner_id) :
      CallEffect host env g .reset_batch_tail { g with batch_chain_tail := [] } .none
  | submit {b : Bytes} {signed : SignedDelegateAction} {fc : FunctionCallAction}
      (hrel : env.predecessor_account_id ∈ g.relayers)
      (hdec : SignedDelegateAction.try_from_slice host b = .ok signed)
      (hver : signed.verify host = true)
      (hexp : env.block_height < signed.delegate_action.max_block_height.val)
      (hnonce : Gate.nonce_key signed.delegate_action ∉ g.used_nonces)
      (hfc : signed.delegate_action.actions = [.FunctionCall fc])
      (hid : g.next_intent_id + 1 < 2 ^ 64) (hsub : g.intents_submitted + 1 < 2 ^ 64)
      (hlog : (submitted_line g.next_intent_id signed.delegate_action
        fc.method_name).utf8ByteSize ≤ host.max_total_log_length) :
      CallEffect host env g (.submit_intent b) (g.minted env signed.delegate_action fc)
        (.new_yield (Gate.callback_args g.next_intent_id signed.delegate_action fc))
  | resume {id : Nat} {approve : Bool} {tier : Nat × Nat} {p : PendingIntent}
      (happr : env.predecessor_account_id = g.approver_id)
      (htier : g.fee_for 1 = .ok tier) (hdep : tier.2 ≤ env.attached_deposit)
      (hfee : g.fees_collected_total + tier.2 < 2 ^ 128)
      (hp : g.pending.lookup id = some p) (hopen : env.yield_is_open p.yield_id = true) :
      CallEffect host env g (.resume_intent id approve)
        { g with
          fees_collected_total := g.fees_collected_total + tier.2
          pending := g.pending.erase id }
        (.resume p.yield_id ⟨approve, none, none⟩)
  | batch {ids : Vec Nat} {first : Nat} {rest : List Nat} {tier : Nat × Nat} {p : PendingIntent}
      (happr : env.predecessor_account_id = g.approver_id) (htail : g.batch_chain_tail = [])
      (hids : ids.toList = first :: rest)
      (htier : g.fee_for ids.toList.length = .ok tier) (hdep : tier.2 ≤ env.attached_deposit)
      (hfee : g.fees_collected_total + tier.2 < 2 ^ 128)
      (hknown : ∀ id ∈ ids.toList, id ∈ g.pending) (hid : g.active_batch_id + 1 < 2 ^ 64)
      (hp : g.pending.lookup first = some p) (hopen : env.yield_is_open p.yield_id = true) :
      CallEffect host env g (.resume_batch_chained ids)
        { g with
          fees_collected_total := g.fees_collected_total + tier.2
          active_batch_id := g.active_batch_id + 1
          batch_chain_tail := rest
          pending := g.pending.erase first }
        (.resume p.yield_id ⟨true, some 0, rest.head?⟩)
  | chain {next_id next_seq : Nat} {rest : List Nat} {p : PendingIntent}
      (hpriv : env.predecessor_account_id = env.current_account_id)
      (hfree : env.attached_deposit = 0) (htail : g.batch_chain_tail = next_id :: rest)
      (hp : g.pending.lookup next_id = some p) (hopen : env.yield_is_open p.yield_id = true) :
      CallEffect host env g (.continue_chain next_id next_seq)
        { g with batch_chain_tail := rest, pending := g.pending.erase next_id }
        (.resume p.yield_id ⟨true, some next_seq, rest.head?⟩)

/-- **Inversion of an accepted call.** -/
theorem GateCall.run_effect {host : Host} {env : Env} {g : Gate} {c : GateCall} {out : Outcome}
    (h : c.run host env g = .ok out) : CallEffect host env g c out.gate out.action := by
  have hr := returns_of_eq_ok h
  cases c with
  | add_relayer account_id =>
    obtain ⟨_, _, hr⟩ := returns_bind.1 hr
    simp only [Gate.add_relayer, returns_bind, returns_pure] at hr
    obtain ⟨_, _, hg, ha⟩ := hr
    rw [hg, ha]
    exact .admin rfl ⟨rfl, rfl, rfl, rfl, rfl, rfl, rfl, rfl, rfl⟩ (.inl rfl)
  | remove_relayer account_id =>
    obtain ⟨_, _, hr⟩ := returns_bind.1 hr
    simp only [Gate.remove_relayer, returns_bind, returns_pure] at hr
    obtain ⟨_, _, hg, ha⟩ := hr
    rw [hg, ha]
    exact .admin rfl ⟨rfl, rfl, rfl, rfl, rfl, rfl, rfl, rfl, rfl⟩ (.inl rfl)
  | set_approver account_id =>
    obtain ⟨_, _, hr⟩ := returns_bind.1 hr
    simp only [Gate.set_approver, returns_bind, returns_pure] at hr
    obtain ⟨_, _, hg, ha⟩ := hr
    rw [hg, ha]
    exact .admin rfl ⟨rfl, rfl, rfl, rfl, rfl, rfl, rfl, rfl, rfl⟩ (.inl rfl)
  | set_fee_tiers tiers =>
    obtain ⟨_, _, hr⟩ := returns_bind.1 hr
    simp only [Gate.set_fee_tiers, returns_bind, returns_pure] at hr
    obtain ⟨_, _, _, _, _, _, hg, ha⟩ := hr
    rw [hg, ha]
    exact .admin rfl ⟨rfl, rfl, rfl, rfl, rfl, rfl, rfl, rfl, rfl⟩ (.inl rfl)
  | withdraw_fees amount to_id =>
    obtain ⟨_, _, hr⟩ := returns_bind.1 hr
    simp only [Gate.withdraw_fees, returns_bind, returns_pure] at hr
    obtain ⟨_, _, _, _, _, _, hg, ha⟩ := hr
    rw [hg, ha]
    exact .admin rfl ⟨rfl, rfl, rfl, rfl, rfl, rfl, rfl, rfl, rfl⟩ (.inr ⟨to_id, amount, rfl⟩)
  | reset_batch_tail =>
    obtain ⟨_, _, hr⟩ := returns_bind.1 hr
    simp only [Gate.reset_batch_tail, Gate.assert_owner, returns_bind, require_eq_ok,
      returns_pure] at hr
    obtain ⟨_, howner, hg, ha⟩ := hr
    rw [hg, ha]
    exact .reset howner
  -- the step peeled off is the deposit check; the method's own lemma does the rest
  | submit_intent b =>
    obtain ⟨_, _, hr⟩ := returns_bind.1 hr
    obtain ⟨hrel, signed, fc, hdec, hver, hexp, hnonce, hfc, hid, hsub, hlog, hg, ha⟩ :=
      Gate.submit_intent_returns.1 hr
    rw [hg, ha]
    exact .submit hrel hdec hver hexp hnonce hfc hid hsub hlog
  | resume_intent id approve =>
    obtain ⟨happr, tier, p, htier, hdep, hfee, hp, hopen, hg, ha⟩ :=
      Gate.resume_intent_returns.1 hr
    rw [hg, ha]
    exact .resume happr htier hdep hfee hp hopen
  | resume_batch_chained ids =>
    obtain ⟨happr, htail, first, rest, tier, p, hids, htier, hdep, hfee, hknown, hid, hp, hopen,
      hg, ha⟩ := Gate.resume_batch_chained_returns.1 hr
    rw [hg, ha]
    exact .batch happr htail hids htier hdep hfee hknown hid hp hopen
  | continue_chain next_id next_seq =>
    obtain ⟨_, hpriv, hr⟩ := returns_bind.1 hr
    obtain ⟨_, hfree, hr⟩ := returns_bind.1 hr
    obtain ⟨rest, p, htail, hp, hopen, hg, ha⟩ := Gate.continue_chain_returns.1 hr
    rw [hg, ha]
    exact .chain (require_eq_ok.1 hpriv) (require_eq_ok.1 hfree) htail hp hopen
  -- called from outside, the callback has no promise result to read, so it never returns
  | on_intent_resumed args =>
    obtain ⟨_, _, hr⟩ := returns_bind.1 hr
    obtain ⟨_, _, hr⟩ := returns_bind.1 hr
    exact absurd hr (by rw [returns_throw]; exact id)
  | view =>
    obtain ⟨hg, ha⟩ := returns_pure.1 hr
    rw [hg, ha]
    exact .admin rfl ⟨rfl, rfl, rfl, rfl, rfl, rfl, rfl, rfl, rfl⟩ (.inl rfl)

/-- `continue_chain` returns when its argument heads the tail, is pending, and its
yield is open. -/
theorem GateCall.continue_chain_runs {host : Host} {env : Env} {g : Gate} {next_id next_seq : Nat}
    {rest : List Nat} {p : PendingIntent}
    (hpriv : env.predecessor_account_id = env.current_account_id)
    (hfree : env.attached_deposit = 0) (htail : g.batch_chain_tail = next_id :: rest)
    (hp : g.pending.lookup next_id = some p) (hopen : env.yield_is_open p.yield_id = true) :
    ∃ out, (GateCall.continue_chain next_id next_seq).run host env g = .ok out := by
  obtain ⟨logs, h⟩ := Gate.continue_chain_returns.2
    ⟨rest, p, htail, hp, hopen, rfl, rfl⟩
  refine ⟨_, bind_eq_ok.2 ⟨(), require_eq_ok.2 hpriv, bind_eq_ok.2 ⟨(), require_eq_ok.2 hfree, h⟩⟩⟩

/-- What the panic over an unknown intent says: the tail has not drifted, but its head
is not pending. -/
theorem GateCall.continue_chain_unknown {host : Host} {env : Env} {g : Gate} {next_id next_seq : Nat}
    (h : (GateCall.continue_chain next_id next_seq).run host env g =
      .error "unknown next_id in continue_chain") :
    g.batch_chain_tail.head? = some next_id ∧ next_id ∉ g.pending := by
  -- every panic before the lookup has another text
  rcases bind_eq_error.1 h with h | ⟨_, -, h⟩
  · exact absurd (require_eq_error.1 h).2 (by decide)
  rcases bind_eq_error.1 h with h | ⟨_, -, h⟩
  · exact absurd (require_eq_error.1 h).2 (by decide)
  unfold Gate.continue_chain at h
  split at h
  · exact absurd (Except.error.inj h) (by decide)
  · rename_i popped rest htail
    rcases bind_eq_error.1 h with h | ⟨_, hpop, h⟩
    · exact absurd (require_eq_error.1 h).2 (by decide)
    obtain rfl := require_eq_ok.1 hpop
    rcases bind_eq_error.1 h with h | ⟨_, -, h⟩
    · unfold Gate.take_pending at h
      split at h
      · cases h
      · rename_i hnone
        -- the head was popped before the lookup failed, so it is the argument
        refine ⟨by rw [htail]; rfl, ?_⟩
        exact AList.lookup_eq_none.1 hnone
    · rcases bind_eq_error.1 h with h | ⟨_, -, h⟩
      · exact absurd (require_eq_error.1 h).2 (by decide)
      · cases h

end SequentialNear
