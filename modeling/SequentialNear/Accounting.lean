/-
What the gate charges, and what its target calls are.

Fees are taken by two calls only, `resume_intent` and `resume_batch_chained`, once
for the whole list; `continue_chain` charges nothing. So the contract's total is
the sum over the log of what each entry was charged ([`Reachable.fees`]).

And a target call that has been executed is the call its intent was signed for
([`Reachable.targets_signed`]), which lifts the order of the chain to the target.
-/
import SequentialNear.Provenance

set_option autoImplicit false

namespace SequentialNear

open Nep366 Runs

/-! ## Fees -/

/-- The fee of a list of `n`. -/
def Gate.fee (g : Gate) (n : Nat) : Nat :=
  match g.fee_for n with
  | .ok tier => tier.2
  | .error _ => 0

/-- What the call of an entry was charged. -/
def Entry.fee (en : Entry) : Nat :=
  match en.event with
  | .accepted _ _ (.resume_intent _ _) => en.before.fee 1
  | .accepted _ _ (.resume_batch_chained ids) => en.before.fee ids.toList.length
  | _ => 0

namespace Ledger

variable {d : Deployment} {s s' s₀ : Ledger} {a : Action}

/-- The fees of the log. -/
def fees (s : Ledger) : Nat := (s.log.map Entry.fee).sum

theorem fees_of_log {e : Event} (hlog : s'.log = s.log ++ [⟨s.block_height, s.gate, e⟩]) :
    s'.fees = s.fees + (⟨s.block_height, s.gate, e⟩ : Entry).fee := by
  rw [fees, hlog, List.map_append, List.sum_append, fees]
  simp

/-- An accepted call collects its fee. -/
theorem fees_called {c : GateCall} {caller : AccountId} {deposit : Nat} {g' : Gate}
    {act : HostAction} (heff : CallEffect d.host (s.env d caller deposit) s.gate c g' act) :
    g'.fees_collected_total = s.gate.fees_collected_total +
      (⟨s.block_height, s.gate, .accepted caller deposit c⟩ : Entry).fee := by
  cases heff with
  | admin hc frame =>
    rw [frame.fees_collected_total]
    cases c with
    | resume_intent | resume_batch_chained => cases hc
    | _ => rfl
  | resume happr htier => simp only [Entry.fee, Gate.fee, htier]
  | batch happr htail hids htier => simp only [Entry.fee, Gate.fee, htier]
  | _ => rfl

/-- Every move collects the fee of what it logs. -/
theorem fees_move (h : s.gate.fees_collected_total = s.fees) (hmove : Move d s₀ a s s') :
    s'.gate.fees_collected_total = s'.fees := by
  rcases hmove.call_or_frame with ⟨caller, deposit, c, out, hrun, hgate, hlog⟩ |
    ⟨hframe, hlog | ⟨e, he, hlog⟩⟩
  · rw [fees_of_log hlog, hgate, fees_called (GateCall.run_effect hrun), h]
  · rw [hframe.fees_collected_total, h, fees, fees, hlog]
  · rw [fees_of_log hlog, hframe.fees_collected_total, h]
    -- what is no call is charged nothing
    cases e with
    | accepted => cases he
    | _ => rfl

end Ledger

/-- **The total collected is the sum of the fees in the log.** -/
theorem Reachable.fees {d : Deployment} {s : Ledger} (h : Reachable d s) :
    s.gate.fees_collected_total = s.fees := by
  refine h.invariant (fun t => t.gate.fees_collected_total = t.fees) (fun _ _ _ _ => rfl) ?_
  intro s₀ a t t' ht hmove
  exact Ledger.fees_move ht hmove

/-! ## Target calls -/

/-- The call an intent on record asks for. -/
def PendingIntent.toFunctionCall (p : PendingIntent) : FunctionCall :=
  ⟨p.receiver_id, p.method, p.args, p.deposit, p.gas⟩

/-- The call the pending intent `id` asks for. -/
def Gate.call_of (g : Gate) (id : Nat) : Option FunctionCall :=
  (g.pending.lookup id).map PendingIntent.toFunctionCall

namespace Ledger

variable {d : Deployment} {s s' s₀ : Ledger} {a : Action}

/-- A target call in flight, or executed. -/
def Targets (s : Ledger) (id : Nat) (call : FunctionCall) : Prop :=
  (∃ f ∈ s.receipts, ∃ and_then ran, f.receipt = .target_call id call and_then ran) ∨
  ∃ en ∈ s.log, ∃ ok batch, en.event = .executed id call ok batch

/-- The intent was signed for this call. -/
def Signed (d : Deployment) (s : Ledger) (id : Nat) (call : FunctionCall) : Prop :=
  ∃ args, args.intent_id = id ∧ args.toFunctionCall = call ∧ ∃ en ∈ s.log, en.backs d args

theorem Signed.mono {id : Nat} {call : FunctionCall} (h : s.Signed d id call)
    (hlog : s.log <+: s'.log) : s'.Signed d id call := by
  obtain ⟨args, hid, hcall, hback⟩ := h
  exact ⟨args, hid, hcall, backed_mono hlog hback⟩

/-- An intent was signed for one call. -/
theorem Provenance.signed_unique (h : s.Provenance d) {id : Nat} {call call' : FunctionCall}
    (hs : s.Signed d id call) (hs' : s.Signed d id call') : call = call' := by
  obtain ⟨args, rfl, rfl, en, hen, delegate, fc, hsub, rfl⟩ := hs
  obtain ⟨args', hid, rfl, en', hen', delegate', fc', hsub', rfl⟩ := hs'
  have hnodup : (s.log.filterMap Entry.mints).Nodup := by
    rw [h.minted]
    exact List.nodup_range
  -- both were minted by the entry that mints `id`
  have hsame : en' = en := by
    obtain ⟨l, r, hlog⟩ := List.append_of_mem hen
    by_contra hne
    refine unique_of_nodup_filterMap hnodup hlog hsub.mints en' ?_ ?_
    · rw [hlog] at hen'
      rcases List.mem_append.1 hen' with hl | hr
      · exact List.mem_append_left _ hl
      · exact List.mem_append_right _ ((List.mem_cons.1 hr).resolve_left hne)
    · rw [hsub'.mints]
      exact congrArg some hid
  subst hsame
  -- the entry decodes to one delegate, with one action
  obtain ⟨_, _, b, _, he, -, hdec, -⟩ := hsub.accepted
  obtain ⟨_, _, b', _, he', -, hdec', -⟩ := hsub'.accepted
  rw [he, Event.accepted.injEq, GateCall.submit_intent.injEq] at he'
  rw [← he'.2.2, hdec] at hdec'
  cases hdec'
  have hfc := hsub.single.symm.trans hsub'.single
  cases hfc
  rfl

/-- A pending intent is on record with the call it was signed for. -/
theorem Provenance.signed_pending (h : s.Provenance d) {id : Nat} {call : FunctionCall}
    (hp : s.gate.call_of id = some call) : s.Signed d id call := by
  obtain ⟨p, hlookup, rfl⟩ := Option.map_eq_some_iff.1 hp
  obtain ⟨en, hen, delegate, fc, env, hsub, rfl, -, rfl⟩ := h.pending id p hlookup
  exact ⟨_, rfl, rfl, en, hen, delegate, fc, hsub, rfl⟩

/-- A target call in flight was there before, or a callback has just dispatched it. -/
theorem target_of_move (hmove : Move d s₀ a s s') {f : InFlight} (hf : f ∈ s'.receipts) {id : Nat}
    {call : FunctionCall} {and_then : Option (Nat × Nat)} {ran : Bool}
    (hr : f.receipt = .target_call id call and_then ran) :
    (∃ g ∈ s.receipts, ∃ and_then ran, g.receipt = .target_call id call and_then ran) ∨
      ∃ args, s.Carries args ∧ args.intent_id = id ∧ args.toFunctionCall = call := by
  have hwithout : ∀ {pre post : List InFlight} {g : InFlight}, s.receipts = pre ++ g :: post →
      f ∈ pre ++ post →
      ∃ g ∈ s.receipts, ∃ and_then ran, g.receipt = .target_call id call and_then ran :=
    fun hsplit hf => ⟨f, mem_of_without hsplit hf, _, _, hr⟩
  cases hmove with
  | advance ha => exact .inl ⟨f, hf, _, _, hr⟩
  | refused hcall => exact .inl ⟨f, hf, _, _, hr⟩
  | called hcall hacc hcaller hspare heff =>
    rw [apply_receipts, List.mem_append] at hf
    rcases hf with hf | hf
    · exact .inl ⟨f, hf, _, _, hr⟩
    -- a gate call schedules resumes, yields and transfers, never a target call
    · exact absurd (target_of_created hf hr) (called_dispatches_not heff)
  | timed_out ha hw =>
    simp only [time_out, push_receipts, record_receipts, List.mem_append, List.mem_singleton] at hf
    rcases hf with hf | rfl
    · exact .inl ⟨f, hf, _, _, hr⟩
    · cases hr
  | @resumed i burnt y args gas signal batch created pre post out ha htake hret hfits =>
    rw [apply_receipts, List.mem_append] at hf
    rcases hf with hf | hf
    · exact .inl (hwithout htake.split hf)
    · right
      have hact := target_of_created hf hr
      rcases resumed_action hret with hact' | ⟨_, hact'⟩
      · rw [hact'] at hact
        cases hact
      · rw [hact'] at hact
        cases hact
        exact ⟨args, .inr ⟨_, mem_of_split htake.split, y, gas, signal, rfl⟩, rfl, rfl⟩
  | aborted ha htake hfail => exact .inl (hwithout htake.split hf)
  | @ran _ n c th batch created pre post ok hg hblock hrecs =>
    have hf : f ∈ pre ++ post ++ [⟨.target_call n c th true, batch, created⟩] := hf
    rw [List.mem_append, List.mem_singleton] at hf
    rcases hf with hf | rfl
    · exact .inl (hwithout hrecs hf)
    -- the receipt comes back with its call marked as run
    · cases hr
      exact .inl ⟨_, mem_of_split hrecs, _, _, rfl⟩
  | @finished i success n c th batch created pre post ha htake =>
    left
    cases th with
    | none => exact hwithout htake.split hf
    | some next =>
      simp only [Ledger.finish, push_receipts, record_receipts, List.mem_append,
        List.mem_singleton] at hf
      rcases hf with hf | rfl
      · exact hwithout htake.split hf
      · cases hr
  | @continued i n seq batch created pre post out ha htake heff =>
    rw [apply_receipts, List.mem_append] at hf
    rcases hf with hf | hf
    · exact .inl (hwithout htake.split hf)
    · exact absurd (target_of_created hf hr) (called_dispatches_not heff)
  | continue_failed ha htake hfail => exact .inl (hwithout htake.split hf)
  | @settled i success to_id amount batch created pre post ha htake =>
    left
    refine hwithout htake.split ?_
    unfold Ledger.settle at hf
    split at hf <;> exact hf

/-- A target call is dispatched with the arguments of a callback, and executed as it
was dispatched. -/
theorem targets_of_move (hmove : Move d s₀ a s s') {id : Nat} {call : FunctionCall}
    (h : s'.Targets id call) : s.Targets id call ∨
      ∃ args, s.Carries args ∧ args.intent_id = id ∧ args.toFunctionCall = call := by
  have hlog : ∀ en ∈ s'.log, ∀ ok batch, en.event = .executed id call ok batch →
      s.Targets id call := by
    intro en hen ok batch he
    rcases hmove.mem_log hen with hen | ⟨e, -, rfl, hcause⟩
    · exact .inr ⟨en, hen, ok, batch, he⟩
    · obtain rfl := he
      obtain ⟨f, hf, -, and_then, hr⟩ := hcause
      exact .inl ⟨f, hf, and_then, false, hr⟩
  rcases h with ⟨f, hf, and_then, ran, hr⟩ | ⟨en, hen, ok, batch, he⟩
  · rcases target_of_move hmove hf hr with hold | hnew
    · exact .inl (.inl hold)
    · exact .inr hnew
  · exact .inl (hlog en hen ok batch he)

/-- Every move keeps the target calls signed for. -/
theorem signed_move (hprov : s.Provenance d) (h : ∀ id call, s.Targets id call → s.Signed d id call)
    (hmove : Move d s₀ a s s') : ∀ id call, s'.Targets id call → s'.Signed d id call := by
  intro id call ht
  rcases targets_of_move hmove ht with ht | ⟨args, hc, hid, hcall⟩
  · exact (h id call ht).mono hmove.log_extends
  · have hs : s.Signed d id call := ⟨args, hid, hcall, hprov.carried args hc⟩
    exact hs.mono hmove.log_extends

end Ledger

/-- **A target call is the one its intent was signed for.** -/
theorem Reachable.targets_signed {d : Deployment} {s : Ledger} (h : Reachable d s) :
    ∀ id call, s.Targets id call → s.Signed d id call := by
  let I : Ledger → Prop := fun t => t.Lifecycle ∧ t.Provenance d ∧
    ∀ id call, t.Targets id call → t.Signed d id call
  have hinv : I s := by
    refine h.invariant I (fun _ _ _ _ => ⟨.init _ _ _ _, .init _ _ _ _, ?_⟩) ?_
    · rintro id call (⟨f, hf, -⟩ | ⟨en, hen, -⟩)
      · cases hf
      · cases hen
    · rintro s₀ a t t' ⟨hlife, hprov, hsigned⟩ hmove
      exact ⟨hlife.move hmove, hprov.move hlife hmove, Ledger.signed_move hprov hsigned hmove⟩
  exact hinv.2.2

end SequentialNear
