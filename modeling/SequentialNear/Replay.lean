/-
Replay protection: a (sender, nonce) pair is spent once.

The contract keeps the pairs as strings, `sender|nonce`. The separator is found
again from the right, because a decimal number has no `|` in it, so the string is
as good as the pair ([`pair_key_injective`]) whatever the account id looks like.

The invariant, [`Ledger.Replay`], ties the keys to the log in both directions: a key
is there exactly when an accepted submission spent its pair. Only an accepted
submission adds one, and it finds its key absent; what panics is reverted, and
nothing ever removes a key.
-/
import SequentialNear.Register
import SequentialNear.Lifecycle

set_option autoImplicit false

namespace SequentialNear

open Borsh Nep366 Runs

/-! ## The key of a pair -/

/-- The key that `nonce_key` writes for a sender and a nonce. -/
def pair_key (p : AccountId × U64) : String := p.1.id ++ "|" ++ toString p.2.val

theorem Gate.nonce_key_eq (delegate : DelegateAction) :
    Gate.nonce_key delegate = pair_key (delegate.sender_id, delegate.nonce) := rfl

/-- Where a separator stands last, the list splits in one way. -/
theorem last_split_unique {α : Type} {sep : α} {x x' z z' : List α} (hz : sep ∉ z) (hz' : sep ∉ z')
    (h : x ++ sep :: z = x' ++ sep :: z') : x = x' ∧ z = z' := by
  rcases List.append_eq_append_iff.1 h with ⟨c, rfl, hc⟩ | ⟨c, rfl, hc⟩
  · cases c with
    | nil => exact ⟨(List.append_nil x).symm, (List.cons.inj hc).2⟩
    | cons y c =>
      -- the second separator would stand in `z`
      obtain ⟨-, rfl⟩ := List.cons.inj hc
      exact absurd (List.mem_append_right _ List.mem_cons_self) hz
  · cases c with
    | nil => exact ⟨List.append_nil x', (List.cons.inj hc).2.symm⟩
    | cons y c =>
      obtain ⟨-, rfl⟩ := List.cons.inj hc
      exact absurd (List.mem_append_right _ List.mem_cons_self) hz'

theorem not_mem_repr {c : Char} (hc : c.isDigit = false) (n : Nat) : c ∉ n.repr.toList := by
  rw [Nat.toList_repr]
  intro hmem
  rw [Nat.isDigit_of_mem_toDigits (by decide) (by decide) hmem] at hc
  cases hc

theorem repr_toList_injective {m n : Nat} (h : m.repr.toList = n.repr.toList) : m = n := by
  rw [Nat.toList_repr, Nat.toList_repr] at h
  rw [← Nat.ofDigitChars_ten_toDigits (n := m), h, Nat.ofDigitChars_ten_toDigits]

/-- **The key identifies the pair.** -/
theorem pair_key_injective : Function.Injective pair_key := by
  rintro ⟨⟨sender⟩, nonce⟩ ⟨⟨sender'⟩, nonce'⟩ h
  have hlist : sender.toList ++ '|' :: nonce.val.repr.toList =
      sender'.toList ++ '|' :: nonce'.val.repr.toList := by
    simpa [pair_key, String.toList_append] using congrArg String.toList h
  obtain ⟨hs, hn⟩ := last_split_unique (not_mem_repr rfl _) (not_mem_repr rfl _) hlist
  have hval : nonce.val = nonce'.val := repr_toList_injective hn
  rw [String.toList_inj.1 hs, Fin.ext hval]

/-! ## Who spent what -/

/-- The pair a submission carries, if it decodes. -/
def GateCall.nonce (host : Host) : GateCall → Option (AccountId × U64)
  | .submit_intent b =>
    match SignedDelegateAction.try_from_slice host b with
    | .ok signed => some (signed.delegate_action.sender_id, signed.delegate_action.nonce)
    | .error _ => none
  | _ => none

/-- The pair that the accepted submission of an entry spent. -/
def Entry.spent (d : Deployment) (en : Entry) : Option (AccountId × U64) :=
  match en.event with
  | .accepted _ _ c => c.nonce d.host
  | _ => none

namespace Ledger

variable {d : Deployment} {s s' s₀ : Ledger} {a : Action}

/-- The pairs spent so far, in order. -/
def spent (d : Deployment) (s : Ledger) : List (AccountId × U64) := s.log.filterMap (Entry.spent d)

/-- The replay invariant: `used_nonces` lists the pairs in the log, each spent once. -/
structure Replay (d : Deployment) (s : Ledger) : Prop where
  used : ∀ k, k ∈ s.gate.used_nonces ↔ ∃ p ∈ s.spent d, pair_key p = k
  nodup : (s.spent d).Nodup

theorem Replay.congr (h : s.Replay d) (hused : s'.gate.used_nonces = s.gate.used_nonces)
    (hspent : s'.spent d = s.spent d) : s'.Replay d where
  used := by rw [hused, hspent]; exact h.used
  nodup := by rw [hspent]; exact h.nodup

/-- A submission whose key is absent spends its pair. -/
theorem Replay.spend (h : s.Replay d) {p : AccountId × U64} {height : Nat}
    (hfresh : pair_key p ∉ s.gate.used_nonces)
    (hused : s'.gate.used_nonces = s.gate.used_nonces.insert (pair_key p) height)
    (hspent : s'.spent d = s.spent d ++ [p]) : s'.Replay d where
  used := by
    intro k
    rw [hused, hspent, AList.mem_insert, h.used]
    simp only [List.mem_append, List.mem_singleton]
    constructor
    · rintro (rfl | ⟨q, hq, rfl⟩)
      · exact ⟨p, .inr rfl, rfl⟩
      · exact ⟨q, .inl hq, rfl⟩
    · rintro ⟨q, hq | rfl, rfl⟩
      · exact .inr ⟨q, hq, rfl⟩
      · exact .inl rfl
  nodup := by
    rw [hspent, List.nodup_append_comm, List.singleton_append, List.nodup_cons]
    exact ⟨fun hmem => hfresh ((h.used _).2 ⟨p, hmem, rfl⟩), h.nodup⟩

theorem spent_of_log {e : Event} (hlog : s'.log = s.log ++ [⟨s.block_height, s.gate, e⟩]) :
    s'.spent d = s.spent d ++ ((⟨s.block_height, s.gate, e⟩ : Entry).spent d).toList := by
  rw [spent, hlog, List.filterMap_append, spent, List.append_cancel_left_eq]
  cases h : (⟨s.block_height, s.gate, e⟩ : Entry).spent d with
  | none => rw [List.filterMap_cons_none h]; rfl
  | some p => rw [List.filterMap_cons_some h]; rfl

/-- What spends nothing and writes no nonce keeps the invariant. -/
theorem Replay.idle (h : s.Replay d) {e : Event}
    (hlog : s'.log = s.log ++ [⟨s.block_height, s.gate, e⟩])
    (he : (⟨s.block_height, s.gate, e⟩ : Entry).spent d = none)
    (hused : s'.gate.used_nonces = s.gate.used_nonces) : s'.Replay d := by
  refine h.congr hused ?_
  rw [spent_of_log hlog, he]
  exact List.append_nil _

/-- An accepted call spends a fresh pair, or touches no nonce. -/
theorem Replay.called (h : s.Replay d) {c : GateCall} {caller : AccountId} {deposit : Nat}
    {g' : Gate} {act : HostAction}
    (heff : CallEffect d.host (s.env d caller deposit) s.gate c g' act)
    (hlog : s'.log = s.log ++ [⟨s.block_height, s.gate, .accepted caller deposit c⟩])
    (hgate : s'.gate = g') : s'.Replay d := by
  have hused : s'.gate.used_nonces = g'.used_nonces := congrArg Gate.used_nonces hgate
  cases heff with
  | admin hc frame =>
    refine h.idle hlog ?_ (hused.trans frame.used_nonces)
    cases c with
    | submit_intent b => cases hc
    | _ => rfl
  | @submit b signed fc hrel hdec hver hexp hnonce =>
    have hinsert : s'.gate.used_nonces =
        s.gate.used_nonces.insert (Gate.nonce_key signed.delegate_action) s.block_height := hused
    rw [Gate.nonce_key_eq] at hnonce hinsert
    refine h.spend hnonce hinsert ?_
    rw [spent_of_log hlog]
    simp only [Entry.spent, GateCall.nonce, hdec, Option.toList_some]
  | _ => exact h.idle hlog rfl hused

/-- Every move keeps the invariant. -/
theorem Replay.move (h : s.Replay d) (hmove : Move d s₀ a s s') : s'.Replay d := by
  rcases hmove.call_or_frame with ⟨caller, deposit, c, out, hrun, hgate, hlog⟩ |
    ⟨hframe, hlog | ⟨e, he, hlog⟩⟩
  · exact h.called (GateCall.run_effect hrun) hlog hgate
  · refine h.congr hframe.used_nonces ?_
    rw [spent, hlog, spent]
  · refine h.idle hlog ?_ hframe.used_nonces
    cases e with
    | accepted => cases he
    | _ => rfl

end Ledger

theorem Reachable.replay {d : Deployment} {s : Ledger} (h : Reachable d s) : s.Replay d := by
  refine h.invariant (Ledger.Replay d) (fun _ _ _ _ => ⟨?_, .nil⟩) ?_
  · intro k
    simp [Ledger.init, Gate.new, Ledger.spent]
  · intro s₀ a t t' ht hmove
    exact ht.move hmove

/-! ## The refusal -/

theorem mapError_eq_error {ε ε' α : Type} {x : Except ε α} {f : ε → ε'} {e : ε'} :
    x.mapError f = .error e ↔ ∃ e₀, x = .error e₀ ∧ f e₀ = e := by
  cases x with
  | ok a => exact ⟨fun h => (by cases h), fun ⟨_, h, _⟩ => (by cases h)⟩
  | error e₀ =>
    constructor
    · intro h
      exact ⟨e₀, rfl, by cases h; rfl⟩
    · rintro ⟨_, h, rfl⟩
      cases h
      rfl

theorem checked_add_eq_error {bits a b : Nat} {msg e : String}
    (h : checked_add bits a b msg = .error e) : msg = e := by
  unfold checked_add at h
  split at h
  · cases h
  · exact Except.error.inj h

/-- The text of a refused replay. -/
def REPLAY_REJECTED : String := "nonce already used for this sender (replay rejected)"

/-- No other panic of `submit_intent` has the text of a refused replay. -/
theorem GateCall.submit_replayed {host : Host} {env : Env} {g : Gate} {b : Bytes}
    (h : (GateCall.submit_intent b).run host env g = .error REPLAY_REJECTED) :
    ∃ p, (GateCall.submit_intent b).nonce host = some p ∧ pair_key p ∈ g.used_nonces := by
  rcases bind_eq_error.1 h with h | ⟨_, -, h⟩
  · exact absurd (require_eq_error.1 h).2 (by decide)
  unfold Gate.submit_intent at h
  rcases bind_eq_error.1 h with h | ⟨_, -, h⟩
  · exact absurd (require_eq_error.1 h).2 (by decide)
  rcases bind_eq_error.1 h with h | ⟨signed, hdec, h⟩
  · -- the decoder's text is the source's own words and then borsh's
    obtain ⟨e, -, he⟩ := mapError_eq_error.1 h
    have hhead := congrArg (fun s => s.toList.head?) he
    simp [REPLAY_REJECTED, String.toList_append] at hhead
  rw [mapError_eq_ok] at hdec
  rcases bind_eq_error.1 h with h | ⟨_, -, h⟩
  · exact absurd (require_eq_error.1 h).2 (by decide)
  rcases bind_eq_error.1 h with h | ⟨_, -, h⟩
  · exact absurd (require_eq_error.1 h).2 (by decide)
  rcases bind_eq_error.1 h with h | ⟨_, -, h⟩
  · refine ⟨(signed.delegate_action.sender_id, signed.delegate_action.nonce), ?_, ?_⟩
    · simp only [GateCall.nonce, hdec]
    · rw [← Gate.nonce_key_eq]
      exact not_not.1 (require_eq_error.1 h).1
  -- after the replay check: the action count, the two counters and the log line
  rcases bind_eq_error.1 h with h | ⟨_, -, h⟩
  · unfold DelegateAction.require_single_function_call at h
    split at h
    · cases h
    · exact absurd (Except.error.inj h) (by decide)
  rcases bind_eq_error.1 h with h | ⟨_, -, h⟩
  · exact absurd (checked_add_eq_error h) (by decide)
  rcases bind_eq_error.1 h with h | ⟨_, -, h⟩
  · exact absurd (checked_add_eq_error h) (by decide)
  rcases bind_eq_error.1 h with h | ⟨_, -, h⟩
  · -- the host's words for a line that is too long
    have hhead := congrArg (fun s => s.toList.head?) (require_eq_error.1 h).2
    simp [REPLAY_REJECTED, String.toList_append] at hhead
  · cases h

/-- A call that does not return leaves the contract as it was. -/
theorem Ledger.call_reverts {d : Deployment} {s : Ledger} {caller : AccountId}
    {deposit spare : Nat} {c : GateCall} (h : (s.call d caller deposit spare c).2 = false) :
    (s.call d caller deposit spare c).1.gate = s.gate := by
  rcases s.call_cases (d := d) caller deposit spare c with ⟨msg, hcall⟩ | ⟨out, -, hcall⟩
  · rw [hcall]
    rfl
  · rw [hcall] at h
    cases h

/-! ## Replay protection -/

/-- **Replay protection.** In every reachable state: no pair of sender and nonce was
spent by two submissions; a submission refused as a replay carries a pair that was
spent; the keys on record are those of the pairs spent, and only those; a call that
panics changes none. The key of a pair is the key of no other pair. -/
theorem nonce_spent_once {d : Deployment} {s : Ledger} (h : Reachable d s) :
    (s.log.filterMap (Entry.spent d)).Nodup ∧
    (∀ caller deposit b,
      (GateCall.submit_intent b).run d.host (s.env d caller deposit) s.gate =
        .error REPLAY_REJECTED →
      ∃ p, (GateCall.submit_intent b).nonce d.host = some p ∧
        ∃ en ∈ s.log, en.spent d = some p) ∧
    (∀ p, pair_key p ∈ s.gate.used_nonces ↔ ∃ en ∈ s.log, en.spent d = some p) ∧
    (∀ caller deposit spare c, (s.call d caller deposit spare c).2 = false →
      (s.call d caller deposit spare c).1.gate = s.gate) ∧
    Function.Injective pair_key := by
  have hused : ∀ p, pair_key p ∈ s.gate.used_nonces ↔ ∃ en ∈ s.log, en.spent d = some p := by
    intro p
    rw [h.replay.used, ← List.mem_filterMap (f := Entry.spent d)]
    constructor
    · rintro ⟨q, hq, hkey⟩
      exact pair_key_injective hkey ▸ hq
    · intro hp
      exact ⟨p, hp, rfl⟩
  refine ⟨h.replay.nodup, ?_, hused, fun _ _ _ _ => Ledger.call_reverts, pair_key_injective⟩
  intro caller deposit b hrun
  obtain ⟨p, hp, hkey⟩ := GateCall.submit_replayed hrun
  exact ⟨p, hp, (hused p).1 hkey⟩

section Demo

open SequentialNear.Demo

/-- The text a call is refused with. -/
def refusal (x : Except String Outcome) : Option String :=
  match x with
  | .error msg => some msg
  | .ok _ => none

theorem refusal_eq_some {x : Except String Outcome} {msg : String} (h : refusal x = some msg) :
    x = .error msg := by
  cases x with
  | error e => exact congrArg Except.error (Option.some.inj h)
  | ok out => cases h

/-- The relayer submits the first delegate again. -/
theorem nonce_spent_once_demo : ∃ s, Reachable deployment s ∧
    (GateCall.submit_intent (signed set11)).run deployment.host (s.env deployment relayer 0) s.gate =
      .error REPLAY_REJECTED ∧
    ∃ p, (GateCall.submit_intent (signed set11)).nonce deployment.host = some p ∧
      ∃ en ∈ s.log, en.spent deployment = some p := by
  obtain ⟨s, hrun, hrefused⟩ : ∃ s, Run (step deployment) anyAction start s ∧
      refusal ((GateCall.submit_intent (signed set11)).run deployment.host
        (s.env deployment relayer 0) s.gate) = some REPLAY_REJECTED :=
    exists_run_of_exec (submissions [set11]) _ (by decide +kernel)
  have hs : Reachable deployment s := ⟨_, _, _, _, hrun⟩
  have herr := refusal_eq_some hrefused
  exact ⟨s, hs, herr, (nonce_spent_once hs).2.1 _ _ _ herr⟩

end Demo

end SequentialNear
