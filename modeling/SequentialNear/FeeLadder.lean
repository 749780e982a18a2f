/-
The fee ladder, looked up twice.

The gate reads the fee of a batch off its ladder (`Gate.fee_for`), and so does the
client before it sends the batch (`feeForBatchSize` of `scripts/src/config.ts`), off
its own copy. Both scan for the first cap that is large enough, which is the right one
because `set_fee_tiers` lets no other ladder in ([`Ledger.set_fee_tiers_accepted`]). Over one
ladder the two scans agree on every size, the refusals and their text included
([`feeForBatchSize_eq`]); and they do scan one ladder until the owner installs another
([`feeForBatchSize_in_sync`]).
-/
import SequentialNear.Fees
import SequentialNear.Replay

set_option autoImplicit false

namespace SequentialNear

open Nep366 Runs Ladder

/-! ## `config.ts` -/

/-- An element of `FEE_TIERS`. Caps and sizes are integers below `2 ^ 32`, which a
JavaScript number holds exactly; `yocto` is a `bigint`. -/
structure FeeTier where
  cap : Nat
  yocto : Nat
deriving DecidableEq

def YOCTO_PER_NEAR : Nat := 1000000000000000000000000

def FEE_TIERS : List FeeTier :=
  [⟨3, 3 * YOCTO_PER_NEAR / 100⟩, ⟨6, 5 * YOCTO_PER_NEAR / 100⟩, ⟨12, 6 * YOCTO_PER_NEAR / 100⟩]

/-- The source runs this over `FEE_TIERS`. -/
def feeForBatchSize (tiers : List FeeTier) (n : Nat) : Except String Nat :=
  match tiers.find? fun tier => n ≤ tier.cap with
  | some tier => .ok tier.yocto
  | none =>
    match tiers.getLast? with
    | some last =>
      .error ("batch size " ++ toString n ++ " exceeds max fee tier (" ++ toString last.cap ++ ")")
    -- an empty ladder has no last element to ask for its cap
    | none => .error "TypeError"

/-- A tier of the gate, as the client writes it. -/
def FeeTier.of (tier : Nat × Nat) : FeeTier := ⟨tier.1, tier.2⟩

/-- The client's copy is the ladder a new gate starts with. -/
theorem FEE_TIERS_eq : FEE_TIERS = DEFAULT_FEE_TIERS.map FeeTier.of := by
  decide

/-! ## One scan -/

/-- The gate's scan, and what it says when it fails. -/
theorem fee_for_eq {g : Gate} (h : g.fee_tiers ≠ []) (n : Nat) :
    g.fee_for n = match cover g.fee_tiers n with
      | some tier => .ok tier
      | none => .error ("batch size " ++ toString n ++ " exceeds max fee tier (" ++
          toString ((g.fee_tiers.getLast?.map (·.1)).getD 0) ++ ")") := by
  unfold Gate.fee_for cover require
  rw [if_pos h]
  cases g.fee_tiers.find? fun tier => n ≤ tier.1 <;> rfl

theorem fee_for_panics {g : Gate} (h : g.fee_tiers ≠ []) (n : Nat) :
    (∃ msg, g.fee_for n = .error msg) ↔ cover g.fee_tiers n = none := by
  rw [fee_for_eq h]
  cases cover g.fee_tiers n with
  | none => exact ⟨fun _ => rfl, fun _ => ⟨_, rfl⟩⟩
  | some tier => exact ⟨fun ⟨_, h⟩ => (by cases h), fun h => by cases h⟩

/-- **Over one ladder the client charges what the gate charges**, and throws what the
gate panics with. -/
theorem feeForBatchSize_eq {g : Gate} (h : g.fee_tiers ≠ []) (n : Nat) :
    feeForBatchSize (g.fee_tiers.map FeeTier.of) n = (g.fee_for n).map Prod.snd := by
  have hfind : (g.fee_tiers.map FeeTier.of).find? (fun tier => n ≤ tier.cap) =
      (cover g.fee_tiers n).map FeeTier.of := List.find?_map
  rw [feeForBatchSize, fee_for_eq h, hfind, List.getLast?_map]
  cases cover g.fee_tiers n with
  | some tier => rfl
  | none =>
    obtain ⟨last, hlast⟩ := Option.ne_none_iff_exists'.1 (mt List.getLast?_eq_none_iff.1 h)
    rw [hlast]
    rfl

/-! ## Which ladders get in -/

/-- The loop over the caps runs through on an ascending list. -/
theorem check_caps_runs {prev : Nat} {tiers : List (Nat × Nat)}
    (hprev : ∀ tier ∈ tiers, prev < tier.1) (h : Ascending tiers) :
    ∃ max, Gate.check_caps prev tiers = .ok max := by
  induction tiers generalizing prev with
  | nil => exact ⟨prev, rfl⟩
  | cons tier tiers ih =>
    obtain ⟨hrest, hasc⟩ := List.pairwise_cons.1 h
    obtain ⟨max, hmax⟩ := ih hrest hasc
    have htier := hprev tier List.mem_cons_self
    refine ⟨max, ?_⟩
    simp only [Gate.check_caps, bind_eq_ok, require_eq_ok]
    exact ⟨(), Nat.zero_lt_of_lt htier, (), htier, hmax⟩

/-- A call of `set_fee_tiers` that returns installs a valid ladder, and asks for nothing. -/
theorem set_fee_tiers_outcome {host : Host} {env : Env} {g : Gate} {tiers : List (Nat × Nat)}
    {out : Outcome} (h : (GateCall.set_fee_tiers tiers).run host env g = .ok out) :
    ValidTiers tiers ∧ out.gate = { g with fee_tiers := tiers } ∧ out.action = .none := by
  obtain ⟨_, -, hbody⟩ := bind_eq_ok.1 h
  exact set_fee_tiers_returns (returns_of_eq_ok hbody)

/-- It returns for the owner, without a deposit, on a valid ladder. -/
theorem set_fee_tiers_runs {host : Host} {env : Env} {g : Gate} {tiers : List (Nat × Nat)} :
    (∃ out, (GateCall.set_fee_tiers tiers).run host env g = .ok out) ↔
      env.predecessor_account_id = g.owner_id ∧ env.attached_deposit = 0 ∧ ValidTiers tiers := by
  constructor
  · rintro ⟨out, h⟩
    have hvalid := (set_fee_tiers_outcome h).1
    obtain ⟨_, hdep, hbody⟩ := bind_eq_ok.1 h
    obtain ⟨_, howner, -⟩ := bind_eq_ok.1 hbody
    exact ⟨require_eq_ok.1 howner, require_eq_ok.1 hdep, hvalid⟩
  · rintro ⟨howner, hdep, hvalid⟩
    obtain ⟨max, hmax⟩ := check_caps_runs hvalid.positive hvalid.ascending
    refine ⟨_, bind_eq_ok.2 ⟨(), require_eq_ok.2 hdep, bind_eq_ok.2 ⟨(), require_eq_ok.2 howner,
      bind_eq_ok.2 ⟨(), require_eq_ok.2 hvalid.non_empty, bind_eq_ok.2 ⟨max, hmax, rfl⟩⟩⟩⟩⟩

namespace Ledger

variable {d : Deployment} {s : Ledger} {caller : AccountId} {deposit spare : Nat}
  {tiers : List (Nat × Nat)}

/-- **Who may install which ladder.** -/
theorem set_fee_tiers_accepted :
    (s.call d caller deposit spare (.set_fee_tiers tiers)).2 = true ↔
      caller = s.gate.owner_id ∧ deposit = 0 ∧ ValidTiers tiers := by
  have hruns : (∃ out, (GateCall.set_fee_tiers tiers).run d.host (s.env d caller deposit) s.gate =
      .ok out) ↔ caller = s.gate.owner_id ∧ deposit = 0 ∧ ValidTiers tiers := set_fee_tiers_runs
  rw [← hruns]
  constructor
  · intro hacc
    rcases s.call_cases (d := d) caller deposit spare (.set_fee_tiers tiers) with
      ⟨msg, hcall⟩ | ⟨out, hrun, -⟩
    · rw [hcall] at hacc
      cases hacc
    · exact ⟨out, hrun⟩
  · rintro ⟨out, hrun⟩
    have hcost : out.action.cost ≤ s.balance + deposit := by
      rw [(set_fee_tiers_outcome hrun).2.2]
      exact Nat.zero_le _
    rw [call_of_run spare hrun hcost]

/-- The ladder gets in whole, and nothing else changes. -/
theorem set_fee_tiers_gate (hacc : (s.call d caller deposit spare (.set_fee_tiers tiers)).2 = true) :
    (s.call d caller deposit spare (.set_fee_tiers tiers)).1.gate =
      { s.gate with fee_tiers := tiers } := by
  rcases s.call_cases (d := d) caller deposit spare (.set_fee_tiers tiers) with
    ⟨msg, hcall⟩ | ⟨out, hrun, hcall⟩
  · rw [hcall] at hacc
    cases hacc
  · obtain ⟨-, hgate, haction⟩ := set_fee_tiers_outcome hrun
    rw [hcall, apply, haction]
    exact hgate

end Ledger

/-! ## The lookup -/

/-- **The fee ladder.** In every reachable state the ladder is one that `set_fee_tiers`
lets in: it replaces the ladder exactly when the owner passes such a one without a
deposit, and a call that does not return leaves the state as it was. The gate looks up
the one tier whose cap is large enough while that of every other tier is too small or
larger still, and panics for the sizes above the last and largest cap. The client,
over the same ladder, returns the same amount or throws the same text. -/
theorem fee_ladder_lookup {d : Deployment} {s : Ledger} (h : Reachable d s) :
    ValidTiers s.gate.fee_tiers ∧
    (∀ caller deposit spare tiers,
      ((s.call d caller deposit spare (.set_fee_tiers tiers)).2 = true ↔
        caller = s.gate.owner_id ∧ deposit = 0 ∧ ValidTiers tiers) ∧
      ((s.call d caller deposit spare (.set_fee_tiers tiers)).2 = true →
        (s.call d caller deposit spare (.set_fee_tiers tiers)).1.gate =
          { s.gate with fee_tiers := tiers }) ∧
      ((s.call d caller deposit spare (.set_fee_tiers tiers)).2 = false →
        (s.call d caller deposit spare (.set_fee_tiers tiers)).1.gate = s.gate)) ∧
    (∀ n tier, s.gate.fee_for n = .ok tier ↔
      tier ∈ s.gate.fee_tiers ∧ n ≤ tier.1 ∧
        ∀ u ∈ s.gate.fee_tiers, u ≠ tier → u.1 < n ∨ tier.1 < u.1) ∧
    (∃ last, s.gate.fee_tiers.getLast? = some last ∧
      (∀ u ∈ s.gate.fee_tiers, u.1 ≤ last.1) ∧
      ∀ n, (∃ msg, s.gate.fee_for n = .error msg) ↔ last.1 < n) ∧
    ∀ n, feeForBatchSize (s.gate.fee_tiers.map FeeTier.of) n = (s.gate.fee_for n).map Prod.snd := by
  have hvalid := h.fee_book.tiers
  have hasc := hvalid.ascending
  refine ⟨hvalid, fun caller deposit spare tiers => ?_, ?_, ?_, feeForBatchSize_eq hvalid.non_empty⟩
  · exact ⟨Ledger.set_fee_tiers_accepted, Ledger.set_fee_tiers_gate, Ledger.call_reverts⟩
  · intro n tier
    rw [fee_for_cover, cover_eq_some hasc, least_iff hasc]
  · obtain ⟨last, hlast⟩ :=
      Option.ne_none_iff_exists'.1 (mt List.getLast?_eq_none_iff.1 hvalid.non_empty)
    refine ⟨last, hlast, fun u hu => le_last hasc hlast hu, fun n => ?_⟩
    rw [fee_for_panics hvalid.non_empty, cover_eq_none_iff_last hasc hlast]

/-! ## How long the client's copy is good -/

/-- The ladder that the call of an entry installed. -/
def Entry.ladder (en : Entry) : Option (List (Nat × Nat)) :=
  match en.event with
  | .accepted _ _ c => c.ladder
  | _ => none

namespace Ledger

variable {d : Deployment} {s s' s₀ : Ledger} {a : Action}

/-- The ladder installed last. -/
def last_ladder (s : Ledger) : List (Nat × Nat) :=
  (s.log.filterMap Entry.ladder).getLast?.getD DEFAULT_FEE_TIERS

theorem last_ladder_of_log {e : Event} (hlog : s'.log = s.log ++ [⟨s.block_height, s.gate, e⟩]) :
    s'.last_ladder =
      (⟨s.block_height, s.gate, e⟩ : Entry).ladder.getD s.last_ladder := by
  rw [last_ladder, hlog, List.filterMap_append, last_ladder]
  cases hladder : (⟨s.block_height, s.gate, e⟩ : Entry).ladder with
  | none =>
    rw [List.filterMap_cons_none hladder, List.filterMap_nil, List.append_nil]
    rfl
  | some tiers =>
    rw [List.filterMap_cons_some hladder, List.filterMap_nil, List.getLast?_concat]
    rfl

theorem last_ladder_move (h : s.gate.fee_tiers = s.last_ladder) (hmove : Move d s₀ a s s') :
    s'.gate.fee_tiers = s'.last_ladder := by
  rcases hmove.call_or_frame with ⟨caller, deposit, c, out, hrun, hgate, hlog⟩ |
    ⟨hframe, hlog | ⟨e, he, hlog⟩⟩
  · rw [last_ladder_of_log hlog, hgate, GateCall.run_ladder hrun, h]
    rfl
  · rw [hframe.fee_tiers, h, last_ladder, last_ladder, hlog]
  · rw [last_ladder_of_log hlog, hframe.fee_tiers, h]
    -- what is no call installs nothing
    cases e with
    | accepted => cases he
    | _ => rfl

end Ledger

/-- **The ladder in force is the one installed last.** -/
theorem Reachable.last_ladder {d : Deployment} {s : Ledger} (h : Reachable d s) :
    s.gate.fee_tiers = s.last_ladder := by
  refine h.invariant (fun t => t.gate.fee_tiers = t.last_ladder) (fun _ _ _ _ => rfl) ?_
  intro s₀ a t t' ht hmove
  exact Ledger.last_ladder_move ht hmove

/-- **Until a ladder is installed the client's own copy will do.** -/
theorem feeForBatchSize_in_sync {d : Deployment} {s : Ledger} (h : Reachable d s)
    (hlog : ∀ en ∈ s.log, en.ladder = none) (n : Nat) :
    feeForBatchSize FEE_TIERS n = (s.gate.fee_for n).map Prod.snd := by
  have hnone : s.log.filterMap Entry.ladder = [] := List.filterMap_eq_nil_iff.2 hlog
  have htiers : s.gate.fee_tiers = DEFAULT_FEE_TIERS := by
    rw [h.last_ladder, Ledger.last_ladder, hnone]
    rfl
  rw [← feeForBatchSize_eq h.fee_book.tiers.non_empty, htiers, FEE_TIERS_eq]

section Demo

open SequentialNear.Demo

/-- A ladder of two tiers, looked up at the boundary between them and past its end. -/
theorem fee_ladder_lookup_demo : ∃ s, Reachable deployment s ∧
    s.gate.fee_for 2 = .ok (4, 7) ∧ ∃ msg, s.gate.fee_for 5 = .error msg := by
  obtain ⟨s, hrun, htiers⟩ : ∃ s, Run (step deployment) anyAction start s ∧
      s.gate.fee_tiers = [(1, 5), (4, 7)] :=
    exists_run_of_exec [.call owner 0 0 (.set_fee_tiers [(1, 5), (4, 7)])] _ (by decide +kernel)
  have hs : Reachable deployment s := ⟨_, _, _, _, hrun⟩
  obtain ⟨-, -, hfee, ⟨last, hlast, -, hpanic⟩, -⟩ := fee_ladder_lookup hs
  rw [htiers] at hfee hlast
  refine ⟨s, hs, (hfee 2 (4, 7)).2 (by decide), (hpanic 5).2 ?_⟩
  cases hlast
  decide

end Demo

end SequentialNear
