/-
Who may call what, read off the log.

The contract keeps three roles: the owner, set at deployment and never again, the
approver, and the relayers. Each method compares its caller with a role, except
`continue_chain`, which only the account itself may call. Here the roles are what the
accepted calls before have made of them ([`Ledger.approver`], [`Ledger.relays`]), not
what the contract stores: that the two agree in every run is [`Ledger.Roles`], and that
every accepted call was one its caller was entitled to make is [`authority_from_log`].
-/
import SequentialNear.Lifecycle
import SequentialNear.Register

set_option autoImplicit false

namespace SequentialNear

open Nep366 Runs

/-! ## What a call writes to the roles -/

/-- The approver a call installs, if it returns. -/
def GateCall.approver : GateCall → Option AccountId
  | .set_approver approver_id => some approver_id
  | _ => none

/-- Whether a call makes `account_id` a relayer or removes it, if it returns. -/
def GateCall.relays (account_id : AccountId) : GateCall → Option Bool
  | .add_relayer a => if a = account_id then some true else none
  | .remove_relayer a => if a = account_id then some false else none
  | _ => none

/-- The roles as they are at a point of a run. -/
structure Roles where
  owner_id : AccountId
  approver_id : AccountId
  is_relayer : AccountId → Bool

/-- The account that carries out a call is entitled to it. -/
def GateCall.permits (gate_id : AccountId) (roles : Roles) (caller : AccountId) : GateCall → Prop
  | .add_relayer _ | .remove_relayer _ | .set_approver _ | .set_fee_tiers _ | .withdraw_fees _ _
  | .reset_batch_tail => caller = roles.owner_id
  | .submit_intent _ => roles.is_relayer caller = true
  | .resume_intent _ _ | .resume_batch_chained _ => caller = roles.approver_id
  | .continue_chain _ _ => caller = gate_id
  | .on_intent_resumed _ => False -- the runtime alone delivers a promise result
  | .view => True

/-! The three views of the roles. -/

namespace Gate

def get_owner (g : Gate) : AccountId := g.owner_id

def get_approver (g : Gate) : AccountId := g.approver_id

def is_relayer (g : Gate) (account_id : AccountId) : Bool := decide (account_id ∈ g.relayers)

/-- The roles the contract stores, as its views show them. -/
def roles (g : Gate) : Roles := ⟨g.get_owner, g.get_approver, g.is_relayer⟩

end Gate

/-- What a returned call says about the roles: who made it, and what it left. -/
structure RoleEffect (env : Env) (c : GateCall) (g g' : Gate) : Prop where
  permitted : c.permits env.current_account_id g.roles env.predecessor_account_id
  owner_id : g'.owner_id = g.owner_id
  approver_id : g'.approver_id = c.approver.getD g.approver_id
  relayers : ∀ account_id, decide (account_id ∈ g'.relayers) =
    (c.relays account_id).getD (decide (account_id ∈ g.relayers))

/-- A permitted call that has nothing to do with roles. -/
theorem RoleEffect.idle {env : Env} {c : GateCall} {g g' : Gate}
    (hpermit : c.permits env.current_account_id g.roles env.predecessor_account_id)
    (happr : c.approver = none) (hrel : ∀ account_id, c.relays account_id = none)
    (howner : g'.owner_id = g.owner_id) (happr' : g'.approver_id = g.approver_id)
    (hrel' : g'.relayers = g.relayers) : RoleEffect env c g g' where
  permitted := hpermit
  owner_id := howner
  approver_id := by rw [happr, happr', Option.getD_none]
  relayers := fun account_id => by rw [hrel, hrel', Option.getD_none]

/-- **What a gate call does to the roles.** -/
theorem GateCall.run_roles {host : Host} {env : Env} {g : Gate} {c : GateCall} {out : Outcome}
    (h : c.run host env g = .ok out) : RoleEffect env c g out.gate := by
  have heff := GateCall.run_effect h
  have hr := returns_of_eq_ok h
  cases c with
  | add_relayer account_id =>
    simp only [run, Gate.add_relayer, Gate.assert_owner, returns_bind, require_eq_ok,
      returns_pure] at hr
    obtain ⟨_, -, _, howner, hg, -⟩ := hr
    rw [hg]
    refine ⟨howner, rfl, rfl, fun a => ?_⟩
    by_cases ha : account_id = a
    · simp [relays, ha]
    · simp [relays, ha, Ne.symm ha]
  | remove_relayer account_id =>
    simp only [run, Gate.remove_relayer, Gate.assert_owner, returns_bind, require_eq_ok,
      returns_pure] at hr
    obtain ⟨_, -, _, howner, hg, -⟩ := hr
    rw [hg]
    refine ⟨howner, rfl, rfl, fun a => ?_⟩
    by_cases ha : account_id = a
    · simp [relays, ha]
    · simp [relays, ha, Ne.symm ha]
  | set_approver account_id =>
    simp only [run, Gate.set_approver, Gate.assert_owner, returns_bind, require_eq_ok,
      returns_pure] at hr
    obtain ⟨_, -, _, howner, hg, -⟩ := hr
    rw [hg]
    exact ⟨howner, rfl, rfl, fun _ => rfl⟩
  | set_fee_tiers tiers =>
    simp only [run, Gate.set_fee_tiers, Gate.assert_owner, returns_bind, require_eq_ok,
      returns_pure] at hr
    obtain ⟨_, -, _, howner, _, -, _, -, hg, -⟩ := hr
    rw [hg]
    exact .idle howner rfl (fun _ => rfl) rfl rfl rfl
  | withdraw_fees amount to_id =>
    simp only [run, Gate.withdraw_fees, Gate.assert_owner, returns_bind, require_eq_ok,
      returns_pure] at hr
    obtain ⟨_, -, _, howner, _, -, _, -, hg, -⟩ := hr
    rw [hg]
    exact .idle howner rfl (fun _ => rfl) rfl rfl rfl
  | view =>
    simp only [run, returns_pure] at hr
    obtain ⟨rfl, -⟩ := hr
    exact .idle trivial rfl (fun _ => rfl) rfl rfl rfl
  | on_intent_resumed args =>
    simp only [run, returns_bind, returns_throw] at hr
    obtain ⟨_, _, _, _, hfalse⟩ := hr
    exact hfalse.elim
  | reset_batch_tail =>
    generalize out.gate = g' at heff
    generalize out.action = act at heff
    cases heff with
    | admin hc => cases hc
    | reset howner => exact .idle howner rfl (fun _ => rfl) rfl rfl rfl
  | submit_intent b =>
    generalize out.gate = g' at heff
    generalize out.action = act at heff
    cases heff with
    | admin hc => cases hc
    | submit hrel => exact .idle (decide_eq_true hrel) rfl (fun _ => rfl) rfl rfl rfl
  | resume_intent id approve =>
    generalize out.gate = g' at heff
    generalize out.action = act at heff
    cases heff with
    | admin hc => cases hc
    | resume happr => exact .idle happr rfl (fun _ => rfl) rfl rfl rfl
  | resume_batch_chained ids =>
    generalize out.gate = g' at heff
    generalize out.action = act at heff
    cases heff with
    | admin hc => cases hc
    | batch happr => exact .idle happr rfl (fun _ => rfl) rfl rfl rfl
  | continue_chain next_id next_seq =>
    generalize out.gate = g' at heff
    generalize out.action = act at heff
    cases heff with
    | admin hc => cases hc
    | chain hpriv => exact .idle hpriv rfl (fun _ => rfl) rfl rfl rfl

/-! ## The roles at a point of the log -/

/-- A gate call that returned. -/
def Entry.call (en : Entry) : Option GateCall :=
  match en.event with
  | .accepted _ _ c => some c
  | _ => none

/-- What the accepted calls in the log have made of the roles given at deployment. -/
def roles_after (owner_id approver_id : AccountId) (log : List Entry) : Roles where
  owner_id := owner_id
  approver_id := lastWord (fun en => en.call.bind (·.approver)) approver_id log
  is_relayer account_id := lastWord (fun en => en.call.bind (·.relays account_id)) false log

/-- An entry that is no call leaves the roles as they are. -/
theorem roles_after_quiet {owner_id approver_id : AccountId} {log : List Entry} {en : Entry}
    (h : en.event.isCall = false) :
    roles_after owner_id approver_id (log ++ [en]) = roles_after owner_id approver_id log := by
  have hcall : en.call = none := by
    obtain ⟨block, before, event⟩ := en
    cases event with
    | accepted => cases h
    | _ => rfl
  simp only [roles_after, lastWord_concat, hcall, Option.bind_none, Option.getD_none]

/-- The caller of an accepted call had the role it needs when the call was made. -/
def Entitled (d : Deployment) (owner_id approver_id : AccountId) (before : List Entry)
    (en : Entry) : Prop :=
  ∀ caller deposit c, en.event = .accepted caller deposit c →
    c.permits d.gate_id (roles_after owner_id approver_id before) caller

theorem Gate.CallFrame.roles {g g' : Gate} (h : g.CallFrame g') : g'.roles = g.roles := by
  simp only [Gate.roles, Gate.get_owner, Gate.get_approver, h.owner_id, h.approver_id,
    Roles.mk.injEq, true_and]
  exact funext fun _ => decide_eq_decide.2 (h.relayers ▸ Iff.rfl)

/-- The contract stores the roles that the log says, and the log has no call by anybody
else. -/
structure Ledger.RolesAgree (d : Deployment) (owner_id approver_id : AccountId) (s : Ledger) :
    Prop where
  stored : s.gate.roles = roles_after owner_id approver_id s.log
  entitled : Along (Entitled d owner_id approver_id) s.log

theorem Ledger.RolesAgree.move {d : Deployment} {owner_id approver_id : AccountId}
    {s₀ s s' : Ledger} {a : Action} (h : s.RolesAgree d owner_id approver_id)
    (hmove : Move d s₀ a s s') : s'.RolesAgree d owner_id approver_id := by
  rcases hmove.call_or_frame with ⟨caller, deposit, c, out, hrun, hgate, hlog⟩ |
    ⟨hframe, hlog | ⟨e, he, hlog⟩⟩
  · have heff := GateCall.run_roles hrun
    refine ⟨?_, ?_⟩
    · have howner : s.gate.owner_id = owner_id := congrArg Roles.owner_id h.stored
      have happr : s.gate.approver_id = _ := congrArg Roles.approver_id h.stored
      have hrel : ∀ x, decide (x ∈ s.gate.relayers) = _ :=
        congrFun (congrArg Roles.is_relayer h.stored)
      rw [hgate, hlog, Gate.roles, roles_after, Roles.mk.injEq]
      simp only [Gate.get_owner, Gate.get_approver, Gate.is_relayer, funext_iff]
      refine ⟨heff.owner_id.trans howner, ?_, fun x => ?_⟩
      · rw [heff.approver_id, happr, lastWord_concat]
        rfl
      · rw [heff.relayers, hrel, lastWord_concat]
        rfl
    · rw [hlog]
      refine h.entitled.concat ?_
      intro caller' deposit' c' hev
      cases hev
      exact h.stored ▸ heff.permitted
  · have hroles : s'.gate.roles = s.gate.roles := hframe.roles
    exact ⟨by rw [hroles, hlog, h.stored], hlog ▸ h.entitled⟩
  · have hroles : s'.gate.roles = s.gate.roles := hframe.roles
    refine ⟨by rw [hroles, hlog, roles_after_quiet he, h.stored], ?_⟩
    rw [hlog]
    refine h.entitled.concat ?_
    rintro caller deposit c rfl
    cases he

/-- The invariant holds of every run. -/
theorem Ledger.RolesAgree.of_run {d : Deployment} {owner_id approver_id : AccountId}
    {balance block_height : Nat} {s : Ledger}
    (hrun : Run (step d) anyAction (Ledger.init owner_id approver_id balance block_height) s) :
    s.RolesAgree d owner_id approver_id := by
  refine hrun.invariant (I := Ledger.RolesAgree d owner_id approver_id) ⟨rfl, Along.nil⟩ ?_
  intro t a t' ht _ hst
  exact step_preserves _ hst ht fun u u' hu hmove => hu.move hmove

/-- **The log decides who may do what.** In every run the owner is the account the gate was
deployed with, the approver the one installed last, and a relayer whoever was added last
rather than removed. Every accepted call was made by an account that had the role it
needs at that moment; a call by anybody else is refused, and changes nothing but the
log. -/
theorem authority_from_log {d : Deployment} {owner_id approver_id : AccountId}
    {balance block_height : Nat} {s : Ledger}
    (hrun : Run (step d) anyAction (Ledger.init owner_id approver_id balance block_height) s) :
    s.gate.roles = roles_after owner_id approver_id s.log ∧
    (∀ pre post en caller deposit c, s.log = pre ++ en :: post →
      en.event = .accepted caller deposit c →
      c.permits d.gate_id (roles_after owner_id approver_id pre) caller) ∧
    ∀ caller deposit spare c,
      ¬ c.permits d.gate_id (roles_after owner_id approver_id s.log) caller →
      ∃ msg, s.call d caller deposit spare c =
        (s.record (.refused caller deposit c msg), false) := by
  have hagree := Ledger.RolesAgree.of_run hrun
  refine ⟨hagree.stored, fun pre post en caller deposit c hlog hev =>
    hagree.entitled pre en post hlog caller deposit c hev, ?_⟩
  intro caller deposit spare c hno
  rcases s.call_cases (d := d) caller deposit spare c with ⟨msg, hcall⟩ | ⟨out, hok, -⟩
  · exact ⟨msg, hcall⟩
  · exact absurd (hagree.stored ▸ (GateCall.run_roles hok).permitted) hno

section Demo

open SequentialNear.Demo

/-- The relayer is added and removed, and then its submission is refused. -/
theorem authority_from_log_demo : ∃ s, Reachable deployment s ∧ s.log.length = 2 ∧
    ∃ msg, s.call deployment relayer 0 0 (.submit_intent []) =
      (s.record (.refused relayer 0 (.submit_intent []) msg), false) := by
  obtain ⟨s, hrun, hlength, hno⟩ : ∃ s, Run (step deployment) anyAction start s ∧
      s.log.length = 2 ∧ (roles_after owner approver s.log).is_relayer relayer = false :=
    exists_run_of_exec [.call owner 0 0 (.add_relayer relayer),
      .call owner 0 0 (.remove_relayer relayer)] _ (by decide +kernel)
  refine ⟨s, ⟨_, _, _, _, hrun⟩, hlength, (authority_from_log hrun).2.2 relayer 0 0 _ ?_⟩
  intro hpermit
  rw [GateCall.permits, hno] at hpermit
  cases hpermit

end Demo

end SequentialNear
