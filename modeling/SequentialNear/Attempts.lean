/-
Calls that may be refused, over an arbitrary state and call type.

A machine takes calls one after the other. A call that it refuses leaves the state
as it was, so a sequence of attempts always has an end ([`replay`]), and what the calls
add to a list in the state, those have added that were not refused ([`replay_emits`]).
Nothing here names a program.
-/
import Mathlib.Data.List.Basic

set_option autoImplicit false

namespace SequentialNear.Attempts

variable {σ κ : Type*} (run : κ → σ → Option σ)

/-- The state after one attempt. -/
def attempt (s : σ) (c : κ) : σ := (run c s).getD s

/-- The state after these attempts. -/
def replay (s : σ) (calls : List κ) : σ := calls.foldl (attempt run) s

/-- The calls, attempted in order, each with whether it ran. -/
def outcomes : σ → List κ → List (κ × Bool)
  | _, [] => []
  | s, c :: calls => (c, (run c s).isSome) :: outcomes (attempt run s c) calls

/-- Those that ran. -/
def returned (s : σ) (calls : List κ) : List κ :=
  ((outcomes run s calls).filter (·.2)).map (·.1)

variable {run} {s t : σ} {c : κ}

theorem attempt_some (h : run c s = some t) : attempt run s c = t := by
  rw [attempt, h, Option.getD_some]

theorem attempt_none (h : run c s = none) : attempt run s c = s := by
  rw [attempt, h, Option.getD_none]

@[simp] theorem replay_nil : replay run s [] = s := rfl

theorem replay_cons (calls : List κ) :
    replay run s (c :: calls) = replay run (attempt run s c) calls := rfl

theorem replay_append (calls calls' : List κ) :
    replay run s (calls ++ calls') = replay run (replay run s calls) calls' :=
  List.foldl_append

theorem outcomes_append (s : σ) (calls calls' : List κ) :
    outcomes run s (calls ++ calls') =
      outcomes run s calls ++ outcomes run (replay run s calls) calls' := by
  induction calls generalizing s with
  | nil => rfl
  | cons c calls ih => rw [List.cons_append, outcomes, outcomes, ih, replay_cons, List.cons_append]

theorem outcomes_fst (s : σ) (calls : List κ) : (outcomes run s calls).map Prod.fst = calls := by
  induction calls generalizing s with
  | nil => rfl
  | cons c calls ih => rw [outcomes, List.map_cons, ih]

/-- What every call that runs adds to a list in the state, all that ran have added. -/
theorem replay_emits {β : Type*} {proj : σ → List β} {emit : κ → Option β}
    (h : ∀ c s t, run c s = some t → proj t = proj s ++ (emit c).toList) (s : σ) (calls : List κ) :
    proj (replay run s calls) = proj s ++ (returned run s calls).filterMap emit := by
  induction calls generalizing s with
  | nil => exact (List.append_nil _).symm
  | cons c calls ih =>
    rw [replay_cons, ih (attempt run s c), returned, returned, outcomes, List.filter_cons]
    cases hrun : run c s with
    | none =>
      rw [attempt_none hrun]
      rfl
    | some t =>
      rw [attempt_some hrun, h c s t hrun, Option.isSome_some, if_pos rfl, List.map_cons,
        List.append_assoc]
      cases hemit : emit c with
      | none => rw [List.filterMap_cons_none hemit, Option.toList_none, List.nil_append]
      | some b => rw [List.filterMap_cons_some hemit, Option.toList_some, List.singleton_append]

/-- Where all of them run, the attempts end where the run does. -/
theorem replay_of_run {calls : List κ} (h : calls.foldlM (fun s c => run c s) s = some t) :
    replay run s calls = t := by
  induction calls generalizing s with
  | nil =>
    cases h
    rfl
  | cons c calls ih =>
    rw [List.foldlM_cons] at h
    obtain ⟨u, hu, h⟩ := Option.bind_eq_some_iff.1 h
    rw [replay_cons, attempt_some hu, ih h]

end SequentialNear.Attempts
