/-
Runs of a guarded transition function, over an arbitrary state and action type.

A program is a partial function `step : σ → α → Option σ`: `none` says that the
action is not enabled. A **guard** says which actions a statement lets the
environment take, so that "every run without a reset" and "every run in which
only these receipts execute" are the same notion at two guards. Nothing here
names a program; the gate's ledger instantiates it once, in `Ledger.lean`.

The closure is Mathlib's `Relation.ReflTransGen`. What this file adds is the
induction principle in the shape the invariant proofs use, the bridge from a
concrete list of actions (`exec`) to the existence of a run, and statements
about every entry of a log that runs only extend (`Along`).
-/
import Mathlib.Logic.Relation
import Mathlib.Data.List.Nodup

set_option autoImplicit false

namespace SequentialNear.Runs

variable {σ α : Type*} (step : σ → α → Option σ)

/-! ## Guarded runs -/

/-- One step whose action the guard admits in the state it is taken from. -/
def Trans (G : σ → α → Prop) (s t : σ) : Prop := ∃ a, G s a ∧ step s a = some t

/-- Any number of admitted steps. -/
def Run (G : σ → α → Prop) : σ → σ → Prop := Relation.ReflTransGen (Trans step G)

/-- The guard that admits everything. -/
def anyAction : σ → α → Prop := fun _ _ => True

variable {step}

theorem Run.refl {G : σ → α → Prop} (s : σ) : Run step G s s := Relation.ReflTransGen.refl

theorem Run.tail {G : σ → α → Prop} {s t u : σ} {a : α} (h : Run step G s t)
    (hg : G t a) (hs : step t a = some u) : Run step G s u :=
  Relation.ReflTransGen.tail h ⟨a, hg, hs⟩

theorem Run.head {G : σ → α → Prop} {s t u : σ} {a : α} (hg : G s a)
    (hs : step s a = some t) (h : Run step G t u) : Run step G s u :=
  Relation.ReflTransGen.head ⟨a, hg, hs⟩ h

theorem Run.trans {G : σ → α → Prop} {s t u : σ} (h : Run step G s t)
    (h' : Run step G t u) : Run step G s u := Relation.ReflTransGen.trans h h'

/-- A run under a guard is a run under every weaker one. -/
theorem Run.mono {G G' : σ → α → Prop} (hG : ∀ s a, G s a → G' s a) {s t : σ}
    (h : Run step G s t) : Run step G' s t := by
  induction h with
  | refl => exact Run.refl s
  | tail _ ht ih =>
    obtain ⟨a, hg, hs⟩ := ht
    exact Run.tail ih (hG _ a hg) hs

/-- **The invariant rule.** What holds at the start and survives every admitted
step holds at the end of every run. -/
theorem Run.invariant {G : σ → α → Prop} {I : σ → Prop} {s t : σ} (h : Run step G s t)
    (h0 : I s) (hstep : ∀ s a t, I s → G s a → step s a = some t → I t) : I t := by
  induction h with
  | refl => exact h0
  | tail _ ht ih =>
    obtain ⟨a, hg, hs⟩ := ht
    exact hstep _ a _ ih hg hs

/-- Two guards that agree where an invariant of the first one holds admit the same
runs. -/
theorem Run.reguard {G G' : σ → α → Prop} {I : σ → Prop} {s t : σ} (h : Run step G s t)
    (h0 : I s) (hstep : ∀ s a t, I s → G s a → step s a = some t → G' s a ∧ I t) :
    Run step G' s t ∧ I t := by
  induction h with
  | refl => exact ⟨Run.refl s, h0⟩
  | tail _ ht ih =>
    obtain ⟨a, hg, hs⟩ := ht
    obtain ⟨hg', hI⟩ := hstep _ a _ ih.2 hg hs
    exact ⟨Run.tail ih.1 hg' hs, hI⟩

/-! ## Concrete action lists -/

/-- Take the listed actions in order; stop with `none` at the first one that the
guard refuses or that is not enabled. -/
def exec (step : σ → α → Option σ) (G : σ → α → Prop) [∀ s a, Decidable (G s a)] :
    σ → List α → Option σ
  | s, [] => some s
  | s, a :: as => if G s a then (step s a).bind fun t => exec step G t as else none

/-- A list of actions that executes is a run. -/
theorem run_of_exec {G : σ → α → Prop} [∀ s a, Decidable (G s a)] {s t : σ} {as : List α}
    (h : exec step G s as = some t) : Run step G s t := by
  induction as generalizing s with
  | nil =>
    simp only [exec, Option.some.injEq] at h
    exact h ▸ Run.refl s
  | cons a as ih =>
    simp only [exec] at h
    split at h
    · rename_i hg
      obtain ⟨u, hu, ht⟩ := Option.bind_eq_some_iff.1 h
      exact Run.head hg hu (ih ht)
    · cases h

/-- A check that holds at the end of a concrete action list holds of some state
that a run reaches. -/
theorem exists_run_of_exec {G : σ → α → Prop} [∀ s a, Decidable (G s a)] {s : σ}
    (as : List α) (P : σ → Prop) [DecidablePred P]
    (h : (exec step G s as).any (fun t => decide (P t)) = true) :
    ∃ t, Run step G s t ∧ P t := by
  obtain ⟨t, ht, hP⟩ := (Option.any_eq_true _ _).1 h
  exact ⟨t, run_of_exec ht, of_decide_eq_true hP⟩

/-- The same for a list of actions, one action, and another list under a guard of its
own. -/
theorem exists_runs_of_exec {G G' : σ → α → Prop} [∀ s a, Decidable (G s a)]
    [∀ s a, Decidable (G' s a)] {s : σ} (as : List α) (a : α) (bs : List α)
    (P : σ → σ → σ → Prop) [∀ t u v, Decidable (P t u v)]
    (h : (exec step G s as).any (fun t => (step t a).any fun u =>
      (exec step G' u bs).any fun v => decide (P t u v)) = true) :
    ∃ t u v, Run step G s t ∧ step t a = some u ∧ Run step G' u v ∧ P t u v := by
  obtain ⟨t, ht, h⟩ := (Option.any_eq_true _ _).1 h
  obtain ⟨u, hu, h⟩ := (Option.any_eq_true _ _).1 h
  obtain ⟨v, hv, hP⟩ := (Option.any_eq_true _ _).1 h
  exact ⟨t, u, v, run_of_exec ht, hu, run_of_exec hv, of_decide_eq_true hP⟩

/-! ## Requests amid other traffic

A client carries out its requests one after the other and notes something about each.
Others act before, between and after; what they may do depends on the notes so far. -/

section Served

variable {β ξ : Type*} (step : σ → α → Option σ) (G : List ξ → σ → α → Prop)
  (does : σ → β → α → Prop) (note : σ → β → ξ)

/-- From the first state, with these notes, the requests are carried out, which leads to
the second one. -/
inductive Served : σ → List ξ → List β → σ → List ξ → Prop
  | rest {s t : σ} {xs : List ξ} (h : Run step (G xs) s t) : Served s xs [] t xs
  | next {s t u v : σ} {xs ys : List ξ} {b : β} {bs : List β} {a : α}
      (h : Run step (G xs) s t) (hdoes : does t b a) (hs : step t a = some u)
      (hrest : Served u (xs ++ [note t b]) bs v ys) : Served s xs (b :: bs) v ys

variable {step G does note}

/-- **The client's invariant rule.** What survives the traffic under the notes of the
moment, and each request with its note, holds in the end of the notes and no request. -/
theorem Served.invariant {I : List ξ → List β → σ → Prop} {s t : σ} {xs ys : List ξ}
    {bs : List β} (h : Served step G does note s xs bs t ys) (h0 : I xs bs s)
    (htraffic : ∀ xs bs s a t, I xs bs s → G xs s a → step s a = some t → I xs bs t)
    (hserve : ∀ xs b bs s a t, I xs (b :: bs) s → does s b a → step s a = some t →
      I (xs ++ [note s b]) bs t) : I ys [] t := by
  induction h with
  | rest h => exact h.invariant h0 fun s a t => htraffic _ _ s a t
  | next h hdoes hs _ ih =>
    have hbefore := h.invariant h0 fun s a t => htraffic _ _ s a t
    exact ih (hserve _ _ _ _ _ _ hbefore hdoes hs)

/-- The run that the client and the others make together. -/
theorem Served.run {s t : σ} {xs ys : List ξ} {bs : List β}
    (h : Served step G does note s xs bs t ys) : Run step anyAction s t := by
  refine h.invariant (I := fun _ _ u => Run step anyAction s u) (Run.refl s) ?_ ?_
  · exact fun _ _ _ _ _ hu _ hs => hu.tail trivial hs
  · exact fun _ _ _ _ _ _ hu _ hs => hu.tail trivial hs

/-- A client may be followed up to the traffic after its last request … -/
theorem Served.traffic {s t u : σ} {xs ys : List ξ} {bs : List β} {a : α}
    (h : Served step G does note s xs bs t ys) (hG : G ys t a) (hs : step t a = some u) :
    Served step G does note s xs bs u ys := by
  induction h with
  | rest h => exact .rest (h.tail hG hs)
  | next h hdoes hb _ ih => exact .next h hdoes hb (ih hG hs)

/-- … and to one more request. -/
theorem Served.request {s t u : σ} {xs ys : List ξ} {bs : List β} {b : β} {a : α}
    (h : Served step G does note s xs bs t ys) (hdoes : does t b a) (hs : step t a = some u) :
    Served step G does note s xs (bs ++ [b]) u (ys ++ [note t b]) := by
  induction h with
  | rest h => exact .next h hdoes hs (.rest (Run.refl u))
  | next h hbefore hb _ ih => exact .next h hbefore hb (ih hdoes hs)

/-- Traffic that a weaker condition lets through. -/
theorem Served.mono {G' : List ξ → σ → α → Prop} (hG : ∀ xs s a, G xs s a → G' xs s a) {s t : σ}
    {xs ys : List ξ} {bs : List β} (h : Served step G does note s xs bs t ys) :
    Served step G' does note s xs bs t ys := by
  induction h with
  | rest h => exact .rest (h.mono (hG _))
  | next h hdoes hb _ ih => exact .next (h.mono (hG _)) hdoes hb ih

variable (step G does note) in
/-- Carry out a plan: before each request the listed actions of others, and after the last
one some more. -/
def serve [∀ xs s a, Decidable (G xs s a)] [∀ s b a, Decidable (does s b a)] (last : List α) :
    List (List α × β × α) → σ → List ξ → Option (σ × List ξ)
  | [], s, xs => (exec step (G xs) s last).map fun t => (t, xs)
  | (as, b, a) :: plan, s, xs =>
    (exec step (G xs) s as).bind fun t =>
      if does t b a then (step t a).bind fun u => serve last plan u (xs ++ [note t b]) else none

theorem served_of_serve [∀ xs s a, Decidable (G xs s a)] [∀ s b a, Decidable (does s b a)]
    {last : List α} {plan : List (List α × β × α)} {s t : σ} {xs ys : List ξ}
    (h : serve step G does note last plan s xs = some (t, ys)) :
    Served step G does note s xs (plan.map (·.2.1)) t ys := by
  induction plan generalizing s xs with
  | nil =>
    obtain ⟨u, hu, hpair⟩ := Option.map_eq_some_iff.1 h
    cases hpair
    exact .rest (run_of_exec hu)
  | cons p plan ih =>
    obtain ⟨as, b, a⟩ := p
    obtain ⟨u, hu, h⟩ := Option.bind_eq_some_iff.1 h
    split at h
    · rename_i hdoes
      obtain ⟨v, hv, h⟩ := Option.bind_eq_some_iff.1 h
      exact .next (run_of_exec hu) hdoes hv (ih h)
    · cases h

/-- A check that holds at the end of a plan holds of some state in which it has been
carried out. -/
theorem exists_served_of_serve [∀ xs s a, Decidable (G xs s a)] [∀ s b a, Decidable (does s b a)]
    {s : σ} {xs : List ξ} (plan : List (List α × β × α)) (last : List α)
    (P : σ → List ξ → Prop) [∀ t ys, Decidable (P t ys)]
    (h : (serve step G does note last plan s xs).any (fun t => decide (P t.1 t.2)) = true) :
    ∃ t ys, Served step G does note s xs (plan.map (·.2.1)) t ys ∧ P t ys := by
  obtain ⟨⟨t, ys⟩, ht, hP⟩ := (Option.any_eq_true _ _).1 h
  exact ⟨t, ys, served_of_serve ht, of_decide_eq_true hP⟩

end Served

/-! ## Histories

A log is a list that runs extend on the right. A statement about every entry
and what came before it is kept by an extension that satisfies it once. -/

/-- `P` holds of every entry of the log and the part of the log before it. -/
def Along (P : List α → α → Prop) (l : List α) : Prop :=
  ∀ pre e post, l = pre ++ e :: post → P pre e

theorem Along.nil {P : List α → α → Prop} : Along P [] := by
  intro pre e post h
  cases pre <;> cases h

theorem Along.concat {P : List α → α → Prop} {l : List α} {e : α} (h : Along P l) (he : P l e) :
    Along P (l ++ [e]) := by
  intro pre f post heq
  rcases List.eq_nil_or_concat post with rfl | ⟨post, g, rfl⟩
  · obtain ⟨rfl, hf⟩ := List.append_inj' heq rfl
    cases hf
    exact he
  · rw [List.concat_eq_append, ← List.cons_append, ← List.append_assoc] at heq
    exact h pre f post (List.append_inj' heq rfl).1

/-- What a projection finds in a log with one more entry. -/
theorem filterMap_concat {β : Type*} (f : α → Option β) (l : List α) (e : α) :
    (l ++ [e]).filterMap f = l.filterMap f ++ (f e).toList := by
  rw [List.filterMap_append, List.append_cancel_left_eq]
  cases h : f e with
  | none => rw [List.filterMap_cons_none h]; rfl
  | some b => rw [List.filterMap_cons_some h]; rfl

/-- A projection finds what a weaker one finds, in the same order. -/
theorem filterMap_sublist {β : Type*} {f g : α → Option β} {l : List α}
    (h : ∀ e ∈ l, ∀ b, f e = some b → g e = some b) :
    (l.filterMap f).Sublist (l.filterMap g) := by
  induction l with
  | nil => exact .slnil
  | cons e l ih =>
    have ih := ih fun e' he' => h e' (List.mem_cons_of_mem _ he')
    rw [List.filterMap_cons, List.filterMap_cons]
    cases hf : f e with
    | none =>
      cases g e with
      | none => exact ih
      | some b => exact ih.cons b
    | some b =>
      rw [h e List.mem_cons_self b hf]
      exact ih.cons_cons b

/-- An element that a projection with distinct values hits occurs once. -/
theorem unique_of_nodup_filterMap {β : Type*} {f : α → Option β} {l pre post : List α} {e : α}
    {b : β} (h : (l.filterMap f).Nodup) (hl : l = pre ++ e :: post) (he : f e = some b) :
    ∀ e' ∈ pre ++ post, f e' ≠ some b := by
  subst hl
  rw [List.filterMap_append, List.filterMap_cons_some he, List.nodup_middle, List.nodup_cons,
    ← List.filterMap_append] at h
  intro e' hmem he'
  exact h.1 (List.mem_filterMap.2 ⟨e', hmem, he'⟩)

/-- A filter that admits only elements of one key, where keys are distinct. -/
theorem filter_eq_singleton {β : Type*} {f : α → β} {p : α → Bool} {l : List α} {e : α}
    (h : (l.map f).Nodup) (he : e ∈ l) (hpe : p e = true)
    (honly : ∀ e' ∈ l, p e' = true → f e' = f e) : l.filter p = [e] := by
  obtain ⟨pre, post, rfl⟩ := List.append_of_mem he
  rw [List.map_append, List.map_cons, List.nodup_middle, List.nodup_cons, ← List.map_append] at h
  have hnone : ∀ e' ∈ pre ++ post, ¬ p e' = true := by
    intro e' hmem hp
    have hsame := honly e' (by simp only [List.mem_append, List.mem_cons] at hmem ⊢; tauto) hp
    exact h.1 (hsame ▸ List.mem_map_of_mem hmem)
  rw [List.filter_append, List.filter_cons_of_pos hpe,
    List.filter_eq_nil_iff.2 fun e' hmem => hnone e' (List.mem_append_left _ hmem),
    List.filter_eq_nil_iff.2 fun e' hmem => hnone e' (List.mem_append_right _ hmem)]
  rfl

/-! ## The last word of a history

A field that only some entries write holds what the last of them wrote. -/

section LastWord

variable {β : Type*} (f : α → Option β)

/-- What the last entry wrote that wrote at all, and `init` before that. -/
def lastWord (init : β) (l : List α) : β := (l.filterMap f).getLast?.getD init

@[simp] theorem lastWord_nil (init : β) : lastWord f init [] = init := rfl

theorem lastWord_concat (init : β) (l : List α) (e : α) :
    lastWord f init (l ++ [e]) = (f e).getD (lastWord f init l) := by
  rw [lastWord, List.filterMap_append, lastWord]
  cases he : f e with
  | none =>
    rw [List.filterMap_cons_none he, List.filterMap_nil, List.append_nil]
    rfl
  | some b =>
    rw [List.filterMap_cons_some he, List.filterMap_nil, List.getLast?_concat]
    rfl

end LastWord

/-! ## Runs that come to an end

A measure that every admitted step decreases bounds the length of every run, and where
it can decrease no further nothing is admitted that is enabled. -/

section Measure

variable {G : σ → α → Prop} {I : σ → Prop} {μ : σ → ℕ}
  (hstep : ∀ s a t, I s → G s a → step s a = some t → I t ∧ μ t < μ s)
include hstep

theorem exec_length_le [∀ s a, Decidable (G s a)] {s t : σ} {as : List α} (h0 : I s)
    (h : exec step G s as = some t) : as.length + μ t ≤ μ s := by
  induction as generalizing s with
  | nil =>
    simp only [exec, Option.some.injEq] at h
    subst h
    exact Nat.le_of_eq (Nat.zero_add _)
  | cons a as ih =>
    simp only [exec] at h
    split at h
    · rename_i hg
      obtain ⟨u, hu, ht⟩ := Option.bind_eq_some_iff.1 h
      obtain ⟨hI, hlt⟩ := hstep s a u h0 hg hu
      have hle := ih hI ht
      rw [List.length_cons]
      omega
    · cases h

/-- From every state a run leads to one where nothing more is enabled. -/
theorem exists_rest {s : σ} (h0 : I s) :
    ∃ t, Run step G s t ∧ ∀ a, G t a → step t a = none := by
  induction hn : μ s using Nat.strongRecOn generalizing s with
  | ind n ih =>
    by_cases hrest : ∀ a, G s a → step s a = none
    · exact ⟨s, Run.refl s, hrest⟩
    · push Not at hrest
      obtain ⟨a, hg, ha⟩ := hrest
      obtain ⟨u, hu⟩ := Option.ne_none_iff_exists'.1 ha
      obtain ⟨hI, hlt⟩ := hstep s a u h0 hg hu
      obtain ⟨t, hrun, ht⟩ := ih (μ u) (hn ▸ hlt) hI rfl
      exact ⟨t, Run.head hg hu hrun, ht⟩

end Measure

end SequentialNear.Runs
