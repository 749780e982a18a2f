/-
`scripts/src/commands/sequence.ts`: the verdict of the sequence runner.

After a batch of `n` the runner reads the target's log and compares its last `n`
entries with what it expects. The log is kept across runs and the expected values
depend on `n` alone, so an earlier run can have left what this one should have done.
The state from before the batch is read and recorded, and not compared with.

[`last_entries_iff`] says exactly which logs pass: those that grew by the expected
entries, those that grew by too few and had the missing ones at their end already
([`CarriedOver`]), and those that grew by too many ([`Overshot`]).
-/
import SequentialNear.Register
import SequentialNear.FtShim
import SequentialNear.Replay
import SequentialNear.Rearrange

set_option autoImplicit false

namespace SequentialNear

open Borsh Nep366 Transfers

/-! ## The end of a log -/

section Slice

variable {α : Type}

/-- `xs.slice(start)`: a negative start counts from the end. -/
def slice (xs : List α) (start : Int) : List α :=
  xs.drop (if start < 0 then (xs.length + start).toNat else start.toNat)

theorem slice_map {β : Type} (f : α → β) (xs : List α) (start : Int) :
    slice (xs.map f) start = (slice xs start).map f := by
  unfold slice
  rw [List.length_map, List.map_drop]

/-- Fewer entries were appended than expected, and the missing ones were there. -/
def CarriedOver (pre new expected : List α) : Prop :=
  new.length < expected.length ∧ new = expected.drop (expected.length - new.length) ∧
    expected.take (expected.length - new.length) <:+ pre

/-- More entries were appended than expected, the last ones as expected. -/
def Overshot (new expected : List α) : Prop :=
  expected.length < new.length ∧ expected <:+ new

/-- Neither is a log that grew by what was expected. -/
theorem grew_otherwise {pre new expected : List α}
    (h : CarriedOver pre new expected ∨ Overshot new expected) : new ≠ expected := by
  rintro rfl
  rcases h with ⟨hlt, -⟩ | ⟨hlt, -⟩
  · exact lt_irrefl _ hlt
  · exact lt_irrefl _ hlt

/-- The last `n` entries are `n` given ones when these end the log. -/
theorem slice_eq_iff {xs expected : List α} :
    slice xs ((xs.length : Int) - expected.length) = expected ↔ expected <:+ xs := by
  unfold slice
  by_cases hlen : expected.length ≤ xs.length
  · have hstart : ((xs.length : Int) - expected.length).toNat = xs.length - expected.length := by
      omega
    rw [if_neg (by omega), hstart, List.suffix_iff_eq_drop]
    exact eq_comm
  · rw [if_pos (by omega)]
    -- what is cut from a shorter log is shorter
    refine iff_of_false (fun h => ?_) fun h => hlen h.length_le
    have hdrop := congrArg List.length h
    rw [List.length_drop] at hdrop
    omega

/-- **Which logs end with the expected entries.** -/
theorem last_entries_iff {pre new expected : List α} :
    expected <:+ pre ++ new ↔ new = expected ∨ CarriedOver pre new expected ∨
      Overshot new expected := by
  have hnew : new <:+ pre ++ new := List.suffix_append _ _
  rcases Nat.lt_trichotomy new.length expected.length with hlt | heq | hgt
  · constructor
    · intro h
      -- `new` ends the expected entries, and the rest of them ends `pre`
      obtain ⟨p, rfl⟩ := List.suffix_of_suffix_length_le hnew h hlt.le
      have hp : p <:+ pre := by
        obtain ⟨q, hq⟩ := h
        rw [← List.append_assoc] at hq
        exact ⟨q, List.append_cancel_right hq⟩
      right; left
      rw [CarriedOver, List.length_append, Nat.add_sub_cancel, List.drop_left, List.take_left]
      rw [List.length_append] at hlt
      exact ⟨hlt, rfl, hp⟩
    · rintro (rfl | ⟨-, hdrop, q, hq⟩ | ⟨hgt, -⟩)
      · exact hnew
      · have hexp := List.take_append_drop (expected.length - new.length) expected
        rw [← hdrop] at hexp
        exact ⟨q, by rw [← hq, List.append_assoc, hexp]⟩
      · omega
  · constructor
    · intro h
      left
      exact (List.suffix_of_suffix_length_le hnew h heq.le).eq_of_length heq
    · rintro (rfl | ⟨hlt, -⟩ | ⟨hgt, -⟩)
      · exact hnew
      · omega
      · omega
  · constructor
    · intro h
      exact .inr (.inr ⟨hgt, List.suffix_of_suffix_length_le h hnew hgt.le⟩)
    · rintro (rfl | ⟨hlt, -⟩ | ⟨-, h⟩)
      · exact hnew
      · omega
      · exact h.trans hnew

end Slice

/-! ## The check -/

def valuesForRegister (n : Nat) : List Nat := (List.range n).map fun i => 11 + i * 11

def amountsForFtShim (n : Nat) : List Nat := (List.range n).map fun i => 100 + i * 17

/-- What the views return: the numbers are decimal strings. -/
inductive TargetState
  | register (current : String) (log : List String) (set_count : Nat)
  | ft_shim (alice_balance : String) (transfer_log : List (String × String × String))

def readRegisterState (r : Register) : TargetState :=
  let (current, log, set_count) := r.get
  .register (toString current) (log.map toString) set_count

def readFtShimState (s : FtShim) (alice : AccountId) : TargetState :=
  .ft_shim (toString (s.balance_of alice))
    (s.get_transfer_log.map fun t => (t.sender.id, t.receiver.id, toString t.amount))

/-- `String(v)` of an array element, which may be missing. -/
def stringOf (v : Option Nat) : String :=
  match v with
  | some v => toString v
  | none => "undefined"

/-- The `match` that `cmdSequence` records for the state it reads last; `none` when it
throws. Two arrays of strings have one JSON text exactly when they are equal. -/
def sequence_match (n : Nat) (permutation : List Nat) (post : TargetState) : Option Bool :=
  if n < 2 then none
  else match post with
    | .register current log _ =>
      let expectedLog := permutation.map fun i => stringOf (valuesForRegister n)[i]?
      let expectedCurrent := expectedLog.getLast?
      -- the entries of earlier runs are not looked at
      let tail := slice log ((log.length : Int) - n)
      some (decide (some current = expectedCurrent) && decide (tail = expectedLog))
    | .ft_shim _ transfer_log => do
      let expectedAmounts ← permutation.mapM fun i => (amountsForFtShim n)[i]?.map toString
      let tail := (slice transfer_log ((transfer_log.length : Int) - n)).map (·.2.2)
      return decide (tail = expectedAmounts)

/-! ## What it says -/

section Permutation

variable {n : Nat} {permutation : List Nat}

/-- The entries a run of this permutation is to append. -/
def expected_values (permutation : List Nat) : List Nat := permutation.map fun i => 11 + i * 11

def expected_amounts (permutation : List Nat) : List Nat := permutation.map fun i => 100 + i * 17

theorem toString_injective : Function.Injective (toString : Nat → String) := by
  intro m n h
  exact repr_toList_injective (congrArg String.toList h)

theorem expectedLog_eq (hp : permutation.Perm (List.range n)) :
    (permutation.map fun i => stringOf (valuesForRegister n)[i]?) =
      (expected_values permutation).map toString := by
  rw [expected_values, List.map_map]
  refine List.map_congr_left fun i hi => ?_
  rw [valuesForRegister, List.getElem?_map, List.getElem?_range (lt_of_mem_permutation hp hi)]
  rfl

theorem expectedAmounts_eq (hp : permutation.Perm (List.range n)) :
    (permutation.mapM fun i => (amountsForFtShim n)[i]?.map toString) =
      some ((expected_amounts permutation).map toString) := by
  rw [mapM_eq_some_iff, expected_amounts, List.map_map, List.map_map]
  refine List.map_congr_left fun i hi => ?_
  rw [amountsForFtShim, List.getElem?_map, List.getElem?_range (lt_of_mem_permutation hp hi)]
  rfl

/-- What the check looks at, of a register. -/
theorem register_match_iff (hn : 2 ≤ n) (hp : permutation.Perm (List.range n)) (post : Register) :
    sequence_match n permutation (readRegisterState post) = some true ↔
      expected_values permutation <:+ post.log ∧
        (expected_values permutation).getLast? = some post.current := by
  have hlen : (expected_values permutation).length = n := by
    rw [expected_values, List.length_map, length_of_permutation hp]
  have hcurrent : some (toString post.current) =
      ((expected_values permutation).map toString).getLast? ↔
        (expected_values permutation).getLast? = some post.current := by
    rw [List.getLast?_map, ← Option.map_some,
      (Option.map_injective toString_injective).eq_iff]
    exact eq_comm
  simp only [sequence_match, readRegisterState, Register.get, if_neg (Nat.not_lt.2 hn),
    expectedLog_eq hp, Option.some.injEq, Bool.and_eq_true, decide_eq_true_eq, hcurrent, slice_map,
    List.length_map, (List.map_injective_iff.2 toString_injective).eq_iff]
  rw [← hlen, slice_eq_iff, and_comm]

/-- What the check looks at, of the token shim. -/
theorem ft_shim_match_iff (hn : 2 ≤ n) (hp : permutation.Perm (List.range n)) (post : FtShim)
    (alice : AccountId) :
    sequence_match n permutation (readFtShimState post alice) = some true ↔
      expected_amounts permutation <:+ post.get_transfer_log.map (·.amount) := by
  have hlen : (expected_amounts permutation).length = n := by
    rw [expected_amounts, List.length_map, length_of_permutation hp]
  have hamounts : ∀ start, ((slice (post.get_transfer_log.map fun t =>
      (t.sender.id, t.receiver.id, toString t.amount)) start).map fun e => e.2.2) =
        (slice (post.get_transfer_log.map (·.amount)) start).map toString := by
    intro start
    rw [← slice_map, ← slice_map, List.map_map, List.map_map]
    rfl
  simp only [sequence_match, readFtShimState, if_neg (Nat.not_lt.2 hn), expectedAmounts_eq hp,
    Option.bind_eq_bind, Option.bind_some, Option.pure_def, Option.some.injEq, decide_eq_true_eq,
    hamounts, List.length_map, (List.map_injective_iff.2 toString_injective).eq_iff]
  rw [← hlen, ← slice_eq_iff, List.length_map]

end Permutation

/-- **When the verdict is right.** It says `match` of a log that grew by precisely the
expected entries, and of no other, unless the missing entries were carried over from
before or the log overshot. -/
theorem sequence_verdict_iff {n : Nat} {permutation : List Nat} (hn : 2 ≤ n)
    (hp : permutation.Perm (List.range n)) :
    (∀ (pre post : Register) (new : List Nat), post.log = pre.log ++ new →
      ((sequence_match n permutation (readRegisterState post) = some true ↔
          new = expected_values permutation ∧
            (expected_values permutation).getLast? = some post.current) ↔
        ¬ ((expected_values permutation).getLast? = some post.current ∧
          (CarriedOver pre.log new (expected_values permutation) ∨
            Overshot new (expected_values permutation))))) ∧
    ∀ (pre post : FtShim) (new : List (Transfer AccountId)) (alice : AccountId),
      post.get_transfer_log = pre.get_transfer_log ++ new →
      ((sequence_match n permutation (readFtShimState post alice) = some true ↔
          new.map (·.amount) = expected_amounts permutation) ↔
        ¬ (CarriedOver (pre.get_transfer_log.map (·.amount)) (new.map (·.amount))
            (expected_amounts permutation) ∨
          Overshot (new.map (·.amount)) (expected_amounts permutation))) := by
  constructor
  · intro pre post new hlog
    have hother := @grew_otherwise _ pre.log new (expected_values permutation)
    rw [register_match_iff hn hp, hlog, last_entries_iff]
    tauto
  · intro pre post new alice hlog
    have hother := @grew_otherwise _ (pre.get_transfer_log.map (·.amount)) (new.map (·.amount))
      (expected_amounts permutation)
    rw [ft_shim_match_iff hn hp, hlog, List.map_append, last_entries_iff]
    tauto

section Demo

/-- The two entries of an earlier run of two. -/
def earlier_run : Register := ⟨22, [11, 22], 2⟩

theorem sequence_verdict_iff_demo :
    (sequence_match 2 [1, 0] (readRegisterState ⟨11, [11, 22, 22, 11], 4⟩) = some true ↔
      [22, 11] = expected_values [1, 0] ∧ (expected_values [1, 0]).getLast? = some 11) ↔
    ¬ ((expected_values [1, 0]).getLast? = some 11 ∧
      (CarriedOver [11, 22] [22, 11] (expected_values [1, 0]) ∨
        Overshot [22, 11] (expected_values [1, 0]))) :=
  (sequence_verdict_iff (by decide) (by decide)).1 earlier_run ⟨11, [11, 22, 22, 11], 4⟩ [22, 11] rfl

/-- The second run of two dispatches nothing, and matches. -/
theorem sequence_verdict_fails : ¬ ∀ (n : Nat) (permutation : List Nat), 2 ≤ n →
    permutation.Perm (List.range n) → ∀ (pre post : Register) (new : List Nat),
      post.log = pre.log ++ new →
      (sequence_match n permutation (readRegisterState post) = some true ↔
        new = expected_values permutation ∧
          (expected_values permutation).getLast? = some post.current) := by
  intro h
  have hmatch := h 2 [0, 1] (by decide) (by decide) earlier_run earlier_run [] rfl
  have hempty := (hmatch.1 (by decide +kernel)).1
  cases hempty

end Demo

end SequentialNear
