/-
Histories of transfers between accounts, over an arbitrary type of accounts.

A history starts from opening balances and lists who sent how much to whom. It is
**covered** when nobody ever sends more than they hold at that point. The balance an
account has at the end is what it opened with, plus what it received, minus what it
sent, and for a covered history that subtraction is exact ([`Covered.balance_add_sent`]).
What all accounts hold together never changes ([`Covered.conserved`]), so no account
and no two accounts together ever hold more than was there at the start.
-/
import SequentialNear.Runs
import Mathlib.Algebra.BigOperators.Ring.Finset
import Mathlib.Algebra.Order.BigOperators.Group.Finset

set_option autoImplicit false

namespace SequentialNear.Transfers

open Runs

variable {κ : Type*} [DecidableEq κ]

structure Transfer (κ : Type*) where
  sender : κ
  receiver : κ
  amount : ℕ
deriving DecidableEq

/-- All amounts sent by `a`. -/
def sent (log : List (Transfer κ)) (a : κ) : ℕ :=
  (log.map fun t => if t.sender = a then t.amount else 0).sum

/-- All amounts sent to `a`. -/
def received (log : List (Transfer κ)) (a : κ) : ℕ :=
  (log.map fun t => if t.receiver = a then t.amount else 0).sum

/-- What `a` holds after the history. -/
def balance (opening : κ → ℕ) (log : List (Transfer κ)) (a : κ) : ℕ :=
  opening a + received log a - sent log a

/-- Every sender holds what they send when they send it. -/
def Covered (opening : κ → ℕ) (log : List (Transfer κ)) : Prop :=
  Along (fun pre t => t.amount ≤ balance opening pre t.sender) log

variable {opening : κ → ℕ} {log : List (Transfer κ)} {t : Transfer κ} {a b : κ}

theorem sent_concat : sent (log ++ [t]) a = sent log a + if t.sender = a then t.amount else 0 := by
  simp only [sent, List.map_append, List.sum_append, List.map_singleton, List.sum_singleton]

theorem received_concat :
    received (log ++ [t]) a = received log a + if t.receiver = a then t.amount else 0 := by
  simp only [received, List.map_append, List.sum_append, List.map_singleton, List.sum_singleton]

theorem sum_from (log : List (Transfer κ)) (a : κ) :
    ((log.filter (·.sender = a)).map (·.amount)).sum = sent log a := by
  induction log with
  | nil => rfl
  | cons t log ih =>
    have hsent : sent (t :: log) a = (if t.sender = a then t.amount else 0) + sent log a := rfl
    rw [List.filter_cons, hsent, ← ih]
    by_cases hs : t.sender = a
    · rw [if_pos (decide_eq_true hs), if_pos hs, List.map_cons, List.sum_cons]
    · rw [if_neg (by simpa using hs), if_neg hs, Nat.zero_add]

/-- A history that is covered up to its last transfer, which is covered itself. -/
theorem Covered.concat_iff :
    Covered opening (log ++ [t]) ↔
      Covered opening log ∧ t.amount ≤ balance opening log t.sender := by
  constructor
  · intro h
    refine ⟨fun pre e post heq => h pre e (post ++ [t]) ?_, h log t [] rfl⟩
    rw [heq, List.append_assoc, List.cons_append]
  · rintro ⟨h, ht⟩
    exact Along.concat h ht

/-- Nobody sends more than they opened with and received. -/
theorem Covered.sent_le (h : Covered opening log) (a : κ) :
    sent log a ≤ opening a + received log a := by
  induction log using List.reverseRecOn with
  | nil => exact Nat.zero_le _
  | append_singleton log t ih =>
    obtain ⟨hlog, ht⟩ := Covered.concat_iff.1 h
    have hle := ih hlog
    rw [sent_concat, received_concat]
    by_cases hs : t.sender = a
    · -- what is sent now is at most what is left
      subst hs
      rw [if_pos rfl]
      unfold balance at ht
      omega
    · rw [if_neg hs]
      omega

theorem Covered.balance_add_sent (h : Covered opening log) (a : κ) :
    balance opening log a + sent log a = opening a + received log a := by
  have hle := h.sent_le a
  unfold balance
  omega

/-- The history so far is covered too. -/
theorem Covered.of_append {pre post : List (Transfer κ)} (h : Covered opening (pre ++ post)) :
    Covered opening pre := by
  intro p e q heq
  refine h p e (q ++ post) ?_
  rw [heq, List.append_assoc, List.cons_append]

/-- What a sender has sent in all, this time included, they had. -/
theorem Covered.at_entry {pre post : List (Transfer κ)} (h : Covered opening (pre ++ t :: post)) :
    sent pre t.sender + t.amount ≤ opening t.sender + received pre t.sender := by
  have hamount := h pre t post rfl
  have hbal := h.of_append.balance_add_sent t.sender
  omega

/-- The balances after one more transfer. -/
theorem balance_concat (h : Covered opening (log ++ [t])) (hne : t.sender ≠ t.receiver) (a : κ) :
    balance opening (log ++ [t]) a =
      if a = t.receiver then balance opening log a + t.amount
      else if a = t.sender then balance opening log a - t.amount
      else balance opening log a := by
  have hle := (Covered.concat_iff.1 h).1.sent_le a
  unfold balance
  rw [sent_concat, received_concat]
  by_cases hr : a = t.receiver
  · rw [if_pos hr, if_pos hr.symm, if_neg fun hs => hne (hs.trans hr)]
    omega
  · rw [if_neg hr, if_neg (Ne.symm hr)]
    by_cases hs : a = t.sender
    · rw [if_pos hs, if_pos hs.symm]
      omega
    · rw [if_neg hs, if_neg (Ne.symm hs), Nat.add_zero, Nat.add_zero]

/-! ## What all accounts hold together -/

theorem sum_sent {F : Finset κ} (hF : ∀ t ∈ log, t.sender ∈ F) :
    ∑ a ∈ F, sent log a = (log.map (·.amount)).sum := by
  induction log with
  | nil => exact Finset.sum_const_zero
  | cons t log ih =>
    obtain ⟨ht, hlog⟩ := List.forall_mem_cons.1 hF
    have hsplit : ∀ a, sent (t :: log) a = (if t.sender = a then t.amount else 0) + sent log a :=
      fun _ => rfl
    simp only [hsplit, Finset.sum_add_distrib, Finset.sum_ite_eq, if_pos ht, ih hlog,
      List.map_cons, List.sum_cons]

theorem sum_received {F : Finset κ} (hF : ∀ t ∈ log, t.receiver ∈ F) :
    ∑ a ∈ F, received log a = (log.map (·.amount)).sum := by
  induction log with
  | nil => exact Finset.sum_const_zero
  | cons t log ih =>
    obtain ⟨ht, hlog⟩ := List.forall_mem_cons.1 hF
    have hsplit : ∀ a, received (t :: log) a =
        (if t.receiver = a then t.amount else 0) + received log a := fun _ => rfl
    simp only [hsplit, Finset.sum_add_distrib, Finset.sum_ite_eq, if_pos ht, ih hlog,
      List.map_cons, List.sum_cons]

/-- **Transfers conserve the total.** -/
theorem Covered.conserved (h : Covered opening log) {F : Finset κ}
    (hF : ∀ t ∈ log, t.sender ∈ F ∧ t.receiver ∈ F) :
    ∑ a ∈ F, balance opening log a = ∑ a ∈ F, opening a := by
  have hsent := sum_sent fun t ht => (hF t ht).1
  have hreceived := sum_received fun t ht => (hF t ht).2
  have hsum : ∑ a ∈ F, (balance opening log a + sent log a) =
      ∑ a ∈ F, (opening a + received log a) :=
    Finset.sum_congr rfl fun a _ => h.balance_add_sent a
  rw [Finset.sum_add_distrib, Finset.sum_add_distrib, hsent, hreceived] at hsum
  exact Nat.add_right_cancel hsum

/-- Two accounts together hold at most what all of them opened with. -/
theorem Covered.two_le (h : Covered opening log) {F : Finset κ}
    (hF : ∀ t ∈ log, t.sender ∈ F ∧ t.receiver ∈ F) (ha : a ∈ F) (hb : b ∈ F) (hne : a ≠ b) :
    balance opening log a + balance opening log b ≤ ∑ c ∈ F, opening c := by
  rw [← h.conserved hF, ← Finset.sum_pair hne]
  refine Finset.sum_le_sum_of_subset ?_
  intro c hc
  rcases Finset.mem_insert.1 hc with rfl | hc
  · exact ha
  · rwa [Finset.mem_singleton.1 hc]

end SequentialNear.Transfers
