/-
`contracts/ft-shim/src/lib.rs`: the second demo target, a token ledger.

The shim keeps its balances in a map from which an account that has nothing left is
removed, and beside it everything that was ever transferred. [`FtShim.Exact`] says that
the two agree: the map holds the balances of the transfer log, computed over the
naturals, and the log is covered. So what is known of covered histories
(`Transfers.lean`) holds of the map, and the one `checked_add` in `transfer` cannot
fail: sender and receiver together never hold more than the supply.
-/
import SequentialNear.Transfers
import SequentialNear.GateSpec

set_option autoImplicit false

namespace SequentialNear

open Borsh Nep366 Runs Transfers

structure FtShim where
  total_supply : Nat
  balances : Map AccountId Nat
  transfer_log : List (Transfer AccountId)

/-- A call of `transfer`. -/
structure TransferCall where
  predecessor_account_id : AccountId
  attached_deposit : Nat
  receiver_id : AccountId
  amount : U128

namespace FtShim

/-! ## The contract -/

def new (owner_id : AccountId) (total_supply : U128) : FtShim where
  total_supply := total_supply.val
  balances := (∅ : Map AccountId Nat).insert owner_id total_supply.val
  transfer_log := []

def balance_of (s : FtShim) (account_id : AccountId) : Nat :=
  (s.balances.lookup account_id).getD 0

def get_transfer_log (s : FtShim) : List (Transfer AccountId) := s.transfer_log

/-- Move `amount` from the caller to `receiver_id`. -/
def transfer (s : FtShim) (sender receiver_id : AccountId) (amount : U128) :
    Except String FtShim := do
  require (0 < amount.val) "amount must be > 0"
  require (sender ≠ receiver_id) "cannot transfer to self"
  let sender_bal := s.balance_of sender
  require (amount.val ≤ sender_bal) "insufficient balance"
  let receiver_bal := s.balance_of receiver_id
  let new_sender := sender_bal - amount.val
  let new_receiver ← checked_add 128 receiver_bal amount.val "receiver balance overflow"
  let balances :=
    if new_sender = 0 then s.balances.erase sender
    else s.balances.insert sender new_sender
  return { s with
    balances := balances.insert receiver_id new_receiver
    transfer_log := s.transfer_log ++ [⟨sender, receiver_id, amount.val⟩] }

/-- The generated wrapper, then the method. -/
def run (s : FtShim) (c : TransferCall) : Except String FtShim := do
  require (c.attached_deposit = 0) "Method transfer doesn't accept deposit"
  s.transfer c.predecessor_account_id c.receiver_id c.amount

/-- A call that panics is reverted. -/
def call (s : FtShim) (c : TransferCall) : FtShim :=
  match s.run c with
  | .ok s' => s'
  | .error _ => s

/-- The shim after these calls. -/
def replay (s : FtShim) (calls : List TransferCall) : FtShim := calls.foldl call s

/-! ## What a transfer does -/

/-- What the accounts hold when the shim is deployed. -/
def opening (owner_id : AccountId) (total_supply : Nat) (a : AccountId) : Nat :=
  if a = owner_id then total_supply else 0

variable {s s' : FtShim} {sender receiver_id : AccountId} {amount : U128}

/-- `transfer` returns when the sender has the amount and the receiver has room for it. -/
theorem transfer_eq_ok : s.transfer sender receiver_id amount = .ok s' ↔
    0 < amount.val ∧ sender ≠ receiver_id ∧ amount.val ≤ s.balance_of sender ∧
    s.balance_of receiver_id + amount.val < 2 ^ 128 ∧
    s' = { s with
      balances := (if s.balance_of sender - amount.val = 0 then s.balances.erase sender
        else s.balances.insert sender (s.balance_of sender - amount.val)).insert receiver_id
          (s.balance_of receiver_id + amount.val)
      transfer_log := s.transfer_log ++ [⟨sender, receiver_id, amount.val⟩] } := by
  simp only [transfer, bind_eq_ok, require_eq_ok, checked_add_eq_ok, pure_eq_ok]
  constructor
  · rintro ⟨_, hpos, _, hne, _, hcov, n, ⟨hlt, rfl⟩, rfl⟩
    exact ⟨hpos, hne, hcov, hlt, rfl⟩
  · rintro ⟨hpos, hne, hcov, hlt, rfl⟩
    exact ⟨(), hpos, (), hne, (), hcov, _, ⟨hlt, rfl⟩, rfl⟩

/-- Removing an account that has nothing left does not show. -/
theorem balance_of_transfer (h : s.transfer sender receiver_id amount = .ok s') (a : AccountId) :
    s'.balance_of a =
      if a = receiver_id then s.balance_of a + amount.val
      else if a = sender then s.balance_of a - amount.val
      else s.balance_of a := by
  obtain ⟨-, hne, -, -, rfl⟩ := transfer_eq_ok.1 h
  unfold balance_of
  by_cases hr : a = receiver_id
  · subst hr
    rw [if_pos rfl, AList.lookup_insert, Option.getD_some]
  · rw [if_neg hr, AList.lookup_insert_ne hr]
    by_cases hs : a = sender
    · subst hs
      rw [if_pos rfl]
      split
      · rename_i hzero
        rw [AList.lookup_erase, Option.getD_none]
        exact hzero.symm
      · rw [AList.lookup_insert, Option.getD_some]
    · rw [if_neg hs]
      split
      · rw [AList.lookup_erase_ne hs]
      · rw [AList.lookup_insert_ne hs]

/-! ## The invariant -/

/-- The map and the log agree, and the log is a history of proper transfers. -/
structure Exact (owner_id : AccountId) (total : Nat) (s : FtShim) : Prop where
  supply : s.total_supply = total
  balances : ∀ a, s.balance_of a = balance (opening owner_id total) s.transfer_log a
  covered : Covered (opening owner_id total) s.transfer_log
  proper : ∀ t ∈ s.transfer_log, 0 < t.amount ∧ t.sender ≠ t.receiver

theorem exact_new (owner_id : AccountId) (total : U128) :
    (new owner_id total).Exact owner_id total.val where
  supply := rfl
  balances a := by
    have hopen : balance (opening owner_id total.val) [] a = opening owner_id total.val a := rfl
    rw [show (new owner_id total).transfer_log = [] from rfl, hopen, opening, balance_of, new]
    by_cases ha : a = owner_id
    · subst ha
      rw [if_pos rfl, AList.lookup_insert, Option.getD_some]
    · rw [if_neg ha, AList.lookup_insert_ne ha, AList.lookup_empty, Option.getD_none]
  covered := Along.nil
  proper := fun t ht => by cases ht

variable {owner_id : AccountId} {total : Nat}

/-- **A transfer is one more entry of a covered history.** -/
theorem Exact.transfer (h : s.Exact owner_id total)
    (hok : s.transfer sender receiver_id amount = .ok s') : s'.Exact owner_id total := by
  obtain ⟨hpos, hne, hcov, -, heq⟩ := transfer_eq_ok.1 hok
  have hlog : s'.transfer_log = s.transfer_log ++ [⟨sender, receiver_id, amount.val⟩] := by rw [heq]
  have hsupply : s'.total_supply = s.total_supply := by rw [heq]
  have hcovered : Covered (opening owner_id total) s'.transfer_log := by
    rw [hlog]
    exact Covered.concat_iff.2 ⟨h.covered, h.balances sender ▸ hcov⟩
  refine ⟨hsupply.trans h.supply, fun a => ?_, hcovered, fun t ht => ?_⟩
  · rw [hlog] at hcovered ⊢
    rw [balance_of_transfer hok, balance_concat hcovered hne, h.balances a]
  · rw [hlog, List.mem_append, List.mem_singleton] at ht
    rcases ht with ht | rfl
    · exact h.proper t ht
    · exact ⟨hpos, hne⟩

theorem Exact.call (h : s.Exact owner_id total) (c : TransferCall) :
    (s.call c).Exact owner_id total := by
  unfold FtShim.call
  split
  · rename_i s' hrun
    obtain ⟨_, -, hok⟩ := bind_eq_ok.1 hrun
    exact h.transfer hok
  · exact h

theorem Exact.replay (h : s.Exact owner_id total) (calls : List TransferCall) :
    (s.replay calls).Exact owner_id total := by
  induction calls generalizing s with
  | nil => exact h
  | cons c calls ih => exact ih (h.call c)

/-! ## Where the supply is -/

/-- The owner and everybody who took part in a transfer. -/
def holders (owner_id : AccountId) (s : FtShim) : Finset AccountId :=
  insert owner_id (s.transfer_log.flatMap fun t => [t.sender, t.receiver]).toFinset

theorem owner_mem_holders : owner_id ∈ s.holders owner_id := Finset.mem_insert_self _ _

theorem mem_holders {t : Transfer AccountId} (ht : t ∈ s.transfer_log) :
    t.sender ∈ s.holders owner_id ∧ t.receiver ∈ s.holders owner_id := by
  have hmem : ∀ a ∈ [t.sender, t.receiver], a ∈ s.holders owner_id := by
    intro a ha
    exact Finset.mem_insert_of_mem (List.mem_toFinset.2 (List.mem_flatMap.2 ⟨t, ht, ha⟩))
  exact ⟨hmem _ (by simp), hmem _ (by simp)⟩

theorem sum_opening {F : Finset AccountId} (h : owner_id ∈ F) :
    ∑ a ∈ F, opening owner_id total a = total := by
  simp only [opening, Finset.sum_ite_eq', if_pos h]

/-- Who is no holder has nothing. -/
theorem Exact.balance_of_not_holder (h : s.Exact owner_id total) {a : AccountId}
    (ha : a ∉ s.holders owner_id) : s.balance_of a = 0 := by
  have howner : a ≠ owner_id := fun heq => ha (heq ▸ owner_mem_holders)
  have hreceived : received s.transfer_log a = 0 := by
    refine List.sum_eq_zero fun n hn => ?_
    obtain ⟨t, ht, rfl⟩ := List.mem_map.1 hn
    exact if_neg fun heq : t.receiver = a => ha (heq ▸ (mem_holders ht).2)
  rw [h.balances, balance, opening, if_neg howner, hreceived, Nat.zero_add, Nat.zero_sub]

theorem Exact.sum_balances (h : s.Exact owner_id total) :
    ∑ a ∈ s.holders owner_id, s.balance_of a = s.total_supply := by
  rw [Finset.sum_congr rfl fun a _ => h.balances a,
    h.covered.conserved fun t ht => mem_holders ht, sum_opening owner_mem_holders, h.supply]

/-- Two accounts together hold at most the supply. -/
theorem Exact.two_le (h : s.Exact owner_id total) {a b : AccountId} (hne : a ≠ b) :
    s.balance_of a + s.balance_of b ≤ total := by
  let F : Finset AccountId := insert a (insert b (s.holders owner_id))
  have hF : s.holders owner_id ⊆ F := fun c hc =>
    Finset.mem_insert_of_mem (Finset.mem_insert_of_mem hc)
  have hb : b ∈ F := Finset.mem_insert_of_mem (Finset.mem_insert_self _ _)
  have hlog : ∀ t ∈ s.transfer_log, t.sender ∈ F ∧ t.receiver ∈ F := fun t ht =>
    ⟨hF (mem_holders ht).1, hF (mem_holders ht).2⟩
  have hle := h.covered.two_le hlog (Finset.mem_insert_self a _) hb hne
  rwa [← h.balances, ← h.balances, sum_opening (hF owner_mem_holders)] at hle

/-- **The receiver always has room.** -/
theorem Exact.no_overflow (h : s.Exact owner_id total) (htotal : total < 2 ^ 128) :
    s.transfer sender receiver_id amount ≠ .error "receiver balance overflow" := by
  intro herr
  rcases bind_eq_error.1 herr with herr | ⟨_, -, herr⟩
  · exact absurd (require_eq_error.1 herr).2 (by decide)
  rcases bind_eq_error.1 herr with herr | ⟨_, hne, herr⟩
  · exact absurd (require_eq_error.1 herr).2 (by decide)
  rcases bind_eq_error.1 herr with herr | ⟨_, hcov, herr⟩
  · exact absurd (require_eq_error.1 herr).2 (by decide)
  have hne := require_eq_ok.1 hne
  have hcov := require_eq_ok.1 hcov
  rcases bind_eq_error.1 herr with herr | ⟨_, -, herr⟩
  · have htwo := h.two_le hne
    unfold checked_add at herr
    split at herr
    · cases herr
    · omega
  · cases herr

/-- **The ledger of the shim is exact.** -/
theorem ledger_exact (owner_id : AccountId) (total_supply : U128) (calls : List TransferCall) :
    let s := (new owner_id total_supply).replay calls
    (∀ a, s.balance_of a + sent s.get_transfer_log a =
      (if a = owner_id then s.total_supply else 0) + received s.get_transfer_log a) ∧
    (∀ pre t post, s.get_transfer_log = pre ++ t :: post →
      sent pre t.sender + t.amount ≤
        (if t.sender = owner_id then s.total_supply else 0) + received pre t.sender ∧
      0 < t.amount ∧ t.sender ≠ t.receiver) ∧
    (∃ F : Finset AccountId, (∀ a ∉ F, s.balance_of a = 0) ∧
      ∑ a ∈ F, s.balance_of a = s.total_supply) ∧
    s.total_supply = total_supply.val ∧
    ∀ c, s.run c ≠ .error "receiver balance overflow" := by
  intro s
  have h : s.Exact owner_id total_supply.val := (exact_new owner_id total_supply).replay calls
  have hsent : ∀ a, s.balance_of a + sent s.get_transfer_log a =
      (if a = owner_id then s.total_supply else 0) + received s.get_transfer_log a := by
    intro a
    rw [h.supply, h.balances a]
    exact h.covered.balance_add_sent a
  refine ⟨hsent, ?_, ⟨s.holders owner_id, fun a => h.balance_of_not_holder, h.sum_balances⟩,
    h.supply, ?_⟩
  · intro pre t post hlog
    have hlog : s.transfer_log = pre ++ t :: post := hlog
    have hcovered := h.covered
    rw [hlog] at hcovered
    have hmem : t ∈ s.transfer_log := hlog ▸ List.mem_append_right _ List.mem_cons_self
    rw [h.supply]
    exact ⟨hcovered.at_entry, h.proper t hmem⟩
  · intro c herr
    rcases bind_eq_error.1 herr with herr | ⟨_, -, herr⟩
    · exact absurd (require_eq_error.1 herr).2 (by decide)
    · exact h.no_overflow total_supply.isLt herr

/-- Three transfers of the owner and an overdraft. -/
example :
    let owner : AccountId := ⟨"owner.test"⟩
    let alice : AccountId := ⟨"alice.test"⟩
    let bob : AccountId := ⟨"bob.test"⟩
    let s := (new owner 1000).replay
      [⟨owner, 0, alice, 100⟩, ⟨owner, 0, bob, 200⟩, ⟨bob, 0, alice, 201⟩, ⟨owner, 0, alice, 50⟩]
    s.get_transfer_log.map (·.amount) = [100, 200, 50] ∧ s.balance_of owner = 650 := by
  decide +kernel

end FtShim

end SequentialNear
