/-
The NEP-366 wire format is canonical, so the signature covers every byte.

`verify` does not hash the bytes the relayer sent: it decodes them and hashes what it
gets by writing the delegate again. That is sound because nothing else decodes to the
same delegate. Each wire type is a codec ([`Codec`]): the hand-written ones check one
tag, the derived ones are their fields in order.
-/
import SequentialNear.BorshSpec
import SequentialNear.Nep366

set_option autoImplicit false

namespace SequentialNear.Nep366

open Borsh

variable {host : Host}

/-! ## What can be written -/

/-- An account id is valid, and short enough for its length prefix. -/
def AccountId.Valid (host : Host) (a : AccountId) : Prop :=
  host.is_valid_account_id a.id = true ∧ a.id.toByteArray.size < 2 ^ 32

def FunctionCallAction.Valid (fc : FunctionCallAction) : Prop :=
  fc.method_name.toByteArray.size < 2 ^ 32 ∧ fc.args.length < 2 ^ 32

def NonDelegateAction.Valid : NonDelegateAction → Prop
  | .FunctionCall fc => fc.Valid

structure DelegateAction.Valid (host : Host) (d : DelegateAction) : Prop where
  sender_id : d.sender_id.Valid host
  receiver_id : d.receiver_id.Valid host
  actions : d.actions.length < 2 ^ 32 ∧ ∀ a ∈ d.actions, a.Valid

def SignedDelegateAction.Valid (host : Host) (s : SignedDelegateAction) : Prop :=
  s.delegate_action.Valid host

/-! ## The codecs -/

theorem codec_account_id :
    Codec (AccountId.deserialize_reader host) AccountId.serialize (AccountId.Valid host) where
  reads a ha rest := by
    refine (codec_string.bind_reads _ ha.2 rest).trans ?_
    rw [if_pos ha.1]
    rfl
  writes b a rest hb := by
    obtain ⟨s, b', hs, rfl, hret⟩ := codec_string.bind_writes hb
    split at hret
    · rename_i hvalid
      obtain ⟨rfl, rfl⟩ := pure_run.1 hret
      exact ⟨⟨hvalid, hs⟩, rfl⟩
    · exact absurd hret throw_run

/-- A fixed array behind a tag that must be `0`. -/
theorem codec_tagged {α : Type} {n : Nat} (mk : List.Vector UInt8 n → α)
    (bytes : α → List.Vector UInt8 n) (hmk : ∀ x, mk (bytes x) = x) (hbytes : ∀ v, bytes (mk v) = v)
    (msg : UInt8 → String) :
    Codec (do
        let tag ← read_u8
        if tag ≠ 0 then throw (msg tag)
        let v ← read_exact n
        return mk v)
      (fun x => 0 :: (bytes x).toList) fun _ => True where
  reads x _ rest := by
    refine (codec_u8.bind_reads _ (x := 0) trivial _).trans ?_
    refine ((codec_exact n).bind_reads _ (x := bytes x) trivial rest).trans ?_
    exact pure_run.2 ⟨hmk x, rfl⟩
  writes b x rest hb := by
    obtain ⟨tag, b₁, -, rfl, hb₁⟩ := codec_u8.bind_writes hb
    by_cases htag : tag = 0
    · subst htag
      obtain ⟨v, b₂, -, rfl, hret⟩ := (codec_exact n).bind_writes hb₁
      obtain ⟨rfl, rfl⟩ := pure_run.1 hret
      rw [hbytes]
      exact ⟨trivial, rfl⟩
    · rw [if_pos htag] at hb₁
      exact absurd hb₁ throw_bind_run

theorem codec_public_key :
    Codec Ed25519PublicKey.deserialize_reader Ed25519PublicKey.serialize fun _ => True :=
  codec_tagged Ed25519PublicKey.mk Ed25519PublicKey.bytes (fun _ => rfl) (fun _ => rfl)
    fun tag => "expected ed25519 public key (tag 0), got tag " ++ toString tag

theorem codec_signature :
    Codec Ed25519Signature.deserialize_reader Ed25519Signature.serialize fun _ => True :=
  codec_tagged Ed25519Signature.mk Ed25519Signature.bytes (fun _ => rfl) (fun _ => rfl)
    fun tag => "expected ed25519 signature (tag 0), got tag " ++ toString tag

theorem codec_function_call :
    Codec FunctionCallAction.deserialize_reader FunctionCallAction.serialize
      FunctionCallAction.Valid where
  reads fc hfc rest := by
    have hargs : fc.args.length < 2 ^ 32 ∧ ∀ x ∈ fc.args, True := ⟨hfc.2, fun _ _ => trivial⟩
    simp only [FunctionCallAction.serialize, List.append_assoc]
    refine (codec_string.bind_reads _ hfc.1 _).trans ?_
    refine ((codec_vec codec_u8).bind_reads _ hargs _).trans ?_
    refine (codec_u64.bind_reads _ (x := fc.gas) trivial _).trans ?_
    exact (codec_u128.bind_reads _ (x := fc.deposit) trivial rest).trans (pure_run.2 ⟨rfl, rfl⟩)
  writes b fc rest hb := by
    obtain ⟨method_name, b₁, hname, rfl, hb₁⟩ := codec_string.bind_writes hb
    obtain ⟨args, b₂, hargs, rfl, hb₂⟩ := (codec_vec codec_u8).bind_writes hb₁
    obtain ⟨gas, b₃, -, rfl, hb₃⟩ := codec_u64.bind_writes hb₂
    obtain ⟨deposit, b₄, -, rfl, hret⟩ := codec_u128.bind_writes hb₃
    obtain ⟨rfl, rfl⟩ := pure_run.1 hret
    refine ⟨⟨hname, hargs.1⟩, ?_⟩
    simp only [FunctionCallAction.serialize, List.append_assoc]

/-- Tag 2 is the one action there is. -/
theorem codec_action :
    Codec NonDelegateAction.deserialize_reader NonDelegateAction.serialize
      NonDelegateAction.Valid where
  reads a ha rest := by
    obtain ⟨fc⟩ := a
    refine (codec_u8.bind_reads _ (x := ACTION_TAG_FUNCTION_CALL) trivial _).trans ?_
    rw [if_pos rfl]
    exact (codec_function_call.bind_reads _ ha rest).trans (pure_run.2 ⟨rfl, rfl⟩)
  writes b a rest hb := by
    obtain ⟨tag, b₁, -, rfl, hb₁⟩ := codec_u8.bind_writes hb
    by_cases htag : tag = ACTION_TAG_FUNCTION_CALL
    · rw [if_pos htag] at hb₁
      obtain ⟨fc, b₂, hfc, rfl, hret⟩ := codec_function_call.bind_writes hb₁
      obtain ⟨rfl, rfl⟩ := pure_run.1 hret
      exact ⟨hfc, by rw [htag]; rfl⟩
    -- a nested delegate, or a variant that v0.1 does not know
    · rw [if_neg htag] at hb₁
      split at hb₁
      · exact absurd hb₁ throw_run
      · exact absurd hb₁ throw_run

theorem codec_delegate :
    Codec (DelegateAction.deserialize_reader host) DelegateAction.serialize
      (DelegateAction.Valid host) where
  reads d hd rest := by
    simp only [DelegateAction.serialize, List.append_assoc]
    refine (codec_account_id.bind_reads _ hd.sender_id _).trans ?_
    refine (codec_account_id.bind_reads _ hd.receiver_id _).trans ?_
    refine ((codec_vec codec_action).bind_reads _ hd.actions _).trans ?_
    refine (codec_u64.bind_reads _ (x := d.nonce) trivial _).trans ?_
    refine (codec_u64.bind_reads _ (x := d.max_block_height) trivial _).trans ?_
    refine (codec_public_key.bind_reads _ (x := d.public_key) trivial rest).trans ?_
    exact pure_run.2 ⟨rfl, rfl⟩
  writes b d rest hb := by
    obtain ⟨sender_id, b₁, hsender, rfl, hb₁⟩ := codec_account_id.bind_writes hb
    obtain ⟨receiver_id, b₂, hreceiver, rfl, hb₂⟩ := codec_account_id.bind_writes hb₁
    obtain ⟨actions, b₃, hactions, rfl, hb₃⟩ := (codec_vec codec_action).bind_writes hb₂
    obtain ⟨nonce, b₄, -, rfl, hb₄⟩ := codec_u64.bind_writes hb₃
    obtain ⟨max_block_height, b₅, -, rfl, hb₅⟩ := codec_u64.bind_writes hb₄
    obtain ⟨public_key, b₆, -, rfl, hret⟩ := codec_public_key.bind_writes hb₅
    obtain ⟨rfl, rfl⟩ := pure_run.1 hret
    refine ⟨⟨hsender, hreceiver, hactions⟩, ?_⟩
    simp only [DelegateAction.serialize, List.append_assoc]

theorem codec_signed :
    Codec (SignedDelegateAction.deserialize_reader host) SignedDelegateAction.serialize
      (SignedDelegateAction.Valid host) where
  reads s hs rest := by
    rw [SignedDelegateAction.serialize, List.append_assoc]
    refine (codec_delegate.bind_reads _ hs _).trans ?_
    refine (codec_signature.bind_reads _ (x := s.signature) trivial rest).trans ?_
    exact pure_run.2 ⟨rfl, rfl⟩
  writes b s rest hb := by
    obtain ⟨d, b₁, hd, rfl, hb₁⟩ := codec_delegate.bind_writes hb
    obtain ⟨signature, b₂, -, rfl, hret⟩ := codec_signature.bind_writes hb₁
    obtain ⟨rfl, rfl⟩ := pure_run.1 hret
    exact ⟨hd, by rw [SignedDelegateAction.serialize, List.append_assoc]⟩

/-! ## What is signed -/

/-- The signature and its tag are the last 65 bytes. -/
theorem take_serialize (s : SignedDelegateAction) :
    s.serialize.take (s.serialize.length - 65) = s.delegate_action.serialize := by
  have hlen : s.signature.serialize.length = 65 := by
    rw [Ed25519Signature.serialize, List.length_cons, s.signature.bytes.toList_length]
  rw [SignedDelegateAction.serialize, List.length_append, hlen, Nat.add_sub_cancel, List.take_left]

/-- The domain separator of NEP-366 in front of the delegate. -/
theorem signed_message_eq (d : DelegateAction) :
    d.signed_message = [0x6E, 0x01, 0x00, 0x40] ++ d.serialize := rfl

/-- A tag that a reader accepts is the one its writer writes. -/
theorem accepted_tag {α : Type} {r : Reader α} {w : α → Bytes} {P : α → Prop} (h : Codec r w P)
    {tag tag' : UInt8} (hw : ∀ x, ∃ bs, w x = tag' :: bs) {b rest : Bytes} {x : α}
    (hb : r (tag :: b) = .ok (x, rest)) : tag = tag' := by
  obtain ⟨bs, hbs⟩ := hw x
  have heq := (h.writes _ x rest hb).2
  rw [hbs, List.cons_append] at heq
  exact (List.cons.inj heq).1

/-- **The wire format is canonical**, and the signature covers all of it but itself. -/
theorem wire_format_canonical (host : Host) :
    (∀ x : SignedDelegateAction, x.Valid host →
      SignedDelegateAction.try_from_slice host x.serialize = .ok x) ∧
    (∀ b x, SignedDelegateAction.try_from_slice host b = .ok x → x.Valid host ∧ x.serialize = b) ∧
    (∀ tag b a rest, NonDelegateAction.deserialize_reader (tag :: b) = .ok (a, rest) →
      tag = ACTION_TAG_FUNCTION_CALL) ∧
    (∀ tag b k rest, Ed25519PublicKey.deserialize_reader (tag :: b) = .ok (k, rest) → tag = 0) ∧
    (∀ tag b s rest, Ed25519Signature.deserialize_reader (tag :: b) = .ok (s, rest) → tag = 0) ∧
    (∀ b x, SignedDelegateAction.try_from_slice host b = .ok x →
      b = x.delegate_action.serialize ++ 0 :: x.signature.bytes.toList ∧
      x.signature.bytes.toList.length = 64 ∧
      x.delegate_action.signed_message = [0x6E, 0x01, 0x00, 0x40] ++ b.take (b.length - 65)) ∧
    ∀ b x b' x', SignedDelegateAction.try_from_slice host b = .ok x →
      SignedDelegateAction.try_from_slice host b' = .ok x' →
      b.take (b.length - 65) ≠ b'.take (b'.length - 65) →
      x.delegate_action.signed_message ≠ x'.delegate_action.signed_message := by
  have hmessage : ∀ b x, SignedDelegateAction.try_from_slice host b = .ok x →
      x.delegate_action.signed_message = [0x6E, 0x01, 0x00, 0x40] ++ b.take (b.length - 65) := by
    intro b x hb
    obtain ⟨-, rfl⟩ := codec_signed.decodes.1 hb
    rw [signed_message_eq, take_serialize]
  refine ⟨fun x hx => codec_signed.decodes.2 ⟨hx, rfl⟩, ?_, ?_, ?_, ?_, ?_, ?_⟩
  · intro b x hb
    obtain ⟨hx, rfl⟩ := codec_signed.decodes.1 hb
    exact ⟨hx, rfl⟩
  · intro tag b a rest
    exact accepted_tag codec_action fun ⟨fc⟩ => ⟨_, rfl⟩
  · intro tag b k rest
    exact accepted_tag codec_public_key fun _ => ⟨_, rfl⟩
  · intro tag b s rest
    exact accepted_tag codec_signature fun _ => ⟨_, rfl⟩
  · intro b x hb
    refine ⟨?_, x.signature.bytes.toList_length, hmessage b x hb⟩
    exact (codec_signed.decodes.1 hb).2
  · intro b x b' x' hb hb' hne heq
    rw [hmessage b x hb, hmessage b' x' hb', List.append_cancel_left_eq] at heq
    exact hne heq

end SequentialNear.Nep366
