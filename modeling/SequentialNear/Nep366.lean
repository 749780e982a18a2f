/-
`contracts/gate/src/nep366.rs`: the NEP-366 wire types, their codecs, and the
signature check.

What the module takes from outside the repository is one record, [`Host`]: the
two cryptographic host functions, the limit on what a receipt may log, and the
account-id grammar that `AccountId`'s borsh decoder enforces. Nothing is assumed
of them here.
-/
import SequentialNear.Borsh

set_option autoImplicit false

namespace SequentialNear.Nep366

open Borsh

/-- The host functions the gate calls, and `AccountId`'s validity check. -/
structure Host where
  /-- `env::sha256`. -/
  sha256 : Bytes → Bytes
  /-- `env::ed25519_verify`: signature, message, public key. -/
  ed25519_verify : Bytes → Bytes → Bytes → Bool
  /-- Which strings are account ids. -/
  is_valid_account_id : String → Bool
  /-- `ParseAccountError`, for a string that is not one. -/
  parse_account_error : String → String
  /-- The most bytes that `env::log_str` lets a receipt log. -/
  max_total_log_length : Nat

structure AccountId where
  id : String
deriving DecidableEq, Repr

/-- `MIN_ON_CHAIN_DISCRIMINANT + 366`. -/
def NEP_366_DELEGATE_DISCRIMINANT : U32 := ⟨2 ^ 30 + 366, by decide⟩

def ACTION_TAG_FUNCTION_CALL : UInt8 := 2
def ACTION_TAG_DELEGATE : UInt8 := 8

structure Ed25519PublicKey where
  bytes : List.Vector UInt8 32
deriving DecidableEq

structure Ed25519Signature where
  bytes : List.Vector UInt8 64
deriving DecidableEq

structure FunctionCallAction where
  method_name : String
  args : Bytes
  gas : U64
  deposit : U128
deriving DecidableEq

/-- v0.1 accepts only the `FunctionCall` variant. -/
inductive NonDelegateAction
  | FunctionCall (fc : FunctionCallAction)
deriving DecidableEq

structure DelegateAction where
  sender_id : AccountId
  receiver_id : AccountId
  actions : List NonDelegateAction
  nonce : U64
  max_block_height : U64
  public_key : Ed25519PublicKey
deriving DecidableEq

structure SignedDelegateAction where
  delegate_action : DelegateAction
  signature : Ed25519Signature
deriving DecidableEq

/-! ## `BorshSerialize` -/

def AccountId.serialize (a : AccountId) : Bytes := write_string a.id

/-- The tag of both ed25519 variants, key and signature, is `0`. -/
def Ed25519PublicKey.serialize (k : Ed25519PublicKey) : Bytes := 0 :: k.bytes.toList

def Ed25519Signature.serialize (s : Ed25519Signature) : Bytes := 0 :: s.bytes.toList

def FunctionCallAction.serialize (fc : FunctionCallAction) : Bytes :=
  write_string fc.method_name ++ write_vec (fun b => [b]) fc.args
    ++ write_u64 fc.gas ++ write_u128 fc.deposit

def NonDelegateAction.serialize : NonDelegateAction → Bytes
  | .FunctionCall fc => ACTION_TAG_FUNCTION_CALL :: fc.serialize

def DelegateAction.serialize (d : DelegateAction) : Bytes :=
  d.sender_id.serialize ++ d.receiver_id.serialize
    ++ write_vec NonDelegateAction.serialize d.actions
    ++ write_u64 d.nonce ++ write_u64 d.max_block_height ++ d.public_key.serialize

def SignedDelegateAction.serialize (s : SignedDelegateAction) : Bytes :=
  s.delegate_action.serialize ++ s.signature.serialize

/-! ## `BorshDeserialize` -/

section Deserialize

variable (host : Host)

/-- `AccountId` is a borsh string that is validated on decoding. -/
def AccountId.deserialize_reader : Reader AccountId := do
  let s ← read_string
  if host.is_valid_account_id s then return ⟨s⟩
  else throw ("invalid value: \"" ++ s ++ "\", " ++ host.parse_account_error s)

def Ed25519PublicKey.deserialize_reader : Reader Ed25519PublicKey := do
  let tag ← read_u8
  if tag ≠ 0 then
    throw ("expected ed25519 public key (tag 0), got tag " ++ toString tag)
  let bytes ← read_exact 32
  return ⟨bytes⟩

def Ed25519Signature.deserialize_reader : Reader Ed25519Signature := do
  let tag ← read_u8
  if tag ≠ 0 then
    throw ("expected ed25519 signature (tag 0), got tag " ++ toString tag)
  let bytes ← read_exact 64
  return ⟨bytes⟩

def FunctionCallAction.deserialize_reader : Reader FunctionCallAction := do
  let method_name ← read_string
  let args ← read_vec read_u8
  let gas ← read_u64
  let deposit ← read_u128
  return { method_name, args, gas, deposit }

def NonDelegateAction.deserialize_reader : Reader NonDelegateAction := do
  let tag ← read_u8
  if tag = ACTION_TAG_FUNCTION_CALL then
    let fc ← FunctionCallAction.deserialize_reader
    return .FunctionCall fc
  else if tag = ACTION_TAG_DELEGATE then
    throw "nested DelegateAction forbidden (NEP-366)"
  else
    throw ("action variant " ++ toString tag ++
      " not supported in v0.1 (only FunctionCall)")

def DelegateAction.deserialize_reader : Reader DelegateAction := do
  let sender_id ← AccountId.deserialize_reader host
  let receiver_id ← AccountId.deserialize_reader host
  let actions ← read_vec NonDelegateAction.deserialize_reader
  let nonce ← read_u64
  let max_block_height ← read_u64
  let public_key ← Ed25519PublicKey.deserialize_reader
  return { sender_id, receiver_id, actions, nonce, max_block_height, public_key }

def SignedDelegateAction.deserialize_reader : Reader SignedDelegateAction := do
  let delegate_action ← DelegateAction.deserialize_reader host
  let signature ← Ed25519Signature.deserialize_reader
  return { delegate_action, signature }

def SignedDelegateAction.try_from_slice (b : Bytes) : Except String SignedDelegateAction :=
  Borsh.try_from_slice (SignedDelegateAction.deserialize_reader host) b

end Deserialize

/-! ## Hash, signature, action count -/

/-- What `signed_message_hash` feeds to `sha256`: the discriminant, then the
re-serialised delegate. -/
def DelegateAction.signed_message (d : DelegateAction) : Bytes :=
  write_u32 NEP_366_DELEGATE_DISCRIMINANT ++ d.serialize

def DelegateAction.signed_message_hash (host : Host) (d : DelegateAction) : Bytes :=
  host.sha256 d.signed_message

/-- Exactly one action, and it must be a `FunctionCall`. -/
def DelegateAction.require_single_function_call (d : DelegateAction) :
    Except String FunctionCallAction :=
  match d.actions with
  | [.FunctionCall fc] => .ok fc
  | _ => .error "v0.1 gate requires exactly one action per delegate"

def SignedDelegateAction.verify (host : Host) (s : SignedDelegateAction) : Bool :=
  host.ed25519_verify s.signature.bytes.toList
    (s.delegate_action.signed_message_hash host)
    s.delegate_action.public_key.bytes.toList

/-- A delegate passes the action check exactly when it carries one call. -/
theorem require_single_function_call_eq_ok {d : DelegateAction} {fc : FunctionCallAction} :
    d.require_single_function_call = .ok fc ↔ d.actions = [.FunctionCall fc] := by
  unfold DelegateAction.require_single_function_call
  split
  · rename_i fc' h
    simp [h]
  · rename_i h
    constructor
    · intro h'
      cases h'
    · intro h'
      exact absurd h' (h fc)

end SequentialNear.Nep366
