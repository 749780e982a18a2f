/-
Borsh is canonical: a reader accepts what its writer writes, and nothing else.

[`Codec`] pairs a reader with a writer on the values that satisfy `P`, in both
directions: what is written is read back, with the rest of the input untouched
(`reads`), and what is read was written (`writes`). The second direction is what a
signature over a re-serialised value needs, and what a round trip of one value cannot
show. Structs are sequences of readers, so they are codecs by [`Codec.bind_reads`] and
[`Codec.bind_writes`], a field at a time. Nothing here names a wire type.
-/
import SequentialNear.Borsh
import Mathlib.Tactic.Ring

set_option autoImplicit false

namespace SequentialNear.Borsh

variable {α β : Type}

/-- `r` reads back what `w` writes of the values in `P`, and reads nothing else. -/
structure Codec (r : Reader α) (w : α → Bytes) (P : α → Prop) : Prop where
  reads : ∀ x, P x → ∀ rest, r (w x ++ rest) = .ok (x, rest)
  writes : ∀ b x rest, r b = .ok (x, rest) → P x ∧ b = w x ++ rest

/-! ## Sequencing -/

theorem bind_run (r : Reader α) (f : α → Reader β) (b : Bytes) :
    (r >>= f) b = match r b with
      | .ok (x, rest) => f x rest
      | .error e => .error e := by
  cases h : r b with
  | error e => simp only [bind, StateT.bind, h, Except.bind]
  | ok p => simp only [bind, StateT.bind, h, Except.bind]

theorem pure_run {x y : α} {b rest : Bytes} :
    (pure x : Reader α) b = .ok (y, rest) ↔ x = y ∧ b = rest := by
  constructor
  · intro h
    cases h
    exact ⟨rfl, rfl⟩
  · rintro ⟨rfl, rfl⟩
    rfl

theorem throw_run {e : String} {b rest : Bytes} {x : α} :
    (throw e : Reader α) b ≠ .ok (x, rest) := fun h => by cases h

theorem throw_bind_run {e : String} {f : α → Reader β} {b rest : Bytes} {y : β} :
    ((throw e : Reader α) >>= f) b ≠ .ok (y, rest) := fun h => by cases h

namespace Codec

variable {r : Reader α} {w : α → Bytes} {P : α → Prop}

theorem bind_reads (h : Codec r w P) (f : α → Reader β) {x : α} (hx : P x) (rest : Bytes) :
    (r >>= f) (w x ++ rest) = f x rest := by
  rw [bind_run, h.reads x hx]

theorem bind_writes (h : Codec r w P) {f : α → Reader β} {b rest : Bytes} {y : β}
    (heq : (r >>= f) b = .ok (y, rest)) :
    ∃ x b', P x ∧ b = w x ++ b' ∧ f x b' = .ok (y, rest) := by
  rw [bind_run] at heq
  cases hr : r b with
  | error e =>
    rw [hr] at heq
    cases heq
  | ok p =>
    rw [hr] at heq
    obtain ⟨hx, hb⟩ := h.writes b p.1 p.2 hr
    exact ⟨p.1, p.2, hx, hb, heq⟩

/-- The same codec on the values written as `w'` writes them. -/
theorem congr (h : Codec r w P) {w' : α → Bytes} {P' : α → Prop} (hP : ∀ x, P x ↔ P' x)
    (hw : ∀ x, P x → w x = w' x) : Codec r w' P' where
  reads x hx rest := by
    rw [← hw x ((hP x).2 hx)]
    exact h.reads x ((hP x).2 hx) rest
  writes b x rest hb := by
    obtain ⟨hx, hw'⟩ := h.writes b x rest hb
    exact ⟨(hP x).1 hx, by rw [← hw x hx]; exact hw'⟩

/-- A whole slice decodes to the value it was written from, and to that one only. -/
theorem decodes (h : Codec r w P) {b : Bytes} {x : α} :
    try_from_slice r b = .ok x ↔ P x ∧ b = w x := by
  unfold try_from_slice
  constructor
  · intro heq
    split at heq
    · cases heq
    · rename_i y hr
      cases heq
      simpa using h.writes b _ [] hr
    -- bytes left over are refused
    · cases heq
  · rintro ⟨hx, rfl⟩
    have hr := h.reads x hx []
    rw [List.append_nil] at hr
    rw [hr]

end Codec

/-! ## Integers -/

/-- The digits of a number denote it. -/
theorem fromLE_toLE {n x : Nat} (hx : x < 2 ^ (8 * n)) : fromLE (toLE n x) = x := by
  induction n generalizing x with
  | zero =>
    have : x = 0 := by simpa using hx
    rw [this]
    rfl
  | succ n ih =>
    have hdiv : x / 256 < 2 ^ (8 * n) := by
      rw [Nat.div_lt_iff_lt_mul (by decide)]
      calc x < 2 ^ (8 * (n + 1)) := hx
        _ = 2 ^ (8 * n) * 256 := by ring
    have hmod : (UInt8.ofNat (x % 256)).toNat = x % 256 := by
      simp only [UInt8.toNat_ofNat']
      omega
    simp only [toLE, fromLE, hmod, ih hdiv]
    omega

/-- A string of digits is the digits of what it denotes. -/
theorem toLE_fromLE (bs : Bytes) : toLE bs.length (fromLE bs) = bs := by
  induction bs with
  | nil => rfl
  | cons b bs ih =>
    have hb : b.toNat < 256 := b.toNat_lt
    have hmod : (b.toNat + 256 * fromLE bs) % 256 = b.toNat := by omega
    have hdiv : (b.toNat + 256 * fromLE bs) / 256 = fromLE bs := by omega
    simp only [List.length_cons, toLE, fromLE, hmod, hdiv, ih, UInt8.ofNat_toNat]

theorem codec_exact (n : Nat) :
    Codec (read_exact n) (fun bytes => bytes.toList) fun _ => True where
  reads x _ rest := by
    obtain ⟨bytes, rfl⟩ := x
    rw [List.Vector.toList_mk]
    simp [read_exact]
  writes b x rest h := by
    unfold read_exact at h
    split at h
    · cases h
      exact ⟨trivial, (List.take_append_drop n b).symm⟩
    · cases h

/-- The words of an error are no part of what is read. -/
theorem Codec.in_other_words {r : Reader α} {w : α → Bytes} {P : α → Prop} (h : Codec r w P) :
    Codec (unexpected_eof_to_unexpected_length_of_input r) w P where
  reads x hx rest := by
    rw [unexpected_eof_to_unexpected_length_of_input, h.reads x hx]
    rfl
  writes b x rest hb := by
    refine h.writes b x rest ?_
    unfold unexpected_eof_to_unexpected_length_of_input at hb
    cases hr : r b with
    | ok p =>
      rw [hr] at hb
      exact hb
    | error e =>
      rw [hr] at hb
      cases hb

theorem codec_u8 : Codec read_u8 (fun x => [x]) fun _ => True where
  reads x _ rest := rfl
  writes b x rest h := by
    obtain ⟨bytes, b', -, rfl, hret⟩ := (codec_exact 1).in_other_words.bind_writes h
    obtain ⟨rfl, rfl⟩ := pure_run.1 hret
    refine ⟨trivial, ?_⟩
    obtain ⟨bytes, hlen⟩ := bytes
    -- one byte was read, so it is the head
    obtain ⟨x, rfl⟩ := List.length_eq_one_iff.1 hlen
    rfl

theorem codec_uint (n : Nat) : Codec (read_uint n) (fun x => toLE n x) fun _ => True where
  reads x _ rest := by
    let bytes : List.Vector UInt8 n := ⟨toLE n x, toLE_length n x⟩
    refine ((codec_exact n).in_other_words.bind_reads _ (x := bytes) trivial rest).trans ?_
    exact pure_run.2 ⟨Fin.ext (fromLE_toLE x.isLt), rfl⟩
  writes b x rest h := by
    obtain ⟨bytes, b', -, rfl, hret⟩ := (codec_exact n).in_other_words.bind_writes h
    obtain ⟨rfl, rfl⟩ := pure_run.1 hret
    refine ⟨trivial, ?_⟩
    have hdigits := toLE_fromLE bytes.toList
    rw [bytes.toList_length] at hdigits
    rw [hdigits]

theorem codec_u32 : Codec read_u32 write_u32 fun _ => True := codec_uint 4
theorem codec_u64 : Codec read_u64 write_u64 fun _ => True := codec_uint 8
theorem codec_u128 : Codec read_u128 write_u128 fun _ => True := codec_uint 16

/-! ## Sequences -/

section Sequences

variable {r : Reader α} {w : α → Bytes} {P : α → Prop}

/-- A fixed number of values, one after the other. -/
theorem codec_many (h : Codec r w P) (n : Nat) :
    Codec (read_many r n) (fun xs => xs.flatMap w) fun xs => xs.length = n ∧ ∀ x ∈ xs, P x := by
  induction n with
  | zero =>
    constructor
    · rintro xs ⟨hlen, -⟩ rest
      rw [List.length_eq_zero_iff.1 hlen]
      rfl
    · intro b xs rest hb
      obtain ⟨rfl, rfl⟩ := pure_run.1 hb
      exact ⟨⟨rfl, fun _ hx => by cases hx⟩, rfl⟩
  | succ n ih =>
    constructor
    · rintro xs ⟨hlen, hall⟩ rest
      obtain ⟨x, xs, rfl⟩ := List.exists_cons_of_length_eq_add_one hlen
      rw [List.forall_mem_cons] at hall
      rw [List.flatMap_cons, List.append_assoc]
      refine (h.bind_reads _ hall.1 _).trans ?_
      refine (ih.bind_reads _ ⟨by simpa using hlen, hall.2⟩ rest).trans ?_
      exact pure_run.2 ⟨rfl, rfl⟩
    · intro b ys rest hb
      obtain ⟨x, b₁, hx, rfl, hb₁⟩ := h.bind_writes hb
      obtain ⟨xs, b₂, ⟨hlen, hall⟩, rfl, hret⟩ := ih.bind_writes hb₁
      obtain ⟨rfl, rfl⟩ := pure_run.1 hret
      refine ⟨⟨by rw [List.length_cons, hlen], List.forall_mem_cons.2 ⟨hx, hall⟩⟩, ?_⟩
      rw [List.flatMap_cons, List.append_assoc]

/-- A `Vec` carries its length, which must be a `u32`. -/
theorem codec_vec (h : Codec r w P) :
    Codec (read_vec r) (write_vec w) fun xs => xs.length < 2 ^ 32 ∧ ∀ x ∈ xs, P x where
  reads xs hxs rest := by
    let len : U32 := ⟨xs.length, hxs.1⟩
    rw [write_vec, List.append_assoc]
    refine (codec_u32.bind_reads _ (x := len) trivial _).trans ?_
    exact (codec_many h xs.length).reads xs ⟨rfl, hxs.2⟩ rest
  writes b xs rest hb := by
    obtain ⟨len, b', -, rfl, hmany⟩ := codec_u32.bind_writes hb
    obtain ⟨⟨hlen, hall⟩, rfl⟩ := (codec_many h len).writes b' xs rest hmany
    refine ⟨⟨hlen ▸ len.isLt, hall⟩, ?_⟩
    rw [write_vec, hlen, List.append_assoc]
    rfl

end Sequences

/-- A `Vec<u8>` is its length and its bytes. -/
theorem codec_bytes :
    Codec (read_vec read_u8) (fun bytes => toLE 4 bytes.length ++ bytes) fun bytes =>
      bytes.length < 2 ^ 32 := by
  refine (codec_vec codec_u8).congr (fun xs => and_iff_left fun _ _ => trivial) fun xs _ => ?_
  rw [write_vec, List.flatMap_singleton']

/-! ## Strings -/

/-- The loop of `ByteArray.toList` collects the bytes from `i` on. -/
theorem toList_loop (a : ByteArray) (n i : Nat) (acc : List UInt8) (h : a.size - i = n) :
    ByteArray.toList.loop a i acc = acc.reverse ++ a.data.toList.drop i := by
  induction n generalizing i acc with
  | zero =>
    have hle : a.data.toList.length ≤ i := by
      rw [Array.length_toList]
      exact Nat.sub_eq_zero_iff_le.1 h
    rw [ByteArray.toList.loop, if_neg (by omega), List.drop_eq_nil_of_le hle, List.append_nil]
  | succ n ih =>
    have hlt : i < a.size := by omega
    have hi : i < a.data.toList.length := by rwa [Array.length_toList]
    have hget : a.get! i = a.data.toList[i] := by
      rw [Array.getElem_toList]
      exact getElem!_pos a.data i hlt
    rw [ByteArray.toList.loop, if_pos hlt, ih (i + 1) _ (by omega), List.reverse_cons,
      List.append_assoc, hget, List.singleton_append, ← List.drop_eq_getElem_cons]

theorem byteArray_toList (a : ByteArray) : a.toList = a.data.toList :=
  toList_loop a _ 0 [] rfl

theorem byteArray_length (a : ByteArray) : a.toList.length = a.size := by
  rw [byteArray_toList, Array.length_toList]
  rfl

theorem byteArray_of_toList (a : ByteArray) : (⟨a.toList.toArray⟩ : ByteArray) = a := by
  rw [byteArray_toList]

theorem toList_of_byteArray (bytes : Bytes) : (⟨bytes.toArray⟩ : ByteArray).toList = bytes := by
  rw [byteArray_toList]

theorem fromUTF8?_eq_some {a : ByteArray} {s : String} :
    String.fromUTF8? a = some s ↔ a = s.toByteArray := by
  unfold String.fromUTF8?
  constructor
  · intro h
    split at h
    · cases h
      rfl
    · cases h
  · rintro rfl
    rw [dif_pos s.isValidUTF8]
    rfl

/-- A `String` is a `Vec<u8>` whose bytes are UTF-8. -/
theorem codec_string :
    Codec read_string write_string fun s => s.toByteArray.size < 2 ^ 32 where
  reads s hs rest := by
    have hlen : s.toByteArray.toList.length < 2 ^ 32 := by rwa [byteArray_length]
    rw [write_string, ← byteArray_length]
    refine (codec_bytes.bind_reads _ hlen rest).trans ?_
    rw [byteArray_of_toList, fromUTF8?_eq_some.2 rfl]
    rfl
  writes b s rest hb := by
    obtain ⟨bytes, b', hlen, rfl, hret⟩ := codec_bytes.bind_writes hb
    cases hs : String.fromUTF8? ⟨bytes.toArray⟩ with
    | none =>
      rw [hs] at hret
      exact absurd hret throw_run
    | some s' =>
      rw [hs] at hret
      obtain ⟨rfl, rfl⟩ := pure_run.1 hret
      -- the string is the bytes that were read
      have hbytes : s'.toByteArray.toList = bytes := by
        rw [← fromUTF8?_eq_some.1 hs, toList_of_byteArray]
      rw [write_string, ← byteArray_length, hbytes]
      exact ⟨hlen, rfl⟩

end SequentialNear.Borsh
