/-
What `JSON.stringify` writes, sent as UTF-8.

A JavaScript string may hold halves of surrogate pairs, which UTF-8 cannot express;
`TextEncoder` replaces them. `stringify` escapes them, so that nothing of what it writes
is replaced ([`stringify_well_formed`]): the bytes are those of a text, and the text is
read back as the value ([`encode_stringify`]).

Nothing in this file names a program.
-/
import SequentialNear.JsonText

set_option autoImplicit false

namespace SequentialNear.Json

/-- `new TextEncoder().encode(s)`. -/
def encode (s : JsString) : List UInt8 := (chars s).flatMap String.utf8EncodeChar

theorem encode_utf16 (s : String) : (encode (utf16 s)).toByteArray = s.toByteArray := by
  rw [encode, chars_utf16, ← String.utf8Encode_toList, List.utf8Encode]

/-! ## Well-formed strings -/

/-- The string is the UTF-16 of a text: no half of a pair stands alone. -/
def WellFormed (s : JsString) : Prop := ∃ text, s = utf16 text

section WellFormed

variable {s s' : JsString}

theorem WellFormed.append (h : WellFormed s) (h' : WellFormed s') : WellFormed (s ++ s') := by
  obtain ⟨text, rfl⟩ := h
  obtain ⟨text', rfl⟩ := h'
  refine ⟨text ++ text', ?_⟩
  rw [utf16, utf16, utf16, String.toList_append, List.flatMap_append]

theorem well_formed_char (c : Char) : WellFormed (charUnits c) := by
  refine ⟨String.singleton c, ?_⟩
  rw [utf16, String.toList_singleton, List.flatMap_singleton]

theorem toNat_ofNat {n : Nat} (h : n.isValidChar) : (Char.ofNat n).toNat = n := by
  rw [Char.ofNat, dif_pos h]
  rfl

/-- A code unit that is no half of a pair. -/
theorem well_formed_unit {c : Nat} (hc : c < 0x10000) (hleading : leading c = false)
    (htrailing : trailing c = false) : WellFormed [c] := by
  have hvalid : c.isValidChar := by
    simp only [leading, trailing, Bool.and_eq_false_iff, decide_eq_false_iff_not] at *
    unfold Nat.isValidChar
    omega
  have hchar : charUnits (Char.ofNat c) = [c] := by
    rw [charUnits, toNat_ofNat hvalid, if_pos hc]
  exact hchar ▸ well_formed_char (Char.ofNat c)

/-- Below the surrogates every unit stands for itself. -/
theorem well_formed_plain (h : ∀ c ∈ s, c < 0xd800) : WellFormed s := by
  induction s with
  | nil => exact ⟨"", rfl⟩
  | cons c cs ih =>
    rw [List.forall_mem_cons] at h
    have hc := h.1
    have hunit : WellFormed [c] := by
      refine well_formed_unit (by omega) ?_ ?_
      · simp only [leading, Bool.and_eq_false_iff, decide_eq_false_iff_not]
        omega
      · simp only [trailing, Bool.and_eq_false_iff, decide_eq_false_iff_not]
        omega
    exact hunit.append (ih h.2)

theorem well_formed_pair {c c' : Nat} (hc : leading c = true) (hc' : trailing c' = true) :
    WellFormed [c, c'] := by
  simp only [leading, trailing, Bool.and_eq_true, decide_eq_true_eq] at hc hc'
  let value := 0x10000 + (c - 0xd800) * 0x400 + (c' - 0xdc00)
  have hvalid : value.isValidChar := by
    unfold Nat.isValidChar
    omega
  have hfirst : 0xd800 + (value - 0x10000) / 0x400 = c := by omega
  have hsecond : 0xdc00 + (value - 0x10000) % 0x400 = c' := by omega
  have hchar : charUnits (Char.ofNat value) = [c, c'] := by
    rw [charUnits, toNat_ofNat hvalid, if_neg (by omega), hfirst, hsecond]
  exact hchar ▸ well_formed_char (Char.ofNat value)

end WellFormed

/-! ## What `stringify` writes -/

theorem letter_lt {c x : Nat} (h : letter c = some x) : x < 0xd800 := by
  unfold letter at h
  split at h
  · rename_i hc
    cases h
    rcases hc with rfl | rfl <;> decide
  · split_ifs at h <;> cases h <;> decide

theorem well_formed_quoteUnit {c : Nat} (hc : c < 0x10000) : WellFormed (quoteUnit c) := by
  unfold quoteUnit
  cases hletter : letter c with
  | some x =>
    refine well_formed_plain fun u hu => ?_
    rcases List.mem_cons.1 hu with rfl | hu
    · decide
    · exact List.mem_singleton.1 hu ▸ letter_lt hletter
  | none =>
    simp only
    split
    · refine well_formed_plain fun u hu => ?_
      have hhex : ∀ k, k < 16 → hexUnit k < 0xd800 := fun k hk => by
        unfold hexUnit
        split <;> omega
      have hdigit : ∀ n, hexUnit (n % 16) < 0xd800 := fun n => hhex _ (Nat.mod_lt n (by decide))
      simp only [unicodeEscape, List.mem_cons, List.not_mem_nil, or_false] at hu
      rcases hu with rfl | rfl | rfl | rfl | rfl | rfl
      · decide
      · decide
      all_goals exact hdigit _
    · rename_i hplain
      simp only [Bool.or_eq_true, not_or, Bool.not_eq_true] at hplain
      exact well_formed_unit hc hplain.1.2 hplain.2

theorem well_formed_quoteUnits {cs : JsString} (hcs : ∀ c ∈ cs, c < 0x10000) :
    WellFormed (quoteUnits cs) := by
  induction cs using quoteUnits.induct with
  | case1 => exact ⟨"", rfl⟩
  | case2 c => exact well_formed_quoteUnit (hcs c (List.mem_singleton_self c))
  | case3 c c' cs hpair ih =>
    rw [List.forall_mem_cons, List.forall_mem_cons] at hcs
    rw [quoteUnits, if_pos hpair]
    rw [Bool.and_eq_true] at hpair
    exact (well_formed_pair hpair.1 hpair.2).append (ih hcs.2.2)
  | case4 c c' cs hpair ih =>
    rw [List.forall_mem_cons] at hcs
    rw [quoteUnits, if_neg hpair]
    exact (well_formed_quoteUnit hcs.1).append (ih hcs.2)

theorem well_formed_quoteString {s : JsString} (hs : ∀ c ∈ s, c < 0x10000) :
    WellFormed (quoteString s) := by
  have hquote : WellFormed [quote] := ⟨"\"", rfl⟩
  exact (hquote.append (well_formed_quoteUnits hs)).append hquote

/-- A list between its brackets, with commas. -/
theorem well_formed_list {texts : List JsString} {first last : Nat}
    (hfirst : WellFormed [first]) (hlast : WellFormed [last]) (h : ∀ t ∈ texts, WellFormed t) :
    WellFormed (first :: [comma].intercalate texts ++ [last]) := by
  have hcomma : WellFormed [comma] := ⟨",", rfl⟩
  have hinner : WellFormed ([comma].intercalate texts) := by
    cases texts with
    | nil => exact ⟨"", rfl⟩
    | cons x xs =>
      rw [List.forall_mem_cons] at h
      rw [intercalate_cons_eq]
      refine h.1.append ?_
      have hrest := h.2
      induction xs with
      | nil => exact ⟨"", rfl⟩
      | cons y ys ih =>
        rw [List.forall_mem_cons] at hrest
        rw [List.flatMap_cons]
        exact (hcomma.append hrest.1).append (ih ⟨h.1, hrest.2⟩ hrest.2)
  exact (hfirst.append hinner).append hlast

variable {numeral : ℚ → JsString} {v : Json}

theorem stringify_well_formed (hnumeral : ∀ q, WellFormed (numeral q)) (h : Legible numeral v) :
    WellFormed (stringify numeral v) := by
  induction h with
  | null => exact ⟨"null", rfl⟩
  | bool b =>
    cases b
    · exact ⟨"false", rfl⟩
    · exact ⟨"true", rfl⟩
  | number h =>
    rw [stringify]
    exact hnumeral _
  | string h =>
    rw [stringify]
    exact well_formed_quoteString h
  | array h ih =>
    rw [stringify, elementTexts_eq]
    refine well_formed_list ⟨"[", rfl⟩ ⟨"]", rfl⟩ fun t ht => ?_
    obtain ⟨u, hu, rfl⟩ := List.mem_map.1 ht
    exact ih u hu
  | object hnames h ih =>
    have hcolon : WellFormed [colon] := ⟨":", rfl⟩
    rw [stringify, memberTexts_eq]
    refine well_formed_list ⟨"\x7b", rfl⟩ ⟨"\x7d", rfl⟩ fun t ht => ?_
    obtain ⟨m, hm, rfl⟩ := List.mem_map.1 ht
    exact (well_formed_quoteString (hnames m hm)).append (hcolon.append (ih m hm))

/-- **A value sent as UTF-8 is read back.** -/
theorem encode_stringify (hnumeral : ∀ q, WellFormed (numeral q)) (h : Legible numeral v) :
    ∃ text : String, (encode (stringify numeral v)).toByteArray = text.toByteArray ∧
      parse (utf16 text) = some v := by
  obtain ⟨text, htext⟩ := stringify_well_formed hnumeral h
  exact ⟨text, htext ▸ encode_utf16 text, htext ▸ parse_stringify h⟩

end SequentialNear.Json
