/-
`JSON.stringify`, and that `JSON.parse` reads back what it wrote.

The texts are those of ECMA-262: no blanks, two-character escapes where there is one,
`\u` escapes for the other control characters and for surrogates that lack their other
half. How a number that is no integer is written (`Number::toString`) is a parameter;
what is asked of it is that the parser reads the number back.

[`parse_stringify`] is the round trip, and [`stringify_injective`] what comparing two
texts is good for. Nothing in this file names a program.
-/
import SequentialNear.JsonSpec
import SequentialNear.Decimal

set_option autoImplicit false

namespace SequentialNear.Json

open JsString (decimal)

/-! ## Writing -/

/-- The code unit of a hexadecimal digit. -/
def hexUnit (k : Nat) : Nat := if k < 10 then 0x30 + k else 0x57 + k

/-- `\u` and four digits. -/
def unicodeEscape (c : Nat) : JsString :=
  [backslash, 0x75, hexUnit (c / 0x1000 % 16), hexUnit (c / 0x100 % 16), hexUnit (c / 0x10 % 16),
    hexUnit (c % 16)]

/-- What stands after the backslash of a two-character escape. -/
def letter (c : Nat) : Option Nat :=
  if c = quote ∨ c = backslash then some c
  else if c = 0x08 then some 0x62
  else if c = 0x0c then some 0x66
  else if c = 0x0a then some 0x6e
  else if c = 0x0d then some 0x72
  else if c = 0x09 then some 0x74
  else none

def leading (c : Nat) : Bool := 0xd800 ≤ c && c < 0xdc00
def trailing (c : Nat) : Bool := 0xdc00 ≤ c && c < 0xe000

/-- A code unit that is no half of a pair. -/
def quoteUnit (c : Nat) : JsString :=
  match letter c with
  | some x => [backslash, x]
  | none => if c < 0x20 || leading c || trailing c then unicodeEscape c else [c]

def quoteUnits : JsString → JsString
  | [] => []
  | [c] => quoteUnit c
  | c :: c' :: cs =>
    if leading c && trailing c' then c :: c' :: quoteUnits cs
    else quoteUnit c ++ quoteUnits (c' :: cs)

/-- `QuoteJSONString`. -/
def quoteString (s : JsString) : JsString := quote :: quoteUnits s ++ [quote]

section Stringify

variable (numeral : ℚ → JsString)

mutual

/-- `JSON.stringify`; the members of an object come in the order of the list. -/
def stringify : Json → JsString
  | .null => Word.null.text
  | .bool b => (if b then Word.true else Word.false).text
  | .number (.finite q) => numeral q
  | .number (.infinite _) => Word.null.text
  | .string s => quoteString s
  | .array elements => lbracket :: [comma].intercalate (elementTexts elements) ++ [rbracket]
  | .object members => lbrace :: [comma].intercalate (memberTexts members) ++ [rbrace]

def elementTexts : List Json → List JsString
  | [] => []
  | v :: vs => stringify v :: elementTexts vs

def memberTexts : List (JsString × Json) → List JsString
  | [] => []
  | (name, v) :: ms => (quoteString name ++ colon :: stringify v) :: memberTexts ms

end

theorem elementTexts_eq (vs : List Json) :
    elementTexts numeral vs = vs.map (stringify numeral) := by
  induction vs with
  | nil => rw [elementTexts, List.map_nil]
  | cons v vs ih => rw [elementTexts, ih, List.map_cons]

theorem memberTexts_eq (ms : List (JsString × Json)) : memberTexts numeral ms =
    ms.map fun m => quoteString m.1 ++ colon :: stringify numeral m.2 := by
  induction ms with
  | nil => rw [memberTexts, List.map_nil]
  | cons m ms ih => rw [memberTexts, ih, List.map_cons]

end Stringify

/-! ## Strings are read back -/

theorem hexDigit_hexUnit {k : Nat} (hk : k < 16) : hexDigit (hexUnit k) = some k := by
  interval_cases k <;> rfl

theorem escaped_letter {c x : Nat} (h : letter c = some x) : escaped x = some c ∧ x ≠ 0x75 := by
  unfold letter at h
  split at h
  · rename_i hc
    cases h
    rcases hc with rfl | rfl <;> exact ⟨rfl, by decide⟩
  · split_ifs at h with h1 h2 h3 h4 h5 <;> cases h
    · exact h1 ▸ ⟨rfl, by decide⟩
    · exact h2 ▸ ⟨rfl, by decide⟩
    · exact h3 ▸ ⟨rfl, by decide⟩
    · exact h4 ▸ ⟨rfl, by decide⟩
    · exact h5 ▸ ⟨rfl, by decide⟩

section Strings

variable {frames : List Frame} {t : Target} {read : JsString} {c : Nat}

theorem run_unicodeEscape (hc : c < 0x10000) :
    run ⟨frames, .string t read⟩ (unicodeEscape c) = some ⟨frames, .string t (read ++ [c])⟩ := by
  have hval : 16 * (16 * (16 * (16 * 0 + c / 0x1000 % 16) + c / 0x100 % 16) + c / 0x10 % 16) +
      c % 16 = c := by omega
  have hdigit : ∀ n, hexDigit (hexUnit (n % 16)) = some (n % 16) :=
    fun n => hexDigit_hexUnit (Nat.mod_lt n (by decide))
  have hopen : run ⟨frames, .string t read⟩ [backslash, 0x75] =
      some ⟨frames, .hex t read 0 4⟩ := rfl
  refine (run_append_of hopen _).trans ?_
  simp only [run_cons, run_nil, step, hdigit, Option.map_some, Option.bind_some]
  simp only [show ¬ (4 : Nat) ≤ 1 by decide, show ¬ (4 - 1 : Nat) ≤ 1 by decide,
    show ¬ (4 - 1 - 1 : Nat) ≤ 1 by decide, show (4 - 1 - 1 - 1 : Nat) ≤ 1 by decide, if_false,
    if_true, hval, Option.bind_some]

theorem run_quoteUnit (hc : c < 0x10000) :
    run ⟨frames, .string t read⟩ (quoteUnit c) = some ⟨frames, .string t (read ++ [c])⟩ := by
  unfold quoteUnit
  cases hletter : letter c with
  | some x =>
    obtain ⟨hx, hne⟩ := escaped_letter hletter
    have hopen : run ⟨frames, .string t read⟩ [backslash] = some ⟨frames, .escape t read⟩ := rfl
    refine (run_append_of hopen [x]).trans ?_
    simp only [run_cons, run_nil, step, if_neg hne, hx, Option.map_some, Option.bind_some]
  | none =>
    simp only
    split
    · exact run_unicodeEscape hc
    · rename_i hplain
      have hpl : plain c = true := by
        simp only [Bool.or_eq_true, decide_eq_true_eq, not_or] at hplain
        have hno : ¬ (c = quote ∨ c = backslash) := by
          intro hor
          rw [letter, if_pos hor] at hletter
          cases hletter
        simp only [plain, Bool.and_eq_true, decide_eq_true_eq]
        exact ⟨⟨fun h => hno (.inl h), fun h => hno (.inr h)⟩, Nat.not_lt.1 hplain.1.1⟩
      exact run_plain fun u hu => List.mem_singleton.1 hu ▸ hpl

theorem run_quoteUnits {cs : JsString} (hcs : ∀ c ∈ cs, c < 0x10000) :
    run ⟨frames, .string t read⟩ (quoteUnits cs) = some ⟨frames, .string t (read ++ cs)⟩ := by
  induction cs using quoteUnits.induct generalizing read with
  | case1 => rw [quoteUnits, run_nil, List.append_nil]
  | case2 c => exact run_quoteUnit (hcs c (List.mem_singleton_self c))
  | case3 c c' cs hpair ih =>
    have hpl : ∀ u ∈ [c, c'], plain u = true := by
      simp only [leading, trailing, Bool.and_eq_true, decide_eq_true_eq] at hpair
      intro u hu
      have hge : 0xd800 ≤ u := by
        rcases List.mem_cons.1 hu with rfl | hu
        · exact hpair.1.1
        · exact List.mem_singleton.1 hu ▸ le_trans (by decide) hpair.2.1
      simp only [plain, quote, backslash, Bool.and_eq_true, decide_eq_true_eq]
      omega
    have hrest : ∀ u ∈ cs, u < 0x10000 :=
      fun u hu => hcs u (List.mem_cons_of_mem _ (List.mem_cons_of_mem _ hu))
    rw [quoteUnits, if_pos hpair]
    refine (run_append_of (run_plain hpl) (quoteUnits cs)).trans ?_
    rw [ih hrest, List.append_assoc]
    rfl
  | case4 c c' cs hpair ih =>
    rw [List.forall_mem_cons] at hcs
    rw [quoteUnits, if_neg hpair, run_append_of (run_quoteUnit hcs.1), ih hcs.2, List.append_assoc]
    rfl

/-- A quoted string is read as the string, whatever it is for. -/
theorem run_quoteString {mode : Mode} {cs : JsString} (hcs : ∀ c ∈ cs, c < 0x10000)
    (hquote : step ⟨frames, mode⟩ quote = some ⟨frames, .string t []⟩) :
    run ⟨frames, mode⟩ (quoteString cs) = some ⟨frames, t.close cs⟩ := by
  rw [quoteString, List.cons_append, run_cons, hquote, Option.bind_some,
    run_append_of (run_quoteUnits hcs), List.nil_append]
  rfl

end Strings

/-! ## UTF-16 -/

theorem char_range (c : Char) : c.toNat < 0xd800 ∨ 0xdfff < c.toNat ∧ c.toNat < 0x110000 := c.valid

theorem charUnits_lt {c : Char} : ∀ u ∈ charUnits c, u < 0x10000 := by
  have hc := char_range c
  intro u hu
  unfold charUnits at hu
  split at hu
  · rw [List.mem_singleton] at hu
    omega
  · rcases List.mem_cons.1 hu with rfl | hu
    · omega
    · rw [List.mem_singleton] at hu
      omega

theorem utf16_lt {s : String} : ∀ u ∈ utf16 s, u < 0x10000 := by
  intro u hu
  obtain ⟨c, -, hc⟩ := List.mem_flatMap.1 hu
  exact charUnits_lt u hc

/-- The scalar value of a code unit; half a pair by itself is replaced. -/
def unitChar (c : Nat) : Char := if c.isValidChar then Char.ofNat c else Char.ofNat 0xfffd

/-- The scalar values of a string, with U+FFFD for every half of a pair that stands alone. -/
def chars : JsString → List Char
  | [] => []
  | [c] => [unitChar c]
  | c :: c' :: cs =>
    if leading c && trailing c' then
      Char.ofNat (0x10000 + (c - 0xd800) * 0x400 + (c' - 0xdc00)) :: chars cs
    else unitChar c :: chars (c' :: cs)

theorem unitChar_toNat (c : Char) : unitChar c.toNat = c :=
  (if_pos c.valid).trans (Char.ofNat_toNat c)

theorem chars_cons {c : Nat} (hc : leading c = false) (cs : JsString) :
    chars (c :: cs) = unitChar c :: chars cs := by
  cases cs with
  | nil => rw [chars, chars]
  | cons c' cs => rw [chars, hc, Bool.false_and, if_neg Bool.false_ne_true]

theorem chars_charUnits (c : Char) (cs : JsString) : chars (charUnits c ++ cs) = c :: chars cs := by
  have hc := char_range c
  unfold charUnits
  split
  · -- a unit by itself is no first half
    have hleading : leading c.toNat = false := by
      simp only [leading, Bool.and_eq_false_iff, decide_eq_false_iff_not]
      omega
    rw [List.singleton_append, chars_cons hleading, unitChar_toNat]
  · let rest := c.toNat - 0x10000
    have hpair : (leading (0xd800 + rest / 0x400) && trailing (0xdc00 + rest % 0x400)) = true := by
      simp only [leading, trailing, Bool.and_eq_true, decide_eq_true_eq]
      omega
    have hvalue : 0x10000 + (0xd800 + rest / 0x400 - 0xd800) * 0x400 +
        (0xdc00 + rest % 0x400 - 0xdc00) = c.toNat := by omega
    rw [List.cons_append, List.singleton_append, chars, if_pos hpair, hvalue, Char.ofNat_toNat]

theorem chars_utf16 (s : String) : chars (utf16 s) = s.toList := by
  rw [utf16]
  induction s.toList with
  | nil => rfl
  | cons c cs ih => rw [List.flatMap_cons, chars_charUnits, ih]

theorem utf16_injective : Function.Injective utf16 := by
  intro s s' h
  exact String.toList_inj.1 ((chars_utf16 s).symm.trans ((congrArg chars h).trans (chars_utf16 s')))

/-! ## Values are read back -/

/-- The text stands for `v` wherever a value is expected. A number is complete only when
the code unit after it has been seen, or the end of the text. -/
structure Text (text : JsString) (v : Json) : Prop where
  read : ∀ frames, ∃ t, run ⟨frames, .value⟩ text = some t ∧
    (∀ c, c = comma ∨ c = rbrace ∨ c = rbracket → step t c = end_value frames v c) ∧
    (frames = [] → finish t = some v)

/-- A text that ends with its value complete. -/
theorem Text.of_ended {text : JsString} {v : Json}
    (h : ∀ frames, run ⟨frames, .value⟩ text = some ⟨frames, .ended v⟩) : Text text v where
  read frames := ⟨_, h frames, fun _ _ => rfl, fun hframes => by rw [hframes]; rfl⟩

theorem Text.parse {text : JsString} {v : Json} (h : Text text v) : parse text = some v := by
  obtain ⟨t, hrun, -, hfinish⟩ := h.read []
  rw [Json.parse, hrun, Option.bind_some, hfinish rfl]

theorem text_word (w : Word) : Text w.text w.value :=
  .of_ended fun _ => by cases w <;> rfl

theorem text_string {s : JsString} (hs : ∀ c ∈ s, c < 0x10000) : Text (quoteString s) (.string s) :=
  .of_ended fun _ => run_quoteString (t := .value) hs rfl

theorem text_nat {n : Nat} (hn : n < 2 ^ 53) : Text (decimal n) (.number (.finite n)) where
  read frames := by
    rw [decimal, utf16_toString]
    refine ⟨_, run_digits frames n, fun c hc => ?_, fun hframes => ?_⟩
    · have hdigit : isDigit c = false := by rcases hc with rfl | rfl | rfl <;> rfl
      have hnext : (Literal.ofNat n).next c = none := by
        by_cases hzero : n = 0 <;> rcases hc with rfl | rfl | rfl <;>
          simp [Literal.ofNat, Literal.next, Literal.next_exp, hzero, hdigit]
      simp only [step, hnext, Literal.complete_ofNat, Literal.value_ofNat, if_true, toDouble_nat hn]
    · rw [hframes]
      simp only [finish, Literal.complete_ofNat, Literal.value_ofNat, if_true, toDouble_nat hn]

section Containers

variable {frames : List Frame} {text : JsString} {v : Json} {t : State}

/-- The first element of an array is read as any other. -/
theorem run_first_value (h : run ⟨.array [] :: frames, .value⟩ text = some t)
    (ht : t.mode ≠ .value) : run ⟨frames, .first_value⟩ text = some t := by
  induction text with
  | nil =>
    rw [run_nil, Option.some.injEq] at h
    exact absurd (h ▸ rfl) ht
  | cons c cs ih =>
    rw [run_cons] at h ⊢
    cases hspace : isSpace c with
    | true =>
      simp only [step, hspace, if_true, Option.bind_some] at h ⊢
      exact ih h
    | false =>
      have hne : c ≠ rbracket := by
        rintro rfl
        cases h
      simp only [step, hspace, Bool.false_eq_true, if_false] at h ⊢
      rwa [if_neg hne]

theorem Text.run_first (h : Text text v) (frames : List Frame) : ∃ t,
    run ⟨frames, .first_value⟩ text = some t ∧
    ∀ c, c = comma ∨ c = rbrace ∨ c = rbracket → step t c = end_value (.array [] :: frames) v c := by
  obtain ⟨t, hrun, hsep, -⟩ := h.read (.array [] :: frames)
  refine ⟨t, run_first_value hrun fun hmode => ?_, hsep⟩
  -- a state that still expects a value has no use for a comma
  have hcomma := hsep comma (.inl rfl)
  obtain ⟨frames', mode⟩ := t
  subst hmode
  cases hcomma

variable {f : Json → JsString}

/-- The elements after the first one. -/
theorem run_rest {vs : List Json} (hvs : ∀ u ∈ vs, Text (f u) u) {before : List Json}
    (hsep : ∀ c, c = comma ∨ c = rbrace ∨ c = rbracket →
      step t c = end_value (.array before :: frames) v c) :
    run t ((vs.flatMap fun u => comma :: f u) ++ [rbracket]) =
      some ⟨frames, .ended (.array (before ++ v :: vs))⟩ := by
  induction vs generalizing before v t with
  | nil => rw [List.flatMap_nil, List.nil_append, run_cons, hsep _ (.inr (.inr rfl))]; rfl
  | cons u us ih =>
    rw [List.forall_mem_cons] at hvs
    obtain ⟨t', hrun, hsep', -⟩ := hvs.1.read (.array (before ++ [v]) :: frames)
    have hcomma : step t comma = some ⟨.array (before ++ [v]) :: frames, .value⟩ :=
      hsep comma (.inl rfl)
    rw [List.flatMap_cons, List.cons_append, List.cons_append, run_cons, hcomma, Option.bind_some,
      List.append_assoc, run_append_of hrun, ih hvs.2 hsep', List.append_assoc]
    rfl

theorem intercalate_cons_eq (x : JsString) (xs : List JsString) :
    [comma].intercalate (x :: xs) = x ++ xs.flatMap fun y => comma :: y := by
  induction xs generalizing x with
  | nil => rw [List.intercalate_singleton, List.flatMap_nil, List.append_nil]
  | cons y ys ih =>
    rw [List.intercalate_cons_cons, ih, List.flatMap_cons, List.append_assoc]
    rfl

theorem text_array {vs : List Json} (hvs : ∀ u ∈ vs, Text (f u) u) :
    Text (lbracket :: [comma].intercalate (vs.map f) ++ [rbracket]) (.array vs) := by
  refine .of_ended fun frames => ?_
  cases vs with
  | nil => rfl
  | cons v vs =>
    rw [List.forall_mem_cons] at hvs
    obtain ⟨t, hrun, hsep⟩ := hvs.1.run_first frames
    have hopen : step ⟨frames, .value⟩ lbracket = some ⟨frames, .first_value⟩ := rfl
    rw [List.map_cons, intercalate_cons_eq, List.flatMap_map, List.cons_append, List.append_assoc,
      run_cons, hopen, Option.bind_some, run_append_of hrun]
    exact run_rest hvs.2 hsep

/-- A member, from where its name is expected. -/
theorem run_member (frames : List Frame) (before : List (JsString × Json)) (mode : Mode)
    {name : JsString}
    (hname : ∀ c ∈ name, c < 0x10000)
    (hmode : step ⟨frames, mode⟩ quote = some ⟨frames, .string (.name before) []⟩)
    (hv : Text text v) :
    ∃ t, run ⟨frames, mode⟩ (quoteString name ++ colon :: text) = some t ∧
      ∀ c, c = comma ∨ c = rbrace ∨ c = rbracket →
        step t c = end_value (.object before name :: frames) v c := by
  obtain ⟨t, hrun, hsep, -⟩ := hv.read (.object before name :: frames)
  refine ⟨t, ?_, hsep⟩
  rw [run_append_of (run_quoteString hname hmode)]
  exact hrun

/-- The members after the first one. -/
theorem run_rest_members {ms : List (JsString × Json)}
    (hnames : ∀ m ∈ ms, ∀ c ∈ m.1, c < 0x10000) (hms : ∀ m ∈ ms, Text (f m.2) m.2)
    {before : List (JsString × Json)} {name : JsString}
    (hsep : ∀ c, c = comma ∨ c = rbrace ∨ c = rbracket →
      step t c = end_value (.object before name :: frames) v c) :
    run t ((ms.flatMap fun m => comma :: (quoteString m.1 ++ colon :: f m.2)) ++ [rbrace]) =
      some ⟨frames, .ended (.object (before ++ (name, v) :: ms))⟩ := by
  induction ms generalizing before name v t with
  | nil => rw [List.flatMap_nil, List.nil_append, run_cons, hsep _ (.inr (.inl rfl))]; rfl
  | cons m ms ih =>
    rw [List.forall_mem_cons] at hms hnames
    have hcomma : step t comma = some ⟨frames, .name (before ++ [(name, v)])⟩ :=
      hsep comma (.inl rfl)
    obtain ⟨t', hrun, hsep'⟩ := run_member frames (before ++ [(name, v)]) (.name _) hnames.1
      rfl hms.1
    rw [List.flatMap_cons, List.cons_append, List.cons_append, run_cons, hcomma, Option.bind_some,
      List.append_assoc, run_append_of hrun, ih hnames.2 hms.2 hsep', List.append_assoc]
    rfl

theorem text_object {ms : List (JsString × Json)} (hnames : ∀ m ∈ ms, ∀ c ∈ m.1, c < 0x10000)
    (hms : ∀ m ∈ ms, Text (f m.2) m.2) :
    Text (lbrace :: [comma].intercalate (ms.map fun m => quoteString m.1 ++ colon :: f m.2) ++
      [rbrace]) (.object ms) := by
  refine .of_ended fun frames => ?_
  cases ms with
  | nil => rfl
  | cons m ms =>
    rw [List.forall_mem_cons] at hms hnames
    obtain ⟨t, hrun, hsep⟩ := run_member frames [] .first_name hnames.1 rfl hms.1
    have hopen : step ⟨frames, .value⟩ lbrace = some ⟨frames, .first_name⟩ := rfl
    rw [List.map_cons, intercalate_cons_eq, List.flatMap_map, List.cons_append, List.append_assoc,
      run_cons, hopen, Option.bind_some, run_append_of hrun]
    exact run_rest_members hnames.2 hms.2 hsep

end Containers

/-! ## The round trip -/

/-- A value that `stringify` writes without loss: its strings are strings of code units,
and its numbers are finite and legible as `numeral` writes them. -/
inductive Legible (numeral : ℚ → JsString) : Json → Prop
  | null : Legible numeral .null
  | bool (b : Bool) : Legible numeral (.bool b)
  | number {q : ℚ} (h : Text (numeral q) (.number (.finite q))) :
      Legible numeral (.number (.finite q))
  | string {s : JsString} (h : ∀ c ∈ s, c < 0x10000) : Legible numeral (.string s)
  | array {vs : List Json} (h : ∀ v ∈ vs, Legible numeral v) : Legible numeral (.array vs)
  | object {ms : List (JsString × Json)} (hnames : ∀ m ∈ ms, ∀ c ∈ m.1, c < 0x10000)
      (h : ∀ m ∈ ms, Legible numeral m.2) : Legible numeral (.object ms)

variable {numeral : ℚ → JsString} {v w : Json}

theorem Legible.text (h : Legible numeral v) : Text (stringify numeral v) v := by
  induction h with
  | null => exact text_word .null
  | bool b =>
    rw [stringify]
    cases b
    · exact text_word .false
    · exact text_word .true
  | number h =>
    rw [stringify]
    exact h
  | string h =>
    rw [stringify]
    exact text_string h
  | array h ih =>
    rw [stringify, elementTexts_eq]
    exact text_array ih
  | object hnames h ih =>
    rw [stringify, memberTexts_eq]
    exact text_object hnames ih

/-- **`JSON.parse` reads back what `JSON.stringify` writes.** -/
theorem parse_stringify (h : Legible numeral v) : parse (stringify numeral v) = some v :=
  h.text.parse

/-- **Equal texts are texts of equal values.** -/
theorem stringify_injective (hv : Legible numeral v) (hw : Legible numeral w)
    (h : stringify numeral v = stringify numeral w) : v = w := by
  have hparse := parse_stringify hv
  rw [h, parse_stringify hw, Option.some.injEq] at hparse
  exact hparse.symm

end SequentialNear.Json
