/-
What `JSON.parse` makes of a text with an unknown part in the middle.

The machine reads from left to right, so such a text is reasoned about by an
invariant of its states. A string literal is never longer than what has been read
since it was opened, and every escape makes it shorter ([`State.Short`]). A string that
was put between two quotation marks as it is can therefore only be read back when it
stands for itself: [`parse_with_string`], [`parse_with_special`].

Like the machine, this names no program.
-/
import SequentialNear.Json
import Mathlib.Tactic.IntervalCases
import Mathlib.Tactic.NormNum
import Mathlib.Tactic.Positivity

set_option autoImplicit false

namespace SequentialNear

/-! ## Numbers of integers -/

theorem roundEven_int (z : ℤ) : roundEven z = z := by
  simp only [roundEven]
  rw [Int.floor_intCast, sub_self, if_pos (by norm_num)]

/-- Every natural number of at most 53 binary digits is a double. -/
theorem toDouble_nat {n : ℕ} (hn : n < 2 ^ 53) : toDouble n = .finite n := by
  unfold toDouble
  by_cases hzero : n = 0
  · rw [hzero]
    rfl
  · have hne : (n : ℚ) ≠ 0 := Nat.cast_ne_zero.2 hzero
    -- the last binary digit kept is `2 ^ (-m)`, at most 1
    obtain ⟨m, hm⟩ : ∃ m : ℕ, max (Int.log 2 |(n : ℚ)| - 52) (-1074) = -(m : ℤ) := by
      have hlog : Nat.log 2 n < 53 := Nat.log_lt_of_lt_pow hzero hn
      rw [Nat.abs_cast, Int.log_natCast]
      exact ⟨52 - Nat.log 2 n, by omega⟩
    have hscaled : (n : ℚ) / 2 ^ (-(m : ℤ)) = ((n * 2 ^ m : ℕ) : ℤ) := by
      push_cast
      rw [zpow_neg, zpow_natCast, div_inv_eq_mul]
    have hback : (((n * 2 ^ m : ℕ) : ℤ) : ℚ) * 2 ^ (-(m : ℤ)) = n := by
      push_cast
      rw [zpow_neg, zpow_natCast, mul_assoc, mul_inv_cancel₀ (by positivity), mul_one]
    have hsmall : ¬ (2 : ℚ) ^ 1024 ≤ |(n : ℚ)| := by
      rw [Nat.abs_cast, not_le]
      exact_mod_cast hn.trans (Nat.pow_lt_pow_right (by decide) (by decide))
    simp only [hne, if_false, hm]
    rw [hscaled, roundEven_int, hback, if_neg hsmall]

theorem utf16_toString (n : Nat) : utf16 (toString n) = (Nat.toDigits 10 n).flatMap charUnits := by
  rw [utf16]
  exact congrArg (List.flatMap charUnits) Nat.toList_repr

namespace Json

/-! ## Running -/

@[simp] theorem run_nil (s : State) : run s [] = some s := rfl

@[simp] theorem run_cons (s : State) (c : Nat) (cs : JsString) :
    run s (c :: cs) = (step s c).bind fun t => run t cs := List.foldlM_cons

theorem run_append (s : State) (a b : JsString) :
    run s (a ++ b) = (run s a).bind fun t => run t b := List.foldlM_append

theorem run_append_of {s t : State} {a : JsString} (h : run s a = some t) (b : JsString) :
    run s (a ++ b) = run t b := by
  rw [run_append, h, Option.bind_some]

/-! ## String literals without escapes -/

/-- A code unit that stands for itself within a string literal. -/
def plain (c : Nat) : Bool := c ≠ quote && c ≠ backslash && 0x20 ≤ c

theorem step_plain {frames : List Frame} {t : Target} {read : JsString} {c : Nat}
    (hc : plain c = true) :
    step ⟨frames, .string t read⟩ c = some ⟨frames, .string t (read ++ [c])⟩ := by
  simp only [plain, Bool.and_eq_true, decide_eq_true_eq] at hc
  simp only [step]
  rw [if_neg hc.1.1, if_neg hc.1.2, if_neg (Nat.not_lt.2 hc.2)]

theorem run_plain {frames : List Frame} {t : Target} {read cs : JsString}
    (hcs : ∀ c ∈ cs, plain c = true) :
    run ⟨frames, .string t read⟩ cs = some ⟨frames, .string t (read ++ cs)⟩ := by
  induction cs generalizing read with
  | nil => rw [run_nil, List.append_nil]
  | cons c cs ih =>
    rw [List.forall_mem_cons] at hcs
    rw [run_cons, step_plain hcs.1, Option.bind_some, ih hcs.2, List.append_assoc,
      List.singleton_append]

/-! ## Decimal digits -/

/-- The literal of a natural number. -/
def Literal.ofNat (n : Nat) : Literal where
  phase := if n = 0 then .zero else .int
  negative := false
  mantissa := n
  places := 0
  exp_negative := false
  exponent := 0

theorem Literal.complete_ofNat (n : Nat) : (Literal.ofNat n).complete = true := by
  by_cases hn : n = 0
  · rw [hn]
    rfl
  · simp [Literal.ofNat, Literal.complete, hn]

theorem Literal.value_ofNat (n : Nat) : (Literal.ofNat n).value = n := by
  simp [Literal.ofNat, Literal.value]

theorem digitChar_units {k : Nat} (hk : k < 10) : charUnits k.digitChar = [0x30 + k] := by
  interval_cases k <;> rfl

theorem run_digits (frames : List Frame) (n : Nat) :
    run ⟨frames, .value⟩ ((Nat.toDigits 10 n).flatMap charUnits) =
      some ⟨frames, .number (.ofNat n)⟩ := by
  induction n using Nat.strong_induction_on with
  | _ n ih =>
    by_cases hn : n < 10
    · rw [Nat.toDigits_of_lt_base hn, List.flatMap_singleton, digitChar_units hn]
      interval_cases n <;> rfl
    · have hpos : n / 10 ≠ 0 := by omega
      have hmod : n % 10 < 10 := Nat.mod_lt n (by decide)
      have hdigit : isDigit (0x30 + n % 10) = true := by
        simp only [isDigit, Bool.and_eq_true, decide_eq_true_eq]
        omega
      have hval : 10 * (n / 10) + (0x30 + n % 10 - 0x30) = n := by omega
      rw [Nat.toDigits_of_base_le (by decide) (by omega), List.flatMap_append,
        run_append_of (ih (n / 10) (by omega)), List.flatMap_singleton, digitChar_units hmod,
        run_cons]
      simp only [step, Literal.next, Literal.ofNat, hpos, if_false, hdigit, if_true, hval,
        show n ≠ 0 by omega]
      rfl

/-! ## Texts of values and members -/

/-- The text is the value `v`, where an object is waiting for one. A number is complete
only when the code unit after it has been seen. -/
def Reads (text : JsString) (v : Json) : Prop :=
  ∀ frames, ∃ t, run ⟨frames, .value⟩ text = some t ∧
    ∀ c, c = comma ∨ c = rbrace → step t c = end_value frames v c

theorem reads_string {cs : JsString} (hcs : ∀ c ∈ cs, plain c = true) :
    Reads (quote :: cs ++ [quote]) (.string cs) := by
  intro frames
  refine ⟨⟨frames, .ended (.string cs)⟩, ?_, fun c _ => rfl⟩
  rw [List.cons_append, run_cons]
  exact run_append_of (run_plain hcs) [quote]

theorem reads_nat (n : Nat) :
    Reads ((Nat.toDigits 10 n).flatMap charUnits) (.number (toDouble n)) := by
  intro frames
  refine ⟨_, run_digits frames n, fun c hc => ?_⟩
  have hnext : (Literal.ofNat n).next c = none := by
    by_cases hn : n = 0
    · rcases hc with rfl | rfl <;> simp [Literal.ofNat, Literal.next, Literal.next_exp, hn]
    · have hdigit : isDigit c = false := by rcases hc with rfl | rfl <;> rfl
      rcases hc with rfl | rfl <;> simp [Literal.ofNat, Literal.next, Literal.next_exp, hdigit, hn]
  simp only [step, hnext, Literal.complete_ofNat, Literal.value_ofNat, if_true]

/-- A member with an already rendered value. -/
def member (name text : JsString) : JsString := quote :: name ++ quote :: colon :: text

theorem run_name {frames : List Frame} {before : List (JsString × Json)} {name : JsString}
    (hname : ∀ c ∈ name, plain c = true) (text : JsString) :
    run ⟨frames, .name before⟩ (member name text) =
      run ⟨.object before name :: frames, .value⟩ text := by
  rw [member, List.cons_append, run_cons]
  exact run_append_of (run_plain hname) (quote :: colon :: text)

/-- Members that another one follows. -/
theorem run_members {frames : List Frame} {before : List (JsString × Json)}
    {l : List (JsString × JsString × Json)}
    (hl : ∀ m ∈ l, (∀ c ∈ m.1, plain c = true) ∧ Reads m.2.1 m.2.2) :
    run ⟨frames, .name before⟩ (l.flatMap fun m => member m.1 m.2.1 ++ [comma]) =
      some ⟨frames, .name (before ++ l.map fun m => (m.1, m.2.2))⟩ := by
  induction l generalizing before with
  | nil => rw [List.flatMap_nil, run_nil, List.map_nil, List.append_nil]
  | cons m l ih =>
    rw [List.forall_mem_cons] at hl
    obtain ⟨t, hrun, hsep⟩ := hl.1.2 (.object before m.1 :: frames)
    have hone : run ⟨frames, .name before⟩ (member m.1 m.2.1 ++ [comma]) =
        some ⟨frames, .name (before ++ [(m.1, m.2.2)])⟩ := by
      rw [run_append_of ((run_name hl.1.1 _).trans hrun), run_cons, hsep comma (.inl rfl)]
      rfl
    rw [List.flatMap_cons, run_append_of hone, ih hl.2, List.map_cons, List.append_assoc]
    rfl

/-- The last member. -/
theorem run_last {frames : List Frame} {before : List (JsString × Json)} {name text : JsString}
    {v : Json} (hname : ∀ c ∈ name, plain c = true) (hv : Reads text v) :
    run ⟨frames, .name before⟩ (member name text ++ [rbrace]) =
      some ⟨frames, .ended (.object (before ++ [(name, v)]))⟩ := by
  obtain ⟨t, hrun, hsep⟩ := hv (.object before name :: frames)
  rw [run_append_of ((run_name hname _).trans hrun), run_cons, hsep rbrace (.inr rfl)]
  rfl

/-! ## Literals are no longer than their text -/

/-- The value is no string of `n` code units or more. -/
def Under (n : Nat) (v : Json) : Prop := ∀ s, v = .string s → s.length < n

/-- No member called `key` is. -/
def Short (key : JsString) (n : Nat) (members : List (JsString × Json)) : Prop :=
  ∀ m ∈ members, m.1 = key → Under n m.2

def Frame.Short (key : JsString) (n : Nat) : Frame → Prop
  | .array _ => True
  | .object before _ => Json.Short key n before

def Target.Short (key : JsString) (n : Nat) : Target → Prop
  | .value => True
  | .name members => Json.Short key n members

def Mode.Short (key : JsString) (n : Nat) : Mode → Prop
  | .name members | .colon members _ => Json.Short key n members
  | .ended v => Under n v
  | .string t read | .escape t read | .hex t read _ _ => t.Short key n ∧ read.length < n
  | _ => True

/-- Of the members called `key`, complete or being read, none is a string of `n` code
units or more. -/
structure State.Short (key : JsString) (n : Nat) (s : State) : Prop where
  frames : ∀ f ∈ s.frames, f.Short key n
  mode : s.mode.Short key n

section Short

variable {key : JsString} {n : Nat}

theorem Under.mono {v : Json} (h : Under n v) : Under (n + 1) v :=
  fun s hs => (h s hs).trans (Nat.lt_succ_self n)

theorem Short.mono {members : List (JsString × Json)} (h : Short key n members) :
    Short key (n + 1) members := fun m hm hk => (h m hm hk).mono

theorem Short.concat {members : List (JsString × Json)} {name : JsString} {v : Json}
    (h : Short key n members) (hv : Under n v) : Short key n (members ++ [(name, v)]) := by
  intro m hm hk
  rw [List.mem_append, List.mem_singleton] at hm
  rcases hm with hm | rfl
  · exact h m hm hk
  · exact hv

theorem Frame.Short.mono {f : Frame} (h : f.Short key n) : f.Short key (n + 1) := by
  cases f with
  | array before => trivial
  | object before name => exact Json.Short.mono h

theorem Target.Short.mono {t : Target} (h : t.Short key n) : t.Short key (n + 1) := by
  cases t with
  | value => trivial
  | name members => exact Json.Short.mono h

theorem short_nil : Short key n [] := fun _ hm => by cases hm

theorem under_of_ne {v : Json} (h : ∀ s, v ≠ .string s) : Under n v :=
  fun s hs => absurd hs (h s)

/-- A value starts with nothing read. -/
theorem short_start {frames : List Frame} {c : Nat} {s : State}
    (hframes : ∀ f ∈ frames, f.Short key n) (hs : start_value frames c = some s) :
    s.Short key (n + 1) := by
  have hframes : ∀ f ∈ frames, f.Short key (n + 1) := fun f hf => (hframes f hf).mono
  unfold start_value at hs
  split_ifs at hs
  · cases hs
    exact ⟨hframes, trivial, Nat.succ_pos n⟩
  · cases hs
    exact ⟨hframes, trivial⟩
  · cases hs
    exact ⟨hframes, trivial⟩
  · cases hs
    exact ⟨hframes, trivial⟩
  · cases hs
    exact ⟨hframes, trivial⟩
  · cases hs
    exact ⟨hframes, trivial⟩
  · obtain ⟨l, -, rfl⟩ := Option.map_eq_some_iff.1 hs
    exact ⟨hframes, trivial⟩

/-- A value that is complete goes where it belongs. -/
theorem short_end {frames : List Frame} {v : Json} {c : Nat} {s : State}
    (hframes : ∀ f ∈ frames, f.Short key n) (hv : Under n v)
    (hs : end_value frames v c = some s) : s.Short key (n + 1) := by
  have hframes : ∀ f ∈ frames, f.Short key (n + 1) := fun f hf => (hframes f hf).mono
  cases frames with
  | nil =>
    simp only [end_value] at hs
    split_ifs at hs
    cases hs
    exact ⟨hframes, hv.mono⟩
  | cons f frames =>
    have hrest := (List.forall_mem_cons.1 hframes).2
    cases f with
    | array before =>
      simp only [end_value] at hs
      split_ifs at hs
      · cases hs
        exact ⟨hframes, hv.mono⟩
      · cases hs
        exact ⟨List.forall_mem_cons.2 ⟨trivial, hrest⟩, trivial⟩
      · cases hs
        exact ⟨hrest, under_of_ne fun _ => Json.noConfusion⟩
    | object before name =>
      have hbefore : Json.Short key (n + 1) before := (List.forall_mem_cons.1 hframes).1
      simp only [end_value] at hs
      split_ifs at hs
      · cases hs
        exact ⟨hframes, hv.mono⟩
      · cases hs
        exact ⟨hrest, hbefore.concat hv.mono⟩
      · cases hs
        exact ⟨hrest, under_of_ne fun _ => Json.noConfusion⟩

theorem short_close {t : Target} {read : JsString} (ht : t.Short key n)
    (hread : read.length < n) : (t.close read).Short key n := by
  cases t with
  | value =>
    intro s hs
    cases hs
    exact hread
  | name members => exact ht

theorem short_read {t : Target} {read : JsString} (x : Nat) (ht : t.Short key n)
    (hread : read.length < n) : t.Short key (n + 1) ∧ (read ++ [x]).length < n + 1 := by
  rw [List.length_append, List.length_singleton]
  exact ⟨ht.mono, Nat.succ_lt_succ hread⟩

/-- **One code unit makes a string one longer at most.** -/
theorem State.Short.step {s s' : State} {c : Nat} (h : s.Short key n) (hs : Json.step s c = some s') :
    s'.Short key (n + 1) := by
  obtain ⟨frames, mode⟩ := s
  obtain ⟨hframes, hmode⟩ := h
  have hup : ∀ f ∈ frames, f.Short key (n + 1) := fun f hf => (hframes f hf).mono
  cases mode with
  | value =>
    simp only [Json.step] at hs
    split_ifs at hs
    · cases hs
      exact ⟨hup, trivial⟩
    · exact short_start hframes hs
  | first_value =>
    simp only [Json.step] at hs
    split_ifs at hs
    · cases hs
      exact ⟨hup, trivial⟩
    · cases hs
      exact ⟨hup, under_of_ne fun _ => Json.noConfusion⟩
    · have harray : Frame.Short key n (.array []) := trivial
      exact short_start (List.forall_mem_cons.2 ⟨harray, hframes⟩) hs
  | first_name =>
    simp only [Json.step] at hs
    split_ifs at hs
    · cases hs
      exact ⟨hup, trivial⟩
    · cases hs
      exact ⟨hup, under_of_ne fun _ => Json.noConfusion⟩
    · cases hs
      exact ⟨hup, short_nil, Nat.succ_pos n⟩
  | name members =>
    simp only [Json.step] at hs
    split_ifs at hs
    · cases hs
      exact ⟨hup, Short.mono hmode⟩
    · cases hs
      exact ⟨hup, Short.mono hmode, Nat.succ_pos n⟩
  | colon members name =>
    simp only [Json.step] at hs
    split_ifs at hs
    · cases hs
      exact ⟨hup, Short.mono hmode⟩
    · cases hs
      exact ⟨List.forall_mem_cons.2 ⟨Short.mono hmode, hup⟩, trivial⟩
  | ended v => exact short_end hframes hmode hs
  | string t read =>
    simp only [Json.step] at hs
    split_ifs at hs
    · cases hs
      exact ⟨hup, short_close hmode.1.mono (hmode.2.trans (Nat.lt_succ_self n))⟩
    · cases hs
      exact ⟨hup, hmode.1.mono, hmode.2.trans (Nat.lt_succ_self n)⟩
    · cases hs
      exact ⟨hup, short_read c hmode.1 hmode.2⟩
  | escape t read =>
    simp only [Json.step] at hs
    split_ifs at hs
    · cases hs
      exact ⟨hup, hmode.1.mono, hmode.2.trans (Nat.lt_succ_self n)⟩
    · obtain ⟨x, -, rfl⟩ := Option.map_eq_some_iff.1 hs
      exact ⟨hup, short_read x hmode.1 hmode.2⟩
  | hex t read code left =>
    simp only [Json.step] at hs
    obtain ⟨x, -, hs⟩ := Option.map_eq_some_iff.1 hs
    split_ifs at hs
    · cases hs
      exact ⟨hup, short_read _ hmode.1 hmode.2⟩
    · cases hs
      exact ⟨hup, hmode.1.mono, hmode.2.trans (Nat.lt_succ_self n)⟩
  | number l =>
    simp only [Json.step] at hs
    split at hs
    · cases hs
      exact ⟨hup, trivial⟩
    · split_ifs at hs
      exact short_end hframes (under_of_ne fun _ => Json.noConfusion) hs
  | word w read =>
    simp only [Json.step] at hs
    split_ifs at hs
    · cases hs
      exact ⟨hup, under_of_ne fun _ h => by cases w <;> cases h⟩
    · cases hs
      exact ⟨hup, trivial⟩

theorem State.Short.run {s s' : State} {cs : JsString} (h : s.Short key n)
    (hs : Json.run s cs = some s') : s'.Short key (n + cs.length) := by
  induction cs generalizing s n with
  | nil =>
    cases hs
    exact h
  | cons c cs ih =>
    rw [run_cons] at hs
    obtain ⟨t, ht, hs⟩ := Option.bind_eq_some_iff.1 hs
    have hlen : n + (c :: cs).length = n + 1 + cs.length := by
      rw [List.length_cons]
      omega
    rw [hlen]
    exact ih (h.step ht) hs

end Short

/-! ## An object with an unknown string in it -/

theorem get_append_ne {members : List (JsString × Json)} {name key : JsString} {v : Json}
    (hne : name ≠ key) : get (members ++ [(name, v)]) key = get members key := by
  simp [get, hne]

theorem get_mem {members : List (JsString × Json)} {key : JsString} {v : Json}
    (h : get members key = some v) : (key, v) ∈ members := by
  obtain ⟨m, hm, rfl⟩ := Option.map_eq_some_iff.1 h
  have hname := List.find?_some hm
  rw [decide_eq_true_eq] at hname
  rw [← hname]
  exact List.mem_reverse.1 (List.mem_of_find?_eq_some hm)

/-- Whatever stands for itself adds one; the first code unit that does not adds nothing
to the literal it stands in. -/
theorem short_of_special {key read cs : JsString} {frames : List Frame} {s : State}
    (hframes : ∀ n, ∀ f ∈ frames, f.Short key n) (hcs : ¬ ∀ c ∈ cs, plain c = true)
    (hs : run ⟨frames, .string .value read⟩ cs = some s) :
    s.Short key (read.length + cs.length) := by
  induction cs generalizing read with
  | nil => exact absurd (fun _ hc => by cases hc) hcs
  | cons c cs ih =>
    rw [run_cons] at hs
    obtain ⟨t, ht, hs⟩ := Option.bind_eq_some_iff.1 hs
    by_cases hc : plain c = true
    · rw [step_plain hc] at ht
      cases ht
      have hrest := ih (fun h => hcs (List.forall_mem_cons.2 ⟨hc, h⟩)) hs
      rw [List.length_append, List.length_singleton] at hrest
      rw [List.length_cons, show read.length + (cs.length + 1) = read.length + 1 + cs.length by omega]
      exact hrest
    · have hshort : t.Short key (read.length + 1) := by
        simp only [step] at ht
        have hvalue : Target.Short key (read.length + 1) .value := trivial
        split_ifs at ht with hquote hback hcontrol
        · cases ht
          exact ⟨hframes _, short_close hvalue (Nat.lt_succ_self _)⟩
        · cases ht
          exact ⟨hframes _, hvalue, Nat.lt_succ_self _⟩
        · exact absurd (by simp [plain, hquote, hback, Nat.not_lt.1 hcontrol]) hc
      rw [List.length_cons, show read.length + (cs.length + 1) = read.length + 1 + cs.length by omega]
      exact hshort.run hs

theorem letter_not_space {c : Nat} (hc : 0x61 ≤ c ∧ c ≤ 0x7a) : isSpace c = false := by
  simp only [isSpace, Bool.or_eq_false_iff, decide_eq_false_iff_not]
  omega

/-- No letter follows a string literal. -/
theorem step_close_letter {frames : List Frame} {t : Target} {read : JsString} {c : Nat}
    (hc : 0x61 ≤ c ∧ c ≤ 0x7a) : step ⟨frames, t.close read⟩ c = none := by
  have hspace := letter_not_space hc
  have hne : c ≠ comma ∧ c ≠ colon ∧ c ≠ rbrace ∧ c ≠ rbracket := by
    show c ≠ 0x2c ∧ c ≠ 0x3a ∧ c ≠ 0x7d ∧ c ≠ 0x5d
    omega
  cases t with
  | value =>
    simp only [step, Target.close, end_value, hspace, Bool.false_eq_true, if_false, hne.1, hne.2]
    cases frames with
    | nil => rfl
    | cons f frames => cases f <;> rfl
  | name members =>
    simp only [step, Target.close, hspace, Bool.false_eq_true, if_false, hne.2.1]

theorem end_value_quote (frames : List Frame) (v : Json) : end_value frames v quote = none := by
  cases frames with
  | nil => rfl
  | cons f frames => cases f <;> rfl

theorem Literal.next_quote (l : Literal) : l.next quote = none := by
  obtain ⟨phase, negative, mantissa, places, exp_negative, exponent⟩ := l
  cases phase <;> rfl

theorem Word.letters (w : Word) : ∀ c ∈ w.text, c ≠ quote := by
  cases w <;> decide

section Next

variable {c : Nat} {cs text : JsString} {frames : List Frame} {t : Target} {read : JsString}

/-- Within a literal, the quotation mark that opens a name ends it. -/
theorem run_within (hc : 0x61 ≤ c ∧ c ≤ 0x7a) :
    run ⟨frames, .string t read⟩ (comma :: member (c :: cs) text) = none := by
  have hcomma : step ⟨frames, .string t read⟩ comma = some ⟨frames, .string t (read ++ [comma])⟩ :=
    step_plain rfl
  rw [run_cons, hcomma, Option.bind_some, member, List.cons_append, run_cons]
  have hquote : step ⟨frames, .string t (read ++ [comma])⟩ quote =
      some ⟨frames, t.close (read ++ [comma])⟩ := rfl
  rw [hquote, Option.bind_some, List.cons_append, run_cons, step_close_letter hc]
  rfl

/-- A quotation mark, a comma, and the next member: whoever reads them was at the end of
the string value of a member. -/
theorem member_of_next {s s' : State} (hc : 0x61 ≤ c ∧ c ≤ 0x7a)
    (hcs : ∀ x ∈ cs, plain x = true)
    (h : run s (quote :: comma :: member (c :: cs) text) = some s') :
    ∃ before name frames read, s = ⟨.object before name :: frames, .string .value read⟩ := by
  obtain ⟨frames, mode⟩ := s
  rw [run_cons] at h
  obtain ⟨u, hu, h⟩ := Option.bind_eq_some_iff.1 h
  -- where the quotation mark opens a literal, or is part of one, the name is not read
  have hopen : ∀ {frames t read}, u = ⟨frames, .string t read⟩ → False := by
    rintro frames t read rfl
    rw [run_within hc] at h
    cases h
  cases mode with
  | value | first_value | first_name | name =>
    cases hu
    exact (hopen rfl).elim
  | colon => cases hu
  | ended v => exact absurd hu (by simp [step, end_value_quote])
  | escape t read =>
    cases hu
    exact (hopen rfl).elim
  | hex t read code left => cases hu
  | number l => exact absurd hu (by simp [step, Literal.next_quote, end_value_quote])
  | word w read =>
    have hne : w.text[read]? ≠ some quote := fun h => w.letters quote (List.mem_of_getElem? h) rfl
    exact absurd hu (by simp [step, hne])
  | string t read =>
    cases hu
    cases t with
    | name members => cases h
    | value =>
      cases frames with
      | nil => cases h
      | cons f frames =>
        cases f with
        | object before name => exact ⟨before, name, frames, read, rfl⟩
        | array before =>
          -- the next element is a string then, and no colon follows it
          exfalso
          have hlast : ∀ x ∈ c :: cs, plain x = true := by
            refine List.forall_mem_cons.2 ⟨?_, hcs⟩
            show (decide (c ≠ 0x22) && decide (c ≠ 0x5c) && decide (0x20 ≤ c)) = true
            simp only [Bool.and_eq_true, decide_eq_true_eq]
            omega
          have helement : run ⟨.array (before ++ [.string read]) :: frames, .value⟩
              (quote :: (c :: cs ++ quote :: colon :: text)) = some s' := h
          have hrun : run ⟨.array (before ++ [.string read]) :: frames, .string .value []⟩ (c :: cs) =
              some ⟨.array (before ++ [.string read]) :: frames, .string .value (c :: cs)⟩ :=
            run_plain hlast
          have hnone := run_append_of hrun (quote :: colon :: text)
          rw [run_cons] at helement
          cases hnone.symm.trans helement

end Next

/-- The object goes on after a string value. -/
theorem run_after_string {before : List (JsString × Json)} {name last text read : JsString}
    {frames : List Frame} {v : Json} (hlast : ∀ c ∈ last, plain c = true) (hv : Reads text v) :
    run ⟨.object before name :: frames, .string .value read⟩
      (quote :: comma :: (member last text ++ [rbrace])) =
      some ⟨frames, .ended (.object (before ++ [(name, .string read)] ++ [(last, v)]))⟩ :=
  run_last hlast hv

/-- The text of an object: some members, then a string taken as it is, then a last
member. -/
def with_string (l : List (JsString × JsString × Json)) (key middle last text : JsString) :
    JsString :=
  lbrace :: ((l.flatMap fun m => member m.1 m.2.1 ++ [comma]) ++
    (quote :: key ++ quote :: colon :: quote :: middle) ++
    quote :: comma :: (member last text ++ [rbrace]))

section WithString

variable {l : List (JsString × JsString × Json)} {key middle last text : JsString} {v : Json}

theorem run_with_string (hl : ∀ m ∈ l, (∀ c ∈ m.1, plain c = true) ∧ Reads m.2.1 m.2.2)
    (hkey : ∀ c ∈ key, plain c = true) :
    run ⟨[], .value⟩ (with_string l key middle last text) =
      run ⟨[.object (l.map fun m => (m.1, m.2.2)) key], .string .value []⟩
        (middle ++ quote :: comma :: (member last text ++ [rbrace])) := by
  have hassoc : with_string l key middle last text =
      lbrace :: ((l.flatMap fun m => member m.1 m.2.1 ++ [comma]) ++
        member key (quote :: (middle ++ quote :: comma :: (member last text ++ [rbrace])))) := by
    simp [with_string, member]
  -- with or without members before it, a name comes first
  have hfirst : run ⟨[], .value⟩ (with_string l key middle last text) =
      run ⟨[], .name []⟩ ((l.flatMap fun m => member m.1 m.2.1 ++ [comma]) ++
        member key (quote :: (middle ++ quote :: comma :: (member last text ++ [rbrace])))) := by
    rw [hassoc]
    cases l with
    | nil => rfl
    | cons m l => rfl
  rw [hfirst, run_append_of (run_members hl), List.nil_append, run_name hkey]
  rfl

/-- A string that stands for itself is read as it is. -/
theorem parse_with_string (hl : ∀ m ∈ l, (∀ c ∈ m.1, plain c = true) ∧ Reads m.2.1 m.2.2)
    (hkey : ∀ c ∈ key, plain c = true) (hlast : ∀ c ∈ last, plain c = true) (hv : Reads text v)
    (hmiddle : ∀ c ∈ middle, plain c = true) :
    parse (with_string l key middle last text) =
      some (.object ((l.map fun m => (m.1, m.2.2)) ++ [(key, .string middle)] ++ [(last, v)])) := by
  rw [parse, run_with_string hl hkey, run_append_of (run_plain hmiddle), run_after_string hlast hv]
  rfl

/-- **Any other string is read as something else, or not at all**: its literal would have
to be longer than it is, or to end in the name of the last member. -/
theorem parse_with_special (hl : ∀ m ∈ l, (∀ c ∈ m.1, plain c = true) ∧ Reads m.2.1 m.2.2)
    (hkey : ∀ c ∈ key, plain c = true) (hnew : ∀ m ∈ l, m.1 ≠ key) {c : Nat} {cs : JsString}
    (hlast : last = c :: cs) (hc : 0x61 ≤ c ∧ c ≤ 0x7a) (hcs : ∀ c ∈ last, plain c = true)
    (hne : last ≠ key) (hv : Reads text v) (hmiddle : ¬ ∀ c ∈ middle, plain c = true) {w : Json}
    (h : parse (with_string l key middle last text) = some w) :
    ∃ members, w = .object members ∧ get members key ≠ some (.string middle) := by
  subst hlast
  obtain ⟨s', hrun, hfinish⟩ := Option.bind_eq_some_iff.1 h
  rw [run_with_string hl hkey, run_append] at hrun
  obtain ⟨s, hs, hrun⟩ := Option.bind_eq_some_iff.1 hrun
  -- every string called `key` is shorter than `middle` now
  have hframes : ∀ n, ∀ f ∈ [Frame.object (l.map fun m => (m.1, m.2.2)) key], f.Short key n := by
    intro n f hf
    rw [List.mem_singleton.1 hf]
    intro m hm hmk
    obtain ⟨m', hm', rfl⟩ := List.mem_map.1 hm
    exact absurd hmk (hnew m' hm')
  have hshort := short_of_special hframes hmiddle hs
  rw [List.length_nil, Nat.zero_add] at hshort
  -- and the rest of the text adds a last member to the object that holds them
  obtain ⟨before, name, frames, read, rfl⟩ : ∃ before name frames read,
      s = ⟨.object before name :: frames, .string .value read⟩ := by
    have hassoc : quote :: comma :: (member (c :: cs) text ++ [rbrace]) =
        quote :: comma :: member (c :: cs) (text ++ [rbrace]) := by
      simp [member]
    rw [hassoc] at hrun
    exact member_of_next hc (List.forall_mem_cons.1 hcs).2 hrun
  rw [run_after_string hcs hv] at hrun
  cases hrun
  cases frames with
  | cons f frames => cases hfinish
  | nil =>
    cases hfinish
    refine ⟨_, rfl, fun hget => ?_⟩
    rw [get_append_ne hne] at hget
    have hbefore : Short key middle.length before :=
      hshort.frames (.object before name) List.mem_cons_self
    have hread : Under middle.length (.string read) := fun s hs => by
      cases hs
      exact hshort.mode.2
    exact lt_irrefl _ (hbefore.concat hread _ (get_mem hget) rfl middle rfl)

end WithString

end Json

end SequentialNear
