/-
`scripts/src/commands/sequence.ts`: the order in which the runner resumes its intents.

The order is given as the word `identity` or `random`, as a list of indices, or as such
a list written out; an array is written out first and then read like any text. What is
read is accepted when sorting it gives `0..n-1`, and a shuffle of `0..n-1` needs no
check. So whatever comes back is an order of `0..n-1`, and every such order that is
asked for comes back as it is ([`permutation_resolved`]). That no id stands twice in a batch
follows from this and from nothing else: the gate does not look.
-/
import SequentialNear.Decimal
import SequentialNear.Rearrange
import SequentialNear.Replay

set_option autoImplicit false

namespace SequentialNear

open JsString

/-! ## `sequence.ts` -/

/-- A JavaScript array, whose length is a 32-bit integer. -/
structure JsArray (α : Type) where
  toList : List α
  length_lt : toList.length < 2 ^ 32

/-- A double without a fraction. -/
structure Integer where
  value : Int
  exact : toDouble value = .finite value

/-- Every small natural number is one. -/
def Integer.ofNat (n : Nat) (hn : n < 2 ^ 53) : Integer where
  value := n
  exact := by exact_mod_cast toDouble_nat hn

/-- `SequenceOpts.permutation`. -/
inductive PermutationSpec
  | text (s : JsString)
  | array (p : JsArray Integer)

/-- `Array.from({ length: n }, (_, i) => i)`. -/
def arrayFrom (n : Nat) : Except JsString (List Number) :=
  if n < 2 ^ 32 then .ok (numbers (List.range n)) else .error (utf16 "Invalid array length")

/-- `JSON.stringify` of an array of numbers without fractions. -/
def stringify (ints : List Number) : JsString :=
  let texts := ints.map fun v =>
    match v with
    | .finite q => numeral q.num
    | .infinite _ => utf16 "null"
  utf16 "[" ++ join texts ++ utf16 "]"

/-- `draw` is what `Math.floor(Math.random() * (i + 1))` gives at each step. -/
def parsePermutation (draw : Draws) (spec : JsString) (n : Nat) : Except JsString (List Number) :=
  if spec = utf16 "identity" then arrayFrom n
  else if spec = utf16 "random" then do
    let arr ← arrayFrom n
    return shuffle draw (arr.length - 1) arr
  else
    let ints := (split spec).map fun s => parseInt (trim s)
    -- one of them is `NaN`, or all are numbers
    match ints.mapM id with
    | none => .error (utf16 "invalid permutation spec: " ++ spec)
    | some ints =>
      if ints.length ≠ n then
        .error (utf16 "permutation length " ++ numeral ints.length ++ utf16 " !== n " ++ numeral n)
      else
        let sorted := sort minus ints
        if ∀ i < n, sorted[i]? = some (.finite i) then .ok ints
        else
          .error (utf16 "permutation must be a permutation of [0.." ++ numeral ((n : Int) - 1) ++
            utf16 "], got " ++ stringify ints)

/-- `p.join(",")`. -/
def JsArray.text (p : JsArray Integer) : JsString := join (p.toList.map fun z => numeral z.value)

def resolvePermutation (draw : Draws) (p : PermutationSpec) (n : Nat) :
    Except JsString (List Number) :=
  match p with
  | .text s => parsePermutation draw s n
  | .array p => parsePermutation draw p.text n

/-- `xs[index]`; `none` is `undefined`. -/
def element {α : Type} (xs : List α) (index : Number) : Option α :=
  match index with
  | .finite q => if q.den = 1 ∧ 0 ≤ q.num then xs[q.num.toNat]? else none
  | .infinite _ => none

/-- The ids of the batch, from the intent ids of `submits`; `none` when an index has no
submission and the script throws. -/
def batchIds (permutation : List Number) (submits : List Int) : Option (List Int) :=
  permutation.mapM (element submits)

/-- The argument `intent_ids` that is sent to `resume_batch_chained`. -/
def intent_ids (batchIds : List Int) : List String := batchIds.map toString

/-! ## What comes back -/

variable {draw : Draws} {n : Nat} {p : List Number}

theorem arrayFrom_eq_ok {arr : List Number} (h : arrayFrom n = .ok arr) :
    arr = numbers (List.range n) := by
  unfold arrayFrom at h
  split at h
  · cases h
    rfl
  · cases h

/-- What the check after sorting accepts. -/
theorem perm_of_sorted {ints : List Number} (hlen : ints.length = n)
    (h : ∀ i < n, (sort minus ints)[i]? = some (.finite i)) :
    ints.Perm (numbers (List.range n)) := by
  have hsorted : sort minus ints = numbers (List.range n) := by
    refine List.ext_getElem? fun i => ?_
    rw [numbers, List.getElem?_map]
    by_cases hi : i < n
    · rw [h i hi, List.getElem?_range hi]
      rfl
    · have hout : (sort minus ints).length ≤ i := by
        rw [(sort_perm minus ints).length_eq, hlen]
        exact not_lt.1 hi
      rw [List.getElem?_eq_none hout, List.getElem?_eq_none (by simpa using hi)]
      rfl
  exact hsorted ▸ (sort_perm minus ints).symm

/-- **What comes back is an order of `0..n-1`.** -/
theorem parsePermutation_perm {spec : JsString} (h : parsePermutation draw spec n = .ok p) :
    p.Perm (numbers (List.range n)) := by
  unfold parsePermutation at h
  split at h
  · rw [arrayFrom_eq_ok h]
  split at h
  · obtain ⟨arr, harr, hret⟩ := bind_eq_ok.1 h
    cases hret
    rw [← arrayFrom_eq_ok harr]
    exact shuffle_perm draw _ arr
  -- a text that was read
  simp only at h
  split at h
  · cases h
  split at h
  · cases h
  rename_i hlen
  split at h
  · rename_i hsorted
    cases h
    exact perm_of_sorted (not_not.1 hlen) hsorted
  · cases h

theorem resolvePermutation_order {spec : PermutationSpec}
    (h : resolvePermutation draw spec n = .ok p) :
    ∃ order, p = numbers order ∧ order.Perm (List.range n) := by
  cases spec with
  | text s => exact numbers_of_perm (parsePermutation_perm h)
  | array a => exact numbers_of_perm (parsePermutation_perm h)

/-! ## What was asked for -/

theorem mapM_id_map_some {α : Type} (xs : List α) : (xs.map some).mapM id = some xs := by
  rw [mapM_eq_some_iff, List.map_id]

section Join

variable {order : List Nat}

theorem split_join_decimal (hne : order ≠ []) (hlen : order.length < 2 ^ 32) :
    split (join (order.map decimal)) = order.map decimal := by
  refine split_join ?_ (by simpa using hne) (by simpa using hlen)
  intro s hs
  obtain ⟨i, -, rfl⟩ := List.mem_map.1 hs
  exact comma_not_mem_decimal i

/-- A list of indices is not taken for a word. -/
theorem join_decimal_ne {word : JsString} (hcomma : Json.comma ∉ word)
    (hword : ¬ ∀ c ∈ word, Json.isDigit c = true) (hne : order ≠ [])
    (hlen : order.length < 2 ^ 32) : join (order.map decimal) ≠ word := by
  intro heq
  -- both are split into what they were joined from
  have hsplit : split (join [word]) = [word] :=
    split_join (by simpa using hcomma) (by simp) (by simp)
  have hjoin : join [word] = word := List.intercalate_singleton
  have hpieces : order.map decimal = [word] := by
    rw [← split_join_decimal hne hlen, heq, ← hsplit, hjoin]
  obtain ⟨i, -, hi⟩ := List.mem_map.1 (hpieces ▸ List.mem_singleton_self word)
  exact hword (hi ▸ decimal_digits i)

/-- **An order of `0..n-1` is read back from its text.** -/
theorem parsePermutation_join (hpos : 0 < n) (hn : n < 2 ^ 32) (h : order.Perm (List.range n)) :
    parsePermutation draw (join (order.map decimal)) n = .ok (numbers order) := by
  have hlength : order.length = n := length_of_permutation h
  have hne : order ≠ [] := List.ne_nil_of_length_pos (hlength ▸ hpos)
  have hlen : order.length < 2 ^ 32 := hlength ▸ hn
  have hidentity : join (order.map decimal) ≠ utf16 "identity" :=
    join_decimal_ne (by decide) (by decide) hne hlen
  have hrandom : join (order.map decimal) ≠ utf16 "random" :=
    join_decimal_ne (by decide) (by decide) hne hlen
  have hints : ((split (join (order.map decimal))).map fun s => parseInt (trim s)) =
      (numbers order).map some := by
    rw [split_join_decimal hne hlen, List.map_map, numbers, List.map_map]
    refine List.map_congr_left fun i hi => ?_
    have hlt : i < n := lt_of_mem_permutation h hi
    rw [Function.comp_apply, Function.comp_apply, parseInt_trim_decimal (by omega)]
  have hnumbers : (numbers order).length = n := by rw [numbers, List.length_map, hlength]
  have hsorted : ∀ i < n, (sort minus (numbers order))[i]? = some (.finite i) := by
    intro i hi
    rw [sort_numbers (by omega) h, numbers, List.getElem?_map, List.getElem?_range hi]
    rfl
  rw [parsePermutation, if_neg hidentity, if_neg hrandom, hints]
  simp only [mapM_id_map_some, hnumbers, ne_eq, not_true_eq_false, if_false, if_pos hsorted]

end Join

/-- The elements of an array. -/
def JsArray.numbers (a : JsArray Integer) : List Number := a.toList.map fun z => .finite z.value

/-- The text of an array whose elements are small is that of its indices. -/
theorem JsArray.text_eq {a : JsArray Integer} {order : List Nat}
    (h : a.numbers = SequentialNear.numbers order) (hlt : ∀ i ∈ order, i < 2 ^ 53) :
    a.text = join (order.map decimal) := by
  have hinj : Function.Injective fun z : Int => Number.finite z := by
    intro y z hyz
    injection hyz with hyz
    exact Int.cast_injective hyz
  have hvalues : a.toList.map Integer.value = order.map Nat.cast := by
    refine List.map_injective_iff.2 hinj ?_
    rw [List.map_map, List.map_map]
    exact h
  have htexts : (a.toList.map fun z => numeral z.value) = order.map decimal := by
    calc (a.toList.map fun z => numeral z.value)
        = (a.toList.map Integer.value).map numeral := by rw [List.map_map]; rfl
      _ = order.map fun i : Nat => numeral i := by rw [hvalues, List.map_map]; rfl
      _ = order.map decimal := List.map_congr_left fun i hi => numeral_nat (hlt i hi)
  rw [text, htexts]

/-- **An order that is asked for is returned.** -/
theorem resolvePermutation_array {a : JsArray Integer} (hpos : 0 < n)
    (h : a.numbers.Perm (numbers (List.range n))) :
    resolvePermutation draw (.array a) n = .ok a.numbers := by
  obtain ⟨order, ha, horder⟩ := numbers_of_perm h
  have hn : n < 2 ^ 32 := by
    have hlength := congrArg List.length ha
    rw [JsArray.numbers, numbers, List.length_map, List.length_map,
      length_of_permutation horder] at hlength
    exact hlength ▸ a.length_lt
  have hlt : ∀ i ∈ order, i < 2 ^ 53 := by
    intro i hi
    have hlt : i < n := lt_of_mem_permutation horder hi
    omega
  rw [resolvePermutation, JsArray.text_eq ha hlt, ha]
  exact parsePermutation_join hpos hn horder

/-! ## The batch -/

theorem element_nat {α : Type} (xs : List α) (i : Nat) : element xs (.finite i) = xs[i]? := by
  simp [element]

/-- **The batch lists every submission once, in the order of the indices.** -/
theorem batchIds_perm {submits : List Int} {order : List Nat}
    (h : order.Perm (List.range submits.length)) :
    ∃ ids, batchIds (numbers order) submits = some ids ∧ ids.Perm submits ∧
      order.map (submits[·]?) = ids.map some := by
  obtain ⟨ids, hids, hperm⟩ := pick_perm h
  refine ⟨ids, mapM_eq_some_iff.2 ?_, hperm, hids⟩
  rw [numbers, List.map_map, ← hids]
  exact List.map_congr_left fun i _ => element_nat submits i

/-- A `bigint` is found again from its text. -/
theorem toString_int_injective : Function.Injective (toString : Int → String) := by
  have hsign : ∀ m n : Nat, m.repr ≠ "-" ++ n.repr := by
    intro m n h
    refine not_mem_repr (c := '-') rfl m ?_
    rw [h, String.toList_append]
    exact List.mem_append_left _ (by decide)
  intro a b h
  rw [Int.toString_eq_repr, Int.toString_eq_repr, Int.repr_eq_if, Int.repr_eq_if] at h
  split_ifs at h with ha hb hb
  · have htoNat : a.toNat = b.toNat := repr_toList_injective (congrArg String.toList h)
    omega
  · exact absurd h (hsign _ _)
  · exact absurd h.symm (hsign _ _)
  · have hlist := congrArg String.toList h
    rw [String.toList_append, String.toList_append, List.append_cancel_left_eq] at hlist
    have htoNat : (-a).toNat = (-b).toNat := repr_toList_injective hlist
    omega

/-! ## Permutation resolution -/

/-- **Permutation resolution.** Whatever the request and the draws, what comes back lists
each of `0..n-1` once. An order of `0..n-1` comes back as it is, from an array as from its
text. And with it the batch lists the id of every submission once, in that order, when no
two of these are equal. -/
theorem permutation_resolved (n : Nat) :
    (∀ draw spec p, resolvePermutation draw spec n = .ok p →
      p.length = n ∧ (∀ i < n, p.count (.finite i) = 1) ∧
        ∃ order, p = numbers order ∧ order.Perm (List.range n)) ∧
    (∀ (draw : Draws) (a : JsArray Integer), 1 ≤ n → a.numbers.Perm (numbers (List.range n)) →
      resolvePermutation draw (.array a) n = .ok a.numbers ∧
        resolvePermutation draw (.text a.text) n = .ok a.numbers) ∧
    ∀ draw spec p (submits : List Int), resolvePermutation draw spec n = .ok p →
      submits.length = n → submits.Nodup →
      ∃ ids, batchIds p submits = some ids ∧ ids.length = n ∧
        (∀ id ∈ submits, ids.count id = 1) ∧ (intent_ids ids).Nodup ∧
        ∀ k i : Nat, p[k]? = some (.finite i) → ids[k]? = submits[i]? := by
  refine ⟨?_, ?_, ?_⟩
  · intro draw spec p hp
    obtain ⟨order, rfl, horder⟩ := resolvePermutation_order hp
    refine ⟨?_, fun i hi => ?_, order, rfl, horder⟩
    · rw [numbers, List.length_map, length_of_permutation horder]
    · have hcount := List.count_map_of_injective order _ finite_injective i
      rw [numbers, hcount, horder.count_eq]
      exact List.count_eq_one_of_mem List.nodup_range (List.mem_range.2 hi)
  · intro draw a hn ha
    have harray : resolvePermutation draw (.array a) n = .ok a.numbers :=
      resolvePermutation_array hn ha
    exact ⟨harray, harray⟩
  · intro draw spec p submits hp hlength hnodup
    obtain ⟨order, rfl, horder⟩ := resolvePermutation_order hp
    subst hlength
    obtain ⟨ids, hids, hperm, hpicked⟩ := batchIds_perm horder
    refine ⟨ids, hids, hperm.length_eq, fun id hid => ?_, ?_, fun k i hk => ?_⟩
    · rw [hperm.count_eq]
      exact List.count_eq_one_of_mem hnodup hid
    · exact (hperm.nodup_iff.2 hnodup).map toString_int_injective
    · rw [numbers, List.getElem?_map] at hk
      obtain ⟨j, hj, hji⟩ := Option.map_eq_some_iff.1 hk
      cases finite_injective hji
      have hk := congrArg (·[k]?) hpicked
      simp only [List.getElem?_map, hj, Option.map_some] at hk
      obtain ⟨id, hid, heq⟩ := Option.map_eq_some_iff.1 hk.symm
      rw [hid, heq]

section Demo

/-- The array `[2, 0, 1]`. -/
def last_first : JsArray Integer where
  toList := [.ofNat 2 (by decide), .ofNat 0 (by decide), .ofNat 1 (by decide)]
  length_lt := by decide

/-- Three submissions, the last of which is resumed first. -/
theorem permutation_resolved_demo :
    resolvePermutation (fun _ => 0) (.array last_first) 3 = .ok (numbers [2, 0, 1]) ∧
      ∃ ids, batchIds (numbers [2, 0, 1]) [11, 22, 33] = some ids ∧
        ∀ id ∈ [11, 22, 33], ids.count id = 1 := by
  obtain ⟨-, hback, hbatch⟩ := permutation_resolved 3
  have hnumbers : last_first.numbers = numbers [2, 0, 1] := rfl
  have hindices : [2, 0, 1].Perm (List.range 3) := by decide
  have hperm : last_first.numbers.Perm (numbers (List.range 3)) := hnumbers ▸ hindices.map _
  have harray := (hback (fun _ => 0) last_first (by decide) hperm).1
  obtain ⟨ids, hids, -, hcount, -⟩ := hbatch _ _ _ [11, 22, 33] harray rfl (by decide)
  exact ⟨harray, ids, hids, hcount⟩

end Demo

end SequentialNear
