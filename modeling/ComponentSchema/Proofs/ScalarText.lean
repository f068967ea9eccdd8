import ComponentSchema.Proofs.Numbers
import ComponentSchema.Proofs.Shortest
import ComponentSchema.Yaml.Resolution

/-!
# Laws of scalar texts

The text of a number or a truth value tells which one it is. A float is read back from its
text, in every layout; an integer is written with digits and a sign only, and a float never
is; truth values have texts of their own. So two keys share a text only if they are the
same key or one of them is a string.
-/

namespace ComponentSchema.Yaml

namespace Resolution

/-! ## Digits -/

/-- Nothing but decimal digits. -/
def Digits (chars : List Char) : Prop := ∀ c ∈ chars, c.isDigit = true

theorem Digits.append {a b : List Char} (ha : Digits a) (hb : Digits b) : Digits (a ++ b) :=
  List.forall_mem_append.mpr ⟨ha, hb⟩

theorem Digits.take {chars : List Char} (h : Digits chars) (n : ℕ) : Digits (chars.take n) :=
  fun c hc => h c (List.mem_of_mem_take hc)

theorem Digits.drop {chars : List Char} (h : Digits chars) (n : ℕ) : Digits (chars.drop n) :=
  fun c hc => h c (List.mem_of_mem_drop hc)

theorem digits_zeros (n : ℕ) : Digits (List.replicate n '0') := by
  intro c hc
  rw [List.eq_of_mem_replicate hc]
  rfl

theorem digits_toDigits (n : ℕ) : Digits (Nat.toDigits 10 n) :=
  fun _ h => Nat.isDigit_of_mem_toDigits (by norm_num) le_rfl h

theorem digit_lt_ten {c : Char} (h : c.isDigit = true) : c.toNat - '0'.toNat < 10 := by
  have hle : c.val ≤ '9'.val := by
    simp only [Char.isDigit, Bool.and_eq_true, decide_eq_true_eq] at h
    exact h.2
  have hle' : c.toNat ≤ '9'.toNat := UInt32.le_iff_toNat_le.mp hle
  have hzero : '0'.toNat = 48 := rfl
  have hnine : '9'.toNat = 57 := rfl
  omega

/-- Decimal digits are read as the number that they write. -/
theorem digitsIn?_ten {digits : List Char} (hne : digits ≠ []) (h : Digits digits) :
    digitsIn? 10 digits = some (Nat.ofDigitChars 10 digits 0) := by
  rw [digitsIn?, if_neg (by simpa using hne)]
  generalize 0 = n
  clear hne
  induction digits generalizing n with
  | nil => rfl
  | cons c rest ih =>
    obtain ⟨hc, hrest⟩ := List.forall_mem_cons.mp h
    have hstep : (do
        let d ← hexDigit? c
        if d < 10 then some (n * 10 + d) else none) = some (10 * n + (c.toNat - '0'.toNat)) := by
      rw [hexDigit?, if_pos hc, Option.bind_eq_bind, Option.bind_some, if_pos (digit_lt_ten hc),
        Nat.mul_comm]
    rw [List.foldlM_cons, hstep, Nat.ofDigitChars_cons]
    exact ih hrest _

theorem digitsIn?_toDigits (n : ℕ) : digitsIn? 10 (Nat.toDigits 10 n) = some n := by
  rw [digitsIn?_ten Nat.toDigits_ne_nil (digits_toDigits n), Nat.ofDigitChars_ten_toDigits]

theorem toList_toString_int (z : ℤ) : (toString z).toList =
    if 0 ≤ z then Nat.toDigits 10 z.toNat else '-' :: Nat.toDigits 10 (-z).toNat := by
  rw [Int.toString_eq_repr, Int.repr_eq_if]
  split <;> simp [Nat.repr_eq_ofList_toDigits]

theorem splitSign_digits {digits : List Char} (h : Digits digits) :
    splitSign digits = (none, digits) := by
  unfold splitSign
  split
  next => exact absurd (h '+' List.mem_cons_self) (by decide)
  next => exact absurd (h '-' List.mem_cons_self) (by decide)
  next => rfl

theorem exponent?_toString (z : ℤ) : exponent? ('e' :: (toString z).toList) = some z := by
  have hall : ∀ n, (Nat.toDigits 10 n).all Char.isDigit = true :=
    fun n => List.all_eq_true.mpr (digits_toDigits n)
  rw [toList_toString_int]
  split
  next h =>
    simp only [exponent?, true_or, if_true, splitSign_digits (digits_toDigits _), hall,
      digitsIn?_toDigits]
    exact congrArg some (Int.toNat_of_nonneg h)
  next h =>
    simp only [exponent?, true_or, if_true, splitSign, hall, digitsIn?_toDigits]
    exact congrArg some (by simp; omega)

/-! ## Decimals -/

/-- The characters are read as a decimal that stands for the number. -/
def ReadsTo (chars : List Char) (q : ℚ) : Prop :=
  ∃ digits e, decimal? chars = some (digits, e) ∧ (digits * 10 ^ e : ℚ) = q

/-- Digits end where something else follows. -/
theorem span_digits {digits tail : List Char} (h : Digits digits)
    (ht : tail.head?.all (fun c => !c.isDigit) = true) :
    (digits ++ tail).takeWhile Char.isDigit = digits ∧
      (digits ++ tail).dropWhile Char.isDigit = tail := by
  rw [List.takeWhile_append_of_pos h, List.dropWhile_append_of_pos h]
  cases tail with
  | nil => simp
  | cons c rest =>
    have hc : c.isDigit = false := by simpa using ht
    simp [hc]

/-- Digits around a point, with an exponent or without one. -/
theorem readsTo_point {whole places tail : List Char} {z e : ℤ} (hne : whole ≠ [])
    (hw : Digits whole) (hp : Digits places) (ht : tail.head?.all (fun c => !c.isDigit) = true)
    (hz : exponent? tail = some z) (he : z - places.length = e) :
    ReadsTo (whole ++ '.' :: (places ++ tail))
      (Nat.ofDigitChars 10 (whole ++ places) 0 * 10 ^ e) := by
  have hmark : ('.' :: (places ++ tail)).head?.all (fun c => !c.isDigit) = true := rfl
  obtain ⟨htake, hdrop⟩ := span_digits hw hmark
  obtain ⟨htake', hdrop'⟩ := span_digits hp ht
  have hdigits := digitsIn?_ten (List.append_ne_nil_of_left_ne_nil hne places) (hw.append hp)
  refine ⟨_, e, ?_, rfl⟩
  simp only [decimal?, htake, hdrop, htake', hdrop', hdigits, hz, ← he]
  rfl

theorem readsTo_whole {whole tail : List Char} {e : ℤ} (hne : whole ≠ []) (hw : Digits whole)
    (he : exponent? ('e' :: tail) = some e) :
    ReadsTo (whole ++ 'e' :: tail) (Nat.ofDigitChars 10 whole 0 * 10 ^ e) := by
  have hmark : ('e' :: tail).head?.all (fun c => !c.isDigit) = true := rfl
  obtain ⟨htake, hdrop⟩ := span_digits hw hmark
  refine ⟨_, e, ?_, rfl⟩
  simp [decimal?, htake, hdrop, digitsIn?_ten hne hw, he]

section Layouts

variable {digits : List Char} (hne : digits ≠ []) (hd : Digits digits)

include hd

/-- Zeros stand between the point and the digits. -/
theorem readsTo_shifted {n : ℕ} {e : ℤ} (he : -((n + digits.length : ℕ) : ℤ) = e) :
    ReadsTo (['0'] ++ '.' :: (List.replicate n '0' ++ digits))
      (Nat.ofDigitChars 10 digits 0 * 10 ^ e) := by
  have hvalue : Nat.ofDigitChars 10 (['0'] ++ (List.replicate n '0' ++ digits)) 0 =
      Nat.ofDigitChars 10 digits 0 := by
    rw [Nat.ofDigitChars_append, Nat.ofDigitChars_append, Nat.ofDigitChars_replicate_zero]
    rfl
  have hlength : 0 - ((List.replicate n '0' ++ digits).length : ℤ) = e := by
    rw [List.length_append, List.length_replicate]
    omega
  have hread : ReadsTo (['0'] ++ '.' :: ((List.replicate n '0' ++ digits) ++ [])) _ :=
    readsTo_point (List.cons_ne_nil _ _) (digits_zeros 1) ((digits_zeros n).append hd) rfl rfl
      hlength
  rwa [hvalue, List.append_nil] at hread

include hne

/-- Zeros fill the digits up to the point. -/
theorem readsTo_filled {n : ℕ} {e : ℤ} (he : (n : ℤ) = e) :
    ReadsTo (digits ++ List.replicate n '0' ++ ['.', '0'])
      (Nat.ofDigitChars 10 digits 0 * 10 ^ e) := by
  have hread : (Nat.ofDigitChars 10 (digits ++ List.replicate n '0' ++ ['0']) 0 : ℚ) * 10 ^ (-1 : ℤ) =
      Nat.ofDigitChars 10 digits 0 * 10 ^ e := by
    have hvalue : Nat.ofDigitChars 10 (digits ++ List.replicate n '0' ++ ['0']) 0 =
        10 * (10 ^ n * Nat.ofDigitChars 10 digits 0) := by
      rw [Nat.ofDigitChars_append, Nat.ofDigitChars_append, Nat.ofDigitChars_replicate_zero]
      rfl
    rw [hvalue, ← he]
    push_cast
    rw [zpow_neg_one, zpow_natCast]
    ring
  rw [← hread]
  exact readsTo_point (List.append_ne_nil_of_left_ne_nil hne _) (hd.append (digits_zeros n))
    (digits_zeros 1) rfl rfl rfl

/-- The point stands among the digits. -/
theorem readsTo_divided {n : ℕ} {e : ℤ} (hn : 0 < n) (he : -((digits.length - n : ℕ) : ℤ) = e) :
    ReadsTo (digits.take n ++ '.' :: digits.drop n) (Nat.ofDigitChars 10 digits 0 * 10 ^ e) := by
  have htake : digits.take n ≠ [] := by simpa [List.take_eq_nil_iff, hne] using hn.ne'
  have hlength : 0 - ((digits.drop n).length : ℤ) = e := by
    rw [List.length_drop]
    omega
  have hread : ReadsTo (digits.take n ++ '.' :: (digits.drop n ++ [])) _ :=
    readsTo_point htake (hd.take n) (hd.drop n) rfl rfl hlength
  rwa [List.take_append_drop, List.append_nil] at hread

/-- The point follows the first digit, and an exponent the last one. -/
theorem readsTo_scientific {z e : ℤ} (he : z - ((digits.length - 1 : ℕ) : ℤ) = e) :
    ReadsTo (digits.take 1 ++ (if digits.length ≤ 1 then [] else '.' :: digits.drop 1) ++
      'e' :: (toString z).toList) (Nat.ofDigitChars 10 digits 0 * 10 ^ e) := by
  split
  next hone =>
    have hz : z = e := by omega
    rw [List.take_of_length_le hone, List.append_nil]
    exact readsTo_whole hne hd (hz ▸ exponent?_toString z)
  next =>
    have htake : digits.take 1 ≠ [] := by simpa [List.take_eq_nil_iff] using hne
    have hlength : z - ((digits.drop 1).length : ℤ) = e := by rwa [List.length_drop]
    have hread := readsTo_point htake (hd.take 1) (hd.drop 1) rfl (exponent?_toString z) hlength
    rwa [List.take_append_drop, ← List.cons_append, ← List.append_assoc] at hread

end Layouts

/-- A text of any layout is read as the number that it writes. -/
theorem readsTo_write (layout : Binary64.Layout) (d : Decimal) :
    ReadsTo (layout.write d).toList d.value := by
  have hne : Nat.toDigits 10 d.digits ≠ [] := Nat.toDigits_ne_nil
  have hd := digits_toDigits d.digits
  have hvalue : d.value = Nat.ofDigitChars 10 (Nat.toDigits 10 d.digits) 0 * 10 ^ d.exponent := by
    rw [Nat.ofDigitChars_ten_toDigits, Decimal.value]
  rw [hvalue]
  simp only [Binary64.Layout.write]
  generalize Nat.toDigits 10 d.digits = digits at *
  have hpos : 0 < digits.length := List.length_pos_iff.mpr hne
  split_ifs with hwindow hint hinside hone
  · have hread := readsTo_filled hne hd (Int.toNat_of_nonneg hint)
    simpa using hread
  · have hread := readsTo_divided (n := (d.exponent + digits.length).toNat) (e := d.exponent)
      hne hd (by omega) (by omega)
    simpa using hread
  · have hread := readsTo_shifted (n := (-(d.exponent + digits.length)).toNat) (e := d.exponent)
      hd (by omega)
    simpa using hread
  all_goals
    have hread := readsTo_scientific (z := d.exponent + digits.length - 1) (e := d.exponent)
      hne hd (by omega)
    simpa [hone] using hread

/-! ## Floats -/

theorem splitSign_of_decimal? {chars : List Char} {found : ℕ × ℤ}
    (h : decimal? chars = some found) : splitSign chars = (none, chars) := by
  unfold splitSign
  split
  next => simp [decimal?, digitsIn?] at h
  next => simp [decimal?, digitsIn?] at h
  next => rfl

/-- A decimal after an optional sign is the float nearest to it. -/
theorem float?_of_decimal? {chars : List Char} {digits : ℕ} {e : ℤ}
    (h : decimal? chars = some (digits, e)) (negative : Bool)
    (hfinite : (Binary64.ofDecimal negative digits e).isFinite = true) :
    float? ((if negative then "-" else "") ++ String.ofList chars) =
      some (.ofDecimal negative digits e) := by
  have hsign : splitSign ((if negative then "-" else "") ++ String.ofList chars).toList =
      (if negative then some '-' else none, chars) := by
    cases negative with
    | false => simpa using splitSign_of_decimal? h
    | true => simp [splitSign]
  have hneg : decide ((if negative then some '-' else none) = some '-') = negative := by
    cases negative <;> simp
  -- the name of a float is no decimal
  have hinf : [".inf", ".Inf", ".INF"].contains (String.ofList chars) = false := by
    have hnone : ∀ name ∈ [".inf", ".Inf", ".INF"], decimal? name.toList = none := by decide
    refine Bool.eq_false_iff.mpr fun hm => ?_
    have hd := hnone _ (List.contains_iff_mem.mp hm)
    rw [String.toList_ofList, h] at hd
    cases hd
  have hnan : [".nan", ".NaN", ".NAN"].contains
      ((if negative then "-" else "") ++ String.ofList chars) = false := by
    have hnone : ∀ name ∈ [".nan", ".NaN", ".NAN"],
        decimal? (splitSign name.toList).2 = none := by decide
    refine Bool.eq_false_iff.mpr fun hm => ?_
    have hd := hnone _ (List.contains_iff_mem.mp hm)
    rw [hsign, h] at hd
    cases hd
  simp only [float?, hsign, hinf, hnan, h, hneg, hfinite]
  rfl

theorem float?_of_readsTo {x : Binary64} {chars : List Char} {q : ℚ} (hx : x.isFinite = true)
    (h : ReadsTo chars q) (hq : Binary64.nearest q = x.magnitude) :
    float? ((if x.isNegative then "-" else "") ++ String.ofList chars) = some x := by
  obtain ⟨digits, e, hd, rfl⟩ := h
  have hof : Binary64.ofDecimal x.isNegative digits e = x := by
    rw [Binary64.ofDecimal, Binary64.decimalMagnitude_eq, hq, Binary64.ofMagnitude_self]
  rw [float?_of_decimal? hd x.isNegative (by rwa [hof]), hof]

/-- The text of a finite float is read as the float. -/
theorem float?_write (layout : Binary64.Layout) {x : Binary64} (hx : x.isFinite = true) :
    float? (x.write layout) = some x := by
  simp only [Binary64.write]
  split
  next hz =>
    have hread : ReadsTo ['0', '.', '0'] 0 := ⟨0, -1, rfl, by simp⟩
    exact float?_of_readsTo hx hread (by rw [hz, Binary64.nearest, if_pos rfl])
  next hz =>
    have hread := readsTo_write layout x.shortest
    rw [← String.ofList_toList (s := layout.write x.shortest)]
    exact float?_of_readsTo hx hread (Binary64.nearest_shortest hx hz)

/-- The text of a float is read as the float, unless it is not a number. -/
theorem float?_floatText {x : Binary64} (hx : x.isNaN = false) :
    float? (Number.floatText x) = some x := by
  rw [Number.floatText, hx, if_neg (by decide)]
  split_ifs with hfinite hneg
  · exact float?_write _ hfinite
  · rw [Binary64.eq_infinity (by simpa using hfinite) hx, hneg]
    rfl
  · rw [Binary64.eq_infinity (by simpa using hfinite) hx, Bool.eq_false_iff.mpr hneg]
    rfl

theorem float?_floatText_nan {x : Binary64} (hx : x.isNaN = true) :
    float? (Number.floatText x) = some .nan := by
  rw [Number.floatText, if_pos hx]
  rfl

end Resolution

namespace Number

open Resolution

/-! ## Texts of one kind -/

theorem toString_injective {m n : ℤ} (h : toString m = toString n) : m = n := by
  have hread := exponent?_toString m
  rw [h, exponent?_toString n] at hread
  exact (Option.some.inj hread).symm

/-- Floats with one text are the same number. -/
theorem sameNumber_of_floatText {x y : Binary64} (h : floatText x = floatText y) :
    x.sameNumber y = true := by
  have hread := congrArg float? h
  cases hx : x.isNaN <;> cases hy : y.isNaN
  · rw [float?_floatText hx, float?_floatText hy] at hread
    cases hread
    simp [Binary64.sameNumber]
  · rw [float?_floatText hx, float?_floatText_nan hy] at hread
    cases hread
    exact absurd hx (by decide)
  · rw [float?_floatText_nan hx, float?_floatText hy] at hread
    cases hread
    exact absurd hy (by decide)
  · simp [Binary64.sameNumber, hx, hy]

/-! ## Texts of different kinds -/

theorem mark_mem_write (layout : Binary64.Layout) (d : Decimal) :
    '.' ∈ (layout.write d).toList ∨ 'e' ∈ (layout.write d).toList := by
  simp only [Binary64.Layout.write]
  split_ifs <;> simp

/-- Every float is written with a point or an exponent. -/
theorem mark_mem_floatText (x : Binary64) :
    '.' ∈ (floatText x).toList ∨ 'e' ∈ (floatText x).toList := by
  have hmark := mark_mem_write floatLayout x.shortest
  simp only [floatText, Binary64.write]
  split_ifs <;> simp [hmark]

theorem mem_toString_int {n : ℤ} {c : Char} (h : c ∈ (toString n).toList) :
    c.isDigit = true ∨ c = '-' := by
  rw [toList_toString_int] at h
  split at h
  next => exact .inl (digits_toDigits _ c h)
  next =>
    rcases List.mem_cons.mp h with rfl | h
    · exact .inr rfl
    · exact .inl (digits_toDigits _ c h)

theorem toString_ne_floatText (n : ℤ) (x : Binary64) : toString n ≠ floatText x := by
  intro h
  rcases mark_mem_floatText x with hm | hm <;>
    rw [← h] at hm <;>
    exact absurd (mem_toString_int hm) (by decide)

/-- The text of a number is that of an integer or that of a float. -/
theorem text_cases (n : Number) : (∃ i, n.integer? = some i ∧ n.text = toString i) ∨
    ∃ x, n = .float x ∧ n.text = floatText x := by
  cases n with
  | posInt n => exact .inl ⟨_, rfl, rfl⟩
  | negInt n negative => exact .inl ⟨_, rfl, rfl⟩
  | float x => exact .inr ⟨x, rfl, rfl⟩

theorem same_of_text {m n : Number} (h : m.text = n.text) : m.same n = true := by
  rcases text_cases m with ⟨i, hm, ht⟩ | ⟨x, rfl, ht⟩ <;>
    rcases text_cases n with ⟨j, hn, ht'⟩ | ⟨y, rfl, ht'⟩ <;>
    rw [ht, ht'] at h
  · rw [toString_injective h] at hm
    exact same_of_integer? hm hn
  · exact absurd h (toString_ne_floatText i y)
  · exact absurd h.symm (toString_ne_floatText j x)
  · exact sameNumber_of_floatText h

end Number

namespace Value

open Resolution

theorem boolText_injective {a b : Bool} (h : boolText a = boolText b) : a = b := by
  revert h
  cases a <;> cases b <;> decide

theorem toString_ne_boolText (n : ℤ) (b : Bool) : toString n ≠ boolText b := by
  intro h
  have hm : 'e' ∈ (boolText b).toList := by cases b <;> decide
  rw [← h] at hm
  exact absurd (Number.mem_toString_int hm) (by decide)

theorem floatText_ne_boolText (x : Binary64) (b : Bool) : Number.floatText x ≠ boolText b := by
  intro h
  have hnone : float? (boolText b) = none := by cases b <;> decide
  rw [← h] at hnone
  cases hx : x.isNaN
  · rw [float?_floatText hx] at hnone
    cases hnone
  · rw [float?_floatText_nan hx] at hnone
    cases hnone

theorem numberText_ne_boolText (n : Number) (b : Bool) : n.text ≠ boolText b := by
  rcases n.text_cases with ⟨i, -, ht⟩ | ⟨x, -, ht⟩ <;> rw [ht]
  · exact toString_ne_boolText i b
  · exact floatText_ne_boolText x b

/-! ## Keys -/

theorem scalarText?_cases {key : Value} {text : String} (h : key.scalarText? = some text) :
    key = .string text ∨ (∃ n, key = .number n ∧ text = n.text) ∨
      ∃ b, key = .bool b ∧ text = boolText b := by
  cases key <;> simp_all [scalarText?, eq_comm]

/-- Two keys with one text are the same key, unless one of them is a string. -/
theorem same_of_scalarText? {a b : Value} {text : String} (ha : a.scalarText? = some text)
    (hb : b.scalarText? = some text) (hna : a ≠ .string text) (hnb : b ≠ .string text) :
    a.same b = true := by
  rcases (scalarText?_cases ha).resolve_left hna with ⟨m, rfl, ht⟩ | ⟨p, rfl, ht⟩ <;>
    rcases (scalarText?_cases hb).resolve_left hnb with ⟨n, rfl, ht'⟩ | ⟨q, rfl, ht'⟩ <;>
    rw [ht] at ht'
  · rw [same]
    exact Number.same_of_text ht'
  · exact absurd ht' (numberText_ne_boolText m q)
  · exact absurd ht'.symm (numberText_ne_boolText n p)
  · simp [same, boolText_injective ht']

end Value

end ComponentSchema.Yaml
