import Mathlib.Algebra.Group.Nat.Defs
import Mathlib.Order.Monotone.Basic

/-!
# The order of bytes

Texts are compared by the code points of their characters, and then their bytes are in the
same order: a character that takes more bytes starts with a greater one, and characters that
take as many are compared digit by digit.
-/

namespace ComponentSchema.Utf8

theorem byte_cons_lt {m n : Nat} {s t : List UInt8} (hm : m < 256) (hn : n < 256) :
    UInt8.ofNat m :: s < UInt8.ofNat n :: t ↔ m < n ∨ m = n ∧ s < t := by
  rw [List.cons_lt_cons_iff, UInt8.lt_iff_toNat_lt, ← UInt8.toNat_inj, UInt8.toNat_ofNat',
    UInt8.toNat_ofNat', Nat.mod_eq_of_lt hm, Nat.mod_eq_of_lt hn]

/-- The last `k` digits of a number to the base 64, each in a byte of its own. -/
def trailing : Nat → Nat → List UInt8
  | 0, _ => []
  | k + 1, n => UInt8.ofNat (n / 64 ^ k % 64 + 128) :: trailing k n

theorem trailing_append_lt {k m n : Nat} (h : m % 64 ^ k < n % 64 ^ k) (s t : List UInt8) :
    trailing k m ++ s < trailing k n ++ t := by
  induction k with
  | zero => simp [Nat.mod_one] at h
  | succ k ih =>
    rw [Nat.mod_pow_succ, Nat.mod_pow_succ] at h
    rw [trailing, trailing, List.cons_append, List.cons_append, byte_cons_lt (by omega) (by omega)]
    have hm : m % 64 ^ k < 64 ^ k := Nat.mod_lt m (Nat.pow_pos (by decide))
    have hn : n % 64 ^ k < 64 ^ k := Nat.mod_lt n (Nat.pow_pos (by decide))
    rcases Nat.lt_trichotomy (m / 64 ^ k % 64) (n / 64 ^ k % 64) with hlt | heq | hgt
    · exact .inl (by omega)
    · rw [heq] at h ⊢
      exact .inr ⟨rfl, ih (by omega)⟩
    · -- a greater digit outweighs all that follow
      have hle := Nat.mul_le_mul_left (64 ^ k) hgt
      rw [Nat.mul_succ] at hle
      omega

/-- The least leading byte before `k` more. -/
def lead : Nat → Nat
  | 0 => 0
  | 1 => 192
  | 2 => 224
  | 3 => 240
  | _ => 256

/-- The least number that takes `k` bytes after the leading one. -/
def start : Nat → Nat
  | 0 => 0
  | 1 => 128
  | 2 => 2048
  | 3 => 65536
  | _ => 1114112

theorem lead_mono : Monotone lead :=
  monotone_nat_of_le_succ fun k => by rcases k with _ | _ | _ | _ | k <;> simp [lead]

theorem start_mono : Monotone start :=
  monotone_nat_of_le_succ fun k => by rcases k with _ | _ | _ | _ | k <;> simp [start]

theorem lead_le (k : Nat) : lead k ≤ 256 := by rcases k with _ | _ | _ | _ | k <;> simp [lead]

theorem leading_lt {k n : Nat} (hs : start k ≤ n) (hn : n < start (k + 1)) :
    n / 64 ^ k + lead k < lead (k + 1) := by
  rcases k with _ | _ | _ | _ | k <;> simp only [start, lead] at * <;> omega

/-- A number in a leading byte and `k` more. -/
def encoded (k n : Nat) : List UInt8 := UInt8.ofNat (n / 64 ^ k + lead k) :: trailing k n

theorem utf8EncodeChar_eq (c : Char) : ∃ k, start k ≤ c.val.toNat ∧
    c.val.toNat < start (k + 1) ∧ String.utf8EncodeChar c = encoded k c.val.toNat := by
  have hvalid := c.valid
  simp only [UInt32.isValidChar, Nat.isValidChar] at hvalid
  unfold String.utf8EncodeChar encoded
  generalize c.val.toNat = n at *
  dsimp only
  split_ifs with h1 h2 h3
  · exact ⟨0, Nat.zero_le n, by simp only [start]; omega, by simp [lead, trailing]⟩
  · refine ⟨1, by simp only [start]; omega, by simp only [start]; omega, ?_⟩
    rw [Nat.mod_eq_of_lt (by omega)]
    simp [lead, trailing]
  · refine ⟨2, by simp only [start]; omega, by simp only [start]; omega, ?_⟩
    rw [Nat.mod_eq_of_lt (by omega)]
    simp [lead, trailing]
  · refine ⟨3, by simp only [start]; omega, by simp only [start]; omega, ?_⟩
    rw [Nat.mod_eq_of_lt (by omega)]
    simp [lead, trailing]

theorem encoded_append_lt {k m n : Nat} (h : m < n) (hs : start k ≤ n) (hn : n < start (k + 1))
    (s t : List UInt8) : encoded k m ++ s < encoded k n ++ t := by
  have hlead := leading_lt hs hn
  have hle := lead_le (k + 1)
  have hdiv : m / 64 ^ k ≤ n / 64 ^ k := Nat.div_le_div_right h.le
  rw [encoded, encoded, List.cons_append, List.cons_append, byte_cons_lt (by omega) (by omega)]
  rcases hdiv.lt_or_eq with hlt | heq
  · exact .inl (by omega)
  · have hm := Nat.div_add_mod m (64 ^ k)
    have hn := Nat.div_add_mod n (64 ^ k)
    rw [heq] at hm ⊢
    exact .inr ⟨rfl, trailing_append_lt (by omega) s t⟩

/-- A smaller character has smaller bytes, whatever follows. -/
theorem utf8EncodeChar_append_lt {c d : Char} (h : c < d) (s t : List UInt8) :
    String.utf8EncodeChar c ++ s < String.utf8EncodeChar d ++ t := by
  have hlt : c.val.toNat < d.val.toNat := h
  obtain ⟨k, hs, hn, he⟩ := utf8EncodeChar_eq c
  obtain ⟨l, hs', hn', he'⟩ := utf8EncodeChar_eq d
  rw [he, he']
  rcases Nat.lt_trichotomy k l with hkl | rfl | hkl
  · -- the form with more bytes has the greater leading byte
    have hlead : c.val.toNat / 64 ^ k + lead k < d.val.toNat / 64 ^ l + lead l :=
      calc
        c.val.toNat / 64 ^ k + lead k < lead (k + 1) := leading_lt hs hn
        _ ≤ lead l := lead_mono hkl
        _ ≤ d.val.toNat / 64 ^ l + lead l := Nat.le_add_left _ _
    have hbyte : d.val.toNat / 64 ^ l + lead l < 256 := (leading_lt hs' hn').trans_le (lead_le _)
    rw [encoded, encoded, List.cons_append, List.cons_append,
      byte_cons_lt (hlead.trans hbyte) hbyte]
    exact .inl hlead
  · exact encoded_append_lt hlt hs' hn' s t
  · have hmono : start (l + 1) ≤ start k := start_mono hkl
    omega

/-- The bytes of a text. -/
def bytes (text : String) : List UInt8 := text.toUTF8.data.toList

theorem bytes_eq (text : String) : bytes text = text.toList.flatMap String.utf8EncodeChar := by
  rw [bytes, String.toUTF8, ← String.utf8Encode_toList, List.utf8Encode, List.data_toByteArray]

theorem flatMap_utf8EncodeChar_lt {as bs : List Char} (h : as < bs) :
    as.flatMap String.utf8EncodeChar < bs.flatMap String.utf8EncodeChar := by
  induction h with
  | @nil b bs =>
    obtain ⟨k, -, -, he⟩ := utf8EncodeChar_eq b
    rw [List.flatMap_nil, List.flatMap_cons, he]
    exact .nil
  | rel h => exact utf8EncodeChar_append_lt h _ _
  | cons h ih => exact List.append_left_lt ih

/-- A smaller text has smaller bytes. -/
theorem bytes_lt {a b : String} (h : a < b) : bytes a < bytes b := by
  rw [bytes_eq, bytes_eq]
  exact flatMap_utf8EncodeChar_lt (String.lt_iff.mp h)

end ComponentSchema.Utf8
