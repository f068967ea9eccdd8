import ComponentSchema.Yaml.Conversion

/-!
# Laws of numbers

A number is an integer or a double, and conversion keeps it one: the views are tried in an
order in which no integer is ever taken for a double, and the last of them always exists.
-/

namespace ComponentSchema.Yaml.Number

/-- The integer that a number is, unless it is a double. -/
def integer? : Number → Option Int
  | .posInt n => some n.toNat
  | .negInt n _ => some n.toInt
  | .float _ => none

theorem eq_float_of_integer? {n : Number} (h : n.integer? = none) : ∃ x, n = .float x := by
  cases n with
  | posInt n => cases h
  | negInt n negative => cases h
  | float x => exact ⟨x, rfl⟩

/-- Every integer that a tree may hold is a number. -/
theorem integer?_ofInt {n : Int} (h : Tree.intFits n = true) : (ofInt n).integer? = some n := by
  simp only [Tree.intFits, decide_eq_true_eq] at h
  by_cases hn : n < 0
  · have hword : (Int64.ofInt n).toInt = n := Int64.toInt_ofInt_of_le (by omega) (by omega)
    have hneg : Int64.ofInt n < 0 := by
      rw [Int64.lt_iff_toInt_lt, hword]
      exact hn
    rw [ofInt, dif_pos ⟨hn, hneg⟩, integer?, hword]
  · have hword : ((UInt64.ofInt n).toNat : Int) = n := by
      rw [UInt64.ofInt, UInt64.toNat_ofNat']
      omega
    rw [ofInt, dif_neg fun h => hn h.1, integer?, hword]

/-- A number that is an integer is the number of that integer: the sign tells which word
it is. -/
theorem eq_ofInt_of_integer? {n : Number} {i : Int} (h : n.integer? = some i) : n = ofInt i := by
  cases n with
  | posInt n =>
    cases h
    have hword : UInt64.ofInt n.toNat = n := by
      rw [← UInt64.toNat_inj, UInt64.ofInt, UInt64.toNat_ofNat']
      have hlt := n.toNat_lt
      omega
    rw [ofInt, dif_neg (by omega), hword]
  | negInt n negative =>
    cases h
    have hneg : n.toInt < 0 := Int64.lt_iff_toInt_lt.mp negative
    simp only [ofInt, Int64.ofInt_toInt, hneg, negative, and_self, dite_true]
  | float x => cases h

/-- The signed view of an unsigned word is the same integer. -/
theorem toInt_asI64? {n : UInt64} {word : Int64} (h : (posInt n).asI64? = some word) :
    word.toInt = n.toNat := by
  rw [asI64?] at h
  split at h
  next hle =>
    cases h
    exact Int64.toInt_ofNat_of_lt (Nat.lt_succ_of_le (UInt64.le_iff_toNat_le.mp hle))
  next => cases h

/-- An integer stays the integer it is, by the signed view or else by the unsigned one. -/
theorem toTree_of_integer? {n : Number} {i : Int} (h : n.integer? = some i) :
    n.toTree = .ok (.int i) := by
  cases n with
  | posInt n =>
    cases h
    rw [toTree]
    cases hview : (posInt n).asI64? with
    | some word =>
      dsimp only
      rw [toInt_asI64? hview]
    | none => rfl
  | negInt n negative =>
    cases h
    rfl
  | float x => cases h

theorem toTree_float (x : Binary64) : (float x).toTree =
    if x.isFinite then .ok (.float x) else .error (.nonFinite x) := rfl

/-- Every number can be viewed as a double. -/
theorem isSome_asF64? (n : Number) : n.asF64?.isSome = true := by
  cases n <;> rfl

/-- So no number is left over when all views were tried. -/
theorem toTree_ne_unsupportedNumber (n m : Number) :
    n.toTree ≠ .error (.unsupportedNumber m) := by
  intro h
  obtain ⟨x, hx⟩ := Option.isSome_iff_exists.mp (isSome_asF64? n)
  rw [toTree, hx] at h
  dsimp only at h
  repeat' split at h
  all_goals cases h

theorem same_self (n : Number) : n.same n = true := by
  cases n <;> simp [same, Binary64.sameNumber]

theorem same_of_integer? {m n : Number} {i : Int} (hm : m.integer? = some i)
    (hn : n.integer? = some i) : m.same n = true := by
  rw [eq_ofInt_of_integer? hm, eq_ofInt_of_integer? hn]
  exact same_self _

end ComponentSchema.Yaml.Number
