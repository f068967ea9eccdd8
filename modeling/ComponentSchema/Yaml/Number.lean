import ComponentSchema.Binary64.Shortest

/-!
# YAML numbers

A number is an unsigned word, a negative signed word or a double. It has three views:
as a signed word, as an unsigned word and as a double, of which the last always exists.
-/

namespace ComponentSchema.Yaml

/-- A YAML number. An integer that is not negative is always the unsigned word. -/
inductive Number where
  | posInt (value : UInt64)
  | negInt (value : Int64) (negative : value < 0)
  | float (value : Binary64)
  deriving Inhabited

namespace Number

/-- The number of an integer. It is the integer itself if a word holds it, and wraps
around otherwise. -/
def ofInt (n : Int) : Number :=
  if h : n < 0 ∧ Int64.ofInt n < 0 then .negInt (.ofInt n) h.2 else .posInt (.ofInt n)

/-- The signed word: of an unsigned one only up to the largest signed one. -/
def asI64? : Number → Option Int64
  | .posInt n => if n ≤ 9223372036854775807 then some (.ofNat n.toNat) else none
  | .negInt n _ => some n
  | .float _ => none

/-- The unsigned word. -/
def asU64? : Number → Option UInt64
  | .posInt n => some n
  | .negInt _ _ | .float _ => none

/-- The double, for an integer the nearest one. -/
def asF64? : Number → Option Binary64
  | .posInt n => some (.ofDecimal false n.toNat 0)
  | .negInt n _ => some (.ofDecimal true n.toInt.natAbs 0)
  | .float x => some x

/-- Equality of keys: an integer is never a float. -/
def same : Number → Number → Bool
  | .posInt a, .posInt b => a = b
  | .negInt a _, .negInt b _ => a = b
  | .float a, .float b => a.sameNumber b
  | _, _ => false

/-- Floats are written around a point from five zeros after it up to sixteen digits
before it. -/
def floatLayout : Binary64.Layout := ⟨-5, 16⟩

/-- The text of a float. -/
def floatText (x : Binary64) : String :=
  if x.isNaN then ".nan"
  else if x.isFinite then x.write floatLayout
  else if x.isNegative then "-.inf" else ".inf"

/-- The text of a number. -/
def text : Number → String
  | .posInt n => toString (n.toNat : Int)
  | .negInt n _ => toString n.toInt
  | .float x => floatText x

/-- A number written out with its type. -/
def describe (n : Number) : String := "Number(" ++ n.text ++ ")"

end Number

end ComponentSchema.Yaml
