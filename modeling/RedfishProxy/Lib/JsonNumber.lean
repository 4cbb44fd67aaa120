import Mathlib.Data.Rat.Cast.Order
import RedfishProxy.Lib.JsonSame

/-!
# The numbers of a JSON value

What serde_json keeps of a number: an integer that fits, or a float, here as the
rational it is. Its comparison is by variant, so an integer is never equal to a
float.
-/

namespace Lib.Json

inductive Number where
  | posInt (n : Nat) (h : n < 2 ^ 64)
  | negInt (n : Int) (h : -2 ^ 63 ≤ n ∧ n < 0)
  | float (q : ℚ)

namespace Number

/-- The number itself. -/
def value : Number → ℚ
  | posInt n _ => n
  | negInt n _ => n
  | float q => q

def isFloat : Number → Bool
  | float _ => true
  | _ => false

def beq : Number → Number → Bool
  | posInt n _, posInt m _ => n == m
  | negInt n _, negInt m _ => n == m
  | float q, float r => q == r
  | _, _ => false

instance : BEq Number := ⟨beq⟩

/-- The two are numerically equal. -/
def Equal (a b : Number) : Prop := a.value = b.value

/-- One is an integer, and the other a float. -/
def Mixed (a b : Number) : Prop := a.isFloat ≠ b.isFloat

/-- The variants of two integers do not overlap, so only floats are left apart. -/
theorem beq_iff (a b : Number) : (a == b) = true ↔ Equal a b ∧ ¬ Mixed a b := by
  have hsigns : ∀ (n : Nat) (m : Int), m < 0 → ((n : Int) : ℚ) ≠ (m : ℚ) := by
    intro n m hm heq
    have hint := Int.cast_inj.mp heq
    omega
  show beq a b = true ↔ a.value = b.value ∧ ¬ a.isFloat ≠ b.isFloat
  cases a with
  | posInt n hn =>
      cases b with
      | posInt m hm => simp [beq, value, isFloat]
      | negInt m hm => simpa [beq, value, isFloat] using hsigns n m hm.2
      | float r => simp [beq, isFloat]
  | negInt n hn =>
      cases b with
      | posInt m hm => simpa [beq, value, isFloat] using Ne.symm (hsigns m n hn.2)
      | negInt m hm => simp [beq, value, isFloat]
      | float r => simp [beq, isFloat]
  | float q =>
      cases b with
      | posInt m hm => simp [beq, isFloat]
      | negInt m hm => simp [beq, isFloat]
      | float r => simp [beq, value, isFloat]

end Number

/-- **serde's comparison** is numerical where no integer meets a float. -/
theorem beq_iff_equal {a b : Json Number} (ha : a.Sorted) (hb : b.Sorted) :
    (a == b) = true ↔ Same Number.Equal a b ∧ ¬ Somewhere Number.Mixed a b := by
  rw [beq_iff_same ha hb, ← same_and_iff]
  exact Same.congr Number.beq_iff

end Lib.Json
