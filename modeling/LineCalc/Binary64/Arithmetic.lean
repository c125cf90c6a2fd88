/-
  LineCalc/Binary64/Arithmetic.lean
  =================================
  **The four operations.**  Each finite result is the exact result rounded once
  by `ofRatio`.  In units, a sum is an integer sum, a product carries one factor
  `2^1074` too many and a quotient one too few.

  A sum that is exactly zero is positive unless both terms are negative; the
  sign of a product or quotient is that of its factors, zero and infinity
  included.
-/
import LineCalc.Binary64.Rounding

namespace LineCalc.Binary64

/-- The sign of an exact sum of two finite numbers. -/
def sumNegative (n₁ n₂ : Bool) (sum : Int) : Bool :=
  if sum = 0 then n₁ && n₂ else sum < 0

def add : Binary64 → Binary64 → Binary64
  | .finite n₁ u₁ _, .finite n₂ u₂ _ =>
    let sum := signed n₁ u₁ + signed n₂ u₂
    ofRatio (sumNegative n₁ n₂ sum) sum.natAbs 1
  | .infinite n₁, .infinite n₂ => if n₁ = n₂ then .infinite n₁ else .nan
  | .infinite n₁, .finite .. => .infinite n₁
  | .finite .., .infinite n₂ => .infinite n₂
  | _, _ => .nan

/-- A difference is the sum with the other sign. -/
def sub (x y : Binary64) : Binary64 := add x y.neg

def mul : Binary64 → Binary64 → Binary64
  | .finite n₁ u₁ _, .finite n₂ u₂ _ => ofRatio (n₁ ^^ n₂) (u₁ * u₂) unitsPerOne
  | .infinite n₁, .infinite n₂ => .infinite (n₁ ^^ n₂)
  | .infinite n₁, .finite n₂ u₂ _ => if u₂ = 0 then .nan else .infinite (n₁ ^^ n₂)
  | .finite n₁ u₁ _, .infinite n₂ => if u₁ = 0 then .nan else .infinite (n₁ ^^ n₂)
  | _, _ => .nan

def div : Binary64 → Binary64 → Binary64
  | .finite n₁ u₁ _, .finite n₂ u₂ _ =>
    if u₂ = 0 then (if u₁ = 0 then .nan else .infinite (n₁ ^^ n₂))
    else ofRatio (n₁ ^^ n₂) (u₁ * unitsPerOne) u₂
  | .infinite n₁, .finite n₂ _ _ => .infinite (n₁ ^^ n₂)
  | .finite n₁ _ _, .infinite n₂ => zero (n₁ ^^ n₂)
  | _, _ => .nan

end LineCalc.Binary64
