/-!
# Binary floating-point magnitudes

Times and sizes are computed in binary floating point of 53 significant bits. A magnitude is kept
exactly, as a mantissa times a power of two, and every operation rounds the exact result to the
nearest magnitude, a half to the even mantissa. No hardware arithmetic is involved.
-/

namespace KWayMerge

/-- The nearest integer to `num / den`; a half goes to the even neighbour. -/
def roundHalfEven (num den : Nat) : Nat :=
  let q := num / den
  let r := num % den
  if 2 * r < den then q
  else if den < 2 * r then q + 1
  else if q % 2 = 0 then q
  else q + 1

def tenTo (n : Nat) : Nat :=
  Nat.pow 10 n

/-- A magnitude: `mantissa * 2 ^ exponent`, infinity, or no number at all. -/
inductive Binary64 where
  | finite (mantissa : Nat) (exponent : Int)
  | infinite
  | notANumber
deriving DecidableEq, Repr

namespace Binary64

/-- The exponent of the smallest magnitudes. -/
def minExponent : Int := -1074

/-- The exponent of the largest finite magnitudes. -/
def maxExponent : Int := 971

def precision : Nat := 53

def mantissaBound : Nat := 1 <<< precision

def zero : Binary64 := .finite 0 minExponent

/-- `num / den` divided by a power of two, again as a quotient. -/
def scaleDown (num den : Nat) (exponent : Int) : Nat × Nat :=
  (num <<< (-exponent).toNat, den <<< exponent.toNat)

/-- The magnitude with this mantissa, which has at most one bit too many. -/
def normalize (mantissa : Nat) (exponent : Int) : Binary64 :=
  let (m, e) :=
    if mantissa = mantissaBound then (mantissa / 2, exponent + 1) else (mantissa, exponent)
  if maxExponent < e then .infinite else .finite m e

/-- The magnitude nearest to `num / den`. -/
def ofRatio (num den : Nat) : Binary64 :=
  if den = 0 then
    if num = 0 then .notANumber else .infinite
  else if num = 0 then
    zero
  else
    let low : Int := max minExponent ((num.log2 : Int) - den.log2 - precision)
    let (n, d) := scaleDown num den low
    let exponent := if mantissaBound ≤ n / d then low + 1 else low
    let (n, d) := scaleDown num den exponent
    normalize (roundHalfEven n d) exponent

/-- The magnitude nearest to a natural number. -/
def ofNat (n : Nat) : Binary64 :=
  ofRatio n 1

/--
The magnitude nearest to `digits * 10 ^ exponent`. Exponents far outside the range of magnitudes
are told from the number of digits.
-/
def ofDecimal (digits : Nat) (exponent : Int) : Binary64 :=
  let top : Int := (toString digits).length + exponent
  if digits = 0 then zero
  else if 400 < top then .infinite
  else if top < -400 then zero
  else ofRatio (digits * tenTo exponent.toNat) (tenTo (-exponent).toNat)

def div : Binary64 → Binary64 → Binary64
  | .notANumber, _ => .notANumber
  | _, .notANumber => .notANumber
  | .infinite, .infinite => .notANumber
  | .infinite, .finite .. => .infinite
  | .finite .., .infinite => zero
  | .finite m e, .finite m' e' =>
      let (n, d) := scaleDown m m' (e' - e)
      ofRatio n d

/-- Whether a magnitude is below a natural number. -/
def ltNat : Binary64 → Nat → Bool
  | .finite m e, n =>
      let (a, b) := scaleDown m 1 (-e)
      decide (a < n * b)
  | _, _ => false

end Binary64
end KWayMerge
