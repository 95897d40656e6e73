import WeakIntern.Number.Binary64
/-!
# Decimal text with a fixed number of places

`fixedPoint k x` is the exact value of the double `x` rounded to `k` places, ties to even, with the
sign of a negative zero kept. Infinities are `inf` and `-inf`, and every NaN is `NaN`.
-/

namespace WeakIntern

/-- The digits of `n`, with zeros in front up to `width`. -/
def paddedDigits (width n : Nat) : List Char :=
  let digits := Nat.toDigits 10 n
  List.replicate (width - digits.length) '0' ++ digits

/-- `units · 10 ^ -places` written out. -/
def pointText (places units : Nat) : List Char :=
  let digits := paddedDigits (places + 1) units
  let whole := digits.take (digits.length - places)
  if places = 0 then whole else whole ++ '.' :: digits.drop (digits.length - places)

/-- `significand · 2 ^ exponent` as a multiple of `10 ^ -places`, to the nearest, ties to even. -/
def scaledUnits (places significand : Nat) (exponent : Int) : Nat :=
  let scaled := significand * 10 ^ places
  match exponent with
  | .ofNat e => scaled * 2 ^ e
  | .negSucc e => roundEven scaled (2 ^ (e + 1))

/-- The sign of a negative number. -/
def signText (negative : Bool) : List Char := if negative then ['-'] else []

/-- A double with `places` digits after the point. -/
def fixedPoint (places : Nat) (x : Float) : String :=
  match Binary64.ofFloat x with
  | .nan => "NaN"
  | .infinite negative => String.ofList (signText negative) ++ "inf"
  | .finite negative significand exponent =>
    String.ofList (signText negative ++ pointText places (scaledUnits places significand exponent))

end WeakIntern
