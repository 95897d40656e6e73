import WeakIntern.Number.FixedPoint
/-!
# The shortest decimal text of a double

`shortestDigits` finds the fewest decimal digits that read back as the same double: it tests the two
neighbours of the value on the decimal grid of one digit, of two, and so on to seventeen. Of two
neighbours on the first grid that holds one, the nearer is taken, and of two equally near ones the
even. `shortestText` writes them as JSON does: at least one digit after the point, positional from
`1e-5` up to `1e16`, with a signed exponent elsewhere.
-/

namespace WeakIntern

/-- A positive fraction. -/
structure Fraction where
  num : Nat
  den : Nat

namespace Fraction

/-- `n · base ^ e` -/
def ofScaled (n base : Nat) : Int → Fraction
  | .ofNat e => ⟨n * base ^ e, 1⟩
  | .negSucc e => ⟨n, base ^ (e + 1)⟩

/-- Is `a` at most `b`? -/
def le (a b : Fraction) : Bool := a.num * b.den ≤ b.num * a.den

/-- Is `a` less than `b`? -/
def lt (a b : Fraction) : Bool := a.num * b.den < b.num * a.den

/-- The greatest `e` with `10 ^ e ≤ a`. The lengths of the two numbers leave two candidates. -/
def log10 (a : Fraction) : Int :=
  let e : Int := ((Nat.toDigits 10 a.num).length : Int) - ((Nat.toDigits 10 a.den).length : Int)
  if (ofScaled 1 10 e).le a then e else e - 1

end Fraction

/-- The numbers that read back as one positive double: those from `low` to `high`, the ends
included when the significand is even. -/
structure ReadBack where
  value : Fraction
  low : Fraction
  high : Fraction
  closed : Bool

namespace ReadBack

/-- Half the gap to the next double on either side. Below a power of two the gap is half as wide. -/
def ofFinite (significand : Nat) (exponent : Int) : ReadBack where
  value := .ofScaled significand 2 exponent
  low :=
    if significand = 2 ^ 52 ∧ exponent ≠ Binary64.minExponent then
      .ofScaled (4 * significand - 1) 2 (exponent - 2)
    else
      .ofScaled (4 * significand - 2) 2 (exponent - 2)
  high := .ofScaled (4 * significand + 2) 2 (exponent - 2)
  closed := significand % 2 = 0

/-- Does `a` read back as the double? -/
def holds (r : ReadBack) (a : Fraction) : Bool :=
  if r.closed then r.low.le a && a.le r.high else r.low.lt a && a.lt r.high

/-- The nearer neighbour of the value among the multiples of `10 ^ e`, if one of them reads back. -/
def nearest? (r : ReadBack) (e : Int) : Option Nat :=
  let step := Fraction.ofScaled 1 10 e
  let down := r.value.num * step.den / (r.value.den * step.num)
  let up := down + 1
  match r.holds (.ofScaled down 10 e), r.holds (.ofScaled up 10 e) with
  | false, false => none
  | true, false => some down
  | false, true => some up
  | true, true => some (roundEven (r.value.num * step.den) (r.value.den * step.num))

/-- Look at the grids of `digits`, `digits + 1`, … digits. -/
def search (r : ReadBack) (top : Int) (digits : Nat) : Nat → Option (Nat × Int)
  | 0 => none
  | grids + 1 =>
    let e := top + 1 - (digits : Int)
    match r.nearest? e with
    | some n => if n = 0 then search r top (digits + 1) grids else some (n, e)
    | none => search r top (digits + 1) grids

end ReadBack

/-- The digits of `n` without its trailing zeros, and how many those are. -/
def trimZeros (digits : List Char) : List Char × Nat :=
  let kept := digits.reverse.dropWhile (· == '0') |>.reverse
  (kept, digits.length - kept.length)

/-- The fewest digits that read back as `significand · 2 ^ exponent`, and the place of the point:
the value is `0.digits · 10 ^ point`. -/
def shortestDigits (significand : Nat) (exponent : Int) : List Char × Int :=
  let r := ReadBack.ofFinite significand exponent
  match r.search r.value.log10 1 17 with
  | none => (['0'], 1)
  | some (n, e) =>
    let (kept, zeros) := trimZeros (Nat.toDigits 10 n)
    (kept, e + (zeros : Int) + (kept.length : Int))

/-- Digits with the point at `point`: positional where -5 < point ≤ 16, else with an exponent, which
always bears its sign. -/
def placePoint (digits : List Char) (point : Int) : List Char :=
  let n := digits.length
  if 0 < point ∧ point ≤ 16 then
    let whole := point.toNat
    if n ≤ whole then digits ++ List.replicate (whole - n) '0' ++ ['.', '0']
    else digits.take whole ++ '.' :: digits.drop whole
  else if -5 < point ∧ point ≤ 0 then
    '0' :: '.' :: List.replicate (-point).toNat '0' ++ digits
  else
    let e := point - 1
    let exponent := 'e' :: (if e < 0 then '-' else '+') :: Nat.toDigits 10 e.natAbs
    match digits with
    | [d] => d :: exponent
    | d :: rest => d :: '.' :: rest ++ exponent
    | [] => exponent

/-- The shortest text of a double that reads back as the same double; none for NaN and the
infinities. -/
def shortestText? (x : Float) : Option String :=
  match Binary64.ofFloat x with
  | .nan | .infinite _ => none
  | .finite negative 0 _ => some (String.ofList (signText negative ++ ['0', '.', '0']))
  | .finite negative significand exponent =>
    let (digits, point) := shortestDigits significand exponent
    some (String.ofList (signText negative ++ placePoint digits point))

end WeakIntern
