/-!
The fewest decimal digits that read back as a given binary fraction. A finite double is `m * 2^q`;
the reals that round to it form an interval, and the shortest decimal inside it is found by trying
one digit, two digits and so on, on the two grid points next to the value.
-/

set_option autoImplicit false
set_option relaxedAutoImplicit false

namespace DocLocale.Decimal

/-- A positive binary fraction `m * 2^q` with the distance to the neighbour below halved when
`narrowBelow` holds (the value is a power of two). -/
structure Binary where
  m : Nat
  q : Int
  narrowBelow : Bool

/-- Digits and decimal exponent: the value `digits * 10^exponent`. -/
structure Scientific where
  digits : Nat
  exponent : Int

/-- The magnitude of a finite double from its bits; `none` for zero. -/
def Binary.ofBits? (bits : UInt64) : Option Binary :=
  let mantissa := (bits &&& 0x000FFFFFFFFFFFFF).toNat
  let biased := ((bits >>> 52) &&& 0x7FF).toNat
  if biased = 0 then
    if mantissa = 0 then none else some ⟨mantissa, -1074, false⟩
  else some ⟨mantissa + 0x10000000000000, (biased : Int) - 1075, mantissa = 0 && 1 < biased⟩

/-- The power of a base with a nonnegative exponent, and 1 for a negative one. -/
private def powerOf (base : Nat) (e : Int) : Nat := base.pow e.toNat

/-- Whether `digits * 10^e` lies in the interval that rounds to `b`: within two quarters of the unit
above and two, or one, below, the ends included when `m` is even. -/
def Binary.contains (b : Binary) (digits : Nat) (e : Int) : Bool :=
  let point := digits * powerOf 10 e * powerOf 2 (2 - b.q)
  let unit := powerOf 10 (-e) * powerOf 2 (b.q - 2)
  let high := (4 * b.m + 2) * unit
  let low := (4 * b.m - (if b.narrowBelow then 1 else 2)) * unit
  if b.m % 2 = 0 then low ≤ point && point ≤ high else low < point && point < high

/-- The least `k` at which `p k` holds, searched from `k` upwards for at most `fuel` steps. -/
private def firstFrom (p : Nat → Bool) : Nat → Nat → Nat
  | 0, k => k
  | fuel + 1, k => if p k then k else firstFrom p fuel (k + 1)

/-- The decimal exponent of the leading digit. -/
def Binary.magnitude (b : Binary) : Int :=
  let num := b.m * powerOf 2 b.q
  let den := powerOf 2 (-b.q)
  if den ≤ num then ((firstFrom (fun k => num < den * Nat.pow 10 (k + 1)) 400 0 : Nat) : Int)
  else -((firstFrom (fun k => den ≤ num * Nat.pow 10 k) 400 1 : Nat) : Int)

/-- The nearer of the two grid points with spacing `10^e` around the value that lie in the interval;
of two equally near ones the even one. -/
def Binary.nearest? (b : Binary) (e : Int) : Option Nat :=
  let num := b.m * powerOf 2 b.q * powerOf 10 (-e)
  let den := powerOf 2 (-b.q) * powerOf 10 e
  let below := num / den
  let rest := num % den
  let lowOk := b.contains below e && below ≠ 0
  let highOk := b.contains (below + 1) e
  if lowOk && highOk then
    if 2 * rest < den || (2 * rest = den && below % 2 = 0) then some below else some (below + 1)
  else if lowOk then some below
  else if highOk then some (below + 1)
  else none

/-- Tries ever finer grids, at most `fuel` of them. -/
private def refine (b : Binary) : Nat → Int → Scientific
  | 0, e => ⟨(b.nearest? e).getD b.m, e⟩
  | fuel + 1, e =>
    match b.nearest? e with
    | some digits => ⟨digits, e⟩
    | none => refine b fuel (e - 1)

/-- Moves trailing zeros of the digits into the exponent. -/
def Scientific.trimmed (s : Scientific) : Nat → Scientific
  | 0 => s
  | fuel + 1 =>
    if s.digits % 10 = 0 && s.digits ≠ 0 then
      Scientific.trimmed ⟨s.digits / 10, s.exponent + 1⟩ fuel
    else s

/-- The shortest decimal that reads back as the given fraction. -/
def shortest (b : Binary) : Scientific := (refine b 17 b.magnitude).trimmed 20

end DocLocale.Decimal
