import MediaFramework.Lib.Text

/-!
# Numbers of type `double`

The values of IEEE 754 binary64, what rounds to the nearest of them, and `strtod`.
-/

/-- A value of `double`. The finite ones are `mantissa * 2^exponent` with a sign. -/
inductive Double where
  | finite (negative : Bool) (mantissa : Nat) (exponent : Int)
  | infinite (negative : Bool)
  | nan
  deriving DecidableEq, Repr

namespace Double

/-- `n / d` rounded to the nearest integer, a tie to the even one. -/
def divRound (n d : Nat) : Nat :=
  if d < 2 * (n % d) ∨ (2 * (n % d) = d ∧ n / d % 2 = 1) then n / d + 1 else n / d

/-- The exponent of the last bit of the 53 that a value near `n / d` has, at least that of the
subnormal numbers. -/
def exponentOf (n d : Nat) : Int :=
  let k : Int := n.log2 - d.log2
  let atLeast : Bool := if 0 ≤ k then d * 2^k.toNat ≤ n else d ≤ n * 2^(-k).toNat
  max (-1074) (if atLeast then k - 52 else k - 53)

/-- The value nearest to `n / d`. -/
def nearest (negative : Bool) (n d : Nat) : Double :=
  let e := exponentOf n d
  let m := if 0 ≤ e then divRound n (d * 2^e.toNat) else divRound (n * 2^(-e).toNat) d
  if 0 ≤ e ∧ 2^1024 ≤ m * 2^e.toNat then infinite negative else finite negative m e

/-- The value nearest to `m * 2^e * n`. -/
def nearestScaled (negative : Bool) (m : Nat) (e : Int) (n : Nat) : Double :=
  if 0 ≤ e then nearest negative (m * 2^e.toNat * n) 1 else nearest negative (m * n) (2^(-e).toNat)

/-- The product with a whole number. -/
def mulNat (n : Nat) : Double → Double
  | finite negative m e => nearestScaled negative m e n
  | infinite negative => if n = 0 then nan else infinite negative
  | nan => nan

/-- A value converted to `int64_t`. Out of range the language leaves the result open: it is the
nearest number in range here, and 0 for a NaN. -/
def toInt64 : Double → Int
  | finite negative m e =>
    let magnitude := if 0 ≤ e then m * 2^e.toNat else m / 2^(-e).toNat
    max (-2^63) (min (if negative then -magnitude else magnitude) (2^63 - 1))
  | infinite negative => if negative then -2^63 else 2^63 - 1
  | nan => 0

/-! ## Text -/

def digitVal (c : Char) : Nat :=
  if c.isDigit then c.toNat - 48
  else if 'a' ≤ c.toLower ∧ c.toLower ≤ 'z' then c.toLower.toNat - 87 else 36

/-- Digits with at most one point among them: their number without the point, how many stand behind
the point, and what follows. -/
def scanMantissa (base : Nat) (s : List Char) : Option (Nat × Nat × List Char) :=
  let isDigit : Char → Bool := fun c => digitVal c < base
  let whole := s.takeWhile isDigit
  let parts := match s.dropWhile isDigit with
    | '.' :: rest => (rest.takeWhile isDigit, rest.dropWhile isDigit)
    | rest => ([], rest)
  if whole ++ parts.1 = [] then none
  else some ((whole ++ parts.1).foldl (fun n c => base * n + digitVal c) 0, parts.1.length, parts.2)

/-- An exponent behind `mark`, 0 where there is none. -/
def scanExponent (mark : Char) : List Char → Int × List Char
  | [] => (0, [])
  | c :: s =>
    if c.toLower = mark then
      let digits : Option (Int × List Char) := match s with
        | '-' :: s => (Text.scanDigits s).map fun r => (-(r.1 : Int), r.2)
        | '+' :: s => (Text.scanDigits s).map fun r => ((r.1 : Int), r.2)
        | s => (Text.scanDigits s).map fun r => ((r.1 : Int), r.2)
      digits.getD (0, c :: s)
    else (0, c :: s)

/-- The value nearest to `m * base^e * 2^-shift`. -/
def scaled (base m : Nat) (e : Int) (shift : Nat) : Double :=
  if 0 ≤ e then nearest false (m * base^e.toNat) (2^shift)
  else nearest false m (base^(-e).toNat * 2^shift)

def scanDecimal (s : List Char) : Option (Double × List Char) :=
  (scanMantissa 10 s).map fun r =>
    let exponent := scanExponent 'e' r.2.2
    (scaled 10 r.1 (exponent.1 - r.2.1) 0, exponent.2)

def scanHexadecimal (s : List Char) : Option (Double × List Char) :=
  (scanMantissa 16 s).map fun r =>
    let exponent := scanExponent 'p' r.2.2
    (scaled 2 r.1 exponent.1 (4 * r.2.1), exponent.2)

/-- What a NaN has between parentheses. -/
def scanPayload (s : List Char) : List Char :=
  match s with
  | '(' :: rest =>
    match rest.dropWhile fun c => c.isAlphanum || c = '_' with
    | ')' :: rest => rest
    | _ => s
  | _ => s

def scanUnsigned (s : List Char) : Option (Double × List Char) :=
  if Text.startsWithIgnoreCase s "infinity".toList then some (infinite false, s.drop 8)
  else if Text.startsWithIgnoreCase s "inf".toList then some (infinite false, s.drop 3)
  else if Text.startsWithIgnoreCase s "nan".toList then some (nan, scanPayload (s.drop 3))
  else if Text.startsWithIgnoreCase s "0x".toList then
    (scanHexadecimal (s.drop 2)).or (scanDecimal s)
  else scanDecimal s

def neg : Double → Double
  | finite negative m e => finite (!negative) m e
  | infinite negative => infinite (!negative)
  | nan => nan

/-- `strtod`: the value, and what follows the number. -/
def strtod (s : List Char) : Option (Double × List Char) :=
  Text.scanSigned scanUnsigned neg (Text.cstr s)

example : ((strtod "  6.006,title".toList).map fun r => ((mulNat 1000000 r.1).toInt64, r.2)) =
    some (6006000, ",title".toList) := by decide +kernel

end Double
