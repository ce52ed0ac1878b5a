import Mathlib

/-!
# Decimal strings to integers

The codec of `tape.fixedpoint`: a price, a count or an amount arrives as a
decimal string and becomes an integer in a fixed unit, once and for good.

The source leans on two pieces of Python, and both are more than their names
say. The pattern `^-?\d+(\.\d+)?$` takes every decimal digit Unicode has, and
its `$` matches before a newline that ends the string. `Decimal.scaleb` works
in the default context: it rounds the coefficient to 28 digits, half to even,
before anything asks whether the value is an integer. Both are written out
here, so that what the codec accepts is what the source accepts.
-/

namespace Tape

/-- Why a string is refused. `overflow` is not a `FixedPointError`: it is the
`decimal.Overflow` of `scaleb`, which the codec does not catch. -/
inductive NumeralError where
  | notPlain (what text : String)
  | tooManyDecimals (what : String) (decimals : Nat) (text : String)
  | outOfRange (text : String)
  | negative (text : String)
  | overflow
  deriving DecidableEq, Repr

namespace Fixedpoint

/-- The scales and decimals of the units. -/
def priceScale : Int := 10000
def priceDecimals : Nat := 4
def countDecimals : Nat := 2
def dollarsDecimals : Nat := 6

/-- The code points of the zeros of Unicode 15, each followed by the other
nine digits of its script. -/
def zeros : List Nat :=
  [0x30, 0x660, 0x6F0, 0x7C0, 0x966, 0x9E6, 0xA66, 0xAE6, 0xB66, 0xBE6, 0xC66, 0xCE6,
    0xD66, 0xDE6, 0xE50, 0xED0, 0xF20, 0x1040, 0x1090, 0x17E0, 0x1810, 0x1946, 0x19D0,
    0x1A80, 0x1A90, 0x1B50, 0x1BB0, 0x1C40, 0x1C50, 0xA620, 0xA8D0, 0xA900, 0xA9D0,
    0xA9F0, 0xAA50, 0xABF0, 0xFF10, 0x104A0, 0x10D30, 0x11066, 0x110F0, 0x11136,
    0x111D0, 0x112F0, 0x11450, 0x114D0, 0x11650, 0x116C0, 0x11730, 0x118E0, 0x11950,
    0x11C50, 0x11D50, 0x11DA0, 0x11F50, 0x16A60, 0x16AC0, 0x16B50, 0x1D7CE, 0x1D7D8,
    0x1D7E2, 0x1D7EC, 0x1D7F6, 0x1E140, 0x1E2F0, 0x1E4F0, 0x1E950, 0x1FBF0]

/-- The value of a decimal digit of any script. -/
def digit? (c : Char) : Option Nat :=
  (zeros.find? fun z => z ≤ c.toNat ∧ c.toNat < z + 10).map fun z => c.toNat - z

/-- The leading digits of a text, and what follows them. -/
def spanDigits : List Char → List Nat × List Char
  | [] => ([], [])
  | c :: rest =>
      match digit? c with
      | none => ([], c :: rest)
      | some d => let (ds, tail) := spanDigits rest; (d :: ds, tail)

/-- A text the pattern matches: sign, digits before and after the point. -/
structure PlainDecimal where
  negative : Bool
  whole : List Nat
  fraction : List Nat
  deriving DecidableEq, Repr

/-- Where `$` matches. -/
def atEnd (text : List Char) : Bool := text = [] ∨ text = ['\n']

/-- `_DECIMAL_STRING.match`, with the digits it matched. -/
def matchDecimal (text : List Char) : Option PlainDecimal :=
  let (negative, unsigned) :=
    match text with
    | '-' :: rest => (true, rest)
    | _ => (false, text)
  let (whole, tail) := spanDigits unsigned
  if whole = [] then none
  else if atEnd tail then some ⟨negative, whole, []⟩
  else
    match tail with
    | '.' :: rest =>
        let (fraction, tail') := spanDigits rest
        if fraction = [] then none
        else if atEnd tail' then some ⟨negative, whole, fraction⟩
        else none
    | _ => none

/-- The number some digits write. -/
def ofDigits (ds : List Nat) : Nat := ds.foldl (fun n d => 10 * n + d) 0

/-- The number of digits of a coefficient; a zero coefficient has one. -/
def numDigits (n : Nat) : Nat := (Nat.toDigits 10 n).length

/-- Drop the last `k` digits, rounding half to even. -/
def roundHalfEven (coefficient k : Nat) : Nat :=
  let unit := 10 ^ k
  let q := coefficient / unit
  let r := coefficient % unit
  if 2 * r < unit then q
  else if unit < 2 * r then q + 1
  else if q % 2 = 0 then q else q + 1

/-- The default context of `decimal`. -/
def contextPrec : Nat := 28
/-- The exponents of the decimal context. -/
def contextEmax : Int := 999999
def contextEtiny : Int := -1000026

/-- A finite decimal `coefficient * 10 ^ exponent`, brought into the context:
`none` when it overflows. -/
def fix (coefficient : Nat) (exponent : Int) : Option (Nat × Int) :=
  if coefficient = 0 then some (0, exponent)
  else
    let adjusted := (numDigits coefficient : Int) - 1 + exponent
    if adjusted > contextEmax then none
    else
      let drop := max (numDigits coefficient - contextPrec) (contextEtiny - exponent).toNat
      let rounded := roundHalfEven coefficient drop
      if (numDigits rounded : Int) - 1 + (exponent + drop) > contextEmax then none
      else some (rounded, exponent + drop)

/-- `int(value)` when `value == value.to_integral_value()`. -/
def integral? (coefficient : Nat) (exponent : Int) : Option Nat :=
  if 0 ≤ exponent then some (coefficient * 10 ^ exponent.toNat)
  else if coefficient % 10 ^ (-exponent).toNat = 0 then
    some (coefficient / 10 ^ (-exponent).toNat)
  else none

/-- `_parse_scaled`. -/
def parseScaled (text : String) (decimals : Nat) (what : String) : Except NumeralError Int :=
  match matchDecimal text.toList with
  | none => .error (.notPlain what text)
  | some d =>
      match fix (ofDigits (d.whole ++ d.fraction)) (decimals - d.fraction.length) with
      | none => .error .overflow
      | some (coefficient, exponent) =>
          match integral? coefficient exponent with
          | none => .error (.tooManyDecimals what decimals text)
          | some n => .ok (if d.negative then -n else n)

end Fixedpoint

open Fixedpoint

/-- A price, within a dollar. -/
def parsePrice (text : String) : Except NumeralError Int :=
  match parseScaled text priceDecimals "price" with
  | .error e => .error e
  | .ok value => if value < 0 ∨ value > priceScale then .error (.outOfRange text) else .ok value

/-- A count, not negative. -/
def parseCount (text : String) : Except NumeralError Int :=
  match parseScaled text countDecimals "count" with
  | .error e => .error e
  | .ok value => if value < 0 then .error (.negative text) else .ok value

/-- A change of a count. -/
def parseSignedCount (text : String) : Except NumeralError Int :=
  parseScaled text countDecimals "count delta"

/-- An amount of money. -/
def parseDollars (text : String) : Except NumeralError Int :=
  parseScaled text dollarsDecimals "dollars"

namespace Fixedpoint

/-- The longest integer Python turns into text, in digits; a longer one is a
`ValueError`. -/
def intMaxStrDigits : Nat := 4300

/-- An integer's text, filled up with zeros on the left. -/
def zeroPadded (n width : Nat) : List Char :=
  List.replicate (width - (Nat.toDigits 10 n).length) '0' ++ Nat.toDigits 10 n

/-- `_format_scaled`; `none` is the `ValueError` of an integer too long. -/
def formatScaled (value : Int) (decimals : Nat) : Option String :=
  let magnitude := value.natAbs
  let scale := 10 ^ decimals
  if numDigits (magnitude / scale) > intMaxStrDigits then none
  else
    some (String.ofList ((if value < 0 then ['-'] else []) ++
      (Nat.toDigits 10 (magnitude / scale) ++ '.' :: zeroPadded (magnitude % scale) decimals)))

end Fixedpoint

/-- A price as it is written. -/
def formatPrice (price : Int) : Option String := formatScaled price priceDecimals

/-- A count as it is written. -/
def formatCount (count : Int) : Option String := formatScaled count countDecimals

/-- An amount of money as it is written. -/
def formatDollars (dollars : Int) : Option String := formatScaled dollars dollarsDecimals

/-- The NO-leg price of a YES-leg price, or the other way round. -/
def complement (price : Int) : Int := priceScale - price

example : parsePrice "0.5600" = .ok 5600 := rfl
example : parseSignedCount "-54.00" = .ok (-5400) := rfl
example : formatCount (-5400) = some "-54.00" := rfl

theorem parsePrice_range {text : String} {p : Int} (h : parsePrice text = .ok p) :
    0 ≤ p ∧ p ≤ priceScale := by
  rw [parsePrice] at h
  split at h
  · cases h
  · split at h
    · cases h
    · next hr =>
        obtain rfl := Except.ok.inj h
        omega

theorem parseCount_nonneg {text : String} {c : Int} (h : parseCount text = .ok c) :
    0 ≤ c := by
  rw [parseCount] at h
  split at h
  · cases h
  · split at h
    · cases h
    · next hr =>
        obtain rfl := Except.ok.inj h
        omega

end Tape
