import LiveQuery.Json

/-!
# Numbers in JSON

A number without a fraction or an exponent is an integer while 64 bits hold it. Every
other number is read as a significand of at most 64 bits and a power of ten: digits
that no longer fit count only for the power. The float is the rounded significand,
multiplied with or divided by the rounded power of ten.
-/

namespace LiveQuery.Json

/-- The largest significand. -/
def maxSignificand : Nat := 0xffffffffffffffff

/-- The largest exponent that is read. -/
def maxExponent : Nat := 0x7fffffff

/-- The digits at the front of a text, and the rest. -/
def spanDigits (cs : List Char) : List Nat × List Char :=
  ((cs.takeWhile Char.isDigit).map fun c => c.toNat - '0'.toNat, cs.dropWhile Char.isDigit)

/-- Appends digits to a significand while they fit: the significand and how many did not. -/
def accumulate (significand : Nat) : List Nat → Nat × Nat
  | [] => (significand, 0)
  | digit :: rest =>
      if significand * 10 + digit ≤ maxSignificand then accumulate (significand * 10 + digit) rest
      else (significand, rest.length + 1)

/-- Divides by `10 ^ n`, in at most the given number of steps of at most `10 ^ 308`. -/
def divideBy : Nat → Binary64 → Nat → Binary64
  | 0, x, _ => x
  | steps + 1, x, n =>
      if n ≤ 308 then x / Binary64.ofNat (Nat.pow 10 n)
      else divideBy steps (x / Binary64.ofNat (Nat.pow 10 308)) (n - 308)

/-- Divides a significand by `10 ^ n`; three full steps leave nothing of it. -/
def divideByPower (x : Binary64) (n : Nat) : Binary64 :=
  divideBy 4 x n

/-- `significand · 10 ^ exponent` as a float, unless it is too large. -/
def scale? (significand : Nat) (exponent : Int) : Option Binary64 :=
  let x := Binary64.ofNat significand
  if 0 ≤ exponent then
    if 308 < exponent then
      if x.isZero then some x else none
    else
      let y := x * Binary64.ofNat (Nat.pow 10 exponent.toNat)
      if y.isFinite then some y else none
  else some (divideByPower x (-exponent).toNat)

/-- A float with the sign in front of it. -/
def signed (negative : Bool) (x : Binary64) : Json :=
  .float (if negative then -x else x)

/-- Reads the exponent after its letter: the number and the rest of the text. -/
def exponent? (negative : Bool) (significand : Nat) (start : Int) (cs : List Char) :
    Option (Json × List Char) :=
  let (below, cs) :=
    match cs with
    | '+' :: cs => (false, cs)
    | '-' :: cs => (true, cs)
    | cs => (false, cs)
  match spanDigits cs with
  | ([], _) => none
  | (digits, rest) =>
      let exponent := digits.foldl (fun n digit => n * 10 + digit) 0
      if maxExponent < exponent then
        if below || significand = 0 then some (signed negative (Binary64.ofNat 0), rest) else none
      else
        (scale? significand (if below then start - exponent else start + exponent)).map
          fun x => (signed negative x, rest)

/-- Ends a number that is not an integer, with its exponent if it has one. -/
def finish? (negative : Bool) (significand : Nat) (exponent : Int) (cs : List Char) :
    Option (Json × List Char) :=
  match cs with
  | 'e' :: rest => exponent? negative significand exponent rest
  | 'E' :: rest => exponent? negative significand exponent rest
  | rest => (scale? significand exponent).map fun x => (signed negative x, rest)

/-- Reads the fraction after its point. -/
def fraction? (negative : Bool) (significand : Nat) (exponent : Int) (cs : List Char) :
    Option (Json × List Char) :=
  match spanDigits cs with
  | ([], _) => none
  | (digits, rest) =>
      let (significand, left) := accumulate significand digits
      finish? negative significand (exponent - (digits.length - left : Nat)) rest

/-- Reads a number after its sign. -/
def unsigned? (negative : Bool) (cs : List Char) : Option (Json × List Char) :=
  match spanDigits cs with
  | ([], _) => none
  | (0 :: _ :: _, _) => none
  | (digits, rest) =>
      let (significand, left) := accumulate 0 digits
      match rest with
      | '.' :: rest => fraction? negative significand left rest
      | 'e' :: _ => finish? negative significand left rest
      | 'E' :: _ => finish? negative significand left rest
      | rest =>
          if left ≠ 0 then finish? negative significand left rest
          else if !negative then some (.int significand, rest)
          else if significand = 0 || 0x8000000000000000 < significand then
            some (signed true (Binary64.ofNat significand), rest)
          else some (.int (-significand), rest)

/-- Reads a number at the front of a text. -/
def number? : List Char → Option (Json × List Char)
  | '-' :: cs => unsigned? true cs
  | cs => unsigned? false cs

end LiveQuery.Json
