import NinjaFile.Binary.Binary64
import NinjaFile.Decimal.Shortest
import NinjaFile.Numeral

/-!
# Fractional numbers as text

A number is written with the fewest digits that read back. A leading digit from
the fourth place behind the point to the sixteenth before it is written
positionally, any other with an exponent. What is left open is how the values
that are no decimal are spelled.
-/

namespace NinjaFile.Decimal

structure Style where
  nan : String
  infinity : String

def trimZeros (ds : List Char) : List Char :=
  (ds.reverse.dropWhile (· == '0')).reverse

/-- An exponent: its sign and at least two digits. -/
def exponentText (e : Int) : List Char :=
  let ds := Numeral.digits e.natAbs
  (if e < 0 then '-' else '+') :: (if ds.length < 2 then '0' :: ds else ds)

/-- Digits with the point behind the first `places` of them, or with an exponent. -/
def place (ds : List Char) (places : Int) : List Char :=
  if -4 < places ∧ places ≤ 16 then
    if places ≤ 0 then '0' :: '.' :: List.replicate (-places).toNat '0' ++ ds
    else
      let whole := places.toNat
      if ds.length ≤ whole then ds ++ List.replicate (whole - ds.length) '0' ++ ['.', '0']
      else ds.take whole ++ '.' :: ds.drop whole
  else
    let fraction := match ds.drop 1 with
      | [] => []
      | rest => '.' :: rest
    ds.take 1 ++ fraction ++ 'e' :: exponentText (places - 1)

def magnitudeText (significand : Nat) (exponent : Int) : List Char :=
  if significand = 0 then ['0', '.', '0']
  else
    let n := shortest .double significand exponent
    let all := Numeral.digits n.digits
    place (trimZeros all) (all.length + n.exponent)

/-- The text of a double. A zero keeps its sign. -/
def Style.text (style : Style) (x : Binary64) : List Char :=
  let signed (negative : Bool) (cs : List Char) := if negative then '-' :: cs else cs
  match x.datum with
  | .nan => style.nan.toList
  | .infinite negative => signed negative style.infinity.toList
  | .finite negative significand exponent => signed negative (magnitudeText significand exponent)

end NinjaFile.Decimal
