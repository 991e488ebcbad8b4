import StaticSite.Decimal.Reading

/-!
# Internet addresses

This file tells which texts are addresses: four decimal numbers with points between, or eight
groups of hexadecimal digits with colons between, where two colons stand for groups of zeros and
the last two groups may be written as four numbers.
-/

namespace StaticSite
namespace NetworkAddress

/-- What follows a decimal number below 256 without needless zeros. -/
def octet? (chars : List Char) : Option (List Char) :=
  let digits := chars.takeWhile Char.isDigit
  let plain := digits.head? != some '0' || digits.length == 1
  if digits.isEmpty || 3 < digits.length || !plain || 255 < Decimal.value digits then none
  else some (chars.dropWhile Char.isDigit)

/-- What follows the mark between two parts; none is needed before the first. -/
def separated? (mark : Char) (first : Bool) (chars : List Char) : Option (List Char) :=
  if first then some chars
  else
    match chars with
    | c :: rest => if c == mark then some rest else none
    | [] => none

/-- What follows the given number of decimal numbers with points between. -/
def octets? : Nat → Bool → List Char → Option (List Char)
  | 0, _, chars => some chars
  | count + 1, first, chars => do
      let start ← separated? '.' first chars
      octets? count false (← octet? start)

/-- What follows four numbers with points between. -/
def quad? (chars : List Char) : Option (List Char) :=
  octets? 4 true chars

/-- What follows one to four hexadecimal digits. -/
def group? (chars : List Char) : Option (List Char) :=
  let isDigit := fun c => (Decimal.digit? c).isSome
  let digits := chars.takeWhile isDigit
  if digits.isEmpty || 4 < digits.length then none else some (chars.dropWhile isDigit)

/-- Read groups with colons between, at most the given number, the last two maybe as four numbers.
The count of groups is given, whether they end in four numbers, and what follows. -/
def groups : Nat → Bool → List Char → Nat × Bool × List Char
  | 0, _, chars => (0, false, chars)
  | left + 1, first, chars =>
      match separated? ':' first chars with
      | none => (0, false, chars)
      | some start =>
          match if left == 0 then none else quad? start with
          | some rest => (2, true, rest)
          | none =>
              match group? start with
              | none => (0, false, chars)
              | some rest =>
                  let (count, endsInQuad, rest) := groups left false rest
                  (count + 1, endsInQuad, rest)

/-- What follows eight groups, or fewer with two colons among them. -/
def grouped? (chars : List Char) : Option (List Char) :=
  let (count, endsInQuad, rest) := groups 8 true chars
  if count == 8 then some rest
  else if endsInQuad then none
  else
    match rest with
    | ':' :: ':' :: rest => some (groups (7 - count) true rest).2.2
    | _ => none

/-- Whether a text is an internet address. -/
def isValid (text : String) : Bool :=
  match (quad? text.toList).or (grouped? text.toList) with
  | some rest => rest.isEmpty
  | none => false

end NetworkAddress
end StaticSite
