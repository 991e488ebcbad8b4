import StaticSite.Toml.Basic
import StaticSite.Toml.Quoted

/-!
# Values in TOML

This file reads keys, numbers, dates and times, and the collections that hold them.  Arrays and
inline tables may be nested up to a depth of 79.
-/

namespace StaticSite
namespace Toml

/-! ### Numbers -/

/-- Digits with single underscores between them, the underscores left out, and what follows. -/
def digits? (isDigit : Char → Bool) : List Char → Option (List Char × List Char)
  | [] => none
  | c :: rest =>
      if !isDigit c then none
      else
        match rest with
        | '_' :: d :: after =>
            match digits? isDigit (d :: after) with
            | some (more, rest) => some (c :: more, rest)
            | none => none
        | '_' :: [] => none
        | d :: after =>
            if isDigit d then
              match digits? isDigit (d :: after) with
              | some (more, rest) => some (c :: more, rest)
              | none => none
            else some ([c], d :: after)
        | [] => some ([c], [])

/-- Decimal digits without a leading zero, or a zero. -/
def wholeDigits? : List Char → Option (List Char × List Char)
  | '0' :: rest => some (['0'], rest)
  | chars => digits? Char.isDigit chars

/-- An integer in a base that is named by a mark. -/
def basedInteger? (base : Nat) (chars : List Char) : Option (Toml × List Char) := do
  let isDigit := fun c => (Decimal.digit? c).any fun digit => digit < base
  let (digits, rest) ← digits? isDigit chars
  let value ← Decimal.digits? base digits
  if value < Nat.pow 2 63 then pure (.integer value, rest) else none

def fraction? : List Char → Option (Option (List Char) × List Char)
  | '.' :: rest => (digits? Char.isDigit rest).map fun (digits, rest) => (some digits, rest)
  | chars => some (none, chars)

def exponent? : List Char → Option (Option (Bool × List Char) × List Char)
  | c :: rest =>
      if c == 'e' || c == 'E' then
        let (negative, digits) := Decimal.splitSign rest
        (digits? Char.isDigit digits).map fun (digits, rest) => (some (negative, digits), rest)
      else some (none, c :: rest)
  | [] => some (none, [])

/-- A word for an infinity or for what is no number, and what follows. -/
def specialFloat? (negative : Bool) : List Char → Option (Toml × List Char)
  | 'i' :: 'n' :: 'f' :: rest => some (.float (Binary64.infinity negative), rest)
  | 'n' :: 'a' :: 'n' :: rest => some (.float Binary64.notANumber, rest)
  | _ => none

/-- A number.  Integers must fit 64 bits, and floats must not exceed the greatest one. -/
def number? (chars : List Char) : Option (Toml × List Char) :=
  match chars with
  | '0' :: 'x' :: rest => basedInteger? 16 rest
  | '0' :: 'o' :: rest => basedInteger? 8 rest
  | '0' :: 'b' :: rest => basedInteger? 2 rest
  | _ =>
      let (negative, unsigned) := Decimal.splitSign chars
      match specialFloat? negative unsigned with
      | some special => some special
      | none => do
          let (whole, rest) ← wholeDigits? unsigned
          let (fraction, rest) ← fraction? rest
          let (exponent, rest) ← exponent? rest
          let numeral : Decimal.Numeral := ⟨whole, fraction, exponent⟩
          if numeral.isFloat then
            let value := numeral.toFloat negative
            if value.isInf && !negative then none else pure (.float value, rest)
          else
            let value : Int :=
              if negative then -(Decimal.value whole : Int) else Decimal.value whole
            if Decimal.fitsInt64 value then pure (.integer value, rest) else none

/-! ### Dates and times -/

/-- The value of the given number of digits, and what follows. -/
def fixedDigits? (count : Nat) (chars : List Char) : Option (Nat × List Char) :=
  let digits := chars.take count
  if digits.length == count && digits.all Char.isDigit then
    some (Decimal.value digits, chars.drop count)
  else none

def twoDigits? (least greatest : Nat) (chars : List Char) : Option (List Char) :=
  match fixedDigits? 2 chars with
  | some (value, rest) => if least ≤ value && value ≤ greatest then some rest else none
  | none => none

def after? (mark : Char) : List Char → Option (List Char)
  | [] => none
  | c :: rest => if c == mark then some rest else none

def daysOf (year month : Nat) : Nat :=
  let leap := year % 4 == 0 && (year % 100 != 0 || year % 400 == 0)
  if month == 2 then if leap then 29 else 28
  else if [4, 6, 9, 11].contains month then 30
  else 31

def date? (chars : List Char) : Option (List Char) := do
  let (year, rest) ← fixedDigits? 4 chars
  let (month, rest) ← fixedDigits? 2 (← after? '-' rest)
  if month < 1 || 12 < month then none
  else twoDigits? 1 (daysOf year month) (← after? '-' rest)

def time? (chars : List Char) : Option (List Char) := do
  let rest ← after? ':' (← twoDigits? 0 23 chars)
  let rest ← after? ':' (← twoDigits? 0 59 rest)
  let rest ← twoDigits? 0 60 rest
  match rest with
  | '.' :: fraction =>
      if (fraction.head?.map Char.isDigit).getD false then
        pure (fraction.dropWhile Char.isDigit)
      else pure rest
  | rest => pure rest

/-- What follows the distance from universal time; none if it is malformed. -/
def offset? (chars : List Char) : Option (List Char) :=
  match chars with
  | c :: rest =>
      if c == 'Z' || c == 'z' then some rest
      else if c == '+' || c == '-' then do
        let rest ← after? ':' (← twoDigits? 0 23 rest)
        twoDigits? 0 59 rest
      else some chars
  | [] => some []

/-- What follows a date, a time, or both. -/
def moment? (chars : List Char) : Option (List Char) :=
  match date? chars with
  | none => time? chars
  | some rest =>
      match rest with
      | c :: inner =>
          if [' ', 'T', 't'].contains c then
            match time? inner with
            | some rest => offset? rest
            | none => some rest
          else some rest
      | [] => some []

/-! ### Keys and values -/

/-- Whether a character may stand in a key without quotes. -/
def isBare (c : Char) : Bool :=
  c.isAlphanum || c == '_' || c == '-'

/-- One name of a key, and what follows. -/
def name? (chars : List Char) : Option (String × List Char) :=
  match chars with
  | [] => none
  | c :: _ =>
      if c == '"' || c == '\'' then simpleString? chars
      else
        let name := chars.takeWhile isBare
        if name.isEmpty then none else some (String.ofList name, chars.dropWhile isBare)

/-- The names of a dotted key, and what follows, blanks left out.  `steps` bounds the names. -/
def key? : Nat → List Char → Option (List String × List Char)
  | 0, _ => none
  | steps + 1, chars => do
      let (name, rest) ← name? (skipBlanks chars)
      match skipBlanks rest with
      | '.' :: rest =>
          let (names, rest) ← key? steps rest
          pure (name :: names, rest)
      | rest => pure ([name], rest)

/-- How many names a key may have, and how deep values may be nested. -/
def depthLimit : Nat := 79

/-- What follows a comment, which its line break ends. -/
def comment? (chars : List Char) : Option (List Char) :=
  after? '#' chars >>= fun rest => newline? (rest.dropWhile isText)

/-- What follows blanks, line breaks and comments.  `steps` bounds their number. -/
def skipFiller : Nat → List Char → List Char
  | 0, chars => chars
  | steps + 1, chars =>
      let rest := skipBlanks chars
      match (newline? rest).or (comment? rest) with
      | some next => skipFiller steps next
      | none => rest

/-- A value that holds no others, and what follows. -/
def scalar? (chars : List Char) : Option (Toml × List Char) :=
  match chars with
  | [] => none
  | c :: _ =>
      if c == '"' || c == '\'' then
        (string? chars).map fun (text, rest) => (.string text, rest)
      else if ['t', 'r', 'u', 'e'].isPrefixOf chars then some (.boolean true, chars.drop 4)
      else if ['f', 'a', 'l', 's', 'e'].isPrefixOf chars then some (.boolean false, chars.drop 5)
      else
        match moment? chars with
        | some rest => some (.moment, rest)
        | none => number? chars

/-- The items of an array after its opening bracket, and what follows the closing one.  A comma
may follow the last item. -/
def items? (value? : List Char → Option (Toml × List Char)) :
    Nat → List Char → Option (List Toml × List Char)
  | 0, _ => none
  | steps + 1, chars => do
      let filler := fun chars : List Char => skipFiller (chars.length + 1) chars
      match filler chars with
      | ']' :: rest => pure ([], rest)
      | start =>
          let (item, rest) ← value? start
          match filler rest with
          | ']' :: rest => pure ([item], rest)
          | ',' :: rest =>
              let (items, rest) ← items? value? steps rest
              pure (item :: items, rest)
          | _ => none

/-- The entries of an inline table from a key on, and what follows the closing brace. -/
def entries? (value? : List Char → Option (Toml × List Char)) (before : Entries) :
    Nat → List Char → Option (Entries × List Char)
  | 0, _ => none
  | steps + 1, chars => do
      let (names, rest) ← key? depthLimit chars
      let start ← after? '=' rest
      let (value, rest) ← value? (skipBlanks start)
      let entries ← before.add? names.dropLast (names.getLast?.getD "") value
      match skipBlanks rest with
      | '\x7d' :: rest => pure (entries, rest)
      | ',' :: rest => entries? value? entries steps rest
      | _ => none

/-- A value, and what follows; `depth` bounds the nesting. -/
def value? : Nat → List Char → Option (Toml × List Char)
  | depth + 1, '[' :: rest =>
      (items? (value? depth) (rest.length + 1) rest).map fun (items, rest) => (.array items, rest)
  | depth + 1, '\x7b' :: rest =>
      match skipBlanks rest with
      | '\x7d' :: rest => some (.table .inline [], rest)
      | start =>
          (entries? (value? depth) [] (start.length + 1) start).map fun (entries, rest) =>
            (.table .inline entries, rest)
  | _, chars => scalar? chars

end Toml
end StaticSite
