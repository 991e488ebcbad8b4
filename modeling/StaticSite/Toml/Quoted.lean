import StaticSite.Decimal.Reading

/-!
# Strings in TOML

This file reads the four kinds of strings: in double quotes with escapes or in single quotes
without, on one line or, between three quotes, on several.
-/

namespace StaticSite
namespace Toml

/-- Whether a character is a space or a tab. -/
def isBlank (c : Char) : Bool :=
  c == ' ' || c == '\t'

/-- Whether a character may stand in comments and strings. -/
def isText (c : Char) : Bool :=
  c == '\t' || (0x20 ≤ c.toNat && c.toNat ≠ 0x7F)

/-- What follows the blanks of the line. -/
def skipBlanks (chars : List Char) : List Char :=
  chars.dropWhile isBlank

/-- What follows a line break. -/
def newline? : List Char → Option (List Char)
  | '\n' :: rest => some rest
  | '\r' :: '\n' :: rest => some rest
  | _ => none

/-- What follows blanks and line breaks.  `steps` bounds their number. -/
def skipLines : Nat → List Char → List Char
  | 0, chars => chars
  | steps + 1, chars =>
      let rest := skipBlanks chars
      match newline? rest with
      | some next => skipLines steps next
      | none => rest

/-- The character of a code with the given number of hexadecimal digits, and what follows. -/
def coded? (count : Nat) (chars : List Char) : Option (Char × List Char) :=
  if chars.length < count then none
  else
    match Decimal.digits? 16 (chars.take count) with
    | some code => if code.isValidChar then some (Char.ofNat code, chars.drop count) else none
    | none => none

/-- The character that an escape stands for, read after its backslash, and what follows. -/
def escaped? : List Char → Option (Char × List Char)
  | 'b' :: rest => some ('\x08', rest)
  | 'f' :: rest => some ('\x0c', rest)
  | 'n' :: rest => some ('\n', rest)
  | 'r' :: rest => some ('\r', rest)
  | 't' :: rest => some ('\t', rest)
  | '"' :: rest => some ('"', rest)
  | '\\' :: rest => some ('\\', rest)
  | 'u' :: rest => coded? 4 rest
  | 'U' :: rest => coded? 8 rest
  | _ => none

/-- A string on one line after its opening quote, and what follows the closing one.  Escapes count
in double quotes only, and `steps` bounds the characters. -/
def lineString? (quote : Char) : Nat → List Char → Option (List Char × List Char)
  | 0, _ | _, [] => none
  | steps + 1, c :: rest => do
      if c == quote then pure ([], rest)
      else if c == '\\' && quote == '"' then
        let (meant, rest) ← escaped? rest
        let (more, rest) ← lineString? quote steps rest
        pure (meant :: more, rest)
      else if isText c then
        let (more, rest) ← lineString? quote steps rest
        pure (c :: more, rest)
      else none

/-- What follows a backslash at the end of its line, with the line break and all blanks after
it. -/
def joinedLine? (chars : List Char) : Option (List Char) :=
  (newline? (skipBlanks chars)).map fun rest => skipLines (rest.length + 1) rest

/-- A string on several lines after its opening quotes, and what follows the closing ones.  One or
two quotes are text, also right before the closing three. -/
def blockString? (quote : Char) : Nat → List Char → Option (List Char × List Char)
  | 0, _ | _, [] => none
  | steps + 1, c :: rest => do
      if c == quote then
        let count := 1 + (rest.takeWhile (· == quote)).length
        if 3 ≤ count then
          let kept := min count 5 - 3
          pure (List.replicate kept quote, rest.drop (kept + 2))
        else
          let (more, rest) ← blockString? quote steps rest
          pure (c :: more, rest)
      else if c == '\\' && quote == '"' then
        match joinedLine? rest with
        | some rest => blockString? quote steps rest
        | none =>
            let (meant, rest) ← escaped? rest
            let (more, rest) ← blockString? quote steps rest
            pure (meant :: more, rest)
      else
        match newline? (c :: rest) with
        | some rest =>
            let (more, rest) ← blockString? quote steps rest
            pure ('\n' :: more, rest)
        | none =>
            if isText c then
              let (more, rest) ← blockString? quote steps rest
              pure (c :: more, rest)
            else none

/-- A string on one line from its opening quote on. -/
def simpleString? (chars : List Char) : Option (String × List Char) :=
  match chars with
  | quote :: rest =>
      if quote == '"' || quote == '\'' then
        (lineString? quote (rest.length + 1) rest).map fun (text, rest) =>
          (String.ofList text, rest)
      else none
  | [] => none

/-- A string of any kind from its opening quote on.  A line break right after three opening quotes
is left out. -/
def string? (chars : List Char) : Option (String × List Char) :=
  match chars with
  | a :: b :: c :: rest =>
      if (a == '"' || a == '\'') && a == b && b == c then
        let body := (newline? rest).getD rest
        (blockString? a (body.length + 1) body).map fun (text, rest) => (String.ofList text, rest)
      else simpleString? chars
  | _ => simpleString? chars

end Toml
end StaticSite
