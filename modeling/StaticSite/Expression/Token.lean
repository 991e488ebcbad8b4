import StaticSite.Decimal.Reading
import StaticSite.RenderError
import StaticSite.Text.Bytes
import StaticSite.Text.Taken

/-!
# Tokens of expressions

This file cuts the text of an expression into tokens.  Blanks separate tokens and are dropped; the
longest operator and the longest numeral win.  Each token is placed at the byte where it starts.
-/

namespace StaticSite
namespace Expression

inductive Operator where
  | orOr
  | andAnd
  | pipe
  | caret
  | amp
  | eqEq
  | notEq
  | lt
  | gt
  | le
  | ge
  | shl
  | shr
  | ushr
  | plus
  | minus
  | star
  | slash
  | percent
  | starStar
  | tilde
  | bang
  deriving DecidableEq, Repr

inductive Token where
  | integer (value : Int64)
  | float (value : Float)
  | string (text : String)
  | identifier (name : String)
  | boolean (value : Bool)
  | operator (symbol : Operator)
  | leftParenthesis
  | rightParenthesis
  | leftBracket
  | rightBracket
  | dot
  | question
  | colon

structure Placed where
  token : Token
  offset : Nat

def isIdentifierStart (c : Char) : Bool :=
  c.isAlpha || c == '_'

def isIdentifierPart (c : Char) : Bool :=
  c.isAlphanum || c == '_'

def isIdentifier : List Char → Bool
  | [] => false
  | c :: rest => isIdentifierStart c && rest.all isIdentifierPart

/-- A token read from the front of a text, how many bytes it takes, and what follows it. -/
structure Lexeme (size : Nat) where
  token : Token
  bytes : Nat
  rest : List Char
  shorter : rest.length < size

/-- The character that hexadecimal digits stand for.  A plus sign may come first. -/
def scalar? (code : List Char) : Option Char :=
  let digits :=
    match code with
    | '+' :: rest => rest
    | _ => code
  match Decimal.digits? 16 digits with
  | some value => if value.isValidChar then some (Char.ofNat value) else none
  | none => none

/-- The character that an escape stands for, read after its backslash, and the bytes it takes. -/
def escaped : List Char → Except SyntaxFault (Char × Nat × List Char)
  | [] => .error .unterminatedEscape
  | 'n' :: rest => .ok ('\n', 1, rest)
  | 't' :: rest => .ok ('\t', 1, rest)
  | 'r' :: rest => .ok ('\r', 1, rest)
  | '0' :: rest => .ok ('\x00', 1, rest)
  | '\\' :: rest => .ok ('\\', 1, rest)
  | '"' :: rest => .ok ('"', 1, rest)
  | '\'' :: rest => .ok ('\'', 1, rest)
  | 'u' :: '\x7b' :: rest =>
      let code := rest.takeWhile (· != '\x7d')
      match rest.dropWhile (· != '\x7d') with
      | [] => .error .unterminatedUnicodeEscape
      | _ :: after =>
          match scalar? code with
          | some c => .ok (c, Text.byteLength code + 3, after)
          | none => .error (.invalidUnicodeEscape (String.ofList code))
  | 'u' :: _ => .error .escapeWithoutBrace
  | c :: _ => .error (.unknownEscape c)

theorem length_escaped_lt {chars rest : List Char} {c : Char} {bytes : Nat}
    (found : escaped chars = .ok (c, bytes, rest)) : rest.length < chars.length := by
  unfold escaped at found
  split at found
  all_goals try (simp only [Except.ok.injEq, Prod.mk.injEq] at found; simp [← found.2.2])
  all_goals try (simp at found; done)
  next inner =>
    have := Text.length_dropWhile_le (· != '\x7d') inner
    simp only at found
    split at found
    · simp at found
    · next tail =>
      rw [tail, List.length_cons] at this
      split at found
      · simp only [Except.ok.injEq, Prod.mk.injEq] at found
        simp only [← found.2.2, List.length_cons]
        omega
      · simp at found

/-- The characters of a string up to its closing quote, the bytes they take with the quote, and
what follows.  An unterminated string is a fault where it starts, a bad escape where its backslash
stands. -/
def stringBody (quote : Char) (start offset : Nat) (chars : List Char) :
    Except SyntaxError (List Char × Nat × { rest : List Char // rest.length < chars.length }) :=
  match chars with
  | [] => .error ⟨start, .unterminatedString⟩
  | c :: rest =>
      if c == quote then .ok ([], c.utf8Size, ⟨rest, Nat.lt_succ_self _⟩)
      else if c == '\\' then
        match found : escaped rest with
        | .error fault => .error ⟨offset, fault⟩
        | .ok (meant, bytes, after) =>
            have := length_escaped_lt found
            match stringBody quote start (offset + 1 + bytes) after with
            | .error error => .error error
            | .ok (more, size, ⟨left, _⟩) =>
                .ok (meant :: more, 1 + bytes + size,
                  ⟨left, by simp only [List.length_cons]; omega⟩)
      else
        match stringBody quote start (offset + c.utf8Size) rest with
        | .error error => .error error
        | .ok (more, size, ⟨left, _⟩) =>
            .ok (c :: more, c.utf8Size + size, ⟨left, by simp only [List.length_cons]; omega⟩)
termination_by chars.length

/-- The fraction after some digits: a point with a digit behind it. -/
def fraction (chars : List Char) : Option (List Char) × List Char :=
  match chars with
  | '.' :: d :: rest =>
      if d.isDigit then
        let (digits, rest) := Text.splitWhile Char.isDigit rest
        (some (d :: digits), rest)
      else (none, chars)
  | _ => (none, chars)

theorem length_fraction_le (chars : List Char) : (fraction chars).2.length ≤ chars.length := by
  unfold fraction
  split
  · next rest =>
    have := Text.length_splitWhile_le Char.isDigit rest
    split
    · simp only [List.length_cons]
      omega
    · exact Nat.le_refl _
  · exact Nat.le_refl _

/-- The exponent after some digits: the letter, maybe a sign, and digits. -/
def exponent (chars : List Char) : Option (Bool × List Char) × List Char :=
  match chars with
  | e :: rest =>
      if e == 'e' || e == 'E' then
        let (negative, unsigned) := Decimal.splitSign rest
        let (digits, after) := Text.splitWhile Char.isDigit unsigned
        if digits.isEmpty then (none, chars) else (some (negative, digits), after)
      else (none, chars)
  | [] => (none, [])

theorem length_exponent_le (chars : List Char) : (exponent chars).2.length ≤ chars.length := by
  unfold exponent
  split
  · next e rest =>
    have digits := Text.length_splitWhile_le Char.isDigit (Decimal.splitSign rest).2
    have sign := Decimal.length_splitSign_le rest
    split
    · simp only
      split
      · exact Nat.le_refl _
      · simp only [List.length_cons]
        omega
    · exact Nat.le_refl _
  · exact Nat.le_refl _

/-- The longest numeral that starts with the given digit, and what follows it. -/
def splitNumeral (first : Char) (rest : List Char) : Decimal.Numeral × List Char :=
  let (digits, afterWhole) := Text.splitWhile Char.isDigit rest
  let (places, afterFraction) := fraction afterWhole
  let (scale, afterExponent) := exponent afterFraction
  (⟨first :: digits, places, scale⟩, afterExponent)

theorem length_splitNumeral_le (first : Char) (rest : List Char) :
    (splitNumeral first rest).2.length ≤ rest.length :=
  Nat.le_trans (length_exponent_le _)
    (Nat.le_trans (length_fraction_le _) (Text.length_splitWhile_le _ _))

/-- Read a numeral whose first digit is given.  Without fraction and exponent it is an integer,
which must be below `2 ^ 63`; any other must be readable as a float. -/
def numeral (start : Nat) (first : Char) (rest : List Char) :
    Except SyntaxError (Lexeme (rest.length + 1)) :=
  let read := (splitNumeral first rest).1
  let after := (splitNumeral first rest).2
  let size := rest.length + 1 - after.length
  let lexeme (token : Token) : Lexeme (rest.length + 1) :=
    ⟨token, size, after, Nat.lt_succ_of_le (length_splitNumeral_le first rest)⟩
  if read.isFloat then
    let text := (first :: rest).take size
    match Decimal.float? text with
    | some value => .ok (lexeme (.float value))
    | none => .error ⟨start, .invalidFloat (String.ofList text)⟩
  else
    let value := Decimal.value read.whole
    if value < Nat.pow 2 63 then .ok (lexeme (.integer (.ofNat value)))
    else .error ⟨start, .integerOutOfRange (String.ofList read.whole)⟩

/-- Read an identifier or a truth value whose first character is given. -/
def word (first : Char) (rest : List Char) : Lexeme (rest.length + 1) :=
  let name := String.ofList (first :: (Text.splitWhile isIdentifierPart rest).1)
  let token : Token :=
    if name == "true" then .boolean true
    else if name == "false" then .boolean false
    else .identifier name
  ⟨token, name.utf8ByteSize, (Text.splitWhile isIdentifierPart rest).2,
    Nat.lt_succ_of_le (Text.length_splitWhile_le _ _)⟩

/-- Read the token that starts with a character which is not blank. -/
def lexeme (start : Nat) (first : Char) (rest : List Char) :
    Except SyntaxError (Lexeme (rest.length + 1)) :=
  let one (token : Token) : Except SyntaxError (Lexeme (rest.length + 1)) :=
    .ok ⟨token, 1, rest, Nat.lt_succ_self _⟩
  let operator (symbol : Operator) := one (.operator symbol)
  /- the longest of some spellings that continue the operator, or else the operator alone -/
  let longest (symbol : Operator) (longer : List (List Char × Operator)) :
      Except SyntaxError (Lexeme (rest.length + 1)) :=
    match longer.find? fun spelling => spelling.1.isPrefixOf rest with
    | some (tail, symbol) =>
        .ok ⟨.operator symbol, 1 + tail.length, rest.drop tail.length, by
          simp only [List.length_drop]; omega⟩
    | none => operator symbol
  match first with
  | '(' => one .leftParenthesis
  | ')' => one .rightParenthesis
  | '[' => one .leftBracket
  | ']' => one .rightBracket
  | '?' => one .question
  | ':' => one .colon
  | '.' =>
      if (rest.head?.map Char.isDigit).getD false then .error ⟨start, .bareFraction⟩
      else one .dot
  | '+' => operator .plus
  | '-' => operator .minus
  | '%' => operator .percent
  | '/' => operator .slash
  | '~' => operator .tilde
  | '^' => operator .caret
  | '*' => longest .star [(['*'], .starStar)]
  | '|' => longest .pipe [(['|'], .orOr)]
  | '&' => longest .amp [(['&'], .andAnd)]
  | '!' => longest .bang [(['='], .notEq)]
  | '<' => longest .lt [(['<'], .shl), (['='], .le)]
  | '>' => longest .gt [(['>', '>'], .ushr), (['>'], .shr), (['='], .ge)]
  | '=' =>
      match rest with
      | '=' :: after =>
          .ok ⟨.operator .eqEq, 2, after, by simp only [List.length_cons]; omega⟩
      | _ => .error ⟨start, .assignment⟩
  | c =>
      if c == '"' || c == '\'' then
        match stringBody c start (start + 1) rest with
        | .error error => .error error
        | .ok (chars, bytes, ⟨after, shorter⟩) =>
            .ok ⟨.string (String.ofList chars), 1 + bytes, after, Nat.lt_succ_of_lt shorter⟩
      else if c.isDigit then numeral start c rest
      else if isIdentifierStart c then .ok (word c rest)
      else .error ⟨start, .unexpectedCharacter c⟩

/-- Cut a text that starts at the given byte into tokens. -/
def tokensFrom (offset : Nat) (chars : List Char) : Except SyntaxError (List Placed) :=
  match chars with
  | [] => .ok []
  | c :: rest =>
      if Text.isBlank c then tokensFrom (offset + c.utf8Size) rest
      else
        match lexeme offset c rest with
        | .error error => .error error
        | .ok ⟨token, bytes, after, _⟩ =>
            match tokensFrom (offset + bytes) after with
            | .error error => .error error
            | .ok more => .ok (⟨token, offset⟩ :: more)
termination_by chars.length

def tokenize (chars : List Char) : Except SyntaxError (List Placed) :=
  tokensFrom 0 chars

end Expression
end StaticSite
