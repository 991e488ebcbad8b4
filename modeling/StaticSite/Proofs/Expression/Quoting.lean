import Mathlib
import StaticSite.Expression.Token
import StaticSite.Proofs.Text.Digits
import StaticSite.Proofs.Text.Trimming

/-!
# String literals

A text between two quotes is one string just if it is a sequence of items: characters that denote
themselves, and escapes that denote a character by its name or by its scalar value in hexadecimal
digits.  The digits may have a plus sign before them, which no text needs to be written.
-/

namespace StaticSite
namespace Expression

/-! ## The grammar -/

/-- The characters that are written by a name behind a backslash. -/
def namedEscapes : List (Char × Char) :=
  [('n', '\n'), ('t', '\t'), ('r', '\r'), ('0', '\x00'), ('\\', '\\'), ('"', '"'), ('\'', '\'')]

/-- What may stand behind a backslash, and the character that it denotes: a name, or a scalar value
in hexadecimal digits, with one of the given signs before them. -/
inductive Escape (signs : List (List Char)) : List Char → Char → Prop
  | named {name meant : Char} (known : (name, meant) ∈ namedEscapes) : Escape signs [name] meant
  | scalar {sign digits : List Char} {value : Nat} (isSign : sign ∈ signs)
      (nonempty : digits ≠ []) (standsFor : Decimal.StandsFor 16 digits value)
      (isScalar : value.isValidChar) :
      Escape signs ('u' :: '\x7b' :: (sign ++ digits ++ ['\x7d'])) (Char.ofNat value)

/-- One item of a string, and the character that it denotes. -/
inductive Item (signs : List (List Char)) (quote : Char) : List Char → Char → Prop
  | plain {c : Char} (noQuote : c ≠ quote) (noBackslash : c ≠ '\\') : Item signs quote [c] c
  | escape {code : List Char} {meant : Char} (isEscape : Escape signs code meant) :
      Item signs quote ('\\' :: code) meant

/-- Whether a text between two quotes is a sequence of items that denote some characters. -/
def Denotes (signs : List (List Char)) (quote : Char) (body chars : List Char) : Prop :=
  ∃ items, List.Forall₂ (Item signs quote) items chars ∧ body = items.flatten

/-- The signs that are read before hexadecimal digits. -/
def acceptedSigns : List (List Char) := [[], ['+']]

variable {signs : List (List Char)} {quote c meant : Char} {bytes : Nat}
  {body chars code after item rest : List Char}

theorem Denotes.nil : Denotes signs quote [] [] :=
  ⟨[], .nil, rfl⟩

theorem Denotes.cons (isItem : Item signs quote item c) (denotes : Denotes signs quote body chars) :
    Denotes signs quote (item ++ body) (c :: chars) := by
  obtain ⟨items, areItems, rfl⟩ := denotes
  exact ⟨item :: items, .cons isItem areItems, List.flatten_cons.symm⟩

/-- Every character can be written between any quotes. -/
theorem exists_item (signs : List (List Char)) (isQuote : quote = '"' ∨ quote = '\'') (c : Char) :
    ∃ item, Item signs quote item c := by
  by_cases same : c = quote
  · have known : (c, c) ∈ namedEscapes := by
      rcases isQuote with rfl | rfl <;> subst same <;> decide
    exact ⟨_, .escape (.named known)⟩
  · by_cases backslash : c = '\\'
    · subst backslash
      exact ⟨['\\', '\\'], .escape (.named (by decide))⟩
    · exact ⟨_, .plain same backslash⟩

/-- So every text can. -/
theorem exists_denotes (signs : List (List Char)) (isQuote : quote = '"' ∨ quote = '\'')
    (chars : List Char) : ∃ body, Denotes signs quote body chars := by
  induction chars with
  | nil => exact ⟨[], .nil⟩
  | cons c chars induction =>
      obtain ⟨item, isItem⟩ := exists_item signs isQuote c
      obtain ⟨body, denotes⟩ := induction
      exact ⟨item ++ body, denotes.cons isItem⟩

/-! ## Escapes -/

/-- A sign in front of digits is passed over. -/
theorem exists_scalar?_eq (code : List Char) :
    ∃ sign ∈ acceptedSigns, ∃ digits, code = sign ++ digits ∧
      scalar? code = (Decimal.digits? 16 digits).bind fun value =>
        if value.isValidChar then some (Char.ofNat value) else none := by
  unfold scalar?
  split
  · next digits =>
    refine ⟨['+'], by simp [acceptedSigns], digits, rfl, ?_⟩
    dsimp only
    cases Decimal.digits? 16 digits <;> rfl
  · refine ⟨[], by simp [acceptedSigns], code, rfl, ?_⟩
    dsimp only
    cases Decimal.digits? 16 code <;> rfl

theorem exists_of_scalar?_eq_some (read : scalar? code = some c) :
    ∃ sign ∈ acceptedSigns, ∃ digits value, code = sign ++ digits ∧
      Decimal.digits? 16 digits = some value ∧ value.isValidChar ∧ c = Char.ofNat value := by
  obtain ⟨sign, isSign, digits, whole, same⟩ := exists_scalar?_eq code
  obtain ⟨value, known, read⟩ := Option.bind_eq_some_iff.mp (same.symm.trans read)
  obtain ⟨isScalar, found⟩ := Option.ite_none_right_eq_some.mp read
  exact ⟨sign, isSign, digits, value, whole, known, isScalar, (Option.some.inj found).symm⟩

theorem scalar?_append {sign digits : List Char} {value : Nat} (isSign : sign ∈ acceptedSigns)
    (known : Decimal.digits? 16 digits = some value) (isScalar : value.isValidChar) :
    scalar? (sign ++ digits) = some (Char.ofNat value) := by
  simp only [acceptedSigns, List.mem_cons, List.not_mem_nil, or_false] at isSign
  rcases isSign with rfl | rfl
  · have unsigned : ∀ rest, digits = '+' :: rest → False := by
      rintro rest rfl
      exact Option.some_ne_none value (known.symm.trans rfl)
    rw [List.nil_append, scalar?.eq_2 digits unsigned]
    simp only [known, if_pos isScalar]
  · rw [List.singleton_append, scalar?]
    simp only [known, if_pos isScalar]

/-- Neither a sign nor a hexadecimal digit quotes the braces around them. -/
theorem ne_brace_of_mem {sign digits : List Char} {value : Nat} (isSign : sign ∈ acceptedSigns)
    (standsFor : Decimal.StandsFor 16 digits value) :
    ∀ c ∈ sign ++ digits, (c != '\x7d') = true := by
  intro c member
  rw [bne_iff_ne]
  rintro rfl
  rcases List.mem_append.mp member with inSign | inDigits
  · have noBrace : ∀ sign ∈ acceptedSigns, '\x7d' ∉ sign := by decide
    exact noBrace sign isSign inSign
  · exact standsFor.not_mem rfl inDigits

theorem byteLength_braces (code : List Char) :
    Text.byteLength ('u' :: '\x7b' :: (code ++ ['\x7d'])) = Text.byteLength code + 3 := by
  have one : 'u'.utf8Size = 1 ∧ '\x7b'.utf8Size = 1 ∧ '\x7d'.utf8Size = 1 := by decide
  simp only [Text.byteLength_cons, Text.byteLength_append, Text.byteLength_nil, one]
  omega

/-- What an escape is read as, and how much of the text it takes. -/
theorem exists_of_escaped_eq_ok (read : escaped chars = .ok (meant, bytes, after)) :
    ∃ code, chars = code ++ after ∧ Escape acceptedSigns code meant ∧
      bytes = Text.byteLength code := by
  unfold escaped at read
  split at read
  case h_9 rest =>
    dsimp only at read
    split at read
    · contradiction
    · next brace left dropped =>
      split at read
      · next found =>
        obtain ⟨rfl, rfl, rfl⟩ : _ = meant ∧ _ = bytes ∧ left = after := by simpa using read
        obtain ⟨sign, isSign, digits, value, isCode, known, isScalar, rfl⟩ :=
          exists_of_scalar?_eq_some found
        obtain ⟨nonempty, standsFor⟩ := Decimal.digits?_eq_some_iff.mp known
        obtain rfl : brace = '\x7d' := by
          have stops := List.head?_dropWhile_not (· != '\x7d') rest
          rw [dropped] at stops
          simpa using stops
        have whole : rest = sign ++ digits ++ '\x7d' :: left := by
          rw [← isCode, ← dropped, List.takeWhile_append_dropWhile]
        refine ⟨_, ?_, .scalar isSign nonempty standsFor isScalar, ?_⟩
        · rw [whole]
          simp
        · rw [isCode, byteLength_braces]
      · contradiction
  case h_10 | h_11 => contradiction
  case h_1 => contradiction
  all_goals
    obtain ⟨rfl, rfl, rfl⟩ : _ = meant ∧ _ = bytes ∧ _ = after := by simpa using read
    exact ⟨_, rfl, .named (by decide), by decide⟩

/-- An escape is read before any text. -/
theorem Escape.escaped_append (isEscape : Escape acceptedSigns code meant) (after : List Char) :
    escaped (code ++ after) = .ok (meant, Text.byteLength code, after) := by
  cases isEscape with
  | named known =>
      simp only [namedEscapes, List.mem_cons, Prod.mk.injEq, List.not_mem_nil, or_false] at known
      rcases known with ⟨rfl, rfl⟩ | ⟨rfl, rfl⟩ | ⟨rfl, rfl⟩ | ⟨rfl, rfl⟩ | ⟨rfl, rfl⟩ |
        ⟨rfl, rfl⟩ | ⟨rfl, rfl⟩ <;> rfl
  | @scalar sign digits value isSign nonempty standsFor isScalar =>
      have known := Decimal.digits?_eq_some_iff.mpr ⟨nonempty, standsFor⟩
      have inside := ne_brace_of_mem isSign standsFor
      have stop : ∀ c ∈ ('\x7d' :: after).head?, (c != '\x7d') = false := by simp
      obtain ⟨before, behind⟩ := Prod.mk.inj (Text.splitWhile_append_of_stop inside stop)
      have whole : 'u' :: '\x7b' :: (sign ++ digits ++ ['\x7d']) ++ after =
          'u' :: '\x7b' :: (sign ++ digits ++ '\x7d' :: after) := by simp
      rw [whole, escaped, before, behind, byteLength_braces]
      simp only [scalar?_append isSign known isScalar]

/-! ## Strings -/

variable {start offset size : Nat} {more : List Char}

theorem stringBody_plain (noQuote : c ≠ quote) (noBackslash : c ≠ '\\') (start offset : Nat)
    (more : List Char) :
    stringBody quote start offset (c :: more) =
      (stringBody quote start (offset + c.utf8Size) more).map fun (chars, size, left) =>
        (c :: chars, c.utf8Size + size, ⟨left.1, Nat.lt_succ_of_lt left.2⟩) := by
  rw [stringBody]
  simp only [beq_false_of_ne noQuote, beq_false_of_ne noBackslash, Bool.false_eq_true, ↓reduceIte]
  cases stringBody quote start (offset + c.utf8Size) more <;> rfl

theorem stringBody_escape (noBackslash : quote ≠ '\\')
    (known : escaped more = .ok (c, bytes, after)) (start offset : Nat) :
    stringBody quote start offset ('\\' :: more) =
      (stringBody quote start (offset + 1 + bytes) after).map fun (chars, size, left) =>
        (c :: chars, 1 + bytes + size,
          ⟨left.1, Nat.lt_succ_of_lt (left.2.trans (length_escaped_lt known))⟩) := by
  rw [stringBody]
  simp only [beq_false_of_ne noBackslash.symm, beq_self_eq_true, Bool.false_eq_true, ↓reduceIte]
  split
  · next failed => simp [known] at failed
  · next meant size left found =>
    obtain ⟨rfl, rfl, rfl⟩ : meant = c ∧ size = bytes ∧ left = after := by
      simpa [known, eq_comm] using found
    cases stringBody quote start (offset + 1 + size) left <;> rfl

theorem stringBody_failed (noBackslash : quote ≠ '\\') {fault : SyntaxFault}
    (failed : escaped more = .error fault) (start offset : Nat) :
    stringBody quote start offset ('\\' :: more) = .error ⟨offset, fault⟩ := by
  rw [stringBody]
  simp only [beq_false_of_ne noBackslash.symm, beq_self_eq_true, Bool.false_eq_true, ↓reduceIte]
  split
  · next again =>
    obtain rfl := Except.error.inj (failed.symm.trans again)
    rfl
  · next found => simp [failed] at found

/-- Whether a text is read as the characters of a string and some bytes up to its closing quote,
wherever it stands. -/
def Quotes (quote : Char) (text chars : List Char) (size : Nat) (after : List Char) : Prop :=
  ∀ start offset, ∃ shorter,
    stringBody quote start offset text = .ok (chars, size, ⟨after, shorter⟩)

theorem quotes_quote (quote : Char) (after : List Char) :
    Quotes quote (quote :: after) [] quote.utf8Size after := by
  intro start offset
  refine ⟨Nat.lt_succ_self _, ?_⟩
  rw [stringBody, if_pos (beq_self_eq_true quote)]

theorem Quotes.plain (quotes : Quotes quote more chars size after) (noQuote : c ≠ quote)
    (noBackslash : c ≠ '\\') :
    Quotes quote (c :: more) (c :: chars) (c.utf8Size + size) after := by
  intro start offset
  obtain ⟨shorter, read⟩ := quotes start (offset + c.utf8Size)
  refine ⟨Nat.lt_succ_of_lt shorter, ?_⟩
  rw [stringBody_plain noQuote noBackslash, read]
  rfl

theorem Quotes.escape (quotes : Quotes quote after chars size rest)
    (noBackslash : quote ≠ '\\') (known : escaped more = .ok (c, bytes, after)) :
    Quotes quote ('\\' :: more) (c :: chars) (1 + bytes + size) rest := by
  intro start offset
  obtain ⟨shorter, read⟩ := quotes start (offset + 1 + bytes)
  refine ⟨Nat.lt_succ_of_lt (shorter.trans (length_escaped_lt known)), ?_⟩
  rw [stringBody_escape noBackslash known, read]
  rfl

theorem byteLength_escape (code : List Char) :
    Text.byteLength ('\\' :: code) = 1 + Text.byteLength code := by
  rw [Text.byteLength_cons, Char.utf8Size_eq_one_iff.mpr (by decide)]

theorem Item.quotes (isItem : Item acceptedSigns quote item c) (noBackslash : quote ≠ '\\')
    (quotes : Quotes quote more chars size after) :
    Quotes quote (item ++ more) (c :: chars) (Text.byteLength item + size) after := by
  cases isItem with
  | plain noQuote notBackslash => exact quotes.plain noQuote notBackslash
  | @escape code _ isEscape =>
      rw [byteLength_escape]
      exact quotes.escape noBackslash (isEscape.escaped_append more)

/-- The text of a string is read up to the quote behind it. -/
theorem Denotes.quotes (denotes : Denotes acceptedSigns quote body chars)
    (noBackslash : quote ≠ '\\') (after : List Char) :
    Quotes quote (body ++ quote :: after) chars (Text.byteLength (body ++ [quote])) after := by
  obtain ⟨items, areItems, rfl⟩ := denotes
  induction areItems with
  | nil => simpa using quotes_quote quote after
  | cons isItem _ induction =>
      simpa [Nat.add_assoc] using isItem.quotes noBackslash induction

/-- What is read up to a quote is the text of a string. -/
theorem exists_of_stringBody_eq_ok {shorter : after.length < more.length}
    (read : stringBody quote start offset more = .ok (chars, size, ⟨after, shorter⟩)) :
    ∃ body, more = body ++ quote :: after ∧ Denotes acceptedSigns quote body chars ∧
      size = Text.byteLength (body ++ [quote]) := by
  fun_induction stringBody quote start offset more generalizing chars size after
  case case2 c rest isQuote =>
    obtain ⟨rfl, rfl, rfl⟩ : chars = [] ∧ c.utf8Size = size ∧ rest = after := by simpa using read
    obtain rfl : c = quote := by simpa using isQuote
    exact ⟨[], rfl, .nil, by simp⟩
  case case5 c rest noQuote isBackslash meant bytes left found _ more count last property others
      induction =>
    obtain ⟨rfl, rfl, rfl⟩ : meant :: more = chars ∧ 1 + bytes + count = size ∧ last = after := by
      simpa using read
    obtain ⟨body, rfl, denotes, rfl⟩ := induction others
    obtain ⟨code, rfl, isEscape, rfl⟩ := exists_of_escaped_eq_ok found
    obtain rfl : c = '\\' := by simpa using isBackslash
    refine ⟨'\\' :: code ++ body, by simp, denotes.cons (.escape isEscape), ?_⟩
    simp only [List.append_assoc, Text.byteLength_append, byteLength_escape, Nat.add_assoc]
  case case7 c rest noQuote noBackslash more count last property others induction =>
    obtain ⟨rfl, rfl, rfl⟩ : c :: more = chars ∧ c.utf8Size + count = size ∧ last = after := by
      simpa using read
    obtain ⟨body, rfl, denotes, rfl⟩ := induction others
    have plain : Item acceptedSigns quote [c] c :=
      .plain (by simpa using noQuote) (by simpa using noBackslash)
    refine ⟨[c] ++ body, rfl, denotes.cons plain, ?_⟩
    simp
  all_goals contradiction

/-! ## Literals -/

theorem lexeme_of_isQuote (isQuote : quote = '"' ∨ quote = '\'') (start : Nat) (chars : List Char) :
    lexeme start quote chars =
      match stringBody quote start (start + 1) chars with
      | .error error => .error error
      | .ok (chars, bytes, ⟨after, shorter⟩) =>
          .ok ⟨.string (String.ofList chars), 1 + bytes, after, Nat.lt_succ_of_lt shorter⟩ := by
  rcases isQuote with rfl | rfl <;> rfl

theorem Quotes.lexeme (quotes : Quotes quote more chars size after)
    (isQuote : quote = '"' ∨ quote = '\'') (start : Nat) :
    ∃ shorter, lexeme start quote more =
      .ok ⟨.string (String.ofList chars), 1 + size, after, shorter⟩ := by
  obtain ⟨shorter, read⟩ := quotes start (start + 1)
  refine ⟨Nat.lt_succ_of_lt shorter, ?_⟩
  simp only [lexeme_of_isQuote isQuote, read]

theorem ne_backslash_of_isQuote (isQuote : quote = '"' ∨ quote = '\'') : quote ≠ '\\' := by
  rcases isQuote with rfl | rfl <;> decide

theorem isBlank_eq_false_of_isQuote (isQuote : quote = '"' ∨ quote = '\'') :
    Text.isBlank quote = false := by
  rcases isQuote with rfl | rfl <;> decide

/-- A text without tokens is blank. -/
theorem isBlank_of_tokensFrom_eq_nil (read : tokensFrom offset chars = .ok []) :
    Text.IsBlank chars := by
  fun_induction tokensFrom offset chars
  case case1 => exact Text.isBlank_nil
  case case2 c rest isBlank induction => exact List.forall_mem_cons.mpr ⟨isBlank, induction read⟩
  case case5 => simp at read
  all_goals contradiction

/-- Where only blanks follow a string, its closing quote is the last one. -/
theorem eq_of_append_quote {front : List Char} (notBlank : Text.isBlank quote = false)
    (whole : body ++ [quote] = front ++ quote :: after) (blank : Text.IsBlank after) :
    body = front ∧ after = [] := by
  rcases List.eq_nil_or_concat' after with rfl | ⟨before, last, rfl⟩
  · exact ⟨List.append_cancel_right whole, rfl⟩
  · rw [← List.cons_append, ← List.append_assoc] at whole
    obtain ⟨-, same⟩ := List.append_inj' whole rfl
    have isLast : last ∈ before ++ [last] := List.mem_append_right before List.mem_cons_self
    rw [List.singleton_inj.mp same, blank last isLast] at notBlank
    contradiction

/-- A text between quotes is one string just if it is a sequence of items. -/
theorem tokenize_literal_iff (isQuote : quote = '"' ∨ quote = '\'') {text : String} :
    tokenize (quote :: (body ++ [quote])) = .ok [⟨.string text, offset⟩] ↔
      offset = 0 ∧ Denotes acceptedSigns quote body text.toList := by
  have notBlank := isBlank_eq_false_of_isQuote isQuote
  rw [tokenize, tokensFrom.eq_def]
  simp only [notBlank, Bool.false_eq_true, ↓reduceIte, lexeme_of_isQuote isQuote]
  constructor
  · intro read
    split at read
    · contradiction
    · next found =>
      split at found
      · contradiction
      · next chars size after shorter isString =>
        obtain ⟨rfl, rfl, rfl⟩ := Lexeme.mk.inj (Except.ok.inj found)
        split at read
        · contradiction
        · next more others =>
          obtain ⟨⟨rfl, rfl⟩, rfl⟩ : (String.ofList chars = text ∧ 0 = offset) ∧ more = [] := by
            simpa using read
          obtain ⟨front, whole, denotes, -⟩ := exists_of_stringBody_eq_ok isString
          have blank := isBlank_of_tokensFrom_eq_nil others
          obtain ⟨rfl, rfl⟩ := eq_of_append_quote notBlank whole blank
          rw [String.toList_ofList]
          exact ⟨rfl, denotes⟩
  · rintro ⟨rfl, denotes⟩
    obtain ⟨shorter, read⟩ := denotes.quotes (ne_backslash_of_isQuote isQuote) [] 0 1
    simp only [Nat.zero_add, read, String.ofList_toList]
    rw [tokensFrom.eq_def]

/-- More signs allow more literals. -/
theorem Denotes.mono {larger : List (List Char)} (denotes : Denotes signs quote body chars)
    (subset : signs ⊆ larger) : Denotes larger quote body chars := by
  obtain ⟨items, areItems, rfl⟩ := denotes
  refine ⟨items, areItems.imp fun item c isItem => ?_, rfl⟩
  cases isItem with
  | plain noQuote noBackslash => exact .plain noQuote noBackslash
  | escape isEscape =>
      cases isEscape with
      | named known => exact .escape (.named known)
      | scalar isSign nonempty standsFor isScalar =>
          exact .escape (.scalar (subset isSign) nonempty standsFor isScalar)

/-- Between quotes, sequences of items are read as the characters that they denote and nothing else
is one string.  Every text has such a literal, even without signs. -/
theorem tokenize_literal (isQuote : quote = '"' ∨ quote = '\'') :
    (∀ (body : List Char) (text : String) (offset : Nat),
      tokenize (quote :: (body ++ [quote])) = .ok [⟨.string text, offset⟩] ↔
        offset = 0 ∧ Denotes acceptedSigns quote body text.toList) ∧
    ∀ text : String, ∃ body, Denotes [[]] quote body text.toList ∧
      tokenize (quote :: (body ++ [quote])) = .ok [⟨.string text, 0⟩] := by
  refine ⟨fun body text offset => tokenize_literal_iff isQuote, fun text => ?_⟩
  obtain ⟨body, denotes⟩ := exists_denotes [[]] isQuote text.toList
  have subset : [[]] ⊆ acceptedSigns := by simp [acceptedSigns]
  exact ⟨body, denotes, (tokenize_literal_iff isQuote).mpr ⟨rfl, denotes.mono subset⟩⟩

/-- An escaped quote, a scalar value in four digits, and a line break. -/
theorem tokenize_literal_escapes :
    ('\'' = '"' ∨ '\'' = '\'') ∧
      tokenize ('\'' :: (['\\', '\'', '\\', 'u', '\x7b', '2', '6', '3', 'A', '\x7d', '\\', 'n'] ++
        ['\''])) = .ok [⟨.string "'\u263A\n", 0⟩] := by
  have standsFor : Decimal.StandsFor 16 ['2', '6', '3', 'A'] 0x263A := by
    refine ⟨[2, 6, 3, 10], ?_, rfl⟩
    simp [Decimal.IsDigitOf, Decimal.digit?]
  have noSign : [] ∈ acceptedSigns := by simp [acceptedSigns]
  have scalar : Escape acceptedSigns ['u', '\x7b', '2', '6', '3', 'A', '\x7d'] '\u263A' :=
    .scalar noSign (List.cons_ne_nil _ _) standsFor (by decide)
  have quote : Item acceptedSigns '\'' ['\\', '\''] '\'' := .escape (.named (by decide))
  have lineBreak : Item acceptedSigns '\'' ['\\', 'n'] '\n' := .escape (.named (by decide))
  exact ⟨.inr rfl, ((tokenize_literal (.inr rfl)).1 _ _ 0).mpr
    ⟨rfl, .cons quote (.cons (.escape scalar) (.cons lineBreak .nil))⟩⟩

/-- Without signs, nothing stands before the digits. -/
theorem not_denotes_plus (quote : Char) (rest chars : List Char) :
    ¬Denotes [[]] quote ('\\' :: 'u' :: '\x7b' :: '+' :: rest) chars := by
  rintro ⟨items, areItems, whole⟩
  cases areItems with
  | nil => contradiction
  | cons isItem _ =>
      rw [List.flatten_cons] at whole
      cases isItem with
      | plain _ noBackslash => exact noBackslash (List.cons.inj whole).1.symm
      | escape isEscape =>
          cases isEscape with
          | named known =>
              simp only [List.cons_append, List.nil_append, List.cons.injEq, true_and] at whole
              rw [← whole.1] at known
              simp [namedEscapes] at known
          | @scalar sign digits value isSign nonempty standsFor _ =>
              obtain rfl := List.mem_singleton.mp isSign
              cases digits with
              | nil => exact nonempty rfl
              | cons c digits =>
                  simp only [List.nil_append, List.cons_append, List.cons.injEq, true_and] at whole
                  obtain ⟨rfl, -⟩ := whole
                  have noDigit : Decimal.digit? '+' = none := rfl
                  exact standsFor.not_mem noDigit List.mem_cons_self

/-- A plus sign before the digits of a scalar value is read. -/
theorem tokenize_plus :
    tokenize ('"' :: (['\\', 'u', '\x7b', '+', '4', '1', '\x7d'] ++ ['"'])) =
        .ok [⟨.string "A", 0⟩] ∧
      ∀ text, ¬Denotes [[]] '"' ['\\', 'u', '\x7b', '+', '4', '1', '\x7d'] text := by
  have standsFor : Decimal.StandsFor 16 ['4', '1'] 0x41 := by
    refine ⟨[4, 1], ?_, rfl⟩
    simp [Decimal.IsDigitOf, Decimal.digit?]
  have plus : ['+'] ∈ acceptedSigns := by simp [acceptedSigns]
  have scalar : Escape acceptedSigns ['u', '\x7b', '+', '4', '1', '\x7d'] 'A' :=
    .scalar plus (List.cons_ne_nil _ _) standsFor (by decide)
  exact ⟨(tokenize_literal_iff (.inl rfl)).mpr ⟨rfl, .cons (.escape scalar) .nil⟩,
    not_denotes_plus '"' _⟩

end Expression
end StaticSite
