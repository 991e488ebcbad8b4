import Mathlib
import StaticSite.Proofs.Template.Scanning
import StaticSite.Template.Baking
import StaticSite.Template.Directive

/-!
# Writing segments as a source

Any segments that scanning can give are the segments of a source.  Opening braces in literal text
are written in pairs with a backslash in front, and backslashes right before opening braces are
doubled.  In this way every text is the text that some template renders.
-/

namespace StaticSite
namespace Template

/-! ## Literal text -/

/-- Whether opening braces come next, maybe behind backslashes. -/
def opens (source : List Char) : Bool :=
  ['\x7b', '\x7b'].isPrefixOf (source.dropWhile (· == '\\'))

/-- A literal text written before the rest of a source.  Of an odd number of opening braces the
first is left alone, so that none is left before the rest. -/
def escapeBefore (following : List Char) : List Char → List Char
  | [] => following
  | '\\' :: rest =>
      let written := escapeBefore following rest
      if opens written then '\\' :: '\\' :: written else '\\' :: written
  | '\x7b' :: '\x7b' :: rest =>
      if (rest.takeWhile (· == '\x7b')).length % 2 = 0 then
        '\\' :: '\x7b' :: '\x7b' :: escapeBefore following rest
      else '\x7b' :: escapeBefore following ('\x7b' :: rest)
  | c :: rest => c :: escapeBefore following rest

/-- A text written so that it is literal. -/
def escape (text : String) : String :=
  String.ofList (escapeBefore [] text.toList)

/-- Whether a source ends, or goes on with a tag. -/
def EndsOrOpens (source : List Char) : Prop :=
  source = [] ∨ ∃ rest, source = '\x7b' :: '\x7b' :: rest

/-- Whether a literal text can stand before the rest of a source. -/
def FitsBefore (following literal : List Char) : Prop :=
  following = [] ∨ ¬EndsInLoneBrace literal

variable {following literal gathered : List Char} {c : Char}

theorem EndsInLoneBrace.cons (lone : EndsInLoneBrace literal)
    (apart : literal = ['\x7b'] → c ≠ '\x7b') : EndsInLoneBrace (c :: literal) := by
  obtain ⟨front, rfl, notBefore⟩ := lone
  refine ⟨c :: front, rfl, ?_⟩
  cases front with
  | nil => simpa using apart rfl
  | cons d front => simpa using notBefore

theorem FitsBefore.tail (fits : FitsBefore following (c :: literal))
    (apart : literal = ['\x7b'] → c ≠ '\x7b') : FitsBefore following literal :=
  fits.imp id fun notLone lone => notLone (lone.cons apart)

theorem opens_cons_of_ne (notSlash : c ≠ '\\') (source : List Char) :
    opens (c :: source) = true ↔ c = '\x7b' ∧ source.head? = some '\x7b' := by
  rw [opens, List.dropWhile_cons_of_neg (by simpa using notSlash), List.isPrefixOf_iff_prefix,
    Text.prefix_cons_iff, eq_comm]

@[simp]
theorem opens_slash (source : List Char) : opens ('\\' :: source) = opens source := by
  simp [opens]

/-- A literal text that does not begin with a brace is not written with one in front. -/
theorem head?_escapeBefore_ne (fits : FitsBefore following ('\x7b' :: literal))
    (alone : literal.head? ≠ some '\x7b') :
    (escapeBefore following literal).head? ≠ some '\x7b' := by
  fun_cases escapeBefore following literal with
  | case1 =>
      rcases fits with rfl | notLone
      · simp
      · exact absurd ⟨[], rfl, by simp⟩ notLone
  | case2 | case3 => simp
  | case4 | case5 => simp at alone
  | case6 c rest => simpa using alone

/-- A backslash and a brace are told apart from other characters by what scanning does. -/
theorem scanText_cons (location : Location) (gathered : List Char) (slashes : Nat)
    {rest : List Char} (notSlash : c ≠ '\\')
    (notOpening : c = '\x7b' → rest.head? ≠ some '\x7b') :
    scanText location gathered slashes (c :: rest) =
      scanText (location.after c) (c :: (List.replicate slashes '\\' ++ gathered)) 0 rest := by
  rw [scanText.eq_def]
  split
  · contradiction
  · next same => exact absurd (List.cons.inj same).1 notSlash
  · next same =>
    obtain ⟨isBrace, rfl⟩ := List.cons.inj same
    exact absurd rfl (notOpening isBrace)
  · next same =>
    obtain ⟨rfl, rfl⟩ := List.cons.inj same
    rfl

/-- How many of the backslashes before a source are literal text. -/
def literalSlashes (source : List Char) (slashes : Nat) : Nat :=
  if opens source then slashes / 2 else slashes

/-- One more backslash of a literal text. -/
theorem reverse_slash_append (literal gathered : List Char) (slashes : Nat) :
    ('\\' :: literal).reverse ++ (List.replicate slashes '\\' ++ gathered) =
      literal.reverse ++ (List.replicate (slashes + 1) '\\' ++ gathered) := by
  simp [List.replicate_succ]

@[simp]
theorem literalSlashes_zero (source : List Char) : literalSlashes source 0 = 0 := by
  simp [literalSlashes]

/-- A character that is neither a backslash nor part of opening braces is literal text. -/
theorem exists_scanText_plain {written : List Char} {location : Location} {slashes : Nat}
    (notSlash : c ≠ '\\') (notOpening : c = '\x7b' → written.head? ≠ some '\x7b')
    (later : ∃ place,
      scanText (location.after c) (c :: (List.replicate slashes '\\' ++ gathered)) 0 written =
        scanText place
          (literal.reverse ++
            (List.replicate (literalSlashes written 0) '\\' ++
              (c :: (List.replicate slashes '\\' ++ gathered)))) 0 following) :
    ∃ place, scanText location gathered slashes (c :: written) =
      scanText place
        ((c :: literal).reverse ++
          (List.replicate (literalSlashes (c :: written) slashes) '\\' ++ gathered)) 0 following := by
  have closed : ¬opens (c :: written) = true := by
    rw [opens_cons_of_ne notSlash]
    exact fun opening => notOpening opening.1 opening.2
  obtain ⟨place, scanned⟩ := later
  refine ⟨place, ?_⟩
  rw [scanText_cons location gathered slashes notSlash notOpening, scanned]
  simp [literalSlashes, closed]

/-- Scanning a literal text gathers it and comes to the rest of the source.  Backslashes that were
read before it are pairs where the text opens with braces. -/
theorem exists_scanText_escapeBefore (ends : EndsOrOpens following)
    (fits : FitsBefore following literal) (location : Location) (gathered : List Char)
    (slashes : Nat)
    (paired : opens (escapeBefore following literal) = true → slashes % 2 = 0) :
    ∃ place, scanText location gathered slashes (escapeBefore following literal) =
      scanText place
        (literal.reverse ++
          (List.replicate (literalSlashes (escapeBefore following literal) slashes) '\\' ++
            gathered)) 0 following := by
  fun_induction escapeBefore following literal generalizing location gathered slashes with
  | case1 =>
      refine ⟨location, ?_⟩
      rcases ends with rfl | ⟨rest, rfl⟩
      · rw [scanText, scanText]
        rfl
      · have opening : opens ('\x7b' :: '\x7b' :: rest) = true :=
          (opens_cons_of_ne (by decide) _).mpr ⟨rfl, rfl⟩
        have even := paired opening
        rw [scanText, scanText]
        simp [literalSlashes, opening, even]
  | case2 rest written opening induction =>
      have even := paired (by simpa using opening)
      obtain ⟨place, scanned⟩ := induction (fits.tail fun _ => by decide)
        ((location.after '\\').after '\\') gathered (slashes + 2) fun _ => by omega
      have one : literalSlashes written (slashes + 2) =
          literalSlashes ('\\' :: '\\' :: written) slashes + 1 := by
        simp [literalSlashes, opening]
      refine ⟨place, ?_⟩
      rw [scanText, scanText, scanned, one, reverse_slash_append]
  | case3 rest written noOpening induction =>
      obtain ⟨place, scanned⟩ := induction (fits.tail fun _ => by decide) (location.after '\\')
        gathered (slashes + 1) fun opening => absurd opening noOpening
      have one : literalSlashes written (slashes + 1) =
          literalSlashes ('\\' :: written) slashes + 1 := by
        simp [literalSlashes, noOpening]
      refine ⟨place, ?_⟩
      rw [scanText, scanned, one, reverse_slash_append]
  | case4 rest even induction =>
      -- the braces are a pair, with a backslash that is not literal
      have opening : opens ('\\' :: '\x7b' :: '\x7b' :: escapeBefore following rest) = true := by
        simp [opens_cons_of_ne]
      have pairs := paired opening
      have fitsRest : FitsBefore following rest := by
        refine fits.imp id fun notLone lone => notLone ((lone.cons fun alone => ?_).cons fun alone => ?_)
        · simp [alone] at even
        · exact absurd (List.cons.inj alone).2 lone.ne_nil
      obtain ⟨place, scanned⟩ := induction fitsRest
        (((location.after '\\').after '\x7b').after '\x7b')
        ('\x7b' :: '\x7b' :: (List.replicate (slashes / 2) '\\' ++ gathered)) 0 fun _ => rfl
      refine ⟨place, ?_⟩
      have odd : (slashes + 1) % 2 = 1 := by omega
      have half : (slashes + 1) / 2 = slashes / 2 := by omega
      rw [scanText, scanText]
      simp only [odd, half, ↓reduceIte, scanned]
      simp [literalSlashes, opening]
  | case5 rest odd induction =>
      obtain ⟨next, rfl⟩ : ∃ next, rest = '\x7b' :: next := by
        cases rest with
        | nil => simp at odd
        | cons d next =>
            by_cases isBrace : d = '\x7b'
            · exact ⟨next, by rw [isBrace]⟩
            · simp [isBrace] at odd
      have even : (next.takeWhile (· == '\x7b')).length % 2 = 0 := by
        rw [List.takeWhile_cons_of_pos (by rfl), List.length_cons] at odd
        omega
      refine exists_scanText_plain (by decide) (fun _ => by simp [escapeBefore, even])
        (induction (fits.tail fun alone => ?_) _ _ 0 fun _ => rfl)
      simp at alone
  | case6 c rest notSlash notPair induction =>
      have apart : c = '\x7b' → rest.head? ≠ some '\x7b' := by
        intro isBrace pair
        cases rest with
        | nil => simp at pair
        | cons d next => exact notPair next isBrace (by simpa using pair)
      refine exists_scanText_plain notSlash (fun isBrace => ?_)
        (induction (fits.tail fun alone isBrace => apart isBrace (by rw [alone]; rfl)) _ _ 0
          fun _ => rfl)
      subst isBrace
      exact head?_escapeBefore_ne fits (apart rfl)

/-! ## Segments -/

/-- A segment without its place. -/
def Segment.unplaced : Segment → Segment
  | .literal text => .literal text
  | .tag placed => .tag { placed with location := .start }

/-- How a tag is written. -/
def Tag.written (tag : Tag) : List Char :=
  '\x7b' :: '\x7b' :: tag.opcode :: ' ' :: tag.operand.toList ++ [' ', '\x7d', '\x7d']

/-- Segments written as a source. -/
def sourceOf : List Segment → List Char
  | [] => []
  | .literal text :: rest => escapeBefore (sourceOf rest) text.toList
  | .tag tag :: rest => tag.written ++ sourceOf rest

theorem tagOfBody_written {tag : Tag} (scanned : tag.IsScanned) (opened : Location) :
    tagOfBody opened (tag.opcode :: ' ' :: tag.operand.toList ++ [' ']).reverse =
      .ok { tag with location := opened } := by
  have operand : Text.trim (' ' :: tag.operand.toList ++ [' ']) = tag.operand.toList :=
    scanned.trimmed.trim_append Text.isBlank_space Text.isBlank_space
  rw [tagOfBody, List.reverse_reverse]
  simp only [List.cons_append] at operand ⊢
  simp [scanned.opcode, operand]

/-- The mark that ends a tag is not written earlier. -/
theorem Tag.IsScanned.not_infix {tag : Tag} (scanned : tag.IsScanned) :
    ¬['\x7d', '\x7d'] <:+: tag.opcode :: ' ' :: tag.operand.toList ++ [' '] ++ ['\x7d'] := by
  intro within
  rcases Text.infix_concat_iff.mp within with ⟨-, closing⟩ | within
  · rw [List.getLast?_concat] at closing
    simp at closing
  · have behind := Text.infix_of_infix_append_right (by decide) within
    rcases Text.infix_cons_iff.mp behind with ⟨-, closing⟩ | behind
    · simp at closing
    · rcases Text.infix_cons_iff.mp behind with ⟨closing, -⟩ | inside
      · contradiction
      · exact scanned.unclosed inside

/-- What may stand behind a literal text. -/
theorem AreScanned.after_literal {text : String} {rest : List Segment}
    (scanned : AreScanned (.literal text :: rest)) :
    rest = [] ∨ ∃ tag more, rest = .tag tag :: more ∧ ¬EndsInLoneBrace text.toList := by
  cases rest with
  | nil => exact .inl rfl
  | cons segment more =>
      have mayPrecede := (List.isChain_cons_cons.mp scanned.neighbours).1
      cases segment with
      | literal other => exact mayPrecede.elim
      | tag tag => exact .inr ⟨tag, more, rfl, mayPrecede⟩

theorem AreScanned.of_cons {segment : Segment} {rest : List Segment}
    (scanned : AreScanned (segment :: rest)) : AreScanned rest where
  literals text member := scanned.literals text (List.mem_cons_of_mem segment member)
  tags tag member := scanned.tags tag (List.mem_cons_of_mem segment member)
  neighbours := scanned.neighbours.of_cons

/-- Written segments are scanned as themselves, behind literal text that no other follows. -/
theorem exists_scanText_sourceOf {segments : List Segment} (scanned : AreScanned segments)
    (location : Location) (gathered : List Char)
    (apart : ∀ text, segments.head? = some (.literal text) → gathered = []) :
    ∃ result, scanText location gathered 0 (sourceOf segments) =
        .ok (literalSegment gathered ++ result) ∧
      result.map Segment.unplaced = segments.map Segment.unplaced := by
  induction segments generalizing location gathered with
  | nil =>
      rw [sourceOf, scanText]
      exact ⟨[], by simp, rfl⟩
  | cons segment rest induction =>
      cases segment with
      | literal text =>
          obtain rfl := apart text rfl
          have isText : text ≠ "" := scanned.literals text List.mem_cons_self
          have behind := scanned.after_literal
          have ends : EndsOrOpens (sourceOf rest) := by
            rcases behind with rfl | ⟨tag, more, rfl, -⟩
            · exact .inl rfl
            · exact .inr ⟨_, rfl⟩
          have fits : FitsBefore (sourceOf rest) text.toList := by
            rcases behind with rfl | ⟨tag, more, rfl, notLone⟩
            · exact .inl rfl
            · exact .inr notLone
          obtain ⟨place, read⟩ :=
            exists_scanText_escapeBefore ends fits location [] 0 fun _ => rfl
          obtain ⟨result, readRest, same⟩ := induction scanned.of_cons place
            text.toList.reverse fun other isLiteral => by
              rcases behind with rfl | ⟨tag, more, rfl, -⟩ <;> simp at isLiteral
          refine ⟨.literal text :: result, ?_, congrArg (List.cons _) same⟩
          rw [sourceOf, read]
          simp [readRest, literalSegment, isText]
      | tag tag =>
          have isScanned := scanned.tags tag List.mem_cons_self
          obtain ⟨result, readRest, same⟩ := induction scanned.of_cons
            (((location.after '\x7b').after '\x7b').afterAll
              (tag.opcode :: ' ' :: tag.operand.toList ++ [' '] ++ ['\x7d', '\x7d'])) []
            fun _ _ => rfl
          have read := scanTag_append isScanned.not_infix
            (by rw [List.append_nil]; exact tagOfBody_written isScanned location) readRest
          refine ⟨.tag { tag with location } :: result, ?_, congrArg (List.cons _) same⟩
          have source : sourceOf (.tag tag :: rest) = '\x7b' :: '\x7b' ::
              (tag.opcode :: ' ' :: tag.operand.toList ++ [' '] ++
                '\x7d' :: '\x7d' :: sourceOf rest) := by
            simp [sourceOf, Tag.written]
          rw [source, scanText]
          simp only [Nat.zero_mod, Nat.zero_ne_one, ↓reduceIte, read, Nat.zero_div,
            List.replicate_zero, List.nil_append, literalSegment, List.isEmpty_nil]

/-! ## Templates that render a text -/

/-- The template of an escaped text has nothing but this text. -/
theorem parse_escape (text : String) :
    parse (escape text) = .ok (.mk .plain [] (if text = "" then [] else [.literal text])) := by
  obtain ⟨place, read⟩ := @exists_scanText_escapeBefore [] text.toList (.inl rfl) (.inl rfl)
    .start [] 0 fun _ => rfl
  have scanned : scan (escape text) = .ok (literalSegment text.toList.reverse) := by
    rw [scan, escape, String.toList_ofList, read, scanText]
    simp
  rw [parse, scanned]
  unfold literalSegment
  by_cases isEmpty : text = ""
  · subst isEmpty
    rfl
  · simp [isEmpty]
    rfl

/-- Baking a template with nothing but a text gives this text and asks for no asset. -/
theorem bake_text (imports : Importer) (address : Address) (ambient : Scope) (text : String) :
    bake imports .alone address ambient (.mk .plain [] (if text = "" then [] else [.literal text])) =
      ⟨[], .ok ⟨address, ambient, text⟩⟩ := by
  by_cases isEmpty : text = ""
  · subst isEmpty
    rfl
  · have joined : String.join [text] = text := by simp [String.join]
    rw [if_neg isEmpty]
    change Outcome.ofExcept (.ok (⟨address, ambient, String.join [text]⟩ : Baked)) = _
    rw [joined]
    rfl

/-! ## The image of scanning and its inverse -/

/-- Scanning gives exactly the lists of segments that satisfy `AreScanned`, apart from the places of
the tags: each such list is given by a source that spells it.  The place of a tag is that of its
opening braces in the source.  Every text is rendered by the template that escapes it. -/
theorem scan_exact :
    (∀ source segments, scan source = .ok segments → AreScanned segments ∧
      ∀ front tag back, segments = front ++ .tag tag :: back →
        ∃ before, tag.StandsBehind before source.toList back) ∧
    (∀ segments, AreScanned segments →
      ∃ result, scan (String.ofList (sourceOf segments)) = .ok result ∧
        result.map Segment.unplaced = segments.map Segment.unplaced) ∧
    ∀ text, ∃ model, parse (escape text) = .ok model ∧
      ∀ imports address ambient, ∃ baked,
        bake imports .alone address ambient model = ⟨[], .ok baked⟩ ∧ baked.text = text := by
  refine ⟨fun source segments scanned => ⟨?_, ?_⟩, fun segments areScanned => ?_, fun text => ?_⟩
  · exact areScanned_of_scan scanned
  · rintro front tag back rfl
    obtain ⟨before, stands⟩ := exists_standsBehind_of_scanText [] [] 0 source.toList scanned
    exact ⟨before, stands⟩
  · obtain ⟨result, read, same⟩ := exists_scanText_sourceOf areScanned .start [] fun _ _ => rfl
    refine ⟨result, ?_, same⟩
    rw [scan, String.toList_ofList]
    exact read
  · exact ⟨_, parse_escape text, fun imports address ambient =>
      ⟨_, bake_text imports address ambient text, rfl⟩⟩

/-- A brace, an escaped pair and a tag: the text before the tag ends in three braces, and the tag
stands at the fifth column of the second line. -/
theorem scan_exact_braces :
    scan "a\n\x7b\\\x7b\x7b\x7b\x7b= b \x7d\x7d" =
        .ok [.literal "a\n\x7b\x7b\x7b", .tag ⟨'=', "b", ⟨2, 5⟩⟩] ∧
      AreScanned [.literal "a\n\x7b\x7b\x7b", .tag ⟨'=', "b", ⟨2, 5⟩⟩] ∧
      (∃ before, Tag.StandsBehind ⟨'=', "b", ⟨2, 5⟩⟩ before
        "a\n\x7b\\\x7b\x7b\x7b\x7b= b \x7d\x7d".toList []) ∧
      ∃ result,
        scan (String.ofList
          (sourceOf [.literal "a\n\x7b\x7b\x7b", .tag ⟨'=', "b", ⟨2, 5⟩⟩])) = .ok result ∧
        result.map Segment.unplaced =
          [.literal "a\n\x7b\x7b\x7b", .tag ⟨'=', "b", .start⟩] := by
  have scanned : scan "a\n\x7b\\\x7b\x7b\x7b\x7b= b \x7d\x7d" =
      .ok [.literal "a\n\x7b\x7b\x7b", .tag ⟨'=', "b", ⟨2, 5⟩⟩] := by cbv
  obtain ⟨areScanned, stands⟩ := scan_exact.1 _ _ scanned
  exact ⟨scanned, areScanned, stands [_] _ [] rfl, scan_exact.2.1 _ areScanned⟩

end Template
end StaticSite
