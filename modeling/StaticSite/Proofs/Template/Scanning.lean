import StaticSite.Proofs.Text.Trimming
import StaticSite.Template.Tag

/-!
# What scanning a template gives

Scanning cuts a source into literal texts and tags.  This file tells which lists of segments arise,
and where in the source each tag stands: the text that is scanned behind a tag gives the segments
that follow the tag.
-/

namespace StaticSite
namespace Template

/-! ## Places -/

/-- The place behind some text: one line more than there are line ends, and one column more than
there are characters behind the last of them. -/
def placeAfter (before : List Char) : Location :=
  ⟨1 + before.count '\n', 1 + (before.reverse.takeWhile (· != '\n')).length⟩

theorem placeAfter_concat (before : List Char) (c : Char) :
    placeAfter (before ++ [c]) = (placeAfter before).after c := by
  by_cases isNewline : c = '\n'
  · simp [placeAfter, Location.after, isNewline, Nat.add_assoc]
  · simp [placeAfter, Location.after, isNewline, Nat.add_assoc]

theorem afterAll_placeAfter (before chars : List Char) :
    (placeAfter before).afterAll chars = placeAfter (before ++ chars) := by
  induction chars generalizing before with
  | nil => rw [List.append_nil]; rfl
  | cons c chars induction =>
      calc
        (placeAfter before).afterAll (c :: chars)
          = ((placeAfter before).after c).afterAll chars := rfl
        _ = (placeAfter (before ++ [c])).afterAll chars := by rw [placeAfter_concat]
        _ = placeAfter (before ++ c :: chars) := by rw [induction, List.append_assoc]; rfl

/-! ## Segments that arise -/

/-- Whether a text ends in one opening brace, and not in more. -/
def EndsInLoneBrace (chars : List Char) : Prop :=
  ∃ front, chars = front ++ ['\x7b'] ∧ front.getLast? ≠ some '\x7b'

/-- Whether a tag is written as tags are: its operand is trimmed and does not hold the mark that
ends a tag. -/
structure Tag.IsScanned (tag : Tag) : Prop where
  opcode : Text.isBlank tag.opcode = false
  trimmed : Text.IsTrimmed tag.operand.toList
  unclosed : ¬['\x7d', '\x7d'] <:+: tag.operand.toList

/-- Whether a segment may stand right before another. -/
def Segment.MayPrecede : Segment → Segment → Prop
  | .literal _, .literal _ => False
  | .literal text, .tag _ => ¬EndsInLoneBrace text.toList
  | .tag _, _ => True

/-- Whether segments can be what scanning a source gives. -/
structure AreScanned (segments : List Segment) : Prop where
  literals : ∀ text, .literal text ∈ segments → text ≠ ""
  tags : ∀ tag, .tag tag ∈ segments → tag.IsScanned
  neighbours : segments.IsChain Segment.MayPrecede

theorem EndsInLoneBrace.ne_nil {chars : List Char} (lone : EndsInLoneBrace chars) :
    chars ≠ [] := by
  obtain ⟨front, rfl, -⟩ := lone
  simp

theorem endsInLoneBrace_reverse_iff {gathered : List Char} :
    EndsInLoneBrace gathered.reverse ↔
      gathered.head? = some '\x7b' ∧ gathered.tail.head? ≠ some '\x7b' := by
  cases gathered with
  | nil => simp [EndsInLoneBrace]
  | cons c gathered =>
      constructor
      · rintro ⟨front, same, notBefore⟩
        rw [List.reverse_cons] at same
        obtain ⟨rfl, only⟩ := List.append_inj' same rfl
        exact ⟨congrArg List.head? only, by simpa using notBefore⟩
      · rintro ⟨isBrace, notBefore⟩
        obtain rfl : c = '\x7b' := by simpa using isBrace
        exact ⟨gathered.reverse, List.reverse_cons, by simpa using notBefore⟩

theorem areScanned_literalSegment (gathered : List Char) :
    AreScanned (literalSegment gathered) := by
  unfold literalSegment
  split
  · exact ⟨fun _ member => by simp at member, fun _ member => by simp at member, .nil⟩
  · next isText =>
    refine ⟨fun text member => ?_, fun _ member => by simp at member, .singleton _⟩
    obtain rfl := Segment.literal.inj (List.mem_singleton.mp member)
    simpa using isText

/-- A tag may follow what was gathered before it, unless that ends in one brace. -/
theorem AreScanned.tag {gathered : List Char} {tag : Tag} {segments : List Segment}
    (scanned : AreScanned segments) (isScanned : tag.IsScanned)
    (settled : ¬EndsInLoneBrace gathered.reverse) :
    AreScanned (literalSegment gathered ++ .tag tag :: segments) := by
  have front := areScanned_literalSegment gathered
  refine ⟨fun text member => ?_, fun other member => ?_, ?_⟩
  · rcases List.mem_append.mp member with inFront | later
    · exact front.literals text inFront
    · exact scanned.literals text (by simpa using later)
  · rcases List.mem_append.mp member with inFront | later
    · exact front.tags other inFront
    · rcases List.mem_cons.mp later with same | later
      · exact Segment.tag.inj same ▸ isScanned
      · exact scanned.tags other later
  · have chain : (Segment.tag tag :: segments).IsChain Segment.MayPrecede := by
      cases segments with
      | nil => exact .singleton _
      | cons segment segments => exact .cons_cons trivial scanned.neighbours
    unfold literalSegment
    split
    · exact chain
    · refine .cons_cons ?_ chain
      simpa [Segment.MayPrecede] using settled

/-! ## Tags -/

variable {opened location : Location} {gathered chars body rest : List Char}
  {tag : Tag} {segments : List Segment}

theorem exists_of_tagOfBody (read : tagOfBody opened gathered = .ok tag) :
    ∃ operand, gathered.reverse = tag.opcode :: operand ∧ Text.isBlank tag.opcode = false ∧
      tag.operand.toList = Text.trim operand ∧ tag.location = opened := by
  unfold tagOfBody at read
  split at read
  · contradiction
  · next opcode operand body =>
    split at read
    · contradiction
    · next notBlank =>
      obtain rfl := Except.ok.inj read
      exact ⟨operand, body, by simpa using notBlank, by simp, rfl⟩

/-- A tag ends at the first closing braces behind its opening ones. -/
theorem exists_of_scanTag (scanned : scanTag opened location gathered chars = .ok segments) :
    ∃ body rest tag more, chars = body ++ '\x7d' :: '\x7d' :: rest ∧
      ¬['\x7d', '\x7d'] <:+: body ++ ['\x7d'] ∧
      tagOfBody opened (body.reverse ++ gathered) = .ok tag ∧
      scanText (location.afterAll (body ++ ['\x7d', '\x7d'])) [] 0 rest = .ok more ∧
      segments = .tag tag :: more := by
  induction chars generalizing location gathered with
  | nil => simp [scanTag.eq_def] at scanned
  | cons c chars induction =>
      rw [scanTag.eq_def] at scanned
      split at scanned
      · contradiction
      · next rest same =>
        obtain ⟨rfl, rfl⟩ := List.cons.inj same
        split at scanned
        · contradiction
        · next tag read =>
          split at scanned
          · contradiction
          · next more scannedRest =>
            exact ⟨[], rest, tag, more, rfl, by simp [Text.infix_cons_iff], read, scannedRest,
              (Except.ok.inj scanned).symm⟩
      · next d others notClosing same =>
        obtain ⟨rfl, rfl⟩ := List.cons.inj same
        obtain ⟨body, rest, tag, more, rfl, absent, read, scannedRest, whole⟩ := induction scanned
        refine ⟨c :: body, rest, tag, more, rfl, ?_, by simpa using read, scannedRest, whole⟩
        rw [List.cons_append, Text.infix_cons_iff, not_or]
        refine ⟨?_, absent⟩
        rintro ⟨rfl, closing⟩
        cases body with
        | nil => exact notClosing _ rfl rfl
        | cons d body =>
            obtain rfl : d = '\x7d' := by simpa using closing
            exact notClosing _ rfl rfl

/-- Reading a tag whose end is known. -/
theorem scanTag_append {more : List Segment} (absent : ¬['\x7d', '\x7d'] <:+: body ++ ['\x7d'])
    (read : tagOfBody opened (body.reverse ++ gathered) = .ok tag)
    (scanned : scanText (location.afterAll (body ++ ['\x7d', '\x7d'])) [] 0 rest = .ok more) :
    scanTag opened location gathered (body ++ '\x7d' :: '\x7d' :: rest) =
      .ok (.tag tag :: more) := by
  induction body generalizing location gathered with
  | nil =>
      rw [List.nil_append, scanTag]
      rw [List.reverse_nil, List.nil_append] at read
      have scanned : scanText ((location.after '\x7d').after '\x7d') [] 0 rest = .ok more := scanned
      simp only [read, scanned]
  | cons c body induction =>
      rw [List.cons_append, Text.infix_cons_iff, not_or] at absent
      rw [List.cons_append, scanTag.eq_def]
      split
      · contradiction
      · next others same =>
        obtain ⟨rfl, next⟩ := List.cons.inj same
        refine absurd ⟨rfl, ?_⟩ absent.1
        cases body with
        | nil => rfl
        | cons d body => exact congrArg List.head? next
      · next d others _ same =>
        obtain ⟨rfl, rfl⟩ := List.cons.inj same
        exact induction absent.2 (by simpa using read) scanned

theorem Tag.isScanned_of_tagOfBody (absent : ¬['\x7d', '\x7d'] <:+: body ++ ['\x7d'])
    (read : tagOfBody opened body.reverse = .ok tag) : tag.IsScanned := by
  obtain ⟨operand, same, notBlank, isOperand, -⟩ := exists_of_tagOfBody read
  rw [List.reverse_reverse] at same
  refine ⟨notBlank, by rw [isOperand]; exact Text.isTrimmed_trim operand, fun within => absent ?_⟩
  have isWithin : Text.trim operand <:+: body ++ ['\x7d'] := by
    rw [same]
    exact (Text.trim_infix operand).trans
      ⟨[tag.opcode], ['\x7d'], by simp⟩
  exact (isOperand ▸ within).trans isWithin

/-! ## Texts -/

/-- The segments that arise, whatever was read before, unless it ends in one opening brace that
could belong to a tag. -/
theorem areScanned_of_scanText (location : Location) (gathered : List Char) (slashes : Nat)
    (chars : List Char) {segments : List Segment}
    (settled : slashes = 0 → EndsInLoneBrace gathered.reverse → chars.head? ≠ some '\x7b')
    (scanned : scanText location gathered slashes chars = .ok segments) :
    AreScanned segments := by
  rw [scanText.eq_def] at scanned
  split at scanned
  · obtain rfl := Except.ok.inj scanned
    exact areScanned_literalSegment _
  · exact areScanned_of_scanText _ _ _ _ (fun isZero => absurd isZero (Nat.succ_ne_zero _)) scanned
  · next rest =>
    dsimp only at scanned
    split at scanned
    · -- the braces are literal text, which now ends in two braces
      refine areScanned_of_scanText _ _ _ _ (fun _ lone => ?_) scanned
      exact absurd rfl (endsInLoneBrace_reverse_iff.mp lone).2
    · next isEven =>
      split at scanned
      · contradiction
      · next inside scannedTag =>
        obtain rfl := Except.ok.inj scanned
        obtain ⟨body, after, tag, more, rfl, absent, read, scannedRest, rfl⟩ :=
          exists_of_scanTag scannedTag
        have later := areScanned_of_scanText _ _ _ after
          (fun _ lone => absurd (endsInLoneBrace_reverse_iff.mp lone).1 (by simp)) scannedRest
        rw [List.append_nil] at read
        refine later.tag (Tag.isScanned_of_tagOfBody absent read) fun lone => ?_
        cases half : slashes / 2 with
        | zero =>
            rw [half] at lone
            exact settled (by omega) lone rfl
        | succ count =>
            rw [half] at lone
            exact absurd (endsInLoneBrace_reverse_iff.mp lone).1 (by simp [List.replicate_succ])
  · next c rest notSlash notOpening =>
    refine areScanned_of_scanText _ _ _ _ (fun _ lone next => ?_) scanned
    obtain rfl : c = '\x7b' := by
      simpa using (endsInLoneBrace_reverse_iff.mp lone).1
    obtain ⟨more, rfl⟩ : ∃ more, rest = '\x7b' :: more := by
      cases rest with
      | nil => simp at next
      | cons d more => exact ⟨more, by rw [show d = '\x7b' by simpa using next]⟩
    exact notOpening more rfl rfl
termination_by chars.length
decreasing_by all_goals simp only [*, List.length_cons, List.length_append]; omega

theorem areScanned_of_scan {source : String} {segments : List Segment}
    (scanned : scan source = .ok segments) : AreScanned segments :=
  areScanned_of_scanText .start [] 0 source.toList (fun _ lone => absurd rfl lone.ne_nil) scanned

/-! ## Where tags stand -/

/-- Whether a tag stands in a source behind some text: its opening braces come next, with the tag
up to the first closing ones, and what is scanned behind these gives the segments after the tag. -/
structure Tag.StandsBehind (tag : Tag) (before source : List Char) (back : List Segment) : Prop where
  location_eq : tag.location = placeAfter before
  isWritten : ∃ operand rest,
    source = before ++ '\x7b' :: '\x7b' :: tag.opcode :: operand ++ '\x7d' :: '\x7d' :: rest ∧
      ¬['\x7d', '\x7d'] <:+: tag.opcode :: operand ++ ['\x7d'] ∧
      tag.operand.toList = Text.trim operand ∧
      scanText
        (placeAfter
          (before ++ '\x7b' :: '\x7b' :: tag.opcode :: operand ++ ['\x7d', '\x7d'])) [] 0 rest =
        .ok back

/-- What comes first after what was gathered: all of it, and then the tag with what follows. -/
theorem append_eq_literalSegment_append {front back more : List Segment} {first : Tag}
    (same : front ++ .tag tag :: back = literalSegment gathered ++ .tag first :: more) :
    (tag = first ∧ back = more) ∨ ∃ others, more = others ++ .tag tag :: back := by
  have behind {front : List Segment} (same : front ++ .tag tag :: back = .tag first :: more) :
      (tag = first ∧ back = more) ∨ ∃ others, more = others ++ .tag tag :: back := by
    cases front with
    | nil =>
        obtain ⟨isFirst, rfl⟩ := List.cons.inj same
        exact .inl ⟨Segment.tag.inj isFirst, rfl⟩
    | cons segment front => exact .inr ⟨front, (List.cons.inj same).2.symm⟩
  unfold literalSegment at same
  split at same
  · exact behind same
  · cases front with
    | nil =>
        obtain ⟨isLiteral, -⟩ := List.cons.inj same
        contradiction
    | cons segment front => exact behind (List.cons.inj same).2

/-- Each tag stands in the scanned text. -/
theorem exists_standsBehind_of_scanText (before gathered : List Char) (slashes : Nat)
    (chars : List Char) {front back : List Segment}
    (scanned : scanText (placeAfter before) gathered slashes chars =
      .ok (front ++ .tag tag :: back)) :
    ∃ between, tag.StandsBehind (before ++ between) (before ++ chars) back := by
  -- what is left of a text stands behind a part of it as well
  have later (part rest : List Char)
      (found : ∃ between, tag.StandsBehind (before ++ part ++ between) (before ++ part ++ rest) back) :
      ∃ between, tag.StandsBehind (before ++ between) (before ++ (part ++ rest)) back := by
    obtain ⟨between, stands⟩ := found
    exact ⟨part ++ between, by simpa only [List.append_assoc] using stands⟩
  rw [scanText.eq_def] at scanned
  split at scanned
  · have member : Segment.tag tag ∈ literalSegment (List.replicate slashes '\\' ++ gathered) := by
      rw [Except.ok.inj scanned]
      simp
    unfold literalSegment at member
    split at member <;> simp at member
  · next rest =>
    rw [← placeAfter_concat] at scanned
    exact later ['\\'] rest (exists_standsBehind_of_scanText _ _ _ rest scanned)
  · next rest =>
    dsimp only at scanned
    split at scanned
    · rw [← placeAfter_concat, ← placeAfter_concat] at scanned
      refine later ['\x7b', '\x7b'] rest ?_
      simpa using exists_standsBehind_of_scanText _ _ _ rest scanned
    · split at scanned
      · contradiction
      · next inside scannedTag =>
        obtain ⟨body, after, first, more, rfl, absent, read, scannedRest, rfl⟩ :=
          exists_of_scanTag scannedTag
        rw [← placeAfter_concat, ← placeAfter_concat, afterAll_placeAfter] at scannedRest
        rcases append_eq_literalSegment_append (Except.ok.inj scanned).symm with
          ⟨rfl, rfl⟩ | ⟨others, rfl⟩
        · obtain ⟨operand, same, -, isOperand, place⟩ := exists_of_tagOfBody read
          obtain rfl : body = tag.opcode :: operand := by simpa using same
          refine ⟨[], by simpa using place, operand, after, by simp, absent, isOperand, ?_⟩
          simpa using scannedRest
        · have found := exists_standsBehind_of_scanText _ _ _ after scannedRest
          simpa using later ('\x7b' :: '\x7b' :: body ++ ['\x7d', '\x7d']) after (by simpa using found)
  · next c rest _ _ =>
    rw [← placeAfter_concat] at scanned
    exact later [c] rest (exists_standsBehind_of_scanText _ _ _ rest scanned)
termination_by chars.length
decreasing_by all_goals simp only [*, List.length_cons, List.length_append]; omega

end Template
end StaticSite
