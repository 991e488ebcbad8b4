import StaticSite.Proofs.Template.Operands

/-!
# Malformed operands

This file tells which operands each opcode refuses, and with which fault.  A tag with a known
opcode that neither closes a scope nor goes on with a branch is refused for its operand only.
-/

namespace StaticSite
namespace Template

/-- Whether an operand has two sides, with the only arrow between them and something on the right.
The sides are told trimmed. -/
def HasSides (operand : String) (left : List Char) (right : String) : Prop :=
  ∃ before after, operand.toList = before ++ '<' :: '-' :: after ∧
    ¬['<', '-'] <:+: before ∧ ¬['<', '-'] <:+: after ∧
    Text.trim before = left ∧ Text.trim after = right.toList ∧ right ≠ ""

/-- What is wrong with the names of a map iteration. -/
inductive BadPair (names : List Char) : DirectiveFault → Prop
  | noPair (noPair : names.count ',' ≠ 1) : BadPair names (.missingPair (String.ofList names))
  | key {left right : List Char} (pair : names = left ++ ',' :: right)
      (single : names.count ',' = 1) (noKey : ¬IsBindable (String.ofList (Text.trim left))) :
      BadPair names (.invalidIdentifier (String.ofList (Text.trim left)))
  | value {left right : List Char} (pair : names = left ++ ',' :: right)
      (single : names.count ',' = 1) (isKey : IsBindable (String.ofList (Text.trim left)))
      (noValue : ¬IsBindable (String.ofList (Text.trim right))) :
      BadPair names (.invalidIdentifier (String.ofList (Text.trim right)))
  | nothing {left right : List Char} (pair : names = left ++ ',' :: right)
      (single : names.count ',' = 1) (noKey : Text.trim left = ['_'])
      (noValue : Text.trim right = ['_']) : BadPair names .bindsNothing

/-- What is wrong with an operand that binds names, given what can be wrong with its left side. -/
inductive BadBinding (bad : List Char → DirectiveFault → Prop) (operand : String) :
    DirectiveFault → Prop
  | noArrow (noSides : ∀ left right, ¬HasSides operand left right) :
      BadBinding bad operand (.missingArrow operand)
  | names {left : List Char} {right : String} {fault : DirectiveFault}
      (sides : HasSides operand left right) (isBad : bad left fault) : BadBinding bad operand fault

/-- What is wrong with a name. -/
def BadName (name : List Char) (fault : DirectiveFault) : Prop :=
  ¬IsBindable (String.ofList name) ∧ fault = .invalidIdentifier (String.ofList name)

/-- What is wrong with an operand for an opcode. -/
def Malformed (operand : String) (fault : DirectiveFault) : Char → Prop
  | '=' | '~' | '|' => operand = "" ∧ fault = .missingExpression
  | '+' => operand = "" ∧ fault = .missingAssetKey
  | ':' => BadName operand.toList fault
  | '.' | '[' | 'd' => BadBinding BadName operand fault
  | '\x7b' => BadBinding BadPair operand fault
  | _ => False

section

variable {operand right : String} {chars left names : List Char} {error : RenderError}

theorem identifier_eq_error_iff :
    identifier chars = .error error ↔ ∃ fault, BadName chars fault ∧
      error = .malformedDirective fault := by
  unfold identifier
  split
  · next isIdentifier => simp [BadName, IsBindable, isIdentifier]
  · next noIdentifier => simp [BadName, IsBindable, noIdentifier, eq_comm]

theorem required_eq_error_iff {fault : DirectiveFault} :
    required fault operand = .error error ↔
      operand = "" ∧ error = .malformedDirective fault := by
  unfold required
  split
  · next isEmpty =>
    have isEmpty : operand = "" := by simpa using isEmpty
    simp only [isEmpty, true_and, Except.error.injEq]
    exact eq_comm
  · next isText =>
    have isText : operand ≠ "" := by simpa using isText
    simp [isText]

theorem arrowSides_eq_ok_iff :
    arrowSides operand = .ok (left, right) ↔ HasSides operand left right := by
  constructor
  · intro read
    unfold arrowSides at read
    dsimp only at read
    split at read
    · contradiction
    · next front back split =>
      split at read
      · contradiction
      · next single =>
        obtain ⟨whole, absent⟩ := Text.eq_of_splitFirst split
        obtain ⟨noArrow, isText⟩ :
            Text.splitFirst ['<', '-'] back = none ∧ Text.trim back ≠ [] := by simpa using single
        obtain ⟨rfl, rfl⟩ : Text.trim front = left ∧ String.ofList (Text.trim back) = right := by
          simpa using read
        refine ⟨front, back, whole, fun within => absent ?_, Text.splitFirst_eq_none_iff.mp noArrow,
          rfl, String.toList_ofList.symm, by simpa using isText⟩
        exact within.trans (List.prefix_append front ['<']).isInfix
  · rintro ⟨before, after, whole, noFront, noBack, rfl, trimmed, isText⟩
    have absent : ¬['<', '-'] <:+: before ++ ['<'] := fun within =>
      noFront (Text.infix_of_infix_append_right (by simp) within)
    have noOther : Text.splitFirst ['<', '-'] after = none := Text.splitFirst_eq_none_iff.mpr noBack
    rw [arrowSides, whole, Text.splitFirst_append absent]
    simp [noOther, trimmed, isText]

theorem eq_missingArrow_of_arrowSides (refused : arrowSides operand = .error error) :
    error = .malformedDirective (.missingArrow operand) := by
  unfold arrowSides at refused
  dsimp only at refused
  split at refused
  · exact (Except.error.inj refused).symm
  · split at refused
    · exact (Except.error.inj refused).symm
    · contradiction

/-- What an operand that binds names is refused for, given what its left side is refused for. -/
theorem bindArrow_eq_error_iff {α β : Type} {read : List Char → Except RenderError α}
    {bad : List Char → DirectiveFault → Prop} (make : α → String → β)
    (refuses : ∀ left error, read left = .error error ↔
      ∃ fault, bad left fault ∧ error = .malformedDirective fault) :
    (do
      let (left, right) ← arrowSides operand
      let names ← read left
      pure (make names right)) = Except.error error ↔
    ∃ fault, BadBinding bad operand fault ∧ error = .malformedDirective fault := by
  constructor
  · intro refused
    rcases Except.bind_eq_error_iff.mp refused with noSides | ⟨⟨left, right⟩, sides, refused⟩
    · refine ⟨_, .noArrow fun left right sides => ?_, eq_missingArrow_of_arrowSides noSides⟩
      rw [arrowSides_eq_ok_iff.mpr sides] at noSides
      contradiction
    · rcases Except.bind_eq_error_iff.mp refused with noNames | ⟨names, -, made⟩
      · obtain ⟨fault, isBad, rfl⟩ := (refuses left error).mp noNames
        exact ⟨fault, .names (arrowSides_eq_ok_iff.mp sides) isBad, rfl⟩
      · contradiction
  · rintro ⟨fault, isBad, rfl⟩
    refine Except.bind_eq_error_iff.mpr ?_
    cases isBad with
    | noArrow noSides =>
        cases read : arrowSides operand with
        | ok sides => exact absurd (arrowSides_eq_ok_iff.mp read) (noSides _ _)
        | error error => exact .inl (congrArg _ (eq_missingArrow_of_arrowSides read))
    | names sides isBad =>
        refine .inr ⟨_, arrowSides_eq_ok_iff.mpr sides, Except.bind_eq_error_iff.mpr (.inl ?_)⟩
        exact (refuses _ _).mpr ⟨fault, isBad, rfl⟩

theorem bindable_eq_error_iff :
    bindable chars = .error error ↔
      ¬IsBindable (String.ofList (Text.trim chars)) ∧
        error = .malformedDirective (.invalidIdentifier (String.ofList (Text.trim chars))) := by
  unfold bindable
  split
  · next isPlaceholder =>
    have placeholder : Text.trim chars = ['_'] := by simpa using isPlaceholder
    have isBindable : IsBindable (String.ofList ['_']) := by decide
    simp [placeholder, isBindable]
  · next noPlaceholder =>
    have named := @identifier_eq_error_iff (Text.trim chars) error
    cases read : identifier (Text.trim chars) with
    | ok name => simpa [read, BadName] using named
    | error other => simpa [read, BadName, Functor.map, Except.map] using named

theorem length_splitOn_comma (chars : List Char) :
    (chars.splitOn ',').length = chars.count ',' + 1 := by
  induction chars with
  | nil => rfl
  | cons c chars induction =>
      rw [List.splitOn_cons_eq_if_modifyHead]
      split
      · next isComma => simp [beq_iff_eq.mp isComma, induction]
      · next noComma =>
        rw [List.count_cons_of_ne (by simpa using noComma), List.length_modifyHead, induction]

/-- A text with a single comma has two pieces. -/
theorem splitOn_comma (single : (left ++ ',' :: chars).count ',' = 1) :
    (left ++ ',' :: chars).splitOn ',' = [left, chars] := by
  have counts : left.count ',' = 0 ∧ chars.count ',' = 0 := by
    simp only [List.count_append, List.count_cons_self] at single
    omega
  rw [List.splitOn_append_cons_self, List.splitOn_eq_singleton (List.count_eq_zero.mp counts.1),
    List.splitOn_eq_singleton (List.count_eq_zero.mp counts.2)]
  rfl

theorem eq_of_splitOn_comma (pieces : names.splitOn ',' = [left, chars]) :
    names = left ++ ',' :: chars ∧ names.count ',' = 1 := by
  have single : names.count ',' = 1 := by
    have length := length_splitOn_comma names
    rw [pieces] at length
    exact (Nat.succ.inj length).symm
  obtain ⟨before, after, rfl⟩ :=
    List.append_of_mem (List.count_pos_iff.mp (show 0 < names.count ',' by omega))
  rw [splitOn_comma single] at pieces
  obtain ⟨rfl, rfl⟩ : before = left ∧ after = chars := by simpa using pieces
  exact ⟨rfl, single⟩

theorem pairNames_of_single (single : (left ++ ',' :: chars).count ',' = 1) :
    pairNames (left ++ ',' :: chars) = (do
      let key ← bindable left
      let value ← bindable chars
      if key.isNone && value.isNone then throw (.malformedDirective .bindsNothing)
      pure (key, value)) := by
  rw [pairNames, splitOn_comma single]

theorem exists_bindable_eq_ok_iff :
    (∃ slot, bindable chars = .ok slot) ↔ IsBindable (String.ofList (Text.trim chars)) := by
  cases read : bindable chars with
  | ok slot =>
      refine iff_of_true ⟨slot, rfl⟩ (Classical.not_not.mp fun noName => ?_)
      rw [bindable_eq_error_iff.mpr ⟨noName, rfl⟩] at read
      contradiction
  | error error => simpa using (bindable_eq_error_iff.mp read).1

theorem bindable_eq_ok_none_iff : bindable chars = .ok none ↔ Text.trim chars = ['_'] := by
  rw [bindable_eq_ok_iff]
  simp [slotText, IsSlot]

theorem pairNames_eq_error_iff :
    pairNames names = .error error ↔
      ∃ fault, BadPair names fault ∧ error = .malformedDirective fault := by
  constructor
  · intro refused
    unfold pairNames at refused
    split at refused
    · next left right pieces =>
      obtain ⟨pair, single⟩ := eq_of_splitOn_comma pieces
      rcases Except.bind_eq_error_iff.mp refused with badKey | ⟨key, isKey, refused⟩
      · obtain ⟨noKey, rfl⟩ := bindable_eq_error_iff.mp badKey
        exact ⟨_, .key pair single noKey, rfl⟩
      rcases Except.bind_eq_error_iff.mp refused with badValue | ⟨value, isValue, refused⟩
      · obtain ⟨noValue, rfl⟩ := bindable_eq_error_iff.mp badValue
        exact ⟨_, .value pair single (exists_bindable_eq_ok_iff.mp ⟨key, isKey⟩) noValue, rfl⟩
      · split at refused
        · next bindsNothing =>
          obtain ⟨rfl, rfl⟩ : key = none ∧ value = none := by simpa using bindsNothing
          exact ⟨_, .nothing pair single (bindable_eq_ok_none_iff.mp isKey)
            (bindable_eq_ok_none_iff.mp isValue), (Except.error.inj refused).symm⟩
        · contradiction
    · next noPair =>
      refine ⟨_, .noPair fun single => ?_, (Except.error.inj refused).symm⟩
      obtain ⟨before, after, rfl⟩ :=
        List.append_of_mem (List.count_pos_iff.mp (show 0 < names.count ',' by omega))
      exact noPair before after (splitOn_comma single)
  · rintro ⟨fault, isBad, rfl⟩
    cases isBad with
    | noPair noPair =>
        unfold pairNames
        split
        · next left right pieces => exact absurd (eq_of_splitOn_comma pieces).2 noPair
        · rfl
    | key pair single noKey =>
        rw [pair, pairNames_of_single (pair ▸ single)]
        exact Except.bind_eq_error_iff.mpr (.inl (bindable_eq_error_iff.mpr ⟨noKey, rfl⟩))
    | value pair single isKey noValue =>
        obtain ⟨key, readKey⟩ := exists_bindable_eq_ok_iff.mpr isKey
        have readValue := bindable_eq_error_iff.mpr ⟨noValue, rfl⟩
        rw [pair, pairNames_of_single (pair ▸ single), readKey, readValue]
        rfl
    | nothing pair single noKey noValue =>
        rw [pair, pairNames_of_single (pair ▸ single), bindable_eq_ok_none_iff.mpr noKey,
          bindable_eq_ok_none_iff.mpr noValue]
        rfl

/-! ## Tags -/

/-- The opcodes of tags. -/
def opcodes : List Char :=
  ['=', '~', '+', ':', '.', '|', ',', '[', '{', 'd', '/']

theorem required_bind_eq_error_iff {α : Type} {fault : DirectiveFault} {make : String → α} :
    (do
      let text ← required fault operand
      pure (make text)) = Except.error error ↔
    operand = "" ∧ error = .malformedDirective fault := by
  rw [Except.bind_eq_error_iff, required_eq_error_iff]
  simp [pure, Except.pure]

/-- What a tag is refused for, apart from those that go on with a branch or close a scope. -/
theorem ScopeStack.apply_eq_error_iff {stack : ScopeStack} {tag : Tag} (noBranch : tag.opcode ≠ ',')
    (noClose : tag.opcode ≠ '/') :
    stack.apply tag = .error error ↔
      (∃ fault, Malformed tag.operand fault tag.opcode ∧ error = .malformedDirective fault) ∨
        tag.opcode ∉ opcodes ∧ error = .invalidOperator tag.opcode := by
  obtain ⟨opcode, operand, location⟩ := tag
  have named (chars : List Char) (error : RenderError) := @identifier_eq_error_iff chars error
  have paired (chars : List Char) (error : RenderError) := @pairNames_eq_error_iff chars error
  unfold apply
  dsimp only
  split
  · refine required_bind_eq_error_iff.trans ?_
    simp [Malformed, opcodes]
  · refine required_bind_eq_error_iff.trans ?_
    simp [Malformed, opcodes]
  · refine required_bind_eq_error_iff.trans ?_
    simp [Malformed, opcodes]
  · rw [Except.bind_eq_error_iff, named]
    simp [Malformed, opcodes, pure, Except.pure]
  · refine (bindArrow_eq_error_iff (fun name text =>
      stack.push .child (.letIn name text) location) named).trans ?_
    simp [Malformed, opcodes]
  · refine required_bind_eq_error_iff.trans ?_
    simp [Malformed, opcodes]
  · contradiction
  · refine (bindArrow_eq_error_iff (fun item iterable =>
      stack.push .child (.listIteration item iterable) location) named).trans ?_
    simp [Malformed, opcodes]
  · refine (bindArrow_eq_error_iff (fun names map =>
      stack.push .child (.mapIteration names.1 names.2 map) location) paired).trans ?_
    simp [Malformed, opcodes]
  · refine (bindArrow_eq_error_iff (fun name key =>
      stack.push .child (.importing name key) location) named).trans ?_
    simp [Malformed, opcodes]
  · contradiction
  · simp_all [Malformed, opcodes, eq_comm]

end

end Template
end StaticSite
