import StaticSite.Proofs.Expression.Printing

/-!
# Reading printed tokens

The tokens of a tree are read as that tree, whatever follows them, as long as nothing follows that
would continue the reading.
-/

namespace StaticSite
namespace Expression

/-- Whether a reading gives a tree and leaves some tokens. -/
def Gives {size : Nat} (reading : Parsed size) (tree : Tree) (rest : List Placed) : Prop :=
  ∃ shorter, reading = .ok ⟨tree, rest, shorter⟩

variable {finish : Nat} {tree left right : Tree} {tokens rest after last : List Placed}

/-! ## One step of each reader -/

theorem gives_parseConditional_of_stop (only : Gives (parseBinary finish levels tokens) tree rest)
    (stop : ∀ placed ∈ rest.head?, placed.token ≠ .question) :
    Gives (parseConditional finish tokens) tree rest := by
  obtain ⟨shorter, only⟩ := only
  refine ⟨shorter, ?_⟩
  rw [parseConditional, only]
  split
  · contradiction
  · next same =>
    obtain ⟨rfl, rfl⟩ : tree = _ ∧ rest = _ := by simpa using same
    split
    · simp at stop
    · rfl

theorem gives_parseConditional_of_question {condition whenTrue whenFalse : Tree}
    {offset middle : Nat} {afterQuestion afterColon : List Placed}
    (first : Gives (parseBinary finish levels tokens) condition
      (⟨.question, offset⟩ :: afterQuestion))
    (second : Gives (parseConditional finish afterQuestion) whenTrue
      (⟨.colon, middle⟩ :: afterColon))
    (third : Gives (parseConditional finish afterColon) whenFalse rest) :
    Gives (parseConditional finish tokens) (.conditional condition whenTrue whenFalse) rest := by
  obtain ⟨_, first⟩ := first
  obtain ⟨_, second⟩ := second
  obtain ⟨_, third⟩ := third
  rw [parseConditional, first]
  simp only [second, third]
  exact ⟨_, rfl⟩

theorem gives_parseBinary_nil (power : Gives (parsePower finish tokens) tree rest) :
    Gives (parseBinary finish [] tokens) tree rest := by
  rwa [parseBinary]

theorem gives_parseBinary_cons {level : Level} {tighter : List Level}
    (operand : Gives (parseBinary finish tighter tokens) left after)
    (operations : Gives (parseOperations finish level tighter left after) tree rest) :
    Gives (parseBinary finish (level :: tighter) tokens) tree rest := by
  obtain ⟨_, operand⟩ := operand
  obtain ⟨_, operations⟩ := operations
  rw [parseBinary, operand]
  simp only [operations]
  exact ⟨_, rfl⟩

theorem gives_parseOperations_of_stop {level : Level} {tighter : List Level}
    (stop : ∀ placed ∈ rest.head?, level.binary? placed.token = none) :
    Gives (parseOperations finish level tighter tree rest) tree rest := by
  cases rest with
  | nil =>
      rw [parseOperations]
      exact ⟨_, rfl⟩
  | cons placed rest =>
      rw [parseOperations]
      simp only [stop placed rfl]
      exact ⟨_, rfl⟩

theorem gives_parseOperations_of_operation {level : Level} {tighter : List Level}
    {placed : Placed} {operation : Binary} (found : level.binary? placed.token = some operation)
    (operand : Gives (parseBinary finish tighter rest) right after)
    (operations : Gives (parseOperations finish level tighter (.binary operation left right) after)
      tree last) :
    Gives (parseOperations finish level tighter left (placed :: rest)) tree last := by
  obtain ⟨_, operand⟩ := operand
  obtain ⟨_, operations⟩ := operations
  rw [parseOperations]
  simp only [found, operand, operations]
  exact ⟨_, rfl⟩

theorem gives_parsePower_of_stop (base : Gives (parseUnary finish tokens) tree rest)
    (stop : ∀ placed ∈ rest.head?, placed.token ≠ .operator .starStar) :
    Gives (parsePower finish tokens) tree rest := by
  obtain ⟨shorter, base⟩ := base
  refine ⟨shorter, ?_⟩
  rw [parsePower, base]
  split
  · contradiction
  · next same =>
    obtain ⟨rfl, rfl⟩ : tree = _ ∧ rest = _ := by simpa using same
    split
    · simp at stop
    · rfl

theorem gives_parsePower_of_starStar {offset : Nat}
    (base : Gives (parseUnary finish tokens) left (⟨.operator .starStar, offset⟩ :: after))
    (exponent : Gives (parsePower finish after) right rest) :
    Gives (parsePower finish tokens) (.binary .power left right) rest := by
  obtain ⟨_, base⟩ := base
  obtain ⟨_, exponent⟩ := exponent
  rw [parsePower, base]
  simp only [exponent]
  exact ⟨_, rfl⟩

theorem gives_parseUnary_of_operation {operation : Unary} {offset : Nat}
    (operand : Gives (parseUnary finish tokens) tree rest) :
    Gives (parseUnary finish (⟨.operator operation.symbol, offset⟩ :: tokens))
      (.unary operation tree) rest := by
  obtain ⟨_, operand⟩ := operand
  have known : unary? operation.symbol = some operation := by cases operation <;> rfl
  rw [parseUnary]
  simp only [known, operand]
  exact ⟨_, rfl⟩

/-- An operand that begins with an operation is no form of the tightest level. -/
theorem gives_parseUnary_of_postfix (operand : Gives (parsePostfix finish tokens) tree rest) :
    Gives (parseUnary finish tokens) tree rest := by
  rw [parseUnary.eq_def]
  split
  · next symbol offset tokens =>
    split
    · obtain ⟨_, read⟩ := operand
      rw [parsePostfix, parsePrimary.eq_def] at read
      contradiction
    · exact operand
  · exact operand

theorem gives_parsePostfix (target : Gives (parsePrimary finish tokens) left after)
    (accesses : Gives (parseAccesses finish left after) tree rest) :
    Gives (parsePostfix finish tokens) tree rest := by
  obtain ⟨_, target⟩ := target
  obtain ⟨_, accesses⟩ := accesses
  rw [parsePostfix, target]
  simp only [accesses]
  exact ⟨_, rfl⟩

theorem gives_parseAccesses_of_stop
    (stop : ∀ placed ∈ rest.head?, placed.token ≠ .dot ∧ placed.token ≠ .leftBracket) :
    Gives (parseAccesses finish tree rest) tree rest := by
  rw [parseAccesses.eq_def]
  split
  · simp at stop
  · simp at stop
  · simp at stop
  · exact ⟨_, rfl⟩

theorem gives_parseAccesses_of_field {name : String} {offset other : Nat}
    (more : Gives (parseAccesses finish (.field left name) after) tree rest) :
    Gives (parseAccesses finish left (⟨.dot, offset⟩ :: ⟨.identifier name, other⟩ :: after))
      tree rest := by
  obtain ⟨_, more⟩ := more
  rw [parseAccesses]
  simp only [more]
  exact ⟨_, rfl⟩

theorem gives_parseAccesses_of_index {offset other : Nat}
    (position : Gives (parseConditional finish tokens) right (⟨.rightBracket, other⟩ :: after))
    (more : Gives (parseAccesses finish (.index left right) after) tree rest) :
    Gives (parseAccesses finish left (⟨.leftBracket, offset⟩ :: tokens)) tree rest := by
  obtain ⟨_, position⟩ := position
  obtain ⟨_, more⟩ := more
  rw [parseAccesses]
  simp only [position, more]
  exact ⟨_, rfl⟩

theorem gives_parsePrimary_of_parentheses {offset other : Nat}
    (inner : Gives (parseConditional finish tokens) tree (⟨.rightParenthesis, other⟩ :: rest)) :
    Gives (parsePrimary finish (⟨.leftParenthesis, offset⟩ :: tokens)) tree rest := by
  obtain ⟨_, inner⟩ := inner
  rw [parsePrimary]
  simp only [inner]
  exact ⟨_, rfl⟩

/-! ## Reading at a level -/

/-- The level at which a reading would go on with a token, zero if no reading would. -/
def Token.level : Token → Nat
  | .question => 1
  | .operator symbol => symbol.level
  | .dot | .leftBracket => 14
  | _ => 0

/-- Whether a reading at a level ends before some tokens. -/
def Closes (place : Nat) (rest : List Placed) : Prop :=
  ∀ placed ∈ rest.head?, placed.token.level < place

/-- The reader of the forms of a level and tighter ones. -/
def parseAt (finish place : Nat) (tokens : List Placed) : Parsed tokens.length :=
  if place ≤ 1 then parseConditional finish tokens
  else if place ≤ 12 then parseBinary finish (levels.drop (place - 2)) tokens
  else if place = 13 then parseUnary finish tokens
  else parsePostfix finish tokens

/-- What a reading that has come to a tree gives in the end: where operations group to the left,
and for fields and positions, it may go on from the tree. -/
def Resumes (finish place : Nat) (tree : Tree) (rest : List Placed) (final : Tree)
    (last : List Placed) : Prop :=
  if place ≤ 1 ∨ place = 12 ∨ place = 13 then Closes place rest ∧ final = tree ∧ last = rest
  else if place ≤ 11 then
    Gives (parseOperations finish (levels.getD (place - 2) []) (levels.drop (place - 1)) tree rest)
      final last
  else Gives (parseAccesses finish tree rest) final last

/-- Whether reading some tokens at a level comes to a tree, before anything that does not continue
an operand of that level. -/
def Reads (finish place : Nat) (tree : Tree) (tokens : List Token) : Prop :=
  ∀ before rest, before.map Placed.token = tokens → Closes (place + 1) rest →
    ∀ final last, Resumes finish place tree rest final last →
      Gives (parseAt finish place (before ++ rest)) final last

theorem Operator.level_le (symbol : Operator) : symbol.level ≤ 12 := by
  cases symbol <;> decide

theorem Closes.mono {place tighter : Nat} (closes : Closes place rest) (le : place ≤ tighter) :
    Closes tighter rest :=
  fun placed member => Nat.lt_of_lt_of_le (closes placed member) le

theorem drop_levels {place : Nat} (low : 2 ≤ place) (high : place ≤ 11) :
    levels.drop (place - 2) = levels.getD (place - 2) [] :: levels.drop (place - 1) := by
  have inside : place - 2 < levels.length := by
    simp only [levels, List.length_cons, List.length_nil]
    omega
  rw [List.drop_eq_getElem_cons inside, List.getD_eq_getElem?_getD,
    List.getElem?_eq_getElem inside, show place - 2 + 1 = place - 1 by omega]
  rfl

/-- The table has a symbol at no level but its own. -/
theorem lookup_levels_eq_none (symbol : Operator) (index : Fin 10)
    (looser : symbol.level < index + 2) : (levels.getD index []).lookup symbol = none := by
  revert index
  cases symbol <;> decide

theorem binary?_eq_none {place : Nat} (low : 2 ≤ place) (high : place ≤ 11) (token : Token)
    (looser : token.level < place) : (levels.getD (place - 2) []).binary? token = none := by
  cases token with
  | operator symbol =>
      refine lookup_levels_eq_none symbol ⟨place - 2, by omega⟩ ?_
      calc
        symbol.level < place := looser
        _ = place - 2 + 2 := by omega
  | _ => rfl

theorem parseAt_eq_parseBinary {place : Nat} (low : 2 ≤ place) (high : place ≤ 12) :
    parseAt finish place tokens = parseBinary finish (levels.drop (place - 2)) tokens := by
  have tighter : ¬place ≤ 1 := by omega
  simp only [parseAt, tighter, high, ↓reduceIte]

theorem resumes_iff_parseOperations {place : Nat} (low : 2 ≤ place) (high : place ≤ 11) :
    Resumes finish place tree rest left last ↔
      Gives (parseOperations finish (levels.getD (place - 2) []) (levels.drop (place - 1))
        tree rest) left last := by
  have groupsLeft : ¬(place ≤ 1 ∨ place = 12 ∨ place = 13) := by omega
  simp only [Resumes, groupsLeft, high, ↓reduceIte]

/-- A reading that has come to a tree gives it if nothing follows that would continue it. -/
theorem resumes_of_closes {place : Nat} (high : place ≤ 14) (closes : Closes place rest) :
    Resumes finish place tree rest tree rest := by
  unfold Resumes
  split
  · exact ⟨closes, rfl, rfl⟩
  · split
    · next outside binary =>
      refine gives_parseOperations_of_stop fun placed member => ?_
      exact binary?_eq_none (by omega) binary placed.token (closes placed member)
    · refine gives_parseAccesses_of_stop fun placed member => ?_
      have looser := Nat.lt_of_lt_of_le (closes placed member) high
      constructor
      · rintro isDot
        simp [isDot, Token.level] at looser
      · rintro isBracket
        simp [isBracket, Token.level] at looser

theorem Reads.gives {place : Nat} {spelled : List Token} {before : List Placed}
    (reads : Reads finish place tree spelled) (high : place ≤ 14)
    (same : before.map Placed.token = spelled) (closes : Closes place rest) :
    Gives (parseAt finish place (before ++ rest)) tree rest :=
  reads before rest same (closes.mono (Nat.le_succ place)) tree rest (resumes_of_closes high closes)

/-- What is read at a level is read at a looser one. -/
theorem Reads.looser {place : Nat} {spelled : List Token}
    (reads : Reads finish (place + 1) tree spelled) (low : 1 ≤ place) (high : place ≤ 13) :
    Reads finish place tree spelled := by
  intro before rest same closes final last resumes
  have operand := reads.gives (by omega) same closes
  -- only at the levels that group to the left may the reading go on after the operand
  rcases (by omega : place = 1 ∨ (2 ≤ place ∧ place ≤ 11) ∨ place = 12 ∨ place = 13) with
    rfl | ⟨least, most⟩ | rfl | rfl
  · obtain ⟨closes, rfl, rfl⟩ := resumes
    refine gives_parseConditional_of_stop operand fun placed member isQuestion => ?_
    simpa [isQuestion, Token.level] using closes placed member
  · rw [parseAt_eq_parseBinary (by omega) (by omega)] at operand
    rw [parseAt_eq_parseBinary least (by omega), drop_levels least most]
    exact gives_parseBinary_cons operand ((resumes_iff_parseOperations least most).mp resumes)
  · obtain ⟨closes, rfl, rfl⟩ := resumes
    refine gives_parseBinary_nil (gives_parsePower_of_stop operand fun placed member isPower => ?_)
    have looser := closes placed member
    rw [isPower] at looser
    exact absurd looser (by decide)
  · obtain ⟨closes, rfl, rfl⟩ := resumes
    exact gives_parseUnary_of_postfix operand

theorem Reads.loosen {place tighter : Nat} {spelled : List Token}
    (reads : Reads finish tighter tree spelled) (low : 1 ≤ place) (le : place ≤ tighter)
    (high : tighter ≤ 14) : Reads finish place tree spelled := by
  induction le with
  | refl => exact reads
  | step le induction =>
      exact induction (reads.looser (Nat.le_trans low le) (by omega)) (by omega)

/-- A tree in parentheses is read at every level. -/
theorem Reads.parentheses {spelled : List Token} (reads : Reads finish 1 tree spelled) :
    Reads finish 14 tree (.leftParenthesis :: spelled ++ [.rightParenthesis]) := by
  intro before rest same closes final last resumes
  obtain ⟨middle, ending, rfl, opened, closed⟩ := List.map_eq_append_iff.mp same
  obtain ⟨⟨_, offset⟩, inner, rfl, rfl, spelling⟩ := List.map_eq_cons_iff.mp opened
  obtain ⟨⟨_, other⟩, rfl, rfl⟩ := List.map_eq_singleton_iff.mp closed
  have stops : Closes 1 (⟨.rightParenthesis, other⟩ :: rest) := by
    rintro placed ⟨⟩
    exact Nat.zero_lt_one
  have content := reads.gives (by decide) spelling stops
  have whole : ⟨.leftParenthesis, offset⟩ :: inner ++ [⟨.rightParenthesis, other⟩] ++ rest =
      ⟨.leftParenthesis, offset⟩ :: (inner ++ ⟨.rightParenthesis, other⟩ :: rest) := by simp
  rw [whole]
  exact gives_parsePostfix (gives_parsePrimary_of_parentheses content) resumes

theorem Binary.two_le_level (operation : Binary) : 2 ≤ operation.symbol.level := by
  cases operation <;> decide

theorem Tree.level_mem (tree : Tree) : 1 ≤ tree.level ∧ tree.level ≤ 14 := by
  cases tree with
  | binary operation left right =>
      have least := operation.two_le_level
      have most := operation.symbol.level_le
      simp only [level]
      omega
  | _ => simp [level]

/-- What is read at the level of its form is read at every place, in parentheses if it must be. -/
theorem Reads.guard {place : Nat} (reads : Reads finish tree.level tree tree.tokens)
    (low : 1 ≤ place) (high : place ≤ 14) :
    Reads finish place tree (tree.guard place tree.tokens) := by
  obtain ⟨least, most⟩ := tree.level_mem
  unfold Tree.guard
  split
  · exact (reads.loosen (Nat.le_refl 1) least most).parentheses.loosen low high (Nat.le_refl 14)
  · next fits => exact reads.loosen low (Nat.le_of_not_lt fits) most

/-! ## Each form is read -/

theorem closes_cons {place offset : Nat} {token : Token} (looser : token.level < place) :
    Closes place (⟨token, offset⟩ :: rest) := by
  rintro placed ⟨⟩
  exact looser

theorem reads_leaf {token : Token}
    (leaf : ∀ offset rest, Gives (parsePrimary finish (⟨token, offset⟩ :: rest)) tree rest) :
    Reads finish 14 tree [token] := by
  intro before rest same closes final last resumes
  obtain ⟨⟨_, offset⟩, rfl, rfl⟩ := List.map_eq_singleton_iff.mp same
  exact gives_parsePostfix (leaf offset rest) resumes

theorem Reads.field {spelled : List Token} (target : Reads finish 14 left spelled)
    (name : String) : Reads finish 14 (.field left name) (spelled ++ [.dot, .identifier name]) := by
  intro before rest same closes final last resumes
  obtain ⟨first, access, rfl, spelling, ending⟩ := List.map_eq_append_iff.mp same
  obtain ⟨⟨_, offset⟩, others, rfl, rfl, named⟩ := List.map_eq_cons_iff.mp ending
  obtain ⟨⟨_, other⟩, rfl, rfl⟩ := List.map_eq_singleton_iff.mp named
  rw [List.append_assoc]
  refine target first _ spelling (closes_cons (by decide)) final last ?_
  exact gives_parseAccesses_of_field resumes

theorem Reads.index {spelled inner : List Token} (target : Reads finish 14 left spelled)
    (position : Reads finish 1 right inner) :
    Reads finish 14 (.index left right)
      (spelled ++ .leftBracket :: inner ++ [.rightBracket]) := by
  intro before rest same closes final last resumes
  obtain ⟨middle, ending, rfl, opened, closed⟩ := List.map_eq_append_iff.mp same
  obtain ⟨first, access, rfl, spelling, bracket⟩ := List.map_eq_append_iff.mp opened
  obtain ⟨⟨_, offset⟩, between, rfl, rfl, content⟩ := List.map_eq_cons_iff.mp bracket
  obtain ⟨⟨_, other⟩, rfl, rfl⟩ := List.map_eq_singleton_iff.mp closed
  have whole : first ++ ⟨.leftBracket, offset⟩ :: between ++ [⟨.rightBracket, other⟩] ++ rest =
      first ++ ⟨.leftBracket, offset⟩ :: (between ++ ⟨.rightBracket, other⟩ :: rest) := by simp
  rw [whole]
  refine target first _ spelling (closes_cons (by decide)) final last ?_
  exact gives_parseAccesses_of_index
    (position.gives (by decide) content (closes_cons (by decide))) resumes

theorem Reads.unary {spelled : List Token} (operand : Reads finish 13 tree spelled)
    (operation : Unary) :
    Reads finish 13 (.unary operation tree) (.operator operation.symbol :: spelled) := by
  intro before rest same _ final last resumes
  obtain ⟨closes, rfl, rfl⟩ := resumes
  obtain ⟨⟨_, offset⟩, others, rfl, rfl, spelling⟩ := List.map_eq_cons_iff.mp same
  exact gives_parseUnary_of_operation (operand.gives (by decide) spelling closes)

theorem Reads.power {spelled other : List Token} (base : Reads finish 13 left spelled)
    (exponent : Reads finish 12 right other) :
    Reads finish 12 (.binary .power left right) (spelled ++ .operator .starStar :: other) := by
  intro before rest same _ final last resumes
  obtain ⟨closes, rfl, rfl⟩ := resumes
  obtain ⟨first, ending, rfl, spelling, following⟩ := List.map_eq_append_iff.mp same
  obtain ⟨⟨_, offset⟩, second, rfl, rfl, otherSpelling⟩ := List.map_eq_cons_iff.mp following
  have starStar : Closes 13 (⟨.operator .starStar, offset⟩ :: (second ++ last)) :=
    closes_cons (by decide)
  have operand := base.gives (by decide) spelling starStar
  have power := exponent.gives (by decide) otherSpelling closes
  rw [parseAt_eq_parseBinary (by decide) (by decide)] at power ⊢
  rw [List.append_assoc]
  refine gives_parseBinary_nil (gives_parsePower_of_starStar operand ?_)
  rwa [show levels.drop (12 - 2) = [] from rfl, parseBinary] at power

theorem lookup_symbol {operation : Binary} (noPower : operation ≠ .power) :
    operation.symbol.level ≤ 11 ∧
      (levels.getD (operation.symbol.level - 2) []).binary? (.operator operation.symbol) =
        some operation := by
  cases operation with
  | power => contradiction
  | _ => decide

theorem Reads.binary {operation : Binary} (noPower : operation ≠ .power)
    {spelled other : List Token} (first : Reads finish operation.symbol.level left spelled)
    (second : Reads finish (operation.symbol.level + 1) right other) :
    Reads finish operation.symbol.level (.binary operation left right)
      (spelled ++ .operator operation.symbol :: other) := by
  intro before rest same closes final last resumes
  have low := operation.two_le_level
  obtain ⟨high, found⟩ := lookup_symbol noPower
  obtain ⟨start, ending, rfl, spelling, following⟩ := List.map_eq_append_iff.mp same
  obtain ⟨⟨_, offset⟩, finishing, rfl, rfl, otherSpelling⟩ := List.map_eq_cons_iff.mp following
  have operand := second.gives (by omega) otherSpelling closes
  rw [parseAt_eq_parseBinary (by omega) (by omega)] at operand
  rw [List.append_assoc]
  refine first start _ spelling (closes_cons (Nat.lt_succ_self _)) final last ?_
  rw [resumes_iff_parseOperations low high] at resumes ⊢
  exact gives_parseOperations_of_operation found operand resumes

theorem Reads.conditional {condition whenTrue whenFalse : Tree}
    {spelled middle other : List Token} (first : Reads finish 2 condition spelled)
    (second : Reads finish 1 whenTrue middle) (third : Reads finish 1 whenFalse other) :
    Reads finish 1 (.conditional condition whenTrue whenFalse)
      (spelled ++ .question :: middle ++ .colon :: other) := by
  intro before rest same _ final last resumes
  obtain ⟨closes, rfl, rfl⟩ := resumes
  obtain ⟨begin, ending, rfl, opened, afterColon⟩ := List.map_eq_append_iff.mp same
  obtain ⟨start, between, rfl, spelling, afterQuestion⟩ := List.map_eq_append_iff.mp opened
  obtain ⟨⟨_, offset⟩, inner, rfl, rfl, content⟩ := List.map_eq_cons_iff.mp afterQuestion
  obtain ⟨⟨_, place⟩, finishing, rfl, rfl, otherSpelling⟩ := List.map_eq_cons_iff.mp afterColon
  have whole : start ++ ⟨.question, offset⟩ :: inner ++ ⟨.colon, place⟩ :: finishing ++ last =
      start ++ ⟨.question, offset⟩ :: (inner ++ ⟨.colon, place⟩ :: (finishing ++ last)) := by simp
  rw [whole]
  exact gives_parseConditional_of_question
    (first.gives (by decide) spelling (closes_cons (by decide)))
    (second.gives (by decide) content (closes_cons (by decide)))
    (third.gives (by decide) otherSpelling closes)

/-- The tokens of a tree are read as the tree, at the level of its form. -/
theorem reads_tokens (finish : Nat) (tree : Tree) :
    Reads finish tree.level tree tree.tokens := by
  induction tree with
  | integer | float | boolean | string | identifier =>
      refine reads_leaf fun offset rest => ?_
      rw [parsePrimary]
      exact ⟨_, rfl⟩
  | field target name induction => exact (induction.guard (by decide) (by decide)).field name
  | index target position onTarget onPosition =>
      have inner := onPosition.loosen (Nat.le_refl 1) position.level_mem.1 position.level_mem.2
      exact (onTarget.guard (by decide) (by decide)).index inner
  | unary operation operand induction =>
      exact (induction.guard (by decide) (by decide)).unary operation
  | binary operation left right onLeft onRight =>
      -- the places beside a power are not those beside the operations that group to the left
      by_cases power : operation = .power
      · subst power
        exact (onLeft.guard (by decide) (by decide)).power (onRight.guard (by decide) (by decide))
      · have low := operation.two_le_level
        have high := (lookup_symbol power).1
        simp only [Tree.tokens, Binary.leftPlace, Binary.rightPlace, power, ↓reduceIte]
        exact .binary power (onLeft.guard (by omega) (by omega)) (onRight.guard (by omega) (by omega))
  | conditional condition whenTrue whenFalse onCondition onTrue onFalse =>
      have second := onTrue.loosen (Nat.le_refl 1) whenTrue.level_mem.1 whenTrue.level_mem.2
      have third := onFalse.loosen (Nat.le_refl 1) whenFalse.level_mem.1 whenFalse.level_mem.2
      exact (onCondition.guard (by decide) (by decide)).conditional second third

/-- The tokens of a tree, wherever they are placed, are one expression, and it is the tree. -/
theorem treeOfTokens_tokens (finish : Nat) {placed : List Placed}
    (same : placed.map Placed.token = tree.tokens) : treeOfTokens finish placed = .ok tree := by
  have reads : Reads finish 1 tree tree.tokens :=
    (reads_tokens finish tree).loosen (Nat.le_refl 1) tree.level_mem.1 tree.level_mem.2
  have nothing : Closes 1 [] := by
    rintro placed ⟨⟩
  have given := reads.gives (by decide) same nothing
  rw [List.append_nil] at given
  obtain ⟨_, read⟩ := given
  have conditional : parseConditional finish placed = _ := read
  rw [treeOfTokens, conditional]

end Expression
end StaticSite
