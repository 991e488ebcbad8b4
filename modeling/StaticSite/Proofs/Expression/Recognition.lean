import Mathlib
import StaticSite.Proofs.Expression.Faults
import StaticSite.Proofs.Expression.Grammar

/-!
# What is read and what is not

Reading settles every list of tokens: either its front is derived by the grammar, and what is left
does not continue it, or the reading fails at the first token that nothing behind it can save.  In
the end an expression is parsed if the grammar derives it, and a fault lies at the first token with
which no expression begins.
-/

namespace StaticSite
namespace Expression

section

variable {finish place bound : Nat} {tree left right : Tree} {front : List Token}
  {tokens rest others used before : List Placed}
  {size otherSize : List Placed → Nat} {reader : ∀ tokens, Parsed (size tokens)}
  {other : ∀ tokens, Parsed (otherSize tokens)}

/-! ## Readings that are settled -/

/-- Whether a reader fails behind some tokens, for the first of the others and whatever follows
it. -/
def FailsBehind (finish : Nat) {size : List Placed → Nat} (reader : ∀ tokens, Parsed (size tokens))
    (used rest : List Placed) : Prop :=
  ∀ others, others.head? = rest.head? → FailsAt finish (reader (used ++ others)) others

/-- How a reader at a level ends that goes on behind some tokens.  It takes tokens that the grammar
derives together with these, up to one that does not continue them; or it fails at the first token
behind some that can be continued to what the grammar derives. -/
inductive Settles (finish : Nat) {size : List Placed → Nat}
    (reader : ∀ tokens, Parsed (size tokens)) (place : Nat) (front : List Token)
    (tokens : List Placed) : Prop
  | gives (used rest : List Placed) {tree : Tree} (whole : used ++ rest = tokens)
      (reads : Gives (reader tokens) tree rest)
      (derives : Derives place tree (front ++ used.map Placed.token)) (closes : Closes place rest)
  | fails (used rest : List Placed) (whole : used ++ rest = tokens)
      (viable : IsViableAt place (front ++ used.map Placed.token))
      (failed : FailsBehind finish reader used rest)

theorem Closes.congr (closes : Closes place rest) (same : others.head? = rest.head?) :
    Closes place others := by
  unfold Closes
  rwa [same]

/-- What does not come first does not come first among others that begin in the same way. -/
theorem token_ne_of_head?_eq {token : Token} (same : others.head? = rest.head?)
    (missing : ¬∃ offset after, rest = ⟨token, offset⟩ :: after) :
    ∀ placed ∈ others.head?, placed.token ≠ token := by
  rw [same]
  rintro ⟨_, offset⟩ member rfl
  obtain ⟨after, isRest⟩ := List.head?_eq_some_iff.mp member
  exact missing ⟨offset, after, isRest⟩

/-- At the next level nothing is added to what may not continue. -/
theorem Closes.tighten (closes : Closes (place + 1) rest)
    (differs : ∀ placed ∈ rest.head?, placed.token.level ≠ place) : Closes place rest := by
  intro placed member
  have looser := closes placed member
  have notSame := differs placed member
  omega

theorem head?_append_congr (same : others.head? = rest.head?) :
    (used ++ others).head? = (used ++ rest).head? := by
  cases used with
  | nil => exact same
  | cons placed used => rfl

/-- A reader that fails where another does fails behind the tokens that come before. -/
theorem FailsBehind.carry (failed : FailsBehind finish reader used rest)
    (carries : ∀ tokens last, tokens.head? = (used ++ rest).head? →
      FailsAt finish (reader tokens) last → FailsAt finish (other (before ++ tokens)) last) :
    FailsBehind finish other (before ++ used) rest := by
  intro others same
  rw [List.append_assoc]
  exact carries _ _ (head?_append_congr same) (failed others same)

/-- A reader that fails where another does is settled where that one fails. -/
theorem Settles.of_failsBehind (before : List Placed) (failed : FailsBehind finish reader used rest)
    (viable : IsViableAt place (front ++ (before ++ used).map Placed.token))
    (carries : ∀ tokens last, tokens.head? = (used ++ rest).head? →
      FailsAt finish (reader tokens) last → FailsAt finish (other (before ++ tokens)) last) :
    Settles finish other place front (before ++ (used ++ rest)) :=
  .fails (before ++ used) rest (List.append_assoc ..) viable (failed.carry carries)

/-- A reader that goes on with another at the same level ends as the other does. -/
theorem Settles.behind
    (settles : Settles finish reader place (front ++ before.map Placed.token) tokens)
    (gives : ∀ tree rest, Gives (reader tokens) tree rest →
      Gives (other (before ++ tokens)) tree rest)
    (fails : ∀ others last, others.head? = tokens.head? → FailsAt finish (reader others) last →
      FailsAt finish (other (before ++ others)) last) :
    Settles finish other place front (before ++ tokens) := by
  cases settles with
  | gives used rest whole reads derives closes =>
      refine .gives (before ++ used) rest (by rw [List.append_assoc, whole]) (gives _ _ reads) ?_
        closes
      simpa using derives
  | fails used rest whole viable failed =>
      subst whole
      exact .of_failsBehind before failed (by simpa using viable) fails

/-- Whether all shorter lists of tokens are settled, at every level. -/
def SettlesBelow (finish bound : Nat) : Prop :=
  ∀ tokens : List Placed, tokens.length < bound → ∀ place, 1 ≤ place → place ≤ 14 →
    Settles finish (parseAt finish place) place [] tokens

/-! ## Operands -/

/-- How reading a literal, a name or parentheses ends. -/
inductive SettlesPrimary (finish : Nat) (tokens : List Placed) : Prop
  | gives (used rest : List Placed) {tree : Tree} (whole : used ++ rest = tokens)
      (reads : ∀ others, Gives (parsePrimary finish (used ++ others)) tree others)
      (derives : Derives 14 tree (used.map Placed.token)) (consumes : used ≠ [])
  | fails (used rest : List Placed) (whole : used ++ rest = tokens)
      (viable : IsViableAt 14 (used.map Placed.token))
      (failed : FailsBehind finish (parsePrimary finish) used rest)

/-- A token with which no operand begins. -/
theorem settlesPrimary_of_missing
    (missing : ∀ others, others.head? = tokens.head? →
      FailsAt finish (parsePrimary finish others) others) : SettlesPrimary finish tokens :=
  .fails [] tokens rfl (isViableAt_nil (by decide) (by decide)) missing

theorem settlesPrimary_of_leaf {token : Token} {offset : Nat}
    (reads : ∀ others, Gives (parsePrimary finish (⟨token, offset⟩ :: others)) tree others)
    (derives : Derives 14 tree [token]) : SettlesPrimary finish (⟨token, offset⟩ :: rest) :=
  .gives [⟨token, offset⟩] rest rfl reads derives (List.cons_ne_nil _ _)

theorem settlesPrimary_of_parenthesis {offset : Nat}
    (inner : Settles finish (parseAt finish 1) 1 [] tokens) :
    SettlesPrimary finish (⟨.leftParenthesis, offset⟩ :: tokens) := by
  cases inner with
  | @gives used rest tree whole reads derives closes =>
      have content (others : List Placed) (closes : Closes 1 others) :
          Gives (parseConditional finish (used ++ others)) tree others :=
        derives.gives (by decide) rfl closes
      by_cases closing : ∃ other after, rest = ⟨.rightParenthesis, other⟩ :: after
      · obtain ⟨other, after, rfl⟩ := closing
        refine .gives (⟨.leftParenthesis, offset⟩ :: used ++ [⟨.rightParenthesis, other⟩]) after
          (by simp [← whole]) (fun others => ?_) (by simpa using derives.parentheses) (by simp)
        have whole : ⟨.leftParenthesis, offset⟩ :: used ++ [⟨.rightParenthesis, other⟩] ++ others =
            ⟨.leftParenthesis, offset⟩ :: (used ++ ⟨.rightParenthesis, other⟩ :: others) := by simp
        rw [whole]
        exact gives_parsePrimary_of_parentheses (content _ (closes_cons (by decide)))
      · refine .fails (⟨.leftParenthesis, offset⟩ :: used) rest (by simp [← whole])
          ⟨[.rightParenthesis], tree, by simpa using derives.parentheses⟩ fun others same => ?_
        exact failsAt_parsePrimary_of_parenthesis (content others (closes.congr same))
          (token_ne_of_head?_eq same closing)
  | fails used rest whole viable failed =>
      have carried : FailsBehind finish (parsePrimary finish)
          ([⟨.leftParenthesis, offset⟩] ++ used) rest :=
        failed.carry fun _ _ _ => failsAt_parsePrimary_of_inner
      exact .fails (⟨.leftParenthesis, offset⟩ :: used) rest (by simp [← whole])
        (by simpa using viable.parentheses) carried

theorem settlesPrimary (below : SettlesBelow finish tokens.length) :
    SettlesPrimary finish tokens := by
  cases tokens with
  | nil =>
      refine settlesPrimary_of_missing fun others same => ?_
      obtain rfl := List.head?_eq_none_iff.mp same
      exact ⟨.missingExpression, by rw [parsePrimary]⟩
  | cons placed rest =>
      obtain ⟨token, offset⟩ := placed
      have missing (reads : ∀ others, parsePrimary finish (⟨token, offset⟩ :: others) =
          .error ⟨offset, .missingExpression⟩) :
          SettlesPrimary finish (⟨token, offset⟩ :: rest) := by
        refine settlesPrimary_of_missing fun others same => ?_
        obtain ⟨more, rfl⟩ := List.head?_eq_some_iff.mp same
        exact ⟨.missingExpression, reads more⟩
      cases token with
      | integer value =>
          exact settlesPrimary_of_leaf (fun others => ⟨_, by rw [parsePrimary]⟩) (.integer value)
      | float value =>
          exact settlesPrimary_of_leaf (fun others => ⟨_, by rw [parsePrimary]⟩) (.float value)
      | string text =>
          exact settlesPrimary_of_leaf (fun others => ⟨_, by rw [parsePrimary]⟩) (.string text)
      | identifier name =>
          exact settlesPrimary_of_leaf (fun others => ⟨_, by rw [parsePrimary]⟩) (.identifier name)
      | boolean value =>
          exact settlesPrimary_of_leaf (fun others => ⟨_, by rw [parsePrimary]⟩) (.boolean value)
      | leftParenthesis =>
          exact settlesPrimary_of_parenthesis
            (below rest (Nat.lt_succ_self _) 1 (Nat.le_refl 1) (by decide))
      | operator | rightParenthesis | leftBracket | rightBracket | dot | question | colon =>
          exact missing fun others => by rw [parsePrimary.eq_def]

theorem settles_parseAccesses_of_stop (target : Derives 14 left front)
    (stop : ∀ placed ∈ tokens.head?, placed.token ≠ .dot ∧ placed.token ≠ .leftBracket) :
    Settles finish (parseAccesses finish left) 14 front tokens := by
  refine .gives [] tokens rfl (gives_parseAccesses_of_stop stop) (by simpa using target) ?_
  intro placed member
  obtain ⟨noDot, noBracket⟩ := stop placed member
  cases token : placed.token with
  | operator symbol => exact Nat.lt_succ_of_le (Nat.le_succ_of_le symbol.level_le)
  | dot => exact absurd token noDot
  | leftBracket => exact absurd token noBracket
  | _ => simp [Token.level]

/-- A field behind an operand, and what comes behind the field. -/
theorem settles_field {offset : Nat} (target : Derives 14 left front)
    (later : ∀ name other after, rest = ⟨.identifier name, other⟩ :: after →
      Settles finish (parseAccesses finish (.field left name)) 14
        (front ++ [.dot, .identifier name]) after) :
    Settles finish (parseAccesses finish left) 14 front (⟨.dot, offset⟩ :: rest) := by
  by_cases named : ∃ name other after, rest = ⟨.identifier name, other⟩ :: after
  · obtain ⟨name, other, after, rfl⟩ := named
    have whole : Settles finish (parseAccesses finish left) 14 front
        ([⟨.dot, offset⟩, ⟨.identifier name, other⟩] ++ after) :=
      (later name other after rfl).behind (fun _ _ => gives_parseAccesses_of_field)
        fun _ _ _ => failsAt_parseAccesses_of_field
    exact whole
  · refine .fails [⟨.dot, offset⟩] rest rfl target.isViableAt_dot fun others same => ?_
    exact failsAt_parseAccesses_of_name fun placed member name =>
      token_ne_of_head?_eq same (fun found => named ⟨name, found⟩) placed member

/-- A position behind an operand, and what comes behind the position. -/
theorem settles_index {offset : Nat} (target : Derives 14 left front)
    (inner : Settles finish (parseAt finish 1) 1 [] rest)
    (later : ∀ position inside after, Derives 1 position inside → after.length < rest.length →
      Settles finish (parseAccesses finish (.index left position)) 14
        (front ++ .leftBracket :: inside ++ [.rightBracket]) after) :
    Settles finish (parseAccesses finish left) 14 front (⟨.leftBracket, offset⟩ :: rest) := by
  cases inner with
  | fails used rest whole viable failed =>
      subst whole
      exact .of_failsBehind [⟨.leftBracket, offset⟩] failed (by simpa using viable.index target)
        fun _ _ _ => failsAt_parseAccesses_of_position
  | @gives used rest position whole reads derives closes =>
      subst whole
      have content (others : List Placed) (closes : Closes 1 others) :
          Gives (parseConditional finish (used ++ others)) position others :=
        derives.gives (by decide) rfl closes
      by_cases closing : ∃ other after, rest = ⟨.rightBracket, other⟩ :: after
      · obtain ⟨other, after, rfl⟩ := closing
        have next (others : List Placed) : Gives
            (parseConditional finish (used ++ ⟨.rightBracket, other⟩ :: others)) position
            (⟨.rightBracket, other⟩ :: others) :=
          content _ (closes_cons (by decide))
        have shape (others : List Placed) :
            ⟨.leftBracket, offset⟩ :: used ++ [⟨.rightBracket, other⟩] ++ others =
              ⟨.leftBracket, offset⟩ :: (used ++ ⟨.rightBracket, other⟩ :: others) := by simp
        have shorter : after.length < (used ++ ⟨.rightBracket, other⟩ :: after).length := by
          simp only [List.length_append, List.length_cons]
          omega
        have behind := later position _ after derives shorter
        rw [← shape]
        refine Settles.behind (by simpa using behind) (fun tree last more => ?_)
          fun others last _ failed => ?_
        · rw [shape]
          exact gives_parseAccesses_of_index (next after) more
        · rw [shape]
          exact failsAt_parseAccesses_of_index (next others) failed
      · refine .fails (⟨.leftBracket, offset⟩ :: used) rest rfl
          ⟨[.rightBracket], _, by simpa using target.index derives⟩ fun others same => ?_
        exact failsAt_parseAccesses_of_bracket (content others (closes.congr same))
          (token_ne_of_head?_eq same closing)

/-- Fields and positions behind an operand. -/
theorem settles_parseAccesses (below : SettlesBelow finish bound) {left : Tree}
    {front : List Token} (target : Derives 14 left front) (tokens : List Placed)
    (short : tokens.length < bound) :
    Settles finish (parseAccesses finish left) 14 front tokens := by
  induction length : tokens.length using Nat.strongRecOn generalizing left front tokens with
  | ind count induction =>
  subst length
  by_cases isDot : ∃ offset rest, tokens = ⟨.dot, offset⟩ :: rest
  · obtain ⟨offset, rest, rfl⟩ := isDot
    refine settles_field target ?_
    rintro name other after rfl
    simp only [List.length_cons] at short induction
    exact induction after.length (by omega) (target.field name) after (by omega) rfl
  · by_cases isBracket : ∃ offset rest, tokens = ⟨.leftBracket, offset⟩ :: rest
    · obtain ⟨offset, rest, rfl⟩ := isBracket
      simp only [List.length_cons] at short induction
      have inner := below rest (Nat.lt_of_succ_lt short) 1 (Nat.le_refl 1) (by decide)
      exact settles_index target inner fun position inside after derives shorter =>
        induction after.length (by omega) (target.index derives) after (by omega) rfl
    · exact settles_parseAccesses_of_stop target fun placed member =>
        ⟨token_ne_of_head?_eq rfl isDot placed member,
          token_ne_of_head?_eq rfl isBracket placed member⟩

/-- The level of operands with fields and positions. -/
theorem settles_parsePostfix (below : SettlesBelow finish tokens.length) :
    Settles finish (parsePostfix finish) 14 [] tokens := by
  cases settlesPrimary below with
  | gives used rest whole reads derives consumes =>
      subst whole
      have short : rest.length < (used ++ rest).length := by
        have := List.length_pos_iff.mpr consumes
        rw [List.length_append]
        omega
      have later := settles_parseAccesses below derives rest short
      exact later.behind (fun _ _ => gives_parsePostfix (reads rest))
        fun others _ _ => failsAt_parsePostfix_of_accesses (reads others)
  | fails used rest whole viable failed =>
      subst whole
      exact .of_failsBehind [] failed viable fun _ _ _ => failsAt_parsePostfix_of_primary

/-- The level of operands with operations in front. -/
theorem settles_parseUnary (below : SettlesBelow finish tokens.length)
    (tighter : Settles finish (parsePostfix finish) 14 [] tokens) :
    Settles finish (parseUnary finish) 13 [] tokens := by
  by_cases begins : ∃ (operation : Unary) (offset : Nat) (rest : List Placed),
      tokens = ⟨.operator operation.symbol, offset⟩ :: rest
  · obtain ⟨operation, offset, rest, rfl⟩ := begins
    have operand : Settles finish (parseUnary finish) 13 [] rest :=
      below rest (Nat.lt_succ_self _) 13 (by decide) (by decide)
    cases operand with
    | gives used last whole reads derives closes =>
        exact .gives (⟨.operator operation.symbol, offset⟩ :: used) last (by simp [← whole])
          (gives_parseUnary_of_operation reads) (derives.unary operation) closes
    | fails used last whole viable failed =>
        subst whole
        exact .of_failsBehind [⟨.operator operation.symbol, offset⟩] failed
          (viable.unary operation) fun _ _ _ => failsAt_parseUnary_of_operand operation offset
  · have same (others : List Placed) (alike : others.head? = tokens.head?) :
        parseUnary finish others = parsePostfix finish others :=
      parseUnary_eq_parsePostfix fun placed member operation =>
        token_ne_of_head?_eq alike (fun ⟨offset, rest, isTokens⟩ =>
          begins ⟨operation, offset, rest, isTokens⟩) placed member
    cases tighter with
    | gives used rest whole reads derives closes =>
        refine .gives used rest whole (by rwa [same tokens rfl])
          (derives.looser (by decide) (by decide)) (closes.tighten fun placed _ => ?_)
        cases placed.token with
        | operator symbol => exact Nat.ne_of_lt (Nat.lt_succ_of_le symbol.level_le)
        | _ => simp [Token.level]
    | fails used rest whole viable failed =>
        subst whole
        refine .of_failsBehind [] failed (viable.looser (by decide) (by decide))
          fun others last alike stopped => ?_
        rwa [List.nil_append, same others alike]

theorem parseAt_twelve : parseAt finish 12 = parsePower finish := by
  funext tokens
  rw [parseAt_eq_parseBinary (by decide) (by decide), show levels.drop (12 - 2) = [] from rfl,
    parseBinary]

theorem level_ne_twelve {token : Token} (noPower : token ≠ .operator .starStar) :
    token.level ≠ 12 := by
  cases token with
  | operator symbol =>
      cases symbol with
      | starStar => contradiction
      | _ => decide
  | _ => simp [Token.level]

/-- The level of powers. -/
theorem settles_parsePower (below : SettlesBelow finish tokens.length)
    (tighter : Settles finish (parseUnary finish) 13 [] tokens) :
    Settles finish (parsePower finish) 12 [] tokens := by
  cases tighter with
  | @gives used rest base whole reads derives closes =>
      by_cases isPower : ∃ offset after, rest = ⟨.operator .starStar, offset⟩ :: after
      · obtain ⟨offset, after, rfl⟩ := isPower
        subst whole
        have operand (others : List Placed) :
            Gives (parseUnary finish (used ++ ⟨.operator .starStar, offset⟩ :: others)) base
              (⟨.operator .starStar, offset⟩ :: others) :=
          derives.gives (by decide) rfl (closes_cons (by decide))
        have shape (others : List Placed) : used ++ [⟨.operator .starStar, offset⟩] ++ others =
            used ++ ⟨.operator .starStar, offset⟩ :: others := by simp
        have exponent := below after
          (by simp only [List.length_append, List.length_cons]; omega) 12 (by decide) (by decide)
        rw [parseAt_twelve] at exponent
        rw [← shape]
        cases exponent with
        | gives second last whole more behind closes =>
            refine .gives (used ++ [⟨.operator .starStar, offset⟩] ++ second) last
              (by simp [← whole]) ?_ (by simpa using derives.power behind) closes
            rw [shape]
            exact gives_parsePower_of_starStar (operand after) more
        | fails second last whole viable failed =>
            subst whole
            refine .of_failsBehind (used ++ [⟨.operator .starStar, offset⟩]) failed ?_
              fun others last _ stopped => ?_
            · simpa using viable.power derives
            · rw [shape]
              exact failsAt_parsePower_of_exponent (operand others) stopped
      · have noPower := token_ne_of_head?_eq rfl isPower
        exact .gives used rest whole (gives_parsePower_of_stop reads noPower)
          (derives.looser (by decide) (by decide))
          (closes.tighten fun placed member => level_ne_twelve (noPower placed member))
  | fails used rest whole viable failed =>
      subst whole
      exact .of_failsBehind [] failed (viable.looser (by decide) (by decide))
        fun _ _ _ => failsAt_parsePower_of_base

/-! ## Binary operations and conditionals -/

/-- The table has every symbol of a level at this level. -/
theorem exists_lookup_levels (symbol : Operator) (index : Fin 10)
    (same : symbol.level = index + 2) :
    ∃ operation : Binary, (levels.getD index []).lookup symbol = some operation ∧
      operation ≠ .power ∧ operation.symbol = symbol ∧ operation.precedence = index + 2 := by
  revert index
  cases symbol <;> decide

/-- A symbol of a level stands for an operation of this level. -/
theorem exists_operation {token : Token} (low : 2 ≤ place) (high : place ≤ 11)
    (same : token.level = place) :
    ∃ operation : Binary, token = .operator operation.symbol ∧ operation ≠ .power ∧
      operation.precedence = place ∧
      (levels.getD (place - 2) []).binary? token = some operation := by
  cases token with
  | operator symbol =>
      obtain ⟨operation, found, noPower, rfl, precedence⟩ := exists_lookup_levels symbol
        ⟨place - 2, by omega⟩ (same.trans (by simp only; omega))
      exact ⟨operation, rfl, noPower, precedence.trans (by simp only; omega), found⟩
  | _ => simp only [Token.level] at same; omega

/-- The operations of a level behind an operand. -/
theorem settles_parseOperations (low : 2 ≤ place) (high : place ≤ 11)
    (below : SettlesBelow finish bound) {left : Tree} {front : List Token}
    (operand : Derives place left front) (tokens : List Placed) (short : tokens.length < bound)
    (closes : Closes (place + 1) tokens) :
    Settles finish
      (parseOperations finish (levels.getD (place - 2) []) (levels.drop (place - 1)) left) place
      front tokens := by
  induction length : tokens.length using Nat.strongRecOn generalizing left front tokens with
  | ind count induction =>
  subst length
  by_cases begins : ∃ placed rest, tokens = placed :: rest ∧ placed.token.level = place
  · obtain ⟨⟨token, offset⟩, rest, rfl, same⟩ := begins
    obtain ⟨operation, rfl, noPower, rfl, found⟩ := exists_operation low high same
    have second := below rest (Nat.lt_of_succ_lt short) (operation.precedence + 1) (by omega)
      (by omega)
    cases second with
    | @gives used after right whole reads derives ends =>
        subst whole
        have next (others : List Placed) (closes : Closes (operation.precedence + 1) others) :
            Gives (parseBinary finish (levels.drop (operation.precedence - 1)) (used ++ others))
              right others := by
          have given : Gives (parseAt finish (operation.precedence + 1) (used ++ others)) right
              others := derives.gives (by omega) rfl closes
          rwa [parseAt_eq_parseBinary (by omega) (by omega)] at given
        have later := induction after.length
          (by simp only [List.length_cons, List.length_append]; omega)
          (Derives.binary noPower operand derives) after
          (by simp only [List.length_cons, List.length_append] at short; omega) ends rfl
        have shape : ⟨.operator operation.symbol, offset⟩ :: (used ++ after) =
            ⟨.operator operation.symbol, offset⟩ :: used ++ after := rfl
        rw [shape]
        refine Settles.behind (by simpa using later) (fun tree last more => ?_)
          fun others last begins failed => ?_
        · exact gives_parseOperations_of_operation found (next after ends) more
        · exact failsAt_parseOperations_of_operations found (next others (ends.congr begins))
            failed
    | fails used last whole viable failed =>
        subst whole
        refine .of_failsBehind [⟨.operator operation.symbol, offset⟩] failed
          (by simpa using viable.binary noPower operand) fun others stop _ stopped => ?_
        rw [parseAt_eq_parseBinary (by omega) (by omega)] at stopped
        exact failsAt_parseOperations_of_operand found stopped
  · have noOperation (placed : Placed) (member : placed ∈ tokens.head?) :
        placed.token.level ≠ place := by
      intro same
      obtain ⟨rest, isTokens⟩ := List.head?_eq_some_iff.mp member
      exact begins ⟨placed, rest, isTokens, same⟩
    have looser := closes.tighten noOperation
    exact .gives [] tokens rfl
      (gives_parseOperations_of_stop fun placed member =>
        binary?_eq_none low high placed.token (looser placed member))
      (by simpa using operand) looser

/-- The levels of operations that group to the left. -/
theorem settles_parseBinary (low : 2 ≤ place) (high : place ≤ 11)
    (below : SettlesBelow finish tokens.length)
    (tighter : Settles finish (parseAt finish (place + 1)) (place + 1) [] tokens) :
    Settles finish (parseAt finish place) place [] tokens := by
  have reader : parseAt finish place =
      parseBinary finish (levels.getD (place - 2) [] :: levels.drop (place - 1)) := by
    funext tokens
    rw [parseAt_eq_parseBinary low (by omega), drop_levels low high]
  have operands : parseAt finish (place + 1) = parseBinary finish (levels.drop (place - 1)) := by
    funext tokens
    exact parseAt_eq_parseBinary (by omega) (by omega)
  rw [operands] at tighter
  rw [reader]
  cases tighter with
  | @gives used rest left whole reads derives closes =>
      subst whole
      have next (others : List Placed) (closes : Closes (place + 1) others) :
          Gives (parseBinary finish (levels.drop (place - 1)) (used ++ others)) left others := by
        rw [← operands]
        exact derives.gives (by omega) rfl closes
      have later := settles_parseOperations low high below
        (derives.looser (by omega) (by omega)) rest reads.choose closes
      exact later.behind (fun _ _ => gives_parseBinary_cons reads) fun others last begins =>
        failsAt_parseBinary_of_operations (next others (closes.congr begins))
  | fails used rest whole viable failed =>
      subst whole
      exact .of_failsBehind [] failed (viable.looser (by omega) (by omega))
        fun _ _ _ => failsAt_parseBinary_of_operand

theorem level_ne_one {token : Token} (noQuestion : token ≠ .question) : token.level ≠ 1 := by
  cases token with
  | operator symbol => cases symbol <;> decide
  | question => contradiction
  | _ => simp [Token.level]

/-- A conditional behind its question mark. -/
theorem settles_branches {offset : Nat} {used after : List Placed} {condition : Tree}
    (below : SettlesBelow finish (used ++ ⟨.question, offset⟩ :: after).length)
    (derives : Derives 2 condition (used.map Placed.token)) :
    Settles finish (parseConditional finish) 1 [] (used ++ ⟨.question, offset⟩ :: after) := by
  have first (others : List Placed) :
      Gives (parseBinary finish levels (used ++ ⟨.question, offset⟩ :: others)) condition
        (⟨.question, offset⟩ :: others) :=
    derives.gives (by decide) rfl (closes_cons (by decide))
  have shape (others : List Placed) : used ++ [⟨.question, offset⟩] ++ others =
      used ++ ⟨.question, offset⟩ :: others := by simp
  have inner := below after (by simp only [List.length_append, List.length_cons]; omega) 1
    (Nat.le_refl 1) (by decide)
  cases inner with
  | fails second rest whole viable failed =>
      subst whole
      rw [← shape]
      refine .of_failsBehind (used ++ [⟨.question, offset⟩]) failed ?_
        fun others last _ stopped => ?_
      · simpa using viable.whenTrue derives
      · rw [shape]
        exact failsAt_parseConditional_of_whenTrue (first others) stopped
  | @gives second rest whenTrue whole reads inside closes =>
      subst whole
      have content (others : List Placed) (closes : Closes 1 others) :
          Gives (parseConditional finish (second ++ others)) whenTrue others :=
        inside.gives (by decide) rfl closes
      by_cases isColon : ∃ middle afterColon, rest = ⟨.colon, middle⟩ :: afterColon
      · obtain ⟨middle, afterColon, rfl⟩ := isColon
        have next (others : List Placed) :
            Gives (parseConditional finish (second ++ ⟨.colon, middle⟩ :: others)) whenTrue
              (⟨.colon, middle⟩ :: others) := content _ (closes_cons (by decide))
        have whole (others : List Placed) :
            used ++ [⟨.question, offset⟩] ++ second ++ [⟨.colon, middle⟩] ++ others =
              used ++ ⟨.question, offset⟩ :: (second ++ ⟨.colon, middle⟩ :: others) := by simp
        have final := below afterColon
          (by simp only [List.length_append, List.length_cons]; omega) 1 (Nat.le_refl 1) (by decide)
        rw [← whole]
        cases final with
        | gives third last isThird reads behind closes =>
            refine .gives (used ++ [⟨.question, offset⟩] ++ second ++ [⟨.colon, middle⟩] ++ third)
              last (by simp [← isThird]) ?_ (by simpa using derives.conditional inside behind) closes
            rw [whole]
            exact gives_parseConditional_of_question (first _) (next _) reads
        | fails third last isThird viable failed =>
            subst isThird
            refine .of_failsBehind (used ++ [⟨.question, offset⟩] ++ second ++ [⟨.colon, middle⟩])
              failed ?_ fun others stop _ stopped => ?_
            · simpa using viable.whenFalse derives inside
            · rw [whole]
              exact failsAt_parseConditional_of_whenFalse (first _) (next others) stopped
      · refine .fails (used ++ [⟨.question, offset⟩] ++ second) rest (by simp) ?_
          fun others same => ?_
        · have viable : IsViableAt 1 (second.map Placed.token) := ⟨[], _, by simpa using inside⟩
          simpa using viable.whenTrue derives
        · rw [List.append_assoc, shape]
          exact failsAt_parseConditional_of_colon (first _) (content others (closes.congr same))
            (token_ne_of_head?_eq same isColon)

/-- The level of conditionals. -/
theorem settles_parseConditional (below : SettlesBelow finish tokens.length)
    (tighter : Settles finish (parseBinary finish levels) 2 [] tokens) :
    Settles finish (parseConditional finish) 1 [] tokens := by
  cases tighter with
  | @gives used rest condition whole reads derives closes =>
      by_cases isQuestion : ∃ offset after, rest = ⟨.question, offset⟩ :: after
      · obtain ⟨offset, after, rfl⟩ := isQuestion
        subst whole
        exact settles_branches below derives
      · have noQuestion := token_ne_of_head?_eq rfl isQuestion
        exact .gives used rest whole (gives_parseConditional_of_stop reads noQuestion)
          (derives.looser (by decide) (by decide))
          (closes.tighten fun placed member => level_ne_one (noQuestion placed member))
  | fails used rest whole viable failed =>
      subst whole
      exact .of_failsBehind [] failed (viable.looser (by decide) (by decide))
        fun _ _ _ => failsAt_parseConditional_of_condition

/-! ## All levels -/

/-- What is settled at a level is settled at the next looser one. -/
theorem settles_looser (low : 1 ≤ place) (high : place ≤ 13)
    (below : SettlesBelow finish tokens.length)
    (tighter : Settles finish (parseAt finish (place + 1)) (place + 1) [] tokens) :
    Settles finish (parseAt finish place) place [] tokens := by
  rcases (by omega : place = 1 ∨ (2 ≤ place ∧ place ≤ 11) ∨ place = 12 ∨ place = 13) with
    rfl | ⟨least, most⟩ | rfl | rfl
  · exact settles_parseConditional below tighter
  · exact settles_parseBinary least most below tighter
  · rw [parseAt_twelve]
    exact settles_parsePower below tighter
  · exact settles_parseUnary below tighter

theorem settles_of_below (below : SettlesBelow finish tokens.length) (low : 1 ≤ place)
    (high : place ≤ 14) : Settles finish (parseAt finish place) place [] tokens := by
  induction gap : 14 - place generalizing place with
  | zero =>
      obtain rfl : place = 14 := by omega
      exact settles_parsePostfix below
  | succ gap induction =>
      exact settles_looser low (by omega) below (induction (by omega) (by omega) (by omega))

/-- Every list of tokens is settled. -/
theorem settlesBelow (finish bound : Nat) : SettlesBelow finish bound := by
  induction bound with
  | zero =>
      intro tokens short
      contradiction
  | succ bound induction =>
      intro tokens short place low high
      refine settles_of_below (fun shorter isShorter => induction shorter ?_) low high
      omega

end

/-! ## Expressions -/

section

variable {finish : Nat} {tree : Tree} {tokens used rest : List Placed} {placed : Placed}

theorem treeOfTokens_eq_ok_iff_gives :
    treeOfTokens finish tokens = .ok tree ↔ Gives (parseAt finish 1 tokens) tree [] := by
  have reader : parseAt finish 1 tokens = parseConditional finish tokens := rfl
  rw [treeOfTokens, reader, Gives]
  constructor
  · intro parsed
    split at parsed
    · contradiction
    · next shorter read =>
      obtain rfl := Except.ok.inj parsed
      exact ⟨shorter, read⟩
    · contradiction
  · rintro ⟨shorter, read⟩
    rw [read]

theorem Derives.gives_all (derives : Derives 1 tree (tokens.map Placed.token)) :
    Gives (parseAt finish 1 tokens) tree [] := by
  have given : Gives (parseAt finish 1 (tokens ++ [])) tree [] :=
    derives.gives (by decide) rfl fun _ member => by simp at member
  rwa [List.append_nil] at given

/-- Tokens are parsed as the tree of which they are derived. -/
theorem treeOfTokens_eq_ok_iff :
    treeOfTokens finish tokens = .ok tree ↔ Derives 1 tree (tokens.map Placed.token) := by
  rw [treeOfTokens_eq_ok_iff_gives]
  refine ⟨fun given => ?_, Derives.gives_all⟩
  obtain ⟨_, given⟩ := given
  cases settlesBelow finish (tokens.length + 1) tokens (Nat.lt_succ_self _) 1 (Nat.le_refl 1)
    (by decide) with
  | gives used rest whole reads derives closes =>
      obtain ⟨_, reads⟩ := reads
      rw [given] at reads
      obtain ⟨rfl, rfl⟩ : tree = _ ∧ [] = rest := by simpa using reads
      rw [← whole, List.append_nil]
      exact derives
  | fails used rest whole viable failed =>
      obtain ⟨fault, stopped⟩ := failed rest rfl
      rw [whole, given] at stopped
      contradiction

/-- Tokens cannot be continued if they are never read to the end. -/
theorem not_isViable_concat
    (never : ∀ others tree, others.head? = some placed →
      ¬Gives (parseAt finish 1 (used ++ others)) tree []) :
    ¬IsViable ((used ++ [placed]).map Placed.token) := by
  rintro ⟨more, tree, derives⟩
  refine never (placed :: more.map fun token => ⟨token, 0⟩) tree rfl (Derives.gives_all ?_)
  simpa [Function.comp_def] using derives

/-- Tokens that are no expression fail at the first with which no expression begins, or at the end
if they can be continued. -/
theorem exists_treeOfTokens_eq_error (none : ¬IsSentence (tokens.map Placed.token)) :
    ∃ used rest fault, tokens = used ++ rest ∧
      treeOfTokens finish tokens = .error (faultAt finish rest fault) ∧
      IsViable (used.map Placed.token) ∧
      ∀ placed ∈ rest.head?, ¬IsViable ((used ++ [placed]).map Placed.token) := by
  cases settlesBelow finish (tokens.length + 1) tokens (Nat.lt_succ_self _) 1 (Nat.le_refl 1)
    (by decide) with
  | @gives used rest tree whole reads derives closes =>
      obtain ⟨placed, after, rfl⟩ : ∃ placed after, rest = placed :: after := by
        refine List.exists_cons_of_ne_nil ?_
        rintro rfl
        rw [List.append_nil] at whole
        exact none ⟨tree, whole ▸ derives⟩
      refine ⟨used, placed :: after, .trailingInput, whole.symm, ?_,
        ⟨[], tree, by simpa using derives⟩, ?_⟩
      · obtain ⟨_, reads⟩ := reads
        have reads : parseConditional finish tokens = _ := reads
        rw [treeOfTokens, reads]
      · rintro _ ⟨⟩
        refine @not_isViable_concat finish used placed fun others other begins given => ?_
        obtain ⟨_, given⟩ := given
        obtain ⟨_, longer⟩ : Gives (parseAt finish 1 (used ++ others)) tree others :=
          derives.gives (by decide) rfl (closes.congr begins)
        rw [given] at longer
        obtain ⟨-, rfl⟩ : other = tree ∧ [] = others := by simpa using longer
        contradiction
  | fails used rest whole viable failed =>
      obtain ⟨fault, stopped⟩ := failed rest rfl
      refine ⟨used, rest, fault, whole.symm, ?_, viable, fun placed member => ?_⟩
      · rw [whole] at stopped
        have stopped : parseConditional finish tokens = _ := stopped
        rw [treeOfTokens, stopped]
      · refine @not_isViable_concat finish used placed fun others tree begins given => ?_
        obtain ⟨_, given⟩ := given
        obtain ⟨fault, stopped⟩ := failed others (begins.trans (Option.mem_def.mp member).symm)
        rw [given] at stopped
        contradiction

/-- A text with these tokens is parsed as a tree exactly if the grammar derives them as this tree.
If they are no expression, the fault lies at the first token with which no expression begins, or at
the end of the text if all of them together can be continued to one. -/
theorem parse_grammar {text : String} {tokens : List Placed}
    (tokenized : tokenize text.toList = .ok tokens) :
    (∀ tree, parse text = .ok tree ↔ Derives 1 tree (tokens.map Placed.token)) ∧
      (¬IsSentence (tokens.map Placed.token) →
        ∃ offset fault, parse text = .error ⟨offset, fault⟩ ∧
          ((∃ before placed after, tokens = before ++ placed :: after ∧ offset = placed.offset ∧
              IsViable (before.map Placed.token) ∧
              ¬IsViable ((before ++ [placed]).map Placed.token)) ∨
            offset = text.utf8ByteSize ∧ IsViable (tokens.map Placed.token))) := by
  have parsed : parse text = treeOfTokens text.utf8ByteSize tokens := by rw [parse, tokenized]
  rw [parsed]
  refine ⟨fun tree => treeOfTokens_eq_ok_iff, fun none => ?_⟩
  obtain ⟨used, rest, fault, rfl, stopped, viable, earliest⟩ := exists_treeOfTokens_eq_error none
  refine ⟨_, fault, stopped, ?_⟩
  cases rest with
  | nil => exact .inr ⟨rfl, by simpa using viable⟩
  | cons placed after => exact .inl ⟨used, placed, after, rfl, rfl, viable, earliest placed rfl⟩

/-- Tokens with a parenthesis that is not closed. -/
def openTokens : List Placed :=
  [⟨.leftParenthesis, 0⟩, ⟨.identifier "a", 1⟩, ⟨.identifier "b", 3⟩]

/-- The fault lies at the second name: the parenthesis and the first can be continued. -/
theorem parse_grammar_open :
    tokenize "(a b".toList = .ok openTokens ∧
      parse "(a b" = .error ⟨3, .missingParenthesis⟩ ∧
      ¬IsSentence (openTokens.map Placed.token) ∧
      ∃ offset fault, parse "(a b" = .error ⟨offset, fault⟩ ∧
        ((∃ before placed after, openTokens = before ++ placed :: after ∧ offset = placed.offset ∧
            IsViable (before.map Placed.token) ∧
            ¬IsViable ((before ++ [placed]).map Placed.token)) ∨
          offset = "(a b".utf8ByteSize ∧ IsViable (openTokens.map Placed.token)) := by
  have tokenized : tokenize "(a b".toList = .ok openTokens := by cbv
  have parsed : parse "(a b" = .error ⟨3, .missingParenthesis⟩ := by cbv
  obtain ⟨iff_derives, earliest⟩ := parse_grammar tokenized
  have none : ¬IsSentence (openTokens.map Placed.token) := by
    rintro ⟨tree, derives⟩
    rw [(iff_derives tree).mpr derives] at parsed
    contradiction
  exact ⟨tokenized, parsed, none, earliest none⟩

end

end Expression
end StaticSite
