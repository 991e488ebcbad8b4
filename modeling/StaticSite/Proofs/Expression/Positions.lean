import StaticSite.Proofs.Expression.Filtering
import StaticSite.Proofs.Expression.Joining
import StaticSite.Proofs.Expression.Recognition

/-!
# Items at positions

An expression for a list can be continued to one for its item at a position, by the text alone.
-/

namespace StaticSite
namespace Expression

/-- The text of an expression for the item at a position of the list that a text stands for. -/
def itemText (list : String) (position : Nat) : String :=
  "(" ++ list ++ ")[" ++ toString position ++ "]"

/-! ## Tokens -/

/-- A parenthesis or bracket is a token wherever it stands. -/
theorem Tokenizes.mark {rest : List Char} {c : Char} {token : Token} {tokens : List Token}
    (following : Tokenizes rest tokens) (notBlank : Text.isBlank c = false)
    (one : ∀ start, IsLexeme (lexeme start c rest) token 1 rest) :
    Tokenizes (c :: rest) (token :: tokens) := by
  intro offset
  obtain ⟨shorter, read⟩ := one offset
  obtain ⟨placed, others, same⟩ := following (offset + 1)
  refine ⟨⟨token, offset⟩ :: placed, ?_, congrArg (token :: ·) same⟩
  rw [tokensFrom.eq_def]
  simp only [notBlank, Bool.false_eq_true, ↓reduceIte, read, others]

theorem toNat_ofNat_of_lt {position : Nat} (fits : position < Nat.pow 2 63) :
    (Int64.ofNat position).toInt.toNat = position := by
  rw [Int64.toInt_ofNat_of_lt fits, Int.toNat_natCast]

theorem nonneg_ofNat_of_lt {position : Nat} (fits : position < Nat.pow 2 63) :
    0 ≤ Int64.ofNat position := by
  rw [Int64.le_iff_toInt_le, Int64.toInt_ofNat_of_lt fits]
  exact Int.natCast_nonneg position

theorem tokenizes_digits {position : Nat} (fits : position < Nat.pow 2 63) :
    Tokenizes (toString position).toList [.integer (.ofNat position)] := by
  have spells := spells_integer (nonneg_ofNat_of_lt fits)
  rw [toNat_ofNat_of_lt fits] at spells
  have nothing : Ends [] := by
    rintro c ⟨⟩
  simpa using tokenizes_nil.cons spells nothing

/-- The tokens of an expression for an item are those of the list with the marks around them. -/
theorem tokenizes_itemText {list : String} {placed : List Placed} {position : Nat}
    (read : tokenize list.toList = .ok placed) (fits : position < Nat.pow 2 63) :
    Tokenizes (itemText list position).toList
      ((.leftParenthesis :: placed.map Placed.token ++ [.rightParenthesis]) ++
        .leftBracket :: [.integer (.ofNat position)] ++ [.rightBracket]) := by
  have last : Tokenizes [']'] [.rightBracket] :=
    tokenizes_nil.mark (by decide) fun _ => ⟨_, rfl⟩
  have digits := (tokenizes_digits fits).append last (by rintro c ⟨⟩; decide)
  have brackets : Tokenizes ('[' :: ((toString position).toList ++ [']'])) _ :=
    digits.mark (by decide) fun _ => ⟨_, rfl⟩
  have behind : Tokenizes (')' :: '[' :: ((toString position).toList ++ [']'])) _ :=
    brackets.mark (by decide) fun _ => ⟨_, rfl⟩
  have inner := (tokenizes_of_tokensFrom read).append behind (by rintro c ⟨⟩; decide)
  have whole : Tokenizes ('(' :: (list.toList ++ _)) _ :=
    inner.mark (by decide) fun _ => ⟨_, rfl⟩
  simpa [itemText] using whole

/-! ## Reading and evaluating -/

/-- A text is read as the tree that its tokens derive. -/
theorem parse_of_tokenizes {text : String} {tree : Tree} {tokens : List Token}
    (tokenizes : Tokenizes text.toList tokens) (derives : Derives 1 tree tokens) :
    parse text = .ok tree := by
  obtain ⟨placed, cut, rfl⟩ := tokenizes 0
  have tokenized : tokenize text.toList = .ok placed := cut
  rw [parse, tokenized]
  exact treeOfTokens_eq_ok_iff.mpr derives

/-- An expression for an item of a list is read as such. -/
theorem parse_itemText {list : String} {tree : Tree} {position : Nat}
    (parsed : parse list = .ok tree) (fits : position < Nat.pow 2 63) :
    parse (itemText list position) = .ok (.index tree (.integer (.ofNat position))) := by
  rw [parse] at parsed
  split at parsed
  · contradiction
  · next placed read =>
    have inside := treeOfTokens_eq_ok_iff.mp parsed
    have number := (Derives.integer (.ofNat position)).loosen (Nat.le_refl 1) (by decide)
      (Nat.le_refl 14)
    have derives := (inside.parentheses.index number).loosen (Nat.le_refl 1) (by decide)
      (Nat.le_refl 14)
    exact parse_of_tokenizes (tokenizes_itemText read fits) derives

/-- So it has the value of the item, if the list has one there. -/
theorem evaluate_itemText {scope : Scope} {list : String} {value item : Value} {position : Nat}
    (evaluates : evaluate scope .list list = .ok value) (fits : position < Nat.pow 2 63)
    {kind : Kind} (found : value.index? kind (.ofNat position) = .ok (some item)) :
    evaluate scope kind (itemText list position) = .ok item := by
  rw [evaluate] at evaluates ⊢
  split at evaluates
  · contradiction
  · next tree parsed =>
    rw [parse_itemText parsed fits]
    have number : eval scope (.integer (.ofNat position)) .integer =
        .ok (.integer (.ofNat position)) := rfl
    refine Except.bind_eq_ok_iff.mpr ⟨value, evaluates, ?_⟩
    refine Except.bind_eq_ok_iff.mpr ⟨_, number, ?_⟩
    exact Except.bind_eq_ok_iff.mpr ⟨_, rfl, Except.bind_eq_ok_iff.mpr ⟨_, found, rfl⟩⟩

end Expression
end StaticSite
