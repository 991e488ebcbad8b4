import Mathlib
import StaticSite.Proofs.Json.Tokens
import StaticSite.Proofs.Value.Decoded
import StaticSite.Proofs.Value.Entries

/-!
# Compact JSON is read back

The compact text of a tree is read as that tree, as long as arrays and objects are not nested
deeper than the reader allows.
-/

namespace StaticSite
namespace Json

open Text (seen seen_map seen_some seen_eq_some_iff)

/-- Whether a tree has no numbers but integers of 64 bits with a sign, at any depth. -/
inductive FitsInt64 : Json → Prop
  | null : FitsInt64 .null
  | boolean (value : Bool) : FitsInt64 (.boolean value)
  | integer {value : Int} (fits : Decimal.fitsInt64 value = true) : FitsInt64 (.integer value)
  | string (text : String) : FitsInt64 (.string text)
  | array {items : List Json} (each : ∀ item ∈ items, FitsInt64 item) : FitsInt64 (.array items)
  | object {members : List (String × Json)} (each : ∀ member ∈ members, FitsInt64 member.2) :
      FitsInt64 (.object members)

mutual

/-- How deep arrays and objects are nested in a tree. -/
def depth : Json → Nat
  | array items => depthOfItems items + 1
  | object members => depthOfMembers members + 1
  | _ => 0

def depthOfItems : List Json → Nat
  | [] => 0
  | item :: rest => max item.depth (depthOfItems rest)

def depthOfMembers : List (String × Json) → Nat
  | [] => 0
  | (_, value) :: rest => max value.depth (depthOfMembers rest)

end

variable {c : Char} {chars rest : List Char} {limit : Nat} {tree : Json}

/-! ## What is read, by the first character -/

theorem isBlank_eq_false_of_isDigit (isDigit : c.isDigit = true) : isBlank c = false := by
  have range := Decimal.toNat_of_isDigit isDigit
  cases blank : isBlank c with
  | false => rfl
  | true =>
      simp only [isBlank, Bool.or_eq_true, beq_iff_eq] at blank
      rcases blank with ((rfl | rfl) | rfl) | rfl <;> contradiction

theorem seen_value?_null :
    seen (value? limit ('n' :: 'u' :: 'l' :: 'l' :: rest)) = some (null, rest) := by
  rw [value?, first?_cons rfl]
  rfl

theorem seen_value?_true :
    seen (value? limit ('t' :: 'r' :: 'u' :: 'e' :: rest)) = some (boolean true, rest) := by
  rw [value?, first?_cons rfl]
  rfl

theorem seen_value?_false :
    seen (value? limit ('f' :: 'a' :: 'l' :: 's' :: 'e' :: rest)) =
      some (boolean false, rest) := by
  rw [value?, first?_cons rfl]
  rfl

theorem seen_value?_string :
    seen (value? limit ('"' :: chars)) =
      (seen (string? chars)).map (Prod.map (fun chars => string (String.ofList chars)) id) := by
  rw [value?, first?_cons rfl]
  exact seen_map _ _ _

theorem seen_value?_array :
    seen (value? limit ('[' :: chars)) =
      if limit ≤ 1 then none
      else (seen (items? (limit - 1) true chars)).map (Prod.map array id) := by
  rw [value?, first?_cons rfl]
  simp only
  split
  · rfl
  · exact seen_map _ _ _

theorem seen_value?_object :
    seen (value? limit ('\x7b' :: chars)) =
      if limit ≤ 1 then none
      else (seen (members? (limit - 1) true chars)).map
        (Prod.map (fun entries => object (setEntries entries)) id) := by
  rw [value?, first?_cons rfl]
  simp only [insertMember_eq_setEntry]
  split
  · rfl
  · exact seen_map _ _ _

theorem seen_value?_minus :
    seen (value? limit ('-' :: chars)) = Numeral.read? true chars := by
  rw [value?, first?_cons rfl]
  simp only
  split
  · next none => exact none.symm
  · next read => exact read.symm

theorem seen_value?_digit (isDigit : c.isDigit = true) :
    seen (value? limit (c :: chars)) = Numeral.read? false (c :: chars) := by
  rw [value?, first?_cons (isBlank_eq_false_of_isDigit isDigit)]
  dsimp only
  split
  all_goals try contradiction
  split
  · next none => exact none.symm
  · next read => exact read.symm

theorem seen_items?_close (isFirst : Bool) :
    seen (items? limit isFirst (']' :: rest)) = some ([], rest) := by
  rw [items?, first?_cons rfl]
  rfl

theorem seen_items?_cons {isFirst : Bool} {next : List Char} (noBlank : isBlank c = false)
    (noClose : c ≠ ']') (separated : afterSeparator? isFirst (c :: chars) = some next) :
    seen (items? limit isFirst (c :: chars)) =
      (seen (value? limit next)).bind fun item =>
        (seen (items? limit false item.2)).map (Prod.map (item.1 :: ·) id) := by
  rw [items?, first?_cons noBlank]
  simp only [beq_iff_eq, noClose, if_false]
  split
  · next none => rw [none] at separated; contradiction
  · next other found =>
    obtain rfl := Option.some.inj (found.symm.trans separated)
    split
    · next none => rw [none]; rfl
    · next item isItem =>
      rw [isItem]
      exact seen_map _ _ _

theorem seen_members?_close (isFirst : Bool) :
    seen (members? limit isFirst ('\x7d' :: rest)) = some ([], rest) := by
  rw [members?, first?_cons rfl]
  rfl

theorem seen_members?_cons {isFirst : Bool} {next : List Char} (noBlank : isBlank c = false)
    (noClose : c ≠ '\x7d') (separated : afterSeparator? isFirst (c :: chars) = some next) :
    seen (members? limit isFirst (c :: chars)) =
      (seen (name? next)).bind fun name =>
        (seen (value? limit name.2)).bind fun value =>
          (seen (members? limit false value.2)).map
            (Prod.map ((String.ofList name.1, value.1) :: ·) id) := by
  rw [members?, first?_cons noBlank]
  simp only [beq_iff_eq, noClose, if_false]
  split
  · next none => rw [none] at separated; contradiction
  · next other found =>
    obtain rfl := Option.some.inj (found.symm.trans separated)
    split
    · next none => rw [none]; rfl
    · next name isName =>
      rw [isName, seen_some, Option.bind_some]
      split
      · next none => rw [none]; rfl
      · next value isValue =>
        rw [isValue]
        exact seen_map _ _ _

/-! ## Integers -/

theorem compact_ofNat (n : Nat) : compact (integer n) = Nat.toDigits 10 n := by
  rw [compact]
  exact Nat.toList_repr

theorem compact_negSucc (n : Nat) :
    compact (integer (.negSucc n)) = '-' :: Nat.toDigits 10 (n + 1) := by
  rw [compact]
  exact (String.toList_append ..).trans (congrArg ('-' :: ·) Nat.toList_repr)

theorem fitsInt64_iff {value : Int} :
    Decimal.fitsInt64 value = true ↔ -2 ^ 63 ≤ value ∧ value < 2 ^ 63 := by
  rw [Decimal.fitsInt64, Bool.and_eq_true, decide_eq_true_eq, decide_eq_true_eq]
  exact and_congr_right' (Int.le_sub_one_iff (n := 2 ^ 63))

theorem seen_value?_toDigits (n : Nat) :
    seen (value? limit (Nat.toDigits 10 n ++ rest)) =
      Numeral.read? false (Nat.toDigits 10 n ++ rest) := by
  obtain ⟨first, more, digits, -⟩ := Decimal.exists_toDigits_eq_cons n
  have isDigit := Decimal.isDigit_of_mem_toDigits n first (digits ▸ List.mem_cons_self)
  rw [digits]
  exact seen_value?_digit isDigit

theorem seen_value?_integer {value : Int} (fits : Decimal.fitsInt64 value = true)
    (closes : Closes rest) :
    seen (value? limit (compact (integer value) ++ rest)) = some (integer value, rest) := by
  obtain ⟨least, greatest⟩ := fitsInt64_iff.mp fits
  cases value with
  | ofNat n =>
      have small : n ≤ Numeral.bound := by
        have : Numeral.bound = 2 ^ 64 - 1 := rfl
        simp only [Int.ofNat_eq_natCast] at greatest
        omega
      rw [Int.ofNat_eq_natCast, compact_ofNat, seen_value?_toDigits n,
        Numeral.read?_toDigits n false closes, Numeral.integer?_toDigits small]
      rfl
  | negSucc n =>
      have small : n + 1 ≤ Nat.pow 2 63 := by
        have : Nat.pow 2 63 = 2 ^ 63 := rfl
        omega
      rw [compact_negSucc, List.cons_append, seen_value?_minus,
        Numeral.read?_toDigits (n + 1) true closes,
        Numeral.integer?_toDigits_negative n.succ_pos small]
      rfl

/-! ## Compact texts -/

/-- Whether the compact text of a tree is read as that tree wherever it closes, unless the tree is
nested deeper than allowed. -/
def ReadsBack (tree : Json) : Prop :=
  ∀ {limit : Nat} {rest : List Char}, 0 < limit → Closes rest →
    seen (value? limit (compact tree ++ rest)) =
      if tree.depth < limit then some (tree, rest) else none

/-- The text of a tree starts neither with a blank nor with a closing bracket. -/
theorem FitsInt64.exists_compact_eq_cons (fitting : tree.FitsInt64) :
    ∃ c more, compact tree = c :: more ∧ isBlank c = false ∧ c ≠ ']' := by
  cases fitting with
  | null => exact ⟨_, _, rfl, rfl, by decide⟩
  | boolean value => cases value <;> exact ⟨_, _, rfl, rfl, by decide⟩
  | @integer value fits =>
      cases value with
      | ofNat n =>
          obtain ⟨first, more, digits, -⟩ := Decimal.exists_toDigits_eq_cons n
          have isDigit := Decimal.isDigit_of_mem_toDigits n first (digits ▸ List.mem_cons_self)
          refine ⟨first, more, (compact_ofNat n).trans digits,
            isBlank_eq_false_of_isDigit isDigit, ?_⟩
          rintro rfl
          contradiction
      | negSucc n => exact ⟨_, _, compact_negSucc n, rfl, by decide⟩
  | string text => exact ⟨_, _, rfl, rfl, by decide⟩
  | array each => exact ⟨_, _, rfl, rfl, by decide⟩
  | object each => exact ⟨_, _, rfl, rfl, by decide⟩

theorem closes_compactMoreItems (items : List Json) (rest : List Char) :
    Closes (compactMoreItems items ++ rest) := by
  cases items with
  | nil => exact .cons (.inr (.inl rfl))
  | cons item items => exact .cons (.inl rfl)

theorem closes_compactMoreMembers (members : List (String × Json)) (rest : List Char) :
    Closes (compactMoreMembers members ++ rest) := by
  cases members with
  | nil => exact .cons (.inr (.inr rfl))
  | cons member members => exact .cons (.inl rfl)

/-- What is read in two steps is nested as deep as the deeper of the two parts. -/
theorem bind_ite_lt {α β : Type} {first others : Nat} {start : α} {next : α → Option β} {last : β}
    (onward : next start = if others < limit then some last else none) :
    (if first < limit then some start else none).bind next =
      if max first others < limit then some last else none := by
  by_cases shallow : first < limit
  · rw [if_pos shallow, Option.bind_some, onward]
    simp only [max_lt_iff, shallow, true_and]
  · rw [if_neg shallow, if_neg fun below => shallow (max_lt_iff.mp below).1]
    rfl

/-- An item and those after it. -/
theorem bind_items {item : Json} {items : List Json} (first : item.ReadsBack)
    (positive : 0 < limit)
    (others : seen (items? limit false (compactMoreItems items ++ rest)) =
      if depthOfItems items < limit then some (items, rest) else none) :
    ((seen (value? limit (compact item ++ (compactMoreItems items ++ rest)))).bind
        fun item => (seen (items? limit false item.2)).map (Prod.map (item.1 :: ·) id)) =
      if depthOfItems (item :: items) < limit then some (item :: items, rest) else none := by
  rw [first positive (closes_compactMoreItems items rest), depthOfItems]
  refine bind_ite_lt ?_
  dsimp only
  rw [others]
  split <;> rfl

theorem seen_items?_compactMoreItems {items : List Json}
    (each : ∀ item ∈ items, item.ReadsBack) (positive : 0 < limit) :
    seen (items? limit false (compactMoreItems items ++ rest)) =
      if depthOfItems items < limit then some (items, rest) else none := by
  induction items with
  | nil => rw [depthOfItems, if_pos positive]; exact seen_items?_close false
  | cons item items induction =>
      obtain ⟨first, others⟩ := List.forall_mem_cons.mp each
      rw [compactMoreItems, List.cons_append, List.cons_append,
        seen_items?_cons rfl (by decide) rfl, List.append_assoc]
      exact bind_items first positive (induction others)

theorem seen_items?_compactItems {items : List Json} (fitting : ∀ item ∈ items, item.FitsInt64)
    (each : ∀ item ∈ items, item.ReadsBack) (positive : 0 < limit) :
    seen (items? limit true (compactItems items ++ rest)) =
      if depthOfItems items < limit then some (items, rest) else none := by
  cases items with
  | nil => rw [depthOfItems, if_pos positive]; exact seen_items?_close true
  | cons item items =>
      obtain ⟨first, others⟩ := List.forall_mem_cons.mp each
      -- a first item has no comma before it, so its own text has to tell it from a closing bracket
      obtain ⟨c, more, text, noBlank, noClose⟩ :=
        (fitting item List.mem_cons_self).exists_compact_eq_cons
      rw [compactItems, List.append_assoc,
        ← bind_items first positive (seen_items?_compactMoreItems others positive), text,
        List.cons_append]
      exact seen_items?_cons noBlank noClose rfl

/-- A member and those after it. -/
theorem bind_members {name : String} {value : Json} {members : List (String × Json)}
    (first : value.ReadsBack) (positive : 0 < limit)
    (others : seen (members? limit false (compactMoreMembers members ++ rest)) =
      if depthOfMembers members < limit then some (members, rest) else none) :
    ((seen (name? (quoted name ++
        ':' :: (compact value ++ (compactMoreMembers members ++ rest))))).bind
      fun name => (seen (value? limit name.2)).bind fun value =>
        (seen (members? limit false value.2)).map
          (Prod.map ((String.ofList name.1, value.1) :: ·) id)) =
      if depthOfMembers ((name, value) :: members) < limit then
        some ((name, value) :: members, rest)
      else none := by
  rw [seen_name?_quoted, Option.bind_some]
  dsimp only
  rw [first positive (closes_compactMoreMembers members rest), depthOfMembers]
  refine bind_ite_lt ?_
  dsimp only
  rw [others, String.ofList_toList]
  split <;> rfl

theorem seen_members?_compactMoreMembers {members : List (String × Json)}
    (each : ∀ member ∈ members, member.2.ReadsBack) (positive : 0 < limit) :
    seen (members? limit false (compactMoreMembers members ++ rest)) =
      if depthOfMembers members < limit then some (members, rest) else none := by
  induction members with
  | nil => rw [depthOfMembers, if_pos positive]; exact seen_members?_close false
  | cons member members induction =>
      obtain ⟨name, value⟩ := member
      obtain ⟨first, others⟩ := List.forall_mem_cons.mp each
      have text : compactMoreMembers ((name, value) :: members) ++ rest =
          ',' :: (quoted name ++
            ':' :: (compact value ++ (compactMoreMembers members ++ rest))) := by
        simp [compactMoreMembers]
      rw [text, seen_members?_cons rfl (by decide) rfl]
      exact bind_members first positive (induction others)

theorem seen_members?_compactMembers {members : List (String × Json)}
    (each : ∀ member ∈ members, member.2.ReadsBack) (positive : 0 < limit) :
    seen (members? limit true (compactMembers members ++ rest)) =
      if depthOfMembers members < limit then some (members, rest) else none := by
  cases members with
  | nil => rw [depthOfMembers, if_pos positive]; exact seen_members?_close true
  | cons member members =>
      obtain ⟨name, value⟩ := member
      obtain ⟨first, others⟩ := List.forall_mem_cons.mp each
      have text : compactMembers ((name, value) :: members) ++ rest =
          quoted name ++ ':' :: (compact value ++ (compactMoreMembers members ++ rest)) := by
        simp [compactMembers]
      rw [text, ← bind_members first positive (seen_members?_compactMoreMembers others positive)]
      exact seen_members?_cons rfl (by decide) rfl

theorem readsBack_null : null.ReadsBack := by
  intro limit rest positive _
  exact seen_value?_null.trans (if_pos positive).symm

theorem readsBack_boolean (value : Bool) : (boolean value).ReadsBack := by
  intro limit rest positive _
  have isRead : seen (value? limit (compact (boolean value) ++ rest)) =
      some (boolean value, rest) := by
    cases value with
    | true => exact seen_value?_true
    | false => exact seen_value?_false
  exact isRead.trans (if_pos positive).symm

theorem readsBack_integer {value : Int} (fits : Decimal.fitsInt64 value = true) :
    (integer value).ReadsBack := by
  intro limit rest positive closes
  exact (seen_value?_integer fits closes).trans (if_pos positive).symm

theorem readsBack_string (text : String) : (string text).ReadsBack := by
  intro limit rest positive _
  have whole : compact (string text) ++ rest =
      '"' :: (text.toList.flatMap escape ++ '"' :: rest) := by
    simp [compact, quoted]
  rw [whole, seen_value?_string, seen_string?_flatMap, Option.map_some, Prod.map_apply,
    String.ofList_toList]
  exact (if_pos positive).symm

theorem readsBack_array {items : List Json} (fitting : ∀ item ∈ items, item.FitsInt64)
    (each : ∀ item ∈ items, item.ReadsBack) : (array items).ReadsBack := by
  intro limit rest _ _
  rw [compact, List.cons_append, seen_value?_array]
  by_cases atMost : limit ≤ 1
  · rw [if_pos atMost, depth, if_neg (by omega)]
  · rw [if_neg atMost, seen_items?_compactItems fitting each (by omega), depth]
    simp only [Nat.lt_sub_iff_add_lt]
    split <;> rfl

theorem readsBack_object {members : List (String × Json)} (names : (members.map Prod.fst).Nodup)
    (each : ∀ member ∈ members, member.2.ReadsBack) : (object members).ReadsBack := by
  intro limit rest _ _
  rw [compact, List.cons_append, seen_value?_object]
  by_cases atMost : limit ≤ 1
  · rw [if_pos atMost, depth, if_neg (by omega)]
  · rw [if_neg atMost, seen_members?_compactMembers each (by omega), depth]
    simp only [Nat.lt_sub_iff_add_lt]
    split
    · -- the reader keeps one member of each name, which are all of them
      rw [Option.map_some, Prod.map_apply, setEntries_of_nodup names]
      rfl
    · rfl

theorem FitsInt64.readsBack (fitting : tree.FitsInt64) (distinct : tree.Distinct) :
    tree.ReadsBack := by
  induction fitting with
  | null => exact readsBack_null
  | boolean value => exact readsBack_boolean value
  | integer fits => exact readsBack_integer fits
  | string text => exact readsBack_string text
  | @array items fitting induction =>
      cases distinct with
      | array each =>
          exact readsBack_array fitting fun item member => induction item member (each item member)
  | @object members _ induction =>
      cases distinct with
      | object names each =>
          exact readsBack_object names fun member isMember =>
            induction member isMember (each member isMember)

/-- A tree without other numbers, whose objects have no name twice, is read from its compact text
unless it is nested deeper than the reader allows; then its text is refused. -/
theorem FitsInt64.parse?_compact (fitting : tree.FitsInt64) (distinct : tree.Distinct) :
    parse? tree.compact = if tree.depth < depthLimit then some tree else none := by
  have isSeen : seen (value? depthLimit (compact tree ++ [])) =
      if tree.depth < depthLimit then some (tree, []) else none :=
    fitting.readsBack distinct (by decide) fun _ isFirst => by contradiction
  rw [List.append_nil] at isSeen
  rw [parse?]
  split_ifs at isSeen ⊢ with shallow
  · obtain ⟨_, read⟩ := seen_eq_some_iff.mp isSeen
    rw [read]
    rfl
  · rw [Option.map_eq_none_iff.mp isSeen]

end Json
end StaticSite
