import StaticSite.Proofs.Value.Names

/-!
# Entries that are set one after the other

Setting entries one after the other leaves one entry of each name.  It stands where the name was
set first and has the value that was set last, so that nothing is lost exactly if the names are
different.
-/

namespace StaticSite

theorem length_eraseDups_eq_iff {α : Type} [DecidableEq α] {items : List α} :
    items.eraseDups.length = items.length ↔ items.Nodup := by
  have same : items.eraseDups.Perm items.dedup :=
    (List.perm_ext_iff_of_nodup (nodup_eraseDups items) items.nodup_dedup).mpr (by simp)
  rw [same.length_eq]
  constructor
  · intro whole
    rw [← (List.dedup_sublist items).eq_of_length whole]
    exact items.nodup_dedup
  · intro nodup
    rw [nodup.dedup]

variable {β : Type} {entries left other : List (String × β)}

/-- Whether some entries are what others leave when each sets its name: the names in the order in
which they come first, each with the value that comes last. -/
structure Leaves (entries left : List (String × β)) : Prop where
  names : left.map Prod.fst = (entries.map Prod.fst).eraseDups
  lasts : ∀ name value, (name, value) ∈ left ↔
    ∃ before after, entries = before ++ (name, value) :: after ∧ name ∉ after.map Prod.fst

theorem mem_setEntry_iff {name : String} {value : β} {entry : String × β}
    (nodup : (entries.map Prod.fst).Nodup) :
    entry ∈ setEntry name value entries ↔
      entry = (name, value) ∨ entry.1 ≠ name ∧ entry ∈ entries := by
  induction entries with
  | nil => simp [setEntry]
  | cons first entries induction =>
      obtain ⟨isNew, others⟩ := List.nodup_cons.mp nodup
      by_cases same : first.1 = name
      · have noOther : entry ∈ entries → entry.1 ≠ name := by
          rintro member rfl
          exact isNew (same ▸ List.mem_map_of_mem member)
        have notFirst : entry.1 ≠ name → entry ≠ first := by
          rintro differs rfl
          exact differs same
        rw [setEntry, if_pos (by simpa using same), List.mem_cons, List.mem_cons]
        grind
      · have differs : first.1 ≠ name := same
        rw [setEntry, if_neg (by simpa using same), List.mem_cons, List.mem_cons, induction others]
        grind

/-- What stands at the end of a list, or before its last item. -/
theorem append_singleton_eq_iff {α : Type} {items before after : List α} {last item : α} :
    items ++ [last] = before ++ item :: after ↔
      after = [] ∧ items = before ∧ last = item ∨
        ∃ front, after = front ++ [last] ∧ items = before ++ item :: front := by
  constructor
  · intro whole
    rcases List.eq_nil_or_concat after with rfl | ⟨front, final, rfl⟩
    · obtain ⟨rfl, same⟩ := List.append_inj' whole rfl
      exact .inl ⟨rfl, rfl, List.singleton_inj.mp same⟩
    · rw [List.concat_eq_append, ← List.cons_append, ← List.append_assoc] at whole
      obtain ⟨rfl, same⟩ := List.append_inj' whole rfl
      obtain rfl := List.singleton_inj.mp same
      exact .inr ⟨front, List.concat_eq_append, rfl⟩
  · rintro (⟨rfl, rfl, rfl⟩ | ⟨front, rfl, rfl⟩)
    · rfl
    · simp

theorem leaves_setEntries (entries : List (String × β)) : Leaves entries (setEntries entries) := by
  induction entries using List.reverseRecOn with
  | nil => exact ⟨rfl, by simp [setEntries]⟩
  | append_singleton entries entry induction =>
      obtain ⟨name, value⟩ := entry
      have onward : setEntries (entries ++ [(name, value)]) =
          setEntry name value (setEntries entries) := by
        simp [setEntries]
      rw [onward]
      constructor
      case names =>
        rw [names_setEntry, induction.names, List.map_append, List.eraseDups_append]
        by_cases known : name ∈ entries.map Prod.fst
        · simp [known, List.removeAll]
        · simp [known, List.removeAll, List.eraseDups_cons]
      case lasts =>
        intro other found
        have nodup : ((setEntries entries).map Prod.fst).Nodup :=
          induction.names ▸ nodup_eraseDups _
        rw [mem_setEntry_iff nodup, induction.lasts]
        simp only [append_singleton_eq_iff]
        constructor
        · rintro (same | ⟨differs, before, after, rfl, isLast⟩)
          · obtain ⟨rfl, rfl⟩ := Prod.mk.inj same
            exact ⟨entries, [], .inl ⟨rfl, rfl, rfl⟩, List.not_mem_nil⟩
          · exact ⟨before, after ++ [(name, value)], .inr ⟨after, rfl, rfl⟩, by
              simpa using ⟨by simpa using isLast, differs⟩⟩
        · rintro ⟨before, after, ⟨rfl, rfl, same⟩ | ⟨front, rfl, rfl⟩, isLast⟩
          · exact .inl same.symm
          · rw [List.map_append, List.mem_append, not_or] at isLast
            exact .inr ⟨by simpa using isLast.2, before, front, rfl, isLast.1⟩

/-- Lists of entries with the same different names are the same if their entries are. -/
theorem eq_of_names_eq (names : left.map Prod.fst = other.map Prod.fst)
    (nodup : (left.map Prod.fst).Nodup) (members : ∀ entry ∈ left, entry ∈ other) :
    left = other := by
  induction left generalizing other with
  | nil => exact (List.map_eq_nil_iff.mp names.symm).symm
  | cons first left induction =>
      cases other with
      | nil => simp at names
      | cons second other =>
          obtain ⟨-, later⟩ := List.cons.inj names
          obtain ⟨isNew, others⟩ := List.nodup_cons.mp nodup
          have absent : first ∉ other := fun member =>
            isNew (later ▸ List.mem_map_of_mem member)
          obtain rfl : first = second :=
            (List.mem_cons.mp (members first List.mem_cons_self)).resolve_right absent
          refine congrArg (first :: ·) (induction later others fun entry member => ?_)
          have isOther := members entry (List.mem_cons_of_mem _ member)
          refine (List.mem_cons.mp isOther).resolve_left ?_
          rintro rfl
          exact isNew (List.mem_map_of_mem member)

namespace Leaves

variable (leaves : Leaves entries left)
include leaves

theorem eq_setEntries : left = setEntries entries := by
  have others := leaves_setEntries entries
  refine eq_of_names_eq (leaves.names.trans others.names.symm)
    (leaves.names ▸ nodup_eraseDups _) fun entry member => ?_
  exact (others.lasts entry.1 entry.2).mpr ((leaves.lasts entry.1 entry.2).mp member)

/-- Nothing is lost exactly if all names are different. -/
theorem length_eq_iff : left.length = entries.length ↔ (entries.map Prod.fst).Nodup := by
  rw [← length_eraseDups_eq_iff, ← leaves.names, List.length_map, List.length_map]

end Leaves

/-- Entries with different names are left as they are. -/
theorem setEntries_of_nodup (nodup : (entries.map Prod.fst).Nodup) :
    setEntries entries = entries := by
  refine (Leaves.eq_setEntries ⟨(eraseDups_of_nodup nodup).symm, fun name value => ?_⟩).symm
  constructor
  · intro member
    obtain ⟨before, after, rfl⟩ := List.append_of_mem member
    rw [List.map_append, List.map_cons] at nodup
    exact ⟨before, after, rfl, (List.nodup_cons.mp (List.nodup_append.mp nodup).2.1).1⟩
  · rintro ⟨before, after, rfl, -⟩
    simp

end StaticSite
