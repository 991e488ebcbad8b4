import StaticSite.Proofs.Value.Entries

/-!
# Scopes as one environment

Every scope is made from the root by extending it, by some bindings or by a single one.  It finds a
name in the latest extension that binds it, and it tells the names from the latest extension back to
the first, each of them once.  To find a name, it makes no difference whether a scope is extended by
bindings and then by others, or once by the former with the latter set over them.
-/

namespace StaticSite

/-! ## Fields set over fields -/

namespace Fields

variable {fields others : Fields} {name : String}

theorem lookup_cons (other : String) (value : Value) (fields : Fields) (name : String) :
    List.lookup name ((other, value) :: fields) =
      if name = other then some value else fields.lookup name := by
  by_cases same : name = other
  · simp [same]
  · simp [List.lookup_cons, beq_false_of_ne same, same]

/-- A field that is set has the value, and the other fields keep theirs. -/
theorem lookup_insert (other : String) (value : Value) (fields : Fields) (name : String) :
    (insert other value fields).lookup name =
      if name = other then some value else fields.lookup name := by
  induction fields with
  | nil => exact lookup_cons other value [] name
  | cons field fields induction =>
      obtain ⟨first, old⟩ := field
      rw [insert, lookup_cons first old]
      by_cases known : first = other
      · subst known
        rw [if_pos (beq_self_eq_true _), lookup_cons]
        by_cases same : name = first
        · simp [same]
        · simp [same]
      · rw [if_neg (by simpa using known), lookup_cons, induction]
        by_cases same : name = first
        · subst same
          simp [known]
        · simp [same]

/-- The fields after each of some others is set. -/
def overwrittenBy (fields others : Fields) : Fields :=
  others.foldl (fun all entry => insert entry.1 entry.2 all) fields

theorem nodup_overwrittenBy (nodup : fields.names.Nodup) (others : Fields) :
    (fields.overwrittenBy others).names.Nodup := by
  induction others generalizing fields with
  | nil => exact nodup
  | cons entry others induction =>
      have kept : (insert entry.1 entry.2 fields).names.Nodup := by
        rw [insert_eq_setEntry]
        exact nodup_setEntry nodup entry.1 entry.2
      exact induction kept

/-- The others decide, and the fields answer for what is not among them. -/
theorem lookup_overwrittenBy (nodup : others.names.Nodup) :
    (fields.overwrittenBy others).lookup name = (others.lookup name).or (fields.lookup name) := by
  induction others generalizing fields with
  | nil => rfl
  | cons entry others induction =>
      obtain ⟨first, value⟩ := entry
      obtain ⟨isNew, nodup⟩ := List.nodup_cons.mp nodup
      have onward : (fields.overwrittenBy ((first, value) :: others)).lookup name =
          (others.lookup name).or ((insert first value fields).lookup name) := induction nodup
      rw [onward, lookup_insert, lookup_cons]
      by_cases same : name = first
      · subst same
        simp [lookup_eq_none_iff.mpr isNew]
      · simp [same]

end Fields

/-- Named values that a scope is extended by.  No name is given twice. -/
structure Bindings where
  fields : Fields
  nodup : fields.names.Nodup

namespace Bindings

def single (name : String) (value : Value) : Bindings :=
  ⟨[(name, value)], List.nodup_singleton name⟩

/-- The bindings with others set over them. -/
def overwrittenBy (bindings others : Bindings) : Bindings :=
  ⟨bindings.fields.overwrittenBy others.fields, Fields.nodup_overwrittenBy bindings.nodup _⟩

end Bindings

namespace Scope

variable {name : String} {value : Value}

/-! ## One extension -/

theorem lookup?_cons (frame : Fields) (outer : List Fields) (name : String) :
    lookup? ⟨frame :: outer⟩ name = (frame.lookup name).or (lookup? ⟨outer⟩ name) := by
  rw [lookup?, List.findSome?_cons]
  cases frame.lookup name <;> rfl

theorem lookup?_extend (scope : Scope) (bindings : Fields) (name : String) :
    (scope.extend bindings).lookup? name = (bindings.lookup name).or (scope.lookup? name) := by
  cases bindings with
  | nil => rfl
  | cons binding bindings => exact lookup?_cons (binding :: bindings) scope.frames name

theorem names_extend (scope : Scope) (bindings : Bindings) :
    (scope.extend bindings.fields).names =
      bindings.fields.names ++
        scope.names.filter fun name => !bindings.fields.names.contains name := by
  obtain ⟨fields, nodup⟩ := bindings
  cases fields with
  | nil => exact (List.filter_eq_self.mpr fun _ _ => rfl).symm
  | cons field fields => exact names_cons nodup scope.frames

/-- Two extensions find what one finds that sets the second over the first. -/
theorem lookup?_extend_extend (scope : Scope) (first second : Bindings) (name : String) :
    ((scope.extend first.fields).extend second.fields).lookup? name =
      (scope.extend (first.overwrittenBy second).fields).lookup? name := by
  have whole : ((first.overwrittenBy second).fields).lookup name =
      (second.fields.lookup name).or (first.fields.lookup name) :=
    Fields.lookup_overwrittenBy second.nodup
  rw [lookup?_extend, lookup?_extend, lookup?_extend, whole, Option.or_assoc]

/-! ## All extensions -/

/-- A way to make a scope from another one. -/
inductive Extension where
  | extend (bindings : Bindings)
  | bind (name : String) (value : Value)

namespace Extension

/-- The scope that is made. -/
def onto (scope : Scope) : Extension → Scope
  | extend bindings => scope.extend bindings.fields
  | bind name value => scope.bind name value

/-- What it binds in addition. -/
def bindings : Extension → Bindings
  | extend bindings => bindings
  | bind name value => .single name value

def names (extension : Extension) : List String :=
  extension.bindings.fields.names

theorem onto_eq_extend (extension : Extension) (scope : Scope) :
    extension.onto scope = scope.extend extension.bindings.fields := by
  cases extension <;> rfl

end Extension

/-- The scope that extensions make from the root, the first of them first. -/
def ofExtensions (extensions : List Extension) : Scope :=
  extensions.foldl Extension.onto root

/-- Whether the latest extension that binds a name binds it to a value. -/
def LatestBinds (extensions : List Extension) (name : String) (value : Value) : Prop :=
  ∃ earlier extension later, extensions = earlier ++ extension :: later ∧
    (name, value) ∈ extension.bindings.fields ∧ ∀ other ∈ later, name ∉ other.names

/-- The names of the latest extension in their order, then those of each one before it that are not
listed yet. -/
def namesFromLatest : List Extension → List String
  | [] => []
  | first :: later =>
      namesFromLatest later ++ first.names.filter fun name => !(namesFromLatest later).contains name

variable {extensions : List Extension} {extension : Extension}

theorem ofExtensions_append_singleton (extensions : List Extension) (extension : Extension) :
    ofExtensions (extensions ++ [extension]) =
      (ofExtensions extensions).extend extension.bindings.fields := by
  rw [ofExtensions, List.foldl_append]
  exact extension.onto_eq_extend _

theorem latestBinds_append_singleton_iff :
    LatestBinds (extensions ++ [extension]) name value ↔
      (name, value) ∈ extension.bindings.fields ∨
        name ∉ extension.names ∧ LatestBinds extensions name value := by
  simp only [LatestBinds, append_singleton_eq_iff]
  constructor
  · rintro ⟨earlier, binding, later, ⟨rfl, rfl, rfl⟩ | ⟨front, rfl, rfl⟩, member, noOther⟩
    · exact .inl member
    · obtain ⟨others, last⟩ := List.forall_mem_append.mp noOther
      exact .inr ⟨last extension List.mem_cons_self, earlier, binding, front, rfl, member, others⟩
  · rintro (member | ⟨notLast, earlier, binding, later, rfl, member, noOther⟩)
    · exact ⟨extensions, extension, [], .inl ⟨rfl, rfl, rfl⟩, member, by simp⟩
    · refine ⟨earlier, binding, later ++ [extension], .inr ⟨later, rfl, rfl⟩, member, ?_⟩
      exact List.forall_mem_append.mpr ⟨noOther, List.forall_mem_singleton.mpr notLast⟩

theorem namesFromLatest_append_singleton (extensions : List Extension) (extension : Extension) :
    namesFromLatest (extensions ++ [extension]) =
      extension.names ++
        (namesFromLatest extensions).filter fun name => !extension.names.contains name := by
  induction extensions with
  | nil => simp [namesFromLatest]
  | cons first extensions induction =>
      rw [List.cons_append, namesFromLatest, induction, namesFromLatest, List.filter_append,
        List.append_assoc, List.filter_filter]
      congr 2
      -- what the last extension binds is listed before, so the first one must not list it again
      refine List.filter_congr fun name _ => ?_
      by_cases bound : name ∈ extension.names
      · simp [bound]
      · simp [bound]

theorem lookup?_ofExtensions_eq_some_iff :
    (ofExtensions extensions).lookup? name = some value ↔ LatestBinds extensions name value := by
  induction extensions using List.reverseRecOn with
  | nil => simp [ofExtensions, root, lookup?, LatestBinds]
  | append_singleton extensions extension induction =>
      have nodup := extension.bindings.nodup
      rw [ofExtensions_append_singleton, lookup?_extend, Option.or_eq_some_iff,
        latestBinds_append_singleton_iff, Fields.lookup_eq_some_iff nodup,
        Fields.lookup_eq_none_iff, induction]
      rfl

theorem lookup?_ofExtensions_eq_none_iff :
    (ofExtensions extensions).lookup? name = none ↔
      ∀ extension ∈ extensions, name ∉ extension.names := by
  induction extensions using List.reverseRecOn with
  | nil => simp [ofExtensions, root, lookup?]
  | append_singleton extensions extension induction =>
      rw [ofExtensions_append_singleton, lookup?_extend, Option.or_eq_none_iff,
        Fields.lookup_eq_none_iff, induction, List.forall_mem_append, List.forall_mem_singleton,
        and_comm]
      rfl

theorem names_ofExtensions (extensions : List Extension) :
    (ofExtensions extensions).names = namesFromLatest extensions := by
  induction extensions using List.reverseRecOn with
  | nil => rfl
  | append_singleton extensions extension induction =>
      rw [ofExtensions_append_singleton, names_extend, namesFromLatest_append_singleton, induction]
      rfl

/-- A scope is one environment.  A name has the value of the latest extension that binds it, and none
if no extension does; the names are told from the latest extension back to the first; and a scope
that is extended by bindings and then by others answers for each name like one that is extended once,
by the former with the latter set over them. -/
theorem ofExtensions_environment (extensions : List Extension) :
    (∀ name value, (ofExtensions extensions).lookup? name = some value ↔
      LatestBinds extensions name value) ∧
    (∀ name, (ofExtensions extensions).lookup? name = none ↔
      ∀ extension ∈ extensions, name ∉ extension.names) ∧
    (ofExtensions extensions).names = namesFromLatest extensions ∧
    ∀ (first second : Bindings) (name : String),
      (ofExtensions (extensions ++ [.extend first, .extend second])).lookup? name =
        (ofExtensions (extensions ++ [.extend (first.overwrittenBy second)])).lookup? name := by
  refine ⟨fun name value => lookup?_ofExtensions_eq_some_iff,
    fun name => lookup?_ofExtensions_eq_none_iff, names_ofExtensions extensions,
    fun first second name => ?_⟩
  have twice : ofExtensions (extensions ++ [.extend first, .extend second]) =
      ((ofExtensions extensions).extend first.fields).extend second.fields := by
    rw [List.append_cons, ofExtensions_append_singleton, ofExtensions_append_singleton]
    rfl
  rw [twice, ofExtensions_append_singleton]
  exact lookup?_extend_extend _ first second name

/-- A name that is bound again keeps its first mention from the latest extension on. -/
example (one two three four : Value) :
    (ofExtensions [.bind "a" one, .bind "b" two, .extend ⟨[], List.nodup_nil⟩, .bind "a" three,
      .bind "c" four]).names = ["c", "a", "b"] := by
  cbv

end Scope
end StaticSite
