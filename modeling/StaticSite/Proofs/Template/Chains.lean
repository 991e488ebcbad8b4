import StaticSite.Proofs.Expression.Soundness
import StaticSite.Proofs.Template.Bodies

/-!
# Conditionals with branches

A conditional is baked up to the first branch whose condition holds.  The blocks of each branch up
to that one are baked, each in the scope around the conditional with the blocks before it in the
same branch; nothing of a later branch shows in what comes out.
-/

namespace StaticSite
namespace Template

/-! ## How a conditional ends -/

/-- The outcome with its result changed. -/
def Outcome.map {α β : Type} (change : α → β) (outcome : Outcome α) : Outcome β :=
  ⟨outcome.reached, outcome.result.map change⟩

/-- The outcome with more keys that were asked for before. -/
def Outcome.behind {α : Type} (keys : List String) (outcome : Outcome α) : Outcome α :=
  { outcome with reached := keys ++ outcome.reached }

section

variable (imports : Importer) (place : Address)

/-- Whether baking named blocks, of which `index` stand before them, has an outcome: each is baked
in the scope of those before it, up to the first that fails. -/
inductive BlocksBaked : (index : Nat) → Scope → List (String × Model) → Outcome Scope → Prop
  | nil {index : Nat} {scope : Scope} : BlocksBaked index scope [] ⟨[], .ok scope⟩
  | failed {index : Nat} {scope : Scope} {name : String} {block : Model}
      {rest : List (String × Model)} {keys : List String} {error : RenderError}
      (fails : bake imports .alone (index :: place) scope block = ⟨keys, .error error⟩) :
      BlocksBaked index scope ((name, block) :: rest) ⟨keys, .error error⟩
  | cons {index : Nat} {scope : Scope} {name : String} {block : Model}
      {rest : List (String × Model)} {keys : List String} {baked : Baked} {outcome : Outcome Scope}
      (bakes : bake imports .alone (index :: place) scope block = ⟨keys, .ok baked⟩)
      (others : BlocksBaked (index + 1) (scope.bind name baked.toValue) rest outcome) :
      BlocksBaked index scope ((name, block) :: rest) (outcome.behind keys)

/-- Whether the condition of a branch is true in a scope; no condition always is. -/
def Branch.Holds (branch : Branch) (scope : Scope) : Prop :=
  ∀ text ∈ branch.condition, Expression.evaluate scope .boolean text = .ok (.boolean true)

/-- Whether the condition of a branch counts as false in a scope.  That of the first branch must be
false; a later one may fail as well. -/
def Branch.Fails (branch : Branch) (scope : Scope) : Standing → Prop
  | .alone => ∃ text ∈ branch.condition,
      Expression.evaluate scope .boolean text = .ok (.boolean false)
  | .laterBranch => ¬branch.Holds scope

/-- Whether the condition of a branch fails as all of the conditional does, which that of the first
branch does only. -/
def Branch.Errs (branch : Branch) (scope : Scope) (error : RenderError) : Standing → Prop
  | .alone => ∃ text ∈ branch.condition, Expression.evaluate scope .boolean text = .error error
  | .laterBranch => False

variable (ambient : Scope)

/-- Whether branches are passed over, and the keys that their blocks ask for. -/
inductive Passed : Standing → List Branch → List String → Prop
  | nil {standing : Standing} : Passed standing [] []
  | cons {standing : Standing} {branch : Branch} {later : List Branch} {scope : Scope}
      {keys more : List String}
      (blocks : BlocksBaked imports place 0 ambient branch.body.bindings ⟨keys, .ok scope⟩)
      (fails : branch.Fails scope standing) (others : Passed .laterBranch later more) :
      Passed standing (branch :: later) (keys ++ more)

/-- Whether baking branches, the first of which has a standing, has an outcome. -/
inductive BranchesBaked (standing : Standing) : List Branch → Outcome String → Prop
  /-- The first branch whose condition holds is baked. -/
  | chosen {front later : List Branch} {branch : Branch} {keys more : List String} {scope : Scope}
      (passed : Passed imports place ambient standing front keys)
      (blocks : BlocksBaked imports place 0 ambient branch.body.bindings ⟨more, .ok scope⟩)
      (holds : branch.Holds scope) :
      BranchesBaked standing (front ++ branch :: later)
        (((bake imports .alone place ambient branch.body).map Baked.text).behind keys)
  /-- If there is none, nothing comes out. -/
  | none {branches : List Branch} {keys : List String}
      (passed : Passed imports place ambient standing branches keys) :
      BranchesBaked standing branches ⟨keys, .ok ""⟩
  /-- A block fails before a branch is chosen. -/
  | block {front later : List Branch} {branch : Branch} {keys more : List String}
      {error : RenderError} (passed : Passed imports place ambient standing front keys)
      (blocks : BlocksBaked imports place 0 ambient branch.body.bindings ⟨more, .error error⟩) :
      BranchesBaked standing (front ++ branch :: later) ⟨keys ++ more, .error error⟩
  /-- The condition of the first branch fails. -/
  | condition {branch : Branch} {later : List Branch} {keys : List String} {scope : Scope}
      {error : RenderError}
      (blocks : BlocksBaked imports place 0 ambient branch.body.bindings ⟨keys, .ok scope⟩)
      (errs : branch.Errs scope error standing) :
      BranchesBaked standing (branch :: later) ⟨keys, .error error⟩

end

/-! ## Baking a conditional -/

section

variable {imports : Importer} {place : Address} {ambient scope : Scope} {standing : Standing}
  {branch : Branch} {later : List Branch} {error : RenderError} {keys : List String}

theorem Outcome.andThen_andThen {α β γ : Type} (first : Outcome α) (second : α → Outcome β)
    (third : β → Outcome γ) :
    (first.andThen second).andThen third =
      first.andThen fun value => (second value).andThen third := by
  obtain ⟨keys, error | value⟩ := first
  · rfl
  · simp only [andThen]
    obtain ⟨more, error | result⟩ := second value
    · rfl
    · simp

theorem Baking.outcome_bind {α β : Type} (imports : Importer) (first : Baking α)
    (next : α → Baking β) :
    (first >>= next).outcome imports =
      (first.outcome imports).andThen fun value => (next value).outcome imports := by
  induction first with
  | ended result => cases result <;> rfl
  | asking address scope key resume induction =>
      have onward : (asking address scope key resume >>= next) =
          asking address scope key fun value => resume value >>= next := rfl
      rw [onward, outcome, outcome, Outcome.andThen_andThen]
      exact congrArg _ (funext induction)

theorem conditionHolds_eq_ok_true_iff :
    conditionHolds standing scope branch.condition = .ok true ↔ branch.Holds scope := by
  unfold Branch.Holds
  cases branch.condition with
  | none => simp [conditionHolds]
  | some text =>
      cases standing with
      | alone => simpa using Expression.conditionHolds_eq_ok_iff scope text true
      | laterBranch =>
          simp only [conditionHolds, Expression.evaluate?]
          cases value : Expression.evaluate scope .boolean text with
          | error error => simp [value, Except.toOption]
          | ok found => cases found <;> simp [value, Except.toOption, Value.boolean?]

theorem conditionHolds_eq_ok_false_iff :
    conditionHolds standing scope branch.condition = .ok false ↔ branch.Fails scope standing := by
  cases standing with
  | alone =>
      unfold Branch.Fails
      cases branch.condition with
      | none => simp [conditionHolds]
      | some text => simpa using Expression.conditionHolds_eq_ok_iff scope text false
  | laterBranch =>
      unfold Branch.Fails
      rw [← @conditionHolds_eq_ok_true_iff scope .laterBranch]
      cases branch.condition <;> simp [conditionHolds]

theorem conditionHolds_eq_error_iff :
    conditionHolds standing scope branch.condition = .error error ↔
      branch.Errs scope error standing := by
  unfold Branch.Errs
  cases branch.condition with
  | none => cases standing <;> simp [conditionHolds]
  | some text =>
      cases standing with
      | laterBranch => simp [conditionHolds]
      | alone =>
          rw [conditionHolds, Except.bind_eq_error_iff]
          simp [pure, Except.pure]

theorem Outcome.andThen_ok {α β : Type} (keys : List String) (value : α) (next : α → Outcome β) :
    Outcome.andThen ⟨keys, .ok value⟩ next = (next value).behind keys := rfl

theorem blocksBaked_outcome (index : Nat) (scope : Scope) (bindings : List (String × Model)) :
    BlocksBaked imports place index scope bindings
      ((bakeBindings place index scope bindings).outcome imports) := by
  induction bindings generalizing index scope with
  | nil => exact .nil
  | cons entry rest induction =>
      obtain ⟨name, block⟩ := entry
      rw [bakeBindings, Baking.outcome_bind]
      have first : (block.bake .alone (index :: place) scope).outcome imports =
          bake imports .alone (index :: place) scope block := rfl
      rw [first]
      cases bakes : bake imports .alone (index :: place) scope block with
      | mk keys result =>
          cases result with
          | error error => exact .failed bakes
          | ok baked => exact .cons bakes (induction (index + 1) _)

theorem Baking.outcome_bind_pure {α β : Type} (imports : Importer) (first : Baking α)
    (change : α → β) :
    (first >>= fun value => pure (change value)).outcome imports =
      (first.outcome imports).map change := by
  rw [outcome_bind]
  obtain ⟨keys, error | value⟩ := first.outcome imports
  · rfl
  · exact congrArg (fun keys => Outcome.mk keys (.ok (change value))) (List.append_nil keys)

/-- What is baked of a model once its blocks are. -/
theorem bake_plain {body : Model} (plain : body.shape = .plain) :
    bake imports .alone place ambient body =
      ((bakeBindings place 0 ambient body.bindings).outcome imports).andThen fun scope =>
        ((bakeNodes (body.bindings.length :: place) scope body.children).outcome imports).map
          fun texts => ⟨place, scope, String.join texts⟩ := by
  obtain ⟨shape, bindings, children⟩ := body
  obtain rfl := plain
  rw [bake, Model.bake, Baking.outcome_bind]
  exact congrArg _ (funext fun scope => Baking.outcome_bind_pure ..)

/-- A branch is baked, or the next is. -/
theorem bake_branch (branch : Branch) (next : Option Model) :
    bake imports standing place ambient
        (.mk (.conditional branch.condition next) branch.body.bindings branch.body.children) =
      ((bakeBindings place 0 ambient branch.body.bindings).outcome imports).andThen fun scope =>
        (Outcome.ofExcept (conditionHolds standing scope branch.condition)).andThen fun holds =>
          if holds then
            ((bakeNodes (branch.body.bindings.length :: place) scope
              branch.body.children).outcome imports).map
                fun texts => ⟨place, scope, String.join texts⟩
          else
            next.elim (.ofExcept (.ok ⟨place, scope, ""⟩))
              (bake imports .laterBranch place ambient) := by
  rw [bake, Model.bake, Baking.outcome_bind]
  refine congrArg _ (funext fun scope => ?_)
  cases standing <;>
    refine (Baking.outcome_bind ..).trans (congrArg _ (funext fun holds => ?_)) <;>
    cases holds <;> cases next <;> first | rfl | exact Baking.outcome_bind_pure ..

/-- A branch that is passed over adds what its blocks ask for. -/
theorem BranchesBaked.cons {outcome : Outcome String}
    (blocks : BlocksBaked imports place 0 ambient branch.body.bindings ⟨keys, .ok scope⟩)
    (fails : branch.Fails scope standing)
    (others : BranchesBaked imports place ambient .laterBranch later outcome) :
    BranchesBaked imports place ambient standing (branch :: later) (outcome.behind keys) := by
  cases others with
  | chosen passed chosen holds =>
      simpa [Outcome.behind] using BranchesBaked.chosen (.cons blocks fails passed) chosen holds
  | none passed => exact .none (.cons blocks fails passed)
  | block passed failed =>
      simpa [Outcome.behind] using BranchesBaked.block (.cons blocks fails passed) failed
  | condition _ errs => exact errs.elim

/-- A branch is baked up to where the next one comes. -/
theorem branchesBaked_of_next {next : Scope → Outcome Baked} (plain : branch.body.shape = .plain)
    (passes : ∀ keys scope,
      BlocksBaked imports place 0 ambient branch.body.bindings ⟨keys, .ok scope⟩ →
      branch.Fails scope standing →
      BranchesBaked imports place ambient standing (branch :: later)
        (((next scope).behind keys).map Baked.text)) :
    BranchesBaked imports place ambient standing (branch :: later)
      ((((bakeBindings place 0 ambient branch.body.bindings).outcome imports).andThen fun scope =>
        (Outcome.ofExcept (conditionHolds standing scope branch.condition)).andThen fun holds =>
          if holds then
            ((bakeNodes (branch.body.bindings.length :: place) scope
              branch.body.children).outcome imports).map
                fun texts => ⟨place, scope, String.join texts⟩
          else next scope).map Baked.text) := by
  have blocks := @blocksBaked_outcome imports place 0 ambient branch.body.bindings
  have alone := @bake_plain imports place ambient branch.body plain
  cases baked : (bakeBindings place 0 ambient branch.body.bindings).outcome imports with
  | mk keys result =>
      rw [baked] at blocks alone
      cases result with
      | error error => exact BranchesBaked.block .nil blocks
      | ok scope =>
          rw [Outcome.andThen_ok] at alone ⊢
          cases holds : conditionHolds standing scope branch.condition with
          | error error =>
              have errs := conditionHolds_eq_error_iff.mp holds
              have ended : BranchesBaked imports place ambient standing (branch :: later)
                  ⟨keys ++ [], .error error⟩ :=
                (List.append_nil keys).symm ▸ .condition blocks errs
              exact ended
          | ok truth =>
              cases truth with
              | true =>
                  have chosen : BranchesBaked imports place ambient standing (branch :: later)
                      (((bake imports .alone place ambient branch.body).map Baked.text).behind
                        []) := BranchesBaked.chosen .nil blocks (conditionHolds_eq_ok_true_iff.mp holds)
                  rw [alone] at chosen
                  exact chosen
              | false => exact passes keys scope blocks (conditionHolds_eq_ok_false_iff.mp holds)

/-- Linked branches are baked up to the first whose condition holds. -/
theorem branchesBaked_linked (standing : Standing) (branch : Branch) (later : List Branch)
    (plain : ∀ other ∈ branch :: later, other.body.shape = .plain) :
    BranchesBaked imports place ambient standing (branch :: later)
      ((bake imports standing place ambient (branch.linked later)).map Baked.text) := by
  induction later generalizing branch standing with
  | nil =>
      rw [Branch.linked, bake_branch]
      refine branchesBaked_of_next (plain branch (by simp)) fun keys scope blocks fails => ?_
      exact .none (.cons blocks fails .nil)
  | cons next later induction =>
      rw [Branch.linked, bake_branch]
      refine branchesBaked_of_next (plain branch (by simp)) fun keys scope blocks fails => ?_
      exact .cons blocks fails (induction .laterBranch next fun other member =>
        plain other (List.mem_cons_of_mem _ member))

/-- What a template renders that has one scope and nothing else. -/
theorem bake_single (imports : Importer) (address : Address) (ambient : Scope) (model : Model) :
    (bake imports .alone address ambient (.mk .plain [] [.scope model])).map Baked.text =
      (bake imports .alone (0 :: address) ambient model).map Baked.text := by
  have nodes : (bakeNodes (0 :: address) ambient [.scope model]).outcome imports =
      (bake imports .alone (0 :: address) ambient model).map fun baked => [baked.text] := by
    rw [bakeNodes, bakeNode, Baking.outcome_bind, Baking.outcome_bind_pure, bake]
    obtain ⟨keys, error | baked⟩ := (model.bake .alone (0 :: address) ambient).outcome imports
    · rfl
    · exact congrArg (fun keys => Outcome.mk keys (.ok [baked.text])) (List.append_nil keys)
  rw [bake_plain rfl]
  have noBlocks : (bakeBindings address 0 ambient
      (Model.mk .plain [] [.scope model]).bindings).outcome imports = ⟨[], .ok ambient⟩ := rfl
  rw [noBlocks, Outcome.andThen_ok]
  have whole : (bakeNodes ((Model.mk .plain [] [.scope model]).bindings.length :: address) ambient
      (Model.mk .plain [] [.scope model]).children).outcome imports = _ := nodes
  rw [whole]
  obtain ⟨keys, error | baked⟩ := bake imports .alone (0 :: address) ambient model
  · rfl
  · simp [Outcome.map, Outcome.behind, Except.map, String.join]

/-! ## What comes out is determined -/

theorem BlocksBaked.unique {index : Nat} {bindings : List (String × Model)}
    {first second : Outcome Scope} (baked : BlocksBaked imports place index scope bindings first)
    (again : BlocksBaked imports place index scope bindings second) : first = second := by
  induction baked generalizing second with
  | nil =>
      cases again
      rfl
  | failed fails =>
      cases again with
      | failed fails' => simpa [fails] using fails'
      | cons bakes => simp [fails] at bakes
  | cons bakes others induction =>
      cases again with
      | failed fails => simp [bakes] at fails
      | cons bakes' others' =>
          rw [bakes] at bakes'
          obtain ⟨rfl, same⟩ := Outcome.mk.inj bakes'
          obtain rfl := Except.ok.inj same
          rw [induction others']

/-- Baking branches ends at the first one, or goes on behind it. -/
theorem BranchesBaked.cons_cases {outcome : Outcome String}
    (baked : BranchesBaked imports place ambient standing (branch :: later) outcome) :
    (∃ keys error, BlocksBaked imports place 0 ambient branch.body.bindings ⟨keys, .error error⟩ ∧
      outcome = ⟨keys, .error error⟩) ∨
    ∃ keys scope, BlocksBaked imports place 0 ambient branch.body.bindings ⟨keys, .ok scope⟩ ∧
      match conditionHolds standing scope branch.condition with
      | .ok true => outcome = (bake imports .alone place ambient branch.body).map Baked.text
      | .ok false => ∃ rest, BranchesBaked imports place ambient .laterBranch later rest ∧
          outcome = rest.behind keys
      | .error error => outcome = ⟨keys, .error error⟩ := by
  generalize whole : branch :: later = branches at baked
  cases baked with
  | chosen passed blocks holds =>
      cases passed with
      | nil =>
          obtain ⟨rfl, rfl⟩ := List.cons.inj whole
          refine .inr ⟨_, _, blocks, ?_⟩
          rw [conditionHolds_eq_ok_true_iff.mpr holds]
          rfl
      | cons first fails others =>
          obtain ⟨rfl, rfl⟩ := List.cons.inj whole
          refine .inr ⟨_, _, first, ?_⟩
          rw [conditionHolds_eq_ok_false_iff.mpr fails]
          exact ⟨_, .chosen others blocks holds, by simp [Outcome.behind]⟩
  | none passed =>
      cases passed with
      | nil => simp at whole
      | cons first fails others =>
          obtain ⟨rfl, rfl⟩ := List.cons.inj whole
          refine .inr ⟨_, _, first, ?_⟩
          rw [conditionHolds_eq_ok_false_iff.mpr fails]
          exact ⟨_, .none others, rfl⟩
  | block passed blocks =>
      cases passed with
      | nil =>
          obtain ⟨rfl, rfl⟩ := List.cons.inj whole
          exact .inl ⟨_, _, blocks, rfl⟩
      | cons first fails others =>
          obtain ⟨rfl, rfl⟩ := List.cons.inj whole
          refine .inr ⟨_, _, first, ?_⟩
          rw [conditionHolds_eq_ok_false_iff.mpr fails]
          exact ⟨_, .block others blocks, by simp [Outcome.behind]⟩
  | condition blocks errs =>
      obtain ⟨rfl, rfl⟩ := List.cons.inj whole
      refine .inr ⟨_, _, blocks, ?_⟩
      rw [conditionHolds_eq_error_iff.mpr errs]

theorem BranchesBaked.eq_of_nil {outcome : Outcome String}
    (baked : BranchesBaked imports place ambient standing [] outcome) : outcome = ⟨[], .ok ""⟩ := by
  generalize whole : [] = branches at baked
  cases baked with
  | chosen | block | condition => simp at whole
  | none passed =>
      cases passed with
      | nil => rfl
      | cons => simp at whole

theorem BranchesBaked.unique {branches : List Branch} {first second : Outcome String}
    (baked : BranchesBaked imports place ambient standing branches first)
    (again : BranchesBaked imports place ambient standing branches second) : first = second := by
  induction branches generalizing standing first second with
  | nil => rw [baked.eq_of_nil, again.eq_of_nil]
  | cons branch later induction =>
      rcases baked.cons_cases with
          ⟨keys, error, blocks, rfl⟩ | ⟨keys, scope, blocks, ends⟩ <;>
        rcases again.cons_cases with
          ⟨keys', error', blocks', rfl⟩ | ⟨keys', scope', blocks', ends'⟩ <;>
        obtain ⟨rfl, same⟩ := Outcome.mk.inj (blocks.unique blocks')
      · obtain rfl := Except.error.inj same
        rfl
      · contradiction
      · contradiction
      · obtain rfl := Except.ok.inj same
        cases holds : conditionHolds standing scope branch.condition with
        | error error =>
            rw [holds] at ends ends'
            exact ends.trans ends'.symm
        | ok truth =>
            rw [holds] at ends ends'
            cases truth with
            | true => exact ends.trans ends'.symm
            | false =>
                obtain ⟨rest, others, rfl⟩ := ends
                obtain ⟨rest', others', rfl⟩ := ends'
                rw [induction others others']

/-- What comes out of a template that is one conditional: it can be parsed, and is baked up to the
first branch whose condition holds. -/
theorem bake_conditional {source : String} {segments : List Segment} {branches : List Branch}
    (scanned : scan source = .ok segments) (read : ConditionalRead branches segments)
    (imports : Importer) (address : Address) (ambient : Scope) :
    ∃ root, parse source = .ok root ∧ ∀ outcome,
      (bake imports .alone address ambient root).map Baked.text = outcome ↔
        BranchesBaked imports (0 :: address) ambient .alone branches outcome := by
  cases branches with
  | nil => cases read
  | cons branch later =>
      refine ⟨_, Except.bind_eq_ok_iff.mpr ⟨_, scanned, read.modelOfSegments_eq⟩, fun outcome => ?_⟩
      rw [bake_single]
      have linked := @branchesBaked_linked imports (0 :: address) ambient .alone branch later
        (read.plain (areScanned_of_scan scanned))
      exact ⟨fun same => same ▸ linked, linked.unique⟩

end

/-! ## Examples -/

/-- No asset can be imported. -/
def noImports : Importer :=
  fun _ _ key => ⟨[key], .error (.unresolvableAsset key)⟩

/-- A conditional whose third branch is chosen: the condition of the first is false and that of the
second fails.  What the last one renders would fail. -/
def chainSource : String :=
  "\x7b\x7b| false\x7d\x7da\x7b\x7b, missing\x7d\x7db\x7b\x7b, true\x7d\x7d" ++
    "\x7b\x7b: n\x7d\x7dc\x7b\x7b/\x7d\x7d\x7b\x7b= n\x7d\x7d" ++
    "\x7b\x7b,\x7d\x7d\x7b\x7b= missing\x7d\x7d\x7b\x7b/\x7d\x7d"

def chainBranches : List Branch :=
  [⟨some "false", .mk .plain [] [.literal "a"]⟩, ⟨some "missing", .mk .plain [] [.literal "b"]⟩,
    ⟨some "true", .mk .plain [("n", .mk .plain [] [.literal "c"])] [.expression "n" true]⟩,
    ⟨none, .mk .plain [] [.expression "missing" true]⟩]

def chainSegments : List Segment :=
  .tag ⟨'|', "false", ⟨1, 1⟩⟩ :: [.literal "a"] ++
    (.tag ⟨',', "missing", ⟨1, 13⟩⟩ :: [.literal "b"] ++
      (.tag ⟨',', "true", ⟨1, 27⟩⟩ :: [.tag ⟨':', "n", ⟨1, 37⟩⟩, .literal "c",
          .tag ⟨'/', "", ⟨1, 45⟩⟩, .tag ⟨'=', "n", ⟨1, 50⟩⟩] ++
        (.tag ⟨',', "", ⟨1, 57⟩⟩ :: [.tag ⟨'=', "missing", ⟨1, 62⟩⟩]))) ++
    [.tag ⟨'/', "", ⟨1, 75⟩⟩]

theorem conditionalRead_chain : ConditionalRead chainBranches chainSegments := by
  have fourth : BranchesRead (chainBranches.drop 3) _ :=
    @BranchesRead.otherwise ⟨',', "", ⟨1, 57⟩⟩ _ [.tag ⟨'=', "missing", ⟨1, 62⟩⟩] rfl rfl (by cbv)
  have third : BranchesRead (chainBranches.drop 2) _ :=
    @BranchesRead.next ⟨',', "true", ⟨1, 27⟩⟩ _ [.tag ⟨':', "n", ⟨1, 37⟩⟩, .literal "c",
      .tag ⟨'/', "", ⟨1, 45⟩⟩, .tag ⟨'=', "n", ⟨1, 50⟩⟩] _ _ rfl (by decide) (by cbv) fourth
  have second : BranchesRead (chainBranches.drop 1) _ :=
    @BranchesRead.next ⟨',', "missing", ⟨1, 13⟩⟩ _ [.literal "b"] _ _ rfl (by decide) (by cbv) third
  exact @ConditionalRead.mk ⟨'|', "false", ⟨1, 1⟩⟩ ⟨'/', "", ⟨1, 75⟩⟩ _ [.literal "a"] _ _ rfl
    (by decide) (by cbv) second rfl

/-- The block of the third branch comes out, and no asset was asked for. -/
theorem bake_conditional_third :
    ∃ root, parse chainSource = .ok root ∧
      BranchesBaked noImports [0] .root .alone chainBranches ⟨[], .ok "c"⟩ := by
  have scanned : scan chainSource = .ok chainSegments := by cbv
  have parsed : parse chainSource = .ok _ :=
    Except.bind_eq_ok_iff.mpr ⟨_, scanned, conditionalRead_chain.modelOfSegments_eq⟩
  obtain ⟨root, isRoot, ends⟩ := bake_conditional scanned conditionalRead_chain noImports [] .root
  refine ⟨root, isRoot, (ends _).mp ?_⟩
  obtain rfl := Except.ok.inj (parsed.symm.trans isRoot)
  cbv

/-- A conditional with a block that reads the block before it in the same body. -/
def siblingSource : String :=
  "\x7b\x7b| true\x7d\x7d\x7b\x7b: a\x7d\x7dx\x7b\x7b/\x7d\x7d" ++
    "\x7b\x7b: b\x7d\x7d\x7b\x7b= a\x7d\x7d\x7b\x7b/\x7d\x7d\x7b\x7b= b\x7d\x7d\x7b\x7b/\x7d\x7d"

def siblingBlock : Model :=
  .mk .plain [] [.expression "a" true]

def siblingRoot : Model :=
  .mk .plain [] [.scope (.mk (.conditional (some "true") none)
    [("a", .mk .plain [] [.literal "x"]), ("b", siblingBlock)] [.expression "b" true])]

/-- The block fails in the scope around the conditional, and yet the conditional does not. -/
theorem bake_sibling :
    parse siblingSource = .ok siblingRoot ∧
      (bake noImports .alone [1, 0] .root siblingBlock).result =
        .error (.unresolvedReference "a") ∧
      (bake noImports .alone [] .root siblingRoot).result.map Baked.text = .ok "x" := by
  exact ⟨by cbv, by cbv, by cbv⟩

end Template
end StaticSite
