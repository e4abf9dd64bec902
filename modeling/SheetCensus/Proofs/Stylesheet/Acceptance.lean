import Mathlib.Data.List.Forall2
import SheetCensus.Proofs.Css.Origin
import SheetCensus.Proofs.Stylesheet.Reading

set_option autoImplicit false

/-! Which style sheets are read, and as what. A construct becomes a rule exactly when it is flawless
(`Reading.rule_eq_ok_iff`): it has come to its end, it has what it needs, and no error stands at the
top of its prelude or of a value. Errors inside a block or function of a prelude or a value are not
looked at, so they do not keep a text from being read (`Stylesheet.exists_read_iff_isFlawless`). -/

namespace SheetCensus

open Css

namespace Css

def Construct.declaredBody? : Construct → Option (List Token)
  | .atRule _ keyword _ body => if Reading.holdsDeclarations keyword.lower then body else none
  | .styleRule _ _ body => some body
  | .unfinished _ => none

theorem Construct.declaredBody?_atRule_eq_some_iff (position : Position) (keyword : Text)
    (prelude : List Token) (body : Option (List Token)) (content : List Token) :
    (Construct.atRule position keyword prelude body).declaredBody? = some content ↔
      Reading.holdsDeclarations keyword.lower = true ∧ body = some content := by
  unfold Construct.declaredBody?
  dsimp only
  by_cases holds : Reading.holdsDeclarations keyword.lower = true
  · rw [if_pos holds]
    exact (and_iff_right holds).symm
  · rw [if_neg holds]
    exact ⟨nofun, fun both => absurd both.1 holds⟩

theorem Construct.body?_of_declaredBody? {construct : Construct} {body : List Token}
    (declares : construct.declaredBody? = some body) : construct.body? = some body := by
  cases construct with
  | atRule position keyword prelude content =>
      exact ((declaredBody?_atRule_eq_some_iff position keyword prelude content body).mp declares).2
  | styleRule position prelude content => exact declares
  | unfinished position => cases declares

theorem Construct.IsOf.prelude_subset {construct : Construct} {tokens prelude : List Token}
    (isOf : construct.IsOf tokens) (found : construct.prelude? = some prelude) :
    prelude ⊆ tokens := by
  cases construct with
  | atRule position keyword other body =>
      cases found
      exact isOf.2.1
  | styleRule position other body =>
      cases found
      exact isOf.2.1
  | unfinished position => cases found

theorem Construct.IsOf.exists_block {construct : Construct} {tokens body : List Token}
    (isOf : construct.IsOf tokens) (found : construct.body? = some body) :
    ∃ block ∈ tokens, block.curlyContent? = some body := by
  cases construct with
  | atRule position keyword prelude content => exact isOf.2.2 body found
  | styleRule position prelude content =>
      cases found
      exact isOf.2.2
  | unfinished position => cases found

/-- The sequence of tokens is one that is searched for errors: the prelude, or the value of a
declaration that is read. -/
def Construct.IsInspected (construct : Construct) (tokens : List Token) : Prop :=
  construct.prelude? = some tokens ∨
    ∃ body name, construct.declaredBody? = some body ∧ .declaration name tokens ∈ items body

structure Construct.IsFlawless (construct : Construct) : Prop where
  finished : ∀ position, construct ≠ .unfinished position
  selected : ∀ position prelude body,
    construct = .styleRule position prelude body → Selector.list prelude ≠ []
  itemized : ∀ body, construct.declaredBody? = some body →
    ∀ error position, .faulty error position ∉ items body
  inspected : ∀ tokens, construct.IsInspected tokens → ∀ token ∈ tokens, token.error? = none

/-- An error stands in a sequence that is searched for errors, at whatever depth. -/
def Construct.HoldsError (construct : Construct) : Prop :=
  ∃ tokens, construct.IsInspected tokens ∧
    ∃ token ∈ tokens, ∃ position error, (Token.leaf position (.error error)).IsPart token

end Css

namespace Reading

/-! ### Declarations -/

theorem checkTokens_eq_ok_iff (label : Option Text) (tokens : List Token) :
    checkTokens label tokens = .ok () ↔ ∀ token ∈ tokens, token.error? = none := by
  induction tokens with
  | nil => exact ⟨fun _ => nofun, fun _ => rfl⟩
  | cons token rest ih =>
      rw [List.forall_mem_cons, checkTokens]
      cases found : token.error? with
      | some error => simp
      | none => simp [ih]

def IsSound : Item → Prop
  | .declaration _ value => ∀ token ∈ value, token.error? = none
  | .atRule => True
  | .faulty _ _ => False

def declaration? (source : Source) : Item → Option Declaration
  | .declaration name value => some ⟨name, valueText source value⟩
  | .atRule => none
  | .faulty _ _ => none

theorem declarations_eq_ok_iff (source : Source) (label : Option Text) (items : List Item)
    (found : List Declaration) :
    declarations source label items = .ok found ↔
      (∀ item ∈ items, IsSound item) ∧ found = items.filterMap (declaration? source) := by
  induction items generalizing found with
  | nil =>
      rw [declarations, Except.ok.injEq, List.filterMap_nil]
      exact ⟨fun none => ⟨nofun, none.symm⟩, fun both => both.2.symm⟩
  | cons item rest ih =>
      rw [List.forall_mem_cons]
      cases item with
      | faulty error position =>
          exact ⟨nofun, fun both => absurd both.1.1 id⟩
      | atRule =>
          exact (ih found).trans (and_congr_left' (and_iff_right trivial).symm)
      | declaration name value =>
          have checked : IsSound (.declaration name value) ↔ checkTokens label value = .ok () :=
            (checkTokens_eq_ok_iff label value).symm
          rw [checked, declarations]
          change _ ↔ _ ∧ found = ⟨name, valueText source value⟩ :: rest.filterMap _
          cases checkTokens label value with
          | error fault => simp
          | ok _ =>
              dsimp only
              cases later : declarations source label rest with
              | error fault =>
                  constructor
                  · exact nofun
                  · intro both
                    have behind := (ih _).mpr ⟨both.1.2, rfl⟩
                    rw [later] at behind
                    cases behind
              | ok others =>
                  obtain ⟨sound, rfl⟩ := (ih others).mp later
                  constructor
                  · intro same
                    exact ⟨⟨rfl, sound⟩, (Except.ok.inj same).symm⟩
                  · intro both
                    rw [both.2]

def declared (source : Source) (body : List Token) : List Declaration :=
  (items body).filterMap (declaration? source)

/-! ### Rules -/

/-- The rule that a construct with a block or an at-rule is, whatever is wrong with it. -/
inductive IsRuleOf (source : Source) : Construct → Rule → Prop
  | styleRule (position : Position) (prelude body : List Token) :
      IsRuleOf source (.styleRule position prelude body)
        ⟨Rule.styleType, some (Selector.list prelude), some (declared source body)⟩
  | atRule (position : Position) (keyword : Text) (prelude : List Token)
      (body : Option (List Token)) :
      IsRuleOf source (.atRule position keyword prelude body)
        ⟨keyword.lower, none,
          (Construct.atRule position keyword prelude body).declaredBody?.map (declared source)⟩

theorem isFlawless_iff {construct : Construct} {prelude : List Token}
    (finished : construct.prelude? = some prelude) :
    construct.IsFlawless ↔
      (∀ token ∈ prelude, token.error? = none) ∧
        (∀ position prelude body, construct = .styleRule position prelude body →
          Selector.list prelude ≠ []) ∧
          ∀ body, construct.declaredBody? = some body → ∀ item ∈ items body, IsSound item := by
  constructor
  · intro flawless
    refine ⟨flawless.inspected prelude (Or.inl finished), flawless.selected, ?_⟩
    intro body declares item member
    cases item with
    | faulty error place => exact flawless.itemized body declares error place member
    | atRule => trivial
    | declaration name value =>
        exact flawless.inspected value (Or.inr ⟨body, name, declares, member⟩)
  · intro sound
    obtain ⟨clean, selected, itemized⟩ := sound
    refine ⟨?_, selected, ?_, ?_⟩
    · intro position unfinished
      rw [unfinished] at finished
      cases finished
    · intro body declares error place member
      exact itemized body declares _ member
    · intro tokens inspected
      rcases inspected with same | ⟨body, name, declares, member⟩
      · rw [finished] at same
        cases same
        exact clean
      · exact itemized body declares _ member

theorem atRuleDeclarations_eq_ok_iff (source : Source) (label : Option Text) (position : Position)
    (keyword : Text) (prelude : List Token) (body : Option (List Token))
    (found : Option (List Declaration)) :
    atRuleDeclarations source label keyword.lower body = .ok found ↔
      (∀ content, (Construct.atRule position keyword prelude body).declaredBody? = some content →
        ∀ item ∈ items content, IsSound item) ∧
        found = (Construct.atRule position keyword prelude body).declaredBody?.map
          (declared source) := by
  cases body with
  | none =>
      have none_declared :
          (Construct.atRule position keyword prelude none).declaredBody? = none :=
        ite_self none
      rw [none_declared, atRuleDeclarations, Except.ok.injEq]
      exact ⟨fun none => ⟨nofun, none.symm⟩, fun both => both.2.symm⟩
  | some content =>
      unfold Construct.declaredBody? atRuleDeclarations
      dsimp only
      split
      · simp only [Option.some.injEq, forall_eq', Option.map_some]
        constructor
        · intro accepted
          obtain ⟨list, here, rfl⟩ := exists_ok_of_map_ok accepted
          obtain ⟨sound, rfl⟩ := (declarations_eq_ok_iff source label (items content) list).mp here
          exact ⟨sound, rfl⟩
        · intro both
          rw [(declarations_eq_ok_iff source label (items content) _).mpr ⟨both.1, rfl⟩, both.2]
          rfl
      · rw [Except.ok.injEq]
        exact ⟨fun none => ⟨nofun, none.symm⟩, fun both => both.2.symm⟩

theorem rule_eq_ok_iff (source : Source) (label : Option Text) (construct : Construct)
    (found : Rule) :
    rule source label construct = .ok found ↔
      construct.IsFlawless ∧ IsRuleOf source construct found := by
  cases construct with
  | unfinished position => exact ⟨nofun, fun both => absurd rfl (both.1.finished position)⟩
  | styleRule position prelude body =>
      rw [isFlawless_iff rfl, ← checkTokens_eq_ok_iff label]
      constructor
      · intro accepted
        rw [rule] at accepted
        cases clean : checkTokens label prelude with
        | error fault =>
            rw [clean] at accepted
            cases accepted
        | ok =>
            rw [clean] at accepted
            cases selected : Selector.list prelude with
            | nil =>
                rw [selected] at accepted
                cases accepted
            | cons selector more =>
                rw [selected] at accepted
                obtain ⟨list, here, rfl⟩ := exists_ok_of_map_ok accepted
                obtain ⟨sound, rfl⟩ :=
                  (declarations_eq_ok_iff source label (items body) list).mp here
                rw [← selected]
                refine ⟨⟨rfl, ?_, ?_⟩, .styleRule position prelude body⟩
                · intro _ _ _ same
                  cases same
                  rw [selected]
                  exact List.cons_ne_nil selector more
                · intro content same
                  cases same
                  exact sound
      · intro both
        obtain ⟨⟨clean, selected, sound⟩, isRule⟩ := both
        cases isRule
        rw [rule, clean,
          (declarations_eq_ok_iff source label (items body) _).mpr ⟨sound body rfl, rfl⟩]
        dsimp only
        cases found : Selector.list prelude with
        | nil => exact absurd found (selected position prelude body rfl)
        | cons selector more => rfl
  | atRule position keyword prelude body =>
      have declares := atRuleDeclarations_eq_ok_iff source label position keyword prelude body
      rw [isFlawless_iff rfl, ← checkTokens_eq_ok_iff label]
      constructor
      · intro accepted
        rw [rule] at accepted
        cases clean : checkTokens label prelude with
        | error fault =>
            rw [clean] at accepted
            cases accepted
        | ok =>
            rw [clean] at accepted
            obtain ⟨list, here, rfl⟩ := exists_ok_of_map_ok accepted
            obtain ⟨sound, rfl⟩ := (declares list).mp here
            refine ⟨⟨rfl, ?_, sound⟩, .atRule position keyword prelude body⟩
            intro _ _ _ same
            cases same
      · intro both
        obtain ⟨⟨clean, _, sound⟩, isRule⟩ := both
        cases isRule
        rw [rule, clean, (declares _).mpr ⟨sound, rfl⟩]
        rfl

theorem exists_isRuleOf (source : Source) {construct : Construct}
    (flawless : construct.IsFlawless) : ∃ found, IsRuleOf source construct found := by
  cases construct with
  | unfinished position => exact absurd rfl (flawless.finished position)
  | styleRule position prelude body => exact ⟨_, .styleRule position prelude body⟩
  | atRule position keyword prelude body => exact ⟨_, .atRule position keyword prelude body⟩

theorem rules_eq_ok_iff (source : Source) (label : Option Text) (constructs : List Construct)
    (found : List Rule) :
    rules source label constructs = .ok found ↔
      List.Forall₂ (fun construct rule => construct.IsFlawless ∧ IsRuleOf source construct rule)
        constructs found := by
  induction constructs generalizing found with
  | nil =>
      rw [rules, List.forall₂_nil_left_iff, Except.ok.injEq]
      exact eq_comm
  | cons construct rest ih =>
      constructor
      · intro accepted
        rw [rules] at accepted
        cases here : rule source label construct with
        | error fault =>
            rw [here] at accepted
            cases accepted
        | ok first =>
            rw [here] at accepted
            cases later : rules source label rest with
            | error fault =>
                rw [later] at accepted
                cases accepted
            | ok others =>
                rw [later] at accepted
                cases accepted
                exact .cons ((rule_eq_ok_iff source label construct first).mp here)
                  ((ih others).mp later)
      · intro all
        cases all with
        | cons here later =>
            rw [rules, (rule_eq_ok_iff source label construct _).mpr here, (ih _).mpr later]

theorem exists_rules_eq_ok_iff (source : Source) (label : Option Text)
    (constructs : List Construct) :
    (∃ found, rules source label constructs = .ok found) ↔
      ∀ construct ∈ constructs, construct.IsFlawless := by
  simp only [rules_eq_ok_iff]
  induction constructs with
  | nil => exact ⟨fun _ => nofun, fun _ => ⟨[], .nil⟩⟩
  | cons construct rest ih =>
      rw [List.forall_mem_cons, ← ih]
      constructor
      · intro accepted
        obtain ⟨found, all⟩ := accepted
        cases all with
        | cons here later => exact ⟨here.1, _, later⟩
      · intro both
        obtain ⟨flawless, others, later⟩ := both
        obtain ⟨first, here⟩ := exists_isRuleOf source flawless
        exact ⟨first :: others, .cons ⟨flawless, here⟩ later⟩

/-- Every rule that is read is the rule of a flawless construct. -/
theorem exists_construct_of_mem {source : Source} {label : Option Text}
    {constructs : List Construct} {found : List Rule}
    (accepted : rules source label constructs = .ok found) :
    ∀ rule ∈ found, ∃ construct ∈ constructs,
      construct.IsFlawless ∧ IsRuleOf source construct rule := by
  have all := (rules_eq_ok_iff source label constructs found).mp accepted
  clear accepted
  induction all with
  | nil => exact nofun
  | cons here _ ih =>
      refine List.forall_mem_cons.mpr ⟨⟨_, List.mem_cons_self, here⟩, ?_⟩
      intro rule member
      obtain ⟨construct, later, isRule⟩ := ih rule member
      exact ⟨construct, List.mem_cons_of_mem _ later, isRule⟩

def constructsIn (text : Text) : List Construct :=
  constructs (nest (withoutComments (lexemes text)))

end Reading

namespace Stylesheet

/-- A text is read as a style sheet exactly when it holds no oversized integer, passes the check of
its end, and all its constructs are flawless. -/
theorem exists_read_iff_isFlawless (text : Text) (label : Option Text) :
    (∃ sheet, read text label = .ok sheet) ↔
      Reading.oversizedIn? (Source.normalize text) = none ∧
        (Ending.ofText (Source.normalize text)).fault? (Source.normalize text) label = none ∧
          ∀ construct ∈ Reading.constructsIn (Source.normalize text), construct.IsFlawless := by
  have accepted : (∃ rules, Reading.rulesIn (Source.normalize text) label = .ok rules) ↔
      ∀ construct ∈ Reading.constructsIn (Source.normalize text), construct.IsFlawless :=
    Reading.exists_rules_eq_ok_iff (Source.ofNormalized (Source.normalize text)) label _
  rw [exists_read_eq_ok_iff, accepted]

/-- A bracket that closes nothing stands inside another pair of brackets. -/
theorem read_ok_at_nested_error :
    (∃ construct ∈ Reading.constructsIn (Source.normalize ['a', '[', '}', ']', '{', '}']),
        construct.HoldsError) ∧
      read ['a', '[', '}', ']', '{', '}'] none =
        .ok ⟨some [⟨['r', 'u', 'l', 'e'], some [['a', '[', '}', ']']], some []⟩], none⟩ := by
  refine ⟨?_, rfl⟩
  have all : Reading.constructsIn (Source.normalize ['a', '[', '}', ']', '{', '}']) =
      [.styleRule ⟨1, 1⟩ [.leaf ⟨1, 1⟩ (.ident ['a']), .block ⟨1, 2⟩ (.bracket .square)
        [.leaf ⟨1, 3⟩ (.error (.unmatched .curly))]] []] := rfl
  rw [all]
  refine ⟨_, List.mem_singleton_self _, _, Or.inl rfl, ?_⟩
  exact ⟨_, List.mem_cons_of_mem _ (List.mem_singleton_self _), ⟨1, 3⟩, .unmatched .curly,
    .inside (List.mem_singleton_self _) .self⟩

end Stylesheet

end SheetCensus
