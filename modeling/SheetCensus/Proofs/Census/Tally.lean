import Mathlib.Data.List.Forall2
import SheetCensus.Proofs.Census.Count

set_option autoImplicit false

/-! A census as a tally. A list of rules that is not empty adds to each counter the number of rules
that it is for and changes nothing else (`countSheet_isTally`). So the order of rules does not
matter, nor the order or repetition within a rule, and a rule without selectors counts for
nothing. -/

namespace SheetCensus

namespace Rule

/-- Some selector of the rule names a background colour. A missing list has no selectors. -/
def SetsBackground (rule : Rule) : Prop :=
  ∃ selectors, rule.selectors = some selectors ∧
    ∃ selector ∈ selectors, isBackgroundSelector selector = true

def SetsColor (rule : Rule) : Prop :=
  ∃ selectors, rule.selectors = some selectors ∧
    ∃ selector ∈ selectors, isColorSelector selector = true

def SetsImage (rule : Rule) : Prop :=
  ∃ declarations, rule.declarations = some declarations ∧
    ∃ declaration ∈ declarations,
      "background".toList <+: declaration.property ∧ "url".toList <+: declaration.value

private theorem any_getD_iff {α : Type} (items : Option (List α)) (test : α → Bool) :
    (items.getD []).any test = true ↔
      ∃ list, items = some list ∧ ∃ item ∈ list, test item = true := by
  cases items with
  | none => simp
  | some list => simp

theorem hasBackground_iff (rule : Rule) : rule.hasBackground = true ↔ rule.SetsBackground :=
  any_getD_iff _ _

theorem hasColor_iff (rule : Rule) : rule.hasColor = true ↔ rule.SetsColor :=
  any_getD_iff _ _

theorem hasImage_iff (rule : Rule) : rule.hasImage = true ↔ rule.SetsImage := by
  unfold hasImage SetsImage
  rw [any_getD_iff]
  simp only [Declaration.isBackgroundImage, Bool.and_eq_true, List.isPrefixOf_iff_prefix]

theorem isOverridden_iff (rule : Rule) :
    rule.isOverridden = true ↔ rule.SetsBackground ∧ rule.SetsImage := by
  rw [isOverridden, Bool.and_eq_true, hasBackground_iff, hasImage_iff]

instance (rule : Rule) : Decidable rule.SetsBackground :=
  decidable_of_iff _ rule.hasBackground_iff

instance (rule : Rule) : Decidable rule.SetsColor :=
  decidable_of_iff _ rule.hasColor_iff

instance (rule : Rule) : Decidable rule.SetsImage :=
  decidable_of_iff _ rule.hasImage_iff

private theorem decide_eq_of_iff {holds : Prop} [Decidable holds] {test : Bool}
    (same : test = true ↔ holds) : decide holds = test := by
  rw [Bool.eq_iff_iff, decide_eq_true_iff, same]

def tests : List (Rule → Bool) :=
  [hasBackground, hasColor, isOverridden]

/-- Rules with the same selectors and declarations, in whatever order and however often each of
them is there. -/
structure SameContent (rule other : Rule) : Prop where
  selectors : ∀ selector, selector ∈ rule.selectors.getD [] ↔ selector ∈ other.selectors.getD []
  declarations : ∀ declaration,
    declaration ∈ rule.declarations.getD [] ↔ declaration ∈ other.declarations.getD []

private theorem any_eq_of_mem_iff {α : Type} {items others : List α}
    (same : ∀ item, item ∈ items ↔ item ∈ others) (test : α → Bool) :
    items.any test = others.any test := by
  rw [Bool.eq_iff_iff, List.any_eq_true, List.any_eq_true]
  simp only [same]

theorem SameContent.test_eq {rule other : Rule} (same : rule.SameContent other) :
    ∀ test ∈ tests, test rule = test other := by
  have background : rule.hasBackground = other.hasBackground := any_eq_of_mem_iff same.selectors _
  have color : rule.hasColor = other.hasColor := any_eq_of_mem_iff same.selectors _
  have image : rule.hasImage = other.hasImage := any_eq_of_mem_iff same.declarations _
  simp only [tests, List.forall_mem_cons, isOverridden, background, color, image]
  simp

theorem test_eq_false_of_no_selectors {rule : Rule} (none : rule.selectors.getD [] = []) :
    ∀ test ∈ tests, test rule = false := by
  have background : rule.hasBackground = false := by rw [hasBackground, none, List.any_nil]
  have color : rule.hasColor = false := by rw [hasColor, none, List.any_nil]
  simp [tests, isOverridden, background, color]

end Rule

namespace Record

/-- Lists of rules count alike if they are empty together and agree in the three numbers. -/
theorem count_congr (record : Record) {rules others : List Rule}
    (empty : rules = [] ↔ others = [])
    (same : ∀ test ∈ Rule.tests, rules.countP test = others.countP test) :
    record.count rules = record.count others := by
  simp only [Rule.tests, List.forall_mem_cons] at same
  rw [count_eq, count_eq, same.1, same.2.1, same.2.2.1]
  simp only [empty]

theorem count_perm (record : Record) {rules others : List Rule} (perm : rules.Perm others) :
    record.count rules = record.count others := by
  apply count_congr record
  · exact ⟨fun none => List.nil_perm.mp (none ▸ perm),
      fun none => List.perm_nil.mp (none ▸ perm)⟩
  · intro test _
    exact perm.countP_eq test

theorem count_sameContent (record : Record) {rules others : List Rule}
    (same : List.Forall₂ Rule.SameContent rules others) :
    record.count rules = record.count others := by
  apply count_congr record
  · cases same with
    | nil => exact Iff.rfl
    | cons _ _ => exact ⟨nofun, nofun⟩
  · intro test member
    induction same with
    | nil => rfl
    | cons first _ ih => rw [List.countP_cons, List.countP_cons, ih, first.test_eq test member]

theorem count_append_of_no_selectors (record : Record) {kept removed : List Rule}
    (remains : kept ≠ []) (bare : ∀ rule ∈ removed, rule.selectors.getD [] = []) :
    record.count (kept ++ removed) = record.count kept := by
  apply count_congr record
  · simp only [List.append_eq_nil_iff, remains, false_and]
  · intro test member
    have none : removed.countP test = 0 := by
      rw [List.countP_eq_zero]
      intro rule inside
      rw [Rule.test_eq_false_of_no_selectors (bare rule inside) test member]
      exact Bool.false_ne_true
    rw [List.countP_append, none, Nat.add_zero]

theorem count_append (record : Record) {front back : List Rule} (filled : front ≠ [])
    (filledToo : back ≠ []) :
    record.count (front ++ back) = (record.count front).count back := by
  rw [count_of_ne_nil record _ (List.append_ne_nil_of_left_ne_nil filled back),
    count_of_ne_nil record front filled, count_of_ne_nil _ back filledToo]
  simp only [List.countP_append, Int.natCast_add, Int.add_assoc]

/-- Counting a sheet: what it adds, what it leaves alone, and what does not matter to it. -/
theorem countSheet_isTally (initial : Record) (label : Option Text) :
    (∀ rules, rules ≠ [] →
        initial.countSheet ⟨some rules, label⟩ =
          { initial with
            backgroundSelectors := initial.backgroundSelectors +
              rules.countP (fun rule => decide rule.SetsBackground)
            colorSelectors := initial.colorSelectors +
              rules.countP (fun rule => decide rule.SetsColor)
            backgroundIsOverriddenWithImage := initial.backgroundIsOverriddenWithImage +
              rules.countP (fun rule => decide (rule.SetsBackground ∧ rule.SetsImage)) }) ∧
      (∀ rules, rules = none ∨ rules = some [] →
        initial.countSheet ⟨rules, label⟩ = { initial with emptyStylesheet := 1 }) ∧
      (∀ front back, front ≠ [] → back ≠ [] →
        initial.countSheet ⟨some (front ++ back), label⟩ =
          (initial.countSheet ⟨some front, label⟩).countSheet ⟨some back, label⟩) ∧
      (∀ rules others, rules.Perm others →
        initial.countSheet ⟨some rules, label⟩ = initial.countSheet ⟨some others, label⟩) ∧
      (∀ rules others, List.Forall₂ Rule.SameContent rules others →
        initial.countSheet ⟨some rules, label⟩ = initial.countSheet ⟨some others, label⟩) ∧
      ∀ rules kept removed, rules.Perm (kept ++ removed) → kept ≠ [] →
        (∀ rule ∈ removed, rule.selectors.getD [] = []) →
          initial.countSheet ⟨some rules, label⟩ = initial.countSheet ⟨some kept, label⟩ := by
  refine ⟨?_, ?_, ?_, ?_, ?_, ?_⟩
  · intro rules filled
    have counted := count_of_ne_nil initial rules filled
    simp only [Rule.decide_eq_of_iff (Rule.hasBackground_iff _),
      Rule.decide_eq_of_iff (Rule.hasColor_iff _), Rule.decide_eq_of_iff (Rule.isOverridden_iff _)]
    exact counted
  · intro rules bare
    rcases bare with rfl | rfl
    · rfl
    · rfl
  · intro front back filled filledToo
    exact count_append initial filled filledToo
  · intro rules others perm
    exact count_perm initial perm
  · intro rules others same
    exact count_sameContent initial same
  · intro rules kept removed perm remains bare
    exact (count_perm initial perm).trans (count_append_of_no_selectors initial remains bare)

/-- An at-rule is removed, and a selector and a declaration are written twice. -/
theorem countSheet_isTally_at_repeated_selector :
    let once : Rule := ⟨Rule.styleType, some ["color-1-background".toList],
      some [⟨"background".toList, "url(x)".toList⟩]⟩
    let twice : Rule := ⟨Rule.styleType,
      some ["color-1-background".toList, "color-1-background".toList],
      some [⟨"background".toList, "url(x)".toList⟩, ⟨"background".toList, "url(x)".toList⟩]⟩
    let bare : Rule := ⟨"media".toList, none, none⟩
    [bare, twice].Perm ([twice] ++ [bare]) ∧ List.Forall₂ Rule.SameContent [twice] [once] ∧
      blank.countSheet ⟨some [bare, twice], none⟩ = blank.countSheet ⟨some [once], none⟩ ∧
      blank.countSheet ⟨some [bare, twice], none⟩ =
        { blank with
          backgroundSelectors := 1
          colorSelectors := 0
          backgroundIsOverriddenWithImage := 1 } := by
  intro once twice bare
  obtain ⟨counted, _, _, _, content, removal⟩ := countSheet_isTally blank none
  have swapped : [bare, twice].Perm ([twice] ++ [bare]) := .swap twice bare []
  have same : List.Forall₂ Rule.SameContent [twice] [once] :=
    .cons ⟨by simp [once, twice], by simp [once, twice]⟩ .nil
  have collapsed : blank.countSheet ⟨some [bare, twice], none⟩ =
      blank.countSheet ⟨some [once], none⟩ := by
    rw [removal [bare, twice] [twice] [bare] swapped (List.cons_ne_nil _ _) (by simp [bare])]
    exact content [twice] [once] same
  refine ⟨swapped, same, collapsed, ?_⟩
  rw [counted [bare, twice] (List.cons_ne_nil _ _)]
  decide

end Record

end SheetCensus
