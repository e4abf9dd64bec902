import SheetCensus.Census.Count

set_option autoImplicit false

/-! The counters of a record after a list of rules. Each one grows by the number of rules that
pass its test (`foldl_countRule`), whatever the record held before. -/

namespace SheetCensus

def Rule.isOverridden (rule : Rule) : Bool :=
  rule.hasBackground && rule.hasImage

namespace Record

private theorem tick_add (number : Int) (condition : Bool) (more : Nat) :
    tick number condition + more = number + (more + if condition = true then 1 else 0 : Nat) := by
  cases condition with
  | false =>
      change number + more = number + ((more + 0 : Nat) : Int)
      rw [Nat.add_zero]
  | true =>
      change number + 1 + more = number + ((more + 1 : Nat) : Int)
      omega

theorem foldl_countRule (record : Record) (rules : List Rule) :
    rules.foldl countRule record =
      { record with
        backgroundSelectors := record.backgroundSelectors + rules.countP Rule.hasBackground
        colorSelectors := record.colorSelectors + rules.countP Rule.hasColor
        backgroundIsOverriddenWithImage :=
          record.backgroundIsOverriddenWithImage + rules.countP Rule.isOverridden } := by
  induction rules generalizing record with
  | nil =>
      simp only [List.foldl_nil, List.countP_nil, Int.natCast_zero, Int.add_zero]
  | cons rule rest ih =>
      simp only [List.foldl_cons, ih, countRule, List.countP_cons, tick_add]
      rfl

/-- A list of rules that is not empty changes the counters only. -/
theorem count_of_ne_nil (record : Record) (rules : List Rule) (some : rules ≠ []) :
    record.count rules =
      { record with
        backgroundSelectors := record.backgroundSelectors + rules.countP Rule.hasBackground
        colorSelectors := record.colorSelectors + rules.countP Rule.hasColor
        backgroundIsOverriddenWithImage :=
          record.backgroundIsOverriddenWithImage + rules.countP Rule.isOverridden } := by
  cases rules with
  | nil => exact absurd rfl some
  | cons rule rest => exact foldl_countRule record (rule :: rest)

/-- What a list of rules changes: the counters, and the flag if the list is empty. -/
theorem count_eq (record : Record) (rules : List Rule) :
    record.count rules =
      { record with
        emptyStylesheet := if rules = [] then 1 else record.emptyStylesheet
        backgroundSelectors := record.backgroundSelectors + rules.countP Rule.hasBackground
        colorSelectors := record.colorSelectors + rules.countP Rule.hasColor
        backgroundIsOverriddenWithImage :=
          record.backgroundIsOverriddenWithImage + rules.countP Rule.isOverridden } := by
  by_cases none : rules = []
  · subst none
    simp only [List.countP_nil, Int.natCast_zero, Int.add_zero, if_true]
    rfl
  · rw [count_of_ne_nil record rules none, if_neg none]

theorem countP_isOverridden_le (rules : List Rule) :
    rules.countP Rule.isOverridden ≤ rules.countP Rule.hasBackground := by
  apply List.countP_mono_left
  intro rule _ overridden
  exact (Bool.and_eq_true_iff.mp overridden).1

end Record

end SheetCensus
