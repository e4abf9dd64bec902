import SheetCensus.Proofs.Stylesheet.Ending
import SheetCensus.Stylesheet.Reading

set_option autoImplicit false

/-! What reading a style sheet answers. Its three stages are told apart (`read_eq`): an oversized
integer, then the end of the text, then the rules. Only the second stage says that something is
open, so the exact conditions on the check carry over to the answers for complete and for
truncated texts. -/

namespace SheetCensus

open Css

namespace Css.Construct

def prelude? : Construct → Option (List Token)
  | atRule _ _ prelude _ => some prelude
  | styleRule _ prelude _ => some prelude
  | unfinished _ => none

def body? : Construct → Option (List Token)
  | atRule _ _ _ body => body
  | styleRule _ _ body => some body
  | unfinished _ => none

end Css.Construct

theorem error_of_map_error {ε α β : Type} {f : α → β} {result : Except ε α} {error : ε}
    (mapped : result.map f = .error error) : result = .error error := by
  cases result with
  | error other => exact congrArg Except.error (Except.error.inj mapped)
  | ok value => cases mapped

theorem exists_ok_of_map_ok {ε α β : Type} {f : α → β} {result : Except ε α} {image : β}
    (mapped : result.map f = .ok image) : ∃ value, result = .ok value ∧ f value = image := by
  cases result with
  | error other => cases mapped
  | ok value => exact ⟨value, rfl, Except.ok.inj mapped⟩

namespace Reading

def oversizedIn? (text : Text) : Option Nat :=
  (lexemes text).findSome? (fun placed => oversized? placed.2)

theorem oversizedIn?_eq_none_iff (text : Text) :
    oversizedIn? text = none ↔ ∀ piece ∈ pieces text, oversized? piece.lexeme = none := by
  unfold oversizedIn?
  rw [List.findSome?_eq_none_iff]
  exact forall_mem_placed_iff (fun lexeme => oversized? lexeme = none) .start (pieces text)

/-- The rules of a normalized text, whatever is open at its end. -/
def rulesIn (text : Text) (label : Option Text) : Except Fault (List Rule) :=
  rules (Source.ofNormalized text) label (constructs (nest (withoutComments (lexemes text))))

/-! ### The faults of the last stage -/

theorem checkTokens_error (label : Option Text) (tokens : List Token) (fault : Fault)
    (refused : checkTokens label tokens = .error fault) :
    ∃ token ∈ tokens, ∃ error position,
      token.error? = some (error, position) ∧ fault = ⟨.token error, position, label⟩ := by
  induction tokens with
  | nil => cases refused
  | cons token rest ih =>
      unfold checkTokens at refused
      cases found : token.error? with
      | some placed =>
          rw [found] at refused
          cases refused
          exact ⟨token, List.mem_cons_self, placed.1, placed.2, found, rfl⟩
      | none =>
          rw [found] at refused
          obtain ⟨other, member, rest⟩ := ih refused
          exact ⟨other, List.mem_cons_of_mem token member, rest⟩

theorem declarations_error (source : Source) (label : Option Text) (items : List Item)
    (fault : Fault) (refused : declarations source label items = .error fault) :
    (∃ error position, .faulty error position ∈ items ∧ fault = ⟨.item error, position, label⟩) ∨
      ∃ name value, .declaration name value ∈ items ∧ checkTokens label value = .error fault := by
  induction items with
  | nil => cases refused
  | cons item rest ih =>
      have later (behind : declarations source label rest = .error fault) :
          (∃ error position, .faulty error position ∈ item :: rest ∧
              fault = ⟨.item error, position, label⟩) ∨
            ∃ name value, .declaration name value ∈ item :: rest ∧
              checkTokens label value = .error fault := by
        rcases ih behind with ⟨error, position, member, same⟩ | ⟨name, value, member, bad⟩
        · exact Or.inl ⟨error, position, List.mem_cons_of_mem item member, same⟩
        · exact Or.inr ⟨name, value, List.mem_cons_of_mem item member, bad⟩
      cases item with
      | faulty error position =>
          cases refused
          exact Or.inl ⟨error, position, List.mem_cons_self, rfl⟩
      | atRule => exact later refused
      | declaration name value =>
          unfold declarations at refused
          cases bad : checkTokens label value with
          | error found =>
              rw [bad] at refused
              cases refused
              exact Or.inr ⟨name, value, List.mem_cons_self, bad⟩
          | ok =>
              rw [bad] at refused
              cases behind : declarations source label rest with
              | error found =>
                  rw [behind] at refused
                  cases refused
                  exact later behind
              | ok others =>
                  rw [behind] at refused
                  cases refused

/-- A construct is refused for want of a block, for a token of its prelude, for want of a
selector, or for a declaration in its block. -/
theorem rule_error (source : Source) (label : Option Text) (construct : Construct) (fault : Fault)
    (refused : rule source label construct = .error fault) :
    (∃ position, construct = .unfinished position ∧ fault = ⟨.blockMissing, position, label⟩) ∨
      (∃ prelude, construct.prelude? = some prelude ∧ checkTokens label prelude = .error fault) ∨
      (∃ position prelude body, construct = .styleRule position prelude body ∧
        fault = ⟨.selectorMissing, position, label⟩) ∨
      ∃ body, construct.body? = some body ∧
        declarations source label (items body) = .error fault := by
  cases construct with
  | unfinished position =>
      cases refused
      exact Or.inl ⟨position, rfl, rfl⟩
  | styleRule position prelude body =>
      rw [rule] at refused
      cases bad : checkTokens label prelude with
      | error found =>
          rw [bad] at refused
          cases refused
          exact Or.inr (Or.inl ⟨prelude, rfl, bad⟩)
      | ok =>
          rw [bad] at refused
          dsimp only at refused
          split at refused
          · cases refused
            exact Or.inr (Or.inr (Or.inl ⟨position, prelude, body, rfl, rfl⟩))
          · refine Or.inr (Or.inr (Or.inr ⟨body, rfl, ?_⟩))
            exact error_of_map_error refused
  | atRule position keyword prelude body =>
      rw [rule] at refused
      cases bad : checkTokens label prelude with
      | error found =>
          rw [bad] at refused
          cases refused
          exact Or.inr (Or.inl ⟨prelude, rfl, bad⟩)
      | ok =>
          rw [bad] at refused
          have wrong := error_of_map_error refused
          cases body with
          | none => cases wrong
          | some content =>
              unfold atRuleDeclarations at wrong
              dsimp only at wrong
              split at wrong
              · exact Or.inr (Or.inr (Or.inr ⟨content, rfl, error_of_map_error wrong⟩))
              · cases wrong

theorem rules_error (source : Source) (label : Option Text) (constructs : List Construct)
    (fault : Fault) (refused : rules source label constructs = .error fault) :
    ∃ construct ∈ constructs, rule source label construct = .error fault := by
  induction constructs with
  | nil => cases refused
  | cons construct rest ih =>
      unfold rules at refused
      cases bad : rule source label construct with
      | error found =>
          rw [bad] at refused
          cases refused
          exact ⟨construct, List.mem_cons_self, bad⟩
      | ok found =>
          rw [bad] at refused
          cases behind : rules source label rest with
          | error other =>
              rw [behind] at refused
              cases refused
              obtain ⟨later, member, worse⟩ := ih behind
              exact ⟨later, List.mem_cons_of_mem construct member, worse⟩
          | ok others =>
              rw [behind] at refused
              cases refused

/-- The last stage never says that something is open. -/
theorem not_isOpenEnd_of_rules_error (source : Source) (label : Option Text)
    (constructs : List Construct) (fault : Fault)
    (refused : rules source label constructs = .error fault) : ¬ fault.cause.IsOpenEnd := by
  have ofTokens (tokens : List Token) (bad : checkTokens label tokens = .error fault) :
      ¬ fault.cause.IsOpenEnd := by
    obtain ⟨_, _, error, position, _, rfl⟩ := checkTokens_error label tokens fault bad
    exact id
  obtain ⟨construct, _, bad⟩ := rules_error source label constructs fault refused
  rcases rule_error source label construct fault bad with
    ⟨_, _, rfl⟩ | ⟨prelude, _, bad⟩ | ⟨_, _, _, _, rfl⟩ | ⟨body, _, bad⟩
  · exact id
  · exact ofTokens prelude bad
  · exact id
  · rcases declarations_error source label (items body) fault bad with
      ⟨_, _, _, rfl⟩ | ⟨_, value, _, bad⟩
    · exact id
    · exact ofTokens value bad

end Reading

/-! ### The answers -/

namespace Stylesheet

theorem read_eq (text : Text) (label : Option Text) :
    read text label =
      match Reading.oversizedIn? (Source.normalize text) with
      | some digits => .error (.oversized digits)
      | none =>
          match (Ending.ofText (Source.normalize text)).fault? (Source.normalize text) label with
          | some fault => .error (.fault fault)
          | none =>
              match Reading.rulesIn (Source.normalize text) label with
              | .error fault => .error (.fault fault)
              | .ok rules => .ok ⟨if rules.isEmpty then none else some rules, label⟩ := by
  unfold read readRules
  change Except.map _ (match Reading.oversizedIn? (Source.normalize text) with
    | some digits => _
    | none => _) = _
  cases Reading.oversizedIn? (Source.normalize text) with
  | some digits => rfl
  | none =>
      change Except.map _ (Except.mapError _
        (match (Ending.ofText (Source.normalize text)).fault? (Source.normalize text) label with
          | some fault => .error fault
          | none => Reading.rulesIn (Source.normalize text) label)) = _
      cases (Ending.ofText (Source.normalize text)).fault? (Source.normalize text) label with
      | some fault => rfl
      | none => cases Reading.rulesIn (Source.normalize text) label <;> rfl

theorem read_eq_fault_iff (text : Text) (label : Option Text) (fault : Fault) :
    read text label = .error (.fault fault) ↔
      Reading.oversizedIn? (Source.normalize text) = none ∧
        ((Ending.ofText (Source.normalize text)).fault? (Source.normalize text) label = some fault ∨
          ((Ending.ofText (Source.normalize text)).fault? (Source.normalize text) label = none ∧
            Reading.rulesIn (Source.normalize text) label = .error fault)) := by
  rw [read_eq]
  cases Reading.oversizedIn? (Source.normalize text) with
  | some digits => simp
  | none =>
      cases (Ending.ofText (Source.normalize text)).fault? (Source.normalize text) label with
      | some other => simp
      | none => cases Reading.rulesIn (Source.normalize text) label <;> simp

theorem exists_read_eq_ok_iff (text : Text) (label : Option Text) :
    (∃ sheet, read text label = .ok sheet) ↔
      Reading.oversizedIn? (Source.normalize text) = none ∧
        (Ending.ofText (Source.normalize text)).fault? (Source.normalize text) label = none ∧
          ∃ rules, Reading.rulesIn (Source.normalize text) label = .ok rules := by
  rw [read_eq]
  cases Reading.oversizedIn? (Source.normalize text) with
  | some digits => simp
  | none =>
      cases (Ending.ofText (Source.normalize text)).fault? (Source.normalize text) label with
      | some other => simp
      | none => cases Reading.rulesIn (Source.normalize text) label <;> simp

theorem read_eq_ok_iff (text : Text) (label : Option Text) (sheet : Stylesheet) :
    read text label = .ok sheet ↔
      Reading.oversizedIn? (Source.normalize text) = none ∧
        (Ending.ofText (Source.normalize text)).fault? (Source.normalize text) label = none ∧
          ∃ rules, Reading.rulesIn (Source.normalize text) label = .ok rules ∧
            sheet = ⟨if rules.isEmpty then none else some rules, label⟩ := by
  rw [read_eq]
  cases Reading.oversizedIn? (Source.normalize text) with
  | some digits => simp
  | none =>
      cases (Ending.ofText (Source.normalize text)).fault? (Source.normalize text) label with
      | some other => simp
      | none =>
          cases Reading.rulesIn (Source.normalize text) label with
          | error fault => simp
          | ok rules =>
              simp only [Except.ok.injEq, true_and, exists_eq_left']
              exact eq_comm

theorem read_eq_oversized_iff (text : Text) (label : Option Text) (digits : Nat) :
    read text label = .error (.oversized digits) ↔
      Reading.oversizedIn? (Source.normalize text) = some digits := by
  rw [read_eq]
  cases Reading.oversizedIn? (Source.normalize text) with
  | some digits => simp
  | none =>
      cases (Ending.ofText (Source.normalize text)).fault? (Source.normalize text) label with
      | some other => simp
      | none => cases Reading.rulesIn (Source.normalize text) label <;> simp

theorem ruleList_mk (rules : List Rule) (label : Option Text) :
    ruleList ⟨if rules.isEmpty then none else some rules, label⟩ = rules := by
  cases rules <;> rfl

/-- A complete text is said to be open exactly when its chain is not uniform, unless an oversized
integer comes first. -/
theorem read_openEnd_iff_of_isComplete (text : Text) (label : Option Text)
    (complete : IsComplete (Source.normalize text)) :
    ((Ending.ofText (Source.normalize text)).fault? (Source.normalize text) label = none ↔
        (Ending.ofText (Source.normalize text)).IsUniform) ∧
      ((∃ fault, read text label = .error (.fault fault) ∧ fault.cause.IsOpenEnd) ↔
        Reading.oversizedIn? (Source.normalize text) = none ∧
          ¬ (Ending.ofText (Source.normalize text)).IsUniform) := by
  have passes := Ending.fault?_eq_none_iff_of_isComplete (Source.normalize text) label complete
  refine ⟨passes, ?_⟩
  constructor
  · rintro ⟨fault, refused, isOpen⟩
    obtain ⟨small, seen | ⟨_, later⟩⟩ := (read_eq_fault_iff text label fault).mp refused
    · refine ⟨small, ?_⟩
      intro uniform
      rw [passes.mpr uniform] at seen
      cases seen
    · exact absurd isOpen (Reading.not_isOpenEnd_of_rules_error _ label _ fault later)
  · rintro ⟨small, mixed⟩
    cases seen : (Ending.ofText (Source.normalize text)).fault? (Source.normalize text) label with
    | none => exact absurd (passes.mp seen) mixed
    | some fault =>
        exact ⟨fault, (read_eq_fault_iff text label fault).mpr ⟨small, Or.inl seen⟩,
          Ending.isOpenEnd_of_fault? _ _ label fault seen⟩

theorem read_openEnd_iff_at_nested_functions :
    IsComplete ['@', 'm', ' ', 'f', '(', 'g', '(', 'x', ')', ')'] ∧
      (Ending.ofText ['@', 'm', ' ', 'f', '(', 'g', '(', 'x', ')', ')']).fault?
        ['@', 'm', ' ', 'f', '(', 'g', '(', 'x', ')', ')'] none = none := by
  refine ⟨by decide, ?_⟩
  apply (read_openEnd_iff_of_isComplete ['@', 'm', ' ', 'f', '(', 'g', '(', 'x', ')', ')'] none
    (by decide)).1.mpr
  exact ⟨Or.inl rfl, .round, by decide⟩

/-- A function that ends a value and the block around it are both closed, by different marks. -/
theorem read_openEnd_at_mixed_closers :
    IsComplete ['a', '{', 'b', ':', 'c', '(', 'd', ')', '}'] ∧
      read ['a', '{', 'b', ':', 'c', '(', 'd', ')', '}'] none =
        .error (.fault ⟨.blockOpen .round, ⟨1, 5⟩, none⟩) :=
  ⟨by decide, rfl⟩

/-- A truncated text is refused as a style sheet unless an oversized integer comes first, or it
looks complete and the rules in it have no fault. -/
theorem read_fault_iff_of_not_isComplete (text : Text) (label : Option Text)
    (truncated : ¬ IsComplete (Source.normalize text)) :
    ((∃ fault, read text label = .error (.fault fault)) ↔
        Reading.oversizedIn? (Source.normalize text) = none ∧
          (¬ Ending.LooksComplete (Source.normalize text) ∨
            ∃ fault, Reading.rulesIn (Source.normalize text) label = .error fault)) ∧
      ((∃ sheet, read text label = .ok sheet) ↔
        Reading.oversizedIn? (Source.normalize text) = none ∧
          Ending.LooksComplete (Source.normalize text) ∧
            ∃ rules, Reading.rulesIn (Source.normalize text) label = .ok rules) := by
  have passes := Ending.fault?_eq_none_iff_of_not_isComplete (Source.normalize text) label truncated
  constructor
  · constructor
    · rintro ⟨fault, refused⟩
      obtain ⟨small, seen | ⟨_, later⟩⟩ := (read_eq_fault_iff text label fault).mp refused
      · refine ⟨small, Or.inl ?_⟩
        intro looks
        rw [passes.mpr looks] at seen
        cases seen
      · exact ⟨small, Or.inr ⟨fault, later⟩⟩
    · rintro ⟨small, late⟩
      cases seen : (Ending.ofText (Source.normalize text)).fault? (Source.normalize text) label with
      | some fault => exact ⟨fault, (read_eq_fault_iff text label fault).mpr ⟨small, Or.inl seen⟩⟩
      | none =>
          obtain ⟨fault, later⟩ := late.resolve_left (fun looks => looks (passes.mp seen))
          exact ⟨fault, (read_eq_fault_iff text label fault).mpr ⟨small, Or.inr ⟨seen, later⟩⟩⟩
  · rw [exists_read_eq_ok_iff, passes]

theorem read_fault_at_missing_closer :
    ¬ IsComplete ['a', '{', 'b', ':', 'c', ';'] ∧
      ∃ fault, read ['a', '{', 'b', ':', 'c', ';'] none = .error (.fault fault) := by
  have truncated : ¬ IsComplete ['a', '{', 'b', ':', 'c', ';'] := by decide
  refine ⟨truncated, ?_⟩
  apply (read_fault_iff_of_not_isComplete ['a', '{', 'b', ':', 'c', ';'] none truncated).1.mpr
  refine ⟨rfl, Or.inl ?_⟩
  intro looks
  have passes := (Ending.fault?_eq_none_iff_of_not_isComplete _ none truncated).mpr looks
  revert passes
  decide

/-- The last character is escaped and closes nothing. -/
theorem read_ok_at_escaped_closer :
    ¬ IsComplete ['@', 'm', 'e', 'd', 'i', 'a', '{', '\\', '}'] ∧
      read ['@', 'm', 'e', 'd', 'i', 'a', '{', '\\', '}'] none =
        .ok ⟨some [⟨['m', 'e', 'd', 'i', 'a'], none, none⟩], none⟩ :=
  ⟨by decide, rfl⟩

end Stylesheet

end SheetCensus
