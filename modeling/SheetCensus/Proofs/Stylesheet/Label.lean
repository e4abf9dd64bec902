import SheetCensus.Proofs.Report.Grammar
import SheetCensus.Proofs.Stylesheet.Reading

set_option autoImplicit false

/-! Reading under a label. Every stage hands the label on and raises its faults under it, without
looking at it: under another label it comes to the same result, with a fault that has the other
label (`Reading.rule_under` and the lemmas around it). So two readings of one text, with a label and
without, agree but for the label and the beginning of a message (`Stylesheet.read_isLabelled`). -/

namespace SheetCensus

open Css

def Fault.under (label : Option Text) (fault : Fault) : Fault :=
  { fault with label := label }

/-! ### Where faults are raised -/

variable (label other : Option Text)

namespace Ending

theorem openBlock?_under (reversed tail : Text) (blocks : List (Position × Bracket)) :
    openBlock? label reversed tail blocks =
      (openBlock? other reversed tail blocks).map (Fault.under label) := by
  induction blocks generalizing tail with
  | nil => rfl
  | cons block outer ih =>
      obtain ⟨position, bracket⟩ := block
      unfold openBlock?
      dsimp only
      by_cases fits : (bracket.closing :: tail).isPrefixOf reversed = true
      · rw [if_pos fits, if_pos fits, ih]
      · rw [if_neg fits, if_neg fits]
        rfl

theorem fault?_under (ending : Ending) (text : Text) :
    ending.fault? text label = (ending.fault? text other).map (Fault.under label) := by
  have blocks := openBlock?_under label other text.reverse (commentTail ending.comment)
    ending.blocks
  unfold fault?
  dsimp only
  cases comment : ending.comment with
  | none =>
      rw [comment] at blocks
      exact blocks
  | some placed =>
      rw [comment] at blocks
      dsimp only
      by_cases fits : (commentTail (some placed)).isPrefixOf text.reverse = true
      · rw [if_pos fits, if_pos fits]
        exact blocks
      · rw [if_neg fits, if_neg fits]
        rfl

end Ending

namespace Reading

theorem checkTokens_under (tokens : List Token) :
    checkTokens label tokens = (checkTokens other tokens).mapError (Fault.under label) := by
  induction tokens with
  | nil => rfl
  | cons token rest ih =>
      unfold checkTokens
      cases token.error? with
      | some found => rfl
      | none => exact ih

theorem declarations_under (source : Source) (items : List Item) :
    declarations source label items =
      (declarations source other items).mapError (Fault.under label) := by
  induction items with
  | nil => rfl
  | cons item rest ih =>
      cases item with
      | faulty error position => rfl
      | atRule => exact ih
      | declaration name value =>
          unfold declarations
          rw [checkTokens_under label other, ih]
          cases checkTokens other value with
          | error fault => rfl
          | ok => cases declarations source other rest <;> rfl

theorem atRuleDeclarations_under (source : Source) (keyword : Text) (body : Option (List Token)) :
    atRuleDeclarations source label keyword body =
      (atRuleDeclarations source other keyword body).mapError (Fault.under label) := by
  cases body with
  | none => rfl
  | some content =>
      unfold atRuleDeclarations
      dsimp only
      by_cases holds : holdsDeclarations keyword = true
      · rw [if_pos holds, if_pos holds, declarations_under label other]
        cases declarations source other (items content) <;> rfl
      · rw [if_neg holds, if_neg holds]
        rfl

theorem rule_under (source : Source) (construct : Construct) :
    rule source label construct = (rule source other construct).mapError (Fault.under label) := by
  cases construct with
  | unfinished position => rfl
  | styleRule position prelude body =>
      unfold rule
      dsimp only
      rw [checkTokens_under label other]
      cases checkTokens other prelude with
      | error fault => rfl
      | ok =>
          dsimp only [Except.mapError]
          cases Selector.list prelude with
          | nil => rfl
          | cons selector more =>
              dsimp only
              rw [declarations_under label other]
              cases declarations source other (items body) <;> rfl
  | atRule position keyword prelude body =>
      unfold rule
      dsimp only
      rw [checkTokens_under label other, atRuleDeclarations_under label other]
      cases checkTokens other prelude with
      | error fault => rfl
      | ok => cases atRuleDeclarations source other keyword.lower body <;> rfl

theorem rules_under (source : Source) (constructs : List Construct) :
    rules source label constructs =
      (rules source other constructs).mapError (Fault.under label) := by
  induction constructs with
  | nil => rfl
  | cons construct rest ih =>
      unfold rules
      rw [rule_under label other, ih]
      cases rule source other construct with
      | error fault => rfl
      | ok found => cases rules source other rest <;> rfl

theorem rulesIn_under (text : Text) :
    rulesIn text label = (rulesIn text other).mapError (Fault.under label) :=
  rules_under label other _ _

end Reading

/-! ### Diagnostics -/

/-- The same diagnostic with a label: it has the same place, and label and place stand in front of
its text unless the label is empty. -/
structure Diagnostic.IsLabelled (label : Text) (bare told : Diagnostic) : Prop where
  labels : bare.label = none ∧ told.label = some label
  line_eq : told.line = bare.line
  column_eq : told.column = bare.column
  text_of_empty : label = [] → told.text = bare.text
  text_of_filled : label ≠ [] → ∃ line column : Int, bare.line = some line ∧
    bare.column = some column ∧
      told.text = label ++ [':'] ++ (toString line).toList ++ [':'] ++ (toString column).toList ++
        [':', ' '] ++ bare.text

theorem Fault.under_isLabelled (label : Text) (fault : Fault) :
    (fault.under none).diagnostic.IsLabelled label (fault.under (some label)).diagnostic where
  labels := ⟨rfl, rfl⟩
  line_eq := rfl
  column_eq := rfl
  text_of_empty := by
    intro empty
    rw [empty]
    rfl
  text_of_filled := by
    intro filled
    refine ⟨fault.position.line, fault.position.column, rfl, rfl, ?_⟩
    rw [← Text.ofInt_eq_toString, ← Text.ofInt_eq_toString]
    cases label with
    | nil => exact absurd rfl filled
    | cons c rest => rfl

/-! ### Answers -/

def answerUnder (label : Option Text) : Except Refusal Stylesheet → Except Refusal Stylesheet
  | .ok sheet => .ok ⟨sheet.rules, label⟩
  | .error (.fault fault) => .error (.fault (fault.under label))
  | .error (.oversized digits) => .error (.oversized digits)

namespace Stylesheet

theorem read_under (text : Text) : read text label = answerUnder label (read text other) := by
  rw [read_eq text label, read_eq text other]
  cases Reading.oversizedIn? (Source.normalize text) with
  | some digits => rfl
  | none =>
      dsimp only
      rw [Ending.fault?_under label other, Reading.rulesIn_under label other]
      cases (Ending.ofText (Source.normalize text)).fault? (Source.normalize text) other with
      | some fault => rfl
      | none => cases Reading.rulesIn (Source.normalize text) other <;> rfl

theorem exists_read_iff (text : Text) :
    (∃ sheet, read text label = .ok sheet) ↔ ∃ sheet, read text other = .ok sheet := by
  rw [read_under label other]
  cases read text other with
  | ok sheet => exact ⟨fun _ => ⟨_, rfl⟩, fun _ => ⟨_, rfl⟩⟩
  | error refusal => cases refusal <;> exact ⟨nofun, nofun⟩

theorem exists_fault_iff (text : Text) :
    (∃ fault, read text label = .error (.fault fault)) ↔
      ∃ fault, read text other = .error (.fault fault) := by
  rw [read_under label other]
  cases read text other with
  | ok sheet => exact ⟨nofun, nofun⟩
  | error refusal =>
      cases refusal with
      | fault fault => exact ⟨fun _ => ⟨_, rfl⟩, fun _ => ⟨_, rfl⟩⟩
      | oversized digits => exact ⟨nofun, nofun⟩

/-- The answers to one text without a label and with one: the same rules in a sheet that has the
label, the same cause in a labelled diagnostic, or an integer of one length. -/
inductive IsLabelled (label : Text) :
    Except Refusal Stylesheet → Except Refusal Stylesheet → Prop
  | ok (rules : Option (List Rule)) :
      IsLabelled label (.ok ⟨rules, none⟩) (.ok ⟨rules, some label⟩)
  | fault {bare told : Fault} (cause_eq : told.cause = bare.cause)
      (shown : bare.diagnostic.IsLabelled label told.diagnostic) :
      IsLabelled label (.error (.fault bare)) (.error (.fault told))
  | oversized (digits : Nat) :
      IsLabelled label (.error (.oversized digits)) (.error (.oversized digits))

/-- A label changes nothing but the label of the sheet and the beginning of a message. -/
theorem read_isLabelled (text label : Text) :
    IsLabelled label (read text none) (read text (some label)) := by
  rw [read_under (some label) none, read_under none none]
  cases read text none with
  | ok sheet => exact .ok sheet.rules
  | error refusal =>
      cases refusal with
      | fault fault => exact .fault rfl (fault.under_isLabelled label)
      | oversized digits => exact .oversized digits

end Stylesheet

end SheetCensus
