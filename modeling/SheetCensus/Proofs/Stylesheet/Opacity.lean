import SheetCensus.Census.Count
import SheetCensus.Proofs.Css.Opacity
import SheetCensus.Proofs.Source.Normalization
import SheetCensus.Proofs.Stylesheet.Joining
import SheetCensus.Proofs.Stylesheet.Label

set_option autoImplicit false

/-! What stands in the block of an at-rule. The rules inside such a block are not looked at, so the
block comes to one rule without selectors and declarations whatever it holds
(`Stylesheet.read_withBlock`), and two texts that differ only in what it holds have the same answer,
up to the place of a fault behind it (`Stylesheet.read_opaque`). -/

namespace SheetCensus

open Css

/-! ### The rules -/

def Rule.bare (name : Text) : Rule :=
  ⟨name.lower, none, none⟩

namespace Reading

theorem rule_bare (source : Source) (label : Option Text) (position : Position) (name : Text)
    (prelude : List Token) (body : Option (List Token))
    (nested : holdsDeclarations name.lower = false)
    (blank : prelude = [] ∨ ∃ place, prelude = [.leaf place (.whitespace [' '])]) :
    rule source label (.atRule position name prelude body) = .ok (.bare name) := by
  have checked : checkTokens label prelude = .ok () := by
    rcases blank with rfl | ⟨place, rfl⟩
    · rfl
    · rfl
  have skipped : atRuleDeclarations source label name.lower body = .ok none := by
    unfold atRuleDeclarations
    cases body with
    | none => rfl
    | some content =>
        dsimp only
        rw [if_neg (by rw [nested]; exact Bool.false_ne_true)]
  rw [rule, checked, skipped]
  rfl

variable {front keyword name content back : Text} (top : EndsAtTop front)
  (spelled : SpellsKeyword keyword name)

include top spelled

theorem oversizedIn?_withBlock (small : oversizedIn? front = none)
    (smallInside : oversizedIn? (content ++ ['}']) = none) :
    oversizedIn? (withBlock front keyword content) = none := by
  obtain ⟨source, blank, short, cut⟩ := spelled.pieces_eq top
  rw [oversizedIn?_eq_none_iff] at small smallInside ⊢
  have whole : pieces (withBlock front keyword content) = pieces front ++
      ⟨source, .leaf (.atKeyword name)⟩ :: blank ++
        ⟨['{'], .opener (.bracket .curly)⟩ :: pieces (content ++ ['}']) := by
    rw [← cut, withBlock, List.append_assoc _ content]
  have blank_small : ∀ piece ∈ blank, oversized? piece.lexeme = none := by
    rcases short with rfl | rfl
    · simp
    · simp [oversized?, numeral?]
  rw [whole]
  simp only [List.forall_mem_append, List.forall_mem_cons]
  exact ⟨⟨small, rfl, blank_small⟩, rfl, smallInside⟩

/-- Whatever the block holds, up to its end there is one rule more than in front of it. -/
theorem rulesIn_withBlock (held : HoldsBlock front keyword content back)
    (nested : holdsDeclarations name.lower = false) (label : Option Text) (found : List Rule)
    (fine : rulesIn front label = .ok found) :
    rulesIn (withBlock front keyword content) label = .ok (found ++ [.bare name]) := by
  obtain ⟨position, prelude, body, blank, divided⟩ := held.constructs_eq top spelled
  have first : rules (Source.ofNormalized (withBlock front keyword content)) label
      (constructs (nest (withoutComments (lexemes front)))) = .ok found := by
    have longer : withBlock front keyword content =
        front ++ ('@' :: keyword ++ [' ', '{'] ++ content ++ ['}']) := by
      simp [withBlock]
    rw [longer]
    exact rules_within front _ label found fine
  unfold rulesIn
  rw [divided, rules_append _ label _ _ found first, rules, rule_bare _ _ _ _ _ _ nested blank]
  rfl

end Reading

/-! ### The answers -/

/-- Two answers that tell the same: one style sheet, faults with one message, or an integer of one
length. -/
inductive SameAnswer : Except Refusal Stylesheet → Except Refusal Stylesheet → Prop
  | ok (sheet : Stylesheet) : SameAnswer (.ok sheet) (.ok sheet)
  | fault {fault other : Fault} (same : other.cause.message = fault.cause.message) :
      SameAnswer (.error (.fault fault)) (.error (.fault other))
  | oversized (digits : Nat) :
      SameAnswer (.error (.oversized digits)) (.error (.oversized digits))

namespace SameAnswer

theorem symm {answer other : Except Refusal Stylesheet} (same : SameAnswer answer other) :
    SameAnswer other answer := by
  cases same with
  | ok sheet => exact .ok sheet
  | fault same => exact .fault same.symm
  | oversized digits => exact .oversized digits

theorem trans {answer other third : Except Refusal Stylesheet} (same : SameAnswer answer other)
    (sameToo : SameAnswer other third) : SameAnswer answer third := by
  cases same with
  | ok sheet => exact sameToo
  | oversized digits => exact sameToo
  | fault same =>
      cases sameToo with
      | fault sameToo => exact .fault (sameToo.trans same)

end SameAnswer

theorem normalize_withBlock (front keyword content back : Text) :
    Source.normalize (withBlock front keyword content ++ back) =
      withBlock (Source.normalize front) (Source.normalize keyword) (Source.normalize content) ++
        Source.normalize back := by
  have parted : withBlock front keyword content ++ back =
      front ++ '@' :: (keyword ++ ' ' :: '{' :: (content ++ '}' :: back)) := by
    simp [withBlock]
  have sign : Source.IsNormal '@' := ⟨by decide, by decide, by decide⟩
  have blank : Source.IsNormal ' ' := ⟨by decide, by decide, by decide⟩
  have opening : Source.IsNormal '{' := ⟨by decide, by decide, by decide⟩
  have closing : Source.IsNormal '}' := ⟨by decide, by decide, by decide⟩
  rw [parted, Source.normalize_append_cons _ _ _ (by decide), Source.normalize_cons _ _ sign,
    Source.normalize_append_cons _ _ _ (by decide), Source.normalize_cons _ _ blank,
    Source.normalize_cons _ _ opening, Source.normalize_append_cons _ _ _ (by decide),
    Source.normalize_cons _ _ closing]
  simp [withBlock]

namespace Stylesheet

/-- Behind a text that ends at the top a block with a keyword adds one rule, and the text behind the
block is read, or refused, as if it stood alone. -/
theorem read_withBlock (front keyword name content back : Text) (label : Option Text)
    (sheet : Stylesheet) (fine : read front label = .ok sheet)
    (top : EndsAtTop (Source.normalize front))
    (spelled : SpellsKeyword (Source.normalize keyword) name)
    (nested : Reading.holdsDeclarations name.lower = false) (filled : back ≠ [])
    (small : Reading.oversizedIn? (Source.normalize (content ++ ['}'])) = none)
    (held : HoldsBlock (Source.normalize front) (Source.normalize keyword)
      (Source.normalize content) (Source.normalize back)) :
    SameAnswer
      ((read back label).map
        (fun rest => ⟨some (sheet.ruleList ++ .bare name :: rest.ruleList), label⟩))
      (read (withBlock front keyword content ++ back) label) := by
  obtain ⟨smallFront, _, found, made, rfl⟩ := (read_eq_ok_iff front label sheet).mp fine
  have ends := held.endsWithBlock top spelled
  have smallInside :
      Reading.oversizedIn? (Source.normalize content ++ ['}']) = none := by
    rw [Source.normalize_append_cons _ _ _ (by decide)] at small
    exact small
  have noBig := Reading.oversizedIn?_withBlock top spelled smallFront smallInside
  have alike := Reading.answerIn_behind _ (Source.normalize back) label ends
    (Source.normalize_ne_nil back filled) _
    (Reading.rulesIn_withBlock top spelled held nested label found made)
  rw [read_eq_answerIn back, read_eq_answerIn (withBlock front keyword content ++ back),
    normalize_withBlock, Reading.oversizedIn?_append _ _ ends, noBig, Option.none_or, ruleList_mk]
  generalize Reading.answerIn (Source.normalize back) label = answer,
    Reading.answerIn (withBlock (Source.normalize front) (Source.normalize keyword)
      (Source.normalize content) ++ Source.normalize back) label = other at alike ⊢
  cases Reading.oversizedIn? (Source.normalize back) with
  | some digits => exact .oversized digits
  | none =>
      cases answer with
      | error fault =>
          cases alike with
          | error faults => exact .fault (congrArg Cause.message faults.cause_eq)
      | ok rest =>
          cases alike with
          | ok _ =>
              have joined :
                  found ++ [Rule.bare name] ++ rest = found ++ Rule.bare name :: rest := by
                simp
              have notNone : ¬ (found ++ Rule.bare name :: rest).isEmpty = true := by simp
              change SameAnswer (.ok ⟨some (found ++ Rule.bare name :: ruleList _), label⟩)
                (.ok ⟨if (found ++ [Rule.bare name] ++ rest).isEmpty then none
                  else some (found ++ [Rule.bare name] ++ rest), label⟩)
              rw [ruleList_mk, joined, if_neg notNone]
              exact .ok _

end Stylesheet

def Record.counters (record : Record) : List Int :=
  [record.emptyStylesheet, record.backgroundSelectors, record.colorSelectors,
    record.backgroundIsOverriddenWithImage, record.error]

theorem Record.counters_takeIn (record : Record) (text other : Text) (digestLength : Int)
    (same : SameAnswer (Stylesheet.read text none) (Stylesheet.read other none)) :
    (record.takeIn other digestLength).map counters =
      (record.takeIn text digestLength).map counters := by
  unfold takeIn
  generalize Stylesheet.read text none = answer, Stylesheet.read other none = answerToo at same ⊢
  cases same with
  | ok sheet => rfl
  | fault _ => rfl
  | oversized digits => rfl

namespace Stylesheet

/-- What is written in the block of an at-rule that does not hold declarations changes neither the
answer nor a counter, as long as the block still ends where it does and no integer in it is too
long. -/
theorem read_opaque (front keyword name back left right : Text)
    (fine : ∃ sheet, read front none = .ok sheet) (top : EndsAtTop (Source.normalize front))
    (spelled : SpellsKeyword (Source.normalize keyword) name)
    (nested : name.lower ≠ "font-face".toList ∧ name.lower ≠ "page".toList) (filled : back ≠ [])
    (each : ∀ content ∈ [left, right],
      Reading.oversizedIn? (Source.normalize (content ++ ['}'])) = none ∧
        HoldsBlock (Source.normalize front) (Source.normalize keyword)
          (Source.normalize content) (Source.normalize back)) :
    (∀ label, SameAnswer (read (withBlock front keyword left ++ back) label)
      (read (withBlock front keyword right ++ back) label)) ∧
    ∀ (record : Record) (digestLength : Int),
      (record.takeIn (withBlock front keyword left ++ back) digestLength).map Record.counters =
        (record.takeIn (withBlock front keyword right ++ back) digestLength).map
          Record.counters := by
  have skipped : Reading.holdsDeclarations name.lower = false := by
    unfold Reading.holdsDeclarations
    rw [beq_false_of_ne nested.1, beq_false_of_ne nested.2]
    rfl
  have same (label : Option Text) : SameAnswer (read (withBlock front keyword left ++ back) label)
      (read (withBlock front keyword right ++ back) label) := by
    obtain ⟨sheet, made⟩ := (exists_read_iff label none front).mpr fine
    have alone (content : Text) (member : content ∈ [left, right]) :=
      read_withBlock front keyword name content back label sheet made top spelled skipped filled
        (each content member).1 (each content member).2
    exact (alone left (by simp)).symm.trans (alone right (by simp))
  exact ⟨same, fun record digestLength =>
    Record.counters_takeIn record _ _ digestLength (same none).symm⟩

/-- A bracket in quotes closes nothing; the one behind the block begins a rule that has no block. -/
theorem read_opaque_at_quoted_bracket :
    read ['a', '{', '}', '@', 'm', ' ', '{', '}', '}'] none =
        .error (.fault ⟨.blockMissing, ⟨1, 9⟩, none⟩) ∧
      SameAnswer (read ['a', '{', '}', '@', 'm', ' ', '{', '}', '}'] none)
        (read ['a', '{', '}', '@', 'm', ' ', '{', '"', '}', '"', '}', '}'] none) := by
  have headed : pieces ['a', '{', '}', '@', 'm', ' ', '{', '}', '}'] =
      pieces ['a', '{', '}', '@', 'm', ' '] ++ pieces ['{', '}', '}'] := rfl
  have quoted : pieces ['a', '{', '}', '@', 'm', ' ', '{', '"', '}', '"', '}', '}'] =
      pieces ['a', '{', '}', '@', 'm', ' '] ++ pieces ['{', '"', '}', '"', '}', '}'] := rfl
  have held : HoldsBlock ['a', '{', '}'] ['m'] [] ['}'] :=
    ⟨_, _, ⟨_, headed, rfl, rfl⟩, pieces ['a', '{', '}', '@', 'm', ' ', '{'], rfl, rfl, rfl⟩
  have heldToo : HoldsBlock ['a', '{', '}'] ['m'] ['"', '}', '"'] ['}'] :=
    ⟨_, _, ⟨_, quoted, rfl, rfl⟩,
      pieces ['a', '{', '}', '@', 'm', ' ', '{', '"', '}', '"'], rfl, rfl, rfl⟩
  have same := read_opaque ['a', '{', '}'] ['m'] ['m'] ['}'] [] ['"', '}', '"'] ⟨_, rfl⟩
    (Or.inr ⟨rfl, _, _, rfl⟩) ⟨_, _, Or.inr rfl, rfl⟩ ⟨by decide, by decide⟩ (by decide)
    (by
      simp only [List.forall_mem_cons]
      exact ⟨⟨rfl, held⟩, ⟨rfl, heldToo⟩, by simp⟩)
  exact ⟨rfl, same.1 none⟩

end Stylesheet

end SheetCensus
