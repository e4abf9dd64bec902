import SheetCensus.Proofs.Css.Likeness
import SheetCensus.Stylesheet.Reading

set_option autoImplicit false

/-! Reading what differs in places only. Written out, like tokens give the same text, and a value
looks back at the source only for the first characters of an address. So where the sources agree
at addresses, like constructs become the same rules, or are refused for the same cause at places
that go together (`Reading.rules_alike`). -/

namespace SheetCensus

open Css

variable {same : Kind → Position → Position → Prop}

/-! ### Written out -/

namespace Css

mutual

theorem tokenText_alike : ∀ token other : Token, token.Alike same other →
    tokenText other = tokenText token
  | .leaf _ _, _, .leaf _ => rfl
  | .block _ _ content, .block _ _ others, .block _ inside => by
      rw [tokenText, tokenText, tokensTextAfter_alike none content others inside]

theorem tokensTextAfter_alike : ∀ (left : Option Kind) (tokens others : List Token),
    AllAlike same tokens others → tokensTextAfter left others = tokensTextAfter left tokens
  | _, [], [], .nil => rfl
  | left, token :: rest, twin :: others, .cons first alike => by
      rw [tokensTextAfter, tokensTextAfter, first.kind_eq, tokenText_alike token twin first,
        tokensTextAfter_alike _ rest others alike]

end

theorem tokensText_alike {tokens others : List Token} (all : AllAlike same tokens others) :
    tokensText others = tokensText tokens :=
  tokensTextAfter_alike none tokens others all

end Css

namespace Selector

theorem groups_alike {tokens others : List Token} (all : AllAlike same tokens others) :
    List.Forall₂ (AllAlike same) (groups tokens) (groups others) := by
  unfold AllAlike at all
  induction all with
  | nil => exact .cons .nil .nil
  | @cons token twin rest others first _ ih =>
      unfold groups
      rw [first.isLiteral_eq]
      split
      · exact .cons .nil ih
      · generalize groups rest = parts, groups others = partsToo at ih ⊢
        cases ih with
        | nil => exact .cons (.cons first .nil) .nil
        | cons group more => exact .cons (.cons first group) more

theorem list_alike {tokens others : List Token} (all : AllAlike same tokens others) :
    list others = list tokens := by
  have texts : (groups others).map text = (groups tokens).map text := by
    have parts := groups_alike all
    generalize groups tokens = found, groups others = foundToo at parts ⊢
    induction parts with
    | nil => rfl
    | cons group _ ih =>
        rw [List.map_cons, List.map_cons, ih, text, text, tokensText_alike group]
  unfold list
  rw [texts]

end Selector

/-! ### The chain of last tokens -/

namespace Ending

structure Alike (same : Kind → Position → Position → Prop) (ending other : Ending) : Prop where
  blocks : List.Forall₂ (fun block twin => twin.2 = block.2 ∧ Together same block.1 twin.1)
    ending.blocks other.blocks
  comment : Option.Rel (fun comment twin => twin.2 = comment.2 ∧ Together same comment.1 twin.1)
    ending.comment other.comment

theorem empty_alike : Alike same empty empty :=
  ⟨.nil, .none⟩

theorem Alike.inside {ending other : Ending} (alike : ending.Alike same other)
    {position place : Position} (together : Together same position place) (bracket : Bracket) :
    (ending.inside position bracket).Alike same (other.inside place bracket) :=
  ⟨List.rel_append alike.blocks (.cons ⟨rfl, together⟩ .nil), alike.comment⟩

mutual

theorem ofToken_alike : ∀ token other : Token, token.Alike same other →
    (ofToken token).Alike same (ofToken other)
  | .leaf _ leaf, _, .leaf together => by
      cases leaf with
      | comment body => exact ⟨.nil, .some ⟨rfl, _, together⟩⟩
      | _ => exact empty_alike
  | .block _ opener content, .block _ _ others, .block together inside =>
      (ofTokens_alike content others inside).inside ⟨_, together⟩ opener.closedBy

theorem ofTokens_alike : ∀ tokens others : List Token, AllAlike same tokens others →
    (ofTokens tokens).Alike same (ofTokens others)
  | [], [], .nil => empty_alike
  | [token], [twin], .cons first .nil => ofToken_alike token twin first
  | _ :: second :: rest, _ :: twin :: others, .cons _ alike =>
      ofTokens_alike (second :: rest) (twin :: others) alike

end

end Ending

/-! ### Read -/

structure Fault.Alike (same : Kind → Position → Position → Prop) (fault other : Fault) : Prop where
  cause_eq : other.cause = fault.cause
  together : Together same fault.position other.position
  label_eq : other.label = fault.label

inductive AnswerAlike (same : Kind → Position → Position → Prop) {α : Type} :
    Except Fault α → Except Fault α → Prop
  | ok (value : α) : AnswerAlike same (.ok value) (.ok value)
  | error {fault other : Fault} (alike : fault.Alike same other) :
      AnswerAlike same (.error fault) (.error other)

theorem AnswerAlike.eq_ok {α : Type} {answer other : Except Fault α}
    (alike : AnswerAlike same answer other) {value : α} (fine : answer = .ok value) :
    other = .ok value := by
  cases alike with
  | ok _ => exact fine
  | error _ => cases fine

theorem AnswerAlike.map {α β : Type} {answer other : Except Fault α}
    (alike : AnswerAlike same answer other) (change : α → β) :
    AnswerAlike same (answer.map change) (other.map change) := by
  cases alike with
  | ok value => exact .ok (change value)
  | error faults => exact .error faults

namespace Reading

/-- The sources have the same three characters at the places of an address. -/
def AddressesAgree (same : Kind → Position → Position → Prop) (source other : Source) : Prop :=
  ∀ position place, same .url position place →
    other.slice (other.offset place) 3 = source.slice (source.offset position) 3

variable (label : Option Text)

theorem checkTokens_alike {tokens others : List Token} (all : AllAlike same tokens others) :
    AnswerAlike same (checkTokens label tokens) (checkTokens label others) := by
  unfold AllAlike at all
  induction all with
  | nil => exact .ok ()
  | @cons token twin rest others first _ ih =>
      unfold checkTokens
      cases first with
      | @leaf position other leaf together =>
          cases leaf with
          | error error => exact .error ⟨rfl, ⟨_, together⟩, rfl⟩
          | _ => exact ih
      | block _ _ => exact ih

theorem find?_alike {tokens others : List Token} (all : AllAlike same tokens others) :
    Option.Rel (Token.Alike same) (tokens.find? (fun token => !token.isInsignificant))
      (others.find? (fun token => !token.isInsignificant)) := by
  unfold AllAlike at all
  induction all with
  | nil => exact .none
  | @cons token twin rest others first _ ih =>
      rw [List.find?_cons, List.find?_cons, first.isInsignificant_eq]
      split
      · exact .some first
      · exact ih

variable {source other : Source} (agree : AddressesAgree same source other)

include agree

theorem valueText_alike {tokens others : List Token} (all : AllAlike same tokens others) :
    valueText other others = valueText source tokens := by
  have first := find?_alike all
  unfold valueText
  dsimp only
  rw [tokensText_alike all]
  generalize tokens.find? (fun token => !token.isInsignificant) = found,
    others.find? (fun token => !token.isInsignificant) = foundToo at first ⊢
  cases first with
  | none => rfl
  | some alike =>
      cases alike with
      | @leaf position place leaf together =>
          cases leaf with
          | url value closed =>
              dsimp only
              rw [agree position place together]
          | _ => rfl
      | block _ _ => rfl

theorem declarations_alike {items others : List Item}
    (all : List.Forall₂ (Item.Alike same) items others) :
    AnswerAlike same (declarations source label items) (declarations other label others) := by
  induction all with
  | nil => exact .ok []
  | @cons item twin rest others first _ ih =>
      cases first with
      | faulty together => exact .error ⟨rfl, together, rfl⟩
      | atRule => exact ih
      | @declaration name value valueToo values =>
          have checked := checkTokens_alike label values
          unfold declarations
          rw [valueText_alike agree values]
          generalize checkTokens label value = answer, checkTokens label valueToo = answerToo
            at checked ⊢
          cases checked with
          | error faults => exact .error faults
          | ok _ =>
              dsimp only
              generalize declarations source label rest = later,
                declarations other label others = laterToo at ih ⊢
              cases ih with
              | error faults => exact .error faults
              | ok found => exact .ok _

theorem atRuleDeclarations_alike (keyword : Text) {body bodyToo : Option (List Token)}
    (bodies : Option.Rel (AllAlike same) body bodyToo) :
    AnswerAlike same (atRuleDeclarations source label keyword body)
      (atRuleDeclarations other label keyword bodyToo) := by
  cases bodies with
  | none => exact .ok none
  | some content =>
      unfold atRuleDeclarations
      dsimp only
      split
      · exact (declarations_alike label agree (items_alike content)).map some
      · exact .ok none

theorem rule_alike {construct twin : Construct} (alike : construct.Alike same twin) :
    AnswerAlike same (rule source label construct) (rule other label twin) := by
  cases alike with
  | unfinished together => exact .error ⟨rfl, together, rfl⟩
  | @styleRule position place prelude preludeToo body bodyToo together preludes bodies =>
      have checked := checkTokens_alike label preludes
      have content := declarations_alike label agree (items_alike bodies)
      unfold rule
      dsimp only
      rw [Selector.list_alike preludes]
      generalize checkTokens label prelude = answer, checkTokens label preludeToo = answerToo
        at checked ⊢
      cases checked with
      | error faults => exact .error faults
      | ok _ =>
          dsimp only
          cases Selector.list prelude with
          | nil => exact .error ⟨rfl, together, rfl⟩
          | cons selector more => exact content.map _
  | @atRule position place keyword prelude preludeToo body bodyToo preludes bodies =>
      have checked := checkTokens_alike label preludes
      have content := atRuleDeclarations_alike label agree keyword.lower bodies
      unfold rule
      dsimp only
      generalize checkTokens label prelude = answer, checkTokens label preludeToo = answerToo
        at checked ⊢
      cases checked with
      | error faults => exact .error faults
      | ok _ => exact content.map _

theorem rules_alike {constructs others : List Construct}
    (all : List.Forall₂ (Construct.Alike same) constructs others) :
    AnswerAlike same (rules source label constructs) (rules other label others) := by
  induction all with
  | nil => exact .ok []
  | @cons construct twin rest others first _ ih =>
      have here := rule_alike label agree first
      unfold rules
      generalize rule source label construct = answer, rule other label twin = answerToo at here ⊢
      cases here with
      | error faults => exact .error faults
      | ok found =>
          dsimp only
          generalize rules source label rest = later, rules other label others = laterToo at ih ⊢
          cases ih with
          | error faults => exact .error faults
          | ok more => exact .ok _

end Reading

end SheetCensus
