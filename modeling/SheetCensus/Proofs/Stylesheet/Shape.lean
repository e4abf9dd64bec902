import SheetCensus.Proofs.Css.Spelling
import SheetCensus.Proofs.Source.Offset
import SheetCensus.Proofs.Stylesheet.Acceptance
import SheetCensus.Proofs.Text.Blank

set_option autoImplicit false

/-! What the rules of a style sheet look like. Every rule that is read is a style rule with
selectors or an at-rule without (`Stylesheet.read_isShaped`). Selectors are shaped by collapsing and
values by trimming; a value that takes its first characters from the source stays trimmed, because
an address begins at the place of its token (`Reading.isTrimmed_valueText`). -/

namespace SheetCensus

open Css

/-- The property is not empty, and no blank stands at either end of the value. -/
structure Declaration.IsShaped (declaration : Declaration) : Prop where
  property_ne_nil : declaration.property ≠ []
  value_isTrimmed : declaration.value.IsTrimmed

/-- A style rule has selectors, an at-rule has none; only the at-rules of two types have
declarations. -/
inductive Rule.IsShaped : Rule → Prop
  | styleRule {selectors : List Text} {declarations : List Declaration}
      (selected : selectors ≠ []) (spaced : ∀ selector ∈ selectors, selector.IsSpaced)
      (declared : ∀ declaration ∈ declarations, declaration.IsShaped) :
      Rule.IsShaped ⟨Rule.styleType, some selectors, some declarations⟩
  | atRule {type : Text} {declarations : Option (List Declaration)}
      (named : type ≠ []) (lowered : ∀ c ∈ type, ¬ IsCapital c)
      (typed : declarations ≠ none → type = "font-face".toList ∨ type = "page".toList)
      (declared : ∀ list, declarations = some list → ∀ declaration ∈ list, declaration.IsShaped) :
      Rule.IsShaped ⟨type, none, declarations⟩

theorem Text.not_isCapital_of_mem_lower (text : Text) : ∀ c ∈ text.lower, ¬ IsCapital c := by
  intro c member
  obtain ⟨before, _, rfl⟩ := List.mem_map.mp member
  by_cases capital : IsCapital before
  · exact (isCapitalOf_toLower capital).not_isCapital
  · rw [toLower_eq_self capital]
    exact capital

theorem Selector.isSpaced_of_mem_list (prelude : List Token) :
    ∀ selector ∈ Selector.list prelude, selector.IsSpaced := by
  intro selector member
  obtain ⟨made, filled⟩ := List.mem_filter.mp member
  obtain ⟨group, _, rfl⟩ := List.mem_map.mp made
  apply Text.isSpaced_collapse
  intro none
  rw [Selector.text, none] at filled
  cases filled

namespace Css

/-! ### Values that begin with an address -/

/-- A value whose first token other than white space is an address is written out as blanks, the
beginning of an address, and something more. -/
theorem exists_tokensText_eq_url {text value : Text} {closed : Bool} {position : Position}
    (tokens : List Token) (stand : ∀ token ∈ tokens, token.StandsIn text)
    (first : tokens.find? (fun token => !token.isInsignificant) =
      some (.leaf position (.url value closed))) :
    ∃ lead back, tokensText tokens = lead ++ ['u', 'r', 'l', '('] ++ back ∧
      ∀ c ∈ lead, Text.isBlank c = true := by
  -- Neither the beginning of a value nor white space is parted from what follows it.
  have after (left : Option Kind) (apart : ∀ right, separator left right = []) :
      ∃ lead back, tokensTextAfter left tokens = lead ++ ['u', 'r', 'l', '('] ++ back ∧
        ∀ c ∈ lead, Text.isBlank c = true := by
    induction tokens generalizing left with
    | nil => cases first
    | cons token rest ih =>
        obtain ⟨here, later⟩ := List.forall_mem_cons.mp stand
        rw [tokensTextAfter, apart, List.nil_append]
        rw [List.find?_cons] at first
        cases token with
        | block place opener content => cases first
        | leaf place leaf =>
            have spelled := here.isSpelled
            cases leaf with
            | comment body => exact absurd spelled id
            | whitespace spelling =>
                obtain ⟨lead, back, written, blanks⟩ :=
                  ih later first (some .whitespace) (fun _ => rfl)
                refine ⟨spelling ++ lead, back, ?_, ?_⟩
                · change spelling ++ tokensTextAfter (some .whitespace) rest = _
                  rw [written, List.append_assoc, List.append_assoc, List.append_assoc]
                · intro c member
                  rcases List.mem_append.mp member with inside | inside
                  · exact isBlank_of_isSpace c (spelled.2 c inside)
                  · exact blanks c inside
            | url address ends =>
                exact ⟨[], _, rfl, fun _ absent => absurd absent List.not_mem_nil⟩
            | _ => cases first
  exact after none (fun _ => rfl)

theorem exists_trim_tokensText_eq_url {text value : Text} {closed : Bool} {position : Position}
    (tokens : List Token) (stand : ∀ token ∈ tokens, token.StandsIn text)
    (first : tokens.find? (fun token => !token.isInsignificant) =
      some (.leaf position (.url value closed))) :
    ∃ more, (tokensText tokens).trim = ['u', 'r', 'l', '('] ++ more := by
  obtain ⟨lead, back, written, blanks⟩ := exists_tokensText_eq_url tokens stand first
  rw [written]
  exact Text.exists_trim_eq lead ['u', 'r', 'l', '('] back blanks
    (by simp [Text.isBlank]) (List.cons_ne_nil _ _)

end Css

namespace Reading

theorem isTrimmed_valueText (text : Text) (tokens : List Token)
    (stand : ∀ token ∈ tokens, token.StandsIn text) :
    (valueText (Source.ofNormalized text) tokens).IsTrimmed := by
  have trimmed := Text.isTrimmed_trim (tokensText tokens)
  fun_cases valueText (Source.ofNormalized text) tokens with
  | case1 written position value closed first =>
      have stands := stand _ (List.mem_of_find?_eq_some first)
      obtain ⟨read, c, rest, rfl, rfl, letter⟩ := stands.exists_text_eq
      obtain ⟨more, kept⟩ := exists_trim_tokensText_eq_url tokens stand first
      rw [Source.slice_after, List.take_succ_cons]
      apply trimmed.exchange c (rest.take 2) letter 3
      rw [kept, List.length_append]
      exact Nat.lt_add_right more.length (by decide)
  | case2 => exact trimmed

/-! ### Rules -/

variable {text : Text}

/-- The tokens in a block of declarations that is read stand in the text. -/
theorem standsIn_of_declaredBody? {construct : Construct} (member : construct ∈ constructsIn text)
    {body : List Token} (declares : construct.declaredBody? = some body) :
    ∀ token ∈ body, token.StandsIn text := by
  have isOf := constructs_areOf _ construct member
  obtain ⟨block, standing, curly⟩ := isOf.exists_block (Construct.body?_of_declaredBody? declares)
  intro token inside
  exact (standsIn_of_mem text block standing).of_mem_curlyContent curly inside

theorem declared_areShaped (body : List Token) (stand : ∀ token ∈ body, token.StandsIn text) :
    ∀ declaration ∈ declared (Source.ofNormalized text) body, declaration.IsShaped := by
  intro declaration member
  obtain ⟨item, inside, made⟩ := List.mem_filterMap.mp member
  have isOf := items_areOf body item inside
  cases item with
  | atRule => cases made
  | faulty error position => cases made
  | declaration name value =>
      cases made
      obtain ⟨⟨position, here⟩, within⟩ := isOf
      have valueStands : ∀ token ∈ value, token.StandsIn text :=
        fun token part => stand token (within part)
      exact ⟨(stand _ here).isSpelled, isTrimmed_valueText text value valueStands⟩

theorem isShaped_of_isRuleOf {construct : Construct} (member : construct ∈ constructsIn text)
    (flawless : construct.IsFlawless) {found : Rule}
    (isRule : IsRuleOf (Source.ofNormalized text) construct found) : found.IsShaped := by
  cases isRule with
  | styleRule position prelude body =>
      apply Rule.IsShaped.styleRule (flawless.selected position prelude body rfl)
        (Selector.isSpaced_of_mem_list prelude)
      exact declared_areShaped body (standsIn_of_declaredBody? member rfl)
  | atRule position keyword prelude body =>
      obtain ⟨here, _, _⟩ := constructs_areOf _ _ member
      have named : keyword ≠ [] := (standsIn_of_mem text _ here).here.isSpelled
      have declares := Construct.declaredBody?_atRule_eq_some_iff position keyword prelude body
      apply Rule.IsShaped.atRule
      · intro none
        exact named (List.map_eq_nil_iff.mp none)
      · exact Text.not_isCapital_of_mem_lower keyword
      · intro some
        obtain ⟨list, made⟩ := Option.ne_none_iff_exists'.mp some
        obtain ⟨content, here, _⟩ := Option.map_eq_some_iff.mp made
        simpa [holdsDeclarations] using ((declares content).mp here).1
      · intro list made
        obtain ⟨content, here, rfl⟩ := Option.map_eq_some_iff.mp made
        exact declared_areShaped content (standsIn_of_declaredBody? member here)

end Reading

namespace Stylesheet

/-- The rules that are read are at least one, and each is a style rule or an at-rule. -/
theorem read_isShaped (text : Text) (label : Option Text) (sheet : Stylesheet)
    (accepted : read text label = .ok sheet) (rules : List Rule)
    (listed : sheet.rules = some rules) :
    rules ≠ [] ∧ ∀ rule ∈ rules, rule.IsShaped := by
  obtain ⟨_, _, found, made, rfl⟩ := (read_eq_ok_iff text label sheet).mp accepted
  dsimp only at listed
  by_cases bare : found.isEmpty = true
  · rw [if_pos bare] at listed
    cases listed
  · rw [if_neg bare] at listed
    cases listed
    refine ⟨?_, ?_⟩
    · intro none
      exact bare (List.isEmpty_iff.mpr none)
    · intro rule member
      obtain ⟨construct, here, flawless, isRule⟩ :=
        Reading.exists_construct_of_mem made rule member
      exact Reading.isShaped_of_isRuleOf here flawless isRule

theorem read_isShaped_at_capital_address :
    read ['a', '\t', '\n', 'b', '{', 'c', ':', ' ', 'U', 'R', 'L', '(', 'd', ')', '}'] none =
        .ok ⟨some [⟨Rule.styleType, some [['a', ' ', 'b']],
          some [⟨['c'], ['U', 'R', 'L', '(', 'd', ')']⟩]⟩], none⟩ ∧
      Rule.IsShaped ⟨Rule.styleType, some [['a', ' ', 'b']],
        some [⟨['c'], ['U', 'R', 'L', '(', 'd', ')']⟩]⟩ := by
  have accepted :
      read ['a', '\t', '\n', 'b', '{', 'c', ':', ' ', 'U', 'R', 'L', '(', 'd', ')', '}'] none =
        .ok ⟨some [⟨Rule.styleType, some [['a', ' ', 'b']],
          some [⟨['c'], ['U', 'R', 'L', '(', 'd', ')']⟩]⟩], none⟩ := rfl
  obtain ⟨_, shaped⟩ := read_isShaped _ none _ accepted _ rfl
  exact ⟨accepted, shaped _ List.mem_cons_self⟩

end Stylesheet

end SheetCensus
