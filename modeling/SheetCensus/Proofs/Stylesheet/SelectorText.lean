import SheetCensus.Proofs.Css.Collapsing
import SheetCensus.Proofs.Css.Null
import SheetCensus.Proofs.Css.Rereading
import SheetCensus.Proofs.Source.Normalization
import SheetCensus.Proofs.Stylesheet.Acceptance
import SheetCensus.Proofs.Stylesheet.Splitting

set_option autoImplicit false

/-! The text of a selector read again. The text of a part of a prelude is that of its tokens with the
white space made even (`Selector.text_eq_collapse`). Where collapsing keeps every lexeme of them and
each can be read as itself (`Selector.IsLegible`), reading the text gives these tokens
(`Selector.readsBack`). -/

namespace SheetCensus

open Css

/-- The lexeme is written in front of the others so that it can be read as itself, and so that
collapsing keeps it. -/
structure Css.Lexeme.IsLegible (lexeme : Lexeme) (others : List Lexeme) : Prop where
  faithful : lexeme.isFaithful = true
  unfused : ¬ lexeme.Fuses others
  even : lexeme.IsEven others
  quoted : lexeme.IsQuoted others

/-- A lexeme whose text is kept as it is by collapsing. -/
theorem Css.Lexeme.IsLegible.of_collapse {lexeme : Lexeme} {others : List Lexeme}
    (faithful : lexeme.isFaithful = true) (unfused : ¬ lexeme.Fuses others)
    (filled : lexeme.text ≠ []) (kept : lexeme.text.collapse = lexeme.text)
    (noFunction : ∀ name, lexeme ≠ .opener (.function name)) : lexeme.IsLegible others :=
  ⟨faithful, unfused, fun _ => Or.inl ((Text.isSpaced_iff _).mpr ⟨filled, kept⟩),
    fun name same => absurd same (noFunction name)⟩

namespace Selector

/-- The tokens of a part of a prelude with a single space for each run of white space, and without
the white space around them. -/
def spaced (group : List Token) : List Token :=
  spacedAfter false (withoutOuterSpace group)

def readAgain (selector : Text) : List Token :=
  nest (withoutComments (lexemes (Source.ofText selector).text))

/-- Read again, the text of a part gives its tokens but for their places and their white space. -/
def ReadsBack (group : List Token) : Prop :=
  AllAlike Anywhere (spaced group) (readAgain (text group))

def IsLegible (group : List Token) : Prop :=
  Lexeme.EachInFront Lexeme.IsLegible (flatAll (spaced group))

theorem text_eq_nil_of_list {tokens : List Token} (none : list tokens = []) :
    ∀ group ∈ groups tokens, text group = [] := by
  intro group member
  by_contra filled
  have listed : text group ∈ list tokens := by
    apply List.mem_filter.mpr ⟨List.mem_map_of_mem member, ?_⟩
    rw [Bool.not_eq_true', List.isEmpty_eq_false_iff]
    exact filled
  rw [none] at listed
  cases listed

/-! ### The lexemes of a part -/

/-- What the tokens of every text are like: each begins with a lexeme that is spelled so and holds no
null character, and no block holds a bracket that would have closed it. -/
structure AreRead (tokens : List Token) : Prop where
  first : ∀ token ∈ tokens,
    token.Everywhere (fun part => part.first.IsSpelled ∧ part.first.NoNull)
  shut : ∀ token ∈ tokens, token.Everywhere Token.IsShutOnce

namespace AreRead

theorem of_subset {tokens others : List Token} (read : AreRead tokens) (within : others ⊆ tokens) :
    AreRead others :=
  ⟨fun token member => read.first token (within member),
    fun token member => read.shut token (within member)⟩

theorem of_text {text : Text} (none : NoNull text) :
    AreRead (nest (withoutComments (lexemes text))) := by
  constructor
  · intro token member part isPart
    have stands := standsIn_of_mem text token member part isPart
    exact ⟨stands.isSpelled, stands.noNull none⟩
  · apply nest_isShutOnce
    intro placed kept position bracket isFrom
    obtain ⟨read, c, rest, _, rfl⟩ :=
      exists_cut_of_mem_lexemes text placed (List.mem_filter.mp kept).1
    exact (Lexeme.scan_isSpelled c rest).eq_closer isFrom

variable {group : List Token} (read : AreRead group)

include read

theorem lexemes : ∀ lexeme ∈ flatAll group, lexeme.IsSpelled ∧ lexeme.NoNull :=
  forall_mem_flatAll (fun _ => ⟨trivial, trivial⟩) group read.first

theorem lexemes_spaced :
    ∀ lexeme ∈ flatAll (spaced group), lexeme.IsSpelled ∧ lexeme.NoNull := by
  intro lexeme member
  unfold spaced at member
  rw [flatAll_spacedAfter] at member
  rcases mem_squeezeAfter member with within | rfl
  · exact (read.of_subset (withoutOuterSpace_subset group)).lexemes lexeme within
  · exact ⟨⟨List.cons_ne_nil _ _, List.forall_mem_singleton.mpr rfl⟩,
      (by decide : NoNull [' '])⟩

theorem shut_spaced : ∀ token ∈ spaced group, token.Everywhere Token.IsShutOnce :=
  everywhere_isShutOnce_spacedAfter false _ (read.of_subset (withoutOuterSpace_subset group)).shut

theorem hasBlanks : ∀ lexeme ∈ flatAll group, lexeme.HasBlanks := by
  intro lexeme member space
  obtain ⟨spelling, rfl⟩ := Lexeme.exists_of_isWhitespace space
  obtain ⟨⟨filled, spaces⟩, _⟩ := read.lexemes _ member
  exact ⟨filled, fun c part => isBlank_of_isSpace c (spaces c part)⟩

end AreRead

variable {group : List Token}

theorem tokensText_spaced :
    tokensText (spaced group) =
      Lexeme.written none (squeezeAfter false (flatAll (withoutOuterSpace group))) := by
  rw [tokensText_eq_written]
  unfold spaced
  rw [flatAll_spacedAfter]

/-- The text of a part is that of its tokens with the white space made even. -/
theorem text_eq_collapse (read : AreRead group) :
    text group = (tokensText (spaced group)).collapse := by
  obtain ⟨front, back, whole, frontSpaces, backSpaces⟩ := exists_withoutOuterSpace group
  have flat : flatAll group =
      flatAll front ++ (flatAll (withoutOuterSpace group) ++ flatAll back) := by
    rw [← flatAll_append, ← flatAll_append, ← whole]
  unfold text
  rw [tokensText_spaced, tokensText_eq_written, flat]
  apply Lexeme.collapse_written _ _ _ (isWhitespace_of_mem_flatAll frontSpaces)
    (isWhitespace_of_mem_flatAll backSpaces)
  rw [← flat]
  exact read.hasBlanks

/-- White space in the tokens made even is a single space inside. -/
theorem innerSpace_spaced (group : List Token) :
    Lexeme.EachInFront Lexeme.IsInnerSpace (flatAll (spaced group)) := by
  unfold spaced
  rw [flatAll_spacedAfter]
  exact Lexeme.innerSpace_squeeze false _ (solid_last_withoutOuterSpace group)

theorem solid_head_spaced (group : List Token) (lexeme : Lexeme)
    (first : (flatAll (spaced group)).head? = some lexeme) : lexeme.isWhitespace = false := by
  have solid := solid_head_withoutOuterSpace group
  unfold spaced at first
  rw [flatAll_spacedAfter] at first
  cases flat : flatAll (withoutOuterSpace group) with
  | nil =>
      rw [flat] at first
      cases first
  | cons other others =>
      rw [flat] at first solid
      have here := solid other rfl
      rw [squeezeAfter, here] at first
      cases first
      exact here

/-- What is legible is written without a change. -/
theorem text_eq (read : AreRead group) (legible : IsLegible group) :
    text group = tokensText (spaced group) ∧
      (flatAll (spaced group) ≠ [] → (text group).IsSpaced) := by
  have even := legible.imp (fun _ _ _ here => Lexeme.IsLegible.even here)
  have inner := innerSpace_spaced group
  have begins := solid_head_spaced group
  rw [text_eq_collapse read, tokensText_eq_written]
  cases flat : flatAll (spaced group) with
  | nil => exact ⟨rfl, fun filled => absurd rfl filled⟩
  | cons lexeme others =>
      rw [flat] at even inner begins
      have spaced := Lexeme.isSpaced_written inner even (List.cons_ne_nil _ _) begins
      rw [spaced.collapse_eq]
      exact ⟨rfl, fun _ => spaced⟩

theorem isKept_of_isLegible (read : AreRead group) (legible : IsLegible group) :
    Lexeme.EachInFront Lexeme.IsKept (flatAll (spaced group)) := by
  apply (legible.and (innerSpace_spaced group)).imp
  intro lexeme member others both
  obtain ⟨here, inner⟩ := both
  refine ⟨(read.lexemes_spaced lexeme member).1, here.faithful, here.unfused, ?_, here.quoted⟩
  intro space next first
  obtain ⟨_, other, more, rfl, solid⟩ := inner space
  cases first
  exact solid

/-- The text of a legible part has nothing to be replaced about it. -/
theorem normalize_text (read : AreRead group) (legible : IsLegible group) :
    Source.normalize (text group) = text group := by
  obtain ⟨whole, spaced⟩ := text_eq read legible
  apply Source.normalize_eq_self
  intro c member
  have filled : flatAll (Selector.spaced group) ≠ [] := by
    intro none
    rw [whole, tokensText_eq_written, none] at member
    cases member
  have noBreak (blank : Text.isBlank c = true) : c = ' ' := by
    obtain ⟨before, after, parted⟩ := List.append_of_mem member
    exact ((spaced filled).single before c after parted blank).1
  refine ⟨?_, ?_, ?_⟩
  · rintro rfl
    rw [whole, tokensText_eq_written] at member
    exact Lexeme.noNull_written none (fun lexeme within => (read.lexemes_spaced lexeme within).2)
      member
  · rintro rfl
    cases noBreak rfl
  · rintro rfl
    cases noBreak rfl

theorem readsBack (read : AreRead group) (legible : IsLegible group) :
    ReadsBack group := by
  have kept := isKept_of_isLegible read legible
  apply nest_flatAll (spaced group) _ ?_ read.shut_spaced
  rw [Lexeme.map_snd_withoutComments]
  change Lexeme.solids (Source.normalize (text group)) = _
  rw [normalize_text read legible, (text_eq read legible).1, tokensText_eq_written,
    Lexeme.solids_written kept]

/-- A legible part has a text unless it is white space. -/
theorem text_eq_nil_iff (read : AreRead group) (legible : IsLegible group) :
    text group = [] ↔ ∀ token ∈ group, token.isWhitespace = true := by
  constructor
  · intro none
    have empty : flatAll (withoutOuterSpace group) = [] := by
      cases flat : flatAll (withoutOuterSpace group) with
      | nil => rfl
      | cons lexeme others =>
          have solid := solid_head_withoutOuterSpace group lexeme (congrArg List.head? flat)
          apply absurd none ((text_eq read legible).2 ?_).ne_nil
          unfold spaced
          rw [flatAll_spacedAfter, flat, squeezeAfter, solid]
          exact List.cons_ne_nil _ _
    obtain ⟨front, back, whole, frontSpaces, backSpaces⟩ := exists_withoutOuterSpace group
    have nothing : withoutOuterSpace group = [] := by
      cases kept : withoutOuterSpace group with
      | nil => rfl
      | cons token others =>
          rw [kept] at empty
          have first := head?_flatAll token others
          rw [empty] at first
          cases first
    rw [whole, nothing, List.nil_append]
    exact List.forall_mem_append.mpr ⟨frontSpaces, backSpaces⟩
  · intro spaces
    have nothing : withoutOuterSpace group = [] := by
      unfold withoutOuterSpace
      rw [List.dropWhile_eq_nil_iff.mpr spaces]
      rfl
    rw [text_eq_collapse read]
    unfold spaced
    rw [nothing]
    rfl

end Selector

namespace Reading

/-- The parts of a prelude, and the selectors they are written as. -/
theorem areRead_of_mem_groups {text : Text} {construct : Construct}
    (member : construct ∈ constructsIn (Source.normalize text)) {prelude : List Token}
    (found : construct.prelude? = some prelude) {group : List Token}
    (part : group ∈ Selector.groups prelude) : Selector.AreRead group := by
  have none : NoNull (Source.normalize text) :=
    fun null => (Source.isNormal_of_mem_normalize text _ null).1 rfl
  apply (Selector.AreRead.of_text none).of_subset
  exact fun _ inside => (constructs_areOf _ construct member).prelude_subset found
    (Selector.groups_subset prelude group part inside)

theorem not_selectorMissing_of_checkTokens {label : Option Text} {tokens : List Token}
    {position : Position} :
    checkTokens label tokens ≠ .error ⟨.selectorMissing, position, label⟩ := by
  intro refused
  obtain ⟨_, _, _, _, _, same⟩ := checkTokens_error label tokens _ refused
  cases same

theorem not_selectorMissing_of_declarations {source : Source} {label : Option Text}
    {items : List Item} {position : Position} :
    declarations source label items ≠ .error ⟨.selectorMissing, position, label⟩ := by
  intro refused
  rcases declarations_error source label items _ refused with ⟨_, _, _, same⟩ | ⟨_, _, _, bad⟩
  · cases same
  · exact not_selectorMissing_of_checkTokens bad

/-- Only a prelude without a selector is refused for want of one. -/
theorem exists_of_selectorMissing {source : Source} {label : Option Text} {construct : Construct}
    {position : Position}
    (refused : rule source label construct = .error ⟨.selectorMissing, position, label⟩) :
    ∃ prelude body, construct = .styleRule position prelude body ∧ Selector.list prelude = [] := by
  rcases rule_error source label construct _ refused with
    ⟨_, _, same⟩ | ⟨_, _, bad⟩ | ⟨place, prelude, body, rfl, same⟩ | ⟨_, _, bad⟩
  · cases same
  · exact absurd bad not_selectorMissing_of_checkTokens
  · cases same
    refine ⟨prelude, body, rfl, ?_⟩
    rw [rule] at refused
    cases bad : checkTokens label prelude with
    | error found =>
        rw [bad] at refused
        cases refused
        exact absurd bad not_selectorMissing_of_checkTokens
    | ok =>
        rw [bad] at refused
        dsimp only at refused
        split at refused
        · assumption
        · exact absurd (error_of_map_error refused) not_selectorMissing_of_declarations
  · exact absurd bad not_selectorMissing_of_declarations

end Reading

namespace Stylesheet

/-- Two spaces in a string become one, so that the selector is read as another string; and a name
of blanks alone is no selector, although it is neither white space nor a comma. -/
theorem read_collapses_string_and_name :
    (∃ sheet position prelude body group,
      read ['a', '[', 'b', '=', '"', 'x', ' ', ' ', 'y', '"', ']', '{', '}'] none = .ok sheet ∧
        .styleRule position prelude body ∈ Reading.constructsIn
          ['a', '[', 'b', '=', '"', 'x', ' ', ' ', 'y', '"', ']', '{', '}'] ∧
        group ∈ Selector.groups prelude ∧ Selector.text group ≠ [] ∧
        ¬ Selector.ReadsBack group) ∧
      read ['\u00a0', '{', '}'] none = .error (.fault ⟨.selectorMissing, ⟨1, 1⟩, none⟩) ∧
        Reading.constructsIn ['\u00a0', '{', '}'] =
          [.styleRule ⟨1, 1⟩ [.leaf ⟨1, 1⟩ (.ident ['\u00a0'])] []] := by
  refine ⟨⟨_, ⟨1, 1⟩, _, _, _, rfl, List.mem_singleton_self _, List.mem_singleton_self _,
    List.cons_ne_nil _ _, ?_⟩, rfl, rfl⟩
  intro same
  cases same with
  | cons first rest =>
    cases rest with
    | cons block rest =>
      cases block with
      | block _ inside =>
        cases inside with
        | cons _ rest =>
          cases rest with
          | cons _ rest =>
            cases rest with
            | cons value rest => cases value

/-- Every legible part of a prelude is read back from its selector, and it has a selector unless it
is white space. So a prelude of legible parts is refused for want of a selector only if it is made of
white space and commas. -/
theorem read_readsBack (text : Text) (label : Option Text) :
    (∀ sheet, read text label = .ok sheet →
      List.Forall₂
        (fun construct rule => ∀ position prelude body,
          construct = .styleRule position prelude body →
            rule.selectors = some (Selector.list prelude) ∧
              ∀ group ∈ Selector.groups prelude, Selector.IsLegible group →
                Selector.ReadsBack group ∧
                  (Selector.text group = [] ↔ ∀ token ∈ group, token.isWhitespace = true))
        (Reading.constructsIn (Source.normalize text)) sheet.ruleList) ∧
      ∀ position, read text label = .error (.fault ⟨.selectorMissing, position, label⟩) →
        ∃ prelude body,
          .styleRule position prelude body ∈ Reading.constructsIn (Source.normalize text) ∧
            ((∀ group ∈ Selector.groups prelude, Selector.IsLegible group) →
              ∀ token ∈ prelude, token.isWhitespace = true ∨ token.isLiteral [','] = true) := by
  constructor
  · intro sheet accepted
    obtain ⟨_, _, found, made, rfl⟩ := (read_eq_ok_iff text label sheet).mp accepted
    rw [ruleList_mk]
    have all := (Reading.rules_eq_ok_iff _ label _ found).mp made
    have within := (List.forall₂_and_left (p := (· ∈ Reading.constructsIn (Source.normalize text)))
      _ found).mpr ⟨fun _ member => member, all⟩
    refine within.imp ?_
    rintro construct rule ⟨member, _, isRule⟩ position prelude body rfl
    cases isRule
    refine ⟨rfl, ?_⟩
    intro group part legible
    have read := Reading.areRead_of_mem_groups member rfl part
    exact ⟨Selector.readsBack read legible, Selector.text_eq_nil_iff read legible⟩
  · intro position refused
    obtain ⟨_, seen | ⟨_, late⟩⟩ := (read_eq_fault_iff text label _).mp refused
    · cases Ending.isOpenEnd_of_fault? _ _ label _ seen
    · obtain ⟨construct, member, bad⟩ := Reading.rules_error _ label _ _ late
      obtain ⟨prelude, body, rfl, none⟩ := Reading.exists_of_selectorMissing bad
      refine ⟨prelude, body, member, ?_⟩
      intro legible token inside
      rcases Selector.exists_group inside with comma | ⟨group, part, here⟩
      · exact Or.inr comma
      · left
        have read := Reading.areRead_of_mem_groups member rfl part
        apply (Selector.text_eq_nil_iff read (legible group part)).mp ?_ token here
        exact Selector.text_eq_nil_of_list none group part

/-- The string keeps its space, the comment between two line ends is gone, and nothing stands behind
the comma. -/
theorem read_readsBack_at_string_and_comment :
    read ['a', '[', 'b', '=', '"', 'x', ' ', 'y', '"', ']', '\n', '/', '*', '*', '/', '\n', '>',
        '.', 'c', ' ', ',', '{', '}'] none =
      .ok ⟨some [⟨Rule.styleType,
        some [['a', '[', 'b', '=', '"', 'x', ' ', 'y', '"', ']', ' ', '>', '.', 'c']], some []⟩],
        none⟩ ∧
      (∃ group, Selector.text group =
          ['a', '[', 'b', '=', '"', 'x', ' ', 'y', '"', ']', ' ', '>', '.', 'c'] ∧
        Selector.IsLegible group ∧ Selector.ReadsBack group) ∧
      read [',', ' ', '{', '}'] none = .error (.fault ⟨.selectorMissing, ⟨1, 1⟩, none⟩) ∧
      ∃ prelude : List Token, prelude.length = 2 ∧
        ∀ token ∈ prelude, token.isWhitespace = true ∨ token.isLiteral [','] = true := by
  have accepted :
      read ['a', '[', 'b', '=', '"', 'x', ' ', 'y', '"', ']', '\n', '/', '*', '*', '/', '\n', '>',
          '.', 'c', ' ', ',', '{', '}'] none =
        .ok ⟨some [⟨Rule.styleType,
          some [['a', '[', 'b', '=', '"', 'x', ' ', 'y', '"', ']', ' ', '>', '.', 'c']], some []⟩],
          none⟩ := rfl
  have refused : read [',', ' ', '{', '}'] none =
      .error (.fault ⟨.selectorMissing, ⟨1, 1⟩, none⟩) := rfl
  refine ⟨accepted, ?_, refused, ?_⟩
  · cases (read_readsBack _ none).1 _ accepted with
    | cons here _ =>
        obtain ⟨_, parts⟩ := here _ _ _ rfl
        have legible : Selector.IsLegible [.leaf ⟨1, 1⟩ (.ident ['a']),
            .block ⟨1, 2⟩ (.bracket .square) [.leaf ⟨1, 3⟩ (.ident ['b']),
              .leaf ⟨1, 4⟩ (.literal ['=']), .leaf ⟨1, 5⟩ (.string ['x', ' ', 'y'] true)],
            .leaf ⟨1, 11⟩ (.whitespace ['\n']), .leaf ⟨2, 5⟩ (.whitespace ['\n']),
            .leaf ⟨3, 1⟩ (.literal ['>']), .leaf ⟨3, 2⟩ (.literal ['.']),
            .leaf ⟨3, 3⟩ (.ident ['c']), .leaf ⟨3, 4⟩ (.whitespace [' '])] := by
          have space {others : List Lexeme} :
              (Lexeme.leaf (.whitespace [' '])).IsLegible others := ⟨rfl, nofun, nofun, nofun⟩
          exact ⟨.of_collapse rfl nofun nofun rfl nofun, .of_collapse rfl nofun nofun rfl nofun,
            .of_collapse rfl nofun nofun rfl nofun, .of_collapse rfl nofun nofun rfl nofun,
            .of_collapse rfl nofun nofun rfl nofun, .of_collapse rfl nofun nofun rfl nofun,
            space, .of_collapse rfl nofun nofun rfl nofun, .of_collapse rfl nofun nofun rfl nofun,
            .of_collapse rfl nofun nofun rfl nofun, trivial⟩
        exact ⟨_, rfl, legible, (parts _ List.mem_cons_self legible).1⟩
  · obtain ⟨prelude, body, member, ends⟩ := (read_readsBack _ none).2 _ refused
    cases List.mem_singleton.mp member
    refine ⟨_, rfl, ends ?_⟩
    intro group part
    have nothing : flatAll (Selector.spaced group) = [] := by
      rcases List.mem_cons.mp part with rfl | later
      · rfl
      · rw [List.mem_singleton.mp later]
        rfl
    unfold Selector.IsLegible
    rw [nothing]
    trivial

end Stylesheet

end SheetCensus
