import SheetCensus.Proofs.Stylesheet.Shape

set_option autoImplicit false

/-! Values that begin with an address. The name of an address is written out in lower case, and the
value takes its first three characters back from the text. That restores the case of the letters,
and nothing else, exactly when no backslash is among the three (`restoresCase_iff`); an escape in
the name is longer than the character it stands for, so the three are then not the whole name. -/

namespace SheetCensus

open Css

namespace Css

/-! ### Names without escapes -/

/-- As far as no backslash comes, a name is what the text spells. -/
theorem EscapedRun.take_value_name (count : Nat) (text : Text) (plain : '\\' ∉ text.take count)
    (long : count ≤ (EscapedRun.name.value text).length) :
    (EscapedRun.name.value text).take count = text.take count := by
  induction count generalizing text with
  | zero => rfl
  | succ count ih =>
      cases text with
      | nil => cases long
      | cons c rest =>
          rw [List.take_succ_cons, List.mem_cons, not_or] at plain
          obtain ⟨unescaped, later⟩ := plain
          unfold EscapedRun.value EscapedRun.valueFrom at long ⊢
          rw [if_neg (Ne.symm unescaped)] at long ⊢
          by_cases letter : EscapedRun.name.plain c = true
          · rw [if_pos letter] at long ⊢
            rw [List.take_succ_cons, List.take_succ_cons]
            exact congrArg (c :: ·) (ih rest later (Nat.le_of_succ_le_succ long))
          · rw [if_neg letter] at long
            cases long

/-! ### Restoring the case -/

/-- The value is what is written out but for the case of its first three letters; it begins as an
address does, and in lower case if the name of the address is in lower case. -/
structure RestoresCase (name written value : Text) : Prop where
  rest : value.drop 3 = written.drop 3
  letters : SameLetters (value.take 3) (written.take 3)
  address : ∃ word more, SameLetters word ['u', 'r', 'l'] ∧ value = word ++ '(' :: more
  plain : name = ['u', 'r', 'l'] → ∃ more, value = ['u', 'r', 'l', '('] ++ more

theorem restoresCase_iff (more spelled : Text)
    (named : (EscapedRun.name.value spelled).lower = ['u', 'r', 'l'])
    (long : 3 ≤ spelled.length) :
    RestoresCase (EscapedRun.name.value spelled) (['u', 'r', 'l', '('] ++ more)
        (spelled.take 3 ++ '(' :: more) ↔ '\\' ∉ spelled.take 3 := by
  have three : (spelled.take 3).length = 3 := List.length_take_of_le long
  constructor
  · intro restored escaped
    have letters : SameLetters _ ['u', 'r', 'l'] := restored.letters
    rw [List.take_left' three, sameLetters_iff] at letters
    have lowered : '\\' ∈ (spelled.take 3).map Char.toLower := List.mem_map_of_mem escaped
    rw [letters] at lowered
    exact absurd lowered (by decide)
  · intro plain
    have size : (EscapedRun.name.value spelled).length = 3 := by
      have letters := congrArg List.length named
      rwa [Text.lower, List.length_map] at letters
    have name : EscapedRun.name.value spelled = spelled.take 3 := by
      rw [← EscapedRun.take_value_name 3 spelled plain (Nat.le_of_eq size.symm),
        List.take_of_length_le (Nat.le_of_eq size)]
    rw [name] at named ⊢
    have letters : SameLetters (spelled.take 3) ['u', 'r', 'l'] :=
      (sameLetters_iff _ _).mpr named
    refine ⟨?_, ?_, ⟨_, more, letters, rfl⟩, ?_⟩
    · rw [List.drop_left' three]
      rfl
    · rw [List.take_left' three]
      exact letters
    · intro lower
      exact ⟨more, by rw [lower]; rfl⟩

/-! ### Declarations and their tokens -/

def Item.entry? : Item → Option (Text × List Token)
  | .declaration name value => some (name, value)
  | .atRule => none
  | .faulty _ _ => none

def Construct.entries (construct : Construct) : List (Text × List Token) :=
  (items (construct.declaredBody?.getD [])).filterMap Item.entry?

theorem Construct.mem_entries {construct : Construct} {entry : Text × List Token}
    (member : entry ∈ construct.entries) :
    ∃ body, construct.declaredBody? = some body ∧ .declaration entry.1 entry.2 ∈ items body := by
  obtain ⟨item, inside, made⟩ := List.mem_filterMap.mp member
  cases item with
  | declaration name value =>
      cases made
      cases declares : construct.declaredBody? with
      | none =>
          rw [declares] at inside
          cases inside
      | some body =>
          rw [declares] at inside
          exact ⟨body, rfl, inside⟩
  | _ => cases made

end Css

namespace Reading

theorem declared_eq (source : Source) (body : List Token) :
    declared source body =
      ((items body).filterMap Item.entry?).map
        (fun entry => ⟨entry.1, valueText source entry.2⟩) := by
  unfold declared
  rw [List.map_filterMap]
  congr 1
  funext item
  cases item <;> rfl

theorem IsRuleOf.declarations_eq {source : Source} {construct : Construct} {found : Rule}
    (isRule : IsRuleOf source construct found) :
    found.declarations.getD [] =
      construct.entries.map (fun entry => ⟨entry.1, valueText source entry.2⟩) := by
  cases isRule with
  | styleRule position prelude body => exact declared_eq source body
  | atRule position keyword prelude body =>
      unfold Construct.entries
      cases (Construct.atRule position keyword prelude body).declaredBody? with
      | none => rfl
      | some content => exact declared_eq source content

/-- If the first token of a value other than white space is an address, the first three characters
of the value are those of the text at its place, and this restores their case exactly when none of
them is a backslash. -/
def TakesAddress (text : Text) (tokens : List Token) (value : Text) : Prop :=
  ∀ position address closed,
    tokens.find? (fun token => !token.isInsignificant) =
        some (.leaf position (.url address closed)) →
      ∃ read spelled, text = read ++ spelled ∧ position = Position.start.after read ∧
        (EscapedRun.name.value spelled).lower = ['u', 'r', 'l'] ∧
          value = spelled.take 3 ++ (tokensText tokens).trim.drop 3 ∧
            (RestoresCase (EscapedRun.name.value spelled) (tokensText tokens).trim value ↔
              '\\' ∉ spelled.take 3)

theorem takesAddress_valueText (text : Text) (tokens : List Token)
    (stand : ∀ token ∈ tokens, token.StandsIn text) :
    TakesAddress text tokens (valueText (Source.ofNormalized text) tokens) := by
  intro position address closed first
  have stands := stand _ (List.mem_of_find?_eq_some first)
  obtain ⟨read, c, rest, cut, rfl, isUrl⟩ := stands.exists_cut_url
  obtain ⟨more, kept⟩ := exists_trim_tokensText_eq_url tokens stand first
  have named := Lexeme.name_of_scan_url c rest isUrl
  have long := Lexeme.length_of_scan_url c rest isUrl
  have value : valueText (Source.ofNormalized text) tokens =
      (c :: rest).take 3 ++ (tokensText tokens).trim.drop 3 := by
    unfold valueText
    dsimp only
    rw [first]
    dsimp only
    rw [cut.text_eq, Source.slice_after]
  refine ⟨read, c :: rest, cut.text_eq, rfl, named, value, ?_⟩
  rw [value, kept]
  exact restoresCase_iff more (c :: rest) named long

theorem takesAddress_of_mem_entries {text : Text} {construct : Construct}
    (member : construct ∈ constructsIn text) (entry : Text × List Token)
    (inside : entry ∈ construct.entries) :
    TakesAddress text entry.2 (valueText (Source.ofNormalized text) entry.2) := by
  obtain ⟨body, declares, here⟩ := Construct.mem_entries inside
  obtain ⟨_, within⟩ := items_areOf body _ here
  apply takesAddress_valueText
  intro token part
  exact standsIn_of_declaredBody? member declares token (within part)

end Reading

namespace Stylesheet

/-- The declarations of the constructs are stored in order. A value that begins with an address is
what is written out, but for the case of three letters, exactly when none of the first three
characters of the address is a backslash. -/
theorem read_address_iff (text : Text) (label : Option Text) (sheet : Stylesheet)
    (accepted : read text label = .ok sheet) :
    List.Forall₂
      (fun construct rule =>
        List.Forall₂
          (fun entry declaration => declaration.property = entry.1 ∧
            Reading.TakesAddress (Source.normalize text) entry.2 declaration.value)
          construct.entries (rule.declarations.getD []))
      (Reading.constructsIn (Source.normalize text)) sheet.ruleList := by
  obtain ⟨_, _, found, made, rfl⟩ := (read_eq_ok_iff text label sheet).mp accepted
  rw [ruleList_mk]
  have all := (Reading.rules_eq_ok_iff _ label _ found).mp made
  have within := (List.forall₂_and_left (p := (· ∈ Reading.constructsIn (Source.normalize text)))
    _ found).mpr ⟨fun _ member => member, all⟩
  refine within.imp ?_
  intro construct rule both
  obtain ⟨member, _, isRule⟩ := both
  rw [isRule.declarations_eq, List.forall₂_map_right_iff, List.forall₂_same]
  intro entry inside
  exact ⟨rfl, Reading.takesAddress_of_mem_entries member entry inside⟩

/-- The address stands in the second line, behind a line end of two characters. -/
theorem read_address_iff_at_capitals :
    read ['a', '{', '\r', '\n', 'b', ':', 'U', 'R', 'l', '(', 'x', ')', '}'] none =
        .ok ⟨some [⟨Rule.styleType, some [['a']],
          some [⟨['b'], ['U', 'R', 'l', '(', 'x', ')']⟩]⟩], none⟩ ∧
      ∃ name, RestoresCase name ['u', 'r', 'l', '(', 'x', ')'] ['U', 'R', 'l', '(', 'x', ')'] := by
  have accepted :
      read ['a', '{', '\r', '\n', 'b', ':', 'U', 'R', 'l', '(', 'x', ')', '}'] none =
        .ok ⟨some [⟨Rule.styleType, some [['a']],
          some [⟨['b'], ['U', 'R', 'l', '(', 'x', ')']⟩]⟩], none⟩ := rfl
  refine ⟨accepted, ?_⟩
  cases read_address_iff _ none _ accepted with
  | cons here _ =>
      cases here with
      | cons first _ =>
          obtain ⟨_, keeps⟩ := first
          obtain ⟨_, spelled, _, _, _, stored, restores⟩ := keeps ⟨2, 3⟩ ['x'] true rfl
          -- The value tells the three characters, and the backslash is none of them.
          change ['U', 'R', 'l'] ++ ['(', 'x', ')'] = spelled.take 3 ++ ['(', 'x', ')'] at stored
          refine ⟨_, restores.mpr ?_⟩
          rw [← List.append_cancel_right stored]
          decide

/-- The first letter of the name is escaped by its number. -/
theorem read_ok_at_escaped_address :
    ((Reading.constructsIn (Source.normalize
        ['a', '{', 'b', ':', '\\', '7', '5', 'r', 'l', '(', 'x', ')', '}'])).map
          Construct.entries = [[(['b'], [.leaf ⟨1, 5⟩ (.url ['x'] true)])]]) ∧
      read ['a', '{', 'b', ':', '\\', '7', '5', 'r', 'l', '(', 'x', ')', '}'] none =
        .ok ⟨some [⟨Rule.styleType, some [['a']],
          some [⟨['b'], ['\\', '7', '5', '(', 'x', ')']⟩]⟩], none⟩ ∧
      ∀ name, ¬ RestoresCase name (tokensText [.leaf ⟨1, 5⟩ (.url ['x'] true)]).trim
        ['\\', '7', '5', '(', 'x', ')'] := by
  refine ⟨rfl, rfl, ?_⟩
  intro name restored
  have letters : SameLetters ['\\', '7', '5'] ['u', 'r', 'l'] := restored.letters
  rw [sameLetters_iff] at letters
  exact absurd letters (by decide)

end Stylesheet

end SheetCensus
