import SheetCensus.Proofs.Css.Rescan

set_option autoImplicit false

/-! Neighbours that are written side by side. Where the rule for spacing puts no comment between two
lexemes, the first one ends where the second one begins, but for a few neighbours that the rule
overlooks (`Lexeme.Fuses`). -/

namespace SheetCensus.Css

open EscapedRun (EndsName)

namespace Lexeme

/-! ### What a first character says of the lexeme -/

inductive BeginsLikeName : Lexeme → Prop
  | ident {name : Text} : BeginsLikeName (.leaf (.ident name))
  | function {name : Text} : BeginsLikeName (.opener (.function name))
  | url {value : Text} {closed : Bool} : BeginsLikeName (.leaf (.url value closed))
  | badUrl : BeginsLikeName (.leaf (.error .badUrl))
  | brokenOff {leaf : Leaf} {error : LexError} : BeginsLikeName (.brokenOff leaf error)
  | range {first last : Nat} : BeginsLikeName (.leaf (.unicodeRange first last))
  | arrow : BeginsLikeName (.leaf (.literal ['-', '-', '>']))

inductive BeginsLikeNumeral : Lexeme → Prop
  | number {numeral : Text} : BeginsLikeNumeral (.leaf (.number numeral))
  | percentage {numeral : Text} : BeginsLikeNumeral (.leaf (.percentage numeral))
  | dimension {numeral unit : Text} : BeginsLikeNumeral (.leaf (.dimension numeral unit))

theorem scanUrl_beginsLikeName (text : Text) : (scanUrl text).1.BeginsLikeName := by
  unfold scanUrl
  dsimp only
  split
  · exact .brokenOff
  · split
    · exact .url
    · split <;> exact .badUrl

inductive IsNamed (name : Text) : Lexeme → Prop
  | ident : IsNamed name (.leaf (.ident name))
  | function : IsNamed name (.opener (.function name))

theorem scanIdent_cases (text : Text) :
    IsNamed (EscapedRun.name.value text) (scanIdent text).1 ∨
      (EscapedRun.name.value text).lower = ['u', 'r', 'l'] ∧ (scanIdent text).1.BeginsLikeName := by
  fun_cases scanIdent text with
  | case1 width name rest _ address lexeme reach found =>
      have begins := scanUrl_beginsLikeName rest
      rw [found] at begins
      exact Or.inr ⟨address.1, begins⟩
  | case2 => exact Or.inl .function
  | case3 => exact Or.inl .ident

theorem IsNamed.beginsLikeName {name : Text} {lexeme : Lexeme} (named : IsNamed name lexeme) :
    lexeme.BeginsLikeName := by
  cases named with
  | ident => exact .ident
  | function => exact .function

theorem scan_arrow {rest : Text} (arrow : ('-' :: rest).take 3 = ['-', '-', '>']) :
    (scan '-' rest).1 = .leaf (.literal ['-', '-', '>']) := by
  unfold scan
  dsimp only
  rw [startsUnicodeRange_of_ne rfl, if_neg Bool.false_ne_true, if_pos arrow]
  rfl

theorem scan_beginsLikeName {c : Char} {rest : Text} (starts : startsIdent (c :: rest) = true) :
    (scan c rest).1.BeginsLikeName := by
  by_cases range : startsUnicodeRange (c :: rest) = true
  · have noSpace := isSpace_of_startsIdent starts
    unfold scan
    dsimp only
    rw [noSpace, if_neg Bool.false_ne_true, if_pos range]
    exact .range
  · by_cases arrow : (c :: rest).take 3 = ['-', '-', '>']
    · obtain ⟨rfl, _⟩ := List.cons.inj arrow
      rw [scan_arrow arrow]
      exact .arrow
    · rw [scan_of_startsIdent starts (Bool.not_eq_true _ ▸ range) arrow]
      rcases scanIdent_cases (c :: rest) with named | ⟨_, address⟩
      · exact named.beginsLikeName
      · exact address

theorem scan_beginsLikeNumeral {c : Char} {rest : Text} (some : numeralWidth (c :: rest) ≠ 0) :
    (scan c rest).1.BeginsLikeNumeral := by
  rw [scan_eq_scanNumeric some]
  unfold scanNumeric
  dsimp only
  split
  · exact .dimension
  · split
    · exact .percentage
    · exact .number

/-- Some marks stand alone whatever stands behind them. -/
theorem scan_alone (c : Char) (alone : c ∈ ['%', '?', '>', '!', '=']) (rest : Text) :
    (scan c rest).1 = .leaf (.literal [c]) := by
  simp only [List.mem_cons, List.not_mem_nil, or_false] at alone
  rcases alone with rfl | rfl | rfl | rfl | rfl
  all_goals
    rw [BeginsMark.scan_eq ⟨rfl, rfl, rfl, by decide⟩]
    rfl

theorem scan_star (rest : Text) :
    (scan '*' rest).1 = .leaf (.literal ['*']) ∨
      (scan '*' rest).1 = .leaf (.literal ['*', '=']) := by
  rw [BeginsMark.scan_eq ⟨rfl, rfl, rfl, by decide⟩]
  change (scanLiteral '*' rest).1 = _ ∨ (scanLiteral '*' rest).1 = _
  unfold scanLiteral
  rw [if_neg (by simp), if_neg (by simp)]
  split
  · exact Or.inr rfl
  · exact Or.inl rfl

theorem scan_bar (rest : Text) :
    (scan '|' rest).1 = .leaf (.literal ['|']) ∨
      ∃ mark, (scan '|' rest).1 = .leaf (.literal mark) ∧
        (mark = ['|', '|'] ∨ mark = ['|', '=']) := by
  rw [BeginsMark.scan_eq ⟨rfl, rfl, rfl, by decide⟩]
  change (scanLiteral '|' rest).1 = _ ∨ ∃ mark, (scanLiteral '|' rest).1 = _ ∧ _
  unfold scanLiteral
  rw [if_neg (by simp)]
  split
  · exact Or.inr ⟨_, rfl, Or.inl rfl⟩
  · split
    · exact Or.inr ⟨_, rfl, Or.inr rfl⟩
    · exact Or.inl rfl

/-- A name that does not begin with the letter of an address is no address. -/
theorem scan_isNamed {c : Char} {rest : Text} (starts : startsIdent (c :: rest) = true)
    (noRange : startsUnicodeRange (c :: rest) = false)
    (noArrow : (c :: rest).take 3 ≠ ['-', '-', '>']) (plain : isNameChar c = true)
    (other : c.toLower ≠ 'u') : IsNamed (c :: EscapedRun.name.value rest) (scan c rest).1 := by
  rw [scan_of_startsIdent starts noRange noArrow, ← EscapedRun.value_name_cons plain]
  rcases scanIdent_cases (c :: rest) with named | ⟨address, _⟩
  · exact named
  · rw [EscapedRun.value_name_cons plain] at address
    exact absurd (List.cons.inj address).1 other

theorem isNameStart_of_isHexDigit {c : Char} (hexadecimal : isHexDigit c = true)
    (letter : isDigit c = false) : isNameStart c = true := by
  simp only [isHexDigit, letter, Bool.false_or, Bool.or_eq_true, Bool.and_eq_true,
    decide_eq_true_eq, Char.reduceToNat] at hexadecimal
  simp only [isNameStart, Bool.or_eq_true, Bool.and_eq_true, decide_eq_true_eq, Char.reduceToNat]
  omega

/-- A letter among the digits of base sixteen begins a name that is no address. -/
theorem scan_hexLetter {c : Char} (hexadecimal : isHexDigit c = true) (letter : isDigit c = false)
    (rest : Text) : IsNamed (c :: EscapedRun.name.value rest) (scan c rest).1 := by
  have start := isNameStart_of_isHexDigit hexadecimal letter
  have apart (d : Char) (outside : isHexDigit d = false) : c ≠ d := by
    intro same
    rw [same, outside] at hexadecimal
    cases hexadecimal
  apply scan_isNamed (startsIdent_of_isNameStart start rest)
  · exact startsUnicodeRange_of_ne_letter (apart 'u' rfl) (apart 'U' rfl) rest
  · exact fun arrow => apart '-' rfl (List.cons.inj arrow).1
  · simp [isNameChar, start]
  · exact fun small => (eq_u_of_toLower small).elim (apart 'u' rfl) (apart 'U' rfl)

/-! ### Neighbours that run together -/

end Lexeme

def Leaf.isOpen : Leaf → Bool
  | .number _ => true
  | .literal ['#'] => true
  | .literal ['-'] => true
  | .literal ['@'] => true
  | _ => false

namespace Lexeme

inductive NameBegins (holds : Text → Prop) : Lexeme → Prop
  | ident {name : Text} (begins : holds name) : NameBegins holds (.leaf (.ident name))
  | function {name : Text} (begins : holds name) : NameBegins holds (.opener (.function name))

def BeginsWithHyphens (name : Text) : Prop :=
  ∃ rest, name = '-' :: '-' :: rest

def BeginsWithHexDigit (name : Text) : Prop :=
  ∃ c rest, name = c :: rest ∧ isHexDigit c = true

/-- The lexeme runs into those behind it, and the rule for spacing puts nothing between them. -/
inductive Fuses : Lexeme → List Lexeme → Prop
  | percent {numeral : Text} {others : List Lexeme} :
      Fuses (.leaf (.number numeral)) (.leaf (.literal ['%']) :: others)
  | arrow {left : Leaf} {others : List Lexeme} (isOpen : left.isOpen = true) :
      Fuses (.leaf left) (.leaf (.literal ['-', '-', '>']) :: others)
  | hyphen {mark : Text} {others : List Lexeme} (isMark : mark = ['#'] ∨ mark = ['-']) :
      Fuses (.leaf (.literal mark)) (.leaf (.literal ['-']) :: others)
  /-- A bad address is written with its name. -/
  | badUrl {left : Leaf} {others : List Lexeme}
      (meets : left.isOpen = true ∨ (Kind.ofLeaf left).endsName = true) :
      Fuses (.leaf left) (.leaf (.error .badUrl) :: others)
  | column {mark : Text} {others : List Lexeme} (isMark : mark = ['|', '|'] ∨ mark = ['|', '=']) :
      Fuses (.leaf (.literal ['|'])) (.leaf (.literal mark) :: others)
  | comment {others : List Lexeme} :
      Fuses (.leaf (.literal ['/'])) (.leaf (.literal ['*', '=']) :: others)
  | closing {others : List Lexeme} :
      Fuses (.leaf (.ident ['-', '-'])) (.leaf (.literal ['>']) :: others)
  | opening {next : Lexeme} {others : List Lexeme}
      (begins : next = .leaf (.literal ['-', '-', '>']) ∨ next.NameBegins BeginsWithHyphens) :
      Fuses (.leaf (.literal ['<'])) (.leaf (.literal ['!']) :: next :: others)
  | range {name : Text} {next : Lexeme} {others : List Lexeme} (letter : name = ['u'] ∨ name = ['U'])
      (begins : next = .leaf (.literal ['?']) ∨ next.NameBegins BeginsWithHexDigit) :
      Fuses (.leaf (.ident name)) (.leaf (.literal ['+']) :: next :: others)

structure Touches (left : Leaf) (next : Lexeme) (others : List Lexeme) : Prop where
  apart : ∀ kind, next.kind? = some kind → (Kind.ofLeaf left).runsInto kind = false
  unfused : ¬ (Lexeme.leaf left).Fuses (next :: others)
  whole : ∀ leaf error, next ≠ .brokenOff leaf error

namespace Touches

variable {left : Leaf} {next : Lexeme} {others : List Lexeme}

/-- Behind what ends like a name no hyphen is written without a comment. -/
theorem not_hyphen (touches : Touches left next others)
    (ends : (Kind.ofLeaf left).endsName = true) {mark : Text} (found : next = .leaf (.literal mark))
    (hyphen : mark = ['-'] ∨ mark = ['-', '-', '>']) : False := by
  subst found
  have parted := touches.apart (.literal mark) rfl
  generalize Kind.ofLeaf left = kind at ends parted
  rcases hyphen with rfl | rfl <;> simp [Kind.runsInto, ends, Kind.isLiteralOf] at parted

theorem not_name (touches : Touches left next others)
    (meets : left.isOpen = true ∨ (Kind.ofLeaf left).endsName = true) {kind : Kind}
    (begins : kind.beginsName = true ∨ kind = .unicodeRange) (found : next.kind? = some kind) :
    False := by
  have parted := touches.apart kind found
  have name : (kind.beginsName || kind.beginsNumeral || decide (kind = .unicodeRange)) = true := by
    rcases begins with begins | begins <;> simp [begins]
  rcases meets with isOpen | ends
  · unfold Leaf.isOpen at isOpen
    split at isOpen
    · simp [Kind.runsInto, Kind.ofLeaf, name] at parted
    · simp [Kind.runsInto, Kind.ofLeaf, Kind.isLiteralOf, name] at parted
    · simp [Kind.runsInto, Kind.ofLeaf, Kind.isLiteralOf, name] at parted
    · rcases begins with begins | begins <;>
        simp [Kind.runsInto, Kind.ofLeaf, Kind.isLiteralOf, begins] at parted
    · cases isOpen
  · simp [Kind.runsInto, ends, name] at parted

theorem not_beginsLikeName (touches : Touches left next others)
    (meets : left.isOpen = true ∨ (Kind.ofLeaf left).endsName = true) :
    ¬ next.BeginsLikeName := by
  intro begins
  cases begins with
  | brokenOff => exact touches.whole _ _ rfl
  | badUrl => exact touches.unfused (.badUrl meets)
  | arrow =>
      rcases meets with isOpen | ends
      · exact touches.unfused (.arrow isOpen)
      · exact touches.not_hyphen ends rfl (Or.inr rfl)
  | ident => exact touches.not_name meets (Or.inl rfl) rfl
  | function => exact touches.not_name meets (Or.inl rfl) rfl
  | url => exact touches.not_name meets (Or.inl rfl) rfl
  | range => exact touches.not_name meets (Or.inr rfl) rfl

theorem not_beginsLikeNumeral (touches : Touches left next others)
    (meets : (Kind.ofLeaf left).endsName = true ∨ Kind.ofLeaf left = .number ∨
      Kind.ofLeaf left = .unicodeRange ∨
        (Kind.ofLeaf left).isLiteralOf [['#'], ['-'], ['.'], ['+']] = true) :
    ¬ next.BeginsLikeNumeral := by
  intro begins
  have numeric : ∃ kind, next.kind? = some kind ∧ kind.beginsNumeral = true := by
    cases begins <;> exact ⟨_, rfl, rfl⟩
  obtain ⟨kind, found, numeral⟩ := numeric
  have parted := touches.apart kind found
  generalize Kind.ofLeaf left = leftKind at meets parted
  rcases meets with ends | rfl | rfl | mark
  · simp [Kind.runsInto, ends, numeral] at parted
  · simp [Kind.runsInto, numeral] at parted
  · simp [Kind.runsInto, numeral] at parted
  · cases leftKind with
    | literal spelling =>
        have listed :
            spelling = ['#'] ∨ spelling = ['-'] ∨ spelling = ['.'] ∨ spelling = ['+'] := by
          simpa [Kind.isLiteralOf] using mark
        rcases listed with rfl | rfl | rfl | rfl <;>
          simp [Kind.runsInto, Kind.isLiteralOf, numeral] at parted
    | _ => cases mark

theorem not_literal (touches : Touches left next others) {mark : Text}
    (runs : (Kind.ofLeaf left).runsInto (.literal mark) = true) : next ≠ .leaf (.literal mark) := by
  intro found
  have apart := touches.apart (.literal mark) (congrArg kind? found)
  rw [runs] at apart
  cases apart

end Touches

/-- What is written behind the leaf begins with a lexeme that touches it, if it is not empty. -/
def Meets (left : Leaf) (behind : Text) (others : List Lexeme) : Prop :=
  ∀ c rest, behind = c :: rest → Touches left (scan c rest).1 others

namespace Meets

variable {left : Leaf} {behind : Text} {others : List Lexeme}

theorem not_startsIdent (meets : Meets left behind others)
    (goesOn : left.isOpen = true ∨ (Kind.ofLeaf left).endsName = true) :
    startsIdent behind = false := by
  rw [← Bool.not_eq_true]
  intro starts
  cases behind with
  | nil => cases starts
  | cons c rest =>
      exact (meets c rest rfl).not_beginsLikeName goesOn (scan_beginsLikeName starts)

theorem numeralWidth_eq (meets : Meets left behind others)
    (goesOn : (Kind.ofLeaf left).endsName = true ∨ Kind.ofLeaf left = .number ∨
      Kind.ofLeaf left = .unicodeRange ∨
        (Kind.ofLeaf left).isLiteralOf [['#'], ['-'], ['.'], ['+']] = true) :
    numeralWidth behind = 0 := by
  by_contra some
  cases behind with
  | nil => exact some rfl
  | cons c rest =>
      exact (meets c rest rfl).not_beginsLikeNumeral goesOn (scan_beginsLikeNumeral some)

theorem beginsOutside_digit (none : numeralWidth behind = 0) : BeginsOutside isDigit behind := by
  intro c first
  obtain ⟨rest, rfl⟩ := List.head?_eq_some_iff.mp first
  rw [← Bool.not_eq_true]
  exact fun digit => numeralWidth_digit digit rest none

/-- Where neither a name nor a numeral begins, a hyphen stands alone. -/
theorem scan_hyphen_of_none {rest : Text} (alone : startsIdent ('-' :: rest) = false)
    (none : numeralWidth ('-' :: rest) = 0) : (scan '-' rest).1 = .leaf (.literal ['-']) := by
  have noArrow : ('-' :: rest).take 3 ≠ ['-', '-', '>'] := by
    intro arrow
    cases rest with
    | nil => cases arrow
    | cons c more =>
        obtain ⟨_, later⟩ := List.cons.inj arrow
        obtain ⟨rfl, _⟩ := List.cons.inj later
        cases alone
  rw [scan_eq_scanMark rfl (startsUnicodeRange_of_ne rfl rest) noArrow alone none]
  rfl

/-- A name ends in front of what is written next, if it would go on with it. -/
theorem endsName (meets : Meets left behind others)
    (goesOn : (Kind.ofLeaf left).endsName = true ∨ left = .literal ['#']) : EndsName behind := by
  have alone : startsIdent behind = false := by
    apply meets.not_startsIdent
    rcases goesOn with ends | rfl
    · exact Or.inr ends
    · exact Or.inl rfl
  have none : numeralWidth behind = 0 := by
    apply meets.numeralWidth_eq
    rcases goesOn with ends | rfl
    · exact Or.inl ends
    · exact Or.inr (Or.inr (Or.inr rfl))
  constructor
  · intro c first
    obtain ⟨rest, rfl⟩ := List.head?_eq_some_iff.mp first
    rw [← Bool.not_eq_true]
    intro plain
    have cases : isNameStart c = true ∨ isDigit c = true ∨ c = '-' := by
      simpa [isNameChar, or_assoc] using plain
    rcases cases with start | digit | rfl
    · rw [startsIdent_of_isNameStart start rest] at alone
      cases alone
    · exact numeralWidth_digit digit rest none
    · have touches := meets '-' rest rfl
      have hyphen := scan_hyphen_of_none alone none
      rcases goesOn with ends | rfl
      · exact touches.not_hyphen ends hyphen (Or.inl rfl)
      · exact touches.unfused (hyphen ▸ .hyphen (Or.inl rfl))
  · rw [← Bool.not_eq_true]
    intro escape
    rw [startsIdent_of_startsEscape escape] at alone
    cases alone

end Meets

end Lexeme

end SheetCensus.Css
