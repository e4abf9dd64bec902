import SheetCensus.Proofs.Css.Flattening
import SheetCensus.Proofs.Css.Spelling

set_option autoImplicit false

/-! Lexemes written out and read again. A lexeme that is written in front of a place where it ends
is the first lexeme that is read there (`Lexeme.isFirst_text`). Where a lexeme ends depends on its
kind (`Lexeme.EndsBefore`); a few leaves are written in a way that is not theirs, whatever stands
behind them (`Leaf.isFaithful`). -/

namespace SheetCensus.Css

open EscapedRun (EndsName)

def startsExponent : Text → Bool
  | c :: d :: _ => (c == 'e' || c == 'E') && isDigit d
  | _ => false

/-- The unit is written with a small letter in place of its first one. -/
def losesCase : Text → Bool
  | ['E'] => true
  | 'E' :: '-' :: _ => true
  | _ => false

def Leaf.isFaithful : Leaf → Bool
  | .literal spelling => spelling != ['\\']
  | .string _ closed => closed
  | .url value closed => closed && value.all EscapedRun.isShownInUrl
  | .dimension _ unit => !startsExponent unit && !losesCase unit
  | .error found => found == .badUrl
  | .comment _ => false
  | _ => true

namespace Lexeme

def isFaithful : Lexeme → Bool
  | .leaf found => found.isFaithful
  | .brokenOff _ _ => false
  | .comment _ _ => false
  | _ => true

def IsFirst (text : Text) (lexeme : Lexeme) (width : Nat) : Prop :=
  ∃ c rest, text = c :: rest ∧ scan c rest = (lexeme, width)

structure MarkEnds (c : Char) (behind : Text) : Prop where
  ident : startsIdent (c :: behind) = false
  numeral : numeralWidth (c :: behind) = 0
  arrow : (c :: behind).take 3 ≠ ['-', '-', '>']
  keyword : c = '@' → startsIdent behind = false
  hash : c = '#' → (behind.head?.any isNameChar || startsEscape behind) = false
  comment : c = '/' → behind.head? ≠ some '*'
  opening : c = '<' → behind.take 3 ≠ ['!', '-', '-']
  column : c = '|' → behind.head? ≠ some '|'
  match_ : c ∈ ['~', '|', '^', '$', '*'] → behind.head? ≠ some '='

def EndsBefore (behind : Text) : Lexeme → Prop
  | .leaf (.whitespace _) => BeginsOutside isSpace behind
  | .leaf (.ident name) =>
      EndsName behind ∧ behind.head? ≠ some '(' ∧
        startsUnicodeRange (identText name ++ behind) = false ∧
          (identText name ++ behind).take 3 ≠ ['-', '-', '>']
  | .leaf (.atKeyword _) => EndsName behind
  | .leaf (.hash _ _) => EndsName behind
  | .leaf (.dimension _ _) => EndsName behind
  | .leaf (.number _) =>
      EndsNumeral behind ∧ startsIdent behind = false ∧ behind.head? ≠ some '%'
  | .leaf (.unicodeRange _ _) => EndsRange behind
  | .leaf (.literal [c]) => MarkEnds c behind
  | .opener (.function name) => name.lower = ['u', 'r', 'l'] → quoteFollows behind = true
  | _ => True

/-- What begins neither white space nor a range nor a name nor a numeral is read as a mark. -/
theorem scan_eq_scanMark {c : Char} {rest : Text} (space : isSpace c = false)
    (noRange : startsUnicodeRange (c :: rest) = false)
    (noArrow : (c :: rest).take 3 ≠ ['-', '-', '>']) (alone : startsIdent (c :: rest) = false)
    (noNumeral : numeralWidth (c :: rest) = 0) : scan c rest = scanMark c rest := by
  unfold scan
  dsimp only
  rw [space, if_neg Bool.false_ne_true, noRange, if_neg Bool.false_ne_true, if_neg noArrow, alone,
    if_neg Bool.false_ne_true, if_neg (not_not_intro noNumeral)]

/-- A character that begins neither white space nor a name nor a numeral, whatever stands behind
it. -/
structure BeginsMark (c : Char) : Prop where
  space : isSpace c = false
  start : isNameStart c = false
  digit : isDigit c = false
  special : c ∉ ['\\', '-', '+', '.']

theorem BeginsMark.scan_eq {c : Char} (begins : BeginsMark c) (rest : Text) :
    scan c rest = scanMark c rest := by
  obtain ⟨space, start, digit, special⟩ := begins
  simp only [List.mem_cons, List.not_mem_nil, or_false, not_or] at special
  obtain ⟨noBackslash, noHyphen, noPlus, noPoint⟩ := special
  apply scan_eq_scanMark space (startsUnicodeRange_of_ne start rest)
  · exact fun arrow => noHyphen (List.cons.inj arrow).1
  · simp [startsIdent, startsEscape, start, noBackslash]
  · by_contra some
    rcases numeralWidth_begins _ some with ⟨d, more, same, begins⟩ | ⟨d, e, more, same, sign, _⟩
    · obtain ⟨rfl, _⟩ := List.cons.inj same
      simp [beginsMantissa, digit, noPoint] at begins
    · obtain ⟨rfl, _⟩ := List.cons.inj same
      exact sign.elim noPlus noHyphen

/-! ### Names -/

theorem isSpace_of_startsIdent {c : Char} {rest : Text}
    (starts : startsIdent (c :: rest) = true) : isSpace c = false := by
  rw [← Bool.not_eq_true]
  intro space
  simp only [isSpace, Bool.or_eq_true, beq_iff_eq] at space
  rcases space with (rfl | rfl) | rfl <;> cases starts

/-- What begins a name is no white space and no numeral. -/
theorem scan_of_startsIdent {c : Char} {rest : Text} (starts : startsIdent (c :: rest) = true)
    (noRange : startsUnicodeRange (c :: rest) = false)
    (noArrow : (c :: rest).take 3 ≠ ['-', '-', '>']) : scan c rest = scanIdent (c :: rest) := by
  unfold scan
  dsimp only
  rw [isSpace_of_startsIdent starts, if_neg Bool.false_ne_true, noRange,
    if_neg Bool.false_ne_true, if_neg noArrow, if_pos starts]

theorem isFirst_ident {name behind : Text} (filled : name ≠ [])
    (ends : EndsBefore behind (.leaf (.ident name))) :
    IsFirst (identText name ++ behind) (.leaf (.ident name)) (identText name).length := by
  obtain ⟨endsName, noRound, noRange, noArrow⟩ := ends
  have starts := startsIdent_identText name behind filled
  obtain ⟨width, value⟩ := (EscapedRun.reads_identText name).name_eq endsName
  cases written : identText name ++ behind with
  | nil => rw [written] at starts; cases starts
  | cons c rest =>
      refine ⟨c, rest, rfl, ?_⟩
      rw [written] at starts noRange noArrow width value
      rw [scan_of_startsIdent starts noRange noArrow, scanIdent, width, value, ← written,
        List.drop_left]
      cases behind with
      | nil => rfl
      | cons d more =>
          have apart : d ≠ '(' := fun same => noRound (congrArg some same)
          simp [apart]

/-- A bracket ends a name. -/
theorem endsName_round (behind : Text) : EndsName ('(' :: behind) := by
  refine ⟨?_, rfl⟩
  intro c same
  cases same
  rfl

theorem isFirst_function {name behind : Text} (filled : name ≠ [])
    (ends : EndsBefore behind (.opener (.function name))) :
    IsFirst (identText name ++ '(' :: behind) (.opener (.function name))
      ((identText name).length + 1) := by
  have starts := startsIdent_identText name ('(' :: behind) filled
  obtain ⟨width, value⟩ :=
    (EscapedRun.reads_identText name).name_eq (endsName_round behind)
  have noRange : startsUnicodeRange (identText name ++ '(' :: behind) = false := by
    rw [← Bool.not_eq_true]
    intro range
    obtain ⟨_, _, _, impossible, _⟩ := exists_of_startsUnicodeRange filled range
    cases impossible
  have noArrow : (identText name ++ '(' :: behind).take 3 ≠ ['-', '-', '>'] := by
    intro arrow
    cases (eq_hyphens_of_take_three filled arrow).2
  cases written : identText name ++ '(' :: behind with
  | nil => rw [written] at starts; cases starts
  | cons c rest =>
      refine ⟨c, rest, rfl, ?_⟩
      rw [written] at starts noRange noArrow width value
      rw [scan_of_startsIdent starts noRange noArrow, scanIdent, width, value, ← written,
        List.drop_left]
      apply if_neg
      intro address
      rw [ends address.1] at address
      cases address.2

theorem isFirst_atKeyword {name behind : Text} (filled : name ≠ []) (ends : EndsName behind) :
    IsFirst ('@' :: (identText name ++ behind)) (.leaf (.atKeyword name))
      ((identText name).length + 1) := by
  obtain ⟨width, value⟩ := (EscapedRun.reads_identText name).name_eq ends
  refine ⟨'@', _, rfl, ?_⟩
  have begins : BeginsMark '@' := ⟨rfl, rfl, rfl, by decide⟩
  change scan '@' (identText name ++ behind) = _
  rw [begins.scan_eq]
  change scanAt (identText name ++ behind) = _
  rw [scanAt, if_pos (startsIdent_identText name behind filled), width, value]

theorem goesOn_of_startsIdent {text : Text} (starts : startsIdent text = true) :
    (text.head?.any isNameChar || startsEscape text) = true := by
  cases text with
  | nil => cases starts
  | cons c rest =>
      by_cases hyphen : c = '-'
      · subst hyphen
        rfl
      · have cases : isNameStart c = true ∨ startsEscape (c :: rest) = true := by
          simpa [startsIdent, hyphen] using starts
        rcases cases with start | escape
        · simp [isNameChar, start]
        · rw [escape, Bool.or_true]

theorem ne_of_isDigit {c d : Char} (digit : isDigit c = true) (other : isDigit d = false) :
    c ≠ d := by
  intro same
  rw [same, other] at digit
  cases digit

theorem isNameStart_of_isDigit {c : Char} (digit : isDigit c = true) : isNameStart c = false := by
  have line : c ≠ '_' := ne_of_isDigit digit rfl
  simp only [isDigit, Bool.and_eq_true, decide_eq_true_eq, Char.reduceToNat] at digit
  simp only [isNameStart, Bool.or_eq_false_iff, Bool.and_eq_false_iff, decide_eq_false_iff_not,
    Char.reduceToNat, beq_eq_false_iff_ne]
  exact ⟨⟨⟨by omega, by omega⟩, line⟩, by omega⟩

theorem not_startsIdent_digit {c : Char} (digit : isDigit c = true) (rest : Text) :
    startsIdent (c :: rest) = false := by
  have start := isNameStart_of_isDigit digit
  have noBackslash : c ≠ '\\' := ne_of_isDigit digit rfl
  have noHyphen : c ≠ '-' := ne_of_isDigit digit rfl
  simp [startsIdent, startsEscape, start, noBackslash]

theorem not_startsIdent_hyphen {behind : Text} (ends : EndsName behind) :
    startsIdent ('-' :: behind) = false := by
  have outside (c : Char) (found : behind.head? = some c) :
      (isNameStart c || c == '-') = false := by
    have stopped := ends.char c found
    simp only [isNameChar, Bool.or_eq_false_iff] at stopped ⊢
    exact ⟨stopped.1.1, stopped.2⟩
  simp only [startsIdent, ends.escape, Bool.or_false]
  cases found : behind.head? with
  | none => rfl
  | some c => exact outside c found

theorem not_startsIdent_bare {name behind : Text} (bare : IsBareHash name)
    (ends : EndsName behind) :
    (nameText name ++ behind).head?.any isNameChar = true ∧
      startsIdent (nameText name ++ behind) = false := by
  have shown {c : Char} (plain : isNameChar c = true) : nameCharText c = [c] := if_pos plain
  rcases bare with ⟨c, rest, rfl, digit⟩ | rfl | ⟨c, rest, rfl, digit⟩
  · have plain : isNameChar c = true := by simp [isNameChar, digit]
    rw [nameText, List.flatMap_cons, shown plain]
    exact ⟨plain, not_startsIdent_digit digit _⟩
  · exact ⟨rfl, not_startsIdent_hyphen ends⟩
  · have plain : isNameChar c = true := by simp [isNameChar, digit]
    rw [nameText, List.flatMap_cons, List.flatMap_cons, shown rfl, shown plain]
    refine ⟨rfl, ?_⟩
    have start := isNameStart_of_isDigit digit
    have noHyphen : c ≠ '-' := ne_of_isDigit digit rfl
    have noBackslash : c ≠ '\\' := ne_of_isDigit digit rfl
    simp [startsIdent, startsEscape, start, noHyphen, noBackslash]

theorem isFirst_hash {name behind : Text} {isIdentifier : Bool}
    (spelled : (Leaf.hash name isIdentifier).IsSpelled) (ends : EndsName behind) :
    IsFirst (leafText (.hash name isIdentifier) ++ behind) (.leaf (.hash name isIdentifier))
      (leafText (.hash name isIdentifier)).length := by
  have begins : BeginsMark '#' := ⟨rfl, rfl, rfl, by decide⟩
  obtain ⟨filled, bare⟩ := spelled
  cases isIdentifier with
  | true =>
      have starts := startsIdent_identText name behind filled
      obtain ⟨width, value⟩ := (EscapedRun.reads_identText name).name_eq ends
      refine ⟨'#', identText name ++ behind, rfl, ?_⟩
      rw [begins.scan_eq]
      change scanHash (identText name ++ behind) = _
      rw [scanHash, if_pos (goesOn_of_startsIdent starts), width, value, starts]
      rfl
  | false =>
      obtain ⟨width, value⟩ := (EscapedRun.reads_nameText name).name_eq ends
      obtain ⟨plain, alone⟩ := not_startsIdent_bare (bare rfl) ends
      refine ⟨'#', nameText name ++ behind, rfl, ?_⟩
      rw [begins.scan_eq]
      change scanHash (nameText name ++ behind) = _
      rw [scanHash, if_pos (by rw [plain, Bool.true_or]), width, value, alone]
      rfl

/-! ### Strings and addresses -/

theorem isFirst_string (value behind : Text) :
    IsFirst (leafText (.string value true) ++ behind) (.leaf (.string value true))
      (leafText (.string value true)).length := by
  have begins : BeginsMark '"' := ⟨rfl, rfl, rfl, by decide⟩
  have reads := EscapedRun.reads_stringText value
  have stops : (EscapedRun.string '"').width ('"' :: behind) = 0 := rfl
  have none : (EscapedRun.string '"').value ('"' :: behind) = [] := rfl
  have whole : leafText (.string value true) ++ behind =
      '"' :: (value.flatMap stringCharText ++ '"' :: behind) := by
    simp [leafText]
  rw [whole]
  refine ⟨'"', _, rfl, ?_⟩
  rw [begins.scan_eq]
  change scanString '"' (value.flatMap stringCharText ++ '"' :: behind) = _
  unfold scanString
  simp only [reads.width_append, reads.value_append, stops, none, Nat.add_zero, List.append_nil,
    List.drop_left, if_true]
  simp [leafText]

theorem urlCharText_begins (c : Char) :
    ∃ d more, urlCharText c = d :: more ∧ isSpace d = false ∧ (d == '"' || d == '\'') = false := by
  fun_cases urlCharText c with
  | case1 => exact ⟨'\\', [c], rfl, rfl, rfl⟩
  | case2 => exact ⟨'\\', ['9', ' '], rfl, rfl, rfl⟩
  | case3 ordinary noTab =>
      simp only [List.mem_cons, List.not_mem_nil, or_false, not_or] at ordinary
      obtain ⟨noSingle, noDouble, _, noSpace, _, _⟩ := ordinary
      cases isBreak : escapedBreak? c with
      | none =>
          have noBreak := EscapedRun.ne_break_of_escapedBreak? isBreak
          exact ⟨c, [], rfl, by simp [isSpace, noSpace, noBreak, noTab],
            by simp [noSingle, noDouble]⟩
      | some spelling =>
          obtain ⟨d, more, written, _⟩ := escapedBreak_begins c
          rw [isBreak] at written
          exact ⟨'\\', d :: more, written, rfl, rfl⟩

/-- An address that is written out begins neither with a space nor with a quote. -/
theorem not_quoteFollows_urlText (value behind : Text) :
    (value.flatMap urlCharText ++ ')' :: behind).takeWhile isSpace = [] ∧
      quoteFollows (value.flatMap urlCharText ++ ')' :: behind) = false := by
  have begins : ∃ d more, value.flatMap urlCharText ++ ')' :: behind = d :: more ∧
      isSpace d = false ∧ (d == '"' || d == '\'') = false := by
    cases value with
    | nil => exact ⟨')', behind, rfl, rfl, rfl⟩
    | cons c rest =>
        obtain ⟨d, more, written, space, quote⟩ := urlCharText_begins c
        rw [List.flatMap_cons, written]
        exact ⟨d, _, rfl, space, quote⟩
  obtain ⟨d, more, written, space, quote⟩ := begins
  rw [written]
  unfold quoteFollows
  rw [List.takeWhile_cons, List.dropWhile_cons, space]
  exact ⟨rfl, quote⟩

theorem scanUrl_urlText (value behind : Text)
    (shown : ∀ c ∈ value, EscapedRun.isShownInUrl c = true) :
    scanUrl (value.flatMap urlCharText ++ ')' :: behind) =
      (.leaf (.url value true), (value.flatMap urlCharText).length + 1) := by
  have reads := EscapedRun.reads_urlText value shown
  have stops : EscapedRun.url.width (')' :: behind) = 0 := rfl
  have none : EscapedRun.url.value (')' :: behind) = [] := rfl
  obtain ⟨noSpace, _⟩ := not_quoteFollows_urlText value behind
  have noTrail : (')' :: behind).takeWhile isSpace = [] := rfl
  unfold scanUrl
  simp only [noSpace, List.length_nil, List.drop_zero, reads.width_append, reads.value_append,
    stops, none, Nat.add_zero, Nat.zero_add, List.append_nil, List.drop_left, noTrail]
  rfl

theorem isFirst_url (value behind : Text)
    (shown : ∀ c ∈ value, EscapedRun.isShownInUrl c = true) :
    IsFirst (leafText (.url value true) ++ behind) (.leaf (.url value true))
      (leafText (.url value true)).length := by
  have whole : leafText (.url value true) ++ behind =
      'u' :: 'r' :: 'l' :: '(' :: (value.flatMap urlCharText ++ ')' :: behind) := by
    simp [leafText]
  obtain ⟨width, name⟩ := (EscapedRun.reads_nameText ['u', 'r', 'l']).name_eq
    (endsName_round (value.flatMap urlCharText ++ ')' :: behind))
  change EscapedRun.name.width ('u' :: 'r' :: 'l' :: '(' :: _) = 3 at width
  change EscapedRun.name.value ('u' :: 'r' :: 'l' :: '(' :: _) = ['u', 'r', 'l'] at name
  obtain ⟨_, noQuote⟩ := not_quoteFollows_urlText value behind
  rw [whole]
  refine ⟨'u', _, rfl, ?_⟩
  rw [scan_of_startsIdent (startsIdent_of_isNameStart rfl _) rfl (by simp), scanIdent, width, name]
  change (if _ then _ else _) = _
  rw [if_pos ⟨rfl, noQuote⟩, scanUrl_urlText value behind shown]
  simp only [leafText, Prod.mk.injEq, true_and]
  simp
  omega

/-! ### Numerals -/

theorem beginsMantissa_apart {c : Char} (begins : beginsMantissa c = true) :
    isSpace c = false ∧ isNameStart c = false ∧ c ≠ '-' ∧ c ≠ '\\' := by
  simp only [beginsMantissa, Bool.or_eq_true, beq_iff_eq] at begins
  rcases begins with digit | rfl
  · have noSpace : c ≠ ' ' := ne_of_isDigit digit rfl
    have noBreak : c ≠ '\n' := ne_of_isDigit digit rfl
    have noTab : c ≠ '\t' := ne_of_isDigit digit rfl
    exact ⟨by simp [isSpace, noSpace, noBreak, noTab], isNameStart_of_isDigit digit,
      ne_of_isDigit digit rfl, ne_of_isDigit digit rfl⟩
  · exact ⟨rfl, rfl, by decide, by decide⟩

/-- What begins a numeral is neither white space nor a name. -/
theorem scan_eq_scanNumeric {c : Char} {rest : Text} (some : numeralWidth (c :: rest) ≠ 0) :
    scan c rest = scanNumeric (c :: rest) (numeralWidth (c :: rest)) := by
  have apart : isSpace c = false ∧ isNameStart c = false ∧ startsIdent (c :: rest) = false ∧
      (c :: rest).take 3 ≠ ['-', '-', '>'] := by
    rcases numeralWidth_begins _ some with
      ⟨d, more, same, begins⟩ | ⟨d, e, more, same, sign, begins⟩
    · obtain ⟨rfl, _⟩ := List.cons.inj same
      obtain ⟨space, start, noHyphen, noBackslash⟩ := beginsMantissa_apart begins
      exact ⟨space, start, by simp [startsIdent, startsEscape, start, noBackslash],
        fun arrow => noHyphen (List.cons.inj arrow).1⟩
    · obtain ⟨rfl, rfl⟩ := List.cons.inj same
      obtain ⟨_, start, noHyphen, noBackslash⟩ := beginsMantissa_apart begins
      rcases sign with rfl | rfl
      · exact ⟨rfl, rfl, rfl, by simp⟩
      · exact ⟨rfl, rfl, by simp [startsIdent, startsEscape, start, noHyphen, noBackslash],
          fun arrow => noHyphen (List.cons.inj (List.cons.inj arrow).2).1⟩
  obtain ⟨space, start, alone, noArrow⟩ := apart
  unfold scan
  dsimp only
  rw [space, if_neg Bool.false_ne_true, startsUnicodeRange_of_ne start, if_neg Bool.false_ne_true,
    if_neg noArrow, alone, if_neg Bool.false_ne_true, if_pos some]

/-- A numeral in front of a place where it ends is read as one. -/
theorem scan_numeral {numeral behind : Text} (isNumeral : IsNumeral numeral)
    (ends : EndsNumeral behind) {lexeme : Lexeme} {width : Nat}
    (numeric : scanNumeric (numeral ++ behind) numeral.length = (lexeme, width)) :
    IsFirst (numeral ++ behind) lexeme width := by
  have reach := isNumeral.width_append ends
  have some : numeralWidth (numeral ++ behind) ≠ 0 := by
    rw [reach]
    exact fun none => isNumeral.filled (List.length_eq_zero_iff.mp none)
  cases written : numeral ++ behind with
  | nil => exact absurd (List.append_eq_nil_iff.mp written).1 isNumeral.filled
  | cons c rest =>
      rw [written] at some reach numeric
      exact ⟨c, rest, rfl, by rw [scan_eq_scanNumeric some, reach, numeric]⟩

theorem isFirst_number {numeral behind : Text} (isNumeral : IsNumeral numeral)
    (ends : EndsBefore behind (.leaf (.number numeral))) :
    IsFirst (numeral ++ behind) (.leaf (.number numeral)) numeral.length := by
  obtain ⟨endsNumeral, alone, noPercent⟩ := ends
  apply scan_numeral isNumeral endsNumeral
  unfold scanNumeric
  dsimp only
  rw [List.drop_left, List.take_left, alone, if_neg Bool.false_ne_true, if_neg noPercent]

theorem isFirst_percentage {numeral : Text} (behind : Text) (isNumeral : IsNumeral numeral) :
    IsFirst (numeral ++ '%' :: behind) (.leaf (.percentage numeral)) (numeral.length + 1) := by
  have ends : EndsNumeral ('%' :: behind) := by
    refine ⟨?_, ?_, rfl⟩
    · intro c same
      cases same
      rfl
    · intro rest impossible
      cases impossible
  apply scan_numeral isNumeral ends
  unfold scanNumeric
  dsimp only
  rw [List.drop_left, List.take_left]
  rfl

/-! ### Units -/

theorem exponentWidth_of_ne {c : Char} (letter : ¬ (c = 'e' ∨ c = 'E')) (rest : Text) :
    exponentWidth (c :: rest) = 0 :=
  if_neg (fun both => letter both.1)

theorem exponentWidth_of_outside {c : Char} {rest : Text} (noSign : signWidth rest = 0)
    (outside : BeginsOutside isDigit rest) : exponentWidth (c :: rest) = 0 := by
  apply if_neg
  intro both
  apply both.2
  rw [noSign]
  exact digitsWidth_of_outside outside

theorem reads_unitText {unit : Text} (kept : losesCase unit = false) :
    EscapedRun.name.Reads (unitText unit) unit := by
  fun_cases unitText unit with
  | case1 => exact EscapedRun.Reads.nil
  | case2 c rest exponent =>
      have small : c = 'e' := by
        apply exponent.1.resolve_right
        intro capital
        subst capital
        rcases exponent.2 with rfl | hyphen
        · cases kept
        · cases rest with
          | nil => cases hyphen
          | cons d others =>
              cases hyphen
              cases kept
      subst small
      have letter : EscapedRun.name.Reads ['\\', '6', '5', ' '] ['e'] :=
        EscapedRun.Reads.numbered '6' ['5'] (by simp)
          (List.forall_mem_cons.mpr ⟨rfl, List.forall_mem_singleton.mpr rfl⟩) rfl
      exact letter.append (EscapedRun.reads_nameText rest)
  | case3 c rest => exact EscapedRun.reads_identText (c :: rest)

theorem startsIdent_unitText (unit behind : Text) (filled : unit ≠ []) :
    startsIdent (unitText unit ++ behind) = true := by
  fun_cases unitText unit with
  | case1 => exact absurd rfl filled
  | case2 => exact startsIdent_of_startsEscape (startsEscape_backslash '6' _ (by decide))
  | case3 => exact startsIdent_identText _ behind filled

/-- A written name whose first letter is not followed by a digit or a hyphen is no exponent. -/
theorem exponentWidth_letter {c d : Char} {rest : Text} (digit : isDigit d = false)
    (noHyphen : d ≠ '-') (behind : Text) :
    exponentWidth (c :: (nameText (d :: rest) ++ behind)) = 0 := by
  rw [nameText, List.flatMap_cons]
  rcases nameCharText_cases d with ⟨plain, written⟩ | ⟨more, written⟩
  · have noPlus : d ≠ '+' := by
      intro same
      subst same
      cases plain
    rw [written]
    apply exponentWidth_of_outside
    · exact if_neg (not_or.mpr ⟨noPlus, noHyphen⟩)
    · intro e same
      cases same
      exact digit
  · rw [written]
    apply exponentWidth_of_outside rfl
    intro e same
    cases same
    rfl

theorem exponentWidth_unitText {unit : Text} (behind : Text) (filled : unit ≠ [])
    (noExponent : startsExponent unit = false) : exponentWidth (unitText unit ++ behind) = 0 := by
  fun_cases unitText unit with
  | case1 => exact absurd rfl filled
  | case2 => exact exponentWidth_of_ne (by decide) _
  | case3 c rest plain =>
      have begins := identBegins (c :: rest) behind filled
      generalize identText (c :: rest) ++ behind = written at begins
      cases begins with
      | letter starts =>
          by_cases exponent : c = 'e' ∨ c = 'E'
          · cases rest with
            | nil => exact absurd ⟨exponent, Or.inl rfl⟩ plain
            | cons d others =>
                have noHyphen : d ≠ '-' :=
                  fun same => plain ⟨exponent, Or.inr (congrArg some same)⟩
                have noDigit : isDigit d = false := by
                  simpa [startsExponent, exponent] using noExponent
                exact exponentWidth_letter noDigit noHyphen behind
          · exact exponentWidth_of_ne exponent _
      | _ => exact exponentWidth_of_ne (by decide) _

theorem isFirst_dimension {numeral unit behind : Text}
    (spelled : (Leaf.dimension numeral unit).IsSpelled)
    (faithful : (Leaf.dimension numeral unit).isFaithful = true) (ends : EndsName behind) :
    IsFirst (numeral ++ unitText unit ++ behind) (.leaf (.dimension numeral unit))
      (numeral ++ unitText unit).length := by
  obtain ⟨isNumeral, filled⟩ := spelled
  have kept : startsExponent unit = false ∧ losesCase unit = false := by
    simpa [Leaf.isFaithful] using faithful
  have starts := startsIdent_unitText unit behind filled
  obtain ⟨width, value⟩ := (reads_unitText kept.2).name_eq ends
  have endsNumeral : EndsNumeral (unitText unit ++ behind) := by
    refine ⟨?_, ?_, exponentWidth_unitText behind filled kept.1⟩
    · intro c found
      cases written : unitText unit ++ behind with
      | nil => rw [written] at found; cases found
      | cons d more =>
          rw [written] at found starts
          cases found
          rw [← Bool.not_eq_true]
          intro digit
          rw [not_startsIdent_digit digit more] at starts
          cases starts
    · intro rest written
      rw [written] at starts
      cases starts
  rw [List.append_assoc]
  apply scan_numeral isNumeral endsNumeral
  unfold scanNumeric
  dsimp only
  rw [List.drop_left, List.take_left, starts, if_pos rfl, width, value, List.length_append]

/-! ### Ranges of code points -/

theorem scan_unicodeRange {c : Char} {rest : Text} (digit : isHexDigit c = true) :
    scan 'U' ('+' :: c :: rest) =
      (.leaf (.unicodeRange (rangeSpelling (c :: rest)).first (rangeSpelling (c :: rest)).last),
        (rangeSpelling (c :: rest)).width + 2) := by
  have range : startsUnicodeRange ('U' :: '+' :: c :: rest) = true := by
    simp [startsUnicodeRange, digit]
  unfold scan
  dsimp only
  rw [range, if_pos rfl]
  rfl

theorem isFirst_unicodeRange {first last : Nat} {behind : Text} (small : first < 16 ^ 6)
    (smallToo : last < 16 ^ 6) (ends : EndsRange behind) :
    IsFirst (leafText (.unicodeRange first last) ++ behind) (.leaf (.unicodeRange first last))
      (leafText (.unicodeRange first last)).length := by
  have read (codes : Text) (filled : codes ≠ []) (hexadecimal : ∀ c, codes.head? = some c →
      isHexDigit c = true) (width : Nat) (spelled : rangeSpelling codes = ⟨first, last, width⟩) :
      IsFirst ('U' :: '+' :: codes) (.leaf (.unicodeRange first last)) (width + 2) := by
    cases codes with
    | nil => exact absurd rfl filled
    | cons c rest =>
        refine ⟨'U', _, rfl, ?_⟩
        rw [scan_unicodeRange (hexadecimal c rfl), spelled]
  have begins (behind : Text) : ∀ c, (codePointText first ++ behind).head? = some c →
      isHexDigit c = true := by
    intro c found
    rw [List.head?_append_of_ne_nil _ (codePointText_ne_nil first)] at found
    exact isHexDigit_of_mem_codePointText first c (List.mem_of_head? found)
  by_cases same : first = last
  · subst same
    have whole : leafText (.unicodeRange first first) ++ behind =
        'U' :: '+' :: (codePointText first ++ behind) := by
      simp [leafText]
    rw [whole]
    have found := read _ (List.append_ne_nil_of_left_ne_nil (codePointText_ne_nil first) behind)
      (begins behind) _ (rangeSpelling_codePoint small ends)
    simpa [leafText] using found
  · have whole : leafText (.unicodeRange first last) ++ behind =
        'U' :: '+' :: (codePointText first ++ '-' :: (codePointText last ++ behind)) := by
      simp [leafText, same]
    rw [whole]
    have found := read _ (List.append_ne_nil_of_left_ne_nil (codePointText_ne_nil first) _)
      (begins _) _ (rangeSpelling_codePoints small smallToo ends)
    have size : (leafText (.unicodeRange first last)).length =
        (codePointText first).length + 1 + (codePointText last).length + 2 := by
      simp [leafText, same]
      omega
    rw [size]
    exact found

/-! ### Marks -/

theorem isFirst_badUrl (behind : Text) :
    IsFirst (leafText (.error .badUrl) ++ behind) (.leaf (.error .badUrl))
      (leafText (.error .badUrl)).length := by
  exact ⟨'u', _, rfl, rfl⟩

theorem isFirst_longMark {spelling : Text} (long : spelling ∈ longMarks) (behind : Text) :
    IsFirst (spelling ++ behind) (.leaf (.literal spelling)) spelling.length := by
  simp only [longMarks, List.mem_cons, List.not_mem_nil, or_false] at long
  rcases long with rfl | rfl | rfl | rfl | rfl | rfl | rfl | rfl
  all_goals exact ⟨_, _, rfl, rfl⟩

theorem isFirst_mark {c : Char} {behind : Text} (isMark : IsMark c) (shown : c ≠ '\\')
    (ends : MarkEnds c behind) : IsFirst (c :: behind) (.leaf (.literal [c])) 1 := by
  refine ⟨c, behind, rfl, ?_⟩
  rw [scan_eq_scanMark isMark.space (startsUnicodeRange_of_ne isMark.start behind) ends.arrow
    ends.ident ends.numeral]
  unfold scanMark
  by_cases at_ : c = '@'
  · subst at_
    rw [if_pos rfl, scanAt, ends.keyword rfl]
    rfl
  rw [if_neg at_]
  by_cases hash : c = '#'
  · subst hash
    rw [if_pos rfl, scanHash, ends.hash rfl]
    rfl
  rw [if_neg hash, if_neg (not_or.mpr isMark.quote),
    if_neg (fun both => ends.comment both.1 both.2),
    isMark.opening, isMark.closing]
  unfold scanLiteral
  rw [if_neg (fun both => ends.opening both.1 both.2),
    if_neg (fun both => ends.column both.1 both.2), if_neg (fun both => ends.match_ both.1 both.2)]

theorem isFirst_whitespace {spelling behind : Text} (filled : spelling ≠ [])
    (spaces : ∀ c ∈ spelling, isSpace c = true) (ends : BeginsOutside isSpace behind) :
    IsFirst (spelling ++ behind) (.leaf (.whitespace spelling)) spelling.length := by
  have run : (spelling ++ behind).takeWhile isSpace = spelling := by
    rw [takeWhile_outside ends, List.takeWhile_eq_self_iff.mpr spaces]
  cases spelling with
  | nil => exact absurd rfl filled
  | cons c rest =>
      refine ⟨c, rest ++ behind, rfl, ?_⟩
      have space := spaces c List.mem_cons_self
      rw [List.cons_append] at run
      unfold scan
      dsimp only
      rw [space, if_pos rfl, run]

theorem scan_opening (bracket : Bracket) (behind : Text) :
    scan bracket.opening behind = (.opener (.bracket bracket), 1) := by
  have begins : BeginsMark bracket.opening := by
    cases bracket <;> exact ⟨rfl, rfl, rfl, by decide⟩
  rw [begins.scan_eq]
  cases bracket <;> rfl

/-! ### All lexemes -/

/-- A lexeme that is written in front of a place where it ends is read there. -/
theorem isFirst_text (lexeme : Lexeme) (behind : Text) (spelled : lexeme.IsSpelled)
    (faithful : lexeme.isFaithful = true) (ends : lexeme.EndsBefore behind) :
    IsFirst (lexeme.text ++ behind) lexeme lexeme.text.length := by
  cases lexeme with
  | brokenOff found error => cases faithful
  | comment body closed => cases faithful
  | closer bracket => exact ⟨_, _, rfl, scan_closing bracket behind⟩
  | opener opener =>
      cases opener with
      | bracket bracket => exact ⟨_, _, rfl, scan_opening bracket behind⟩
      | function name =>
          have first := isFirst_function spelled ends
          simpa [text, openerText] using first
  | leaf found =>
      cases found with
      | whitespace spelling => exact isFirst_whitespace spelled.1 spelled.2 ends
      | comment body => cases faithful
      | ident name => exact isFirst_ident spelled ends
      | atKeyword name => exact isFirst_atKeyword spelled ends
      | hash name isIdentifier => exact isFirst_hash spelled ends
      | unicodeRange first last => exact isFirst_unicodeRange spelled.1 spelled.2 ends
      | number numeral => exact isFirst_number spelled ends
      | percentage numeral =>
          have first := isFirst_percentage behind spelled
          simpa [text, leafText] using first
      | dimension numeral unit => exact isFirst_dimension spelled faithful ends
      | string value closed =>
          cases closed with
          | false => cases faithful
          | true => exact isFirst_string value behind
      | url value closed =>
          cases closed with
          | false => cases faithful
          | true =>
              have shown : ∀ c ∈ value, EscapedRun.isShownInUrl c = true := by
                simpa [isFaithful, Leaf.isFaithful] using faithful
              exact isFirst_url value behind shown
      | error error =>
          have bad : error = .badUrl := by
            simpa [isFaithful, Leaf.isFaithful] using faithful
          subst bad
          exact isFirst_badUrl behind
      | literal spelling =>
          rcases spelled with ⟨c, rfl, isMark⟩ | long
          · have shown : c ≠ '\\' := by
              simpa [isFaithful, Leaf.isFaithful] using faithful
            exact isFirst_mark isMark shown ends
          · exact isFirst_longMark long behind

end Lexeme

end SheetCensus.Css
