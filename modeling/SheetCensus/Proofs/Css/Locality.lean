import SheetCensus.Css.Lexeme

set_option autoImplicit false

/-! How far a lexeme looks ahead. A stop is a character that can end every lexeme in front of it
and that is no part of the marks by which one lexeme is told from another. What is read in front
of a stop does not depend on anything behind it, unless the lexeme covers the stop itself
(`Lexeme.scan_stop`). -/

namespace SheetCensus.Css

structure IsStop (c : Char) : Prop where
  isNameChar_eq : isNameChar c = false
  isSpace_eq : isSpace c = false
  ne_backslash : c ≠ '\\'
  ne_plus : c ≠ '+'
  ne_point : c ≠ '.'
  ne_question : c ≠ '?'
  ne_exclamation : c ≠ '!'
  ne_round : c ≠ '('

namespace IsStop

variable {stop : Char} (stops : IsStop stop)

include stops

theorem isNameStart_eq : isNameStart stop = false := by
  have name := stops.isNameChar_eq
  simp only [isNameChar, Bool.or_eq_false_iff] at name
  exact name.1.1

theorem isDigit_eq : isDigit stop = false := by
  have name := stops.isNameChar_eq
  simp only [isNameChar, Bool.or_eq_false_iff] at name
  exact name.1.2

theorem ne_hyphen : stop ≠ '-' := by
  rintro rfl
  have name := stops.isNameChar_eq
  revert name
  decide

theorem isHexDigit_eq : isHexDigit stop = false := by
  have digit := stops.isDigit_eq
  have letter := stops.isNameStart_eq
  simp only [isHexDigit, digit, Bool.false_or, Bool.or_eq_false_iff, Bool.and_eq_false_iff,
    isNameStart, decide_eq_false_iff_not] at letter ⊢
  have a : 'a'.toNat = 97 := rfl
  have f : 'f'.toNat = 102 := rfl
  have z : 'z'.toNat = 122 := rfl
  have A : 'A'.toNat = 65 := rfl
  have F : 'F'.toNat = 70 := rfl
  have Z : 'Z'.toNat = 90 := rfl
  omega

end IsStop

/-! ### Runs in front of a stop -/

section

variable {stop : Char}

theorem takeWhile_stop (test : Char → Bool) (fails : test stop = false) (front tail : Text) :
    (front ++ stop :: tail).takeWhile test = front.takeWhile test := by
  induction front with
  | nil => simp [fails]
  | cons c rest ih => simp only [List.cons_append, List.takeWhile_cons, ih]

theorem takeWhile_take_stop (test : Char → Bool) (fails : test stop = false) (count : Nat)
    (front tail : Text) :
    ((front ++ stop :: tail).take count).takeWhile test = (front.take count).takeWhile test := by
  induction front generalizing count with
  | nil => cases count <;> simp [fails]
  | cons c rest ih =>
      cases count with
      | zero => rfl
      | succ count => simp only [List.cons_append, List.take_succ_cons, List.takeWhile_cons, ih]

theorem drop_stop {count : Nat} {front : Text} (within : count ≤ front.length) (tail : Text) :
    (front ++ stop :: tail).drop count = front.drop count ++ stop :: tail :=
  List.drop_append_of_le_length within

theorem head?_stop (front tail other : Text) :
    (front ++ stop :: tail).head? = (front ++ stop :: other).head? := by
  cases front <;> rfl

theorem length_takeWhile_le (test : Char → Bool) (text : Text) :
    (text.takeWhile test).length ≤ text.length :=
  (List.takeWhile_sublist test).length_le

end

variable {stop : Char} (stops : IsStop stop)

include stops

/-! ### Numerals -/

theorem signWidth_stop (front tail : Text) :
    signWidth (front ++ stop :: tail) = signWidth front := by
  cases front with
  | nil => simp [signWidth, stops.ne_plus, stops.ne_hyphen]
  | cons c rest => rfl

theorem digitsWidth_stop (front tail : Text) :
    digitsWidth (front ++ stop :: tail) = digitsWidth front := by
  unfold digitsWidth
  rw [takeWhile_stop isDigit stops.isDigit_eq]

theorem mantissaWidth_stop (front tail : Text) :
    mantissaWidth (front ++ stop :: tail) = mantissaWidth front := by
  have within : digitsWidth front ≤ front.length := length_takeWhile_le _ _
  unfold mantissaWidth
  simp only [digitsWidth_stop stops, drop_stop within]
  cases front.drop (digitsWidth front) with
  | nil => simp [stops.ne_point]
  | cons c rest => simp only [List.cons_append, digitsWidth_stop stops]

omit stops in
theorem signWidth_le_length (text : Text) : signWidth text ≤ text.length := by
  cases text with
  | nil => exact Nat.le_refl 0
  | cons c rest =>
      simp only [signWidth, List.length_cons]
      split <;> omega

omit stops in
theorem mantissaWidth_le_length (text : Text) : mantissaWidth text ≤ text.length := by
  have whole : digitsWidth text ≤ text.length := length_takeWhile_le _ _
  unfold mantissaWidth
  dsimp only
  cases found : text.drop (digitsWidth text) with
  | nil => exact whole
  | cons c rest =>
      have size := congrArg List.length found
      have fraction : digitsWidth rest ≤ rest.length := length_takeWhile_le _ _
      rw [List.length_drop, List.length_cons] at size
      dsimp only
      split <;> omega

theorem exponentWidth_stop (front tail : Text) :
    exponentWidth (front ++ stop :: tail) = exponentWidth front := by
  cases front with
  | nil =>
      have letter : ¬ (stop = 'e' ∨ stop = 'E') := by
        rintro (rfl | rfl)
        · exact absurd stops.isNameChar_eq (by decide)
        · exact absurd stops.isNameChar_eq (by decide)
      simp [exponentWidth, letter]
  | cons c rest =>
      have within := signWidth_le_length rest
      simp only [List.cons_append, exponentWidth, signWidth_stop stops, drop_stop within,
        digitsWidth_stop stops]

theorem numeralWidth_stop (front tail : Text) :
    numeralWidth (front ++ stop :: tail) = numeralWidth front := by
  have sign := signWidth_le_length front
  have mantissa := mantissaWidth_le_length (front.drop (signWidth front))
  rw [List.length_drop] at mantissa
  have both : signWidth front + mantissaWidth (front.drop (signWidth front)) ≤ front.length := by
    omega
  simp only [numeralWidth, signWidth_stop stops, drop_stop sign, mantissaWidth_stop stops,
    drop_stop both, exponentWidth_stop stops]

/-! ### Ranges of code points -/

theorem startsUnicodeRange_stop (front tail : Text) :
    startsUnicodeRange (front ++ stop :: tail) = startsUnicodeRange front := by
  match front with
  | [] => exact startsUnicodeRange_of_ne stops.isNameStart_eq tail
  | [u] =>
      simp [startsUnicodeRange, stops.ne_plus]
  | [u, plus] =>
      by_cases same : plus = '+'
      · subst same
        simp [startsUnicodeRange, stops.isHexDigit_eq, stops.ne_question]
      · simp [startsUnicodeRange, same]
  | u :: plus :: c :: rest =>
      by_cases same : plus = '+'
      · subst same
        rfl
      · simp [startsUnicodeRange, same]

theorem rangeSpelling_stop (front tail : Text) :
    rangeSpelling (front ++ stop :: tail) = rangeSpelling front := by
  have low : rangeDigits (front ++ stop :: tail) = rangeDigits front :=
    takeWhile_take_stop isHexDigit stops.isHexDigit_eq 6 front tail
  have within : (rangeDigits front).length ≤ front.length := by
    have shorter := length_takeWhile_le isHexDigit (front.take 6)
    rw [List.length_take] at shorter
    unfold rangeDigits
    omega
  have notWild : (stop == '?') = false := beq_eq_false_iff_ne.mpr stops.ne_question
  unfold rangeSpelling
  simp only [low, drop_stop within, takeWhile_take_stop (· == '?') notWild]
  cases front.drop (rangeDigits front).length with
  | nil => simp [stops.ne_hyphen]
  | cons c rest =>
      by_cases same : c = '-'
      · subst same
        have high : rangeDigits (rest ++ stop :: tail) = rangeDigits rest :=
          takeWhile_take_stop isHexDigit stops.isHexDigit_eq 6 rest tail
        simp only [List.cons_append, high]
      · simp [same]

/-! ### Names and escapes -/

omit stops in
theorem startsEscape_stop (notBackslash : stop ≠ '\\') (front tail other : Text) :
    startsEscape (front ++ stop :: tail) = startsEscape (front ++ stop :: other) := by
  cases front with
  | nil => simp [startsEscape, notBackslash]
  | cons c rest =>
      by_cases same : c = '\\'
      · subst same
        simp only [List.cons_append, startsEscape, head?_stop rest tail other]
      · simp [startsEscape, same]

theorem startsIdent_stop (front tail other : Text) :
    startsIdent (front ++ stop :: tail) = startsIdent (front ++ stop :: other) := by
  cases front with
  | nil => simp [startsIdent, startsEscape, stops.ne_hyphen, stops.ne_backslash]
  | cons c rest =>
      have escape := startsEscape_stop stops.ne_backslash rest tail other
      have escapeHere := startsEscape_stop stops.ne_backslash (c :: rest) tail other
      by_cases same : c = '-'
      · subst same
        simp only [List.cons_append, startsIdent, head?_stop rest tail other, escape]
      · simp only [List.cons_append] at escapeHere ⊢
        simp [startsIdent, escapeHere]

theorem escapeDigits_stop (front tail : Text) :
    escapeDigits (front ++ stop :: tail) = escapeDigits front :=
  takeWhile_take_stop isHexDigit stops.isHexDigit_eq 6 front tail

omit stops in
theorem length_escapeDigits_le (text : Text) : (escapeDigits text).length ≤ text.length := by
  have shorter := length_takeWhile_le isHexDigit (text.take 6)
  rw [List.length_take] at shorter
  unfold escapeDigits
  omega

theorem escapeWidth_stop (front tail other : Text) :
    escapeWidth (front ++ stop :: tail) = escapeWidth (front ++ stop :: other) := by
  have within := length_escapeDigits_le front
  unfold escapeWidth
  rw [escapeDigits_stop stops, escapeDigits_stop stops]
  split
  · cases front <;> rfl
  · rw [drop_stop within, drop_stop within, head?_stop _ tail other]

theorem escapedChar_stop (front tail other : Text) :
    escapedChar (front ++ stop :: tail) = escapedChar (front ++ stop :: other) := by
  unfold escapedChar
  rw [escapeDigits_stop stops, escapeDigits_stop stops]
  split
  · cases front <;> rfl
  · rfl

namespace EscapedRun

/-- A run that ends in front of the stop has the same width and the same value whatever is behind
the stop. -/
theorem runFrom_stop (run : EscapedRun) (skip : Nat) (front tail other : Text)
    (within : run.widthFrom skip (front ++ stop :: tail) ≤ front.length) :
    run.widthFrom skip (front ++ stop :: other) = run.widthFrom skip (front ++ stop :: tail) ∧
      run.valueFrom skip (front ++ stop :: other) = run.valueFrom skip (front ++ stop :: tail) := by
  induction front generalizing skip with
  | nil =>
      cases skip with
      | succ skip => exact absurd within (Nat.not_succ_le_zero _)
      | zero =>
          have bare : run.plain stop = false := by
            cases plain : run.plain stop with
            | false => rfl
            | true => simp [widthFrom, stops.ne_backslash, plain] at within
          simp [widthFrom, valueFrom, stops.ne_backslash, bare]
  | cons c rest ih =>
      -- What begins at the first character is told in front of the stop or by the stop itself, so
      -- only the way the run goes on is left, and that is in the bound.
      have further (skip : Nat)
          (here : run.widthFrom skip (rest ++ stop :: tail) + 1 ≤ (c :: rest).length) :=
        ih skip (Nat.le_of_succ_le_succ here)
      cases skip with
      | succ skip =>
          rw [List.cons_append, widthFrom] at within
          obtain ⟨width, value⟩ := further skip within
          simp only [List.cons_append, widthFrom, valueFrom, width, value, and_self]
      | zero =>
          have more (tail : Text) : rest ++ stop :: tail ≠ [] :=
            List.append_ne_nil_of_right_ne_nil rest (List.cons_ne_nil stop tail)
          simp only [List.cons_append, widthFrom, valueFrom, head?_stop rest other tail,
            escapeWidth_stop stops rest other tail, escapedChar_stop stops rest other tail,
            if_neg (more tail), if_neg (more other)] at within ⊢
          by_cases escape : c = '\\'
          · simp only [if_pos escape] at within ⊢
            by_cases lineFeed : (rest ++ stop :: tail).head? = some '\n'
            · simp only [if_pos lineFeed] at within ⊢
              cases kept : run.beforeLineFeed with
              | none => exact ⟨rfl, rfl⟩
              | some taken =>
                  simp only [kept] at within ⊢
                  obtain ⟨width, value⟩ := further taken.2 within
                  simp only [width, value, and_self]
            · simp only [if_neg lineFeed] at within ⊢
              obtain ⟨width, value⟩ := further _ within
              simp only [width, value, and_self]
          · simp only [if_neg escape] at within ⊢
            cases plain : run.plain c with
            | false => exact ⟨rfl, rfl⟩
            | true =>
                simp only [plain, if_true] at within ⊢
                obtain ⟨width, value⟩ := further 0 within
                simp only [width, value, and_self]

theorem width_stop (run : EscapedRun) (front tail other : Text)
    (within : run.width (front ++ stop :: tail) ≤ front.length) :
    run.width (front ++ stop :: other) = run.width (front ++ stop :: tail) :=
  (runFrom_stop stops run 0 front tail other within).1

theorem value_stop (run : EscapedRun) (front tail other : Text)
    (within : run.width (front ++ stop :: tail) ≤ front.length) :
    run.value (front ++ stop :: other) = run.value (front ++ stop :: tail) :=
  (runFrom_stop stops run 0 front tail other within).2

end EscapedRun

/-! ### Lexemes -/

namespace Lexeme

omit stops in
theorem remnantsWidth_pos (c : Char) (text : Text) : 0 < remnantsWidth (c :: text) := by
  generalize spelled : c :: text = whole
  fun_cases remnantsWidth whole with
  | case1 => cases spelled
  | case2 rest => exact Nat.succ_pos _
  | case3 rest => exact Nat.one_pos
  | case4 => exact Nat.succ_pos _

omit stops in
theorem remnantsWidth_cons (c : Char) (text : Text) (shown : c ≠ ')')
    (bare : c ≠ '\\' ∨ text.head? ≠ some ')') :
    remnantsWidth (c :: text) = remnantsWidth text + 1 := by
  generalize spelled : c :: text = whole
  fun_cases remnantsWidth whole with
  | case1 => cases spelled
  | case2 rest =>
      obtain ⟨rfl, rfl⟩ := List.cons.inj spelled
      simp at bare
  | case3 rest => exact absurd (List.cons.inj spelled).1 shown
  | case4 => rw [(List.cons.inj spelled).2]

omit stops in
theorem remnantsWidth_stop : ∀ front tail other : Text,
    remnantsWidth (front ++ stop :: tail) ≤ front.length →
      remnantsWidth (front ++ stop :: other) = remnantsWidth (front ++ stop :: tail)
  | [], tail, other, within => by
      have covered := remnantsWidth_pos stop tail
      exact absurd within (Nat.not_le_of_lt covered)
  | [c], tail, other, within => by
      by_cases shown : c = ')'
      · subst shown
        rfl
      · by_cases hidden : c = '\\' ∧ stop = ')'
        · -- A hidden stop is covered.
          obtain ⟨rfl, rfl⟩ := hidden
          simp [remnantsWidth] at within
        · have bare (tail : Text) : c ≠ '\\' ∨ (stop :: tail).head? ≠ some ')' := by
            simpa [Classical.or_iff_not_imp_left] using hidden
          have covered := remnantsWidth_pos stop tail
          rw [List.singleton_append, remnantsWidth_cons c _ shown (bare tail),
            List.length_singleton] at within
          omega
  | c :: second :: rest, tail, other, within => by
      by_cases shown : c = ')'
      · subst shown
        rfl
      · by_cases hidden : c = '\\' ∧ second = ')'
        · obtain ⟨rfl, rfl⟩ := hidden
          simp only [List.cons_append, remnantsWidth, List.length_cons] at within ⊢
          rw [remnantsWidth_stop rest tail other (by omega)]
        · have bare (tail : Text) :
              c ≠ '\\' ∨ (second :: (rest ++ stop :: tail)).head? ≠ some ')' := by
            simpa [Classical.or_iff_not_imp_left] using hidden
          have later := remnantsWidth_stop (second :: rest) tail other
          simp only [List.cons_append, List.length_cons,
            remnantsWidth_cons c _ shown (bare tail),
            remnantsWidth_cons c _ shown (bare other)] at within later ⊢
          rw [later (by omega)]

theorem quoteFollows_stop (front tail other : Text) :
    quoteFollows (front ++ stop :: tail) = quoteFollows (front ++ stop :: other) := by
  induction front with
  | nil => simp [quoteFollows, stops.isSpace_eq]
  | cons c rest ih =>
      unfold quoteFollows at ih ⊢
      simp only [List.cons_append, List.dropWhile_cons]
      split
      · exact ih
      · rfl

omit stops in
def urlEnd (value : Text) (reach trail : Nat) : Text → Lexeme × Nat
  | [] => (.brokenOff (.url value false) .urlAtEnd, reach)
  | c :: rest =>
      if c = ')' then (.leaf (.url value true), reach + 1)
      else if trail = 0 then (.leaf (.error .badUrl), reach + 1 + remnantsWidth rest)
      else (.leaf (.error .badUrl), reach + remnantsWidth (c :: rest))

omit stops in
def urlBody (lead : Nat) (body : Text) : Lexeme × Nat :=
  let width := EscapedRun.url.width body
  let trail := ((body.drop width).takeWhile isSpace).length
  urlEnd (EscapedRun.url.value body) (lead + width + trail) trail (body.drop (width + trail))

omit stops in
theorem scanUrl_eq (text : Text) :
    scanUrl text = urlBody (text.takeWhile isSpace).length
      (text.drop (text.takeWhile isSpace).length) :=
  rfl

omit stops in
theorem reach_le_urlEnd (value : Text) (reach trail : Nat) (left : Text) :
    reach ≤ (urlEnd value reach trail left).2 := by
  cases left with
  | nil => exact Nat.le_refl reach
  | cons c rest =>
      simp only [urlEnd]
      split
      · exact Nat.le_add_right reach 1
      · split
        · dsimp only
          omega
        · exact Nat.le_add_right reach _

omit stops in
theorem urlEnd_stop (value : Text) (reach trail : Nat) (left tail other : Text)
    (within : (urlEnd value reach trail (left ++ stop :: tail)).2 ≤ reach + left.length) :
    urlEnd value reach trail (left ++ stop :: other) =
      urlEnd value reach trail (left ++ stop :: tail) := by
  cases left with
  | nil =>
      -- Whatever this lexeme is, it covers the stop.
      have covered := remnantsWidth_pos stop tail
      simp only [urlEnd, List.nil_append, List.length_nil] at within
      split at within
      · exact absurd within (Nat.not_succ_le_self reach)
      · split at within
        · dsimp only at within
          omega
        · dsimp only at within
          omega
  | cons c rest =>
      simp only [urlEnd, List.cons_append] at within ⊢
      by_cases closes : c = ')'
      · rw [if_pos closes, if_pos closes]
      rw [if_neg closes] at within
      rw [if_neg closes, if_neg closes]
      by_cases none : trail = 0
      · rw [if_pos none, List.length_cons] at within
        rw [if_pos none, if_pos none, remnantsWidth_stop rest tail other (by omega)]
      · rw [if_neg none] at within
        have later := remnantsWidth_stop (c :: rest) tail other (Nat.le_of_add_le_add_left within)
        rw [List.cons_append, List.cons_append] at later
        rw [if_neg none, if_neg none, later]

theorem urlBody_stop (lead : Nat) (body tail other : Text)
    (within : (urlBody lead (body ++ stop :: tail)).2 ≤ lead + body.length) :
    urlBody lead (body ++ stop :: other) = urlBody lead (body ++ stop :: tail) := by
  have reach := Nat.le_trans (reach_le_urlEnd _ _ _ _) within
  have inBody : EscapedRun.url.width (body ++ stop :: tail) ≤ body.length := by omega
  unfold urlBody at within ⊢
  rw [EscapedRun.width_stop stops _ body tail other inBody,
    EscapedRun.value_stop stops _ body tail other inBody]
  generalize EscapedRun.url.width (body ++ stop :: tail) = width at reach within inBody ⊢
  have spaces := takeWhile_stop isSpace stops.isSpace_eq (body.drop width)
  simp only [drop_stop inBody, spaces] at reach within ⊢
  generalize ((body.drop width).takeWhile isSpace).length = trail at reach within ⊢
  have behind : width + trail ≤ body.length := by omega
  have left : (body.drop (width + trail)).length = body.length - (width + trail) :=
    List.length_drop
  rw [drop_stop behind] at within
  rw [drop_stop behind, drop_stop behind]
  apply urlEnd_stop
  omega

theorem scanUrl_stop (front tail other : Text)
    (within : (scanUrl (front ++ stop :: tail)).2 ≤ front.length) :
    scanUrl (front ++ stop :: other) = scanUrl (front ++ stop :: tail) := by
  have skipped : (front.takeWhile isSpace).length ≤ front.length := length_takeWhile_le _ _
  have spaces := takeWhile_stop isSpace stops.isSpace_eq front
  rw [scanUrl_eq, spaces, drop_stop skipped] at within
  rw [scanUrl_eq, scanUrl_eq, spaces, spaces, drop_stop skipped, drop_stop skipped]
  apply urlBody_stop stops
  rw [List.length_drop]
  omega

theorem scanIdent_stop (front tail other : Text)
    (within : (scanIdent (front ++ stop :: tail)).2 ≤ front.length) :
    scanIdent (front ++ stop :: other) = scanIdent (front ++ stop :: tail) := by
  have named : EscapedRun.name.width (front ++ stop :: tail) ≤ front.length := by
    refine Nat.le_trans ?_ within
    unfold scanIdent
    dsimp only
    split
    · split
      · dsimp only
        omega
      · dsimp only
        omega
    · exact Nat.le_refl _
  unfold scanIdent at within ⊢
  simp only [EscapedRun.width_stop stops _ front tail other named,
    EscapedRun.value_stop stops _ front tail other named] at within ⊢
  generalize EscapedRun.name.width (front ++ stop :: tail) = width at within named ⊢
  generalize EscapedRun.name.value (front ++ stop :: tail) = name at within ⊢
  have size : (front.drop width).length = front.length - width := List.length_drop
  simp only [drop_stop named] at within ⊢
  cases ends : front.drop width with
  | nil =>
      have notRound := stops.ne_round
      simp [notRound]
  | cons c rest =>
      rw [ends, List.length_cons] at size
      simp only [ends, List.cons_append] at within ⊢
      by_cases opens : c = '('
      · subst opens
        simp only [quoteFollows_stop stops rest other tail] at within ⊢
        by_cases address :
            name.lower = ['u', 'r', 'l'] ∧ quoteFollows (rest ++ stop :: tail) = false
        · simp only [if_pos address] at within ⊢
          rw [scanUrl_stop stops rest tail other (by omega)]
        · simp only [if_neg address]
      · simp [opens]

theorem scanNumeric_stop (front tail other : Text) (width : Nat)
    (within : (scanNumeric (front ++ stop :: tail) width).2 ≤ front.length) :
    scanNumeric (front ++ stop :: other) width = scanNumeric (front ++ stop :: tail) width := by
  have numeral : width ≤ front.length := by
    refine Nat.le_trans ?_ within
    unfold scanNumeric
    dsimp only
    split
    · dsimp only
      omega
    · split
      · dsimp only
        omega
      · exact Nat.le_refl _
  have size : (front.drop width).length = front.length - width := List.length_drop
  unfold scanNumeric at within ⊢
  simp only [drop_stop numeral, List.take_append_of_le_length numeral,
    startsIdent_stop stops _ other tail, head?_stop _ other tail] at within ⊢
  by_cases unit : startsIdent (front.drop width ++ stop :: tail) = true
  · simp only [if_pos unit] at within ⊢
    have named : EscapedRun.name.width (front.drop width ++ stop :: tail) ≤
        (front.drop width).length := by
      omega
    rw [EscapedRun.width_stop stops _ _ tail other named,
      EscapedRun.value_stop stops _ _ tail other named]
  · simp only [if_neg unit]

theorem scanString_stop (quote : Char) (front tail other : Text)
    (within : (scanString quote (front ++ stop :: tail)).2 ≤ front.length + 1) :
    scanString quote (front ++ stop :: other) = scanString quote (front ++ stop :: tail) := by
  have inside : (EscapedRun.string quote).width (front ++ stop :: tail) ≤ front.length := by
    have reach : (EscapedRun.string quote).width (front ++ stop :: tail) + 1 ≤
        (scanString quote (front ++ stop :: tail)).2 := by
      unfold scanString
      dsimp only
      split
      · exact Nat.le_refl _
      · split
        · dsimp only
          omega
        · exact Nat.le_refl _
    omega
  unfold scanString at within ⊢
  simp only [EscapedRun.width_stop stops _ front tail other inside,
    EscapedRun.value_stop stops _ front tail other inside, drop_stop inside] at within ⊢
  generalize (EscapedRun.string quote).width (front ++ stop :: tail) = width at within inside ⊢
  cases ends : front.drop width with
  | nil => rfl
  | cons c rest => rfl

omit stops in
theorem commentEnd?_stop (front tail other : Text) (length : Nat)
    (found : commentEnd? (front ++ stop :: tail) = some length)
    (within : length + 2 ≤ front.length) :
    commentEnd? (front ++ stop :: other) = some length := by
  induction front generalizing length with
  | nil => exact absurd within (by simp)
  | cons c rest ih =>
      simp only [List.cons_append, commentEnd?, head?_stop rest other tail] at found ⊢
      by_cases ends : c = '*' ∧ (rest ++ stop :: tail).head? = some '/'
      · rw [if_pos ends] at found ⊢
        exact found
      · rw [if_neg ends] at found ⊢
        obtain ⟨shorter, later, rfl⟩ := Option.map_eq_some_iff.mp found
        rw [List.length_cons] at within
        rw [ih shorter later (by omega)]
        rfl

omit stops in
theorem scanComment_stop (front tail other : Text)
    (within : (scanComment (front ++ stop :: tail)).2 ≤ front.length + 2) :
    scanComment (front ++ stop :: other) = scanComment (front ++ stop :: tail) := by
  unfold scanComment at within ⊢
  cases found : commentEnd? (front ++ stop :: tail) with
  | none =>
      simp only [found, List.length_append, List.length_cons] at within
      omega
  | some length =>
      simp only [found] at within
      rw [commentEnd?_stop front tail other length found (by omega)]
      have inside : length ≤ front.length := by omega
      simp only [List.take_append_of_le_length inside]

theorem scanAt_stop (front tail other : Text)
    (within : (scanAt (front ++ stop :: tail)).2 ≤ front.length + 1) :
    scanAt (front ++ stop :: other) = scanAt (front ++ stop :: tail) := by
  unfold scanAt at within ⊢
  rw [startsIdent_stop stops front other tail]
  by_cases keyword : startsIdent (front ++ stop :: tail) = true
  · simp only [if_pos keyword] at within ⊢
    have named : EscapedRun.name.width (front ++ stop :: tail) ≤ front.length := by omega
    rw [EscapedRun.width_stop stops _ _ tail other named,
      EscapedRun.value_stop stops _ _ tail other named]
  · rw [if_neg keyword, if_neg keyword]

theorem scanHash_stop (front tail other : Text)
    (within : (scanHash (front ++ stop :: tail)).2 ≤ front.length + 1) :
    scanHash (front ++ stop :: other) = scanHash (front ++ stop :: tail) := by
  unfold scanHash at within ⊢
  rw [startsIdent_stop stops front other tail, head?_stop front other tail,
    startsEscape_stop stops.ne_backslash front other tail]
  by_cases named : ((front ++ stop :: tail).head?.any isNameChar ||
      startsEscape (front ++ stop :: tail)) = true
  · simp only [if_pos named] at within ⊢
    have inside : EscapedRun.name.width (front ++ stop :: tail) ≤ front.length := by omega
    rw [EscapedRun.width_stop stops _ _ tail other inside,
      EscapedRun.value_stop stops _ _ tail other inside]
  · rw [if_neg named, if_neg named]

omit stops in
theorem take_three_stop (front tail other : Text) (first second third : Char)
    (notFirst : stop ≠ first) (notSecond : stop ≠ second) :
    (front ++ stop :: tail).take 3 = [first, second, third] ↔
      (front ++ stop :: other).take 3 = [first, second, third] := by
  match front with
  | [] => simp [notFirst]
  | [a] => simp [notSecond]
  | [a, b] => simp
  | a :: b :: c :: rest => simp

theorem scanLiteral_stop (first : Char) (front tail other : Text) :
    scanLiteral first (front ++ stop :: other) = scanLiteral first (front ++ stop :: tail) := by
  have opens := take_three_stop front other tail '!' '-' '-' stops.ne_exclamation
    stops.ne_hyphen
  unfold scanLiteral
  simp only [opens, head?_stop front other tail]

theorem scanMark_stop (first : Char) (front tail other : Text)
    (within : (scanMark first (front ++ stop :: tail)).2 ≤ front.length + 1) :
    scanMark first (front ++ stop :: other) = scanMark first (front ++ stop :: tail) := by
  unfold scanMark at within ⊢
  by_cases at_ : first = '@'
  · simp only [if_pos at_] at within ⊢
    exact scanAt_stop stops front tail other within
  by_cases hash : first = '#'
  · simp only [if_neg at_, if_pos hash] at within ⊢
    exact scanHash_stop stops front tail other within
  by_cases quote : first = '"' ∨ first = '\''
  · simp only [if_neg at_, if_neg hash, if_pos quote] at within ⊢
    exact scanString_stop stops first front tail other within
  simp only [if_neg at_, if_neg hash, if_neg quote, head?_stop front other tail] at within ⊢
  by_cases comment : first = '/' ∧ (front ++ stop :: tail).head? = some '*'
  · simp only [if_pos comment] at within ⊢
    cases front with
    | nil =>
        have covered : 2 ≤ (scanComment tail).2 := by
          unfold scanComment
          split
          · dsimp only
            omega
          · dsimp only
            omega
        exact absurd (Nat.le_trans covered within) (by decide)
    | cons star body =>
        exact scanComment_stop body tail other within
  · simp only [if_neg comment]
    rw [scanLiteral_stop stops first front tail other]

theorem scanUnicodeRange_stop (first : Char) (front tail : Text)
    (range : startsUnicodeRange (first :: front) = true) :
    rangeSpelling ((front ++ stop :: tail).drop 1) = rangeSpelling (front.drop 1) := by
  cases front with
  | nil => cases range
  | cons plus rest => exact rangeSpelling_stop stops rest tail

/-- A lexeme that ends in front of a stop is the same whatever is behind the stop. -/
theorem scan_stop (first : Char) (front tail other : Text)
    (within : (scan first (front ++ stop :: tail)).2 ≤ front.length + 1) :
    scan first (front ++ stop :: other) = scan first (front ++ stop :: tail) := by
  have spaces (tail : Text) : (first :: (front ++ stop :: tail)).takeWhile isSpace = _ :=
    takeWhile_stop isSpace stops.isSpace_eq (first :: front) tail
  have range (tail : Text) : startsUnicodeRange (first :: (front ++ stop :: tail)) = _ :=
    startsUnicodeRange_stop stops (first :: front) tail
  have numeral (tail : Text) : numeralWidth (first :: (front ++ stop :: tail)) = _ :=
    numeralWidth_stop stops (first :: front) tail
  have arrow : (first :: (front ++ stop :: other)).take 3 = ['-', '-', '>'] ↔
      (first :: (front ++ stop :: tail)).take 3 = ['-', '-', '>'] :=
    take_three_stop (first :: front) other tail '-' '-' '>' stops.ne_hyphen stops.ne_hyphen
  have ident : startsIdent (first :: (front ++ stop :: other)) =
      startsIdent (first :: (front ++ stop :: tail)) :=
    startsIdent_stop stops (first :: front) other tail
  unfold scan at within ⊢
  simp only [spaces, range, numeral, arrow, ident] at within ⊢
  by_cases space : isSpace first = true
  · rw [if_pos space, if_pos space]
  rw [if_neg space] at within
  rw [if_neg space, if_neg space]
  by_cases ranges : startsUnicodeRange (first :: front) = true
  · rw [if_pos ranges, if_pos ranges, scanUnicodeRange_stop stops first front other ranges,
      scanUnicodeRange_stop stops first front tail ranges]
  rw [if_neg ranges] at within
  rw [if_neg ranges, if_neg ranges]
  by_cases closing : (first :: (front ++ stop :: tail)).take 3 = ['-', '-', '>']
  · rw [if_pos closing, if_pos closing]
  rw [if_neg closing] at within
  rw [if_neg closing, if_neg closing]
  by_cases named : startsIdent (first :: (front ++ stop :: tail)) = true
  · rw [if_pos named] at within
    rw [if_pos named, if_pos named]
    exact scanIdent_stop stops (first :: front) tail other within
  rw [if_neg named] at within
  rw [if_neg named, if_neg named]
  by_cases counted : numeralWidth (first :: front) ≠ 0
  · rw [if_pos counted] at within
    rw [if_pos counted, if_pos counted]
    exact scanNumeric_stop stops (first :: front) tail other _ within
  rw [if_neg counted] at within
  rw [if_neg counted, if_neg counted]
  exact scanMark_stop stops first front tail other within

end Lexeme

end SheetCensus.Css
