import SheetCensus.Css.Escape
import SheetCensus.Css.Numeral
import SheetCensus.Css.Serialization
import SheetCensus.Proofs.Text.Ascii

set_option autoImplicit false

/-! Names, strings and addresses written out and read again. What is written for one character is
read as that character within a run, whatever stands behind it (`EscapedRun.Reads`), so a whole
name, string or address is read back as far as it goes. -/

namespace SheetCensus.Css

namespace EscapedRun

theorem widthFrom_skip (run : EscapedRun) (skip : Nat) (text : Text) (within : skip ≤ text.length) :
    run.widthFrom skip text = skip + run.width (text.drop skip) := by
  induction skip generalizing text with
  | zero => exact (Nat.zero_add _).symm
  | succ skip ih =>
      cases text with
      | nil => cases within
      | cons c rest =>
          rw [widthFrom, ih rest (Nat.le_of_succ_le_succ within), List.drop_succ_cons]
          omega

theorem valueFrom_skip (run : EscapedRun) (skip : Nat) (text : Text) :
    run.valueFrom skip text = run.value (text.drop skip) := by
  induction skip generalizing text with
  | zero => rfl
  | succ skip ih =>
      cases text with
      | nil => rfl
      | cons c rest => exact ih rest

/-- In a run the spelling stands for the value, whatever stands behind it. -/
structure Reads (run : EscapedRun) (spelling value : Text) : Prop where
  width_append : ∀ behind, run.width (spelling ++ behind) = spelling.length + run.width behind
  value_append : ∀ behind, run.value (spelling ++ behind) = value ++ run.value behind

namespace Reads

variable {run : EscapedRun}

theorem nil : run.Reads [] [] :=
  ⟨fun _ => (Nat.zero_add _).symm, fun _ => rfl⟩

theorem append {spelling value spellingToo valueToo : Text} (first : run.Reads spelling value)
    (second : run.Reads spellingToo valueToo) :
    run.Reads (spelling ++ spellingToo) (value ++ valueToo) := by
  constructor
  · intro behind
    rw [List.append_assoc, first.width_append, second.width_append, List.length_append,
      Nat.add_assoc]
  · intro behind
    rw [List.append_assoc, first.value_append, second.value_append, List.append_assoc]

theorem flatMap (write : Char → Text) (text : Text)
    (each : ∀ c ∈ text, run.Reads (write c) [c]) : run.Reads (text.flatMap write) text := by
  induction text with
  | nil => exact nil
  | cons c rest ih =>
      obtain ⟨here, later⟩ := List.forall_mem_cons.mp each
      exact here.append (ih later)

theorem plain {c : Char} (isPlain : run.plain c = true) (shown : c ≠ '\\') :
    run.Reads [c] [c] := by
  constructor
  · intro behind
    change run.widthFrom 0 (c :: behind) = 1 + run.widthFrom 0 behind
    rw [widthFrom, if_neg shown, if_pos isPlain, Nat.add_comm]
  · intro behind
    change run.valueFrom 0 (c :: behind) = c :: run.valueFrom 0 behind
    rw [valueFrom, if_neg shown, if_pos isPlain]

/-- A backslash with what it takes along. -/
theorem escape {taken : Text} {c : Char} (filled : taken ≠ []) (noBreak : taken.head? ≠ some '\n')
    (width : ∀ behind, escapeWidth (taken ++ behind) = taken.length)
    (value : ∀ behind, escapedChar (taken ++ behind) = c) : run.Reads ('\\' :: taken) [c] := by
  have filledToo (behind : Text) : taken ++ behind ≠ [] :=
    List.append_ne_nil_of_left_ne_nil filled _
  have noBreakToo (behind : Text) : (taken ++ behind).head? ≠ some '\n' := by
    rw [List.head?_append_of_ne_nil _ filled]
    exact noBreak
  constructor
  · intro behind
    change run.widthFrom 0 ('\\' :: (taken ++ behind)) = _
    rw [widthFrom, if_pos rfl, if_neg (noBreakToo behind), width,
      widthFrom_skip _ _ _ (by rw [List.length_append]; omega), List.drop_left, List.length_cons]
    omega
  · intro behind
    change run.valueFrom 0 ('\\' :: (taken ++ behind)) = _
    rw [valueFrom, if_pos rfl, if_neg (filledToo behind), if_neg (noBreakToo behind), width, value,
      valueFrom_skip, List.drop_left]
    rfl

/-- A backslash in front of a character that neither begins a number nor ends a line. -/
theorem escaped {c : Char} (noDigit : isHexDigit c = false) (noBreak : c ≠ '\n') :
    run.Reads ['\\', c] [c] := by
  have none (behind : Text) : escapeDigits (c :: behind) = [] := by
    unfold escapeDigits
    rw [List.take_succ_cons, List.takeWhile_cons, noDigit, if_neg Bool.false_ne_true]
  apply escape (List.cons_ne_nil c [])
  · exact fun same => noBreak (Option.some.inj same)
  · intro behind
    simp [escapeWidth, none]
  · intro behind
    simp [escapedChar, none]

/-- A backslash in front of the number of a character and a space. -/
theorem numbered (d : Char) (digits : Text) {c : Char} (few : digits.length ≤ 5)
    (hexadecimal : ∀ digit ∈ d :: digits, isHexDigit digit = true)
    (number : scalarOf (hexValue (d :: digits)) = c) :
    run.Reads ('\\' :: d :: (digits ++ [' '])) [c] := by
  have found (behind : Text) : escapeDigits (d :: (digits ++ [' ']) ++ behind) = d :: digits := by
    have whole : d :: (digits ++ [' ']) ++ behind = (d :: digits) ++ ' ' :: behind := by simp
    have within : (d :: digits).length ≤ 6 := Nat.succ_le_succ few
    unfold escapeDigits
    rw [whole, List.take_append, List.take_of_length_le within,
      List.takeWhile_append_of_pos hexadecimal]
    cases 6 - (d :: digits).length with
    | zero => simp
    | succ left => simp [isHexDigit, isDigit]
  apply escape (List.cons_ne_nil _ _)
  · intro same
    have digit := hexadecimal d List.mem_cons_self
    rw [Option.some.inj same] at digit
    cases digit
  · intro behind
    unfold escapeWidth
    rw [found]
    simp [isSpace]
  · intro behind
    unfold escapedChar
    rw [found]
    exact number

theorem escapedBreak {c : Char} {spelling : Text} (isBreak : escapedBreak? c = some spelling) :
    run.Reads spelling [c] := by
  unfold escapedBreak? at isBreak
  by_cases lineFeed : c = '\n'
  · rw [if_pos lineFeed] at isBreak
    cases isBreak
    exact numbered 'A' [] (Nat.zero_le _) (List.forall_mem_singleton.mpr rfl) (lineFeed ▸ rfl)
  rw [if_neg lineFeed] at isBreak
  by_cases carriageReturn : c = '\r'
  · rw [if_pos carriageReturn] at isBreak
    cases isBreak
    exact numbered 'D' [] (Nat.zero_le _) (List.forall_mem_singleton.mpr rfl)
      (carriageReturn ▸ rfl)
  rw [if_neg carriageReturn] at isBreak
  by_cases formFeed : c = '\x0c'
  · rw [if_pos formFeed] at isBreak
    cases isBreak
    exact numbered 'C' [] (Nat.zero_le _) (List.forall_mem_singleton.mpr rfl) (formFeed ▸ rfl)
  · rw [if_neg formFeed] at isBreak
    cases isBreak

/-- A character that is no digit, written with a backslash. -/
theorem broken {c : Char} (noDigit : isHexDigit c = false) :
    run.Reads ((escapedBreak? c).getD ['\\', c]) [c] := by
  cases isBreak : escapedBreak? c with
  | some spelling => exact escapedBreak isBreak
  | none =>
      apply escaped noDigit
      intro same
      rw [same] at isBreak
      cases isBreak

end Reads

/-! ### Names -/

/-- A digit of base sixteen is one of the ten digits, or a letter that may begin a name. -/
theorem isHexDigit_cases {c : Char} (digit : isHexDigit c = true) :
    isDigit c = true ∨ isNameStart c = true := by
  simp only [isHexDigit, isNameStart, Bool.or_eq_true, Bool.and_eq_true,
    decide_eq_true_eq] at digit ⊢
  rcases digit with (ten | lower) | upper
  · exact Or.inl ten
  · have range : 'a'.toNat ≤ c.toNat ∧ c.toNat ≤ 'z'.toNat :=
      ⟨lower.1, Nat.le_trans lower.2 (by decide)⟩
    exact Or.inr (Or.inl (Or.inl (Or.inl range)))
  · have range : 'A'.toNat ≤ c.toNat ∧ c.toNat ≤ 'Z'.toNat :=
      ⟨upper.1, Nat.le_trans upper.2 (by decide)⟩
    exact Or.inr (Or.inl (Or.inl (Or.inr range)))

theorem isNameChar_of_isHexDigit {c : Char} (digit : isHexDigit c = true) :
    isNameChar c = true := by
  rcases isHexDigit_cases digit with ten | letter
  · simp [isNameChar, ten]
  · simp [isNameChar, letter]

theorem ne_backslash_of_isNameChar {c : Char} (plain : isNameChar c = true) : c ≠ '\\' := by
  intro same
  rw [same] at plain
  cases plain

theorem reads_plainChar {c : Char} (plain : isNameChar c = true) : name.Reads [c] [c] :=
  Reads.plain plain (ne_backslash_of_isNameChar plain)

theorem value_name_cons {c : Char} (plain : isNameChar c = true) (rest : Text) :
    name.value (c :: rest) = c :: name.value rest :=
  (reads_plainChar plain).value_append rest

theorem reads_nameChar (c : Char) : name.Reads (nameCharText c) [c] := by
  unfold nameCharText
  by_cases plain : isNameChar c = true
  · rw [if_pos plain]
    exact reads_plainChar plain
  · rw [if_neg plain]
    apply Reads.broken
    rw [← Bool.not_eq_true]
    exact fun digit => plain (isNameChar_of_isHexDigit digit)

theorem reads_nameText (text : Text) : name.Reads (nameText text) text :=
  Reads.flatMap nameCharText text (fun c _ => reads_nameChar c)

theorem reads_numberedDigit {c : Char} (digit : isDigit c = true) :
    name.Reads ['\\', '3', c, ' '] [c] := by
  have range : '0'.toNat ≤ c.toNat ∧ c.toNat ≤ '9'.toNat := by
    simpa [isDigit] using digit
  apply Reads.numbered '3' [c] (by simp)
  · intro d member
    rcases List.mem_pair.mp member with rfl | rfl
    · rfl
    · simp [isHexDigit, digit]
  · have value : hexValue ['3', c] = c.toNat := by
      change 3 * 16 + hexDigitValue c = c.toNat
      rw [hexDigitValue, if_pos digit]
      simp only [Char.reduceToNat] at range ⊢
      omega
    rw [value, scalarOf, if_neg (by simp only [Char.reduceToNat] at range; omega),
      Char.ofNat_toNat]

theorem reads_firstChar (c : Char) : name.Reads (firstCharText c) [c] := by
  unfold firstCharText
  by_cases starts : isNameStart c = true
  · rw [if_pos starts]
    exact reads_plainChar (by simp [isNameChar, starts])
  rw [if_neg starts]
  by_cases digit : isDigit c = true
  · rw [if_pos digit]
    exact reads_numberedDigit digit
  · rw [if_neg digit]
    apply Reads.broken
    rw [← Bool.not_eq_true]
    intro hexadecimal
    rcases isHexDigit_cases hexadecimal with ten | letter
    · exact digit ten
    · exact starts letter

theorem reads_identText (text : Text) : name.Reads (identText text) text := by
  have hyphen : name.Reads ['-'] ['-'] := reads_plainChar rfl
  fun_cases identText text with
  | case1 => exact Reads.nil
  | case2 => exact Reads.escaped rfl (by decide)
  | case3 rest => exact hyphen.append (hyphen.append (reads_nameText rest))
  | case4 c rest => exact hyphen.append ((reads_firstChar c).append (reads_nameText rest))
  | case5 c rest => exact (reads_firstChar c).append (reads_nameText rest)

structure EndsName (behind : Text) : Prop where
  char : ∀ c, behind.head? = some c → isNameChar c = false
  escape : startsEscape behind = false

theorem width_of_endsName {behind : Text} (ends : EndsName behind) : name.width behind = 0 := by
  cases behind with
  | nil => rfl
  | cons c rest =>
      have stopped := ends.char c rfl
      change name.widthFrom 0 (c :: rest) = 0
      unfold widthFrom
      by_cases backslash : c = '\\'
      · subst backslash
        have lineFeed : rest.head? = some '\n' := by simpa [startsEscape] using ends.escape
        rw [if_pos rfl, if_pos lineFeed]
        rfl
      · rw [if_neg backslash]
        exact if_neg (by rw [name]; simp [stopped])

theorem value_of_endsName {behind : Text} (ends : EndsName behind) : name.value behind = [] := by
  cases behind with
  | nil => rfl
  | cons c rest =>
      have stopped := ends.char c rfl
      change name.valueFrom 0 (c :: rest) = []
      unfold valueFrom
      by_cases backslash : c = '\\'
      · subst backslash
        have lineFeed : rest.head? = some '\n' := by simpa [startsEscape] using ends.escape
        have filled : rest ≠ [] := by
          intro none
          rw [none] at lineFeed
          cases lineFeed
        rw [if_pos rfl, if_neg filled, if_pos lineFeed]
        rfl
      · rw [if_neg backslash]
        exact if_neg (by rw [name]; simp [stopped])

/-- A name that is written out in front of such a place is read whole. -/
theorem Reads.name_eq {spelling text behind : Text} (reads : name.Reads spelling text)
    (ends : EndsName behind) :
    name.width (spelling ++ behind) = spelling.length ∧ name.value (spelling ++ behind) = text := by
  rw [reads.width_append, reads.value_append, width_of_endsName ends, value_of_endsName ends,
    List.append_nil]
  exact ⟨rfl, rfl⟩

/-! ### Strings and addresses -/

theorem ne_break_of_escapedBreak? {c : Char} (none : escapedBreak? c = none) : c ≠ '\n' := by
  intro same
  rw [same] at none
  cases none

theorem reads_stringText (value : Text) :
    (string '"').Reads (value.flatMap stringCharText) value := by
  apply Reads.flatMap stringCharText value
  intro c _
  unfold stringCharText
  by_cases special : c = '"' ∨ c = '\\'
  · rw [if_pos special]
    rcases special with rfl | rfl <;> exact Reads.escaped rfl (by decide)
  · rw [if_neg special]
    cases isBreak : escapedBreak? c with
    | some spelling => exact Reads.escapedBreak isBreak
    | none =>
        have noBreak := ne_break_of_escapedBreak? isBreak
        obtain ⟨noQuote, noBackslash⟩ := not_or.mp special
        exact Reads.plain (by simp [string, noQuote, noBreak]) noBackslash

/-- A character that an address may hold, at least behind a backslash. -/
def isShownInUrl (c : Char) : Bool :=
  !isBadInUrl c || c ∈ ['\'', '"', '(']

theorem reads_urlText (value : Text) (shown : ∀ c ∈ value, isShownInUrl c = true) :
    url.Reads (value.flatMap urlCharText) value := by
  apply Reads.flatMap urlCharText value
  intro c member
  have visible := shown c member
  unfold urlCharText
  by_cases special : c ∈ ['\'', '"', '\\', ' ', '(', ')']
  · rw [if_pos special]
    simp only [List.mem_cons, List.not_mem_nil, or_false] at special
    rcases special with rfl | rfl | rfl | rfl | rfl | rfl <;> exact Reads.escaped rfl (by decide)
  rw [if_neg special]
  by_cases tab : c = '\t'
  · rw [if_pos tab]
    exact Reads.numbered '9' [] (Nat.zero_le _) (List.forall_mem_singleton.mpr rfl) (tab ▸ rfl)
  · rw [if_neg tab]
    simp only [List.mem_cons, List.not_mem_nil, or_false, not_or] at special
    obtain ⟨noSingle, noDouble, noBackslash, noSpace, noOpening, noClosing⟩ := special
    cases isBreak : escapedBreak? c with
    | some spelling => exact Reads.escapedBreak isBreak
    | none =>
        have noBreak := ne_break_of_escapedBreak? isBreak
        have good : isBadInUrl c = false := by
          simpa [isShownInUrl, noSingle, noDouble, noOpening] using visible
        exact Reads.plain (by simp [url, isSpace, good, noClosing, noSpace, noBreak, tab])
          noBackslash

end EscapedRun

/-! ### How a name begins -/

theorem startsEscape_backslash (c : Char) (rest : Text) (noBreak : c ≠ '\n') :
    startsEscape ('\\' :: c :: rest) = true := by
  simp [startsEscape, noBreak]

theorem startsIdent_of_isNameStart {c : Char} (starts : isNameStart c = true) (rest : Text) :
    startsIdent (c :: rest) = true := by
  by_cases hyphen : c = '-'
  · subst hyphen
    cases starts
  · simp [startsIdent, starts]

theorem startsIdent_of_startsEscape {text : Text} (escape : startsEscape text = true) :
    startsIdent text = true := by
  cases text with
  | nil => cases escape
  | cons c rest =>
      by_cases hyphen : c = '-'
      · subst hyphen
        cases escape
      · simp [startsIdent, escape]

theorem escapedBreak_begins (c : Char) :
    ∃ d more, (escapedBreak? c).getD ['\\', c] = '\\' :: d :: more ∧ d ≠ '\n' := by
  fun_cases escapedBreak? c with
  | case1 => exact ⟨'A', [' '], rfl, by decide⟩
  | case2 => exact ⟨'D', [' '], rfl, by decide⟩
  | case3 => exact ⟨'C', [' '], rfl, by decide⟩
  | case4 noBreak => exact ⟨c, [], rfl, noBreak⟩

/-- The first character of a name is written as it is, or behind a backslash. -/
theorem firstCharText_cases (c : Char) :
    (isNameStart c = true ∧ firstCharText c = [c]) ∨
      ∃ d more, firstCharText c = '\\' :: d :: more ∧ d ≠ '\n' := by
  fun_cases firstCharText c with
  | case1 starts => exact Or.inl ⟨starts, rfl⟩
  | case2 => exact Or.inr ⟨'3', [c, ' '], rfl, by decide⟩
  | case3 => exact Or.inr (escapedBreak_begins c)

/-- A character of a name is written as it is, or behind a backslash. -/
theorem nameCharText_cases (c : Char) :
    (isNameChar c = true ∧ nameCharText c = [c]) ∨ ∃ more, nameCharText c = '\\' :: more := by
  fun_cases nameCharText c with
  | case1 plain => exact Or.inl ⟨plain, rfl⟩
  | case2 =>
      obtain ⟨d, more, written, _⟩ := escapedBreak_begins c
      exact Or.inr ⟨d :: more, written⟩

/-- A character that is neither in a name nor a backslash stands behind the name. -/
theorem eq_nil_of_nameText {name behind more : Text} {c : Char} (outside : isNameChar c = false)
    (shown : c ≠ '\\') (found : nameText name ++ behind = c :: more) : name = [] := by
  cases name with
  | nil => rfl
  | cons d rest =>
      rw [nameText, List.flatMap_cons] at found
      rcases nameCharText_cases d with ⟨plain, written⟩ | ⟨others, written⟩
      · rw [written] at found
        obtain ⟨rfl, _⟩ := List.cons.inj found
        rw [outside] at plain
        cases plain
      · rw [written] at found
        exact absurd (List.cons.inj found).1.symm shown

/-- How a written name begins: with its first character, behind a hyphen or not, or with a
backslash. -/
inductive IdentBegins (behind : Text) : Text → Text → Prop
  | letter {c : Char} {rest : Text} (starts : isNameStart c = true) :
      IdentBegins behind (c :: rest) (c :: (nameText rest ++ behind))
  | escape {name more : Text} {d : Char} (noBreak : d ≠ '\n') :
      IdentBegins behind name ('\\' :: d :: more)
  | hyphens {rest : Text} :
      IdentBegins behind ('-' :: '-' :: rest) ('-' :: '-' :: (nameText rest ++ behind))
  | hyphenLetter {c : Char} {rest : Text} (starts : isNameStart c = true) :
      IdentBegins behind ('-' :: c :: rest) ('-' :: c :: (nameText rest ++ behind))
  | hyphenEscape {name more : Text} {d : Char} (noBreak : d ≠ '\n') :
      IdentBegins behind name ('-' :: '\\' :: d :: more)

theorem identBegins (name behind : Text) (filled : name ≠ []) :
    IdentBegins behind name (identText name ++ behind) := by
  fun_cases identText name with
  | case1 => exact absurd rfl filled
  | case2 => exact .escape (by decide)
  | case3 rest => exact .hyphens
  | case4 c rest =>
      rcases firstCharText_cases c with ⟨starts, written⟩ | ⟨d, more, written, noBreak⟩
      · rw [written]
        exact .hyphenLetter starts
      · rw [written]
        exact .hyphenEscape noBreak
  | case5 c rest =>
      rcases firstCharText_cases c with ⟨starts, written⟩ | ⟨d, more, written, noBreak⟩
      · rw [written]
        exact .letter starts
      · rw [written]
        exact .escape noBreak

theorem startsIdent_identText (name behind : Text) (filled : name ≠ []) :
    startsIdent (identText name ++ behind) = true := by
  have begins := identBegins name behind filled
  generalize identText name ++ behind = written at begins
  cases begins with
  | letter starts => exact startsIdent_of_isNameStart starts _
  | escape noBreak => exact startsIdent_of_startsEscape (startsEscape_backslash _ _ noBreak)
  | hyphens => simp [startsIdent]
  | hyphenLetter starts => simp [startsIdent, starts]
  | hyphenEscape noBreak => simp [startsIdent, startsEscape_backslash _ _ noBreak]

/-- Only a name of one letter can be read as the beginning of a range of code points. -/
theorem exists_of_startsUnicodeRange {name behind : Text} (filled : name ≠ [])
    (range : startsUnicodeRange (identText name ++ behind) = true) :
    (name = ['u'] ∨ name = ['U']) ∧
      ∃ c more, behind = '+' :: c :: more ∧ (isHexDigit c = true ∨ c = '?') := by
  obtain ⟨u, c, more, spelled, letter, digit⟩ := spelling_of_startsUnicodeRange range
  have begins := identBegins name behind filled
  generalize identText name ++ behind = written at begins spelled
  cases begins with
  | letter starts =>
      obtain ⟨rfl, later⟩ := List.cons.inj spelled
      obtain rfl := eq_nil_of_nameText rfl (by decide) later
      refine ⟨?_, c, more, later, digit⟩
      rcases letter with rfl | rfl
      · exact Or.inl rfl
      · exact Or.inr rfl
  | _ =>
      obtain ⟨rfl, _⟩ := List.cons.inj spelled
      exact absurd letter (by decide)

/-- Only the name of two hyphens can be read as the beginning of a mark. -/
theorem eq_hyphens_of_take_three {name behind : Text} (filled : name ≠ [])
    (arrow : (identText name ++ behind).take 3 = ['-', '-', '>']) :
    name = ['-', '-'] ∧ behind.head? = some '>' := by
  have begins := identBegins name behind filled
  generalize identText name ++ behind = written at begins arrow
  cases begins with
  | letter starts =>
      obtain ⟨rfl, _⟩ := List.cons.inj arrow
      cases starts
  | @hyphens rest =>
      cases later : nameText rest ++ behind with
      | nil => rw [later] at arrow; cases arrow
      | cons c more =>
          rw [later] at arrow
          cases arrow
          obtain rfl := eq_nil_of_nameText rfl (by decide) later
          exact ⟨rfl, congrArg List.head? later⟩
  | hyphenLetter starts =>
      obtain ⟨_, later⟩ := List.cons.inj arrow
      obtain ⟨rfl, _⟩ := List.cons.inj later
      cases starts
  | _ => cases arrow

end SheetCensus.Css
