import SheetCensus.Census.Count
import SheetCensus.Proofs.Text.Ascii

set_option autoImplicit false

/-! What the tests for selectors find. A pattern occurs in a text exactly when some window of the
text passes its tests one by one (`Pattern.occursIn_iff`), so both tests can be read as statements
about windows (`selector_tests_iff`), and nothing else of the selector matters to them. -/

namespace SheetCensus

namespace Pattern

abbrev Passes (pattern : Pattern) (window : Text) : Prop :=
  List.Forall₂ (fun test c => test c = true) pattern window

theorem passes_cons_iff (test : Char → Bool) (tests : Pattern) (window : Text) :
    Passes (test :: tests) window ↔
      ∃ c rest, test c = true ∧ Passes tests rest ∧ window = c :: rest :=
  List.forall₂_cons_left_iff

theorem opens_iff (pattern : Pattern) (text : Text) :
    pattern.opens text = true ↔ ∃ window, window <+: text ∧ pattern.Passes window := by
  induction pattern generalizing text with
  | nil => exact ⟨fun _ => ⟨[], List.nil_prefix, .nil⟩, fun _ => rfl⟩
  | cons test tests ih =>
      cases text with
      | nil =>
          constructor
          · intro impossible
            cases impossible
          · intro found
            obtain ⟨window, begins, passes⟩ := found
            rw [List.prefix_nil.mp begins] at passes
            cases passes
      | cons c rest =>
          rw [opens, Bool.and_eq_true, ih]
          constructor
          · intro found
            obtain ⟨first, window, begins, passes⟩ := found
            exact ⟨c :: window, List.cons_prefix_cons.mpr ⟨rfl, begins⟩, .cons first passes⟩
          · intro found
            obtain ⟨window, begins, passes⟩ := found
            obtain ⟨d, others, first, more, rfl⟩ := (passes_cons_iff test tests window).mp passes
            obtain ⟨rfl, inside⟩ := List.cons_prefix_cons.mp begins
            exact ⟨first, others, inside, more⟩

theorem occursIn_iff (pattern : Pattern) (text : Text) :
    pattern.occursIn text = true ↔ ∃ window, window <:+: text ∧ pattern.Passes window := by
  induction text with
  | nil =>
      rw [occursIn, opens_iff]
      simp only [List.prefix_nil, List.infix_nil]
  | cons c rest ih =>
      rw [occursIn, Bool.or_eq_true, opens_iff, ih]
      simp only [List.infix_cons_iff, or_and_right, exists_or]

/-- What occurs in a text occurs in every longer one. -/
theorem occursIn_extend (pattern : Pattern) (before text after : Text)
    (occurs : pattern.occursIn text = true) :
    pattern.occursIn (before ++ text ++ after) = true := by
  obtain ⟨window, inside, passes⟩ := (occursIn_iff pattern text).mp occurs
  have within := inside.trans (List.infix_append before text after)
  exact (occursIn_iff pattern _).mpr ⟨window, within, passes⟩

/-! ### Letter case -/

def IsBlindTest (test : Char → Bool) : Prop :=
  ∀ c other, SameLetter c other → test other = test c

def IsCaseBlind (pattern : Pattern) : Prop :=
  ∀ test ∈ pattern, IsBlindTest test

theorem opens_eq_of_sameLetters {pattern : Pattern} (blind : pattern.IsCaseBlind)
    {text other : Text} (same : SameLetters text other) :
    pattern.opens other = pattern.opens text := by
  induction pattern generalizing text other with
  | nil => rfl
  | cons test tests ih =>
      obtain ⟨first, later⟩ := List.forall_mem_cons.mp blind
      cases same with
      | nil => rfl
      | @cons c d rest restToo here more =>
          rw [opens, opens, first c d here, ih later more]

theorem occursIn_eq_of_sameLetters {pattern : Pattern} (blind : pattern.IsCaseBlind)
    {text other : Text} (same : SameLetters text other) :
    pattern.occursIn other = pattern.occursIn text := by
  induction same with
  | nil => rfl
  | @cons c d rest restToo here more ih =>
      rw [occursIn, occursIn, ih, opens_eq_of_sameLetters blind (.cons here more)]

theorem isCaseBlind_cons {test : Char → Bool} {tests : Pattern} (first : IsBlindTest test)
    (later : tests.IsCaseBlind) : IsCaseBlind (test :: tests) :=
  List.forall_mem_cons.mpr ⟨first, later⟩

theorem isCaseBlind_append {left right : Pattern} (leftBlind : left.IsCaseBlind)
    (rightBlind : right.IsCaseBlind) : IsCaseBlind (left ++ right) := by
  intro test member
  exact (List.mem_append.mp member).elim (leftBlind test) (rightBlind test)

theorem isCaseBlind_word (letters : Text) : (word letters).IsCaseBlind := by
  intro test member c other same
  obtain ⟨wanted, _, rfl⟩ := List.mem_map.mp member
  unfold letter
  rw [(sameLetter_iff c other).mp same]

theorem isBlindTest_digit : IsBlindTest digit := by
  have apart (d : Char) (letter : 65 ≤ d.toNat) : d.isDigit = false := by
    rw [← Bool.not_eq_true, isDigit_iff]
    intro isDigit
    have high : d.toNat ≤ 57 := isDigit.2
    omega
  intro c other same
  rcases same.cases_letter with rfl | letters
  · rfl
  · unfold digit
    rw [apart c letters.1, apart other letters.2.2.1]

theorem isBlindTest_bne_hyphen : IsBlindTest (fun c => c != '-') := by
  have apart (d : Char) (letter : 65 ≤ d.toNat) : (d != '-') = true := by
    apply bne_iff_ne.mpr
    intro hyphen
    subst hyphen
    exact absurd letter (by decide)
  intro c other same
  rcases same.cases_letter with rfl | letters
  · rfl
  · dsimp only
    rw [apart c letters.1, apart other letters.2.2.1]

theorem isCaseBlind_background : background.IsCaseBlind :=
  isCaseBlind_append (isCaseBlind_word _) (isCaseBlind_cons isBlindTest_digit (isCaseBlind_word _))

theorem isCaseBlind_color : color.IsCaseBlind := by
  apply isCaseBlind_append (isCaseBlind_word _)
  apply isCaseBlind_cons isBlindTest_digit
  exact isCaseBlind_cons isBlindTest_bne_hyphen (by simp [IsCaseBlind])

/-! ### Windows -/

theorem passes_append_iff (left right : Pattern) (window : Text) :
    Passes (left ++ right) window ↔
      ∃ front back, window = front ++ back ∧ left.Passes front ∧ right.Passes back := by
  induction left generalizing window with
  | nil =>
      constructor
      · intro passes
        exact ⟨[], window, rfl, .nil, passes⟩
      · intro parted
        obtain ⟨front, back, rfl, first, second⟩ := parted
        cases first
        exact second
  | cons test tests ih =>
      simp only [List.cons_append, passes_cons_iff, ih]
      constructor
      · intro passes
        obtain ⟨c, rest, here, ⟨front, back, rfl, first, second⟩, rfl⟩ := passes
        exact ⟨c :: front, back, rfl, ⟨c, front, here, first, rfl⟩, second⟩
      · intro parted
        obtain ⟨_, back, rfl, ⟨c, front, here, first, rfl⟩, second⟩ := parted
        exact ⟨c, front ++ back, here, ⟨front, back, rfl, first, second⟩, rfl⟩

/-- A word in lower case is passed by its own letters in either case. -/
theorem passes_word_iff (letters : Text) (lowered : letters.map Char.toLower = letters)
    (window : Text) : (word letters).Passes window ↔ SameLetters letters window := by
  induction letters generalizing window with
  | nil => exact List.forall₂_nil_left_iff.trans List.forall₂_nil_left_iff.symm
  | cons wanted others ih =>
      obtain ⟨here, later⟩ := List.cons.inj lowered
      have first (c : Char) : letter wanted c = true ↔ SameLetter wanted c := by
        unfold letter
        rw [beq_iff_eq, sameLetter_iff, here]
        exact eq_comm
      unfold word at ih ⊢
      unfold SameLetters at ih ⊢
      rw [List.map_cons, passes_cons_iff, List.forall₂_cons_left_iff]
      simp only [first, ih later]

end Pattern

/-- The word `color-`, a digit and the word `-background`, letters in either case. -/
def NamesBackground (window : Text) : Prop :=
  ∃ front digit back, window = front ++ digit :: back ∧ SameLetters "color-".toList front ∧
    IsAsciiDigit digit ∧ SameLetters "-background".toList back

/-- The word `color-`, letters in either case, a digit and one more character but a hyphen. -/
def NamesColor (window : Text) : Prop :=
  ∃ front digit last, window = front ++ [digit, last] ∧ SameLetters "color-".toList front ∧
    IsAsciiDigit digit ∧ last ≠ '-'

theorem passes_background_iff (window : Text) :
    Pattern.background.Passes window ↔ NamesBackground window := by
  unfold Pattern.background NamesBackground
  simp only [Pattern.passes_append_iff, Pattern.passes_cons_iff,
    Pattern.passes_word_iff "color-".toList rfl,
    Pattern.passes_word_iff "-background".toList rfl, Pattern.digit, isDigit_iff]
  constructor
  · intro passes
    obtain ⟨front, _, rfl, named, digit, back, isDigit, more, rfl⟩ := passes
    exact ⟨front, digit, back, rfl, named, isDigit, more⟩
  · intro names
    obtain ⟨front, digit, back, rfl, named, isDigit, more⟩ := names
    exact ⟨front, digit :: back, rfl, named, digit, back, isDigit, more, rfl⟩

theorem passes_color_iff (window : Text) :
    Pattern.color.Passes window ↔ NamesColor window := by
  unfold Pattern.color NamesColor
  simp only [Pattern.passes_append_iff, Pattern.passes_cons_iff,
    Pattern.passes_word_iff "color-".toList rfl, Pattern.digit, isDigit_iff, bne_iff_ne]
  constructor
  · intro passes
    obtain ⟨front, _, rfl, named, digit, _, isDigit, ⟨last, _, other, none, rfl⟩, rfl⟩ := passes
    cases none
    exact ⟨front, digit, last, rfl, named, isDigit, other⟩
  · intro names
    obtain ⟨front, digit, last, rfl, named, isDigit, other⟩ := names
    exact ⟨front, [digit, last], rfl, named, digit, [last], isDigit, ⟨last, [], other, .nil, rfl⟩,
      rfl⟩

/-! ### The tests -/

theorem SameLetters.isAscii {letters window : Text} (same : SameLetters letters window)
    (ascii : ∀ c ∈ letters, c.toNat < 128) : ∀ c ∈ window, c.toNat < 128 := by
  induction same with
  | nil => exact ascii
  | @cons wanted c others rest here _ ih =>
      obtain ⟨first, later⟩ := List.forall_mem_cons.mp ascii
      refine List.forall_mem_cons.mpr ⟨?_, ih later⟩
      rcases here.cases_letter with rfl | letter
      · exact first
      · omega

theorem IsAsciiDigit.isAscii {digit : Char} (isDigit : IsAsciiDigit digit) :
    digit.toNat < 128 := by
  have high : digit.toNat ≤ 57 := isDigit.2
  omega

theorem NamesBackground.isAscii {window : Text} (names : NamesBackground window) :
    ∀ c ∈ window, c.toNat < 128 := by
  obtain ⟨front, digit, back, rfl, named, isDigit, more⟩ := names
  refine List.forall_mem_append.mpr ⟨named.isAscii (by simp), List.forall_mem_cons.mpr ?_⟩
  exact ⟨isDigit.isAscii, more.isAscii (by simp)⟩

/-- Only the last character of such a window may lie beyond ASCII. -/
theorem NamesColor.isAscii {window : Text} (names : NamesColor window) :
    ∀ c ∈ window.dropLast, c.toNat < 128 := by
  obtain ⟨front, digit, last, rfl, named, isDigit, _⟩ := names
  rw [List.dropLast_append_of_ne_nil (List.cons_ne_nil _ _)]
  refine List.forall_mem_append.mpr ⟨named.isAscii (by simp), ?_⟩
  exact List.forall_mem_singleton.mpr isDigit.isAscii

/-- A selector passes a test exactly when one of its windows is of the kind that the test is for.
The case of letters does not matter, only ASCII counts as a letter or digit, and what stands around
a selector takes nothing away from it. -/
theorem selector_tests_iff (selector : Text) :
    (isBackgroundSelector selector = true ↔
        ∃ window, window <:+: selector ∧ NamesBackground window) ∧
      (isColorSelector selector = true ↔ ∃ window, window <:+: selector ∧ NamesColor window) ∧
      (∀ window, NamesBackground window → ∀ c ∈ window, c.toNat < 128) ∧
      (∀ window, NamesColor window → ∀ c ∈ window.dropLast, c.toNat < 128) ∧
      (∀ other, SameLetters selector other →
        isBackgroundSelector other = isBackgroundSelector selector ∧
          isColorSelector other = isColorSelector selector) ∧
      ∀ before after,
        (isBackgroundSelector selector = true →
            isBackgroundSelector (before ++ selector ++ after) = true) ∧
          (isColorSelector selector = true →
            isColorSelector (before ++ selector ++ after) = true) := by
  refine ⟨?_, ?_, fun _ => NamesBackground.isAscii, fun _ => NamesColor.isAscii, ?_, ?_⟩
  · unfold isBackgroundSelector
    simp only [Pattern.occursIn_iff, passes_background_iff]
  · unfold isColorSelector
    simp only [Pattern.occursIn_iff, passes_color_iff]
  · intro other same
    exact ⟨Pattern.occursIn_eq_of_sameLetters Pattern.isCaseBlind_background same,
      Pattern.occursIn_eq_of_sameLetters Pattern.isCaseBlind_color same⟩
  · intro before after
    exact ⟨Pattern.occursIn_extend _ before selector after,
      Pattern.occursIn_extend _ before selector after⟩

/-- A character beyond ASCII may follow the digit, and a hyphen must not stand for it. -/
theorem selector_tests_iff_at_accent :
    SameLetters ['.', 'c', 'o', 'l', 'o', 'r', '-', '1', 'é']
        ['.', 'C', 'o', 'l', 'O', 'R', '-', '1', 'é'] ∧
      isColorSelector ['.', 'C', 'o', 'l', 'O', 'R', '-', '1', 'é'] = true ∧
      isBackgroundSelector ['.', 'C', 'o', 'l', 'O', 'R', '-', '1', 'é'] = false := by
  have same : SameLetters ['.', 'c', 'o', 'l', 'o', 'r', '-', '1', 'é']
      ['.', 'C', 'o', 'l', 'O', 'R', '-', '1', 'é'] := (sameLetters_iff _ _).mpr rfl
  obtain ⟨_, found, _, _, blind, _⟩ :=
    selector_tests_iff ['.', 'c', 'o', 'l', 'o', 'r', '-', '1', 'é']
  obtain ⟨background, color⟩ := blind _ same
  refine ⟨same, ?_, ?_⟩
  · rw [color, found]
    refine ⟨['c', 'o', 'l', 'o', 'r', '-', '1', 'é'], ⟨['.'], [], rfl⟩,
      ['c', 'o', 'l', 'o', 'r', '-'], '1', 'é', rfl, ?_⟩
    exact ⟨(sameLetters_iff _ _).mpr rfl, ⟨by decide, by decide⟩, by decide⟩
  · rw [background]
    decide

end SheetCensus
