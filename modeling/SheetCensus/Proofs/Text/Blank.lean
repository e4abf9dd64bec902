import Mathlib.Data.List.TakeWhile
import SheetCensus.Text.Blank

set_option autoImplicit false

/-! What trimming and collapsing leave. A trimmed text has no blank at either end
(`isTrimmed_trim`); in a collapsed one every blank is a single space between two words
(`isSpaced_collapse`). -/

namespace SheetCensus.Text

/-! ### Trimming -/

structure IsTrimmed (text : Text) : Prop where
  head : ∀ c, text.head? = some c → isBlank c = false
  last : ∀ c, text.getLast? = some c → isBlank c = false

private theorem isBlank_of_head?_dropWhile (text : Text) (c : Char)
    (first : (text.dropWhile isBlank).head? = some c) : isBlank c = false := by
  have stopped := List.head?_dropWhile_not isBlank text
  rw [first] at stopped
  exact stopped

theorem isTrimmed_trim (text : Text) : (trim text).IsTrimmed := by
  unfold trim trimOf
  constructor
  · intro c first
    -- What is dropped at the end does not change the first character.
    have begins : ((text.dropWhile isBlank).reverse.dropWhile isBlank).reverse <+:
        text.dropWhile isBlank := by
      rw [← List.reverse_suffix, List.reverse_reverse]
      exact List.dropWhile_suffix isBlank
    obtain ⟨rest, kept⟩ := List.head?_eq_some_iff.mp first
    obtain ⟨dropped, whole⟩ := begins
    rw [kept] at whole
    apply isBlank_of_head?_dropWhile text
    rw [← whole]
    rfl
  · intro c last
    rw [List.getLast?_reverse] at last
    exact isBlank_of_head?_dropWhile _ c last

/-- Blanks in front of a word are dropped, and the word stays. -/
theorem exists_trim_eq (lead word back : Text) (blanks : ∀ c ∈ lead, isBlank c = true)
    (solid : ∀ c ∈ word, isBlank c = false) (filled : word ≠ []) :
    ∃ rest, trim (lead ++ word ++ back) = word ++ rest := by
  have front : (lead ++ word ++ back).dropWhile isBlank = word ++ back := by
    rw [List.append_assoc, List.dropWhile_append_of_pos blanks]
    cases word with
    | nil => exact absurd rfl filled
    | cons c others =>
        rw [List.cons_append, List.dropWhile_cons_of_neg]
        rw [solid c List.mem_cons_self]
        exact Bool.false_ne_true
  have kept : word.reverse.dropWhile isBlank = word.reverse := by
    rw [List.dropWhile_eq_self_iff]
    intro some
    rw [solid _ (List.mem_reverse.mp (List.getElem_mem some))]
    exact Bool.false_ne_true
  unfold trim trimOf
  rw [front, List.reverse_append, List.dropWhile_append]
  split
  · exact ⟨[], by rw [kept, List.reverse_reverse, List.append_nil]⟩
  · exact ⟨_, by rw [List.reverse_append, List.reverse_reverse]⟩

/-- A text stays trimmed when its beginning is exchanged for one that does not begin with a
blank, as long as something of it is kept. -/
theorem IsTrimmed.exchange {text : Text} (trimmed : text.IsTrimmed) (first : Char) (others : Text)
    (letter : isBlank first = false) (count : Nat) (kept : count < text.length) :
    IsTrimmed (first :: others ++ text.drop count) := by
  constructor
  · intro c begins
    rw [List.cons_append, List.head?_cons] at begins
    cases begins
    exact letter
  · intro c ends
    have behind : (text.drop count).getLast? = text.getLast? := by
      rw [List.getLast?_drop, if_neg (by omega)]
    have found : text.getLast?.isSome := by
      rw [List.getLast?_isSome]
      exact List.ne_nil_of_length_pos (by omega)
    rw [List.getLast?_append, behind, Option.or_of_isSome found] at ends
    exact trimmed.last c ends

/-! ### Collapsing -/

/-- The text is not empty, and every blank in it is a space with a character that is no blank on
either side. -/
structure IsSpaced (text : Text) : Prop where
  ne_nil : text ≠ []
  single : ∀ before c after, text = before ++ c :: after → isBlank c = true →
    c = ' ' ∧ (∃ left, before.getLast? = some left ∧ isBlank left = false) ∧
      ∃ right, after.head? = some right ∧ isBlank right = false

def IsWord (word : Text) : Prop :=
  word ≠ [] ∧ ∀ c ∈ word, isBlank c = false

theorem isWord_of_mem_words (text : Text) : ∀ word ∈ words text, word.IsWord := by
  induction text with
  | nil => exact nofun
  | cons c rest ih =>
      cases blank : isBlank c with
      | true =>
          rw [words_cons_blank c rest blank]
          exact ih
      | false =>
          have alone : IsWord [c] :=
            ⟨List.cons_ne_nil _ _, List.forall_mem_singleton.mpr blank⟩
          rcases words_cons_cases c rest blank with last | ⟨word, others, split, letter⟩
          · rw [last]
            exact List.forall_mem_cons.mpr ⟨alone, ih⟩
          · rw [split] at ih
            obtain ⟨first, later⟩ := List.forall_mem_cons.mp ih
            rw [letter]
            refine List.forall_mem_cons.mpr ⟨⟨List.cons_ne_nil _ _, ?_⟩, later⟩
            exact List.forall_mem_cons.mpr ⟨blank, first.2⟩

theorem IsWord.isSpaced {word : Text} (solid : word.IsWord) : word.IsSpaced := by
  refine ⟨solid.1, ?_⟩
  intro before c after whole blank
  have letter := solid.2 c (whole ▸ List.mem_append_right before List.mem_cons_self)
  rw [blank] at letter
  cases letter

theorem IsSpaced.head {text : Text} (spaced : text.IsSpaced) :
    ∃ c, text.head? = some c ∧ isBlank c = false := by
  cases text with
  | nil => exact absurd rfl spaced.ne_nil
  | cons c rest =>
      refine ⟨c, rfl, ?_⟩
      cases blank : isBlank c with
      | false => rfl
      | true =>
          obtain ⟨_, ⟨left, impossible, _⟩, _⟩ := spaced.single [] c rest rfl blank
          cases impossible

theorem IsSpaced.last {text : Text} (spaced : text.IsSpaced) :
    ∃ c, text.getLast? = some c ∧ isBlank c = false := by
  have found := List.getLast?_eq_some_getLast spaced.ne_nil
  refine ⟨_, found, ?_⟩
  cases blank : isBlank (text.getLast spaced.ne_nil) with
  | false => rfl
  | true =>
      have whole := (List.dropLast_concat_getLast spaced.ne_nil).symm
      obtain ⟨_, _, _, impossible, _⟩ := spaced.single _ _ [] whole blank
      cases impossible

/-- A blank of a spaced text stands alone in any longer text too. -/
private theorem IsSpaced.single_within {text before after : Text} {c : Char}
    (spaced : text.IsSpaced) (front back : Text) (whole : text = before ++ c :: after)
    (blank : isBlank c = true) :
    c = ' ' ∧ (∃ left, (front ++ before).getLast? = some left ∧ isBlank left = false) ∧
      ∃ right, (after ++ back).head? = some right ∧ isBlank right = false := by
  obtain ⟨space, ⟨left, last, letter⟩, right, first, letterToo⟩ :=
    spaced.single before c after whole blank
  refine ⟨space, ⟨left, ?_, letter⟩, right, ?_, letterToo⟩
  · rw [List.getLast?_append, last]
    rfl
  · rw [List.head?_append, first]
    rfl

/-- Two spaced texts side by side. -/
theorem IsSpaced.append {left right : Text} (spaced : left.IsSpaced) (later : right.IsSpaced) :
    (left ++ right).IsSpaced := by
  refine ⟨List.append_ne_nil_of_left_ne_nil spaced.ne_nil _, ?_⟩
  intro before c after whole blank
  rcases List.append_eq_append_iff.mp whole with ⟨more, rfl, behind⟩ | ⟨more, rfl, behind⟩
  · have within := later.single_within left [] behind blank
    rw [List.append_nil] at within
    exact within
  · cases more with
    | nil =>
        -- The blank would be the first character on the right.
        obtain ⟨_, ⟨_, impossible, _⟩, _⟩ := later.single [] c after behind.symm blank
        cases impossible
    | cons d others =>
        obtain ⟨rfl, rfl⟩ := List.cons.inj behind
        exact spaced.single_within [] right rfl blank

/-- A space between two spaced texts. -/
theorem IsSpaced.append_space {left right : Text} (spaced : left.IsSpaced)
    (later : right.IsSpaced) : (left ++ ' ' :: right).IsSpaced := by
  refine ⟨List.append_ne_nil_of_left_ne_nil spaced.ne_nil _, ?_⟩
  intro before c after whole blank
  rcases List.append_eq_append_iff.mp whole with ⟨more, rfl, behind⟩ | ⟨more, rfl, behind⟩
  · cases more with
    | nil =>
        obtain ⟨rfl, rfl⟩ := List.cons.inj behind
        rw [List.append_nil]
        exact ⟨rfl, spaced.last, later.head⟩
    | cons d others =>
        obtain ⟨rfl, inner⟩ := List.cons.inj behind
        have within := later.single_within (left ++ [' ']) [] inner blank
        rw [List.append_nil, List.append_assoc] at within
        exact within
  · cases more with
    | nil =>
        obtain ⟨rfl, rfl⟩ := List.cons.inj behind
        rw [List.append_nil] at spaced
        exact ⟨rfl, spaced.last, later.head⟩
    | cons d others =>
        obtain ⟨rfl, rfl⟩ := List.cons.inj behind
        exact spaced.single_within [] (' ' :: right) rfl blank

theorem isSpaced_join (words : List Text) (filled : words ≠ [])
    (solid : ∀ word ∈ words, word.IsWord) : (join [' '] words).IsSpaced := by
  induction words with
  | nil => exact absurd rfl filled
  | cons word others ih =>
      obtain ⟨first, later⟩ := List.forall_mem_cons.mp solid
      cases others with
      | nil => exact first.isSpaced
      | cons second more =>
          have behind := ih (List.cons_ne_nil _ _) later
          rw [join, List.append_assoc]
          · exact first.isSpaced.append_space behind
          · exact nofun

theorem isSpaced_collapse (text : Text) (filled : text.collapse ≠ []) : text.collapse.IsSpaced := by
  apply isSpaced_join (words text) ?_ (isWord_of_mem_words text)
  intro none
  apply filled
  rw [collapse, none]
  rfl

/-! ### Texts that collapsing keeps -/

theorem join_cons_char (c : Char) (word : Text) (others : List Text) :
    join [' '] ((c :: word) :: others) = c :: join [' '] (word :: others) := by
  cases others <;> rfl

theorem IsSpaced.of_cons {c d : Char} {rest : Text} (spaced : IsSpaced (c :: d :: rest))
    (letter : isBlank d = false) : IsSpaced (d :: rest) := by
  refine ⟨List.cons_ne_nil _ _, ?_⟩
  intro before e after whole blank
  obtain ⟨space, ⟨left, last, solid⟩, next⟩ :=
    spaced.single (c :: before) e after (congrArg (c :: ·) whole) blank
  cases before with
  | nil =>
      obtain ⟨rfl, _⟩ := List.cons.inj whole
      rw [letter] at blank
      cases blank
  | cons f others =>
      rw [List.getLast?_cons_cons] at last
      exact ⟨space, ⟨left, last, solid⟩, next⟩

theorem IsSpaced.of_cons_blank {c d : Char} {rest : Text} (spaced : IsSpaced (c :: d :: rest))
    (blank : isBlank d = true) : d = ' ' ∧ rest.IsSpaced := by
  obtain ⟨space, _, e, first, letter⟩ := spaced.single [c] d rest rfl blank
  cases rest with
  | nil => cases first
  | cons f others =>
      cases first
      refine ⟨space, List.cons_ne_nil _ _, ?_⟩
      intro before g after whole blankToo
      obtain ⟨spaceToo, ⟨left, last, solid⟩, next⟩ :=
        spaced.single (c :: d :: before) g after (congrArg (c :: d :: ·) whole) blankToo
      cases before with
      | nil =>
          obtain ⟨rfl, _⟩ := List.cons.inj whole
          rw [letter] at blankToo
          cases blankToo
      | cons h more =>
          rw [List.getLast?_cons_cons, List.getLast?_cons_cons] at last
          exact ⟨spaceToo, ⟨left, last, solid⟩, next⟩

theorem IsSpaced.collapse_eq : ∀ {text : Text}, text.IsSpaced → text.collapse = text
  | [], spaced => absurd rfl spaced.ne_nil
  | [c], spaced => by
      obtain ⟨_, first, letter⟩ := spaced.head
      cases first
      unfold collapse
      rw [words_cons_last c [] letter nofun]
      rfl
  | c :: d :: rest, spaced => by
      obtain ⟨_, first, letter⟩ := spaced.head
      cases first
      unfold collapse
      cases next : isBlank d with
      | false =>
          have later := (spaced.of_cons next).collapse_eq
          unfold collapse at later
          cases split : words (d :: rest) with
          | nil => exact absurd split (words_ne_nil d rest next)
          | cons word others =>
              rw [split] at later
              rw [words_cons_letter c (d :: rest) word others letter (congrArg some next) split,
                join_cons_char, later]
      | true =>
          obtain ⟨rfl, behind⟩ := spaced.of_cons_blank next
          have later := behind.collapse_eq
          unfold collapse at later
          rw [words_cons_last c (' ' :: rest) letter (by simp [next]), words_cons_blank _ _ next]
          cases split : words rest with
          | nil =>
              rw [split] at later
              exact absurd later.symm behind.ne_nil
          | cons word others =>
              rw [split] at later
              rw [join, later]
              · rfl
              · exact nofun

/-- Collapsing keeps exactly the spaced texts, and the empty one. -/
theorem isSpaced_iff (text : Text) : text.IsSpaced ↔ text ≠ [] ∧ text.collapse = text := by
  constructor
  · exact fun spaced => ⟨spaced.ne_nil, spaced.collapse_eq⟩
  · intro both
    obtain ⟨filled, same⟩ := both
    rw [← same] at filled ⊢
    exact isSpaced_collapse text filled

theorem words_blanks_append (run text : Text) (blank : ∀ c ∈ run, isBlank c = true) :
    words (run ++ text) = words text := by
  induction run with
  | nil => rfl
  | cons c rest ih =>
      obtain ⟨here, later⟩ := List.forall_mem_cons.mp blank
      rw [List.cons_append, words_cons_blank c _ here, ih later]

theorem words_eq_nil_iff (text : Text) : words text = [] ↔ ∀ c ∈ text, isBlank c = true := by
  constructor
  · intro none
    induction text with
    | nil => exact nofun
    | cons c rest ih =>
        cases blank : isBlank c with
        | false => exact absurd none (words_ne_nil c rest blank)
        | true =>
            rw [words_cons_blank c rest blank] at none
            exact List.forall_mem_cons.mpr ⟨blank, ih none⟩
  · intro blanks
    have none := words_blanks_append text [] blanks
    rw [List.append_nil, words_nil] at none
    exact none

theorem words_append_blanks (text run : Text) (blank : ∀ c ∈ run, isBlank c = true) :
    words (text ++ run) = words text := by
  cases run with
  | nil => rw [List.append_nil]
  | cons c rest =>
      obtain ⟨here, later⟩ := List.forall_mem_cons.mp blank
      rw [words_append_blank c here, (words_eq_nil_iff rest).mpr later, List.append_nil]

/-- Nothing is left of blanks alone, and something of every other text. -/
theorem collapse_eq_nil_iff (text : Text) : collapse text = [] ↔ ∀ c ∈ text, isBlank c = true := by
  rw [← words_eq_nil_iff]
  constructor
  · intro none
    by_contra filled
    exact (isSpaced_join (words text) filled (isWord_of_mem_words text)).ne_nil none
  · intro none
    unfold collapse
    rw [none]
    rfl

/-- The two texts have the same words, whatever stands in front of them. -/
def SameWords (text twin : Text) : Prop :=
  ∀ front : Text, words (front ++ text) = words (front ++ twin)

namespace SameWords

theorem refl (text : Text) : SameWords text text :=
  fun _ => rfl

theorem collapse_eq {text twin : Text} (same : SameWords text twin) :
    text.collapse = twin.collapse :=
  congrArg (join [' ']) (same [])

theorem trans {text twin other : Text} (same : SameWords text twin)
    (sameToo : SameWords twin other) : SameWords text other :=
  fun front => (same front).trans (sameToo front)

theorem behind {text twin : Text} (same : SameWords text twin) (front : Text) :
    SameWords (front ++ text) (front ++ twin) := by
  intro more
  rw [← List.append_assoc, ← List.append_assoc]
  exact same (more ++ front)

/-- A run of blanks parts words as one space does. -/
theorem blanks (run text : Text) (some : run ≠ []) (blank : ∀ c ∈ run, isBlank c = true) :
    SameWords (run ++ text) (' ' :: text) := by
  intro front
  cases run with
  | nil => exact absurd rfl some
  | cons c rest =>
      obtain ⟨here, later⟩ := List.forall_mem_cons.mp blank
      rw [List.cons_append, words_append_blank c here, words_append_blank ' ' rfl,
        words_blanks_append rest text later]

end SameWords

end SheetCensus.Text
