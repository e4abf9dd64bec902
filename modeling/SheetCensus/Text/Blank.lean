import SheetCensus.Text.Basic

set_option autoImplicit false

/-! Blank characters in the sense of Unicode: everything that separates words, the information
separators and the next-line control included, zero-width characters excluded. Trimming,
splitting into words and collapsing runs of blanks all rest on this one class. -/

namespace SheetCensus.Text

def isBlank (c : Char) : Bool :=
  let code := c.toNat
  (0x09 ≤ code && code ≤ 0x0d) || (0x1c ≤ code && code ≤ 0x20) || code == 0x85 || code == 0xa0 ||
    code == 0x1680 || (0x2000 ≤ code && code ≤ 0x200a) || code == 0x2028 || code == 0x2029 ||
    code == 0x202f || code == 0x205f || code == 0x3000

def trimOf (drops : Char → Bool) (text : Text) : Text :=
  ((text.dropWhile drops).reverse.dropWhile drops).reverse

def trim (text : Text) : Text :=
  text.trimOf isBlank

def words : Text → List Text
  | [] => []
  | c :: rest =>
      if isBlank c then words rest
      else
        match rest.head?.map isBlank, words rest with
        | some false, word :: others => (c :: word) :: others
        | _, others => [c] :: others

def collapse (text : Text) : Text :=
  join [' '] (words text)

theorem words_nil : words [] = [] :=
  rfl

theorem words_cons_blank (c : Char) (rest : Text) (blank : isBlank c = true) :
    words (c :: rest) = words rest := by
  simp only [words, blank, if_true]

/-- A letter at the end of a word. -/
theorem words_cons_last (c : Char) (rest : Text) (letter : isBlank c = false)
    (ends : rest.head?.map isBlank ≠ some false) : words (c :: rest) = [c] :: words rest := by
  simp only [words, letter, Bool.false_eq_true, if_false]
  cases next : rest.head?.map isBlank with
  | none => rfl
  | some blank =>
      cases blank with
      | false => exact absurd next ends
      | true => rfl

/-- A letter in front of a word. -/
theorem words_cons_letter (c : Char) (rest word : Text) (others : List Text)
    (letter : isBlank c = false) (goesOn : rest.head?.map isBlank = some false)
    (split : words rest = word :: others) : words (c :: rest) = (c :: word) :: others := by
  simp only [words, letter, Bool.false_eq_true, if_false, goesOn, split]

/-- A letter begins a word of its own or stands in front of the first word behind it. -/
theorem words_cons_cases (c : Char) (rest : Text) (letter : isBlank c = false) :
    words (c :: rest) = [c] :: words rest ∨
      ∃ word others, words rest = word :: others ∧ words (c :: rest) = (c :: word) :: others := by
  by_cases goesOn : rest.head?.map isBlank = some false
  · cases split : words rest with
    | nil => exact Or.inl (by simp [words, letter, goesOn, split])
    | cons word others =>
        exact Or.inr ⟨word, others, rfl, words_cons_letter c rest word others letter goesOn split⟩
  · exact Or.inl (words_cons_last c rest letter goesOn)

/-- A text that begins with a letter has a word. -/
theorem words_ne_nil (c : Char) (rest : Text) (letter : isBlank c = false) :
    words (c :: rest) ≠ [] := by
  rcases words_cons_cases c rest letter with last | ⟨word, others, _, goesOn⟩
  · rw [last]
    exact List.cons_ne_nil _ _
  · rw [goesOn]
    exact List.cons_ne_nil _ _

/-- A blank parts the words on its two sides. -/
theorem words_append_blank (c : Char) (blank : isBlank c = true) (left right : Text) :
    words (left ++ c :: right) = words left ++ words right := by
  induction left with
  | nil => exact words_cons_blank c right blank
  | cons first rest ih =>
      rw [List.cons_append]
      cases front : isBlank first with
      | true => rw [words_cons_blank _ _ front, words_cons_blank _ _ front, ih]
      | false =>
          cases rest with
          | nil =>
              rw [words_cons_last _ _ front (by simp [blank]), words_cons_last _ _ front (by simp),
                ih]
              rfl
          | cons second others =>
              cases next : isBlank second with
              | true =>
                  rw [words_cons_last _ _ front (by simp [next]),
                    words_cons_last _ _ front (by simp [next]), ih]
                  rfl
              | false =>
                  cases later : words (second :: others) with
                  | nil => exact absurd later (words_ne_nil second others next)
                  | cons word more =>
                      rw [later] at ih
                      rw [words_cons_letter _ _ word (more ++ words right) front (by simp [next]) ih,
                        words_cons_letter _ _ word more front (by simp [next]) later]
                      rfl

end SheetCensus.Text
