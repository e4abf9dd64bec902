set_option autoImplicit false

/-! A text is its list of code points. Lengths, cuts, lines and columns all count code points,
so the list is the representation in which every later measure is plain arithmetic. -/

namespace SheetCensus

/-- A text, one entry for each code point. -/
abbrev Text := List Char

namespace Text

/-- The first `count` characters. A negative count says how many characters to leave off at
the end, and leaving off more than there are gives the empty text. -/
def clip (text : Text) : Int → Text
  | .ofNat count => text.take count
  | .negSucc fewer => text.take (text.length - (fewer + 1))

def ofNat (number : Nat) : Text :=
  Nat.toDigits 10 number

def ofInt : Int → Text
  | .ofNat number => ofNat number
  | .negSucc number => '-' :: ofNat (number + 1)

/-- Lower case for the twenty-six ASCII letters; every other character stays. -/
def lower (text : Text) : Text :=
  text.map Char.toLower

/-- A number in base sixteen, lower case, with exactly `width` digits. Higher digits are lost. -/
def fixedHex : Nat → Nat → Text
  | 0, _ => []
  | width + 1, number => fixedHex width (number / 16) ++ [Nat.digitChar (number % 16)]

def byteCount (text : Text) : Nat :=
  text.foldl (fun count c => count + c.utf8Size) 0

def join (separator : Text) : List Text → Text
  | [] => []
  | [text] => text
  | text :: others => text ++ separator ++ join separator others

/-- The pieces between the occurrences of a separating character; always one more than there
are separators. -/
def splitAt (separator : Char) : Text → List Text
  | [] => [[]]
  | first :: rest =>
      if first = separator then [] :: splitAt separator rest
      else
        match splitAt separator rest with
        | [] => [[first]]
        | piece :: others => (first :: piece) :: others

def precedes : Text → Text → Bool
  | [], _ => true
  | _ :: _, [] => false
  | first :: rest, other :: others =>
      if first.toNat < other.toNat then true
      else if other.toNat < first.toNat then false
      else precedes rest others

theorem precedes_total (left right : Text) :
    precedes left right = true ∨ precedes right left = true := by
  induction left generalizing right with
  | nil => exact Or.inl (by cases right <;> rfl)
  | cons first rest ih =>
      cases right with
      | nil => exact Or.inr rfl
      | cons other others =>
          by_cases below : first.toNat < other.toNat
          · exact Or.inl (by simp only [precedes, if_pos below])
          · by_cases above : other.toNat < first.toNat
            · exact Or.inr (by simp only [precedes, if_pos above])
            · simp only [precedes, if_neg below, if_neg above]
              exact ih others

theorem precedes_trans (left middle right : Text) (early : precedes left middle = true)
    (late : precedes middle right = true) : precedes left right = true := by
  induction left generalizing middle right with
  | nil => cases right <;> rfl
  | cons a rest ih =>
      cases middle with
      | nil => cases early
      | cons b others =>
          cases right with
          | nil => cases late
          | cons c last =>
              simp only [precedes] at early late ⊢
              split at early
              · split at late
                · rw [if_pos (by omega)]
                · split at late
                  · cases late
                  · rw [if_pos (by omega)]
              · split at early
                · cases early
                · split at late
                  · rw [if_pos (by omega)]
                  · split at late
                    · cases late
                    · rw [if_neg (by omega), if_neg (by omega)]
                      exact ih others last early late

theorem precedes_antisymm (left right : Text) (early : precedes left right = true)
    (late : precedes right left = true) : left = right := by
  induction left generalizing right with
  | nil =>
      cases right with
      | nil => rfl
      | cons _ _ => cases late
  | cons a rest ih =>
      cases right with
      | nil => cases early
      | cons b others =>
          simp only [precedes] at early late
          split at early
          · rw [if_neg (by omega), if_pos (by assumption)] at late
            cases late
          · split at early
            · cases early
            · rw [if_neg (by assumption), if_neg (by assumption)] at late
              have same : a = b := Char.toNat_inj.mp (by omega)
              rw [same, ih others early late]

end Text

end SheetCensus
