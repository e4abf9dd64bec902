import Mathlib.Data.List.Induction
import SheetCensus.Source.Basic

set_option autoImplicit false

/-! Places and indices. A text that follows another one keeps its line ends
(`Source.normalize_append`) and its places move by those of the text in front
(`Position.after_eq_beyond`); the table of line starts leads from the place after any beginning of
a text back to the length of that beginning (`Source.offset_after`). -/

namespace SheetCensus

namespace Position

/-- The place that a place comes to when a text that ends at `base` is put in front. -/
def beyond (base place : Position) : Position where
  line := base.line + place.line - 1
  column := if place.line = 1 then base.column + place.column - 1 else place.column

theorem after_concat (position : Position) (text : Text) (c : Char) :
    position.after (text ++ [c]) = (position.after text).next c :=
  after_append position text [c]

theorem after_start_pos (text : Text) :
    1 ≤ (start.after text).line ∧ 1 ≤ (start.after text).column := by
  induction text using List.reverseRecOn with
  | nil => exact ⟨Nat.le_refl 1, Nat.le_refl 1⟩
  | append_singleton rest c ih =>
      rw [after_concat]
      unfold next
      split
      · exact ⟨Nat.le_add_left 1 _, Nat.le_refl 1⟩
      · exact ⟨ih.1, Nat.le_add_left 1 _⟩

theorem line_after_start (text : Text) : (start.after text).line = text.count '\n' + 1 := by
  induction text using List.reverseRecOn with
  | nil => rfl
  | append_singleton rest c ih =>
      rw [after_concat, List.count_append]
      unfold next
      by_cases breaks : c = '\n'
      · subst breaks
        rw [if_pos rfl, ih]
        rfl
      · rw [if_neg breaks, ih, List.count_cons_of_ne breaks]
        rfl

theorem after_eq_beyond (base : Position) (text : Text) :
    base.after text = base.beyond (start.after text) := by
  induction text using List.reverseRecOn with
  | nil => rfl
  | append_singleton rest c ih =>
      obtain ⟨line, column⟩ := after_start_pos rest
      rw [after_concat, after_concat, ih]
      unfold next beyond
      dsimp only
      by_cases breaks : c = '\n'
      · rw [if_pos breaks, if_pos breaks]
        dsimp only
        rw [if_neg (by omega)]
        congr 1
        omega
      · rw [if_neg breaks, if_neg breaks]
        dsimp only
        congr 1
        split <;> omega

end Position

namespace Source

/-! ### Normalized texts -/

/-- Texts are normalized one after the other, unless a line end of two characters is cut in two. -/
theorem normalize_append (front back : Text)
    (apart : front.getLast? = some '\r' → back.head? ≠ some '\n') :
    normalize (front ++ back) = normalize front ++ normalize back := by
  fun_induction normalize front with
  | case1 => rfl
  | case2 rest ih =>
      have later : rest.getLast? = some '\r' → back.head? ≠ some '\n' := by
        intro last
        cases rest with
        | nil => cases last
        | cons c others => exact apart (by simpa using last)
      rw [List.cons_append, List.cons_append, normalize, ih later]
      rfl
  | case3 c rest plain ih =>
      have later : rest.getLast? = some '\r' → back.head? ≠ some '\n' := by
        intro last
        cases rest with
        | nil => cases last
        | cons d others => exact apart (by simpa using last)
      have plainToo : ∀ more, c = '\r' → rest ++ back = '\n' :: more → False := by
        intro more returns feeds
        cases rest with
        | nil =>
            rw [List.nil_append] at feeds
            exact apart (by rw [returns]; rfl) (by rw [feeds]; rfl)
        | cons d others => exact plain others returns (by rw [(List.cons.inj feeds).1])
      rw [List.cons_append, normalize, ih later, List.cons_append]
      exact plainToo

theorem getLast?_of_normalize (text : Text) (ends : text.getLast? = some '\r') :
    (normalize text).getLast? = some '\n' := by
  fun_induction normalize text with
  | case1 => cases ends
  | case2 rest ih =>
      cases rest with
      | nil => cases ends
      | cons c others =>
          have later := ih (by simpa using ends)
          rw [List.getLast?_cons, later]
          rfl
  | case3 c rest plain ih =>
      cases rest with
      | nil =>
          obtain rfl : c = '\r' := by simpa using ends
          rfl
      | cons d others =>
          have later := ih (by simpa using ends)
          rw [List.getLast?_cons, later]
          rfl

/-! ### The table of line starts -/

theorem laterLineStarts_append (index : Nat) (front back : Text) :
    laterLineStarts index (front ++ back) =
      laterLineStarts index front ++ laterLineStarts (index + front.length) back := by
  induction front generalizing index with
  | nil => rfl
  | cons c rest ih =>
      have size : index + (c :: rest).length = index + 1 + rest.length := by
        rw [List.length_cons]
        omega
      rw [size]
      simp only [List.cons_append, laterLineStarts, ih]
      split <;> rfl

/-- The last line start in front of a place, and how far the place is from it. -/
theorem exists_lineStart (text : Text) :
    (Position.start.after text).line = (0 :: laterLineStarts 0 text).length ∧
      ∃ begins, (0 :: laterLineStarts 0 text)[(Position.start.after text).line - 1]? = some begins ∧
        begins + (Position.start.after text).column = text.length + 1 := by
  induction text using List.reverseRecOn with
  | nil => exact ⟨rfl, 0, rfl, rfl⟩
  | append_singleton rest c ih =>
      obtain ⟨lines, begins, found, distance⟩ := ih
      rw [Position.after_concat, laterLineStarts_append, Nat.zero_add, List.length_append,
        List.length_singleton, ← List.cons_append]
      unfold Position.next
      by_cases breaks : c = '\n'
      · simp only [if_pos breaks, laterLineStarts]
        refine ⟨?_, rest.length + 1, ?_, rfl⟩
        · rw [List.length_append, List.length_singleton, lines]
        · rw [Nat.add_sub_cancel, lines, List.getElem?_append_right (Nat.le_refl _), Nat.sub_self]
          rfl
      · simp only [if_neg breaks, laterLineStarts, List.append_nil]
        exact ⟨lines, begins, found, by omega⟩

/-- What follows a place does not change the start of its line. -/
theorem exists_lineStart_append (read left : Text) :
    ∃ begins,
      (ofNormalized (read ++ left)).lineStarts[(Position.start.after read).line - 1]? =
          some begins ∧
        begins + (Position.start.after read).column = read.length + 1 := by
  obtain ⟨lines, begins, found, distance⟩ := exists_lineStart read
  have within : (Position.start.after read).line - 1 < (0 :: laterLineStarts 0 read).length := by
    rw [lines, List.length_cons]
    omega
  refine ⟨begins, ?_, distance⟩
  unfold ofNormalized
  dsimp only
  rw [laterLineStarts_append, ← List.cons_append, List.getElem?_append_left within, found]

theorem offset_after (read left : Text) :
    (ofNormalized (read ++ left)).offset (Position.start.after read) = read.length := by
  obtain ⟨begins, found, distance⟩ := exists_lineStart_append read left
  unfold offset
  rw [List.getD_eq_getElem?_getD, found, Option.getD_some]
  omega

theorem slice_after (read left : Text) (length : Nat) :
    (ofNormalized (read ++ left)).slice
        ((ofNormalized (read ++ left)).offset (Position.start.after read)) length =
      left.take length := by
  rw [offset_after]
  unfold slice ofNormalized
  dsimp only
  rw [List.drop_left]

end Source

end SheetCensus
