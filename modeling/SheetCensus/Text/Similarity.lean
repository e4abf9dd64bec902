import SheetCensus.Order
import SheetCensus.Text.Basic

set_option autoImplicit false

/-! How alike two texts are. The longest stretch that both of them have is matched first; then
what stands in front of it in both is matched in the same way, and what stands behind it in both.
Twice the number of matched characters over the number of characters of both texts is their
likeness, a fraction between zero and one. Fractions are compared by cross multiplication, so no
rounding enters. -/

namespace SheetCensus

structure SharedStretch where
  left : Nat
  right : Nat
  length : Nat
deriving DecidableEq

namespace SharedStretch

def longer (first second : SharedStretch) : SharedStretch :=
  if first.length < second.length then second else first

def EndsWithin (left right : Text) (stretch : SharedStretch) : Prop :=
  stretch.left + stretch.length ≤ left.length ∧ stretch.right + stretch.length ≤ right.length

end SharedStretch

namespace Text

def sharedStart : Text → Text → Nat
  | first :: rest, other :: others =>
      if first = other then sharedStart rest others + 1 else 0
  | _, _ => 0

theorem sharedStart_le_left (left right : Text) : sharedStart left right ≤ left.length := by
  induction left generalizing right with
  | nil => exact Nat.zero_le _
  | cons first rest ih =>
      cases right with
      | nil => exact Nat.zero_le _
      | cons other others =>
          unfold sharedStart
          split
          · exact Nat.succ_le_succ (ih others)
          · exact Nat.zero_le _

theorem sharedStart_le_right (left right : Text) : sharedStart left right ≤ right.length := by
  induction left generalizing right with
  | nil => exact Nat.zero_le _
  | cons first rest ih =>
      cases right with
      | nil => exact Nat.zero_le _
      | cons other others =>
          unfold sharedStart
          split
          · exact Nat.succ_le_succ (ih others)
          · exact Nat.zero_le _

/-- The longest stretch from each pair of places on, by the place in the left text and then by
the place in the right one. -/
def stretches (left right : Text) : List SharedStretch :=
  (List.range left.length).flatMap fun i =>
    (List.range right.length).map fun j =>
      ⟨i, j, sharedStart (left.drop i) (right.drop j)⟩

/-- The longest stretch that two texts share. Of several it is the first one in the left text,
and there the first one in the right text. -/
def longestStretch (left right : Text) : SharedStretch :=
  (stretches left right).foldl SharedStretch.longer ⟨0, 0, 0⟩

theorem endsWithin_of_mem_stretches (left right : Text) (stretch : SharedStretch)
    (member : stretch ∈ stretches left right) : stretch.EndsWithin left right := by
  simp only [stretches, List.mem_flatMap, List.mem_map, List.mem_range] at member
  obtain ⟨i, inLeft, j, inRight, rfl⟩ := member
  have shortLeft := sharedStart_le_left (left.drop i) (right.drop j)
  have shortRight := sharedStart_le_right (left.drop i) (right.drop j)
  rw [List.length_drop] at shortLeft shortRight
  constructor <;> dsimp only <;> omega

theorem endsWithin_foldl_longer (left right : Text) (others : List SharedStretch)
    (each : ∀ stretch ∈ others, stretch.EndsWithin left right) (first : SharedStretch)
    (within : first.EndsWithin left right) :
    (others.foldl SharedStretch.longer first).EndsWithin left right := by
  induction others generalizing first with
  | nil => exact within
  | cons second rest ih =>
      refine ih (fun stretch member => each stretch (List.mem_cons_of_mem second member)) _ ?_
      unfold SharedStretch.longer
      split
      · exact each second List.mem_cons_self
      · exact within

/-- The longest shared stretch ends within both texts. -/
theorem endsWithin_longestStretch (left right : Text) :
    (longestStretch left right).EndsWithin left right :=
  endsWithin_foldl_longer left right _ (endsWithin_of_mem_stretches left right) _
    ⟨Nat.zero_le _, Nat.zero_le _⟩

def matched (left right : Text) : Nat :=
  let stretch := longestStretch left right
  if _ : stretch.length = 0 then 0
  else
    matched (left.take stretch.left) (right.take stretch.right) + stretch.length +
      matched (left.drop (stretch.left + stretch.length))
        (right.drop (stretch.right + stretch.length))
termination_by left.length
decreasing_by
  all_goals
    have within := (endsWithin_longestStretch left right).1
    have some : (longestStretch left right).length ≠ 0 := by assumption
    simp only [List.length_take, List.length_drop]
    omega

/-- Whether the likeness of two texts is at least three fifths. The lengths are looked at first,
as most texts are too long or too short for that whatever they hold. -/
def isLike (left right : Text) : Bool :=
  3 * (left.length + right.length) ≤ 10 * min left.length right.length &&
    3 * (left.length + right.length) ≤ 10 * matched left right

/-- Whether the first of two texts is more like a word than the second, or as much like it and
not before the second in the order of texts. -/
def isLiker (word first second : Text) : Bool :=
  let ofFirst := matched first word * (second.length + word.length)
  let ofSecond := matched second word * (first.length + word.length)
  ofSecond < ofFirst || (ofSecond == ofFirst && precedes second first)

def mostLike (count : Nat) (word : Text) (candidates : List Text) : List Text :=
  inOrder precedes
    ((inOrder (isLiker word) (candidates.filter (isLike · word))).take count)

end Text

end SheetCensus
