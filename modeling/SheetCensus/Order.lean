set_option autoImplicit false

/-! Lists put in order. The order is a test on pairs that says whether the first of two may stand
before the second. Equal elements keep their places, nothing is lost or added
(`inOrder_perm`), and under a total and transitive test every element may stand before all that
follow it (`pairwise_inOrder`). -/

namespace SheetCensus

section

variable {α : Type}

def insertInOrder (before : α → α → Bool) (element : α) : List α → List α
  | [] => [element]
  | first :: rest =>
      if before element first then element :: first :: rest
      else first :: insertInOrder before element rest

def inOrder (before : α → α → Bool) : List α → List α
  | [] => []
  | first :: rest => insertInOrder before first (inOrder before rest)

theorem insertInOrder_perm (before : α → α → Bool) (element : α) (elements : List α) :
    (insertInOrder before element elements).Perm (element :: elements) := by
  induction elements with
  | nil => exact .refl _
  | cons first rest ih =>
      unfold insertInOrder
      split
      · exact .refl _
      · exact (ih.cons first).trans (.swap element first rest)

theorem inOrder_perm (before : α → α → Bool) (elements : List α) :
    (inOrder before elements).Perm elements := by
  induction elements with
  | nil => exact .refl _
  | cons first rest ih => exact (insertInOrder_perm before first _).trans (ih.cons first)

theorem pairwise_insertInOrder (before : α → α → Bool)
    (total : ∀ left right, before left right = true ∨ before right left = true)
    (trans : ∀ left middle right,
      before left middle = true → before middle right = true → before left right = true)
    (element : α) (elements : List α) (ordered : elements.Pairwise (before · · = true)) :
    (insertInOrder before element elements).Pairwise (before · · = true) := by
  induction elements with
  | nil => exact List.pairwise_singleton _ _
  | cons first rest ih =>
      have fromFirst := (List.pairwise_cons.mp ordered).1
      unfold insertInOrder
      by_cases front : before element first = true
      · rw [if_pos front]
        refine List.pairwise_cons.mpr ⟨?_, ordered⟩
        intro other member
        rcases List.mem_cons.mp member with rfl | later
        · exact front
        · exact trans element first other front (fromFirst other later)
      · rw [if_neg front]
        refine List.pairwise_cons.mpr ⟨?_, ih (List.pairwise_cons.mp ordered).2⟩
        intro other member
        rcases List.mem_cons.mp ((insertInOrder_perm before element rest).mem_iff.mp member) with
          rfl | later
        · exact (total other first).resolve_left front
        · exact fromFirst other later

theorem pairwise_inOrder (before : α → α → Bool)
    (total : ∀ left right, before left right = true ∨ before right left = true)
    (trans : ∀ left middle right,
      before left middle = true → before middle right = true → before left right = true)
    (elements : List α) : (inOrder before elements).Pairwise (before · · = true) := by
  induction elements with
  | nil => exact List.Pairwise.nil
  | cons first rest ih => exact pairwise_insertInOrder before total trans first _ ih

/-- Under an antisymmetric test as well, lists with the same elements come out the same. -/
theorem inOrder_eq_of_perm (before : α → α → Bool)
    (total : ∀ left right, before left right = true ∨ before right left = true)
    (trans : ∀ left middle right,
      before left middle = true → before middle right = true → before left right = true)
    (antisymm : ∀ left right, before left right = true → before right left = true → left = right)
    (left right : List α) (same : left.Perm right) :
    inOrder before left = inOrder before right := by
  apply List.Perm.eq_of_pairwise (fun a b _ _ early late => antisymm a b early late)
    (pairwise_inOrder before total trans left) (pairwise_inOrder before total trans right)
  exact (inOrder_perm before left).trans (same.trans (inOrder_perm before right).symm)

end

end SheetCensus
