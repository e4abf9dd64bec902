import Mathlib.Data.List.Infix
import Mathlib.Data.List.TakeWhile
import SheetCensus.Text.Terminal

set_option autoImplicit false

/-! What is left out of a text that is printed. The characters of the three parts of a control
sequence come from ranges that are apart, so a sequence is found wherever one stands
(`controlWidth?_eq_none_iff`), and a text is printed as it is exactly when none stands in it
(`plain_eq_self_iff`). -/

namespace SheetCensus.Text

/-- A control sequence: an escape character, an opening square bracket, parameters, intermediate
characters and one final character. -/
def IsControl (sequence : Text) : Prop :=
  ∃ parameters intermediates final,
    sequence = '\x1b' :: '[' :: (parameters ++ intermediates ++ [final]) ∧
      (∀ c ∈ parameters, isParameter c = true) ∧
      (∀ c ∈ intermediates, isIntermediate c = true) ∧ isFinal final = true

theorem isParameter_of_isIntermediate (c : Char) (between : isIntermediate c = true) :
    isParameter c = false := by
  simp only [isIntermediate, isParameter, Bool.and_eq_true, Bool.and_eq_false_iff,
    decide_eq_true_eq, decide_eq_false_iff_not] at between ⊢
  omega

theorem isParameter_of_isFinal (c : Char) (last : isFinal c = true) : isParameter c = false := by
  simp only [isFinal, isParameter, Bool.and_eq_true, Bool.and_eq_false_iff, decide_eq_true_eq,
    decide_eq_false_iff_not] at last ⊢
  omega

theorem isIntermediate_of_isFinal (c : Char) (last : isFinal c = true) :
    isIntermediate c = false := by
  simp only [isFinal, isIntermediate, Bool.and_eq_true, Bool.and_eq_false_iff, decide_eq_true_eq,
    decide_eq_false_iff_not] at last ⊢
  omega

/-- A run is found up to the first character that is none of it. -/
private theorem takeWhile_run (test : Char → Bool) (run : Text) (c : Char) (rest : Text)
    (all : ∀ d ∈ run, test d = true) (ends : test c = false) :
    (run ++ c :: rest).takeWhile test = run := by
  rw [List.takeWhile_append_of_pos all, List.takeWhile_cons_of_neg (by simp [ends]),
    List.append_nil]

private theorem takeWhile_append_drop (test : Char → Bool) (text : Text) :
    text.takeWhile test ++ text.drop (text.takeWhile test).length = text := by
  have begins := List.prefix_iff_eq_take.mp (List.takeWhile_prefix (l := text) test)
  exact (congrArg (· ++ _) begins).trans (List.take_append_drop _ text)

theorem controlWidth?_of_isControl (parameters intermediates : Text) (final : Char) (rest : Text)
    (first : ∀ c ∈ parameters, isParameter c = true)
    (second : ∀ c ∈ intermediates, isIntermediate c = true) (last : isFinal final = true) :
    controlWidth? ('[' :: (parameters ++ intermediates ++ [final]) ++ rest) =
      some (parameters.length + intermediates.length + 2) := by
  have joined : parameters ++ intermediates ++ [final] ++ rest =
      parameters ++ (intermediates ++ final :: rest) := by
    simp
  have marks : (parameters ++ (intermediates ++ final :: rest)).takeWhile isParameter =
      parameters := by
    cases intermediates with
    | nil => exact takeWhile_run _ _ _ _ first (isParameter_of_isFinal final last)
    | cons c others =>
        exact takeWhile_run _ _ _ _ first
          (isParameter_of_isIntermediate c (second c List.mem_cons_self))
  have between : (intermediates ++ final :: rest).takeWhile isIntermediate = intermediates :=
    takeWhile_run _ _ _ _ second (isIntermediate_of_isFinal final last)
  have behind : (parameters ++ (intermediates ++ final :: rest)).drop
      (parameters.length + intermediates.length) = final :: rest := by
    rw [← List.drop_drop, List.drop_left, List.drop_left]
  rw [List.cons_append, joined, controlWidth?]
  simp only [marks, List.drop_left, between, behind, List.head?_cons, Option.any_some, last,
    if_true]

theorem exists_isControl (rest : Text) (width : Nat) (found : controlWidth? rest = some width) :
    ∃ sequence, sequence <+: '\x1b' :: rest ∧ IsControl sequence := by
  revert found
  fun_cases controlWidth? rest with
  | case1 tail parameters intermediates ends =>
      intro _
      have outer := takeWhile_append_drop isParameter tail
      have inner := takeWhile_append_drop isIntermediate
        (tail.drop (tail.takeWhile isParameter).length)
      rw [← List.drop_drop] at ends
      cases behind : (tail.drop (tail.takeWhile isParameter).length).drop
          ((tail.drop (tail.takeWhile isParameter).length).takeWhile isIntermediate).length with
      | nil =>
          rw [behind] at ends
          cases ends
      | cons final more =>
          rw [behind] at ends inner
          refine ⟨_, ⟨more, ?_⟩, tail.takeWhile isParameter,
            (tail.drop (tail.takeWhile isParameter).length).takeWhile isIntermediate, final, rfl,
            fun c member => List.mem_takeWhile_imp member,
            fun c member => List.mem_takeWhile_imp member, ends⟩
          rw [List.cons_append, List.cons_append, List.append_assoc, List.append_assoc,
            List.singleton_append, inner, outer]
  | case2 => exact nofun
  | case3 => exact nofun

theorem controlWidth?_eq_none_iff (rest : Text) :
    controlWidth? rest = none ↔ ∀ sequence, sequence <+: '\x1b' :: rest → ¬ IsControl sequence := by
  constructor
  · rintro none sequence ⟨more, whole⟩ ⟨parameters, intermediates, final, rfl, first, second, last⟩
    rw [List.cons_append] at whole
    obtain ⟨_, rfl⟩ := List.cons.inj whole
    rw [controlWidth?_of_isControl parameters intermediates final more first second last] at none
    cases none
  · intro absent
    cases found : controlWidth? rest with
    | none => rfl
    | some width =>
        obtain ⟨sequence, begins, control⟩ := exists_isControl rest width found
        exact absurd control (absent sequence begins)

/-! ### Texts that are printed as they are -/

theorem length_plainFrom_le (skip : Nat) (text : Text) :
    (plainFrom skip text).length ≤ text.length := by
  induction text generalizing skip with
  | nil => cases skip <;> exact Nat.le_refl 0
  | cons c rest ih =>
      cases skip with
      | succ skip => exact Nat.le_succ_of_le (ih skip)
      | zero =>
          unfold plainFrom
          split
          · split
            · exact Nat.le_succ_of_le (ih _)
            · exact Nat.succ_le_succ (ih 0)
          · exact Nat.succ_le_succ (ih 0)

theorem plain_cons_eq_self_iff (c : Char) (rest : Text) :
    plain (c :: rest) = c :: rest ↔
      (c = '\x1b' → controlWidth? rest = none) ∧ plain rest = rest := by
  unfold plain
  rw [plainFrom]
  by_cases escape : c = '\x1b'
  · rw [if_pos escape]
    cases width : controlWidth? rest with
    | some taken =>
        -- Whatever is left out makes the text shorter.
        simp only [escape, forall_const, reduceCtorEq, false_and, iff_false]
        intro same
        have shorter := length_plainFrom_le taken rest
        rw [same, List.length_cons] at shorter
        omega
    | none => simp
  · simp [escape]

theorem plain_eq_self_iff (text : Text) :
    plain text = text ↔ ∀ sequence, sequence <:+: text → ¬ IsControl sequence := by
  induction text with
  | nil =>
      refine ⟨?_, fun _ => rfl⟩
      rintro _ sequence inside ⟨_, _, _, rfl, _⟩
      simp at inside
  | cons c rest ih =>
      rw [plain_cons_eq_self_iff, ih]
      constructor
      · rintro ⟨here, later⟩ sequence inside control
        rcases List.infix_cons_iff.mp inside with begins | behind
        · have escape : c = '\x1b' := by
            obtain ⟨_, _, _, rfl, _⟩ := control
            exact (List.cons_prefix_cons.mp begins).1.symm
          rw [escape] at begins
          exact (controlWidth?_eq_none_iff rest).mp (here escape) sequence begins control
        · exact later sequence behind control
      · intro absent
        refine ⟨?_, fun sequence inside => absent sequence (List.infix_cons inside)⟩
        intro escape
        rw [controlWidth?_eq_none_iff]
        intro sequence begins
        rw [← escape] at begins
        exact absent sequence begins.isInfix

end SheetCensus.Text
