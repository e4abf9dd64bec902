import Mathlib.Data.List.Forall2
import SheetCensus.Text.Basic

set_option autoImplicit false

/-! ASCII digits, and ASCII letters in their two cases. Two characters are the same letter exactly
when their lower case is the same (`sameLetter_iff`). No character beyond ASCII is the same letter
as one in ASCII, whatever Unicode folds it to. -/

namespace SheetCensus

/-- The character with the number of a scalar value. -/
theorem toNat_ofNat (number : Nat) (valid : number < 0xd800 ∨ 0xdfff < number ∧ number < 0x110000) :
    (Char.ofNat number).toNat = number := by
  unfold Char.ofNat
  rw [dif_pos valid]
  rfl

def IsAsciiDigit (c : Char) : Prop :=
  '0' ≤ c ∧ c ≤ '9'

theorem isDigit_iff (c : Char) : c.isDigit = true ↔ IsAsciiDigit c := by
  unfold Char.isDigit IsAsciiDigit
  rw [Bool.and_eq_true, decide_eq_true_iff, decide_eq_true_iff]
  rfl

def IsCapital (c : Char) : Prop :=
  'A' ≤ c ∧ c ≤ 'Z'

def IsCapitalOf (capital letter : Char) : Prop :=
  IsCapital capital ∧ letter.toNat = capital.toNat + 32

def SameLetter (c other : Char) : Prop :=
  c = other ∨ IsCapitalOf c other ∨ IsCapitalOf other c

abbrev SameLetters : Text → Text → Prop :=
  List.Forall₂ SameLetter

theorem IsCapital.bounds {c : Char} (capital : IsCapital c) : 65 ≤ c.toNat ∧ c.toNat ≤ 90 :=
  capital

theorem isCapitalOf_toLower {c : Char} (capital : IsCapital c) : IsCapitalOf c c.toLower := by
  refine ⟨capital, ?_⟩
  have range : c.val ≥ 'A'.val ∧ c.val ≤ 'Z'.val := capital
  have bounded := capital.bounds
  unfold Char.toLower
  rw [dif_pos range]
  change (c.val + 32).toNat = c.toNat + 32
  rw [UInt32.toNat_add]
  change (c.toNat + 32) % 2 ^ 32 = c.toNat + 32
  omega

theorem toLower_eq_self {c : Char} (plain : ¬ IsCapital c) : c.toLower = c :=
  dif_neg plain

theorem IsCapitalOf.toLower_eq {c letter : Char} (capital : IsCapitalOf c letter) :
    c.toLower = letter := by
  apply Char.toNat_inj.mp
  rw [(isCapitalOf_toLower capital.1).2, capital.2]

theorem IsCapitalOf.not_isCapital {c letter : Char} (capital : IsCapitalOf c letter) :
    ¬ IsCapital letter := by
  intro other
  have low := capital.1.bounds
  have high := other.bounds
  have apart := capital.2
  omega

theorem sameLetter_iff (c other : Char) : SameLetter c other ↔ c.toLower = other.toLower := by
  constructor
  · intro same
    rcases same with rfl | capital | capital
    · rfl
    · rw [capital.toLower_eq, toLower_eq_self capital.not_isCapital]
    · rw [capital.toLower_eq, toLower_eq_self capital.not_isCapital]
  · intro same
    by_cases left : IsCapital c
    · have lowered := isCapitalOf_toLower left
      by_cases right : IsCapital other
      · have loweredToo := isCapitalOf_toLower right
        rw [same] at lowered
        refine Or.inl (Char.toNat_inj.mp ?_)
        have low := lowered.2
        have lowToo := loweredToo.2
        omega
      · rw [same, toLower_eq_self right] at lowered
        exact Or.inr (Or.inl lowered)
    · by_cases right : IsCapital other
      · have lowered := isCapitalOf_toLower right
        rw [← same, toLower_eq_self left] at lowered
        exact Or.inr (Or.inr lowered)
      · rw [toLower_eq_self left, toLower_eq_self right] at same
        exact Or.inl same

theorem sameLetters_iff (text other : Text) :
    SameLetters text other ↔ text.map Char.toLower = other.map Char.toLower := by
  rw [← List.forall₂_eq_eq_eq, List.forall₂_map_left_iff, List.forall₂_map_right_iff]
  constructor
  · exact List.Forall₂.imp (fun c d => (sameLetter_iff c d).mp)
  · exact List.Forall₂.imp (fun c d => (sameLetter_iff c d).mpr)

/-- A letter keeps to ASCII, and its other case lies among the letters as well. -/
theorem SameLetter.cases_letter {c other : Char} (same : SameLetter c other) :
    c = other ∨ (65 ≤ c.toNat ∧ c.toNat ≤ 122 ∧ 65 ≤ other.toNat ∧ other.toNat ≤ 122) := by
  rcases same with equal | capital | capital
  · exact Or.inl equal
  · have bounds := capital.1.bounds
    have apart := capital.2
    exact Or.inr (by omega)
  · have bounds := capital.1.bounds
    have apart := capital.2
    exact Or.inr (by omega)

end SheetCensus
