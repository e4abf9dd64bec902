import SheetCensus.Proofs.Css.Spacing
import SheetCensus.Proofs.Text.Blank

set_option autoImplicit false

/-! The text of lexemes with its blanks collapsed. Collapsing takes away the white space at either
end and leaves one space of any other (`Lexeme.collapse_written`); a text in which no other blank
counts is left as it is (`Lexeme.isSpaced_written`). -/

namespace SheetCensus.Css

open Text (isBlank IsSpaced SameWords)

theorem Kind.not_runsInto_of_space (right : Kind) : Kind.whitespace.runsInto right = false := by
  simp [runsInto, endsName, isLiteralOf]

theorem Kind.not_runsInto_space (left : Kind) : left.runsInto .whitespace = false := by
  simp [runsInto, beginsName, beginsNumeral, isLiteralOf]

namespace Lexeme

theorem spacing_space (left : Option Lexeme) (spelling : Text) :
    spacing left (.leaf (.whitespace spelling)) = [] := by
  unfold spacing
  split
  · exact separator_of_not_runsInto (Kind.not_runsInto_space _)
  · rfl

theorem written_behind_space (spelling : Text) (lexemes : List Lexeme) :
    written (some (.leaf (.whitespace spelling))) lexemes = written none lexemes := by
  cases lexemes with
  | nil => rfl
  | cons lexeme others =>
      have nothing : spacing (some (.leaf (.whitespace spelling))) lexeme = [] := by
        unfold spacing
        dsimp only
        split
        · exact separator_of_not_runsInto (Kind.not_runsInto_of_space _)
        · rfl
      rw [written, written, nothing]
      rfl

def HasBlanks (lexeme : Lexeme) : Prop :=
  lexeme.isWhitespace = true → lexeme.text ≠ [] ∧ ∀ c ∈ lexeme.text, isBlank c = true

/-! ### The words -/

/-- For the words it does not matter how long a run of white space is. -/
theorem sameWords_squeeze (lexemes : List Lexeme) (blanks : ∀ lexeme ∈ lexemes, lexeme.HasBlanks) :
    (∀ left, SameWords (written left lexemes) (written left (squeezeAfter false lexemes))) ∧
      SameWords (' ' :: written none lexemes)
        (' ' :: written none (squeezeAfter true lexemes)) := by
  induction lexemes with
  | nil => exact ⟨fun _ => .refl _, .refl _⟩
  | cons lexeme others ih =>
      obtain ⟨here, later⟩ := List.forall_mem_cons.mp blanks
      obtain ⟨same, sameBehind⟩ := ih later
      by_cases space : lexeme.isWhitespace = true
      -- White space that is dropped has a space in front of it to be taken in by.
      · obtain ⟨filled, all⟩ := here space
        obtain ⟨spelling, rfl⟩ := exists_of_isWhitespace space
        rw [squeezeAfter, squeezeAfter, if_pos space, if_pos space, if_neg Bool.false_ne_true,
          if_pos rfl]
        constructor
        · intro left
          rw [written, written, spacing_space, spacing_space, written_behind_space,
            written_behind_space, List.nil_append]
          exact (SameWords.blanks _ _ filled all).trans sameBehind
        · rw [written, spacing_space, written_behind_space, List.nil_append, ← List.cons_append]
          have allToo : ∀ c ∈ ' ' :: spelling, isBlank c = true :=
            List.forall_mem_cons.mpr ⟨rfl, all⟩
          exact (SameWords.blanks _ _ (List.cons_ne_nil _ _) allToo).trans sameBehind
      · rw [squeezeAfter, squeezeAfter, if_neg space, if_neg space]
        have behind (left : Option Lexeme) :=
          (same (some lexeme)).behind (spacing left lexeme ++ lexeme.text)
        exact ⟨behind, (behind none).behind [' ']⟩

/-! ### White space at either end -/

theorem written_front (spaces lexemes : List Lexeme)
    (all : ∀ lexeme ∈ spaces, lexeme.isWhitespace = true) :
    written none (spaces ++ lexemes) = spaces.flatMap text ++ written none lexemes := by
  induction spaces with
  | nil => rfl
  | cons lexeme rest ih =>
      obtain ⟨here, later⟩ := List.forall_mem_cons.mp all
      obtain ⟨spelling, rfl⟩ := exists_of_isWhitespace here
      rw [List.cons_append, written, spacing_space, written_behind_space, ih later,
        List.flatMap_cons, List.nil_append, List.append_assoc]

theorem written_back (left : Option Lexeme) (lexemes spaces : List Lexeme)
    (all : ∀ lexeme ∈ spaces, lexeme.isWhitespace = true) :
    written left (lexemes ++ spaces) = written left lexemes ++ spaces.flatMap text := by
  have alone (left : Option Lexeme) : written left spaces = spaces.flatMap text := by
    induction spaces generalizing left with
    | nil => rfl
    | cons lexeme rest ih =>
        obtain ⟨here, later⟩ := List.forall_mem_cons.mp all
        obtain ⟨spelling, rfl⟩ := exists_of_isWhitespace here
        rw [written, spacing_space, ih later, List.flatMap_cons, List.nil_append]
  rw [written_append, alone]

/-- White space at either end is collapsed to nothing, and any other white space to one space. -/
theorem collapse_written (front lexemes back : List Lexeme)
    (frontSpaces : ∀ lexeme ∈ front, lexeme.isWhitespace = true)
    (backSpaces : ∀ lexeme ∈ back, lexeme.isWhitespace = true)
    (blanks : ∀ lexeme ∈ front ++ (lexemes ++ back), lexeme.HasBlanks) :
    (written none (front ++ (lexemes ++ back))).collapse =
      (written none (squeezeAfter false lexemes)).collapse := by
  obtain ⟨frontBlanks, others⟩ := List.forall_mem_append.mp blanks
  obtain ⟨inside, backBlanks⟩ := List.forall_mem_append.mp others
  have blank (spaces : List Lexeme) (all : ∀ lexeme ∈ spaces, lexeme.isWhitespace = true)
      (within : ∀ lexeme ∈ spaces, lexeme.HasBlanks) :
      ∀ c ∈ spaces.flatMap text, isBlank c = true := by
    intro c member
    obtain ⟨lexeme, among, part⟩ := List.mem_flatMap.mp member
    exact (within lexeme among (all lexeme among)).2 c part
  have same := (sameWords_squeeze lexemes inside).1 none
  rw [← same.collapse_eq, written_front _ _ frontSpaces, written_back _ _ _ backSpaces]
  unfold Text.collapse
  rw [Text.words_blanks_append _ _ (blank front frontSpaces frontBlanks),
    Text.words_append_blanks _ _ (blank back backSpaces backBlanks)]

/-! ### Texts without other blanks -/

/-- White space is a single space in front of something else. -/
def IsInnerSpace (lexeme : Lexeme) (others : List Lexeme) : Prop :=
  lexeme.isWhitespace = true → lexeme = .leaf (.whitespace [' ']) ∧
    ∃ next more, others = next :: more ∧ next.isWhitespace = false

/-- A lexeme other than white space is written without blanks but for single spaces, and ends with
one only in front of something other than white space. -/
def IsEven (lexeme : Lexeme) (others : List Lexeme) : Prop :=
  lexeme.isWhitespace = false → lexeme.text.IsSpaced ∨
    ∃ front next more, lexeme.text = front ++ [' '] ∧ front.IsSpaced ∧ others = next :: more ∧
      next.isWhitespace = false

theorem exists_squeeze_true (lexemes : List Lexeme) (filled : lexemes ≠ [])
    (ends : ∀ last, lexemes.getLast? = some last → last.isWhitespace = false) :
    ∃ next more, squeezeAfter true lexemes = next :: more ∧ next.isWhitespace = false := by
  induction lexemes with
  | nil => exact absurd rfl filled
  | cons lexeme others ih =>
      rw [squeezeAfter]
      by_cases space : lexeme.isWhitespace = true
      · rw [if_pos space, if_pos rfl]
        cases others with
        | nil =>
            have solid := ends lexeme rfl
            rw [space] at solid
            cases solid
        | cons next more =>
            rw [List.getLast?_cons_cons] at ends
            exact ih (List.cons_ne_nil _ _) ends
      · rw [if_neg space]
        exact ⟨_, _, rfl, Bool.not_eq_true _ ▸ space⟩

theorem innerSpace_squeeze (behindSpace : Bool) (lexemes : List Lexeme)
    (ends : ∀ last, lexemes.getLast? = some last → last.isWhitespace = false) :
    EachInFront IsInnerSpace (squeezeAfter behindSpace lexemes) := by
  induction lexemes generalizing behindSpace with
  | nil => trivial
  | cons lexeme others ih =>
      have endsLater : ∀ last, others.getLast? = some last → last.isWhitespace = false := by
        intro last found
        apply ends last
        rw [List.getLast?_cons, found]
        rfl
      rw [squeezeAfter]
      by_cases space : lexeme.isWhitespace = true
      · rw [if_pos space]
        split
        · exact ih true endsLater
        · refine ⟨fun _ => ⟨rfl, ?_⟩, ih true endsLater⟩
          apply exists_squeeze_true others ?_ endsLater
          rintro rfl
          have solid := ends lexeme rfl
          rw [space] at solid
          cases solid
      · rw [if_neg space]
        exact ⟨fun impossible => absurd impossible space, ih false endsLater⟩

theorem isSpaced_spacing_append {text : Text} (spaced : text.IsSpaced) (left : Option Lexeme)
    (lexeme : Lexeme) : (spacing left lexeme ++ text).IsSpaced := by
  rcases spacing_cases left lexeme with nothing | comment
  · rw [nothing]
    exact spaced
  · rw [comment]
    have mark : Text.IsWord ['/', '*', '*', '/'] := ⟨List.cons_ne_nil _ _, by simp [isBlank]⟩
    exact mark.isSpaced.append spaced

/-- A text of lexemes that begins with a space is spaced behind it, and any other one is spaced. -/
private theorem isSpaced_behind {lexeme : Lexeme} {others : List Lexeme}
    (inner : EachInFront IsInnerSpace (lexeme :: others))
    (even : EachInFront IsEven (lexeme :: others)) (left : Option Lexeme) :
    (lexeme.isWhitespace = false → (written left (lexeme :: others)).IsSpaced) ∧
      (lexeme.isWhitespace = true →
        ∃ behind, written left (lexeme :: others) = ' ' :: behind ∧ IsSpaced behind) := by
  induction others generalizing lexeme left with
  | nil =>
      constructor
      · intro solid
        rw [written, written, List.append_nil]
        rcases even.1 solid with spaced | ⟨_, _, _, _, _, impossible, _⟩
        · exact isSpaced_spacing_append spaced left lexeme
        · cases impossible
      · intro space
        obtain ⟨_, _, _, impossible, _⟩ := inner.1 space
        cases impossible
  | cons next more ih =>
      obtain ⟨later, laterSpace⟩ := ih inner.2 even.2 (some lexeme)
      constructor
      · intro solid
        rw [written, List.append_assoc]
        apply isSpaced_spacing_append
        rcases even.1 solid with spaced | ⟨front, _, _, text, spaced, same, solidToo⟩
        · cases space : next.isWhitespace with
          | false => exact spaced.append (later space)
          | true =>
              obtain ⟨behind, written, spacedToo⟩ := laterSpace space
              rw [written]
              exact spaced.append_space spacedToo
        · cases same
          rw [text, List.append_assoc]
          exact spaced.append_space (later solidToo)
      · intro space
        obtain ⟨rfl, _, _, same, solid⟩ := inner.1 space
        cases same
        rw [written, spacing_space]
        exact ⟨_, rfl, later solid⟩

theorem isSpaced_written {lexemes : List Lexeme} (inner : EachInFront IsInnerSpace lexemes)
    (even : EachInFront IsEven lexemes) (filled : lexemes ≠ [])
    (begins : ∀ first, lexemes.head? = some first → first.isWhitespace = false) :
    (written none lexemes).IsSpaced := by
  cases lexemes with
  | nil => exact absurd rfl filled
  | cons lexeme others => exact (isSpaced_behind inner even none).1 (begins lexeme rfl)

end Lexeme

end SheetCensus.Css
