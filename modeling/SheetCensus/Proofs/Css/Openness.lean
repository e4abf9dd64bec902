import SheetCensus.Proofs.Css.Cutting

set_option autoImplicit false

/-! What is open at the end of a text. Only a comment can be open there without a frame, and it
is then the last thing that was read. -/

namespace SheetCensus.Css

def openFrames (text : Text) : List Frame :=
  (Nest.ofLexemes (lexemes text)).frames

def EndsInComment (text : Text) : Prop :=
  ∃ piece ∈ pieces text, ∃ body, piece.lexeme = .comment body false

def IsComplete (text : Text) : Prop :=
  openFrames text = [] ∧ ¬ EndsInComment text

private def Lexeme.isOpenComment : Lexeme → Bool
  | .comment _ closed => !closed
  | _ => false

private theorem Lexeme.isOpenComment_iff (lexeme : Lexeme) :
    lexeme.isOpenComment = true ↔ ∃ body, lexeme = .comment body false := by
  constructor
  · intro opened
    cases lexeme with
    | comment body closed =>
        cases closed with
        | false => exact ⟨body, rfl⟩
        | true => cases opened
    | _ => cases opened
  · rintro ⟨body, rfl⟩
    rfl

instance (text : Text) : Decidable (EndsInComment text) :=
  decidable_of_iff ((pieces text).any (fun piece => piece.lexeme.isOpenComment) = true) (by
    simp only [List.any_eq_true, Lexeme.isOpenComment_iff]
    rfl)

instance (text : Text) : Decidable (IsComplete text) :=
  inferInstanceAs (Decidable (_ ∧ _))

/-- A comment without an end reaches to the end of the text, and it is the last token of the
innermost block that is open there. -/
theorem EndsInComment.exists_body {text : Text} (ends : EndsInComment text) :
    ∃ read body, text = read ++ '/' :: '*' :: body ∧ Lexeme.commentEnd? body = none ∧
      ∃ position recent, Nest.ofLexemes (lexemes text) =
        ⟨openFrames text, .leaf position (.comment body) :: recent⟩ := by
  obtain ⟨piece, member, body, found⟩ := ends
  obtain ⟨read, c, rest, cut, rfl⟩ := isCut_of_mem text piece member
  rcases Piece.first_cases c rest with plain | ⟨inner, same⟩ | ⟨inner, starts, endless, same⟩ |
    ⟨bracket, same⟩ | ⟨bracket, same⟩
  · rw [found] at plain
    cases plain
  · rw [same] at found
    cases found
  · rw [same] at found
    cases found
    have whole := Piece.source_first_append_after c rest
    rw [same, starts, List.append_right_eq_self] at whole
    refine ⟨read, body, starts ▸ cut.text_eq, endless, ?_⟩
    obtain ⟨before, cutting, _⟩ := cut
    rw [pieces_eq_first, whole, same, pieces_nil] at cutting
    refine ⟨Position.start.after (before.flatMap Piece.source),
      ((placed .start before).foldl Nest.step Nest.empty).recent, ?_⟩
    unfold openFrames Nest.ofLexemes lexemes
    rw [cutting, placed_append, List.foldl_append]
    rfl
  · rw [same] at found
    cases found
  · rw [same] at found
    cases found

end SheetCensus.Css
