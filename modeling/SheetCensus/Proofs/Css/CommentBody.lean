import SheetCensus.Proofs.Css.Filler
import SheetCensus.Proofs.Css.Joining
import SheetCensus.Proofs.Source.Normalization

set_option autoImplicit false

/-! What stands inside a comment. The slash of a comment's first mark is a stop, so a text in which
cutting finds a comment is cut alike, in front of the comment and behind it, whatever the comment
holds (`FindsComment.exists_pieces`). The lexemes of two such texts are the same up to places and to
one comment (`FindsComment.lexemes_sameRole`), and without comments they differ in places only
(`FindsComment.withoutComments_beside`). -/

namespace SheetCensus

/-! ### The marks of a comment in a normalized text -/

namespace Source

theorem exists_of_normalize_eq_cons (text : Text) (c : Char) (more : Text) (feeds : c ≠ '\n')
    (shown : c ≠ '\uFFFD') (begins : normalize text = c :: more) :
    ∃ rest, text = c :: rest ∧ more = normalize rest := by
  revert begins
  fun_cases normalize text with
  | case1 =>
      intro begins
      cases begins
  | case2 rest =>
      intro begins
      exact absurd (List.cons.inj begins).1.symm feeds
  | case3 d rest plain =>
      intro begins
      obtain ⟨same, rfl⟩ := List.cons.inj begins
      refine ⟨rest, ?_, rfl⟩
      split at same
      · exact absurd same.symm shown
      · split at same
        · exact absurd same.symm feeds
        · rw [same]

/-- Two characters that no line end is replaced by stand next to each other only if they did so
before. -/
theorem infix_of_normalize (text : Text) (c d : Char) (feeds : c ≠ '\n' ∧ d ≠ '\n')
    (shown : c ≠ '\uFFFD' ∧ d ≠ '\uFFFD') (inside : [c, d] <:+: normalize text) :
    [c, d] <:+: text := by
  have begins (text : Text) (starts : [c, d] <+: normalize text) : [c, d] <+: text := by
    obtain ⟨more, whole⟩ := starts
    obtain ⟨rest, rfl, behind⟩ := exists_of_normalize_eq_cons text c (d :: more) feeds.1 shown.1
      whole.symm
    obtain ⟨others, rfl, _⟩ := exists_of_normalize_eq_cons rest d more feeds.2 shown.2 behind.symm
    exact ⟨others, rfl⟩
  revert inside
  fun_induction normalize text with
  | case1 => exact id
  | case2 rest ih =>
      intro inside
      rcases List.infix_cons_iff.mp inside with starts | later
      · exact absurd (List.cons_prefix_cons.mp starts).1 feeds.1
      · exact List.infix_cons (List.infix_cons (ih later))
  | case3 e rest plain ih =>
      intro inside
      rcases List.infix_cons_iff.mp inside with starts | later
      · have whole : [c, d] <+: normalize (e :: rest) := by
          rw [normalize]
          · exact starts
          · exact plain
        exact (begins (e :: rest) whole).isInfix
      · exact List.infix_cons (ih later)

theorem normalize_commented (front body back : Text) :
    normalize (front ++ '/' :: '*' :: (body ++ '*' :: '/' :: back)) =
      normalize front ++ '/' :: '*' :: (normalize body ++ '*' :: '/' :: normalize back) := by
  have slash : IsNormal '/' := ⟨by decide, by decide, by decide⟩
  have star : IsNormal '*' := ⟨by decide, by decide, by decide⟩
  rw [normalize_append_cons _ _ _ (by decide), normalize_cons _ _ slash, normalize_cons _ _ star,
    normalize_append_cons _ _ _ (by decide), normalize_cons _ _ star, normalize_cons _ _ slash]

end Source

namespace Css

def commented (front body back : Text) : Text :=
  front ++ '/' :: '*' :: (body ++ '*' :: '/' :: back)

/-- Cutting comes to the end of the front of the text and finds a comment there. -/
def FindsComment (text front : Text) : Prop :=
  ∃ before comment after, pieces text = before ++ comment :: after ∧
    before.flatMap Piece.source = front ∧ comment.lexeme.isComment = true

/-! ### Cutting -/

theorem IsStop.slash : IsStop '/' := by
  constructor <;> decide

/-- What is left at a cut is cut as it would be alone. -/
theorem pieces_behind (before after : List Piece) (text : Text)
    (cut : pieces text = before ++ after) : pieces (after.flatMap Piece.source) = after := by
  induction before generalizing text with
  | nil =>
      rw [List.nil_append] at cut
      rw [← cut, flatMap_source_pieces]
  | cons piece before ih =>
      cases text with
      | nil => cases cut
      | cons c rest =>
          rw [pieces_eq_first] at cut
          exact ih _ (List.cons.inj cut).2

theorem pieces_comment (body back : Text) (inside : ¬ ['*', '/'] <:+: body) :
    pieces ('/' :: '*' :: (body ++ '*' :: '/' :: back)) =
      ⟨'/' :: '*' :: body ++ ['*', '/'], .comment body true⟩ :: pieces back := by
  obtain ⟨found, behind⟩ := Piece.first_comment body back inside
  have whole := Piece.source_first_append_after '/' ('*' :: (body ++ '*' :: '/' :: back))
  have parted : '/' :: '*' :: (body ++ '*' :: '/' :: back) =
      ('/' :: '*' :: body ++ ['*', '/']) ++ back := by simp
  rw [behind, parted] at whole
  have source := List.append_cancel_right whole
  rw [pieces_eq_first, behind]
  generalize Piece.first '/' ('*' :: (body ++ '*' :: '/' :: back)) = piece at found source
  obtain ⟨covered, lexeme⟩ := piece
  cases found
  cases source
  rfl

/-- The pieces in front of a comment are the same whatever stands behind its first slash. -/
theorem FindsComment.exists_pieces {front body back : Text}
    (finds : FindsComment (commented front body back) front) :
    ∃ before, before.flatMap Piece.source = front ∧
      (∀ tail, pieces (front ++ '/' :: tail) = before ++ pieces ('/' :: tail)) ∧
      ∀ other, ¬ ['*', '/'] <:+: other →
        pieces (commented front other back) =
          before ++ ⟨'/' :: '*' :: other ++ ['*', '/'], .comment other true⟩ :: pieces back := by
  obtain ⟨before, comment, after, cut, rfl, _⟩ := finds
  have left := pieces_behind before (comment :: after) _ cut
  have whole := flatMap_source_pieces (commented (before.flatMap Piece.source) body back)
  rw [cut, List.flatMap_append] at whole
  rw [List.append_cancel_left whole] at left
  have stopped (tail : Text) : pieces (before.flatMap Piece.source ++ '/' :: tail) =
      before ++ pieces ('/' :: tail) := by
    apply pieces_stop IsStop.slash before ('*' :: (body ++ '*' :: '/' :: back)) tail
    rw [left]
    exact cut
  refine ⟨before, rfl, stopped, ?_⟩
  intro other inside
  rw [commented, stopped, pieces_comment other back inside]

/-! ### Lexemes -/

def Lexeme.SameRole (lexeme other : Lexeme) : Prop :=
  other = lexeme ∨ lexeme.isComment = true ∧ other.isComment = true

def uptoComment (front body : Text) : Text :=
  front ++ ('/' :: '*' :: body ++ ['*', '/'])

/-- Places in two texts that differ in what a comment holds: one place in front of the comment, and
three characters behind it if an address stands there, or the places of one character behind the
comment. -/
def Beside (front body other back : Text) (kind : Kind) (position place : Position) : Prop :=
  Within (front ++ ['/']) kind position place ∨
    ∃ read c rest, back = read ++ c :: rest ∧
      position = Position.start.after (uptoComment front body ++ read) ∧
        place = Position.start.after (uptoComment front other ++ read)

section

variable {front body other back : Text}
  (finds : FindsComment (commented front body back) front)
  (inside : ¬ ['*', '/'] <:+: body) (insideToo : ¬ ['*', '/'] <:+: other)

include finds inside insideToo

/-- The lexemes of both texts: those in front, the comment, and those behind. -/
theorem FindsComment.exists_lexemes :
    ∃ before, before.flatMap Piece.source = front ∧
      lexemes (commented front body back) = placed .start before ++
        (Position.start.after front, .comment body true) ::
          placed (Position.start.after (uptoComment front body)) (pieces back) ∧
      lexemes (commented front other back) = placed .start before ++
        (Position.start.after front, .comment other true) ::
          placed (Position.start.after (uptoComment front other)) (pieces back) ∧
      List.Forall₂ (LexemeAlike (Beside front body other back)) (placed .start before)
        (placed .start before) := by
  obtain ⟨before, rfl, stopped, cut⟩ := finds.exists_pieces
  have divided (content : Text) (inside : ¬ ['*', '/'] <:+: content) :
      lexemes (commented (before.flatMap Piece.source) content back) = placed .start before ++
        (Position.start.after (before.flatMap Piece.source), .comment content true) ::
          placed (Position.start.after (uptoComment (before.flatMap Piece.source) content))
            (pieces back) := by
    have further : Position.start.after (uptoComment (before.flatMap Piece.source) content) =
        (Position.start.after (before.flatMap Piece.source)).after
          ('/' :: '*' :: content ++ ['*', '/']) := by
      unfold uptoComment
      rw [Position.after_append]
    unfold lexemes
    rw [cut content inside, placed_append, placed, further]
  refine ⟨before, rfl, divided body inside, divided other insideToo, ?_⟩
  have alike := lexemes_within (before.flatMap Piece.source ++ ['/'])
  unfold lexemes at alike
  rw [stopped [], placed_append, List.forall₂_same] at alike
  rw [List.forall₂_same]
  intro entry member
  obtain ⟨same, places⟩ := alike entry (List.mem_append_left _ member)
  exact ⟨same, fun kind found => Or.inl (places kind found)⟩

theorem FindsComment.lexemes_sameRole :
    List.Forall₂ (fun placed twin => placed.2.SameRole twin.2)
      (lexemes (commented front body back)) (lexemes (commented front other back)) := by
  obtain ⟨before, _, first, second, _⟩ := finds.exists_lexemes inside insideToo
  rw [first, second]
  apply List.rel_append
  · exact List.forall₂_same.mpr (fun _ _ => Or.inl rfl)
  · refine .cons (Or.inr ⟨rfl, rfl⟩) ?_
    exact forall₂_placed back _ _ _ (fun _ _ _ _ => Or.inl rfl)

theorem FindsComment.withoutComments_beside :
    List.Forall₂ (LexemeAlike (Beside front body other back))
      (withoutComments (lexemes (commented front body back)))
      (withoutComments (lexemes (commented front other back))) := by
  obtain ⟨before, _, first, second, ahead⟩ := finds.exists_lexemes inside insideToo
  have behind : List.Forall₂ (LexemeAlike (Beside front body other back))
      (placed (Position.start.after (uptoComment front body)) (pieces back))
      (placed (Position.start.after (uptoComment front other)) (pieces back)) := by
    apply forall₂_placed
    intro read c rest cut
    refine ⟨rfl, fun kind _ => Or.inr ⟨read, c, rest, cut.text_eq, ?_, ?_⟩⟩
    · rw [Position.after_append]
    · rw [Position.after_append]
  have divided (content : Text) (left right : List (Position × Lexeme)) (position : Position) :
      withoutComments (left ++ (position, .comment content true) :: right) =
        withoutComments left ++ withoutComments right := by
    unfold withoutComments
    rw [List.filter_append]
    rfl
  rw [first, second, divided, divided]
  exact List.rel_append (withoutComments_alike ahead) (withoutComments_alike behind)

end

end Css

end SheetCensus
