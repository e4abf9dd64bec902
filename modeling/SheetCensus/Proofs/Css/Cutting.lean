import SheetCensus.Css.Nesting

set_option autoImplicit false

/-! What one step of cutting can find, and what holds after all of them. `scan_cases` lists the
lexemes that carry structure together with the characters they stand for; everything else is
plain. `Nest.ofLexemes_induction` carries a property of the text read so far and of the open
blocks from one cut to the next. -/

namespace SheetCensus.Css

/-! ### The lexeme at the start of a text -/

/-- A lexeme that neither closes a block, nor is a comment, nor opens a block by a bracket. -/
def Lexeme.IsPlain : Lexeme → Prop
  | .leaf (.comment _) => False
  | .leaf _ => True
  | .brokenOff (.comment _) _ => False
  | .brokenOff _ _ => True
  | .comment _ _ => False
  | .opener (.bracket _) => False
  | .opener (.function _) => True
  | .closer _ => False

namespace Lexeme

private theorem scanUrl_isPlain (text : Text) : (scanUrl text).1.IsPlain := by
  unfold scanUrl
  dsimp only
  split
  · trivial
  · split
    · trivial
    · split <;> trivial

private theorem scanIdent_isPlain (text : Text) : (scanIdent text).1.IsPlain := by
  fun_cases scanIdent text with
  | case1 width name rest _ _ lexeme reach found =>
      have plain := scanUrl_isPlain rest
      rw [found] at plain
      exact plain
  | case2 => trivial
  | case3 => trivial

private theorem scanNumeric_isPlain (text : Text) (width : Nat) :
    (scanNumeric text width).1.IsPlain := by
  unfold scanNumeric
  dsimp only
  split
  · trivial
  · split <;> trivial

private theorem scanString_isPlain (quote : Char) (text : Text) :
    (scanString quote text).1.IsPlain := by
  unfold scanString
  dsimp only
  split
  · trivial
  · split <;> trivial

private theorem scanAt_isPlain (text : Text) : (scanAt text).1.IsPlain := by
  unfold scanAt
  split <;> trivial

private theorem scanHash_isPlain (text : Text) : (scanHash text).1.IsPlain := by
  unfold scanHash
  split <;> trivial

private theorem scanLiteral_isPlain (first : Char) (rest : Text) :
    (scanLiteral first rest).1.IsPlain := by
  unfold scanLiteral
  split
  · trivial
  · split
    · trivial
    · split <;> trivial

private theorem opening_of_ofOpening? (c : Char) (bracket : Bracket)
    (found : Bracket.ofOpening? c = some bracket) : c = bracket.opening := by
  unfold Bracket.ofOpening? at found
  split at found
  · cases found
    assumption
  · split at found
    · cases found
      assumption
    · split at found
      · cases found
        assumption
      · cases found

private theorem closing_of_ofClosing? (c : Char) (bracket : Bracket)
    (found : Bracket.ofClosing? c = some bracket) : c = bracket.closing := by
  unfold Bracket.ofClosing? at found
  split at found
  · cases found
    assumption
  · split at found
    · cases found
      assumption
    · split at found
      · cases found
        assumption
      · cases found

/-- The lexeme at the start of a text is plain, or a comment, or a bracket. -/
theorem scan_cases (first : Char) (rest : Text) :
    (scan first rest).1.IsPlain ∨
      (∃ body, first :: rest = '/' :: '*' :: body ∧ scan first rest = scanComment body) ∨
      (∃ bracket, first = Bracket.opening bracket ∧
        scan first rest = (.opener (.bracket bracket), 1)) ∨
      (∃ bracket, first = Bracket.closing bracket ∧ scan first rest = (.closer bracket, 1)) := by
  unfold scan
  dsimp only
  split
  · exact Or.inl trivial
  split
  · exact Or.inl trivial
  split
  · exact Or.inl trivial
  split
  · exact Or.inl (scanIdent_isPlain _)
  split
  · exact Or.inl (scanNumeric_isPlain _ _)
  fun_cases scanMark first rest with
  | case1 => exact Or.inl (scanAt_isPlain _)
  | case2 => exact Or.inl (scanHash_isPlain _)
  | case3 => exact Or.inl (scanString_isPlain _ _)
  | case4 _ _ _ begins =>
      obtain ⟨rfl, starred⟩ := begins
      cases rest with
      | nil => cases starred
      | cons star body =>
          cases Option.some.inj starred
          exact Or.inr (Or.inl ⟨body, rfl, rfl⟩)
  | case5 _ _ _ _ bracket opens =>
      exact Or.inr (Or.inr (Or.inl ⟨bracket, opening_of_ofOpening? first bracket opens, rfl⟩))
  | case6 _ _ _ _ bracket closes =>
      exact Or.inr (Or.inr (Or.inr ⟨bracket, closing_of_ofClosing? first bracket closes, rfl⟩))
  | case7 => exact Or.inl (scanLiteral_isPlain _ _)

private theorem take_of_commentEnd? (text : Text) (length : Nat)
    (found : commentEnd? text = some length) :
    text.take (length + 2) = text.take length ++ ['*', '/'] := by
  induction text generalizing length with
  | nil => cases found
  | cons c rest ih =>
      unfold commentEnd? at found
      by_cases ends : c = '*' ∧ rest.head? = some '/'
      · rw [if_pos ends] at found
        cases found
        obtain ⟨rfl, slash⟩ := ends
        cases rest with
        | nil => cases slash
        | cons second others =>
            cases Option.some.inj slash
            rfl
      · rw [if_neg ends] at found
        obtain ⟨shorter, inRest, rfl⟩ := Option.map_eq_some_iff.mp found
        exact congrArg (c :: ·) (ih shorter inRest)

end Lexeme

/-! ### The piece at the start of a text -/

namespace Piece

def first (c : Char) (rest : Text) : Piece :=
  ⟨c :: rest.take ((Lexeme.scan c rest).2 - 1), (Lexeme.scan c rest).1⟩

def after (c : Char) (rest : Text) : Text :=
  rest.drop ((Lexeme.scan c rest).2 - 1)

theorem source_first_append_after (c : Char) (rest : Text) :
    (first c rest).source ++ after c rest = c :: rest := by
  change c :: (rest.take _ ++ rest.drop _) = c :: rest
  rw [List.take_append_drop]

private theorem first_of_scanComment (text : Text)
    (scanned : Lexeme.scan '/' ('*' :: text) = Lexeme.scanComment text) :
    (∃ body, first '/' ('*' :: text) = ⟨'/' :: '*' :: body ++ ['*', '/'], .comment body true⟩) ∨
      (Lexeme.commentEnd? text = none ∧
        first '/' ('*' :: text) = ⟨'/' :: '*' :: text, .comment text false⟩) := by
  unfold first
  rw [scanned]
  unfold Lexeme.scanComment
  cases ends : Lexeme.commentEnd? text with
  | some length =>
      refine Or.inl ⟨text.take length, ?_⟩
      change (⟨'/' :: '*' :: text.take (length + 2), _⟩ : Piece) = _
      rw [Lexeme.take_of_commentEnd? text length ends]
      rfl
  | none =>
      refine Or.inr ⟨rfl, ?_⟩
      change (⟨'/' :: '*' :: text.take text.length, _⟩ : Piece) = _
      rw [List.take_length]

/-- The first piece of a text is plain, or a comment with its marks, or a bracket. A comment
without an end takes in the whole text. -/
theorem first_cases (c : Char) (rest : Text) :
    (first c rest).lexeme.IsPlain ∨
      (∃ body, first c rest = ⟨'/' :: '*' :: body ++ ['*', '/'], .comment body true⟩) ∨
      (∃ body, c :: rest = '/' :: '*' :: body ∧ Lexeme.commentEnd? body = none ∧
        first c rest = ⟨'/' :: '*' :: body, .comment body false⟩) ∨
      (∃ bracket, first c rest = ⟨[Bracket.opening bracket], .opener (.bracket bracket)⟩) ∨
      (∃ bracket, first c rest = ⟨[Bracket.closing bracket], .closer bracket⟩) := by
  rcases Lexeme.scan_cases c rest with
    plain | ⟨body, starts, scanned⟩ | ⟨bracket, rfl, scanned⟩ | ⟨bracket, rfl, scanned⟩
  · exact Or.inl plain
  · obtain ⟨rfl, rfl⟩ := List.cons.inj starts
    rcases first_of_scanComment body scanned with closed | ⟨endless, opened⟩
    · exact Or.inr (Or.inl closed)
    · exact Or.inr (Or.inr (Or.inl ⟨body, rfl, endless, opened⟩))
  · refine Or.inr (Or.inr (Or.inr (Or.inl ⟨bracket, ?_⟩)))
    simp only [first, scanned, Nat.sub_self, List.take_zero]
  · refine Or.inr (Or.inr (Or.inr (Or.inr ⟨bracket, ?_⟩)))
    simp only [first, scanned, Nat.sub_self, List.take_zero]

end Piece

/-! ### From cut to cut -/

theorem pieces_eq_first (c : Char) (rest : Text) :
    pieces (c :: rest) = Piece.first c rest :: pieces (Piece.after c rest) :=
  pieces_cons c rest

/-- Cutting a text comes to the place between what is read and what is left. -/
def IsCut (text read left : Text) : Prop :=
  ∃ before, pieces text = before ++ pieces left ∧ read = before.flatMap Piece.source

namespace IsCut

theorem start (text : Text) : IsCut text [] text :=
  ⟨[], rfl, rfl⟩

theorem next {text read : Text} {c : Char} {rest : Text} (cut : IsCut text read (c :: rest)) :
    IsCut text (read ++ (Piece.first c rest).source) (Piece.after c rest) := by
  obtain ⟨before, pieces, rfl⟩ := cut
  refine ⟨before ++ [Piece.first c rest], ?_, ?_⟩
  · rw [pieces, pieces_eq_first, List.append_assoc, List.singleton_append]
  · rw [List.flatMap_append, List.flatMap_singleton]

theorem text_eq {text read left : Text} (cut : IsCut text read left) : text = read ++ left := by
  obtain ⟨before, pieces, rfl⟩ := cut
  rw [← flatMap_source_pieces text, pieces, List.flatMap_append, flatMap_source_pieces]

theorem first_mem {text read : Text} {c : Char} {rest : Text}
    (cut : IsCut text read (c :: rest)) : Piece.first c rest ∈ pieces text := by
  obtain ⟨before, pieces, _⟩ := cut
  rw [pieces, pieces_eq_first]
  exact List.mem_append_right before List.mem_cons_self

private theorem induction_of_length (text : Text) (motive : Text → Text → Prop)
    (atEnd : motive text [])
    (step : ∀ (read : Text) (c : Char) (rest : Text), IsCut text read (c :: rest) →
      motive (read ++ (Piece.first c rest).source) (Piece.after c rest) → motive read (c :: rest))
    (size : Nat) (read left : Text) (small : left.length ≤ size) (cut : IsCut text read left) :
    motive read left := by
  induction size generalizing read left with
  | zero =>
      cases List.eq_nil_of_length_eq_zero (Nat.le_zero.mp small)
      have whole := cut.text_eq
      rw [List.append_nil] at whole
      exact whole ▸ atEnd
  | succ size ih =>
      cases left with
      | nil =>
          have whole := cut.text_eq
          rw [List.append_nil] at whole
          exact whole ▸ atEnd
      | cons c rest =>
          refine step read c rest cut (ih _ _ ?_ cut.next)
          unfold Piece.after
          rw [List.length_drop]
          rw [List.length_cons] at small
          omega

/-- What holds at the end of a text, and at each cut if it holds at the next one, holds at every
cut. -/
theorem backwards {text : Text} (motive : Text → Text → Prop) (atEnd : motive text [])
    (step : ∀ (read : Text) (c : Char) (rest : Text), IsCut text read (c :: rest) →
      motive (read ++ (Piece.first c rest).source) (Piece.after c rest) → motive read (c :: rest))
    {read left : Text} (cut : IsCut text read left) : motive read left :=
  induction_of_length text motive atEnd step left.length read left (Nat.le_refl _) cut

end IsCut

/-- Every piece of a text stands at a cut. -/
theorem isCut_of_mem (text : Text) (piece : Piece) (member : piece ∈ pieces text) :
    ∃ read c rest, IsCut text read (c :: rest) ∧ piece = Piece.first c rest := by
  revert member
  apply IsCut.backwards (fun _ left => piece ∈ pieces left →
    ∃ read c rest, IsCut text read (c :: rest) ∧ piece = Piece.first c rest) ?_ ?_
    (IsCut.start text)
  · intro absent
    cases absent
  · intro read c rest cut later member
    rw [pieces_eq_first] at member
    rcases List.mem_cons.mp member with same | inRest
    · exact ⟨read, c, rest, cut, same⟩
    · exact later inRest

theorem placed_append (position : Position) (left right : List Piece) :
    placed position (left ++ right) =
      placed position left ++ placed (position.after (left.flatMap Piece.source)) right := by
  induction left generalizing position with
  | nil => rfl
  | cons piece others ih =>
      simp only [List.cons_append, placed, ih, List.flatMap_cons, Position.after_append]

theorem forall_mem_placed_iff (holds : Lexeme → Prop) (position : Position)
    (pieces : List Piece) :
    (∀ entry ∈ placed position pieces, holds entry.2) ↔ ∀ piece ∈ pieces, holds piece.lexeme := by
  induction pieces generalizing position with
  | nil => simp [placed]
  | cons piece others ih => rw [placed, List.forall_mem_cons, List.forall_mem_cons, ih]

/-- What holds before anything is read and is kept from each cut to the next holds of the whole
text and of the state after its last lexeme. -/
theorem Nest.ofLexemes_induction (text : Text) (holds : Text → Nest → Prop)
    (start : holds [] Nest.empty)
    (step : ∀ (read : Text) (c : Char) (rest : Text) (nest : Nest),
      IsCut text read (c :: rest) → holds read nest →
        holds (read ++ (Piece.first c rest).source)
          (nest.step (Position.start.after read, (Piece.first c rest).lexeme))) :
    holds text (Nest.ofLexemes (lexemes text)) := by
  -- The state is generalized, so that the induction runs from the end of the text to its start.
  have fromCut : ∀ nest, holds [] nest →
      holds text ((placed (Position.start.after []) (pieces text)).foldl Nest.step nest) := by
    apply IsCut.backwards (fun read left => ∀ nest, holds read nest →
      holds text ((placed (Position.start.after read) (pieces left)).foldl Nest.step nest)) ?_ ?_
      (IsCut.start text)
    · intro nest here
      exact here
    · intro read c rest cut later nest here
      rw [pieces_eq_first, placed, List.foldl_cons, ← Position.after_append]
      exact later _ (step read c rest nest cut here)
  exact fromCut Nest.empty start

end SheetCensus.Css
