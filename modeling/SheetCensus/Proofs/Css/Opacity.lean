import SheetCensus.Proofs.Css.Joining

set_option autoImplicit false

/-! A block behind a keyword. As soon as it is known where the block closes, it is known what the
text up to there comes to: the tokens in front, the keyword and one block, whatever the block holds
(`HoldsBlock.ofLexemes_eq`). So there is one construct more than in front
(`HoldsBlock.constructs_eq`). -/

namespace SheetCensus.Css

/-! ### Behind a keyword -/

/-- The text is empty, or it ends outside every block right behind a block in curly brackets. -/
def EndsAtTop (text : Text) : Prop :=
  text = [] ∨ EndsWithBlock text

namespace EndsAtTop

variable {front : Text} (top : EndsAtTop front)

include top

theorem pieces_append (back : Text) : pieces (front ++ back) = pieces front ++ pieces back := by
  rcases top with rfl | ends
  · rfl
  · obtain ⟨before, cut⟩ := ends.pieces_eq
    exact Css.pieces_append front back before .curly cut

theorem ofLexemes_eq : ∃ recent, Nest.ofLexemes (lexemes front) = ⟨[], recent⟩ := by
  rcases top with rfl | ends
  · exact ⟨[], rfl⟩
  · exact Nest.exists_recent ends.1

/-- Constructs behind the text are those that its tokens have alone. -/
theorem constructs_append (back : List Token) :
    constructs (nest (withoutComments (lexemes front)) ++ back) =
      constructs (nest (withoutComments (lexemes front))) ++ constructs back := by
  rcases top with rfl | ends
  · rfl
  · obtain ⟨_, before, block, body, nested, curly⟩ := ends.nest_withoutComments_eq
    rw [nested, Css.constructs_append before back block body curly]

end EndsAtTop

theorem IsStop.curly : IsStop '{' := by
  constructor <;> decide

theorem pieces_curly (text : Text) :
    pieces ('{' :: text) = ⟨['{'], .opener (.bracket .curly)⟩ :: pieces text := by
  have range := startsUnicodeRange_stop IsStop.curly [] text
  have numeral := numeralWidth_stop IsStop.curly [] text
  have scanned : Lexeme.scan '{' text = (.opener (.bracket .curly), 1) := by
    rw [List.nil_append] at range numeral
    unfold Lexeme.scan
    simp only [range, numeral]
    rfl
  rw [pieces_cons, scanned]
  rfl

/-- The sign `@`, the spelling, a blank and an opening bracket are read as the at-keyword of this
name and the bracket, with the blank between them if it does not end an escape. -/
def SpellsKeyword (spelling name : Text) : Prop :=
  ∃ source blank, (blank = [] ∨ blank = [⟨[' '], .leaf (.whitespace [' '])⟩]) ∧
    pieces ('@' :: spelling ++ [' ', '{']) =
      ⟨source, .leaf (.atKeyword name)⟩ :: blank ++ [⟨['{'], .opener (.bracket .curly)⟩]

def withBlock (front keyword content : Text) : Text :=
  front ++ '@' :: keyword ++ [' ', '{'] ++ content ++ ['}']

def Reaches (text read left : Text) (nest : Nest) : Prop :=
  ∃ before, pieces text = before ++ pieces left ∧ before.flatMap Piece.source = read ∧
    Nest.ofLexemes (placed .start before) = nest

/-- The block that the bracket behind the keyword opens is the innermost open block when the bracket
behind the content is read, so that one closes it. -/
def HoldsBlock (front keyword content back : Text) : Prop :=
  ∃ nest last,
    Reaches (withBlock front keyword content ++ back) (front ++ '@' :: keyword ++ [' '])
      ('{' :: content ++ '}' :: back) nest ∧
    Reaches (withBlock front keyword content ++ back)
      (front ++ '@' :: keyword ++ [' ', '{'] ++ content) ('}' :: back)
      ⟨⟨Position.start.after (front ++ '@' :: keyword ++ [' ']), .bracket .curly, nest.recent⟩ ::
        nest.frames, last⟩

theorem SpellsKeyword.pieces_eq {front spelling name : Text} (top : EndsAtTop front)
    (spelled : SpellsKeyword spelling name) :
    ∃ source blank, (blank = [] ∨ blank = [⟨[' '], .leaf (.whitespace [' '])⟩]) ∧
      ∀ tail, pieces (front ++ '@' :: spelling ++ [' ', '{'] ++ tail) =
        pieces front ++ ⟨source, .leaf (.atKeyword name)⟩ :: blank ++
          ⟨['{'], .opener (.bracket .curly)⟩ :: pieces tail := by
  obtain ⟨source, blank, short, cut⟩ := spelled
  refine ⟨source, blank, short, ?_⟩
  intro tail
  have whole : ((⟨source, .leaf (.atKeyword name)⟩ : Piece) :: blank).flatMap Piece.source =
      '@' :: spelling ++ [' '] := by
    have all := flatMap_source_pieces ('@' :: spelling ++ [' ', '{'])
    rw [cut, List.flatMap_append, List.flatMap_singleton] at all
    apply (List.append_left_inj ['{']).mp
    rw [all]
    simp
  have alone : pieces (('@' :: spelling ++ [' ']) ++ '{' :: tail) =
      (⟨source, .leaf (.atKeyword name)⟩ :: blank) ++ pieces ('{' :: tail) := by
    rw [← whole]
    apply pieces_stop IsStop.curly _ []
    rw [whole, pieces_curly, pieces_nil, ← cut]
    simp
  have parted : front ++ '@' :: spelling ++ [' ', '{'] ++ tail =
      front ++ (('@' :: spelling ++ [' ']) ++ '{' :: tail) := by
    simp
  rw [parted, top.pieces_append, alone, pieces_curly, List.append_assoc]

namespace HoldsBlock

variable {front keyword name content back : Text} (top : EndsAtTop front)
  (spelled : SpellsKeyword keyword name) (held : HoldsBlock front keyword content back)

include top spelled held

/-- The state at the end of the block: behind the tokens in front stand the keyword, the blank and
the block. -/
theorem ofLexemes_eq :
    ∃ position place start blank inside recent,
      (blank = [] ∨ blank = [Token.leaf place (.whitespace [' '])]) ∧
      Nest.ofLexemes (lexemes front) = ⟨[], recent⟩ ∧
      Nest.ofLexemes (lexemes (withBlock front keyword content)) =
        ⟨[], .block start (.bracket .curly) inside ::
          (blank ++ .leaf position (.atKeyword name) :: recent)⟩ := by
  obtain ⟨source, blank, short, cut⟩ := spelled.pieces_eq top
  obtain ⟨recent, closed⟩ := top.ofLexemes_eq
  obtain ⟨nest, last, ⟨before, opens, _, rfl⟩, through, closes, read, state⟩ := held
  -- The tokens in front of the block are known, because the cut in front of it is.
  have known : before = pieces front ++ ⟨source, .leaf (.atKeyword name)⟩ :: blank := by
    apply (List.append_left_inj (pieces ('{' :: content ++ '}' :: back))).mp
    have here := cut (content ++ '}' :: back)
    rw [← opens, List.cons_append, pieces_curly, ← here]
    simp [withBlock]
  have headed : Nest.ofLexemes (placed .start before) =
      (placed (Position.start.after front) (⟨source, .leaf (.atKeyword name)⟩ :: blank)).foldl
        Nest.step ⟨[], recent⟩ := by
    rw [known, placed_append, flatMap_source_pieces, ← closed]
    exact List.foldl_append
  -- Up to its end the block is cut as it is in front of the text behind.
  have ends : pieces (withBlock front keyword content) = through ++ [⟨['}'], .closer .curly⟩] := by
    have whole : withBlock front keyword content ++ back =
        through.flatMap Piece.source ++ '}' :: back := by
      rw [read]
      simp [withBlock]
    rw [whole] at closes
    have alone := pieces_stop (IsStop.closing .curly) through back [] closes
    rw [read, pieces_closing] at alone
    exact alone
  have shut : Nest.ofLexemes (lexemes (withBlock front keyword content)) =
      (Nest.ofLexemes (placed .start through)).step
        (Position.start.after (through.flatMap Piece.source), .closer .curly) := by
    unfold Nest.ofLexemes lexemes
    rw [ends, placed_append, List.foldl_append]
    rfl
  rw [shut, state, headed]
  rcases short with rfl | rfl
  · exact ⟨_, Position.start, _, [], last.reverse, recent, Or.inl rfl, closed, rfl⟩
  · exact ⟨_, _, _, [_], last.reverse, recent, Or.inr rfl, closed, rfl⟩

theorem endsWithBlock : EndsWithBlock (withBlock front keyword content) := by
  obtain ⟨_, _, start, _, inside, _, _, _, state⟩ := held.ofLexemes_eq top spelled
  unfold EndsWithBlock openFrames nest
  rw [state]
  refine ⟨rfl, start, inside, ?_⟩
  change (List.reverse (_ :: _)).getLast? = _
  rw [List.getLast?_reverse]
  rfl

/-- Up to the end of the block there is one construct more than in front of it. -/
theorem constructs_eq :
    ∃ position prelude body, (prelude = [] ∨ ∃ place, prelude = [.leaf place (.whitespace [' '])]) ∧
      constructs (nest (withoutComments (lexemes (withBlock front keyword content)))) =
        constructs (nest (withoutComments (lexemes front))) ++
          [.atRule position name prelude (some body)] := by
  obtain ⟨position, place, start, blank, inside, recent, short, closed, state⟩ :=
    held.ofLexemes_eq top spelled
  have below : nest (lexemes front) = recent.reverse := by
    unfold nest
    rw [closed]
    rfl
  have tokens : nest (lexemes (withBlock front keyword content)) = recent.reverse ++
      (.leaf position (.atKeyword name) :: (blank.reverse ++
        [.block start (.bracket .curly) inside])) := by
    unfold nest
    rw [state]
    change List.reverse (_ :: _) = _
    simp
  rw [nest_withoutComments, tokens, uncommented_append, ← below, ← nest_withoutComments,
    top.constructs_append]
  rcases short with rfl | rfl
  · exact ⟨position, [], uncommented inside, Or.inl rfl, rfl⟩
  · exact ⟨position, _, uncommented inside, Or.inr ⟨place, rfl⟩, rfl⟩

end HoldsBlock

end SheetCensus.Css
