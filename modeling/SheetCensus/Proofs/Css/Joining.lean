import SheetCensus.Css.Construct
import SheetCensus.Proofs.Css.Comments
import SheetCensus.Proofs.Css.Likeness
import SheetCensus.Proofs.Css.Locality
import SheetCensus.Proofs.Css.Openness

set_option autoImplicit false

/-! A text put behind another one. Behind a closing bracket that was read as such a text is cut
as if it stood alone (`pieces_append`); behind a text with nothing open it nests as if it stood
alone (`nest_append`); and behind a block in curly brackets it is divided into constructs as if it
stood alone (`constructs_append`). -/

namespace SheetCensus.Css

/-! ### Cutting -/

theorem IsStop.closing (bracket : Bracket) : IsStop bracket.closing := by
  cases bracket <;> constructor <;> decide

theorem scan_closing (bracket : Bracket) (text : Text) :
    Lexeme.scan bracket.closing text = (.closer bracket, 1) := by
  have stops := IsStop.closing bracket
  have range := startsUnicodeRange_stop stops [] text
  have numeral := numeralWidth_stop stops [] text
  have bare : startsIdent (bracket.closing :: text) = false := by
    simp [startsIdent, startsEscape, stops.ne_hyphen, stops.ne_backslash, stops.isNameStart_eq]
  rw [List.nil_append] at range numeral
  unfold Lexeme.scan
  simp only [range, numeral, bare, stops.isSpace_eq]
  cases bracket <;> rfl

theorem pieces_closing (bracket : Bracket) (text : Text) :
    pieces (bracket.closing :: text) = ⟨[bracket.closing], .closer bracket⟩ :: pieces text := by
  rw [pieces_cons, scan_closing]
  rfl

/-- A lexeme in front of a stop does not change with what stands behind the stop. -/
theorem Piece.first_stop {stop : Char} (stops : IsStop stop) (c : Char)
    (rest ending tail other : Text)
    (goesOn : Piece.after c (rest ++ stop :: tail) = ending ++ stop :: tail) :
    Piece.first c (rest ++ stop :: other) = Piece.first c (rest ++ stop :: tail) ∧
      Piece.after c (rest ++ stop :: other) = ending ++ stop :: other := by
  have within : (Lexeme.scan c (rest ++ stop :: tail)).2 - 1 ≤ rest.length := by
    have size := congrArg List.length goesOn
    simp only [Piece.after, List.length_drop, List.length_append, List.length_cons] at size
    omega
  have scanned : Lexeme.scan c (rest ++ stop :: other) = Lexeme.scan c (rest ++ stop :: tail) :=
    Lexeme.scan_stop stops c rest tail other (by omega)
  unfold Piece.after at goesOn ⊢
  unfold Piece.first
  rw [List.drop_append_of_le_length within] at goesOn
  rw [scanned, List.take_append_of_le_length within, List.take_append_of_le_length within,
    List.drop_append_of_le_length within, List.append_cancel_right goesOn]
  exact ⟨rfl, rfl⟩

/-- A cut in front of a stop is made whatever stands behind the stop. -/
theorem pieces_stop {stop : Char} (stops : IsStop stop) (before : List Piece)
    (tail other : Text)
    (cut : pieces (before.flatMap Piece.source ++ stop :: tail) = before ++ pieces (stop :: tail)) :
    pieces (before.flatMap Piece.source ++ stop :: other) = before ++ pieces (stop :: other) := by
  induction before with
  | nil => rfl
  | cons piece before ih =>
      obtain ⟨source, lexeme⟩ := piece
      rw [List.flatMap_cons] at cut ⊢
      cases source with
      | nil =>
          -- A piece is never empty, so this one is not the first of a text.
          exfalso
          obtain ⟨c, rest, filled⟩ := List.exists_cons_of_ne_nil
            (List.append_ne_nil_of_right_ne_nil (before.flatMap Piece.source)
              (List.cons_ne_nil stop tail))
          rw [List.nil_append, filled, pieces_eq_first] at cut
          cases congrArg Piece.source (List.cons.inj cut).1
      | cons c read =>
          rw [List.cons_append, List.cons_append, pieces_eq_first, List.cons_append] at cut
          obtain ⟨here, later⟩ := List.cons.inj cut
          have goesOn : Piece.after c (read ++ before.flatMap Piece.source ++ stop :: tail) =
              before.flatMap Piece.source ++ stop :: tail := by
            rw [← flatMap_source_pieces (Piece.after c _), later, List.flatMap_append,
              flatMap_source_pieces]
          rw [goesOn] at later
          obtain ⟨same, behind⟩ := Piece.first_stop stops c _ _ tail other goesOn
          rw [List.cons_append, List.cons_append, pieces_eq_first, same, here, behind, ih later]
          rfl

theorem pieces_append (front back : Text) (before : List Piece) (bracket : Bracket)
    (ends : pieces front = before ++ [⟨[bracket.closing], .closer bracket⟩]) :
    pieces (front ++ back) = pieces front ++ pieces back := by
  have whole := flatMap_source_pieces front
  rw [ends, List.flatMap_append, List.flatMap_singleton] at whole
  have cut : pieces (before.flatMap Piece.source ++ [bracket.closing]) =
      before ++ pieces [bracket.closing] := by
    rw [whole, ends, pieces_closing]
    rfl
  have longer := pieces_stop (IsStop.closing bracket) before [] back cut
  rw [ends, ← whole, List.append_assoc, List.singleton_append, longer, pieces_closing]
  simp

/-! ### Nesting -/

def Frame.listAbove (below : List Token) : List Frame → List Frame
  | [] => []
  | [frame] => [{ frame with before := frame.before ++ below }]
  | frame :: second :: outer => frame :: listAbove below (second :: outer)

namespace Nest

def above (below : List Token) (nest : Nest) : Nest :=
  match nest.frames with
  | [] => ⟨[], nest.recent ++ below⟩
  | frame :: outer => ⟨Frame.listAbove below (frame :: outer), nest.recent⟩

theorem push_above (below : List Token) (nest : Nest) (token : Token) :
    (nest.above below).push token = (nest.push token).above below := by
  obtain ⟨frames, recent⟩ := nest
  cases frames <;> rfl

theorem shut_above (below : List Token) (nest : Nest) (position : Position) (bracket : Bracket) :
    (nest.above below).shut position bracket = (nest.shut position bracket).above below := by
  have unmatched := push_above below nest (.leaf position (.error (.unmatched bracket)))
  obtain ⟨frames, recent⟩ := nest
  match frames with
  | [] => exact unmatched
  | [frame] =>
      unfold shut above
      dsimp only [Frame.listAbove]
      split
      · rfl
      · rfl
  | frame :: second :: outer =>
      unfold shut above
      dsimp only [Frame.listAbove]
      split
      · rfl
      · rfl

theorem step_above (below : List Token) (nest : Nest) (placed : Position × Lexeme) :
    (nest.above below).step placed = (nest.step placed).above below := by
  obtain ⟨position, lexeme⟩ := placed
  cases lexeme with
  | leaf leaf => exact push_above below nest _
  | brokenOff leaf error =>
      change ((nest.above below).push _).push _ = _
      rw [push_above, push_above]
      rfl
  | comment body closed => exact push_above below nest _
  | opener opener =>
      obtain ⟨frames, recent⟩ := nest
      cases frames <;> rfl
  | closer bracket => exact shut_above below nest position bracket

theorem foldl_step_above (below : List Token) (nest : Nest) (lexemes : List (Position × Lexeme)) :
    lexemes.foldl step (nest.above below) = (lexemes.foldl step nest).above below := by
  induction lexemes generalizing nest with
  | nil => rfl
  | cons first rest ih => rw [List.foldl_cons, List.foldl_cons, step_above, ih]

theorem finish_listAbove (below : List Token) (frame : Frame) (outer : List Frame)
    (recent : List Token) :
    finish (Frame.listAbove below (frame :: outer)) recent =
      below.reverse ++ finish (frame :: outer) recent := by
  induction outer generalizing frame recent with
  | nil =>
      change (_ :: (frame.before ++ below)).reverse = _ ++ (_ :: frame.before).reverse
      rw [← List.cons_append, List.reverse_append]
  | cons second outer ih => exact ih second _

theorem tokens_above (below : List Token) (nest : Nest) :
    (nest.above below).tokens = below.reverse ++ nest.tokens := by
  obtain ⟨frames, recent⟩ := nest
  cases frames with
  | nil => exact List.reverse_append
  | cons frame outer => exact finish_listAbove below frame outer recent

theorem exists_recent {nest : Nest} (shut : nest.frames = []) :
    ∃ recent, nest = ⟨[], recent⟩ := by
  obtain ⟨frames, recent⟩ := nest
  change frames = [] at shut
  subst shut
  exact ⟨recent, rfl⟩

end Nest

theorem nest_append (front back : List (Position × Lexeme))
    (shut : (Nest.ofLexemes front).frames = []) :
    nest (front ++ back) = nest front ++ nest back := by
  obtain ⟨recent, state⟩ := Nest.exists_recent shut
  have alone : nest front = recent.reverse := by
    unfold nest
    rw [state]
    rfl
  -- Tokens in front stay in front, and nothing that comes later looks at them.
  have both : Nest.ofLexemes (front ++ back) = (Nest.ofLexemes back).above recent := by
    unfold Nest.ofLexemes at state ⊢
    rw [List.foldl_append, state]
    exact Nest.foldl_step_above recent Nest.empty back
  rw [alone]
  unfold nest
  rw [both, Nest.tokens_above]

theorem Nest.finish_ne_nil (frames : List Frame) (recent : List Token)
    (some : frames ≠ [] ∨ recent ≠ []) : finish frames recent ≠ [] := by
  induction frames generalizing recent with
  | nil =>
      intro none
      exact some.resolve_left (fun here => here rfl) (List.reverse_eq_nil_iff.mp none)
  | cons frame outer ih => exact ih _ (Or.inr (List.cons_ne_nil _ _))

theorem Nest.tokens_step_ne_nil (nest : Nest) (placed : Position × Lexeme) :
    (nest.step placed).tokens ≠ [] := by
  obtain ⟨position, lexeme⟩ := placed
  apply Nest.finish_ne_nil
  cases lexeme with
  | opener opener => exact Or.inl (List.cons_ne_nil _ _)
  | closer bracket =>
      refine Or.inr ?_
      change (nest.shut position bracket).recent ≠ []
      unfold shut
      split
      · exact List.cons_ne_nil _ _
      · split
        · exact List.cons_ne_nil _ _
        · exact List.cons_ne_nil _ _
  | _ => exact Or.inr (List.cons_ne_nil _ _)

theorem nest_ne_nil (lexemes : List (Position × Lexeme)) (some : lexemes ≠ []) :
    nest lexemes ≠ [] := by
  rcases List.eq_nil_or_concat lexemes with none | ⟨front, last, rfl⟩
  · exact absurd none some
  · unfold nest Nest.ofLexemes
    rw [List.concat_eq_append, List.foldl_append]
    exact Nest.tokens_step_ne_nil _ last

/-! ### Constructs -/

theorem Construct.listAfter_append (state : Option (Beginning × List Token)) (front : List Token)
    (block : Token) (body : List Token) (curly : block.curlyContent? = some body)
    (back : List Token) :
    listAfter state (front ++ block :: back) =
      listAfter state (front ++ [block]) ++ listAfter none back := by
  induction front generalizing state with
  | nil =>
      cases state with
      | none => simp [listAfter, curly]
      | some begun => simp [listAfter, curly]
  | cons token rest ih =>
      cases state with
      | none =>
          simp only [List.cons_append, listAfter]
          split
          · rw [ih, List.cons_append]
          · split
            · exact ih none
            · exact ih _
      | some begun =>
          simp only [List.cons_append, listAfter]
          split
          · rw [ih, List.cons_append]
          · split
            · rw [ih, List.cons_append]
            · exact ih _

theorem constructs_append (front back : List Token) (block : Token) (body : List Token)
    (curly : block.curlyContent? = some body) :
    constructs (front ++ [block] ++ back) = constructs (front ++ [block]) ++ constructs back := by
  rw [List.append_assoc, List.singleton_append]
  exact Construct.listAfter_append none front block body curly back

/-! ### After a block -/

/-- Nothing is open at the end of the text, and the last that stands there is a block in curly
brackets. -/
def EndsWithBlock (text : Text) : Prop :=
  openFrames text = [] ∧ ∃ position content,
    (nest (lexemes text)).getLast? = some (.block position (.bracket .curly) content)

def ClosesBlock (lexemes : List (Position × Lexeme)) : Prop :=
  ∃ front position frame recent, lexemes = front ++ [(position, .closer .curly)] ∧
    Nest.ofLexemes front = ⟨[frame], recent⟩ ∧ frame.opener = .bracket .curly

theorem Nest.step_eq_block {nest : Nest} {placed : Position × Lexeme} {position : Position}
    {content recent : List Token}
    (last : nest.step placed = ⟨[], .block position (.bracket .curly) content :: recent⟩) :
    placed.2 = .closer .curly ∧ ∃ frame inner, nest = ⟨[frame], inner⟩ ∧
      frame.opener = .bracket .curly := by
  obtain ⟨frames, inner⟩ := nest
  obtain ⟨place, lexeme⟩ := placed
  cases lexeme with
  | leaf leaf => simp [step, push] at last
  | brokenOff leaf error => simp [step, push] at last
  | comment body closed => simp [step, push] at last
  | opener opener => simp [step] at last
  | closer bracket =>
      change shut ⟨frames, inner⟩ place bracket = _ at last
      unfold shut at last
      cases frames with
      | nil => simp [push] at last
      | cons frame outer =>
          dsimp only at last
          by_cases fits : frame.opener.closedBy = bracket
          · rw [if_pos fits] at last
            simp only [Nest.mk.injEq, List.cons.injEq, Token.block.injEq] at last
            obtain ⟨rfl, ⟨rfl, opened, rfl⟩, rfl⟩ := last
            rw [opened] at fits
            exact ⟨congrArg Lexeme.closer fits.symm, frame, inner, rfl, opened⟩
          · simp [fits, push] at last

theorem EndsWithBlock.closesBlock {text : Text} (ends : EndsWithBlock text) :
    ClosesBlock (lexemes text) := by
  obtain ⟨shut, position, content, found⟩ := ends
  unfold openFrames at shut
  generalize lexemes text = all at shut found ⊢
  obtain ⟨recent, state⟩ := Nest.exists_recent shut
  unfold nest at found
  rw [state] at found
  change recent.reverse.getLast? = _ at found
  rw [List.getLast?_reverse] at found
  obtain ⟨rest, rfl⟩ := List.head?_eq_some_iff.mp found
  -- Each step leaves a token or a frame of its own last, so the last step closed the block.
  rcases List.eq_nil_or_concat all with none | ⟨front, ⟨place, lexeme⟩, rfl⟩
  · subst none
    cases state
  · rw [List.concat_eq_append] at state ⊢
    unfold Nest.ofLexemes at state
    rw [List.foldl_append] at state
    obtain ⟨closer, frame, inner, before, opened⟩ := Nest.step_eq_block state
    change lexeme = _ at closer
    subst closer
    exact ⟨front, place, frame, inner, rfl, before, opened⟩

/-- The last token stays a block in curly brackets when the comments are taken out. -/
theorem EndsWithBlock.nest_withoutComments_eq {text : Text} (ends : EndsWithBlock text) :
    (Nest.ofLexemes (withoutComments (lexemes text))).frames = [] ∧
      ∃ front block body, nest (withoutComments (lexemes text)) = front ++ [block] ∧
        block.curlyContent? = some body := by
  obtain ⟨shut, position, content, last⟩ := ends
  constructor
  · rw [ofLexemes_withoutComments]
    change List.map _ (openFrames text) = []
    rw [shut, List.map_nil]
  · obtain ⟨front, tokens⟩ := List.getLast?_eq_some_iff.mp last
    rw [nest_withoutComments, tokens, uncommented_append]
    exact ⟨uncommented front, .block position (.bracket .curly) (uncommented content),
      uncommented content, rfl, rfl⟩

theorem EndsWithBlock.pieces_eq {text : Text} (ends : EndsWithBlock text) :
    ∃ before, pieces text = before ++ [⟨['}'], .closer .curly⟩] := by
  obtain ⟨front, position, _, _, all, _, _⟩ := ends.closesBlock
  unfold lexemes at all
  rcases List.eq_nil_or_concat (pieces text) with none | ⟨before, last, cut⟩
  · rw [none] at all
    simp [placed] at all
  · rw [List.concat_eq_append] at cut
    rw [cut, placed_append] at all
    obtain ⟨_, lasts⟩ := List.append_inj' all rfl
    have closer : last.lexeme = .closer .curly := congrArg Prod.snd (List.cons.inj lasts).1
    have member : last ∈ pieces text := by
      rw [cut]
      exact List.mem_append_right before List.mem_cons_self
    obtain ⟨read, c, rest, _, rfl⟩ := isCut_of_mem text last member
    refine ⟨before, ?_⟩
    rw [cut]
    rcases Piece.first_cases c rest with plain | ⟨body, same⟩ | ⟨body, _, _, same⟩ |
      ⟨bracket, same⟩ | ⟨bracket, same⟩
    · rw [closer] at plain
      cases plain
    · rw [same] at closer
      cases closer
    · rw [same] at closer
      cases closer
    · rw [same] at closer
      cases closer
    · rw [same] at closer ⊢
      cases closer
      rfl

theorem EndsWithBlock.eq_append {text : Text} (ends : EndsWithBlock text) :
    ∃ front, text = front ++ ['}'] := by
  obtain ⟨before, cut⟩ := ends.pieces_eq
  refine ⟨before.flatMap Piece.source, ?_⟩
  rw [← flatMap_source_pieces text, cut, List.flatMap_append, List.flatMap_singleton]

/-- Behind a block the lexemes of a text are those that it has alone, at later places. -/
theorem EndsWithBlock.lexemes_append {front : Text} (ends : EndsWithBlock front) (back : Text) :
    lexemes (front ++ back) =
      lexemes front ++ placed (Position.start.after front) (pieces back) := by
  obtain ⟨before, cut⟩ := ends.pieces_eq
  unfold lexemes
  rw [pieces_append front back before .curly cut, placed_append, flatMap_source_pieces]

/-! ### Places -/

theorem forall₂_placed (text : Text) (related : Position × Lexeme → Position × Lexeme → Prop)
    (position other : Position)
    (each : ∀ read c rest, IsCut text read (c :: rest) →
      related (position.after read, (Piece.first c rest).lexeme)
        (other.after read, (Piece.first c rest).lexeme)) :
    List.Forall₂ related (placed position (pieces text)) (placed other (pieces text)) := by
  apply IsCut.backwards (fun read left => List.Forall₂ related
    (placed (position.after read) (pieces left)) (placed (other.after read) (pieces left))) ?_ ?_
    (IsCut.start text)
  · exact .nil
  · intro read c rest cut later
    rw [pieces_eq_first, placed, placed, ← Position.after_append, ← Position.after_append]
    exact .cons (each read c rest cut) later

def Behind (front back : Text) (_ : Kind) (position other : Position) : Prop :=
  ∃ read c rest, back = read ++ c :: rest ∧ position = Position.start.after read ∧
    other = Position.start.after (front ++ read)

theorem lexemes_behind (front back : Text) :
    List.Forall₂ (LexemeAlike (Behind front back)) (lexemes back)
      (placed (Position.start.after front) (pieces back)) := by
  apply forall₂_placed
  intro read c rest cut
  refine ⟨rfl, ?_⟩
  intro kind _
  exact ⟨read, c, rest, cut.text_eq, rfl, (Position.after_append _ front read).symm⟩

theorem EscapedRun.length_valueFrom_name (skip : Nat) (text : Text) :
    (EscapedRun.name.valueFrom skip text).length ≤ EscapedRun.name.widthFrom skip text := by
  induction text generalizing skip with
  | nil => cases skip <;> exact Nat.le_refl 0
  | cons c rest ih =>
      cases skip with
      | succ skip => exact Nat.le_succ_of_le (ih skip)
      | zero =>
          unfold EscapedRun.valueFrom EscapedRun.widthFrom
          by_cases escape : c = '\\'
          · rw [if_pos escape, if_pos escape]
            by_cases last : rest = []
            · subst last
              exact Nat.le_refl 1
            · rw [if_neg last]
              split
              · exact Nat.le_refl 0
              · exact Nat.succ_le_succ (ih _)
          · rw [if_neg escape, if_neg escape]
            split
            · exact Nat.succ_le_succ (ih 0)
            · exact Nat.le_refl 0

namespace Lexeme

theorem scanNumeric_ne_url (text : Text) (width : Nat) :
    Kind.url ∉ (scanNumeric text width).1.kinds := by
  unfold scanNumeric
  dsimp only
  split
  · simp [kinds, Kind.ofLeaf]
  · split <;> simp [kinds, Kind.ofLeaf]

theorem scanMark_ne_url (first : Char) (rest : Text) :
    Kind.url ∉ (scanMark first rest).1.kinds := by
  unfold scanMark scanAt scanHash scanString scanComment scanLiteral
  dsimp only
  repeat' split
  all_goals simp [kinds, Kind.ofLeaf, Kind.ofOpener]

theorem name_of_scanIdent_url (text : Text) (address : Kind.url ∈ (scanIdent text).1.kinds) :
    (EscapedRun.name.value text).lower = ['u', 'r', 'l'] := by
  revert address
  fun_cases scanIdent text with
  | case1 width name rest _ named => exact fun _ => named.1
  | case2 => simp [kinds, Kind.ofOpener]
  | case3 => simp [kinds, Kind.ofLeaf]

/-- An address begins with its name. -/
theorem name_of_scan_url (first : Char) (rest : Text)
    (address : Kind.url ∈ (scan first rest).1.kinds) :
    (EscapedRun.name.value (first :: rest)).lower = ['u', 'r', 'l'] := by
  revert address
  fun_cases scan first rest with
  | case4 text => exact name_of_scanIdent_url text
  | case5 => exact fun address => absurd address (scanNumeric_ne_url _ _)
  | case6 => exact fun address => absurd address (scanMark_ne_url _ _)
  | _ => simp [kinds, Kind.ofLeaf]

theorem length_of_scan_url (first : Char) (rest : Text)
    (address : Kind.url ∈ (scan first rest).1.kinds) : 3 ≤ (first :: rest).length := by
  have letters := congrArg List.length (name_of_scan_url first rest address)
  have shorter := EscapedRun.length_valueFrom_name 0 (first :: rest)
  have within := EscapedRun.width_le_length .name (first :: rest)
  simp only [Text.lower, List.length_map, EscapedRun.value, List.length_cons,
    List.length_nil] at letters
  unfold EscapedRun.width at within
  omega

end Lexeme

/-- A place of a text and the same place, with three characters behind it if an address stands
there. -/
def Within (text : Text) (kind : Kind) (position other : Position) : Prop :=
  other = position ∧ (kind = .url →
    ∃ read left, text = read ++ left ∧ position = Position.start.after read ∧ 3 ≤ left.length)

theorem lexemes_within (text : Text) :
    List.Forall₂ (LexemeAlike (Within text)) (lexemes text) (lexemes text) := by
  apply forall₂_placed
  intro read c rest cut
  refine ⟨rfl, ?_⟩
  intro kind member
  refine ⟨rfl, ?_⟩
  rintro rfl
  exact ⟨read, c :: rest, cut.text_eq, rfl, Lexeme.length_of_scan_url c rest member⟩

end SheetCensus.Css
