import Mathlib.Data.List.TakeWhile
import SheetCensus.Css.Construct
import SheetCensus.Proofs.Css.Openness

set_option autoImplicit false

/-! Text in which nothing stands. It is made of spaces, comments and the marks of an enclosing
document, and it is known by its lexemes: they are all of a kind that is passed over between
constructs (`pieces_of_isVoid`, `isVoid_or_endsInComment`), so that nesting leaves no token for a
construct to begin with (`constructs_nest_eq_nil_iff`). -/

namespace SheetCensus.Css

/-- A part of a text that holds nothing: one white space character, a comment that ends at the first
mark for it, or a mark of an enclosing document. -/
inductive IsFiller : Text → Prop
  | space (c : Char) (blank : c = ' ' ∨ c = '\t' ∨ c = '\n') : IsFiller [c]
  | comment (body : Text) (inside : ¬ ['*', '/'] <:+: body) :
      IsFiller ('/' :: '*' :: body ++ ['*', '/'])
  | opening : IsFiller ['<', '!', '-', '-']
  | closing : IsFiller ['-', '-', '>']

def IsVoid (text : Text) : Prop :=
  ∃ parts : List Text, (∀ part ∈ parts, IsFiller part) ∧ text = parts.flatten

namespace IsVoid

theorem nil : IsVoid [] :=
  ⟨[], by simp, rfl⟩

theorem cons {part rest : Text} (filler : IsFiller part) (void : IsVoid rest) :
    IsVoid (part ++ rest) := by
  obtain ⟨parts, all, rfl⟩ := void
  exact ⟨part :: parts, List.forall_mem_cons.mpr ⟨filler, all⟩, rfl⟩

theorem of_filler {part : Text} (filler : IsFiller part) : IsVoid part := by
  have alone := cons filler nil
  rwa [List.append_nil] at alone

theorem append {front back : Text} (void : IsVoid front) (voidToo : IsVoid back) :
    IsVoid (front ++ back) := by
  obtain ⟨parts, all, rfl⟩ := void
  obtain ⟨others, allToo, rfl⟩ := voidToo
  refine ⟨parts ++ others, ?_, List.flatten_append.symm⟩
  intro part member
  exact (List.mem_append.mp member).elim (all part) (allToo part)

theorem of_spaces (text : Text) (spaces : ∀ c ∈ text, isSpace c = true) : IsVoid text := by
  induction text with
  | nil => exact nil
  | cons c rest ih =>
      have blank : c = ' ' ∨ c = '\t' ∨ c = '\n' := by
        have space := spaces c List.mem_cons_self
        simp only [isSpace, Bool.or_eq_true, beq_iff_eq] at space
        rcases space with (here | here) | here
        · exact Or.inl here
        · exact Or.inr (Or.inr here)
        · exact Or.inr (Or.inl here)
      exact cons (.space c blank) (ih (fun d member => spaces d (List.mem_cons_of_mem c member)))

/-- A text with nothing in it does not end within the mark of a comment. -/
theorem getLast?_ne_star {text : Text} (void : IsVoid text) : text.getLast? ≠ some '*' := by
  obtain ⟨parts, all, rfl⟩ := void
  induction parts with
  | nil =>
      intro impossible
      cases impossible
  | cons part others ih =>
      obtain ⟨first, later⟩ := List.forall_mem_cons.mp all
      rw [List.flatten_cons, List.getLast?_append]
      cases last : others.flatten.getLast? with
      | some c =>
          rw [← last]
          simpa [last] using ih later
      | none =>
          rw [Option.none_or]
          cases first with
          | space c blank => rcases blank with rfl | rfl | rfl <;> decide
          | comment body _ => simp [List.getLast?_cons]
          | opening => decide
          | closing => decide

end IsVoid

/-! ### The end of a comment -/

theorem Lexeme.commentEnd?_of_append (body rest : Text) (inside : ¬ ['*', '/'] <:+: body) :
    commentEnd? (body ++ '*' :: '/' :: rest) = some body.length := by
  induction body with
  | nil => rfl
  | cons c others ih =>
      have further := ih (fun within => inside (within.trans (List.suffix_cons c others).isInfix))
      have goesOn : ¬ (c = '*' ∧ (others ++ '*' :: '/' :: rest).head? = some '/') := by
        rintro ⟨rfl, slash⟩
        cases others with
        | nil => cases slash
        | cons d more =>
            obtain rfl := Option.some.inj slash
            exact inside (List.prefix_append ['*', '/'] more).isInfix
      rw [List.cons_append, commentEnd?, if_neg goesOn, further]
      rfl

theorem Lexeme.not_infix_of_commentEnd? (text : Text) (length : Nat)
    (found : commentEnd? text = some length) :
    ¬ ['*', '/'] <:+: text.take length := by
  induction text generalizing length with
  | nil => cases found
  | cons c rest ih =>
      unfold commentEnd? at found
      by_cases ends : c = '*' ∧ rest.head? = some '/'
      · rw [if_pos ends] at found
        cases found
        simp
      · rw [if_neg ends] at found
        obtain ⟨shorter, inRest, rfl⟩ := Option.map_eq_some_iff.mp found
        rw [List.take_succ_cons, List.infix_cons_iff, not_or]
        refine ⟨?_, ih shorter inRest⟩
        intro begins
        obtain ⟨rfl, second⟩ := List.cons_prefix_cons.mp begins
        refine ends ⟨rfl, ?_⟩
        have inside := second.trans (List.take_prefix shorter rest)
        cases rest with
        | nil => simp at inside
        | cons d more =>
            obtain ⟨rfl, _⟩ := List.cons_prefix_cons.mp inside
            rfl

/-! ### Lexemes that hold nothing -/

def Lexeme.IsFiller : Lexeme → Prop
  | .leaf found => Construct.isBetween (.leaf .start found) = true
  | .comment _ _ => True
  | _ => False

namespace Lexeme

private theorem scanUrl_not_isFiller (text : Text) : ¬ (scanUrl text).1.IsFiller := by
  unfold scanUrl
  dsimp only
  split
  · exact id
  · split
    · exact Bool.false_ne_true
    · split <;> exact Bool.false_ne_true

private theorem scanIdent_not_isFiller (text : Text) : ¬ (scanIdent text).1.IsFiller := by
  unfold scanIdent
  dsimp only
  split
  · split
    · exact scanUrl_not_isFiller _
    · exact id
  · exact Bool.false_ne_true

private theorem scanNumeric_not_isFiller (text : Text) (width : Nat) :
    ¬ (scanNumeric text width).1.IsFiller := by
  unfold scanNumeric
  dsimp only
  split
  · exact Bool.false_ne_true
  · split <;> exact Bool.false_ne_true

private theorem scanString_not_isFiller (quote : Char) (text : Text) :
    ¬ (scanString quote text).1.IsFiller := by
  unfold scanString
  dsimp only
  split
  · exact id
  · split <;> exact Bool.false_ne_true

private theorem scanAt_not_isFiller (text : Text) : ¬ (scanAt text).1.IsFiller := by
  unfold scanAt
  split
  · exact Bool.false_ne_true
  · exact Bool.false_ne_true

private theorem scanHash_not_isFiller (text : Text) : ¬ (scanHash text).1.IsFiller := by
  unfold scanHash
  split
  · exact Bool.false_ne_true
  · exact Bool.false_ne_true

inductive Starts : Text → Prop
  | space (c : Char) (rest : Text) (blank : isSpace c = true) : Starts (c :: rest)
  | comment (rest : Text) : Starts ('/' :: '*' :: rest)
  | opening (rest : Text) : Starts ('<' :: '!' :: '-' :: '-' :: rest)
  | closing (rest : Text) : Starts ('-' :: '-' :: '>' :: rest)

private theorem scanLiteral_starts (first : Char) (rest : Text)
    (filler : (scanLiteral first rest).1.IsFiller) : Starts (first :: rest) := by
  revert filler
  fun_cases scanLiteral first rest with
  | case1 opens =>
      obtain ⟨rfl, mark⟩ := opens
      rw [← List.take_append_drop 3 rest, mark]
      exact fun _ => .opening _
  | _ => simp [IsFiller, Construct.isBetween, Token.isInsignificant, Token.isLiteral]

private theorem scanMark_starts (first : Char) (rest : Text)
    (filler : (scanMark first rest).1.IsFiller) : Starts (first :: rest) := by
  revert filler
  fun_cases scanMark first rest with
  | case1 => exact fun filler => absurd filler (scanAt_not_isFiller _)
  | case2 => exact fun filler => absurd filler (scanHash_not_isFiller _)
  | case3 => exact fun filler => absurd filler (scanString_not_isFiller _ _)
  | case4 _ _ _ begins =>
      obtain ⟨rfl, star⟩ := begins
      obtain ⟨body, rfl⟩ := List.head?_eq_some_iff.mp star
      exact fun _ => .comment body
  | case5 => exact fun filler => absurd filler id
  | case6 => exact fun filler => absurd filler id
  | case7 => exact scanLiteral_starts _ _

theorem starts_of_isFiller (first : Char) (rest : Text)
    (filler : (scan first rest).1.IsFiller) : Starts (first :: rest) := by
  revert filler
  fun_cases scan first rest with
  | case1 text blank => exact fun _ => .space first rest blank
  | case2 => exact fun filler => absurd filler Bool.false_ne_true
  | case3 text _ _ mark =>
      rw [← List.take_append_drop 3 (first :: rest), mark]
      exact fun _ => .closing _
  | case4 => exact fun filler => absurd filler (scanIdent_not_isFiller _)
  | case5 => exact fun filler => absurd filler (scanNumeric_not_isFiller _ _)
  | case6 => exact scanMark_starts _ _

theorem scan_space (c : Char) (rest : Text) (blank : isSpace c = true) :
    scan c rest = (.leaf (.whitespace ((c :: rest).takeWhile isSpace)),
      ((c :: rest).takeWhile isSpace).length) := by
  unfold scan
  rw [if_pos blank]

theorem scan_comment (rest : Text) : scan '/' ('*' :: rest) = scanComment rest :=
  rfl

end Lexeme

/-! ### Pieces that hold nothing -/

theorem IsVoid.dropWhile {text : Text} (void : IsVoid text) : IsVoid (text.dropWhile isSpace) := by
  obtain ⟨parts, all, rfl⟩ := void
  induction parts with
  | nil => exact nil
  | cons part others ih =>
      obtain ⟨filler, later⟩ := List.forall_mem_cons.mp all
      have whole : IsVoid (part ++ others.flatten) := cons filler ⟨others, later, rfl⟩
      rw [List.flatten_cons]
      cases filler with
      | space c blank =>
          have space : isSpace c = true := by rcases blank with rfl | rfl | rfl <;> rfl
          rw [List.singleton_append, List.dropWhile_cons_of_pos space]
          exact ih later
      | comment body inside => exact whole
      | opening => exact whole
      | closing => exact whole

namespace Piece

theorem source_first_space (c : Char) (rest : Text) (blank : isSpace c = true) :
    (first c rest).source = (c :: rest).takeWhile isSpace ∧
      after c rest = (c :: rest).dropWhile isSpace := by
  have taken : (first c rest).source = (c :: rest).takeWhile isSpace := by
    unfold first
    rw [Lexeme.scan_space c rest blank, List.takeWhile_cons_of_pos blank]
    exact congrArg (c :: ·) (List.prefix_iff_eq_take.mp (List.takeWhile_prefix isSpace)).symm
  have whole := source_first_append_after c rest
  have parted : (c :: rest).takeWhile isSpace ++ (c :: rest).dropWhile isSpace = c :: rest :=
    List.takeWhile_append_dropWhile
  rw [taken] at whole
  exact ⟨taken, List.append_cancel_left (whole.trans parted.symm)⟩

theorem first_comment (body rest : Text) (inside : ¬ ['*', '/'] <:+: body) :
    (first '/' ('*' :: (body ++ '*' :: '/' :: rest))).lexeme = .comment body true ∧
      after '/' ('*' :: (body ++ '*' :: '/' :: rest)) = rest := by
  have found : Lexeme.scan '/' ('*' :: (body ++ '*' :: '/' :: rest)) =
      (.comment body true, body.length + 4) := by
    rw [Lexeme.scan_comment, Lexeme.scanComment, Lexeme.commentEnd?_of_append body rest inside]
    simp
  unfold first after
  rw [found]
  refine ⟨rfl, ?_⟩
  change (body ++ '*' :: '/' :: rest).drop (body.length + 2) = rest
  rw [List.drop_append]
  simp

theorem isVoid_of_isFiller (c : Char) (rest : Text)
    (filler : (first c rest).lexeme.IsFiller) :
    IsVoid (first c rest).source ∨
      ∃ body, c :: rest = '/' :: '*' :: body ∧ Lexeme.commentEnd? body = none ∧
        (first c rest).lexeme = .comment body false := by
  have starts := Lexeme.starts_of_isFiller c rest filler
  cases starts with
  | space _ _ blank =>
      left
      rw [(source_first_space c rest blank).1]
      exact IsVoid.of_spaces _ (fun d member => List.mem_takeWhile_imp member)
  | opening tail => exact Or.inl (IsVoid.of_filler .opening)
  | closing tail => exact Or.inl (IsVoid.of_filler .closing)
  | comment body =>
      have scanned : (first '/' ('*' :: body)).lexeme = (Lexeme.scanComment body).1 := rfl
      unfold Lexeme.scanComment at scanned
      cases ends : Lexeme.commentEnd? body with
      | none =>
          rw [ends] at scanned
          exact Or.inr ⟨body, rfl, ends, scanned⟩
      | some length =>
          rw [ends] at scanned
          left
          rcases first_cases '/' ('*' :: body) with plain | ⟨inner, same⟩ | ⟨inner, _, _, same⟩ |
            ⟨bracket, same⟩ | ⟨bracket, same⟩
          · rw [scanned] at plain
            cases plain
          · rw [same] at scanned ⊢
            obtain ⟨rfl, _⟩ := Lexeme.comment.inj scanned
            exact IsVoid.of_filler (.comment _ (Lexeme.not_infix_of_commentEnd? body length ends))
          · rw [same] at scanned
            cases scanned
          · rw [same] at scanned
            cases scanned
          · rw [same] at scanned
            cases scanned

end Piece

/-- A text whose lexemes hold nothing is void, or it is so up to a comment without end. -/
theorem isVoid_or_endsInComment (text : Text)
    (fillers : ∀ piece ∈ pieces text, piece.lexeme.IsFiller) :
    IsVoid text ∨ (EndsInComment text ∧
      ∃ read body, IsVoid read ∧ text = read ++ '/' :: '*' :: body ∧
        Lexeme.commentEnd? body = none) := by
  revert fillers
  apply IsCut.backwards (fun _ left => (∀ piece ∈ pieces left, piece.lexeme.IsFiller) →
    IsVoid left ∨ (EndsInComment left ∧
      ∃ read body, IsVoid read ∧ left = read ++ '/' :: '*' :: body ∧
        Lexeme.commentEnd? body = none)) ?_ ?_ (IsCut.start text)
  · intro _
    exact Or.inl IsVoid.nil
  · intro _ c rest _ later fillers
    rw [pieces_eq_first] at fillers
    obtain ⟨here, behind⟩ := List.forall_mem_cons.mp fillers
    have whole := Piece.source_first_append_after c rest
    rcases Piece.isVoid_of_isFiller c rest here with void | ⟨body, starts, endless, opened⟩
    · rcases later behind with void' | ⟨⟨piece, member, comment⟩, read, body, void', cut, endless⟩
      · rw [← whole]
        exact Or.inl (void.append void')
      · refine Or.inr ⟨⟨piece, ?_, comment⟩, _, body, void.append void', ?_, endless⟩
        · rw [pieces_eq_first]
          exact List.mem_cons_of_mem _ member
        · rw [List.append_assoc, ← cut, whole]
    · refine Or.inr ⟨⟨_, ?_, body, opened⟩, [], body, IsVoid.nil, starts, endless⟩
      rw [pieces_eq_first]
      exact List.mem_cons_self

/-- The lexemes of a void text hold nothing, and every comment among them has its end. -/
theorem pieces_of_isVoid {text : Text} (void : IsVoid text) :
    ∀ piece ∈ pieces text,
      piece.lexeme.IsFiller ∧ ∀ body, piece.lexeme ≠ .comment body false := by
  revert void
  apply IsCut.backwards (fun _ left => IsVoid left → ∀ piece ∈ pieces left,
    piece.lexeme.IsFiller ∧ ∀ body, piece.lexeme ≠ .comment body false) ?_ ?_ (IsCut.start text)
  · intro _ piece impossible
    cases impossible
  · intro _ c rest _ later void
    have stripped := void.dropWhile
    rw [pieces_eq_first, List.forall_mem_cons]
    obtain ⟨parts, all, whole⟩ := void
    cases parts with
    | nil => cases whole
    | cons part others =>
        obtain ⟨filler, others_filler⟩ := List.forall_mem_cons.mp all
        have voidToo : IsVoid others.flatten := ⟨others, others_filler, rfl⟩
        rw [List.flatten_cons] at whole
        cases filler with
        | space d blank =>
            have space : isSpace c = true := by
              rw [(List.cons.inj whole).1]
              rcases blank with rfl | rfl | rfl <;> rfl
            rw [← (Piece.source_first_space c rest space).2] at stripped
            refine ⟨?_, later stripped⟩
            unfold Piece.first
            rw [Lexeme.scan_space c rest space]
            exact ⟨rfl, by simp⟩
        | comment body inside =>
            have joined : '/' :: '*' :: body ++ ['*', '/'] ++ others.flatten =
                '/' :: '*' :: (body ++ '*' :: '/' :: others.flatten) := by simp
            rw [joined] at whole
            obtain ⟨rfl, rfl⟩ := List.cons.inj whole
            obtain ⟨here, behind⟩ := Piece.first_comment body others.flatten inside
            rw [behind] at later ⊢
            rw [here]
            exact ⟨⟨trivial, by simp⟩, later voidToo⟩
        | opening =>
            obtain ⟨rfl, rfl⟩ := List.cons.inj whole
            exact ⟨⟨rfl, by intro body impossible; cases impossible⟩, later voidToo⟩
        | closing =>
            obtain ⟨rfl, rfl⟩ := List.cons.inj whole
            exact ⟨⟨rfl, by intro body impossible; cases impossible⟩, later voidToo⟩

/-! ### Nesting and constructs -/

theorem Construct.listAfter_some_ne_nil (begun : Beginning × List Token) (tokens : List Token) :
    listAfter (some begun) tokens ≠ [] := by
  induction tokens generalizing begun with
  | nil => exact List.cons_ne_nil _ _
  | cons token rest ih =>
      unfold listAfter
      split
      · exact List.cons_ne_nil _ _
      · split
        · exact List.cons_ne_nil _ _
        · exact ih _

theorem Construct.isBetween_of_curlyContent? (token : Token) (body : List Token)
    (curly : token.curlyContent? = some body) : isBetween token = false := by
  cases token with
  | leaf position leaf => cases curly
  | block position opener content => rfl

theorem constructs_eq_nil_iff (tokens : List Token) :
    constructs tokens = [] ↔ ∀ token ∈ tokens, Construct.isBetween token = true := by
  unfold constructs
  induction tokens with
  | nil => exact ⟨fun _ _ impossible => absurd impossible List.not_mem_nil, fun _ => rfl⟩
  | cons token rest ih =>
      rw [List.forall_mem_cons, Construct.listAfter]
      cases curly : token.curlyContent? with
      | some body =>
          rw [Construct.isBetween_of_curlyContent? token body curly]
          simp
      | none =>
          dsimp only
          by_cases between : Construct.isBetween token = true
          · rw [if_pos between, ih]
            exact (and_iff_right between).symm
          · rw [if_neg between]
            constructor
            · intro impossible
              exact absurd impossible (Construct.listAfter_some_ne_nil _ rest)
            · intro all
              exact absurd all.1 between

namespace Nest

def IsFilled (nest : Nest) : Prop :=
  nest.frames ≠ [] ∨ ∃ token ∈ nest.recent, Construct.isBetween token = false

theorem isFilled_push (nest : Nest) (token : Token) :
    (nest.push token).IsFilled ↔ nest.IsFilled ∨ Construct.isBetween token = false := by
  unfold IsFilled push
  rw [or_assoc]
  refine or_congr_right ?_
  simp only [List.mem_cons, or_and_right, exists_or, exists_eq_left]
  exact or_comm

theorem isFilled_shut (nest : Nest) (position : Position) (bracket : Bracket) :
    (nest.shut position bracket).IsFilled := by
  have unmatched : (nest.push (.leaf position (.error (.unmatched bracket)))).IsFilled :=
    (isFilled_push _ _).mpr (Or.inr rfl)
  unfold shut
  split
  · exact unmatched
  · split
    · exact Or.inr ⟨_, List.mem_cons_self, rfl⟩
    · exact unmatched

/-- A lexeme that holds something leaves something behind, and no other one does. -/
theorem isFilled_step (nest : Nest) (placed : Position × Lexeme) :
    (nest.step placed).IsFilled ↔ nest.IsFilled ∨ ¬ placed.2.IsFiller := by
  obtain ⟨position, lexeme⟩ := placed
  cases lexeme with
  | leaf leaf =>
      have anywhere : Construct.isBetween (.leaf position leaf) =
          Construct.isBetween (.leaf .start leaf) := by
        cases leaf <;> rfl
      change (nest.push (.leaf position leaf)).IsFilled ↔
        nest.IsFilled ∨ ¬ Construct.isBetween (.leaf .start leaf) = true
      rw [isFilled_push, anywhere, Bool.not_eq_true]
  | brokenOff leaf error =>
      refine ⟨fun _ => Or.inr id, fun _ => ?_⟩
      exact (isFilled_push _ _).mpr (Or.inr rfl)
  | comment body closed =>
      change (nest.push (.leaf position (.comment body))).IsFilled ↔ nest.IsFilled ∨ ¬ True
      rw [isFilled_push]
      exact or_congr_right (iff_of_false Bool.noConfusion (not_not_intro trivial))
  | opener opener => exact ⟨fun _ => Or.inr id, fun _ => Or.inl (List.cons_ne_nil _ _)⟩
  | closer bracket => exact ⟨fun _ => Or.inr id, fun _ => isFilled_shut nest position bracket⟩

theorem isFilled_foldl_step (lexemes : List (Position × Lexeme)) (nest : Nest) :
    (lexemes.foldl step nest).IsFilled ↔
      nest.IsFilled ∨ ∃ placed ∈ lexemes, ¬ placed.2.IsFiller := by
  induction lexemes generalizing nest with
  | nil => simp
  | cons first rest ih =>
      rw [List.foldl_cons, ih, isFilled_step, or_assoc]
      simp only [List.mem_cons, or_and_right, exists_or, exists_eq_left]

theorem exists_mem_tokens_iff (frames : List Frame) (recent : List Token) :
    (∃ token ∈ finish frames recent, Construct.isBetween token = false) ↔
      IsFilled ⟨frames, recent⟩ := by
  induction frames generalizing recent with
  | nil =>
      unfold IsFilled
      simp [finish]
  | cons frame outer ih =>
      rw [finish, ih]
      exact ⟨fun _ => Or.inl (List.cons_ne_nil _ _),
        fun _ => Or.inr ⟨_, List.mem_cons_self, rfl⟩⟩

end Nest

/-- A text comes to no construct exactly when none of its lexemes holds anything. -/
theorem constructs_nest_eq_nil_iff (lexemes : List (Position × Lexeme)) :
    constructs (nest lexemes) = [] ↔ ∀ placed ∈ lexemes, placed.2.IsFiller := by
  have left := Nest.exists_mem_tokens_iff (Nest.ofLexemes lexemes).frames
    (Nest.ofLexemes lexemes).recent
  have found := Nest.isFilled_foldl_step lexemes Nest.empty
  have bare : ¬ Nest.empty.IsFilled := by
    rintro (opened | ⟨token, impossible, _⟩)
    · exact opened rfl
    · cases impossible
  rw [constructs_eq_nil_iff, ← not_iff_not]
  simp only [not_forall, Bool.not_eq_true, exists_prop]
  exact left.trans (found.trans (or_iff_right bare))

end SheetCensus.Css
