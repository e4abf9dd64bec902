import Mathlib.Data.List.Basic
import SheetCensus.Proofs.Css.Openness
import SheetCensus.Stylesheet.Ending

set_option autoImplicit false

/-! The check of the end of a text. It compares every beginning of the marks of the chain with
the end of the text, so it passes only chains whose blocks are all closed by the same character
(`fault?_eq_none_iff`). A complete text does end with the marks of its chain
(`marks_suffix_of_isComplete`); a truncated one may end with the same characters by accident
(`fault?_eq_none_iff_of_not_isComplete`). -/

namespace SheetCensus

open Css

def Cause.IsOpenEnd : Cause → Prop
  | .commentOpen => True
  | .blockOpen _ => True
  | _ => False

namespace Ending

def ofText (text : Text) : Ending :=
  ofTokens (nest (lexemes text))

/-- The marks that close the chain, the innermost first; a comment is written out. -/
def marks (ending : Ending) : Text :=
  (commentTail ending.comment).reverse ++ ending.blocks.map (fun block => block.2.closing)

/-- One kind of bracket closes every block of the chain, and no block is around a comment. -/
def IsUniform (ending : Ending) : Prop :=
  (ending.comment = none ∨ ending.blocks = []) ∧
    ∃ bracket, ∀ block ∈ ending.blocks, block.2 = bracket

/-! ### The chain of a state -/

theorem ofTokens_concat (tokens : List Token) (token : Token) :
    ofTokens (tokens ++ [token]) = ofToken token := by
  induction tokens with
  | nil => rfl
  | cons first others ih =>
      cases others with
      | nil => rfl
      | cons second more => exact ih

def ofRecent (recent : List Token) : Ending :=
  ofTokens recent.reverse

theorem ofRecent_cons (token : Token) (recent : List Token) :
    ofRecent (token :: recent) = ofToken token := by
  unfold ofRecent
  rw [List.reverse_cons, ofTokens_concat]

theorem ofTokens_finish (frames : List Frame) (recent : List Token) :
    ofTokens (Nest.finish frames recent) =
      ⟨(ofRecent recent).blocks ++
          frames.map (fun frame => (frame.position, frame.opener.closedBy)),
        (ofRecent recent).comment⟩ := by
  induction frames generalizing recent with
  | nil =>
      rw [List.map_nil, List.append_nil]
      rfl
  | cons frame outer ih =>
      rw [Nest.finish, ih, ofRecent_cons, List.map_cons]
      simp only [ofToken, inside, List.append_assoc, List.singleton_append]
      rfl

theorem ofText_eq (text : Text) :
    ofText text =
      ⟨(ofRecent (Nest.ofLexemes (lexemes text)).recent).blocks ++
          (openFrames text).map (fun frame => (frame.position, frame.opener.closedBy)),
        (ofRecent (Nest.ofLexemes (lexemes text)).recent).comment⟩ :=
  ofTokens_finish _ _

/-! ### What the check passes -/

private theorem closing_injective (left right : Bracket)
    (same : left.closing = right.closing) : left = right := by
  have found := Bracket.ofClosing?_closing left
  rw [same, Bracket.ofClosing?_closing right] at found
  exact (Option.some.inj found).symm

private theorem openBlock?_cons (label : Option Text) (reversed tail : Text) (position : Position)
    (bracket : Bracket) (outer : List (Position × Bracket)) :
    openBlock? label reversed tail ((position, bracket) :: outer) = none ↔
      bracket.closing :: tail <+: reversed ∧
        openBlock? label reversed (bracket.closing :: tail) outer = none := by
  rw [openBlock?, ← List.isPrefixOf_iff_prefix]
  by_cases fits : (bracket.closing :: tail).isPrefixOf reversed = true
  · rw [if_pos fits]
    exact ⟨fun passes => ⟨fits, passes⟩, And.right⟩
  · rw [if_neg fits]
    constructor
    · intro impossible
      cases impossible
    · rintro ⟨begins, _⟩
      exact absurd begins fits

private theorem heads_agree {first second : Char} {left right whole : Text}
    (begins : first :: left <+: whole) (starts : second :: right <+: whole) : first = second := by
  obtain ⟨_, rfl⟩ := begins
  obtain ⟨_, same⟩ := starts
  rw [List.cons_append, List.cons_append] at same
  exact (List.cons.inj same).1.symm

/-- After a closing mark only blocks with the same mark are passed. -/
private theorem openBlock?_replicate (label : Option Text) (reversed : Text) (bracket : Bracket)
    (count : Nat) (blocks : List (Position × Bracket))
    (ends : List.replicate (count + 1) bracket.closing <+: reversed) :
    openBlock? label reversed (List.replicate (count + 1) bracket.closing) blocks = none ↔
      (∀ block ∈ blocks, block.2 = bracket) ∧
        List.replicate (blocks.length + (count + 1)) bracket.closing <+: reversed := by
  induction blocks generalizing count with
  | nil =>
      rw [List.length_nil, Nat.zero_add]
      exact ⟨fun _ => ⟨fun _ absent => (List.not_mem_nil absent).elim, ends⟩, fun _ => rfl⟩
  | cons block outer ih =>
      obtain ⟨position, other⟩ := block
      have total : ((position, other) :: outer).length + (count + 1) =
          outer.length + (count + 1 + 1) := by
        rw [List.length_cons]
        omega
      rw [openBlock?_cons, total]
      constructor
      · rintro ⟨fits, passes⟩
        have same : other = bracket :=
          closing_injective other bracket (heads_agree fits ends)
        subst same
        obtain ⟨each, whole⟩ := (ih (count + 1) fits).mp passes
        exact ⟨List.forall_mem_cons.mpr ⟨rfl, each⟩, whole⟩
      · rintro ⟨each, whole⟩
        obtain ⟨same, others⟩ := List.forall_mem_cons.mp each
        change other = bracket at same
        subst same
        have fits : List.replicate (count + 1 + 1) other.closing <+: reversed := by
          rw [Nat.add_comm outer.length, ← List.replicate_append_replicate] at whole
          exact (List.prefix_append _ _).trans whole
        exact ⟨fits, (ih (count + 1) fits).mpr ⟨others, whole⟩⟩

/-- After the end of a comment no closing mark can be passed. -/
private theorem openBlock?_after_comment (label : Option Text) (reversed tail : Text)
    (blocks : List (Position × Bracket)) (ends : '/' :: tail <+: reversed) :
    openBlock? label reversed ('/' :: tail) blocks = none ↔ blocks = [] := by
  cases blocks with
  | nil => exact ⟨fun _ => rfl, fun _ => rfl⟩
  | cons block outer =>
      obtain ⟨position, bracket⟩ := block
      rw [openBlock?_cons]
      constructor
      · rintro ⟨fits, _⟩
        have bad : bracket.closing = '/' := heads_agree fits ends
        cases bracket <;> cases bad
      · intro impossible
        cases impossible

private theorem replicate_suffix_iff (count : Nat) (mark : Char) (text : Text) :
    List.replicate count mark <:+ text ↔ List.replicate count mark <+: text.reverse := by
  rw [← List.reverse_prefix, List.reverse_replicate]

private theorem fault?_of_blocks (blocks : List (Position × Bracket)) (text : Text)
    (label : Option Text) :
    fault? ⟨blocks, none⟩ text label = none ↔
      ∃ bracket, (∀ block ∈ blocks, block.2 = bracket) ∧
        List.replicate blocks.length bracket.closing <:+ text := by
  cases blocks with
  | nil => exact ⟨fun _ => ⟨.curly, by simp, List.nil_suffix⟩, fun _ => rfl⟩
  | cons block outer =>
      obtain ⟨position, first⟩ := block
      change openBlock? label text.reverse [] ((position, first) :: outer) = none ↔ _
      rw [openBlock?_cons]
      constructor
      · rintro ⟨fits, passes⟩
        obtain ⟨each, whole⟩ :=
          (openBlock?_replicate label text.reverse first 0 outer fits).mp passes
        exact ⟨first, List.forall_mem_cons.mpr ⟨rfl, each⟩,
          (replicate_suffix_iff _ _ _).mpr whole⟩
      · rintro ⟨bracket, each, whole⟩
        obtain ⟨same, others⟩ := List.forall_mem_cons.mp each
        change first = bracket at same
        subst same
        rw [replicate_suffix_iff] at whole
        have fits : [first.closing] <+: text.reverse :=
          (List.prefix_append [first.closing] (List.replicate outer.length first.closing)).trans
            whole
        exact ⟨fits,
          (openBlock?_replicate label text.reverse first 0 outer fits).mpr ⟨others, whole⟩⟩

private theorem marks_of_blocks (blocks : List (Position × Bracket)) (bracket : Bracket)
    (each : ∀ block ∈ blocks, block.2 = bracket) :
    marks ⟨blocks, none⟩ = List.replicate blocks.length bracket.closing := by
  change blocks.map _ = _
  rw [List.eq_replicate_iff, List.length_map]
  refine ⟨rfl, ?_⟩
  intro mark member
  obtain ⟨block, inBlocks, rfl⟩ := List.mem_map.mp member
  rw [each block inBlocks]

private theorem fault?_of_comment (blocks : List (Position × Bracket)) (placed : Position × Text)
    (text : Text) (label : Option Text) :
    fault? ⟨blocks, some placed⟩ text label = none ↔
      blocks = [] ∧ (commentTail (some placed)).reverse <:+ text := by
  have tail (ends : commentTail (some placed) <+: text.reverse) :
      openBlock? label text.reverse (commentTail (some placed)) blocks = none ↔ blocks = [] :=
    openBlock?_after_comment label text.reverse _ blocks ends
  rw [← List.reverse_prefix, List.reverse_reverse]
  change (if (commentTail (some placed)).isPrefixOf text.reverse then _ else _) = none ↔ _
  by_cases fits : (commentTail (some placed)).isPrefixOf text.reverse = true
  · rw [if_pos fits]
    have ends := List.isPrefixOf_iff_prefix.mp fits
    exact (tail ends).trans (and_iff_left ends).symm
  · rw [if_neg fits]
    constructor
    · intro impossible
      cases impossible
    · rintro ⟨_, ends⟩
      exact absurd (List.isPrefixOf_iff_prefix.mpr ends) fits

/-- The check passes exactly the uniform chains whose marks all stand at the end of the text. -/
theorem fault?_eq_none_iff (ending : Ending) (text : Text) (label : Option Text) :
    ending.fault? text label = none ↔ ending.IsUniform ∧ ending.marks <:+ text := by
  obtain ⟨blocks, comment⟩ := ending
  cases comment with
  | none =>
      rw [fault?_of_blocks]
      constructor
      · rintro ⟨bracket, each, whole⟩
        rw [← marks_of_blocks blocks bracket each] at whole
        exact ⟨⟨Or.inl rfl, bracket, each⟩, whole⟩
      · rintro ⟨⟨_, bracket, each⟩, whole⟩
        rw [marks_of_blocks blocks bracket each] at whole
        exact ⟨bracket, each, whole⟩
  | some placed =>
      have alone : marks ⟨[], some placed⟩ = (commentTail (some placed)).reverse :=
        List.append_nil _
      rw [fault?_of_comment]
      constructor
      · rintro ⟨rfl, whole⟩
        rw [alone]
        exact ⟨⟨Or.inr rfl, .curly, by simp⟩, whole⟩
      · rintro ⟨⟨absent | bare, _⟩, whole⟩
        · cases absent
        · change blocks = [] at bare
          subst bare
          rw [alone] at whole
          exact ⟨rfl, whole⟩

private theorem isOpenEnd_of_openBlock? (label : Option Text) (reversed tail : Text)
    (blocks : List (Position × Bracket)) (fault : Fault)
    (seen : openBlock? label reversed tail blocks = some fault) : fault.cause.IsOpenEnd := by
  induction blocks generalizing tail with
  | nil => cases seen
  | cons block outer ih =>
      rw [openBlock?] at seen
      split at seen
      · exact ih _ seen
      · cases seen
        trivial

/-- Whatever the check sees is something open. -/
theorem isOpenEnd_of_fault? (ending : Ending) (text : Text) (label : Option Text) (fault : Fault)
    (seen : ending.fault? text label = some fault) : fault.cause.IsOpenEnd := by
  unfold fault? at seen
  dsimp only at seen
  split at seen
  · split at seen
    · exact isOpenEnd_of_openBlock? label _ _ _ fault seen
    · cases seen
      trivial
  · exact isOpenEnd_of_openBlock? label _ _ _ fault seen

/-! ### Complete texts -/

private theorem ofToken_leaf (position : Position) (leaf : Leaf)
    (other : ∀ body, leaf ≠ .comment body) : ofToken (.leaf position leaf) = empty := by
  cases leaf with
  | comment body => exact absurd rfl (other body)
  | _ => rfl

theorem ofRecent_step_plain (nest : Nest) (position : Position) (lexeme : Lexeme)
    (plain : lexeme.IsPlain) : ofRecent (nest.step (position, lexeme)).recent = empty := by
  cases lexeme with
  | leaf leaf =>
      change ofRecent (.leaf position leaf :: nest.recent) = empty
      rw [ofRecent_cons]
      apply ofToken_leaf
      rintro body rfl
      cases plain
  | brokenOff leaf error => exact ofRecent_cons _ _
  | comment body closed => cases plain
  | opener opener => rfl
  | closer bracket => cases plain

/-- A closing mark that fits puts a block around the chain; any other one breaks it off. -/
private theorem ofRecent_shut (nest : Nest) (position : Position) (bracket : Bracket) :
    ofRecent (nest.shut position bracket).recent = empty ∨
      ∃ start, ofRecent (nest.shut position bracket).recent =
        (ofRecent nest.recent).inside start bracket := by
  unfold Nest.shut
  cases nest.frames with
  | nil => exact Or.inl (ofRecent_cons _ _)
  | cons frame outer =>
      dsimp only
      by_cases fits : frame.opener.closedBy = bracket
      · rw [if_pos fits]
        refine Or.inr ⟨frame.position, ?_⟩
        rw [ofRecent_cons, ← fits]
        rfl
      · rw [if_neg fits]
        exact Or.inl (ofRecent_cons _ _)

private theorem marks_inside (ending : Ending) (position : Position) (bracket : Bracket) :
    (ending.inside position bracket).marks = ending.marks ++ [bracket.closing] := by
  unfold marks inside
  rw [List.map_append, List.append_assoc]
  rfl

private theorem marks_of_comment (position : Position) (body : Text) :
    marks ⟨[], some (position, body)⟩ = '/' :: '*' :: body ++ ['*', '/'] := by
  simp only [marks, commentTail, List.reverse_append, List.reverse_reverse, List.map_nil,
    List.append_nil]
  rfl

/-- The text read so far ends with the marks of the chain, as long as no comment is open. -/
private theorem marks_suffix_step (read : Text) (c : Char) (rest : Text) (nest : Nest)
    (closed : ∀ body, (Piece.first c rest).lexeme ≠ .comment body false)
    (here : (ofRecent nest.recent).marks <:+ read) :
    (ofRecent (nest.step (Position.start.after read, (Piece.first c rest).lexeme)).recent).marks <:+
      read ++ (Piece.first c rest).source := by
  rcases Piece.first_cases c rest with plain | ⟨body, same⟩ | ⟨body, _, _, same⟩ |
    ⟨bracket, same⟩ | ⟨bracket, same⟩
  · rw [ofRecent_step_plain nest _ _ plain]
    exact List.nil_suffix
  · rw [same]
    change (ofRecent (.leaf _ (.comment body) :: nest.recent)).marks <:+ _
    rw [ofRecent_cons]
    change marks ⟨[], some (_, body)⟩ <:+ _
    rw [marks_of_comment]
    exact List.suffix_append _ _
  · exact absurd (congrArg Piece.lexeme same) (closed body)
  · rw [same]
    exact List.nil_suffix
  · rw [same]
    rcases ofRecent_shut nest (Position.start.after read) bracket with broken | ⟨start, around⟩
    · change (ofRecent (nest.shut _ bracket).recent).marks <:+ _
      rw [broken]
      exact List.nil_suffix
    · change (ofRecent (nest.shut _ bracket).recent).marks <:+ read ++ [bracket.closing]
      rw [around, marks_inside]
      obtain ⟨front, whole⟩ := here
      exact ⟨front, by rw [← List.append_assoc, whole]⟩

/-- A complete text ends with the marks of its chain. -/
theorem marks_suffix_of_isComplete (text : Text) (complete : IsComplete text) :
    (ofText text).marks <:+ text := by
  have ends : (ofRecent (Nest.ofLexemes (lexemes text)).recent).marks <:+ text := by
    apply Nest.ofLexemes_induction text (fun read nest => (ofRecent nest.recent).marks <:+ read)
    · exact List.nil_suffix
    · intro read c rest nest cut here
      apply marks_suffix_step read c rest nest _ here
      intro body opened
      exact complete.2 ⟨_, cut.first_mem, body, opened⟩
  rw [ofText_eq, complete.1, List.map_nil, List.append_nil]
  exact ends

/-- On a complete text the check passes exactly the uniform chains. -/
theorem fault?_eq_none_iff_of_isComplete (text : Text) (label : Option Text)
    (complete : IsComplete text) :
    (ofText text).fault? text label = none ↔ (ofText text).IsUniform := by
  rw [fault?_eq_none_iff]
  exact and_iff_left (marks_suffix_of_isComplete text complete)

/-! ### Truncated texts -/

theorem commentEnd?_append_ne_none (left right : Text) :
    Lexeme.commentEnd? (left ++ '*' :: '/' :: right) ≠ none := by
  induction left with
  | nil => exact Option.some_ne_none 0
  | cons c rest ih =>
      rw [List.cons_append, Lexeme.commentEnd?]
      split
      · exact Option.some_ne_none 0
      · intro missing
        exact ih (Option.map_eq_none_iff.mp missing)

/-- The comment that is open can only be a single slash if its end is to be mistaken for one. -/
private theorem body_of_append_eq (body : Text) (endless : Lexeme.commentEnd? body = none)
    (same : body ++ ['*', '/'] = '/' :: '*' :: body) : body = ['/'] := by
  cases body with
  | nil => cases same
  | cons first rest =>
      obtain ⟨rfl, second⟩ := List.cons.inj same
      cases rest with
      | nil => rfl
      | cons star others =>
          obtain ⟨rfl, third⟩ := List.cons.inj second
          cases others with
          | nil => cases third
          | cons slash more =>
              obtain ⟨rfl, _⟩ := List.cons.inj third
              exact absurd endless (commentEnd?_append_ne_none ['/'] more)

private theorem comment_marks_suffix_iff (read body : Text)
    (endless : Lexeme.commentEnd? body = none) :
    '/' :: '*' :: body ++ ['*', '/'] <:+ read ++ '/' :: '*' :: body ↔
      ['/', '*', '/', '*', '/'] <:+ read ++ '/' :: '*' :: body := by
  have opened : '/' :: '*' :: body <:+ read ++ '/' :: '*' :: body := List.suffix_append _ _
  constructor
  · intro whole
    have inner := List.suffix_of_suffix_length_le opened whole (by simp)
    have turned := List.suffix_iff_eq_drop.mp inner
    have alone : body = ['/'] := by
      apply body_of_append_eq body endless
      simpa using turned.symm
    subst alone
    exact whole
  · intro whole
    have marked : ['*', '/'] <:+ read ++ '/' :: '*' :: body :=
      List.IsSuffix.trans (by decide) whole
    match body with
    | [] =>
        have bare := List.suffix_of_suffix_length_le opened marked (Nat.le_refl 2)
        exact absurd bare (by decide)
    | [last] =>
        have inner := List.suffix_iff_eq_drop.mp
          (List.suffix_of_suffix_length_le opened whole (by simp))
        obtain rfl : last = '/' := by simpa using inner
        exact whole
    | first :: second :: more =>
        have inBody : ['*', '/'] <:+ first :: second :: more :=
          List.suffix_of_suffix_length_le marked
            ((List.suffix_append ['/', '*'] _).trans opened) (by simp)
        obtain ⟨front, ends⟩ := inBody
        rw [← ends] at endless
        exact absurd endless (commentEnd?_append_ne_none front [])

/-- A text ends with the marks that close its chain, although not all of them were read as such:
a comment at the top begins within the end of another one that nothing opened, or as many closing
brackets as there are blocks on the chain, all of one kind, stand at the end. -/
def LooksComplete (text : Text) : Prop :=
  (EndsInComment text ∧ openFrames text = [] ∧ ['/', '*', '/', '*', '/'] <:+ text) ∨
    (¬ EndsInComment text ∧ (ofText text).comment = none ∧
      ∃ bracket, (∀ block ∈ (ofText text).blocks, block.2 = bracket) ∧
        List.replicate (ofText text).blocks.length bracket.closing <:+ text)

private theorem fault?_of_endsInComment (text : Text) (label : Option Text)
    (ends : EndsInComment text) :
    (ofText text).fault? text label = none ↔
      openFrames text = [] ∧ ['/', '*', '/', '*', '/'] <:+ text := by
  obtain ⟨read, body, whole, endless, position, recent, state⟩ := ends.exists_body
  have chain : ofText text =
      ⟨(openFrames text).map (fun frame => (frame.position, frame.opener.closedBy)),
        some (position, body)⟩ := by
    rw [ofText_eq, state, ofRecent_cons]
    rfl
  have marked : '/' :: '*' :: body ++ ['*', '/'] <:+ text ↔ ['/', '*', '/', '*', '/'] <:+ text := by
    rw [whole]
    exact comment_marks_suffix_iff read body endless
  rw [fault?_eq_none_iff, chain]
  constructor
  · rintro ⟨⟨absent | alone, _⟩, closes⟩
    · cases absent
    · have closed := List.map_eq_nil_iff.mp alone
      rw [closed, List.map_nil, marks_of_comment] at closes
      exact ⟨closed, marked.mp closes⟩
  · rintro ⟨closed, closes⟩
    rw [closed, List.map_nil, marks_of_comment]
    exact ⟨⟨Or.inr rfl, .curly, by simp⟩, marked.mpr closes⟩

/-- On a truncated text the check passes exactly what looks complete. -/
theorem fault?_eq_none_iff_of_not_isComplete (text : Text) (label : Option Text)
    (truncated : ¬ IsComplete text) :
    (ofText text).fault? text label = none ↔ LooksComplete text := by
  by_cases ends : EndsInComment text
  · rw [fault?_of_endsInComment text label ends]
    constructor
    · intro closes
      exact Or.inl ⟨ends, closes⟩
    · rintro (⟨_, closes⟩ | ⟨outside, _⟩)
      · exact closes
      · exact absurd ends outside
  · have opened : (ofText text).blocks ≠ [] := by
      intro none
      rw [ofText_eq] at none
      exact truncated ⟨List.map_eq_nil_iff.mp (List.append_eq_nil_iff.mp none).2, ends⟩
    cases last : (ofText text).comment with
    | none =>
        have chain : ofText text = ⟨(ofText text).blocks, none⟩ := by rw [← last]
        rw [chain, fault?_of_blocks]
        constructor
        · intro closes
          exact Or.inr ⟨ends, last, closes⟩
        · rintro (⟨inside, _⟩ | ⟨_, _, closes⟩)
          · exact absurd inside ends
          · exact closes
    | some placed =>
        rw [fault?_eq_none_iff]
        constructor
        · rintro ⟨⟨absent | alone, _⟩, _⟩
          · rw [last] at absent
            cases absent
          · exact absurd alone opened
        · rintro (⟨inside, _⟩ | ⟨_, absent, _⟩)
          · exact absurd inside ends
          · rw [last] at absent
            cases absent

end Ending

end SheetCensus
