import SheetCensus.Proofs.Css.CommentBody
import SheetCensus.Proofs.Stylesheet.Opacity

set_option autoImplicit false

/-! What stands inside a comment. It is in no rule, and the chain of last tokens has the same blocks
around it (`Ending.ofText_sameShape`). The check of the end does compare the comment at the end of
the chain with the text, but what it finds depends on the text behind the comment that differs, or
on that comment being closed (`FindsComment.commentTail_isPrefixOf_eq`). So two texts that differ
only in what a comment holds have the same answer, up to the place of a fault
(`Stylesheet.read_commented`). -/

namespace SheetCensus

open Css

/-! ### Integers and rules -/

namespace Reading

theorem oversized?_of_sameRole {lexeme other : Lexeme} (role : lexeme.SameRole other) :
    oversized? other = oversized? lexeme := by
  have none {comment : Lexeme} (found : comment.isComment = true) : oversized? comment = none := by
    cases comment with
    | comment body closed => rfl
    | _ => cases found
  rcases role with rfl | ⟨first, second⟩
  · rfl
  · rw [none first, none second]

theorem addressesAgree_beside (front left right back : Text) :
    AddressesAgree (Beside front left right back)
      (Source.ofNormalized (commented front left back))
      (Source.ofNormalized (commented front right back)) := by
  rintro position place (⟨rfl, spelled⟩ | ⟨read, c, rest, rfl, rfl, rfl⟩)
  · obtain ⟨read, ahead, cut, rfl, long⟩ := spelled rfl
    have parted (body : Text) : commented front body back =
        read ++ (ahead ++ '*' :: (body ++ '*' :: '/' :: back)) := by
      rw [← List.append_assoc, ← cut, List.append_assoc]
      rfl
    rw [parted left, parted right, Source.slice_after, Source.slice_after,
      List.take_append_of_le_length long, List.take_append_of_le_length long]
  · have parted (body : Text) : commented front body (read ++ c :: rest) =
        uptoComment front body ++ read ++ c :: rest := by
      simp [commented, uptoComment]
    rw [parted left, parted right, Source.slice_after, Source.slice_after]

section

variable {front left right back : Text}
  (finds : FindsComment (commented front left back) front)
  (inside : ¬ ['*', '/'] <:+: left) (insideToo : ¬ ['*', '/'] <:+: right)

include finds inside insideToo

theorem oversizedIn?_commented :
    oversizedIn? (commented front right back) = oversizedIn? (commented front left back) :=
  findSome?_oversized?_eq ((finds.lexemes_sameRole inside insideToo).imp
    (fun _ _ role => oversized?_of_sameRole role))

theorem rulesIn_commented (label : Option Text) :
    AnswerAlike (Beside front left right back) (rulesIn (commented front left back) label)
      (rulesIn (commented front right back) label) :=
  rules_alike label (addressesAgree_beside front left right back)
    (constructs_alike (nest_alike (finds.withoutComments_beside inside insideToo)))

end

end Reading

/-! ### The chain of last tokens -/

namespace Ending

/-- Chains with the same brackets in the same order, that both end in a comment or both do not. -/
structure SameShape (ending other : Ending) : Prop where
  blocks : List.Forall₂ (fun block twin => twin.2 = block.2) ending.blocks other.blocks
  comment : other.comment.isSome = ending.comment.isSome

namespace SameShape

theorem empty : SameShape empty empty :=
  ⟨.nil, rfl⟩

theorem inside {ending other : Ending} (same : ending.SameShape other) (position place : Position)
    (bracket : Bracket) : (ending.inside position bracket).SameShape (other.inside place bracket) :=
  ⟨List.rel_append same.blocks (.cons rfl .nil), same.comment⟩

theorem ofToken_leaf (position place : Position) (leaf : Leaf) :
    (ofToken (.leaf position leaf)).SameShape (ofToken (.leaf place leaf)) := by
  cases leaf with
  | comment body => exact ⟨.nil, rfl⟩
  | _ => exact empty

end SameShape

structure NestsAlike (nest other : Nest) : Prop where
  frames : List.Forall₂ (fun frame twin => twin.opener = frame.opener) nest.frames other.frames
  recent : (ofRecent nest.recent).SameShape (ofRecent other.recent)

namespace NestsAlike

variable {nest other : Nest} (alike : NestsAlike nest other)

include alike

theorem push {token twin : Token} (same : (ofToken token).SameShape (ofToken twin)) :
    NestsAlike (nest.push token) (other.push twin) := by
  refine ⟨alike.frames, ?_⟩
  change (ofRecent (token :: nest.recent)).SameShape (ofRecent (twin :: other.recent))
  rw [ofRecent_cons, ofRecent_cons]
  exact same

theorem shut (position place : Position) (bracket : Bracket) :
    NestsAlike (nest.shut position bracket) (other.shut place bracket) := by
  have unmatched := alike.push
    (SameShape.ofToken_leaf position place (.error (.unmatched bracket)))
  obtain ⟨frames, recent⟩ := nest
  obtain ⟨twins, others⟩ := other
  obtain ⟨framesAlike, recentAlike⟩ := alike
  dsimp only at framesAlike recentAlike
  cases framesAlike with
  | nil => exact unmatched
  | @cons frame twin outer more opener outerAlike =>
      simp only [Nest.shut, opener]
      split
      · refine ⟨outerAlike, ?_⟩
        dsimp only
        rw [ofRecent_cons, ofRecent_cons]
        exact recentAlike.inside _ _ _
      · exact unmatched

theorem step {placed twin : Position × Lexeme} (role : placed.2.SameRole twin.2) :
    NestsAlike (nest.step placed) (other.step twin) := by
  obtain ⟨position, lexeme⟩ := placed
  obtain ⟨place, lexemeToo⟩ := twin
  dsimp only at role
  rcases role with rfl | ⟨first, second⟩
  · cases lexemeToo with
    | leaf leaf => exact alike.push (.ofToken_leaf position place leaf)
    | brokenOff leaf error =>
        exact (alike.push (.ofToken_leaf position place leaf)).push
          (.ofToken_leaf position place (.error error))
    | comment body closed => exact alike.push (.ofToken_leaf position place (.comment body))
    | opener opener => exact ⟨.cons rfl alike.frames, .empty⟩
    | closer bracket => exact alike.shut position place bracket
  · cases lexeme with
    | comment body closed =>
        cases lexemeToo with
        | comment bodyToo closedToo => exact alike.push ⟨.nil, rfl⟩
        | _ => cases second
    | _ => cases first

theorem foldl_step {lexemes others : List (Position × Lexeme)}
    (roles : List.Forall₂ (fun placed twin => placed.2.SameRole twin.2) lexemes others) :
    NestsAlike (lexemes.foldl Nest.step nest) (others.foldl Nest.step other) := by
  induction roles generalizing nest other with
  | nil => exact alike
  | cons role _ ih => exact ih (alike.step role)

end NestsAlike

/-- The chain keeps its shape when comments are exchanged for other ones. -/
theorem ofText_sameShape (text other : Text)
    (roles : List.Forall₂ (fun placed twin => placed.2.SameRole twin.2)
      (lexemes text) (lexemes other)) :
    (ofText text).SameShape (ofText other) := by
  have start : NestsAlike Nest.empty Nest.empty := ⟨.nil, .empty⟩
  have alike := start.foldl_step roles
  rw [ofText_eq, ofText_eq]
  refine ⟨List.rel_append alike.recent.blocks ?_, alike.recent.comment⟩
  unfold openFrames
  rw [List.forall₂_map_left_iff, List.forall₂_map_right_iff]
  exact alike.frames.imp (fun _ _ opener => congrArg Opener.closedBy opener)

def EndsBy (last : Piece) (comment : Position × Text) : Prop :=
  (∃ closed, last.lexeme = .comment comment.2 closed ∧ '/' :: '*' :: comment.2 <+: last.source) ∨
    ∃ bracket, last = ⟨[Bracket.closing bracket], .closer bracket⟩

/-- If a chain ends in a comment, the text ends with it, or with a bracket behind it. -/
theorem endsBy_of_comment (text : Text) (comment : Position × Text)
    (found : (ofText text).comment = some comment) (before : List Piece) (last : Piece)
    (cut : pieces text = before ++ [last]) : EndsBy last comment := by
  rw [ofText_eq] at found
  unfold Nest.ofLexemes lexemes at found
  rw [cut, placed_append, List.foldl_append] at found
  generalize (placed .start before).foldl Nest.step Nest.empty = nest,
    Position.start.after (before.flatMap Piece.source) = position at found
  change (ofRecent (nest.step (position, last.lexeme)).recent).comment = some comment at found
  obtain ⟨read, c, rest, _, rfl⟩ := isCut_of_mem text last
    (cut ▸ List.mem_append_right before List.mem_cons_self)
  rcases Piece.first_cases c rest with plain | ⟨body, same⟩ | ⟨body, _, _, same⟩ |
    ⟨bracket, same⟩ | ⟨bracket, same⟩
  · rw [ofRecent_step_plain nest _ _ plain] at found
    cases found
  · rw [same] at found ⊢
    change (ofRecent (.leaf position (.comment body) :: nest.recent)).comment = _ at found
    rw [ofRecent_cons] at found
    cases found
    exact Or.inl ⟨true, rfl, List.prefix_append _ _⟩
  · rw [same] at found ⊢
    change (ofRecent (.leaf position (.comment body) :: nest.recent)).comment = _ at found
    rw [ofRecent_cons] at found
    cases found
    exact Or.inl ⟨false, rfl, List.prefix_rfl⟩
  · rw [same] at found
    cases found
  · exact Or.inr ⟨bracket, same⟩

/-! ### What the check finds -/

/-- A mark that is not in a tail is not reached by it. -/
theorem isPrefixOf_before (tail front back : Text) (c : Char) (absent : c ∉ tail) :
    tail.isPrefixOf (front ++ c :: back) = tail.isPrefixOf front := by
  rw [Bool.eq_iff_iff, List.isPrefixOf_iff_prefix, List.isPrefixOf_iff_prefix]
  constructor
  · intro whole
    rcases List.prefix_or_prefix_of_prefix whole (List.prefix_append front (c :: back)) with
      short | ⟨more, rfl⟩
    · exact short
    · have begins := (List.prefix_append_right_inj front).mp whole
      cases more with
      | nil => simp
      | cons d others =>
          obtain ⟨rfl, _⟩ := List.cons_prefix_cons.mp begins
          exact absurd (List.mem_append_right front List.mem_cons_self) absent
  · intro short
    exact short.trans (List.prefix_append _ _)

theorem isPrefixOf_append_of_length_le (tail front back : Text)
    (short : tail.length ≤ front.length) :
    tail.isPrefixOf (front ++ back) = tail.isPrefixOf front := by
  rw [Bool.eq_iff_iff, List.isPrefixOf_iff_prefix, List.isPrefixOf_iff_prefix]
  constructor
  · intro whole
    exact List.prefix_of_prefix_length_le whole (List.prefix_append front back) short
  · intro alone
    exact alone.trans (List.prefix_append front back)

/-- Without a comment the check finds the same in texts that end in the same closing marks. -/
theorem fault?_cause_of_blocks (text other : Text) (label : Option Text)
    {blocks twins : List (Position × Bracket)}
    (brackets : List.Forall₂ (fun block twin => twin.2 = block.2) blocks twins)
    (agree : ∀ marks : Text, (∀ mark ∈ marks, ∃ bracket, mark = Bracket.closing bracket) →
      marks.isPrefixOf other.reverse = marks.isPrefixOf text.reverse) :
    (fault? ⟨twins, none⟩ other label).map Fault.cause =
      (fault? ⟨blocks, none⟩ text label).map Fault.cause := by
  -- Any two places go together.
  have alike : Option.Rel (Fault.Alike (fun _ _ _ => True))
      (openBlock? label text.reverse [] blocks) (openBlock? label other.reverse [] twins) := by
    apply openBlock?_alike _ _ _ (brackets.imp (fun _ _ first => ⟨first, .comment, trivial⟩))
    intro marks closers _
    rw [List.append_nil]
    exact agree marks closers
  change (openBlock? label other.reverse [] twins).map Fault.cause =
    (openBlock? label text.reverse [] blocks).map Fault.cause
  generalize openBlock? label text.reverse [] blocks = fault,
    openBlock? label other.reverse [] twins = faultToo at alike ⊢
  cases alike with
  | none => rfl
  | some faults => exact congrArg some faults.cause_eq

/-- Around a comment that the text ends with, the innermost block is found open. -/
theorem fault?_cause_of_comment (blocks : List (Position × Bracket)) (comment : Position × Text)
    (text : Text) (label : Option Text) :
    (fault? ⟨blocks, some comment⟩ text label).map Fault.cause =
      if (commentTail (some comment)).isPrefixOf text.reverse then
        blocks.head?.map (fun block => .blockOpen block.2)
      else some .commentOpen := by
  change Option.map _ (if (commentTail (some comment)).isPrefixOf text.reverse then
    openBlock? label text.reverse (commentTail (some comment)) blocks
    else some ⟨.commentOpen, comment.1, label⟩) = _
  by_cases closed : (commentTail (some comment)).isPrefixOf text.reverse = true
  · rw [if_pos closed, if_pos closed]
    cases blocks with
    | nil => rfl
    | cons block outer =>
        obtain ⟨position, bracket⟩ := block
        obtain ⟨rest, whole⟩ := List.isPrefixOf_iff_prefix.mp closed
        rw [← whole]
        cases bracket <;> rfl
  · rw [if_neg closed, if_neg closed]
    rfl

theorem commented_reverse (front body back : Text) :
    (commented front body back).reverse =
      back.reverse ++ '/' :: '*' :: (body.reverse ++ '*' :: '/' :: front.reverse) := by
  simp [commented]

theorem isPrefixOf_closers (front left right back marks : Text)
    (closers : ∀ mark ∈ marks, ∃ bracket, mark = Bracket.closing bracket) :
    marks.isPrefixOf (commented front right back).reverse =
      marks.isPrefixOf (commented front left back).reverse := by
  have absent : '/' ∉ marks := by
    intro member
    obtain ⟨bracket, slash⟩ := closers '/' member
    cases bracket <;> cases slash
  rw [commented_reverse, commented_reverse, isPrefixOf_before _ _ _ _ absent,
    isPrefixOf_before _ _ _ _ absent]

theorem isPrefixOf_at_comment (source front body : Text) (comment : Position × Text)
    (ends : EndsBy ⟨source, .comment body true⟩ comment) :
    (commentTail (some comment)).isPrefixOf (commented front body []).reverse = true := by
  rcases ends with ⟨closed, found, _⟩ | ⟨bracket, impossible⟩
  · obtain ⟨same, _⟩ := Lexeme.comment.inj found
    rw [List.isPrefixOf_iff_prefix, commented_reverse, same]
    exact ⟨front.reverse, by simp [commentTail]⟩
  · cases impossible

/-- Whether the comment at the end of the chain ends the text is decided behind the last mark of a
comment in front of its last piece. -/
theorem isPrefixOf_behind_comment (back : Text) (between : List Piece) (last : Piece)
    (cut : pieces back = between ++ [last]) (comment twin : Position × Text)
    (ends : EndsBy last comment) (endsToo : EndsBy last twin) (front other : Text) :
    (commentTail (some twin)).isPrefixOf (back.reverse ++ '/' :: '*' :: other) =
      (commentTail (some comment)).isPrefixOf (back.reverse ++ '/' :: '*' :: front) := by
  have whole := flatMap_source_pieces back
  rw [cut, List.flatMap_append, List.flatMap_singleton] at whole
  rcases ends with ⟨closed, found, starts⟩ | ⟨bracket, rfl⟩
  · rcases endsToo with ⟨closedToo, foundToo, _⟩ | ⟨bracket, rfl⟩
    · have same : commentTail (some twin) = commentTail (some comment) := by
        rw [found] at foundToo
        unfold commentTail
        dsimp only
        rw [(Lexeme.comment.inj foundToo).1]
      have short : (commentTail (some comment)).length ≤ (back.reverse ++ ['/', '*']).length := by
        have within := starts.length_le
        rw [← whole]
        simp only [commentTail, List.length_append, List.length_reverse, List.length_cons,
          List.length_nil] at within ⊢
        omega
      have parted (more : Text) : back.reverse ++ '/' :: '*' :: more =
          back.reverse ++ ['/', '*'] ++ more := by simp
      rw [same, parted front, parted other, isPrefixOf_append_of_length_le _ _ _ short,
        isPrefixOf_append_of_length_le _ _ _ short]
    · cases found
  · -- A bracket is not the last mark of a comment.
    rw [← whole, List.reverse_append, List.reverse_singleton]
    cases bracket <;> rfl

section

variable {front left right back : Text}
  (finds : FindsComment (commented front left back) front)
  (inside : ¬ ['*', '/'] <:+: left) (insideToo : ¬ ['*', '/'] <:+: right)

include finds inside insideToo

/-- Whether the comment at the end of the chain ends the text does not depend on what a comment in
the text holds, even if it is the same comment. -/
theorem isPrefixOf_commented (comment twin : Position × Text)
    (found : (ofText (commented front left back)).comment = some comment)
    (foundToo : (ofText (commented front right back)).comment = some twin) :
    (commentTail (some twin)).isPrefixOf (commented front right back).reverse =
      (commentTail (some comment)).isPrefixOf (commented front left back).reverse := by
  obtain ⟨before, _, _, cut⟩ := finds.exists_pieces
  have cutLeft := cut left inside
  have cutRight := cut right insideToo
  rcases List.eq_nil_or_concat (pieces back) with none | ⟨between, last, behind⟩
  · have bare : back = [] := by
      rw [← flatMap_source_pieces back, none]
      rfl
    subst bare
    rw [none] at cutLeft cutRight
    rw [isPrefixOf_at_comment _ front left comment (endsBy_of_comment _ _ found _ _ cutLeft),
      isPrefixOf_at_comment _ front right twin (endsBy_of_comment _ _ foundToo _ _ cutRight)]
  · rw [List.concat_eq_append] at behind
    rw [behind, ← List.cons_append, ← List.append_assoc] at cutLeft cutRight
    rw [commented_reverse, commented_reverse]
    exact isPrefixOf_behind_comment back between last behind comment twin
      (endsBy_of_comment _ _ found _ _ cutLeft) (endsBy_of_comment _ _ foundToo _ _ cutRight) _ _

/-- The check of the end says the same whatever the comment holds, or nothing either way. -/
theorem fault?_commented (label : Option Text) :
    ((ofText (commented front right back)).fault? (commented front right back) label).map
        Fault.cause =
      ((ofText (commented front left back)).fault? (commented front left back) label).map
        Fault.cause := by
  have same := ofText_sameShape _ _ (finds.lexemes_sameRole inside insideToo)
  have ends := isPrefixOf_commented finds inside insideToo
  generalize ofText (commented front left back) = ending,
    ofText (commented front right back) = other at same ends
  obtain ⟨blocks, comment⟩ := ending
  obtain ⟨twins, twin⟩ := other
  obtain ⟨brackets, together⟩ := same
  dsimp only at brackets together ends
  cases comment with
  | some comment =>
      cases twin with
      | none => cases together
      | some twin =>
          have heads : twins.head?.map (fun block => Cause.blockOpen block.2) =
              blocks.head?.map (fun block => Cause.blockOpen block.2) := by
            cases brackets with
            | nil => rfl
            | cons first _ => exact congrArg (fun bracket => some (Cause.blockOpen bracket)) first
          rw [fault?_cause_of_comment, fault?_cause_of_comment, ends _ _ rfl rfl, heads]
  | none =>
      cases twin with
      | some twin => cases together
      | none =>
          exact fault?_cause_of_blocks _ _ _ brackets (isPrefixOf_closers front left right back)

end

end Ending

/-! ### The answers -/

namespace Stylesheet

/-- Two texts are answered alike if each of the three stages answers alike. -/
theorem read_sameAnswer {same : Kind → Position → Position → Prop} (text other : Text)
    (label : Option Text)
    (small : Reading.oversizedIn? (Source.normalize other) =
      Reading.oversizedIn? (Source.normalize text))
    (ended : ((Ending.ofText (Source.normalize other)).fault? (Source.normalize other) label).map
        Fault.cause =
      ((Ending.ofText (Source.normalize text)).fault? (Source.normalize text) label).map
        Fault.cause)
    (rules : AnswerAlike same (Reading.rulesIn (Source.normalize text) label)
      (Reading.rulesIn (Source.normalize other) label)) :
    SameAnswer (read text label) (read other label) := by
  rw [read_eq, read_eq, small]
  generalize (Ending.ofText (Source.normalize text)).fault? (Source.normalize text) label = fault,
    (Ending.ofText (Source.normalize other)).fault? (Source.normalize other) label = faultToo
    at ended ⊢
  cases Reading.oversizedIn? (Source.normalize text) with
  | some digits => exact .oversized digits
  | none =>
      cases fault with
      | some fault =>
          cases faultToo with
          | none => cases ended
          | some faultToo => exact .fault (congrArg Cause.message (Option.some.inj ended))
      | none =>
          cases faultToo with
          | some faultToo => cases ended
          | none =>
              generalize Reading.rulesIn (Source.normalize text) label = answer,
                Reading.rulesIn (Source.normalize other) label = answerToo at rules ⊢
              cases rules with
              | ok found => exact .ok _
              | error faults => exact .fault (congrArg Cause.message faults.cause_eq)

/-- What is written in a comment changes neither the answer, up to the place of a fault, nor what
the check of the end says, nor a counter. -/
theorem read_commented (front left right back : Text)
    (inside : ∀ body ∈ [left, right], ¬ ['*', '/'] <:+: body)
    (finds : FindsComment (Source.normalize (commented front left back))
      (Source.normalize front)) :
    (∀ label, SameAnswer (read (commented front left back) label)
      (read (commented front right back) label)) ∧
    (∀ label, ((Ending.ofText (Source.normalize (commented front right back))).fault?
        (Source.normalize (commented front right back)) label).map Fault.cause =
      ((Ending.ofText (Source.normalize (commented front left back))).fault?
        (Source.normalize (commented front left back)) label).map Fault.cause) ∧
    ∀ (record : Record) (digestLength : Int),
      (record.takeIn (commented front left back) digestLength).map Record.counters =
        (record.takeIn (commented front right back) digestLength).map Record.counters := by
  have normal (body : Text) : Source.normalize (commented front body back) =
      commented (Source.normalize front) (Source.normalize body) (Source.normalize back) :=
    Source.normalize_commented front body back
  have closed (body : Text) (member : body ∈ [left, right]) :
      ¬ ['*', '/'] <:+: Source.normalize body := by
    intro ended
    exact inside body member
      (Source.infix_of_normalize body '*' '/' (by decide) (by decide) ended)
  have closedLeft := closed left (by simp)
  have closedRight := closed right (by simp)
  rw [normal left] at finds
  have small := Reading.oversizedIn?_commented finds closedLeft closedRight
  have ended := Ending.fault?_commented finds closedLeft closedRight
  have rules := Reading.rulesIn_commented finds closedLeft closedRight
  rw [← normal left, ← normal right] at small ended rules
  have same (label : Option Text) := read_sameAnswer _ _ label small (ended label) (rules label)
  exact ⟨same, ended, fun record digestLength =>
    Record.counters_takeIn record _ _ digestLength (same none).symm⟩

/-- A bracket in a comment does not close the block around the comment. -/
theorem read_commented_at_bracket :
    read ['a', '{', '/', '*', '*', '/'] none = .error (.fault ⟨.blockOpen .curly, ⟨1, 2⟩, none⟩) ∧
      SameAnswer (read ['a', '{', '/', '*', '*', '/'] none)
        (read ['a', '{', '/', '*', '}', '*', '/'] none) := by
  have finds : FindsComment ['a', '{', '/', '*', '*', '/'] ['a', '{'] :=
    ⟨pieces ['a', '{'], ⟨['/', '*', '*', '/'], .comment [] true⟩, [], rfl, rfl, rfl⟩
  have each : ∀ body ∈ [[], ['}']], ¬ ['*', '/'] <:+: body := by decide
  exact ⟨rfl, (read_commented ['a', '{'] [] ['}'] [] each finds).1 none⟩

end Stylesheet

end SheetCensus
