import SheetCensus.Proofs.Css.Joining
import SheetCensus.Proofs.Source.Offset
import SheetCensus.Proofs.Stylesheet.Likeness
import SheetCensus.Proofs.Stylesheet.Reading

set_option autoImplicit false

/-! Reading a text behind a block. The text in front has had its say when its last block closes:
its rules come first, and the text behind is read, or refused, as if it stood alone. The check of
the end sees nothing of the text in front, because the chain of last tokens of the text behind has
no more marks than fit into it (`Ending.size_le_length`), except for a comment without end, whose
marks would have to begin with the bracket that closes the block. -/

namespace SheetCensus

open Css

/-! ### The end -/

namespace Ending

def size (ending : Ending) : Nat :=
  ending.blocks.length + ending.comment.elim 0 (fun placed => placed.2.length + 2)

theorem size_inside (ending : Ending) (position : Position) (bracket : Bracket) :
    (ending.inside position bracket).size = ending.size + 1 := by
  unfold size inside
  dsimp only
  rw [List.length_append, List.length_singleton]
  omega

def sizeIn (nest : Nest) : Nat :=
  (ofRecent nest.recent).size + nest.frames.length

theorem sizeIn_shut (nest : Nest) (position : Position) (bracket : Bracket) :
    sizeIn (nest.shut position bracket) ≤ sizeIn nest + 1 := by
  have unmatched : sizeIn (nest.push (.leaf position (.error (.unmatched bracket)))) ≤
      sizeIn nest + 1 := by
    unfold sizeIn Nest.push
    dsimp only
    rw [ofRecent_cons]
    change 0 + _ ≤ _
    omega
  unfold Nest.shut
  cases frames : nest.frames with
  | nil => exact unmatched
  | cons frame outer =>
      dsimp only
      by_cases fits : frame.opener.closedBy = bracket
      · rw [if_pos fits]
        unfold sizeIn
        dsimp only
        rw [ofRecent_cons, frames, List.length_cons]
        change (Ending.inside (ofRecent nest.recent) _ _).size + _ ≤ _
        rw [size_inside]
        omega
      · rw [if_neg fits]
        exact unmatched

theorem frames_step_plain (nest : Nest) (placed : Position × Lexeme) (plain : placed.2.IsPlain) :
    (nest.step placed).frames.length ≤ nest.frames.length + 1 := by
  obtain ⟨position, lexeme⟩ := placed
  cases lexeme with
  | closer bracket => cases plain
  | opener opener => exact Nat.le_refl _
  | _ => exact Nat.le_succ _

theorem sizeIn_step (c : Char) (rest : Text) (position : Position) (nest : Nest) :
    sizeIn (nest.step (position, (Piece.first c rest).lexeme)) ≤
      sizeIn nest + (Piece.first c rest).source.length := by
  rcases Piece.first_cases c rest with plain | ⟨body, same⟩ | ⟨body, _, _, same⟩ |
    ⟨bracket, same⟩ | ⟨bracket, same⟩
  · have frames := frames_step_plain nest (position, (Piece.first c rest).lexeme) plain
    have filled : 1 ≤ (Piece.first c rest).source.length := Nat.le_add_left 1 _
    unfold sizeIn
    rw [ofRecent_step_plain nest _ _ plain]
    change 0 + _ ≤ _
    omega
  · rw [same]
    change (ofRecent (.leaf position (.comment body) :: nest.recent)).size + nest.frames.length ≤ _
    rw [ofRecent_cons]
    change 0 + (body.length + 2) + _ ≤ _
    unfold sizeIn
    simp only [List.length_cons, List.length_append]
    omega
  · rw [same]
    change (ofRecent (.leaf position (.comment body) :: nest.recent)).size + nest.frames.length ≤ _
    rw [ofRecent_cons]
    change 0 + (body.length + 2) + _ ≤ _
    unfold sizeIn
    simp only [List.length_cons]
    omega
  · rw [same]
    change 0 + (nest.frames.length + 1) ≤ _ + nest.frames.length + 1
    omega
  · rw [same]
    exact sizeIn_shut nest position bracket

theorem size_le_length (text : Text) : (ofText text).size ≤ text.length := by
  have within : sizeIn (Nest.ofLexemes (lexemes text)) ≤ text.length := by
    apply Nest.ofLexemes_induction text (fun read nest => sizeIn nest ≤ read.length)
    · exact Nat.le_refl 0
    · intro read c rest nest _ here
      have more := sizeIn_step c rest (Position.start.after read) nest
      rw [List.length_append]
      omega
  have whole : (ofText text).size = sizeIn (Nest.ofLexemes (lexemes text)) := by
    rw [ofText_eq]
    unfold size sizeIn size openFrames
    dsimp only
    rw [List.length_append, List.length_map]
    omega
  omega

/-- What stands at the end of a text behind a closing bracket stands at the end of the text behind,
if it fits there, or if it is too long by two characters at most and they would belong to the end
of a comment. -/
theorem isPrefixOf_behind (front back tail : Text)
    (fits : tail.length ≤ back.length ∨
      (∃ marks, tail = marks ++ ['*', '/']) ∧ tail.length ≤ back.length + 2) :
    tail.isPrefixOf (front ++ '}' :: back).reverse = tail.isPrefixOf back.reverse := by
  have turned : (front ++ '}' :: back).reverse = back.reverse ++ '}' :: front.reverse := by
    simp
  have inner : back.reverse <+: back.reverse ++ '}' :: front.reverse := List.prefix_append _ _
  rw [turned, Bool.eq_iff_iff, List.isPrefixOf_iff_prefix, List.isPrefixOf_iff_prefix]
  constructor
  · intro whole
    by_cases short : tail.length ≤ back.length
    · exact List.prefix_of_prefix_length_le whole inner (by rw [List.length_reverse]; exact short)
    · -- The bracket would be the slash or the star of a comment's end.
      obtain ⟨⟨marks, comment⟩, bound⟩ := fits.resolve_left short
      have longer : back.reverse <+: tail := by
        apply List.prefix_of_prefix_length_le inner whole
        rw [List.length_reverse]
        omega
      obtain ⟨more, rfl⟩ := longer
      have begins := (List.prefix_append_right_inj _).mp whole
      rw [List.length_append, List.length_reverse] at short bound
      match more with
      | [] => simp at short
      | [c] =>
          have last := congrArg List.getLast? comment
          rw [List.getLast?_concat] at last
          obtain ⟨rfl, _⟩ := List.cons_prefix_cons.mp begins
          simp at last
      | [c, d] =>
          have ends := (List.append_inj' comment rfl).2
          obtain ⟨rfl, _⟩ := List.cons_prefix_cons.mp begins
          cases ends
      | c :: d :: e :: others =>
          simp only [List.length_cons] at bound
          omega
  · intro whole
    exact whole.trans inner

variable {same : Kind → Position → Position → Prop}

theorem openBlock?_alike (label : Option Text) (reversed other : Text)
    {blocks twins : List (Position × Bracket)}
    (alike : List.Forall₂ (fun block twin => twin.2 = block.2 ∧ Together same block.1 twin.1)
      blocks twins)
    (tail : Text)
    (agree : ∀ marks : Text, (∀ mark ∈ marks, ∃ bracket, mark = Bracket.closing bracket) →
      marks.length ≤ blocks.length →
        (marks ++ tail).isPrefixOf other = (marks ++ tail).isPrefixOf reversed) :
    Option.Rel (Fault.Alike same) (openBlock? label reversed tail blocks)
      (openBlock? label other tail twins) := by
  induction alike generalizing tail with
  | nil => exact .none
  | @cons block twin outer others first _ ih =>
      obtain ⟨position, bracket⟩ := block
      obtain ⟨place, twinBracket⟩ := twin
      obtain ⟨equal, together⟩ := first
      change twinBracket = bracket at equal
      subst equal
      have here := agree [twinBracket.closing] (by simp) (by simp)
      rw [List.singleton_append] at here
      unfold openBlock?
      dsimp only
      rw [here]
      split
      · apply ih
        intro marks closers fewer
        have further := agree (marks ++ [twinBracket.closing])
          (List.forall_mem_append.mpr ⟨closers, by simp⟩) (by simpa using fewer)
        rw [List.append_assoc, List.singleton_append] at further
        exact further
      · exact .some ⟨rfl, together, rfl⟩

theorem fault?_alike {ending twin : Ending} (alike : ending.Alike same twin) (text other : Text)
    (label : Option Text)
    (agree : ∀ marks : Text, marks.length ≤ ending.blocks.length →
      (marks ++ commentTail ending.comment).isPrefixOf other.reverse =
        (marks ++ commentTail ending.comment).isPrefixOf text.reverse) :
    Option.Rel (Fault.Alike same) (ending.fault? text label) (twin.fault? other label) := by
  obtain ⟨blocks, comment⟩ := ending
  obtain ⟨twins, commentToo⟩ := twin
  obtain ⟨blocksAlike, commentsAlike⟩ := alike
  dsimp only at blocksAlike commentsAlike agree
  have open_ := openBlock?_alike label text.reverse other.reverse blocksAlike _
    (fun marks _ fewer => agree marks fewer)
  cases commentsAlike with
  | none => exact open_
  | @some placed placedToo bodies =>
      obtain ⟨position, body⟩ := placed
      obtain ⟨place, bodyToo⟩ := placedToo
      obtain ⟨equal, together⟩ := bodies
      change bodyToo = body at equal
      subst equal
      have here := agree [] (Nat.zero_le _)
      rw [List.nil_append] at here
      change Option.Rel _ (if (commentTail (some (position, bodyToo))).isPrefixOf text.reverse then
          openBlock? label text.reverse (commentTail (some (position, bodyToo))) blocks
        else some ⟨.commentOpen, position, label⟩)
        (if (commentTail (some (position, bodyToo))).isPrefixOf other.reverse then
          openBlock? label other.reverse (commentTail (some (position, bodyToo))) twins
        else some ⟨.commentOpen, place, label⟩)
      rw [here]
      split
      · exact open_
      · exact .some ⟨rfl, together, rfl⟩

theorem ofTokens_append (front back : List Token) (some : back ≠ []) :
    ofTokens (front ++ back) = ofTokens back := by
  induction front with
  | nil => rfl
  | cons token rest ih =>
      obtain ⟨second, others, joined⟩ := List.exists_cons_of_ne_nil
        (List.append_ne_nil_of_right_ne_nil rest some)
      rw [List.cons_append, joined, ofTokens, ← joined, ih]

/-- The chain of a text that is not empty does not change when it is put behind a block. -/
theorem ofText_behind (front back : Text) (ends : EndsWithBlock front) (filled : back ≠ []) :
    (ofText back).Alike (Behind front back) (ofText (front ++ back)) := by
  have some : placed (Position.start.after front) (pieces back) ≠ [] := by
    obtain ⟨c, rest, rfl⟩ := List.exists_cons_of_ne_nil filled
    rw [pieces_eq_first]
    exact List.cons_ne_nil _ _
  unfold ofText
  rw [ends.lexemes_append back, nest_append _ _ ends.1, ofTokens_append _ _ (nest_ne_nil _ some)]
  exact ofTokens_alike _ _ (nest_alike (lexemes_behind front back))

theorem fault?_behind (front back : Text) (label : Option Text) (ends : EndsWithBlock front)
    (filled : back ≠ []) :
    Option.Rel (Fault.Alike (Behind front back)) ((ofText back).fault? back label)
      ((ofText (front ++ back)).fault? (front ++ back) label) := by
  have within := size_le_length back
  obtain ⟨before, rfl⟩ := ends.eq_append
  apply fault?_alike (ofText_behind _ back ends filled)
  intro marks fewer
  rw [List.append_assoc, List.singleton_append]
  apply isPrefixOf_behind
  unfold size at within
  cases comment : (ofText back).comment with
  | none =>
      left
      rw [comment] at within
      simp only [commentTail, List.append_nil]
      exact Nat.le_trans fewer within
  | some placed =>
      right
      rw [comment] at within
      change _ + (placed.2.length + 2) ≤ _ at within
      constructor
      · exact ⟨marks ++ (['/', '*'] ++ placed.2.reverse), by simp [commentTail]⟩
      · simp only [commentTail, List.length_append, List.length_cons, List.length_nil,
          List.length_reverse]
        omega

end Ending

/-! ### The rules -/

namespace Reading

theorem findSome?_oversized?_eq {lexemes others : List (Position × Lexeme)}
    (alike : List.Forall₂ (fun placed twin => oversized? twin.2 = oversized? placed.2)
      lexemes others) :
    others.findSome? (fun placed => oversized? placed.2) =
      lexemes.findSome? (fun placed => oversized? placed.2) := by
  induction alike with
  | nil => rfl
  | cons first _ ih => rw [List.findSome?_cons, List.findSome?_cons, first, ih]

theorem oversizedIn?_append (front back : Text) (ends : EndsWithBlock front) :
    oversizedIn? (front ++ back) = (oversizedIn? front).or (oversizedIn? back) := by
  have later : (placed (Position.start.after front) (pieces back)).findSome?
      (fun placed => oversized? placed.2) = oversizedIn? back := by
    apply findSome?_oversized?_eq
    exact (lexemes_behind front back).imp (fun _ _ alike => congrArg oversized? alike.1)
  unfold oversizedIn? at later ⊢
  rw [ends.lexemes_append, List.findSome?_append, later]

theorem addressesAgree_within (front back : Text) :
    AddressesAgree (Within front) (Source.ofNormalized front)
      (Source.ofNormalized (front ++ back)) := by
  rintro position place ⟨rfl, spelled⟩
  obtain ⟨read, left, rfl, rfl, long⟩ := spelled rfl
  rw [List.append_assoc, Source.slice_after, Source.slice_after, List.take_append_of_le_length long]

theorem addressesAgree_behind (front back : Text) :
    AddressesAgree (Behind front back) (Source.ofNormalized back)
      (Source.ofNormalized (front ++ back)) := by
  rintro position place ⟨read, c, rest, rfl, rfl, rfl⟩
  rw [← List.append_assoc, Source.slice_after, Source.slice_after]

theorem rules_append (source : Source) (label : Option Text) (front back : List Construct)
    (found : List Rule) (fine : rules source label front = .ok found) :
    rules source label (front ++ back) = (rules source label back).map (found ++ ·) := by
  induction front generalizing found with
  | nil =>
      cases fine
      rw [List.nil_append]
      cases rules source label back <;> rfl
  | cons construct rest ih =>
      unfold rules at fine
      cases here : rule source label construct with
      | error fault =>
          rw [here] at fine
          cases fine
      | ok first =>
          rw [here] at fine
          cases behind : rules source label rest with
          | error fault =>
              rw [behind] at fine
              cases fine
          | ok others =>
              rw [behind] at fine
              cases fine
              rw [List.cons_append, rules, here, ih others behind]
              cases rules source label back <;> rfl

/-- The rules of a text stay what they are when the source goes on: it is the same wherever an
address stands. -/
theorem rules_within (front back : Text) (label : Option Text) (found : List Rule)
    (fine : rulesIn front label = .ok found) :
    rules (Source.ofNormalized (front ++ back)) label
      (constructs (nest (withoutComments (lexemes front)))) = .ok found := by
  have alike := rules_alike label (addressesAgree_within front back) (constructs_alike (nest_alike
    (withoutComments_alike (lexemes_within front))))
  exact alike.eq_ok fine

theorem rulesIn_append (front back : Text) (label : Option Text) (ends : EndsWithBlock front)
    (found : List Rule) (fine : rulesIn front label = .ok found) :
    AnswerAlike (Behind front back) ((rulesIn back label).map (found ++ ·))
      (rulesIn (front ++ back) label) := by
  obtain ⟨shut, before, block, body, nested, curly⟩ := ends.nest_withoutComments_eq
  have first := rules_within front back label found fine
  have later := rules_alike label (addressesAgree_behind front back) (constructs_alike (nest_alike
    (withoutComments_alike (lexemes_behind front back))))
  have divided : constructs (nest (withoutComments (lexemes (front ++ back)))) =
      constructs (nest (withoutComments (lexemes front))) ++ constructs (nest (withoutComments
        (placed (Position.start.after front) (pieces back)))) := by
    have apart : withoutComments (lexemes (front ++ back)) = withoutComments (lexemes front) ++
        withoutComments (placed (Position.start.after front) (pieces back)) := by
      rw [ends.lexemes_append]
      exact List.filter_append _ _
    rw [apart, nest_append _ _ shut, nested, constructs_append _ _ block body curly]
  unfold rulesIn at later ⊢
  rw [divided, rules_append _ label _ _ found first]
  exact later.map (found ++ ·)

def answerIn (text : Text) (label : Option Text) : Except Fault (List Rule) :=
  ofLexemes (Source.ofNormalized text) label (lexemes text)

theorem answerIn_eq (text : Text) (label : Option Text) :
    answerIn text label =
      match (Ending.ofText text).fault? text label with
      | some fault => .error fault
      | none => rulesIn text label :=
  rfl

/-- Behind a block the answer for a text that is not empty does not depend on whether something is
open at the end of the text in front. -/
theorem answerIn_behind (front back : Text) (label : Option Text) (ends : EndsWithBlock front)
    (filled : back ≠ []) (found : List Rule) (fine : rulesIn front label = .ok found) :
    AnswerAlike (Behind front back) ((answerIn back label).map (found ++ ·))
      (answerIn (front ++ back) label) := by
  have closed := Ending.fault?_behind front back label ends filled
  rw [answerIn_eq, answerIn_eq]
  generalize (Ending.ofText back).fault? back label = fault,
    (Ending.ofText (front ++ back)).fault? (front ++ back) label = faultToo at closed ⊢
  cases closed with
  | some alike => exact .error alike
  | none => exact rulesIn_append front back label ends found fine

theorem answerIn_append (front back : Text) (label : Option Text) (ends : EndsWithBlock front)
    (found : List Rule) (fine : answerIn front label = .ok found) :
    AnswerAlike (Behind front back) ((answerIn back label).map (found ++ ·))
      (answerIn (front ++ back) label) := by
  by_cases filled : back = []
  · subst filled
    rw [List.append_nil, fine]
    change AnswerAlike _ (.ok (found ++ [])) _
    rw [List.append_nil]
    exact .ok found
  · apply answerIn_behind front back label ends filled found
    rw [answerIn_eq] at fine
    split at fine
    · cases fine
    · exact fine

end Reading

/-! ### The answers -/

def Fault.behind (front : Text) (fault : Fault) : Fault :=
  ⟨fault.cause, (Position.start.after front).beyond fault.position, fault.label⟩

theorem Fault.Alike.eq_behind {front back : Text} {fault other : Fault}
    (alike : fault.Alike (Behind front back) other) :
    other = fault.behind front ∧ ∃ text c left, back = text ++ c :: left ∧
      fault.position = Position.start.after text ∧
        (fault.behind front).position = Position.start.after (front ++ text) := by
  obtain ⟨cause, place, label⟩ := other
  obtain ⟨same, ⟨_, text, c, left, cut, here, there⟩, labelled⟩ := alike
  change cause = _ at same
  change place = _ at there
  change label = _ at labelled
  have moved : (fault.behind front).position = Position.start.after (front ++ text) := by
    rw [Position.after_append, Position.after_eq_beyond _ text, ← here]
    rfl
  refine ⟨?_, text, c, left, cut, here, moved⟩
  rw [same, there, ← moved, labelled]
  rfl

theorem normalize_append_of_endsWithBlock (front back : Text)
    (ends : EndsWithBlock (Source.normalize front)) :
    Source.normalize (front ++ back) = Source.normalize front ++ Source.normalize back := by
  apply Source.normalize_append
  intro returns
  have feeds := Source.getLast?_of_normalize front returns
  obtain ⟨before, whole⟩ := ends.eq_append
  rw [whole, List.getLast?_concat] at feeds
  simp at feeds

namespace Stylesheet

theorem read_eq_answerIn (text : Text) (label : Option Text) :
    read text label =
      match Reading.oversizedIn? (Source.normalize text) with
      | some digits => .error (.oversized digits)
      | none =>
          match Reading.answerIn (Source.normalize text) label with
          | .error fault => .error (.fault fault)
          | .ok rules => .ok ⟨if rules.isEmpty then none else some rules, label⟩ := by
  rw [read_eq, Reading.answerIn_eq]
  cases Reading.oversizedIn? (Source.normalize text) with
  | some digits => rfl
  | none =>
      cases (Ending.ofText (Source.normalize text)).fault? (Source.normalize text) label with
      | some fault => rfl
      | none => rfl

/-- Behind a block in curly brackets that ends a style sheet a text is read as if it stood alone:
its rules come after those in front, and what is wrong with it is wrong at the same character. -/
theorem read_append (front back : Text) (label : Option Text) (sheet : Stylesheet)
    (fine : read front label = .ok sheet) (ends : EndsWithBlock (Source.normalize front)) :
    Source.normalize (front ++ back) = Source.normalize front ++ Source.normalize back ∧
      ((∃ whole, read (front ++ back) label = .ok whole) ↔ ∃ rest, read back label = .ok rest) ∧
      (∀ rest, read back label = .ok rest →
        ∃ whole, read (front ++ back) label = .ok whole ∧
          whole.ruleList = sheet.ruleList ++ rest.ruleList) ∧
      (∀ fault, read back label = .error (.fault fault) →
        read (front ++ back) label = .error (.fault (fault.behind (Source.normalize front))) ∧
          ∃ text c left, Source.normalize back = text ++ c :: left ∧
            fault.position = Position.start.after text ∧
              (fault.behind (Source.normalize front)).position =
                Position.start.after (Source.normalize front ++ text)) ∧
      ∀ digits, read back label = .error (.oversized digits) →
        read (front ++ back) label = .error (.oversized digits) := by
  have joined := normalize_append_of_endsWithBlock front back ends
  refine ⟨joined, ?_⟩
  obtain ⟨small, closed, found, read, rfl⟩ := (read_eq_ok_iff front label sheet).mp fine
  have alone : Reading.answerIn (Source.normalize front) label = .ok found := by
    rw [Reading.answerIn_eq, closed]
    exact read
  have alike := Reading.answerIn_append _ (Source.normalize back) label ends found alone
  rw [read_eq_answerIn (front ++ back), read_eq_answerIn back, joined,
    Reading.oversizedIn?_append _ _ ends, small, Option.none_or]
  generalize Reading.answerIn (Source.normalize back) label = answer,
    Reading.answerIn (Source.normalize front ++ Source.normalize back) label = other at alike ⊢
  cases Reading.oversizedIn? (Source.normalize back) with
  | some digits => simp
  | none =>
      cases answer with
      | error fault =>
          cases alike with
          | @error _ moved faults =>
              obtain ⟨rfl, there⟩ := faults.eq_behind
              refine ⟨by simp, ?_, ?_, ?_⟩
              · intro rest answered
                cases answered
              · intro fault answered
                cases answered
                exact ⟨rfl, there⟩
              · intro digits answered
                cases answered
      | ok later =>
          cases alike with
          | ok _ =>
              refine ⟨⟨fun _ => ⟨_, rfl⟩, fun _ => ⟨_, rfl⟩⟩, ?_, ?_, ?_⟩
              · intro rest answered
                cases answered
                refine ⟨_, rfl, ?_⟩
                rw [ruleList_mk, ruleList_mk, ruleList_mk]
              · intro fault answered
                cases answered
              · intro digits answered
                cases answered

theorem read_append_at_stray_bracket :
    read ['a', '{', '\r', '\n', '}'] none =
        .ok ⟨some [⟨Rule.styleType, some [['a']], some []⟩], none⟩ ∧
      EndsWithBlock (Source.normalize ['a', '{', '\r', '\n', '}']) ∧
      read ['\r', '}', 'b', '{', '}'] none =
        .error (.fault ⟨.token (.unmatched .curly), ⟨2, 1⟩, none⟩) ∧
      read (['a', '{', '\r', '\n', '}'] ++ ['\r', '}', 'b', '{', '}']) none =
        .error (.fault ⟨.token (.unmatched .curly), ⟨3, 1⟩, none⟩) := by
  have fine : read ['a', '{', '\r', '\n', '}'] none =
      .ok ⟨some [⟨Rule.styleType, some [['a']], some []⟩], none⟩ := rfl
  have ends : EndsWithBlock (Source.normalize ['a', '{', '\r', '\n', '}']) := ⟨rfl, _, _, rfl⟩
  have refused : read ['\r', '}', 'b', '{', '}'] none =
      .error (.fault ⟨.token (.unmatched .curly), ⟨2, 1⟩, none⟩) := rfl
  exact ⟨fine, ends, refused, ((read_append _ _ none _ fine ends).2.2.2.1 _ refused).1⟩

end Stylesheet

end SheetCensus
