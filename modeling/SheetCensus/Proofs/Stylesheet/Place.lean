import SheetCensus.Proofs.Css.Place
import SheetCensus.Proofs.Stylesheet.Acceptance

set_option autoImplicit false

/-! Where faults are reported. Whatever is wrong with a text, the fault has the place of one of its
tokens: a block or a comment on the chain of last tokens, a token among those of a prelude, of a
value or of a block, or the first or last one of a rule (`Reading.isTokenPlace_of_fault?`,
`Reading.isTokenPlace_of_rulesIn`). So the line and the column that are shown lead back to the first
character of a token (`Stylesheet.read_fault_pointsInto`). -/

namespace SheetCensus

open Css

/-- The place is in a line of the text, and a token of the text, at any depth, has its first
character there. -/
structure Position.PointsInto (text : Text) (position : Position) : Prop where
  line_pos : 1 ≤ position.line
  line_le : position.line ≤ text.count '\n' + 1
  column_pos : 1 ≤ position.column
  begins : ∃ lineStart,
    (Source.ofNormalized text).lineStarts[position.line - 1]? = some lineStart ∧
      lineStart + (position.column - 1) < text.length ∧
        ∃ token ∈ nest (lexemes text), ∃ part : Token, part.IsPart token ∧
          part.BeginsAt text (lineStart + (position.column - 1))

theorem Css.IsTokenPlace.pointsInto {text : Text} {position : Position}
    (place : IsTokenPlace text position) : position.PointsInto text := by
  obtain ⟨token, member, part, isPart, rfl⟩ := place
  have begins : part.BeginsAt text ((Source.ofNormalized text).offset part.position) :=
    beginsAt_of_mem text token member part isPart
  generalize (Source.ofNormalized text).offset part.position = index at begins
  have within := begins.lt_length
  have whole : text.take index ++ text.drop index = text := List.take_append_drop index text
  obtain ⟨lineStart, found, distance⟩ :=
    Source.exists_lineStart_append (text.take index) (text.drop index)
  rw [whole, ← begins.position_eq] at found
  rw [← begins.position_eq, List.length_take, Nat.min_eq_left (Nat.le_of_lt within)] at distance
  have positive := Position.after_start_pos (text.take index)
  have lines := Position.line_after_start (text.take index)
  have fewer : (text.take index).count '\n' ≤ text.count '\n' :=
    (List.take_sublist index text).count_le '\n'
  rw [← begins.position_eq] at positive lines
  have same : lineStart + (part.position.column - 1) = index := by omega
  refine ⟨positive.1, by omega, positive.2, lineStart, found, ?_, token, member, part, isPart, ?_⟩
  · omega
  · rw [same]
    exact begins

/-! ### The end of the text -/

namespace Ending

variable {holds : Position → Prop}

structure Everywhere (holds : Position → Prop) (ending : Ending) : Prop where
  blocks : ∀ block ∈ ending.blocks, holds block.1
  comment : ∀ placed, ending.comment = some placed → holds placed.1

theorem everywhere_empty : empty.Everywhere holds :=
  ⟨nofun, nofun⟩

mutual

theorem ofToken_everywhere (token : Token)
    (all : token.Everywhere (fun part => holds part.position)) :
    (ofToken token).Everywhere holds :=
  match token with
  | .leaf position leaf => by
      cases leaf with
      | comment body =>
          refine ⟨nofun, ?_⟩
          intro placed same
          cases same
          exact all.here
      | _ => exact everywhere_empty
  | .block position opener content => by
      have inner := ofTokens_everywhere content
        (fun token member part isPart => all part (.inside member isPart))
      refine ⟨?_, inner.comment⟩
      intro block member
      rcases List.mem_append.mp member with deeper | outermost
      · exact inner.blocks block deeper
      · cases List.mem_singleton.mp outermost
        exact all.here

theorem ofTokens_everywhere (tokens : List Token)
    (all : ∀ token ∈ tokens, token.Everywhere (fun part => holds part.position)) :
    (ofTokens tokens).Everywhere holds :=
  match tokens with
  | [] => everywhere_empty
  | [token] => ofToken_everywhere token (all token List.mem_cons_self)
  | first :: token :: others =>
      ofTokens_everywhere (token :: others)
        (fun other member => all other (List.mem_cons_of_mem first member))

end

theorem holds_of_openBlock? (label : Option Text) (reversed tail : Text)
    (blocks : List (Position × Bracket)) (fault : Fault)
    (seen : openBlock? label reversed tail blocks = some fault)
    (all : ∀ block ∈ blocks, holds block.1) : holds fault.position := by
  induction blocks generalizing tail with
  | nil => cases seen
  | cons block outer ih =>
      obtain ⟨here, others⟩ := List.forall_mem_cons.mp all
      rw [openBlock?] at seen
      split at seen
      · exact ih _ seen others
      · cases seen
        exact here

theorem Everywhere.of_fault? {ending : Ending} (all : ending.Everywhere holds) (text : Text)
    (label : Option Text) (fault : Fault) (seen : ending.fault? text label = some fault) :
    holds fault.position := by
  unfold fault? at seen
  cases comment : ending.comment with
  | none =>
      rw [comment] at seen
      exact holds_of_openBlock? label _ _ _ fault seen all.blocks
  | some placed =>
      rw [comment] at seen
      dsimp only at seen
      split at seen
      · exact holds_of_openBlock? label _ _ _ fault seen all.blocks
      · cases seen
        exact all.comment placed comment

end Ending

/-! ### The rules -/

namespace Reading

theorem isTokenPlace_of_fault? (text : Text) (label : Option Text) (fault : Fault)
    (seen : (Ending.ofText text).fault? text label = some fault) :
    IsTokenPlace text fault.position := by
  have all : (Ending.ofText text).Everywhere (IsTokenPlace text) := by
    apply Ending.ofTokens_everywhere
    intro token member part isPart
    exact ⟨token, member, part, isPart, rfl⟩
  exact all.of_fault? text label fault seen

theorem standsAmong_of_checkTokens (label : Option Text) (tokens : List Token) (fault : Fault)
    (refused : checkTokens label tokens = .error fault) : StandsAmong tokens fault.position := by
  obtain ⟨token, member, error, position, found, rfl⟩ :=
    checkTokens_error label tokens fault refused
  refine ⟨token, member, ?_⟩
  unfold Token.error? at found
  split at found
  · cases found
    rfl
  · cases found

theorem standsAmong_of_declarations (source : Source) (label : Option Text) (body : List Token)
    (fault : Fault) (refused : declarations source label (items body) = .error fault) :
    StandsAmong body fault.position := by
  rcases declarations_error source label (items body) fault refused with
    ⟨error, position, member, rfl⟩ | ⟨name, value, member, bad⟩
  · exact items_areOf body _ member
  · obtain ⟨_, inside⟩ := items_areOf body _ member
    obtain ⟨token, here, same⟩ := standsAmong_of_checkTokens label value fault bad
    exact ⟨token, inside here, same⟩

/-- A fault in a construct has the place of one of the tokens or of one in a block among them. -/
theorem standsAmong_of_rule (source : Source) (label : Option Text) (tokens : List Token)
    (construct : Construct) (isOf : construct.IsOf tokens) (fault : Fault)
    (refused : rule source label construct = .error fault) :
    StandsAmong tokens fault.position ∨
      ∃ block ∈ tokens, ∃ body, block.curlyContent? = some body ∧
        StandsAmong body fault.position := by
  rcases rule_error source label construct fault refused with
    ⟨position, rfl, rfl⟩ | ⟨prelude, found, bad⟩ | ⟨position, prelude, body, rfl, rfl⟩ |
      ⟨body, found, bad⟩
  · exact Or.inl isOf
  · obtain ⟨token, member, same⟩ := standsAmong_of_checkTokens label prelude fault bad
    exact Or.inl ⟨token, isOf.prelude_subset found member, same⟩
  · exact Or.inl isOf.1
  · obtain ⟨block, member, curly⟩ := isOf.exists_block found
    exact Or.inr
      ⟨block, member, body, curly, standsAmong_of_declarations source label body fault bad⟩

theorem isTokenPlace_of_rulesIn (text : Text) (label : Option Text) (fault : Fault)
    (refused : rulesIn text label = .error fault) : IsTokenPlace text fault.position := by
  obtain ⟨construct, member, bad⟩ := rules_error _ label _ fault refused
  have isOf := constructs_areOf _ construct member
  have places := isTokenPlace_of_mem text
  rcases standsAmong_of_rule _ label _ construct isOf fault bad with
    ⟨token, here, same⟩ | ⟨block, here, body, curly, token, inside, same⟩
  · rw [← same]
    exact (places token here).here
  · rw [← same]
    exact (places block here).of_mem_curlyContent curly inside

end Reading

namespace Stylesheet

/-- The line and the column of a diagnostic are known, and they lead to the first character of a
token, wherever the fault was found. -/
theorem read_fault_pointsInto (text : Text) (label : Option Text) (fault : Fault)
    (refused : read text label = .error (.fault fault)) :
    fault.diagnostic.line = some (fault.position.line : Int) ∧
      fault.diagnostic.column = some (fault.position.column : Int) ∧
      fault.position.PointsInto (Source.normalize text) := by
  refine ⟨rfl, rfl, ?_⟩
  obtain ⟨_, found⟩ := (read_eq_fault_iff text label fault).mp refused
  apply IsTokenPlace.pointsInto
  rcases found with seen | ⟨_, later⟩
  · exact Reading.isTokenPlace_of_fault? _ label fault seen
  · exact Reading.isTokenPlace_of_rulesIn _ label fault later

/-- A comment that goes over a line end stands in front of the bracket. -/
theorem read_fault_pointsInto_behind_comment :
    read ['/', '*', '\r', '\n', '*', '/', '}'] none =
        .error (.fault ⟨.blockMissing, ⟨2, 3⟩, none⟩) ∧
      Position.PointsInto ['/', '*', '\n', '*', '/', '}'] ⟨2, 3⟩ := by
  have refused : read ['/', '*', '\r', '\n', '*', '/', '}'] none =
      .error (.fault ⟨.blockMissing, ⟨2, 3⟩, none⟩) := rfl
  exact ⟨refused, (read_fault_pointsInto _ none _ refused).2.2⟩

end Stylesheet

end SheetCensus
