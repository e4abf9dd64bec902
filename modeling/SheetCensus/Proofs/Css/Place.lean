import SheetCensus.Proofs.Css.Comments
import SheetCensus.Proofs.Css.Origin
import SheetCensus.Proofs.Source.Offset

set_option autoImplicit false

/-! Where tokens begin. The table of line starts leads from the place of a token, at any depth, to
the index at which cutting comes to its lexeme (`beginsAt_of_mem`). Taking the comments out moves
no other token (`isTokenPlace_of_mem`). -/

namespace SheetCensus.Css

theorem Token.IsFrom.position_eq {token : Token} {placed : Position × Lexeme}
    (isFrom : token.IsFrom placed) : token.position = placed.1 := by
  cases isFrom <;> rfl

/-- Cutting the text comes to the index, and the lexeme that begins there leaves the token. -/
def Token.BeginsAt (text : Text) (index : Nat) (token : Token) : Prop :=
  ∃ c rest, IsCut text (text.take index) (c :: rest) ∧
    token.IsFrom (Position.start.after (text.take index), (Lexeme.scan c rest).1)

theorem Token.BeginsAt.lt_length {text : Text} {index : Nat} {token : Token}
    (begins : token.BeginsAt text index) : index < text.length := by
  obtain ⟨c, rest, cut, _⟩ := begins
  have whole := congrArg List.length cut.text_eq
  rw [List.length_append, List.length_take, List.length_cons] at whole
  omega

theorem Token.BeginsAt.position_eq {text : Text} {index : Nat} {token : Token}
    (begins : token.BeginsAt text index) :
    token.position = Position.start.after (text.take index) := by
  obtain ⟨_, _, _, isFrom⟩ := begins
  exact isFrom.position_eq

/-- Every token of a tree of lexemes of the text begins at the index that its place leads to. -/
theorem beginsAt_of_subset (text : Text) (kept : List (Position × Lexeme))
    (inside : kept ⊆ lexemes text) (token : Token) (member : token ∈ nest kept) :
    token.Everywhere (fun part =>
      part.BeginsAt text ((Source.ofNormalized text).offset part.position)) := by
  refine nest_everywhere kept ?_ token member
  intro placed found part isFrom
  obtain ⟨read, c, rest, cut, rfl⟩ := exists_cut_of_mem_lexemes text placed (inside found)
  have whole := cut.text_eq
  have offset : (Source.ofNormalized text).offset part.position = read.length := by
    rw [isFrom.position_eq, whole]
    exact Source.offset_after read (c :: rest)
  have front : text.take read.length = read := by
    rw [whole, List.take_left]
  rw [offset]
  refine ⟨c, rest, ?_, ?_⟩
  · rw [front]
    exact cut
  · rw [front]
    exact isFrom

theorem beginsAt_of_mem (text : Text) (token : Token) (member : token ∈ nest (lexemes text)) :
    token.Everywhere (fun part =>
      part.BeginsAt text ((Source.ofNormalized text).offset part.position)) :=
  beginsAt_of_subset text (lexemes text) (List.Subset.refl _) token member

/-! ### Tokens without comments -/

def IsTokenPlace (text : Text) (position : Position) : Prop :=
  ∃ token ∈ nest (lexemes text), ∃ part : Token, part.IsPart token ∧ part.position = position

mutual

theorem Token.exists_part_of_uncommented (token kept part : Token)
    (member : kept ∈ token.uncommented) (isPart : part.IsPart kept) :
    ∃ other : Token, other.IsPart token ∧ other.position = part.position :=
  match token with
  | .leaf position leaf => by
      have alone : kept = .leaf position leaf := by
        cases leaf with
        | comment body => exact absurd member List.not_mem_nil
        | _ => exact List.mem_singleton.mp member
      subst alone
      exact ⟨part, isPart, rfl⟩
  | .block position opener content => by
      cases List.mem_singleton.mp member
      cases isPart with
      | self => exact ⟨_, .self, rfl⟩
      | inside inner deeper =>
          obtain ⟨token, here, other, isPart, same⟩ :=
            exists_part_of_uncommented content _ part inner deeper
          exact ⟨other, .inside here isPart, same⟩

theorem exists_part_of_uncommented (tokens : List Token) (kept part : Token)
    (member : kept ∈ uncommented tokens) (isPart : part.IsPart kept) :
    ∃ token ∈ tokens, ∃ other : Token, other.IsPart token ∧ other.position = part.position :=
  match tokens with
  | [] => absurd member List.not_mem_nil
  | token :: rest => by
      rcases List.mem_append.mp member with first | later
      · exact ⟨token, List.mem_cons_self,
          Token.exists_part_of_uncommented token kept part first isPart⟩
      · obtain ⟨other, here, found⟩ := exists_part_of_uncommented rest kept part later isPart
        exact ⟨other, List.mem_cons_of_mem token here, found⟩

end

theorem isTokenPlace_of_mem (text : Text) (token : Token)
    (member : token ∈ nest (withoutComments (lexemes text))) :
    token.Everywhere (fun part => IsTokenPlace text part.position) := by
  intro part isPart
  rw [nest_withoutComments] at member
  exact exists_part_of_uncommented (nest (lexemes text)) token part member isPart

end SheetCensus.Css
