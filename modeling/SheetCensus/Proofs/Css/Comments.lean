import SheetCensus.Proofs.Css.Cutting

set_option autoImplicit false

/-! Comments taken out. They open nothing and close nothing, so it is the same to leave them out
before nesting and to take them out of the nested tokens, at every depth
(`ofLexemes_withoutComments`). -/

namespace SheetCensus.Css

mutual

/-- The token without the comments in it, if it is no comment itself. -/
def Token.uncommented : Token → List Token
  | .leaf _ (.comment _) => []
  | .leaf position leaf => [.leaf position leaf]
  | .block position opener content => [.block position opener (uncommented content)]

def uncommented : List Token → List Token
  | [] => []
  | token :: rest => token.uncommented ++ uncommented rest

end

theorem uncommented_append (front back : List Token) :
    uncommented (front ++ back) = uncommented front ++ uncommented back := by
  induction front with
  | nil => rfl
  | cons token rest ih => rw [List.cons_append, uncommented, uncommented, ih, List.append_assoc]

theorem Token.uncommented_reverse (token : Token) :
    token.uncommented.reverse = token.uncommented := by
  cases token with
  | leaf position leaf => cases leaf <;> rfl
  | block position opener content => rfl

theorem uncommented_reverse (tokens : List Token) :
    uncommented tokens.reverse = (uncommented tokens).reverse := by
  induction tokens with
  | nil => rfl
  | cons token rest ih =>
      have alone : uncommented [token] = token.uncommented := List.append_nil _
      rw [List.reverse_cons, uncommented_append, alone, ih, uncommented, List.reverse_append,
        token.uncommented_reverse]

/-- A lexeme that cutting can find: a comment is none of the leaves. -/
def Lexeme.IsProper : Lexeme → Prop
  | .leaf (.comment _) => False
  | .brokenOff (.comment _) _ => False
  | _ => True

theorem Lexeme.isProper_of_mem (text : Text) (piece : Piece) (member : piece ∈ pieces text) :
    piece.lexeme.IsProper := by
  obtain ⟨_, c, rest, _, rfl⟩ := isCut_of_mem text piece member
  rcases Piece.first_cases c rest with plain | ⟨body, same⟩ | ⟨body, _, _, same⟩ |
    ⟨bracket, same⟩ | ⟨bracket, same⟩
  · generalize (Piece.first c rest).lexeme = lexeme at plain ⊢
    cases lexeme with
    | leaf leaf => cases leaf <;> exact plain
    | brokenOff leaf error => cases leaf <;> exact plain
    | _ => trivial
  · rw [same]
    trivial
  · rw [same]
    trivial
  · rw [same]
    trivial
  · rw [same]
    trivial

namespace Nest

def uncommented (nest : Nest) : Nest :=
  ⟨nest.frames.map (fun frame => { frame with before := Css.uncommented frame.before }),
    Css.uncommented nest.recent⟩

theorem uncommented_push (nest : Nest) (token : Token) (kept : token.uncommented = [token]) :
    (nest.push token).uncommented = nest.uncommented.push token := by
  unfold push uncommented
  rw [Css.uncommented, kept]
  rfl

theorem uncommented_shut (nest : Nest) (position : Position) (bracket : Bracket) :
    (nest.shut position bracket).uncommented = nest.uncommented.shut position bracket := by
  have unmatched := uncommented_push nest (.leaf position (.error (.unmatched bracket))) rfl
  obtain ⟨frames, recent⟩ := nest
  cases frames with
  | nil => exact unmatched
  | cons frame outer =>
      unfold shut
      by_cases fits : frame.opener.closedBy = bracket
      · simp only [uncommented, List.map_cons, if_pos fits, Css.uncommented, Token.uncommented,
          uncommented_reverse, List.singleton_append]
      · simp only [uncommented, List.map_cons, if_neg fits]
        exact unmatched

theorem uncommented_step (nest : Nest) (position : Position) (lexeme : Lexeme)
    (proper : lexeme.IsProper) :
    (nest.step (position, lexeme)).uncommented =
      if lexeme.isComment then nest.uncommented else nest.uncommented.step (position, lexeme) := by
  cases lexeme with
  | leaf leaf =>
      apply uncommented_push
      cases leaf with
      | comment body => cases proper
      | _ => rfl
  | brokenOff leaf error =>
      change ((nest.push _).push _).uncommented = (nest.uncommented.push _).push _
      rw [uncommented_push _ _ rfl, uncommented_push]
      cases leaf with
      | comment body => cases proper
      | _ => rfl
  | comment body closed => rfl
  | opener opener => rfl
  | closer bracket => exact uncommented_shut nest position bracket

/-- Comments taken out of the lexemes are taken out of the state that the lexemes lead to. -/
theorem uncommented_foldl_step (lexemes : List (Position × Lexeme))
    (proper : ∀ entry ∈ lexemes, entry.2.IsProper) (nest : Nest) :
    (lexemes.foldl step nest).uncommented =
      (withoutComments lexemes).foldl step nest.uncommented := by
  induction lexemes generalizing nest with
  | nil => rfl
  | cons entry rest ih =>
      obtain ⟨position, lexeme⟩ := entry
      obtain ⟨first, others⟩ := List.forall_mem_cons.mp proper
      have here := uncommented_step nest position lexeme first
      rw [List.foldl_cons, ih others, here]
      unfold withoutComments
      cases comment : lexeme.isComment with
      | true => simp [comment]
      | false => simp [comment]

theorem uncommented_finish (frames : List Frame) (recent : List Token) :
    (uncommented ⟨frames, recent⟩).tokens = Css.uncommented (finish frames recent) := by
  induction frames generalizing recent with
  | nil =>
      change (Css.uncommented recent).reverse = Css.uncommented recent.reverse
      rw [uncommented_reverse]
  | cons frame outer ih =>
      rw [finish, ← ih]
      simp only [tokens, uncommented, List.map_cons, finish, Css.uncommented, Token.uncommented,
        uncommented_reverse, List.singleton_append]

end Nest

/-- Nesting what is left without comments is nesting everything and taking the comments out. -/
theorem ofLexemes_withoutComments (text : Text) :
    Nest.ofLexemes (withoutComments (lexemes text)) =
      (Nest.ofLexemes (lexemes text)).uncommented := by
  have proper := (forall_mem_placed_iff Lexeme.IsProper .start (pieces text)).mpr
    (Lexeme.isProper_of_mem text)
  exact (Nest.uncommented_foldl_step (lexemes text) proper Nest.empty).symm

theorem nest_withoutComments (text : Text) :
    nest (withoutComments (lexemes text)) = uncommented (nest (lexemes text)) := by
  unfold nest
  rw [ofLexemes_withoutComments]
  exact Nest.uncommented_finish _ _

end SheetCensus.Css
