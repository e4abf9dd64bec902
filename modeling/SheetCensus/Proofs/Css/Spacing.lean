import Mathlib.Data.List.DropRight
import SheetCensus.Proofs.Css.Flattening

set_option autoImplicit false

/-! Tokens with their white space made even. -/

namespace SheetCensus.Css

mutual

def Token.spaced : Token → Token
  | .leaf position (.whitespace _) => .leaf position (.whitespace [' '])
  | .leaf position leaf => .leaf position leaf
  | .block position opener content => .block position opener (spacedAfter false content)

/-- The tokens with a single space for each run of white space. The first run is left out when the
tokens stand behind a space already. -/
def spacedAfter : Bool → List Token → List Token
  | _, [] => []
  | behindSpace, token :: rest =>
      if token.isWhitespace then
        if behindSpace then spacedAfter true rest else token.spaced :: spacedAfter true rest
      else token.spaced :: spacedAfter false rest

end

def withoutOuterSpace (tokens : List Token) : List Token :=
  (tokens.dropWhile Token.isWhitespace).rdropWhile Token.isWhitespace

/-! ### Lexemes -/

def Lexeme.isWhitespace : Lexeme → Bool
  | .leaf (.whitespace _) => true
  | _ => false

theorem Lexeme.exists_of_isWhitespace {lexeme : Lexeme} (space : lexeme.isWhitespace = true) :
    ∃ spelling, lexeme = .leaf (.whitespace spelling) := by
  unfold isWhitespace at space
  split at space
  · exact ⟨_, rfl⟩
  · cases space

def squeezeAfter : Bool → List Lexeme → List Lexeme
  | _, [] => []
  | behindSpace, lexeme :: others =>
      if lexeme.isWhitespace then
        if behindSpace then squeezeAfter true others
        else .leaf (.whitespace [' ']) :: squeezeAfter true others
      else lexeme :: squeezeAfter false others

theorem squeezeAfter_append (behindSpace : Bool) (front : List Lexeme) {lexeme : Lexeme}
    (solid : lexeme.isWhitespace = false) (back : List Lexeme) :
    squeezeAfter behindSpace (front ++ lexeme :: back) =
      squeezeAfter behindSpace front ++ lexeme :: squeezeAfter false back := by
  induction front generalizing behindSpace with
  | nil =>
      change (if lexeme.isWhitespace = true then _ else _) = _
      rw [solid, if_neg Bool.false_ne_true]
      rfl
  | cons other rest ih =>
      rw [List.cons_append, squeezeAfter, squeezeAfter, ih, ih]
      split
      · split <;> rfl
      · rfl

theorem Leaf.isWhitespace_lexeme (leaf : Leaf) (position : Position) :
    leaf.lexeme.isWhitespace = (Token.leaf position leaf).isWhitespace := by
  rcases leaf.lexeme_cases with same | ⟨bracket, rfl⟩
  · rw [same]
    cases leaf <;> rfl
  · rfl

mutual

theorem flat_spaced (token : Token) (solid : token.isWhitespace = false) (behindSpace : Bool)
    (rest : List Lexeme) :
    squeezeAfter behindSpace (token.flat ++ rest) =
      token.spaced.flat ++ squeezeAfter false rest := by
  cases token with
  | leaf position found =>
      have same : (Token.leaf position found).spaced = .leaf position found := by
        cases found with
        | whitespace spelling => cases solid
        | _ => rfl
      rw [same, Token.flat, List.singleton_append, squeezeAfter, found.isWhitespace_lexeme position,
        solid, if_neg Bool.false_ne_true]
      rfl
  | block position opener content =>
      have inside := flatAll_spacedAfter false content
      rw [Token.spaced, Token.flat, Token.flat, inside, List.cons_append, squeezeAfter]
      change Lexeme.opener opener :: squeezeAfter false
        (flatAll content ++ [.closer opener.closedBy] ++ rest) = _
      rw [List.append_assoc, List.singleton_append, squeezeAfter_append false _ rfl]
      simp

theorem flatAll_spacedAfter (behindSpace : Bool) (tokens : List Token) :
    flatAll (spacedAfter behindSpace tokens) = squeezeAfter behindSpace (flatAll tokens) := by
  cases tokens with
  | nil => rfl
  | cons token others =>
      unfold spacedAfter
      cases solid : token.isWhitespace with
      | false =>
          rw [if_neg Bool.false_ne_true, flatAll, flatAll, flat_spaced token solid,
            flatAll_spacedAfter false others]
      | true =>
          cases token with
          | block position opener content => cases solid
          | leaf position found =>
              cases found with
              | whitespace spelling =>
                  have later := flatAll_spacedAfter true others
                  cases behindSpace with
                  | true => exact later
                  | false => exact congrArg (Lexeme.leaf (.whitespace [' ']) :: ·) later
              | _ => cases solid

end

theorem mem_squeezeAfter {behindSpace : Bool} {lexemes : List Lexeme} {lexeme : Lexeme}
    (member : lexeme ∈ squeezeAfter behindSpace lexemes) :
    lexeme ∈ lexemes ∨ lexeme = .leaf (.whitespace [' ']) := by
  induction lexemes generalizing behindSpace with
  | nil => cases member
  | cons other rest ih =>
      have later {behindSpace : Bool} (within : lexeme ∈ squeezeAfter behindSpace rest) :
          lexeme ∈ other :: rest ∨ lexeme = .leaf (.whitespace [' ']) :=
        (ih within).imp (List.mem_cons_of_mem other) id
      rw [squeezeAfter] at member
      split at member
      · split at member
        · exact later member
        · rcases List.mem_cons.mp member with same | within
          · exact Or.inr same
          · exact later within
      · rcases List.mem_cons.mp member with rfl | within
        · exact Or.inl List.mem_cons_self
        · exact later within

/-! ### Brackets -/

theorem mem_spacedAfter {behindSpace : Bool} {tokens : List Token} {token : Token}
    (member : token ∈ spacedAfter behindSpace tokens) : ∃ other ∈ tokens, token = other.spaced := by
  induction tokens generalizing behindSpace with
  | nil => cases member
  | cons first rest ih =>
      have later {behindSpace : Bool} (within : token ∈ spacedAfter behindSpace rest) :
          ∃ other ∈ first :: rest, token = other.spaced := by
        obtain ⟨other, inside, same⟩ := ih within
        exact ⟨other, List.mem_cons_of_mem first inside, same⟩
      rw [spacedAfter] at member
      split at member
      · split at member
        · exact later member
        · rcases List.mem_cons.mp member with same | within
          · exact ⟨first, List.mem_cons_self, same⟩
          · exact later within
      · rcases List.mem_cons.mp member with same | within
        · exact ⟨first, List.mem_cons_self, same⟩
        · exact later within

theorem Token.exists_spaced_leaf (position : Position) (leaf : Leaf) :
    ∃ other, (Token.leaf position leaf).spaced = .leaf position other ∧
      ∀ error, other = .error error → leaf = .error error := by
  cases leaf with
  | whitespace spelling => exact ⟨_, rfl, nofun⟩
  | error found =>
      refine ⟨_, rfl, ?_⟩
      intro error same
      exact same
  | _ => exact ⟨_, rfl, nofun⟩

mutual

theorem Token.everywhere_isShutOnce_spaced (token : Token)
    (once : token.Everywhere Token.IsShutOnce) : token.spaced.Everywhere Token.IsShutOnce := by
  cases token with
  | leaf position leaf =>
      obtain ⟨other, same, _⟩ := Token.exists_spaced_leaf position leaf
      rw [same]
      exact Token.everywhere_leaf trivial
  | block position opener content =>
      rw [Token.spaced]
      apply Token.everywhere_block
      · intro place member
        obtain ⟨other, inside, same⟩ := mem_spacedAfter member
        cases other with
        | block position opener content => cases same
        | leaf place leaf =>
            obtain ⟨twin, written, kept⟩ := Token.exists_spaced_leaf place leaf
            rw [written] at same
            cases same
            rw [kept _ rfl] at inside
            exact once.here place inside
      · apply everywhere_isShutOnce_spacedAfter
        exact fun token member part isPart => once part (.inside member isPart)

theorem everywhere_isShutOnce_spacedAfter (behindSpace : Bool) (tokens : List Token)
    (once : ∀ token ∈ tokens, token.Everywhere Token.IsShutOnce) :
    ∀ token ∈ spacedAfter behindSpace tokens, token.Everywhere Token.IsShutOnce := by
  cases tokens with
  | nil => exact nofun
  | cons first rest =>
      obtain ⟨here, later⟩ := List.forall_mem_cons.mp once
      have first := first.everywhere_isShutOnce_spaced here
      have rest (behindSpace : Bool) := everywhere_isShutOnce_spacedAfter behindSpace rest later
      rw [spacedAfter]
      split
      · split
        · exact rest true
        · exact List.forall_mem_cons.mpr ⟨first, rest true⟩
      · exact List.forall_mem_cons.mpr ⟨first, rest false⟩

end

/-! ### White space at either end -/

theorem Token.isWhitespace_first (token : Token) :
    token.first.isWhitespace = token.isWhitespace := by
  cases token with
  | leaf position found => exact found.isWhitespace_lexeme position
  | block position opener content => rfl

theorem Token.isWhitespace_last (token : Token) : token.last.isWhitespace = token.isWhitespace := by
  cases token with
  | leaf position found => exact found.isWhitespace_lexeme position
  | block position opener content => rfl

/-- The tokens are those without outer white space between white space. -/
theorem exists_withoutOuterSpace (tokens : List Token) :
    ∃ front back, tokens = front ++ (withoutOuterSpace tokens ++ back) ∧
      (∀ token ∈ front, token.isWhitespace = true) ∧
        ∀ token ∈ back, token.isWhitespace = true := by
  refine ⟨tokens.takeWhile Token.isWhitespace,
    (tokens.dropWhile Token.isWhitespace).rtakeWhile Token.isWhitespace, ?_, ?_, ?_⟩
  · unfold withoutOuterSpace
    rw [List.rdropWhile_append_rtakeWhile, List.takeWhile_append_dropWhile]
  · exact fun _ member => List.mem_takeWhile_imp member
  · exact fun _ member => List.mem_rtakeWhile_imp member

theorem withoutOuterSpace_subset (tokens : List Token) : withoutOuterSpace tokens ⊆ tokens :=
  fun _ member => (List.dropWhile_suffix Token.isWhitespace).subset
    ((List.rdropWhile_prefix Token.isWhitespace _).subset member)

theorem flat_of_isWhitespace {token : Token} (space : token.isWhitespace = true) :
    ∃ lexeme, token.flat = [lexeme] ∧ lexeme.isWhitespace = true := by
  cases token with
  | leaf position found => exact ⟨_, rfl, (found.isWhitespace_lexeme position).trans space⟩
  | block position opener content => cases space

theorem isWhitespace_of_mem_flatAll {tokens : List Token}
    (spaces : ∀ token ∈ tokens, token.isWhitespace = true) :
    ∀ lexeme ∈ flatAll tokens, lexeme.isWhitespace = true := by
  induction tokens with
  | nil => exact fun _ absent => absurd absent List.not_mem_nil
  | cons token rest ih =>
      obtain ⟨here, later⟩ := List.forall_mem_cons.mp spaces
      obtain ⟨lexeme, flat, space⟩ := flat_of_isWhitespace here
      rw [flatAll, flat]
      exact List.forall_mem_cons.mpr ⟨space, ih later⟩

theorem head?_flatAll (token : Token) (others : List Token) :
    (flatAll (token :: others)).head? = some token.first := by
  cases token <;> rfl

theorem getLast?_flatAll (others : List Token) (token : Token) :
    (flatAll (others ++ [token])).getLast? = some token.last := by
  rw [flatAll_append, flatAll, flatAll, List.append_nil, List.getLast?_append, token.getLast?_flat]
  rfl

theorem solid_head_withoutOuterSpace (tokens : List Token) (lexeme : Lexeme)
    (first : (flatAll (withoutOuterSpace tokens)).head? = some lexeme) :
    lexeme.isWhitespace = false := by
  cases kept : withoutOuterSpace tokens with
  | nil =>
      rw [kept] at first
      cases first
  | cons token others =>
      rw [kept, head?_flatAll] at first
      cases first
      obtain ⟨back, whole⟩ := List.rdropWhile_prefix Token.isWhitespace
        (tokens.dropWhile Token.isWhitespace)
      change withoutOuterSpace tokens ++ back = _ at whole
      have stopped := List.head?_dropWhile_not Token.isWhitespace tokens
      rw [← whole, kept] at stopped
      rw [token.isWhitespace_first]
      exact stopped

theorem solid_last_withoutOuterSpace (tokens : List Token) (lexeme : Lexeme)
    (last : (flatAll (withoutOuterSpace tokens)).getLast? = some lexeme) :
    lexeme.isWhitespace = false := by
  by_cases none : withoutOuterSpace tokens = []
  · rw [none] at last
    cases last
  · have stopped : ¬ ((withoutOuterSpace tokens).getLast none).isWhitespace = true :=
      List.rdropWhile_last_not Token.isWhitespace _ none
    rw [← List.dropLast_concat_getLast none, getLast?_flatAll] at last
    cases last
    rw [Token.isWhitespace_last]
    exact Bool.not_eq_true _ ▸ stopped

end SheetCensus.Css
