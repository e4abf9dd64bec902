import Mathlib.Data.List.Forall2
import SheetCensus.Css.Construct
import SheetCensus.Css.Item
import SheetCensus.Css.Nesting

set_option autoImplicit false

/-! Tokens that differ in their places only. Places that go together are given by a relation, which
may ask more of some kinds of token than of others. Nesting, the division into constructs and the
division into items look at no place, so what they make of like sequences is alike again
(`nest_alike`, `constructs_alike`, `items_alike`). -/

namespace SheetCensus.Css

def Kind.ofOpener : Opener → Kind
  | .bracket bracket => .block bracket
  | .function _ => .function

theorem Kind.ofToken_block (position : Position) (opener : Opener) (content : List Token) :
    Kind.ofToken (.block position opener content) = Kind.ofOpener opener := by
  cases opener <;> rfl

section

variable (same : Kind → Position → Position → Prop)

inductive Token.Alike : Token → Token → Prop
  | leaf {position other : Position} {leaf : Leaf}
      (together : same (Kind.ofLeaf leaf) position other) :
      Token.Alike (.leaf position leaf) (.leaf other leaf)
  | block {position other : Position} {opener : Opener} {content others : List Token}
      (together : same (Kind.ofOpener opener) position other)
      (inside : List.Forall₂ Token.Alike content others) :
      Token.Alike (.block position opener content) (.block other opener others)

abbrev AllAlike : List Token → List Token → Prop :=
  List.Forall₂ (Token.Alike same)

def Together (position other : Position) : Prop :=
  ∃ kind, same kind position other

end

variable {same : Kind → Position → Position → Prop}

namespace Token.Alike

variable {token other : Token} (alike : token.Alike same other)

include alike

theorem together : Together same token.position other.position := by
  cases alike with
  | leaf together => exact ⟨_, together⟩
  | block together _ => exact ⟨_, together⟩

theorem isLiteral_eq (spelling : Text) : other.isLiteral spelling = token.isLiteral spelling := by
  cases alike with
  | @leaf _ _ leaf _ => cases leaf <;> rfl
  | block _ _ => rfl

theorem isInsignificant_eq : other.isInsignificant = token.isInsignificant := by
  cases alike with
  | @leaf _ _ leaf _ => cases leaf <;> rfl
  | block _ _ => rfl

theorem kind_eq : Kind.ofToken other = Kind.ofToken token := by
  cases alike with
  | leaf _ => rfl
  | block _ _ => rw [Kind.ofToken_block, Kind.ofToken_block]

theorem curlyContent? : Option.Rel (AllAlike same) token.curlyContent? other.curlyContent? := by
  cases alike with
  | leaf _ => exact .none
  | @block _ _ opener _ _ _ inside =>
      cases opener with
      | function name => exact .none
      | bracket bracket =>
          cases bracket with
          | curly => exact .some inside
          | square => exact .none
          | round => exact .none

end Token.Alike

theorem AllAlike.reverse {tokens others : List Token} (alike : AllAlike same tokens others) :
    AllAlike same tokens.reverse others.reverse :=
  List.rel_reverse alike

/-! ### Nesting -/

def Lexeme.kinds : Lexeme → List Kind
  | .leaf found => [Kind.ofLeaf found]
  | .brokenOff found _ => [Kind.ofLeaf found, .error]
  | .comment _ _ => [.comment]
  | .opener begun => [Kind.ofOpener begun]
  | .closer _ => [.error]

def LexemeAlike (same : Kind → Position → Position → Prop) (placed other : Position × Lexeme) :
    Prop :=
  other.2 = placed.2 ∧ ∀ kind ∈ placed.2.kinds, same kind placed.1 other.1

structure Frame.Alike (same : Kind → Position → Position → Prop) (frame other : Frame) : Prop where
  together : same (Kind.ofOpener frame.opener) frame.position other.position
  opener_eq : other.opener = frame.opener
  before : AllAlike same frame.before other.before

structure Nest.Alike (same : Kind → Position → Position → Prop) (nest other : Nest) : Prop where
  frames : List.Forall₂ (Frame.Alike same) nest.frames other.frames
  recent : AllAlike same nest.recent other.recent

namespace Nest.Alike

variable {nest other : Nest} (alike : nest.Alike same other)

include alike

theorem push {token twin : Token} (more : token.Alike same twin) :
    (nest.push token).Alike same (other.push twin) :=
  ⟨alike.frames, .cons more alike.recent⟩

theorem shut {position place : Position} (bracket : Bracket)
    (together : same .error position place) :
    (nest.shut position bracket).Alike same (other.shut place bracket) := by
  have unmatched : (nest.push (.leaf position (.error (.unmatched bracket)))).Alike same
      (other.push (.leaf place (.error (.unmatched bracket)))) := alike.push (.leaf together)
  obtain ⟨frames, recent⟩ := nest
  obtain ⟨twins, others⟩ := other
  obtain ⟨framesAlike, recentAlike⟩ := alike
  cases framesAlike with
  | nil => exact unmatched
  | @cons frame twin outer more frameAlike outerAlike =>
      simp only [Nest.shut, frameAlike.opener_eq]
      split
      · exact ⟨outerAlike,
          .cons (.block frameAlike.together (AllAlike.reverse recentAlike)) frameAlike.before⟩
      · exact unmatched

theorem step {placed twin : Position × Lexeme} (more : LexemeAlike same placed twin) :
    (nest.step placed).Alike same (other.step twin) := by
  obtain ⟨position, lexeme⟩ := placed
  obtain ⟨place, twin⟩ := twin
  obtain ⟨equal, together⟩ := more
  change twin = lexeme at equal
  subst equal
  change ∀ kind ∈ twin.kinds, same kind position place at together
  have first {kind : Kind} {kinds : List Kind} (these : twin.kinds = kind :: kinds) :
      same kind position place := together kind (these ▸ List.mem_cons_self)
  cases twin with
  | leaf leaf => exact alike.push (.leaf (first rfl))
  | brokenOff leaf error =>
      have late : same .error position place :=
        together .error (List.mem_cons_of_mem _ List.mem_cons_self)
      exact (alike.push (.leaf (first rfl))).push (.leaf late)
  | comment body closed => exact alike.push (.leaf (first rfl))
  | opener opener => exact ⟨.cons ⟨first rfl, rfl, alike.recent⟩ alike.frames, .nil⟩
  | closer bracket => exact alike.shut bracket (first rfl)

end Nest.Alike

theorem Nest.Alike.foldl_step {lexemes others : List (Position × Lexeme)}
    (all : List.Forall₂ (LexemeAlike same) lexemes others) {nest other : Nest}
    (alike : nest.Alike same other) :
    (lexemes.foldl Nest.step nest).Alike same (others.foldl Nest.step other) := by
  induction all generalizing nest other with
  | nil => exact alike
  | cons first _ ih => exact ih (alike.step first)

theorem finish_alike {frames twins : List Frame}
    (framesAlike : List.Forall₂ (Frame.Alike same) frames twins)
    {recent others : List Token} (alike : AllAlike same recent others) :
    AllAlike same (Nest.finish frames recent) (Nest.finish twins others) := by
  induction framesAlike generalizing recent others with
  | nil => exact alike.reverse
  | @cons frame twin _ _ first _ ih =>
      rw [Nest.finish, Nest.finish, first.opener_eq]
      exact ih (.cons (.block first.together alike.reverse) first.before)

theorem nest_alike {lexemes others : List (Position × Lexeme)}
    (all : List.Forall₂ (LexemeAlike same) lexemes others) :
    AllAlike same (nest lexemes) (nest others) := by
  have alike := Nest.Alike.foldl_step all (⟨.nil, .nil⟩ : Nest.empty.Alike same Nest.empty)
  exact finish_alike alike.frames alike.recent

theorem withoutComments_alike {lexemes others : List (Position × Lexeme)}
    (all : List.Forall₂ (LexemeAlike same) lexemes others) :
    List.Forall₂ (LexemeAlike same) (withoutComments lexemes) (withoutComments others) := by
  apply List.rel_filter _ all
  intro placed twin alike
  simp only [alike.1]

/-! ### Constructs -/

inductive Construct.Alike (same : Kind → Position → Position → Prop) :
    Construct → Construct → Prop
  | atRule {position other : Position} {keyword : Text} {prelude preludeToo : List Token}
      {body bodyToo : Option (List Token)} (preludes : AllAlike same prelude preludeToo)
      (bodies : Option.Rel (AllAlike same) body bodyToo) :
      Construct.Alike same (.atRule position keyword prelude body)
        (.atRule other keyword preludeToo bodyToo)
  | styleRule {position other : Position} {prelude preludeToo body bodyToo : List Token}
      (together : Together same position other) (preludes : AllAlike same prelude preludeToo)
      (bodies : AllAlike same body bodyToo) :
      Construct.Alike same (.styleRule position prelude body) (.styleRule other preludeToo bodyToo)
  | unfinished {position other : Position} (together : Together same position other) :
      Construct.Alike same (.unfinished position) (.unfinished other)

inductive Beginning.Alike (same : Kind → Position → Position → Prop) :
    Beginning → Beginning → Prop
  | atRule {position other : Position} {keyword : Text} :
      Beginning.Alike same (.atRule position keyword) (.atRule other keyword)
  | styleRule {position other : Position} (together : Together same position other) :
      Beginning.Alike same (.styleRule position) (.styleRule other)

namespace Construct

theorem isBetween_eq {token twin : Token} (alike : token.Alike same twin) :
    isBetween twin = isBetween token := by
  simp only [isBetween, alike.isInsignificant_eq, alike.isLiteral_eq]

theorem endsAtSemicolon_eq {begun twin : Beginning} (alike : begun.Alike same twin) :
    endsAtSemicolon twin = endsAtSemicolon begun := by
  cases alike <;> rfl

theorem ofBlock_alike {begun twin : Beginning} (alike : begun.Alike same twin)
    {prelude preludeToo body bodyToo : List Token} (preludes : AllAlike same prelude preludeToo)
    (bodies : AllAlike same body bodyToo) :
    (ofBlock begun prelude body).Alike same (ofBlock twin preludeToo bodyToo) := by
  cases alike with
  | atRule => exact .atRule preludes (.some bodies)
  | styleRule together => exact .styleRule together preludes bodies

theorem ofEnd_alike {begun twin : Beginning} (alike : begun.Alike same twin)
    {recent others : List Token} (recentAlike : AllAlike same recent others) :
    (ofEnd begun recent).Alike same (ofEnd twin others) := by
  cases alike with
  | atRule => exact .atRule recentAlike.reverse .none
  | styleRule together =>
      cases recentAlike with
      | nil => exact .unfinished together
      | cons first _ => exact .unfinished first.together

theorem beginning_alike {token twin : Token} (alike : token.Alike same twin) :
    (beginning token).1.Alike same (beginning twin).1 ∧
      AllAlike same (beginning token).2 (beginning twin).2 := by
  have whole := alike
  cases alike with
  | @leaf position other leaf together =>
      cases leaf with
      | atKeyword name => exact ⟨.atRule, .nil⟩
      | _ => exact ⟨.styleRule ⟨_, together⟩, .cons whole .nil⟩
  | block together _ => exact ⟨.styleRule ⟨_, together⟩, .cons whole .nil⟩

def StateAlike (same : Kind → Position → Position → Prop)
    (state twin : Beginning × List Token) : Prop :=
  state.1.Alike same twin.1 ∧ AllAlike same state.2 twin.2

theorem listAfter_alike {tokens others : List Token} (all : AllAlike same tokens others)
    {state twin : Option (Beginning × List Token)}
    (begun : Option.Rel (StateAlike same) state twin) :
    List.Forall₂ (Construct.Alike same) (listAfter state tokens) (listAfter twin others) := by
  unfold AllAlike at all
  induction all generalizing state twin with
  | nil =>
      cases begun with
      | none => exact .nil
      | some alike => exact .cons (ofEnd_alike alike.1 alike.2) .nil
  | @cons token twinToken rest others first _ ih =>
      have content := first.curlyContent?
      unfold listAfter
      cases begun with
      | none =>
          dsimp only
          rw [isBetween_eq first]
          generalize token.curlyContent? = found, twinToken.curlyContent? = foundToo at content ⊢
          cases content with
          | none =>
              dsimp only
              split
              · exact ih .none
              · exact ih (.some (beginning_alike first))
          | some bodies => exact .cons (.styleRule first.together .nil bodies) (ih .none)
      | @some state twin alike =>
          obtain ⟨begun, recent⟩ := state
          obtain ⟨begunToo, recentToo⟩ := twin
          obtain ⟨begunAlike, recentAlike⟩ := alike
          dsimp only at begunAlike recentAlike ⊢
          rw [endsAtSemicolon_eq begunAlike, first.isLiteral_eq]
          generalize token.curlyContent? = found, twinToken.curlyContent? = foundToo at content ⊢
          cases content with
          | none =>
              dsimp only
              split
              · exact .cons (ofEnd_alike begunAlike recentAlike) (ih .none)
              · exact ih (.some ⟨begunAlike, .cons first recentAlike⟩)
          | some bodies =>
              exact .cons (ofBlock_alike begunAlike recentAlike.reverse bodies) (ih .none)

end Construct

theorem constructs_alike {tokens others : List Token} (all : AllAlike same tokens others) :
    List.Forall₂ (Construct.Alike same) (constructs tokens) (constructs others) :=
  Construct.listAfter_alike all .none

/-! ### Items -/

inductive Item.Alike (same : Kind → Position → Position → Prop) : Item → Item → Prop
  | declaration {name : Text} {value valueToo : List Token}
      (values : AllAlike same value valueToo) :
      Item.Alike same (.declaration name value) (.declaration name valueToo)
  | atRule : Item.Alike same .atRule .atRule
  | faulty {error : ItemError} {position other : Position}
      (together : Together same position other) :
      Item.Alike same (.faulty error position) (.faulty error other)

inductive Importance.Alike (same : Kind → Position → Position → Prop) :
    Importance → Importance → Prop
  | none : Importance.Alike same .none .none
  | marked {before beforeToo : List Token} (alike : AllAlike same before beforeToo) :
      Importance.Alike same (.marked before) (.marked beforeToo)
  | complete {before beforeToo : List Token} (alike : AllAlike same before beforeToo) :
      Importance.Alike same (.complete before) (.complete beforeToo)

structure ValueState.Alike (same : Kind → Position → Position → Prop) (state twin : ValueState) :
    Prop where
  recent : AllAlike same state.recent twin.recent
  importance : state.importance.Alike same twin.importance
  hasPart_eq : twin.hasPart = state.hasPart
  hasLateBlock_eq : twin.hasLateBlock = state.hasLateBlock

namespace ValueState

theorem isImportantWord_eq {token twin : Token} (alike : token.Alike same twin) :
    isImportantWord twin = isImportantWord token := by
  cases alike with
  | @leaf _ _ leaf _ => cases leaf <;> rfl
  | block _ _ => rfl

theorem addPart_alike {state twin : ValueState} (alike : state.Alike same twin)
    {token other : Token} (more : token.Alike same other) :
    (state.addPart token).Alike same (twin.addPart other) where
  recent := .cons more alike.recent
  importance := .none
  hasPart_eq := rfl
  hasLateBlock_eq := by
    have content := more.curlyContent?
    simp only [addPart, alike.hasPart_eq, alike.hasLateBlock_eq]
    generalize token.curlyContent? = found, other.curlyContent? = foundToo at content ⊢
    cases content <;> rfl

theorem step_alike {state twin : ValueState} (alike : state.Alike same twin)
    {token other : Token} (more : token.Alike same other) :
    (state.step token).Alike same (twin.step other) := by
  have part := addPart_alike alike more
  have keep {mark twinMark : Importance} (marks : mark.Alike same twinMark) :
      ({ state with recent := token :: state.recent, importance := mark } : ValueState).Alike same
        { twin with recent := other :: twin.recent, importance := twinMark } :=
    ⟨.cons more alike.recent, marks, alike.hasPart_eq, alike.hasLateBlock_eq⟩
  obtain ⟨recent, importance, hasPart, hasLateBlock⟩ := state
  obtain ⟨recentToo, importanceToo, hasPartToo, hasLateBlockToo⟩ := twin
  have recents : AllAlike same recent recentToo := alike.recent
  have marks : importance.Alike same importanceToo := alike.importance
  unfold step
  rw [more.isLiteral_eq, more.isInsignificant_eq, isImportantWord_eq more]
  cases marks with
  | none =>
      dsimp only
      split
      · exact keep (.marked recents)
      · split
        · exact keep .none
        · exact part
  | marked before =>
      dsimp only
      split
      · exact keep (.complete before)
      · split
        · exact keep (.marked before)
        · exact part
  | complete before =>
      dsimp only
      split
      · exact keep (.complete before)
      · exact part

theorem foldl_step_alike {tokens others : List Token} (all : AllAlike same tokens others)
    {state twin : ValueState} (alike : state.Alike same twin) :
    (tokens.foldl step state).Alike same (others.foldl step twin) := by
  unfold AllAlike at all
  induction all generalizing state twin with
  | nil => exact alike
  | cons first _ ih => exact ih (step_alike alike first)

theorem tokens_alike {state twin : ValueState} (alike : state.Alike same twin) :
    AllAlike same state.tokens twin.tokens := by
  obtain ⟨recent, importance, hasPart, hasLateBlock⟩ := state
  obtain ⟨recentToo, importanceToo, hasPartToo, hasLateBlockToo⟩ := twin
  have recents : AllAlike same recent recentToo := alike.recent
  have marks : importance.Alike same importanceToo := alike.importance
  cases marks with
  | none => exact recents.reverse
  | marked _ => exact recents.reverse
  | complete before => exact before.reverse

end ValueState

namespace Item

theorem ofValue_alike (name : Text) {colon place : Position} (together : Together same colon place)
    {value valueToo : List Token} (values : AllAlike same value valueToo) :
    (ofValue name colon value).Alike same (ofValue name place valueToo) := by
  have start : ValueState.empty.Alike same ValueState.empty := ⟨.nil, .none, rfl, rfl⟩
  have alike := ValueState.foldl_step_alike values start
  unfold ofValue
  dsimp only
  rw [alike.hasLateBlock_eq]
  split
  · exact .faulty together
  · exact .declaration (ValueState.tokens_alike alike)

theorem dropWhile_alike {tokens others : List Token} (all : AllAlike same tokens others) :
    AllAlike same (tokens.dropWhile Token.isInsignificant)
      (others.dropWhile Token.isInsignificant) := by
  unfold AllAlike at all
  induction all with
  | nil => exact .nil
  | @cons token twin rest others first alike ih =>
      rw [List.dropWhile_cons, List.dropWhile_cons, first.isInsignificant_eq]
      split
      · exact ih
      · exact .cons first alike

theorem ofTokens_alike {first twin : Token} (alike : first.Alike same twin)
    {tokens others : List Token} (all : AllAlike same tokens others) :
    (ofTokens first tokens).Alike same (ofTokens twin others) := by
  have faulty : (Item.faulty (.nameExpected (Kind.ofToken first)) first.position).Alike same
      (.faulty (.nameExpected (Kind.ofToken twin)) twin.position) := by
    rw [alike.kind_eq]
    exact .faulty alike.together
  cases alike with
  | @leaf position other leaf together =>
      cases leaf with
      | ident name =>
          have behind := dropWhile_alike all
          unfold ofTokens
          dsimp only
          generalize tokens.dropWhile Token.isInsignificant = left,
            others.dropWhile Token.isInsignificant = leftToo at behind ⊢
          cases behind with
          | nil => exact .faulty ⟨_, together⟩
          | cons colon values =>
              dsimp only
              rw [colon.isLiteral_eq]
              split
              · exact ofValue_alike name colon.together values
              · exact .faulty colon.together
      | _ => exact faulty
  | block _ _ => exact faulty

inductive BegunAlike (same : Kind → Position → Position → Prop) : Begun → Begun → Prop
  | atRule : BegunAlike same .atRule .atRule
  | declaration {first twin : Token} {recent recentToo : List Token}
      (firsts : first.Alike same twin) (recents : AllAlike same recent recentToo) :
      BegunAlike same (.declaration first recent) (.declaration twin recentToo)

theorem ofBegun_alike {begun twin : Begun} (alike : BegunAlike same begun twin) :
    (ofBegun begun).Alike same (ofBegun twin) := by
  cases alike with
  | atRule => exact .atRule
  | declaration firsts recents => exact ofTokens_alike firsts recents.reverse

theorem begin_alike {token twin : Token} (alike : token.Alike same twin) :
    BegunAlike same (begin token) (begin twin) := by
  have whole := alike
  cases alike with
  | @leaf position other leaf together =>
      cases leaf with
      | atKeyword name => exact .atRule
      | _ => exact .declaration whole .nil
  | block _ _ => exact .declaration whole .nil

theorem listAfter_alike {tokens others : List Token} (all : AllAlike same tokens others)
    {begun twin : Option Begun} (alike : Option.Rel (BegunAlike same) begun twin) :
    List.Forall₂ (Item.Alike same) (listAfter begun tokens) (listAfter twin others) := by
  unfold AllAlike at all
  induction all generalizing begun twin with
  | nil =>
      cases alike with
      | none => exact .nil
      | some begunAlike => exact .cons (ofBegun_alike begunAlike) .nil
  | @cons token twinToken rest others first _ ih =>
      unfold listAfter
      cases alike with
      | none =>
          dsimp only
          rw [first.isInsignificant_eq, first.isLiteral_eq]
          split
          · exact ih .none
          · exact ih (.some (begin_alike first))
      | some begunAlike =>
          dsimp only
          rw [first.isLiteral_eq]
          split
          · exact .cons (ofBegun_alike begunAlike) (ih .none)
          · cases begunAlike with
            | atRule =>
                have content := first.curlyContent?
                dsimp only
                generalize token.curlyContent? = found, twinToken.curlyContent? = foundToo
                  at content ⊢
                cases content with
                | none => exact ih (.some .atRule)
                | some _ => exact .cons .atRule (ih .none)
            | declaration firsts recents =>
                exact ih (.some (.declaration firsts (.cons first recents)))

end Item

theorem items_alike {tokens others : List Token} (all : AllAlike same tokens others) :
    List.Forall₂ (Item.Alike same) (items tokens) (items others) :=
  Item.listAfter_alike all .none

end SheetCensus.Css
