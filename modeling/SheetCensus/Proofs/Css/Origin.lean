import SheetCensus.Css.Construct
import SheetCensus.Css.Item
import SheetCensus.Proofs.Css.Cutting

set_option autoImplicit false

/-! Where tokens come from. Nesting makes up no token: every token of the tree, at any depth, is one
that some lexeme leaves at its place, so it stands at a cut of the text (`standsIn_of_mem`).
Constructs and items hand the tokens on and make up none either (`constructs_areOf`,
`items_areOf`). -/

namespace SheetCensus.Css

/-! ### Parts of a token -/

inductive Token.IsPart (part : Token) : Token → Prop
  | self : Token.IsPart part part
  | inside {position : Position} {opener : Opener} {content : List Token} {token : Token}
      (member : token ∈ content) (deeper : Token.IsPart part token) :
      Token.IsPart part (.block position opener content)

def Token.Everywhere (holds : Token → Prop) (token : Token) : Prop :=
  ∀ part : Token, part.IsPart token → holds part

section

variable {holds : Token → Prop}

theorem Token.everywhere_leaf {position : Position} {leaf : Leaf}
    (here : holds (.leaf position leaf)) : (Token.leaf position leaf).Everywhere holds := by
  intro part isPart
  cases isPart
  exact here

theorem Token.everywhere_block {position : Position} {opener : Opener} {content : List Token}
    (here : holds (.block position opener content))
    (inside : ∀ token ∈ content, token.Everywhere holds) :
    (Token.block position opener content).Everywhere holds := by
  intro part isPart
  cases isPart with
  | self => exact here
  | inside member deeper => exact inside _ member part deeper

theorem Token.Everywhere.here {token : Token} (all : token.Everywhere holds) : holds token :=
  all token .self

theorem Token.Everywhere.of_mem_curlyContent {block : Token} {body : List Token}
    (all : block.Everywhere holds) (curly : block.curlyContent? = some body) {token : Token}
    (member : token ∈ body) : holds token := by
  unfold Token.curlyContent? at curly
  split at curly
  · cases curly
    exact all token (.inside member .self)
  · cases curly

/-! ### Nesting -/

/-- The token is one that the lexeme leaves at its place. A block is left by its opener, whatever
comes to stand in it. -/
inductive Token.IsFrom : Token → Position × Lexeme → Prop
  | leaf {position : Position} {leaf : Leaf} :
      Token.IsFrom (.leaf position leaf) (position, .leaf leaf)
  | brokenOff {position : Position} {leaf : Leaf} {error : LexError} :
      Token.IsFrom (.leaf position leaf) (position, .brokenOff leaf error)
  | breaking {position : Position} {leaf : Leaf} {error : LexError} :
      Token.IsFrom (.leaf position (.error error)) (position, .brokenOff leaf error)
  | comment {position : Position} {body : Text} {closed : Bool} :
      Token.IsFrom (.leaf position (.comment body)) (position, .comment body closed)
  | opener {position : Position} {opener : Opener} {content : List Token} :
      Token.IsFrom (.block position opener content) (position, .opener opener)
  | closer {position : Position} {bracket : Bracket} :
      Token.IsFrom (.leaf position (.error (.unmatched bracket))) (position, .closer bracket)

/-- Something holds of all finished tokens, and of all blocks that are still open. -/
structure Nest.Everywhere (holds : Token → Prop) (nest : Nest) : Prop where
  recent : ∀ token ∈ nest.recent, token.Everywhere holds
  before : ∀ frame ∈ nest.frames, ∀ token ∈ frame.before, token.Everywhere holds
  opened : ∀ frame ∈ nest.frames, ∀ content, holds (.block frame.position frame.opener content)

namespace Nest

theorem Everywhere.push {nest : Nest} (all : nest.Everywhere holds) {token : Token}
    (here : token.Everywhere holds) : (nest.push token).Everywhere holds :=
  ⟨List.forall_mem_cons.mpr ⟨here, all.recent⟩, all.before, all.opened⟩

theorem Everywhere.close {frame : Frame} {outer : List Frame} {recent : List Token}
    (all : Everywhere holds ⟨frame :: outer, recent⟩) :
    Everywhere holds
      ⟨outer, .block frame.position frame.opener recent.reverse :: frame.before⟩ := by
  obtain ⟨inside, before, opened⟩ := all
  obtain ⟨beforeFirst, beforeOthers⟩ := List.forall_mem_cons.mp before
  obtain ⟨openedFirst, openedOthers⟩ := List.forall_mem_cons.mp opened
  refine ⟨List.forall_mem_cons.mpr ⟨?_, beforeFirst⟩, beforeOthers, openedOthers⟩
  apply Token.everywhere_block (openedFirst recent.reverse)
  intro token member
  exact inside token (List.mem_reverse.mp member)

theorem Everywhere.step {nest : Nest} (all : nest.Everywhere holds) {placed : Position × Lexeme}
    (each : ∀ token : Token, token.IsFrom placed → holds token) :
    (nest.step placed).Everywhere holds := by
  obtain ⟨position, lexeme⟩ := placed
  cases lexeme with
  | leaf leaf => exact all.push (Token.everywhere_leaf (each _ .leaf))
  | brokenOff leaf error =>
      exact (all.push (Token.everywhere_leaf (each _ .brokenOff))).push
        (Token.everywhere_leaf (each _ .breaking))
  | comment body closed => exact all.push (Token.everywhere_leaf (each _ .comment))
  | opener opener =>
      refine ⟨fun _ absent => absurd absent List.not_mem_nil, ?_, ?_⟩
      · exact List.forall_mem_cons.mpr ⟨all.recent, all.before⟩
      · exact List.forall_mem_cons.mpr ⟨fun _ => each _ .opener, all.opened⟩
  | closer bracket =>
      have unmatched := all.push (Token.everywhere_leaf (each _ .closer))
      obtain ⟨frames, recent⟩ := nest
      change (shut ⟨frames, recent⟩ position bracket).Everywhere holds
      cases frames with
      | nil => exact unmatched
      | cons frame outer =>
          unfold shut
          dsimp only
          split
          · exact all.close
          · exact unmatched

theorem Everywhere.finish {frames : List Frame} {recent : List Token}
    (all : Everywhere holds ⟨frames, recent⟩) :
    ∀ token ∈ finish frames recent, token.Everywhere holds := by
  induction frames generalizing recent with
  | nil =>
      intro token member
      exact all.recent token (List.mem_reverse.mp member)
  | cons frame outer ih => exact ih all.close

end Nest

/-- What holds of every token that a lexeme leaves holds everywhere in the tree of the lexemes. -/
theorem nest_everywhere (lexemes : List (Position × Lexeme))
    (each : ∀ placed ∈ lexemes, ∀ token : Token, token.IsFrom placed → holds token) :
    ∀ token ∈ nest lexemes, token.Everywhere holds := by
  have run (nest : Nest) (all : nest.Everywhere holds) :
      (lexemes.foldl Nest.step nest).Everywhere holds := by
    induction lexemes generalizing nest with
    | nil => exact all
    | cons placed rest ih =>
        obtain ⟨first, later⟩ := List.forall_mem_cons.mp each
        exact ih later _ (all.step first)
  have start : Nest.empty.Everywhere holds := ⟨nofun, nofun, nofun⟩
  exact (run Nest.empty start).finish

end

theorem exists_cut_of_mem_lexemes (text : Text) (placed : Position × Lexeme)
    (member : placed ∈ lexemes text) :
    ∃ read c rest, IsCut text read (c :: rest) ∧
      placed = (Position.start.after read, (Lexeme.scan c rest).1) := by
  have fromCut : placed ∈ Css.placed (Position.start.after []) (pieces text) →
      ∃ read c rest, IsCut text read (c :: rest) ∧
        placed = (Position.start.after read, (Lexeme.scan c rest).1) := by
    apply IsCut.backwards (fun read left =>
      placed ∈ Css.placed (Position.start.after read) (pieces left) →
        ∃ read c rest, IsCut text read (c :: rest) ∧
          placed = (Position.start.after read, (Lexeme.scan c rest).1)) ?_ ?_ (IsCut.start text)
    · intro absent
      cases absent
    · intro read c rest cut later found
      rw [pieces_eq_first, Css.placed, ← Position.after_append] at found
      rcases List.mem_cons.mp found with here | behind
      · exact ⟨read, c, rest, cut, here⟩
      · exact later behind
  exact fromCut member

/-- The token stands at a cut of the text and comes from the lexeme there, which is no comment. -/
def Token.StandsIn (text : Text) (token : Token) : Prop :=
  ∃ read c rest, IsCut text read (c :: rest) ∧ (Lexeme.scan c rest).1.isComment = false ∧
    token.IsFrom (Position.start.after read, (Lexeme.scan c rest).1)

theorem standsIn_of_mem (text : Text) (token : Token)
    (member : token ∈ nest (withoutComments (lexemes text))) :
    token.Everywhere (Token.StandsIn text) := by
  refine nest_everywhere (withoutComments (lexemes text)) ?_ token member
  intro placed kept other isFrom
  obtain ⟨found, plain⟩ := List.mem_filter.mp kept
  obtain ⟨read, c, rest, cut, rfl⟩ := exists_cut_of_mem_lexemes text placed found
  exact ⟨read, c, rest, cut, Bool.not_eq_true' _ ▸ plain, isFrom⟩

/-! ### Constructs -/

def StandsAmong (tokens : List Token) (position : Position) : Prop :=
  ∃ token ∈ tokens, token.position = position

/-- The parts of a construct stand among these tokens, or in a block that does. -/
def Construct.IsOf (tokens : List Token) : Construct → Prop
  | .atRule position keyword prelude body =>
      .leaf position (.atKeyword keyword) ∈ tokens ∧ prelude ⊆ tokens ∧
        ∀ content, body = some content → ∃ block ∈ tokens, block.curlyContent? = some content
  | .styleRule position prelude body =>
      StandsAmong tokens position ∧ prelude ⊆ tokens ∧
        ∃ block ∈ tokens, block.curlyContent? = some body
  | .unfinished position => StandsAmong tokens position

namespace Construct

variable {tokens : List Token}

def BeganIn (tokens : List Token) : Beginning → Prop
  | .atRule position keyword => .leaf position (.atKeyword keyword) ∈ tokens
  | .styleRule position => StandsAmong tokens position

theorem isOf_ofBlock {begun : Beginning} (began : BeganIn tokens begun) {prelude body : List Token}
    (inside : prelude ⊆ tokens) {block : Token} (member : block ∈ tokens)
    (curly : block.curlyContent? = some body) : (ofBlock begun prelude body).IsOf tokens := by
  cases begun with
  | atRule position keyword =>
      refine ⟨began, inside, ?_⟩
      intro content same
      cases same
      exact ⟨block, member, curly⟩
  | styleRule position => exact ⟨began, inside, block, member, curly⟩

theorem isOf_ofEnd {begun : Beginning} (began : BeganIn tokens begun) {recent : List Token}
    (inside : recent ⊆ tokens) : (ofEnd begun recent).IsOf tokens := by
  cases begun with
  | atRule position keyword =>
      refine ⟨began, ?_, nofun⟩
      intro token member
      exact inside (List.mem_reverse.mp member)
  | styleRule position =>
      cases recent with
      | nil => exact began
      | cons last others => exact ⟨last, inside List.mem_cons_self, rfl⟩

theorem beginning_beganIn {token : Token} (member : token ∈ tokens) :
    BeganIn tokens (beginning token).1 ∧ (beginning token).2 ⊆ tokens := by
  have alone : [token] ⊆ tokens := List.cons_subset.mpr ⟨member, List.nil_subset _⟩
  cases token with
  | leaf position leaf =>
      cases leaf with
      | atKeyword name => exact ⟨member, List.nil_subset _⟩
      | _ => exact ⟨⟨_, member, rfl⟩, alone⟩
  | block position opener content => exact ⟨⟨_, member, rfl⟩, alone⟩

def StateIsOf (tokens : List Token) (state : Option (Beginning × List Token)) : Prop :=
  ∀ begun recent, state = some (begun, recent) → BeganIn tokens begun ∧ recent ⊆ tokens

theorem listAfter_areOf (left : List Token) (inside : left ⊆ tokens)
    (state : Option (Beginning × List Token)) (stateOf : StateIsOf tokens state) :
    ∀ construct ∈ listAfter state left, construct.IsOf tokens := by
  have idle : StateIsOf tokens none := nofun
  induction left generalizing state with
  | nil =>
      cases state with
      | none => exact nofun
      | some begun =>
          obtain ⟨began, recents⟩ := stateOf _ _ rfl
          exact List.forall_mem_singleton.mpr (isOf_ofEnd began recents)
  | cons token rest ih =>
      obtain ⟨here, later⟩ := List.cons_subset.mp inside
      unfold listAfter
      cases state with
      | none =>
          dsimp only
          cases curly : token.curlyContent? with
          | some body =>
              refine List.forall_mem_cons.mpr ⟨?_, ih later none idle⟩
              exact ⟨⟨token, here, rfl⟩, List.nil_subset _, token, here, curly⟩
          | none =>
              dsimp only
              split
              · exact ih later none idle
              · apply ih later
                intro begun recent same
                have started := beginning_beganIn here
                rw [Option.some.inj same] at started
                exact started
      | some state =>
          obtain ⟨begun, recent⟩ := state
          obtain ⟨began, recents⟩ := stateOf _ _ rfl
          dsimp only
          cases curly : token.curlyContent? with
          | some body =>
              refine List.forall_mem_cons.mpr ⟨?_, ih later none idle⟩
              apply isOf_ofBlock began ?_ here curly
              intro other member
              exact recents (List.mem_reverse.mp member)
          | none =>
            dsimp only
            split
            · exact List.forall_mem_cons.mpr ⟨isOf_ofEnd began recents, ih later none idle⟩
            · apply ih later
              intro other more same
              cases same
              exact ⟨began, List.cons_subset.mpr ⟨here, recents⟩⟩

end Construct

theorem constructs_areOf (tokens : List Token) :
    ∀ construct ∈ constructs tokens, construct.IsOf tokens :=
  Construct.listAfter_areOf tokens (List.Subset.refl _) none nofun

/-! ### Items -/

namespace ValueState

structure IsOf (tokens : List Token) (state : ValueState) : Prop where
  recent : state.recent ⊆ tokens
  marked : ∀ before, state.importance = .marked before → before ⊆ tokens
  complete : ∀ before, state.importance = .complete before → before ⊆ tokens

variable {tokens : List Token} {state : ValueState}

theorem IsOf.step (all : state.IsOf tokens) {token : Token} (member : token ∈ tokens) :
    (state.step token).IsOf tokens := by
  obtain ⟨recents, markeds, completes⟩ := all
  have grown : token :: state.recent ⊆ tokens := List.cons_subset.mpr ⟨member, recents⟩
  have part : (state.addPart token).IsOf tokens := ⟨grown, nofun, nofun⟩
  fun_cases ValueState.step state token with
  | case1 =>
      refine ⟨grown, ?_, nofun⟩
      intro before same
      cases same
      exact recents
  | case2 => exact ⟨grown, markeds, completes⟩
  | case3 => exact part
  | case4 before mark =>
      refine ⟨grown, nofun, ?_⟩
      intro other same
      cases same
      exact markeds before mark
  | case5 => exact ⟨grown, markeds, completes⟩
  | case6 => exact part
  | case7 => exact ⟨grown, markeds, completes⟩
  | case8 => exact part

theorem IsOf.foldl_step (value : List Token) (inside : value ⊆ tokens) (all : state.IsOf tokens) :
    (value.foldl ValueState.step state).IsOf tokens := by
  induction value generalizing state with
  | nil => exact all
  | cons token rest ih =>
      obtain ⟨here, later⟩ := List.cons_subset.mp inside
      exact ih later (all.step here)

theorem IsOf.tokens_subset (all : state.IsOf tokens) : state.tokens ⊆ tokens := by
  obtain ⟨recents, _, completes⟩ := all
  intro token
  fun_cases ValueState.tokens state with
  | case1 before mark => exact fun member => completes before mark (List.mem_reverse.mp member)
  | case2 => exact fun member => recents (List.mem_reverse.mp member)

end ValueState

def Item.IsOf (tokens : List Token) : Item → Prop
  | .declaration name value => (∃ position, .leaf position (.ident name) ∈ tokens) ∧ value ⊆ tokens
  | .atRule => True
  | .faulty _ position => StandsAmong tokens position

namespace Item

variable {tokens : List Token}

theorem isOf_ofTokens {first : Token} (member : first ∈ tokens) (others : List Token)
    (inside : others ⊆ tokens) : (ofTokens first others).IsOf tokens := by
  have behindInside (colon : Token) (value : List Token)
      (behind : others.dropWhile Token.isInsignificant = colon :: value) :
      colon ∈ tokens ∧ value ⊆ tokens := by
    apply List.cons_subset.mp
    rw [← behind]
    exact List.Subset.trans (List.dropWhile_sublist Token.isInsignificant).subset inside
  fun_cases ofTokens first others with
  | case1 position name => exact ⟨_, member, rfl⟩
  | case2 position name colon value behind =>
      obtain ⟨colonInside, valueInside⟩ := behindInside colon value behind
      have start : ValueState.empty.IsOf tokens := ⟨List.nil_subset _, nofun, nofun⟩
      unfold ofValue
      dsimp only
      split
      · exact ⟨colon, colonInside, rfl⟩
      · exact ⟨⟨position, member⟩, (start.foldl_step value valueInside).tokens_subset⟩
  | case3 position name colon value behind =>
      exact ⟨colon, (behindInside colon value behind).1, rfl⟩
  | case4 => exact ⟨first, member, rfl⟩

def BegunIsOf (tokens : List Token) (state : Option Begun) : Prop :=
  ∀ first recent, state = some (.declaration first recent) → first ∈ tokens ∧ recent ⊆ tokens

theorem isOf_ofBegun {begun : Begun} (begunOf : BegunIsOf tokens (some begun)) :
    (ofBegun begun).IsOf tokens := by
  cases begun with
  | atRule => trivial
  | declaration first recent =>
      obtain ⟨member, recents⟩ := begunOf first recent rfl
      apply isOf_ofTokens member
      intro token within
      exact recents (List.mem_reverse.mp within)

theorem begunIsOf_begin {token : Token} (member : token ∈ tokens) :
    BegunIsOf tokens (some (begin token)) := by
  intro first recent same
  cases token with
  | leaf position leaf =>
      cases leaf with
      | atKeyword name => cases same
      | _ =>
          cases same
          exact ⟨member, List.nil_subset _⟩
  | block position opener content =>
      cases same
      exact ⟨member, List.nil_subset _⟩

theorem listAfter_areOf (left : List Token) (inside : left ⊆ tokens) (state : Option Begun)
    (stateOf : BegunIsOf tokens state) : ∀ item ∈ listAfter state left, item.IsOf tokens := by
  have idle : BegunIsOf tokens none := nofun
  induction left generalizing state with
  | nil =>
      cases state with
      | none => exact nofun
      | some begun => exact List.forall_mem_singleton.mpr (isOf_ofBegun stateOf)
  | cons token rest ih =>
      obtain ⟨here, later⟩ := List.cons_subset.mp inside
      unfold listAfter
      cases state with
      | none =>
          dsimp only
          split
          · exact ih later none idle
          · exact ih later _ (begunIsOf_begin here)
      | some begun =>
          dsimp only
          split
          · exact List.forall_mem_cons.mpr ⟨isOf_ofBegun stateOf, ih later none idle⟩
          · cases begun with
            | atRule =>
                dsimp only
                split
                · exact List.forall_mem_cons.mpr ⟨trivial, ih later none idle⟩
                · exact ih later _ nofun
            | declaration first recent =>
                obtain ⟨member, recents⟩ := stateOf first recent rfl
                apply ih later
                intro other more same
                cases same
                exact ⟨member, List.cons_subset.mpr ⟨here, recents⟩⟩

end Item

theorem items_areOf (content : List Token) : ∀ item ∈ items content, item.IsOf content :=
  Item.listAfter_areOf content (List.Subset.refl _) none nofun

end SheetCensus.Css
