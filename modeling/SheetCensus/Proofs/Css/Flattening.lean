import SheetCensus.Css.Serialization
import SheetCensus.Proofs.Css.Likeness
import SheetCensus.Proofs.Css.Origin

set_option autoImplicit false

/-! Tokens laid out as lexemes. A block is its opener, its content and its closer, so that writing
the tokens out is writing their lexemes one after the other (`tokensText_eq_written`), and nesting
the lexemes again gives the tokens. -/

namespace SheetCensus.Css

namespace Lexeme

def text : Lexeme → Text
  | .leaf found => leafText found
  | .brokenOff found _ => leafText found
  | .comment body _ => leafText (.comment body)
  | .opener found => openerText found
  | .closer bracket => [bracket.closing]

def kind? : Lexeme → Option Kind
  | .leaf found => some (Kind.ofLeaf found)
  | .opener found => some (Kind.ofOpener found)
  | _ => none

def EachInFront (holds : Lexeme → List Lexeme → Prop) : List Lexeme → Prop
  | [] => True
  | lexeme :: others => holds lexeme others ∧ EachInFront holds others

theorem EachInFront.imp {holds other : Lexeme → List Lexeme → Prop} {lexemes : List Lexeme}
    (each : EachInFront holds lexemes)
    (keeps : ∀ lexeme ∈ lexemes, ∀ others, holds lexeme others → other lexeme others) :
    EachInFront other lexemes := by
  induction lexemes with
  | nil => trivial
  | cons lexeme others ih =>
      obtain ⟨keepsHere, keepsLater⟩ := List.forall_mem_cons.mp keeps
      exact ⟨keepsHere others each.1, ih each.2 keepsLater⟩

theorem EachInFront.and {holds other : Lexeme → List Lexeme → Prop} {lexemes : List Lexeme}
    (each : EachInFront holds lexemes) (eachToo : EachInFront other lexemes) :
    EachInFront (fun lexeme others => holds lexeme others ∧ other lexeme others) lexemes := by
  induction lexemes with
  | nil => trivial
  | cons lexeme others ih => exact ⟨⟨each.1, eachToo.1⟩, ih each.2 eachToo.2⟩

/-- What goes between two lexemes: something only behind a leaf and in front of a token. -/
def spacing : Option Lexeme → Lexeme → Text
  | some (.leaf left), right =>
      match right.kind? with
      | some kind => separator (some (Kind.ofLeaf left)) kind
      | none => []
  | _, _ => []

def written : Option Lexeme → List Lexeme → Text
  | _, [] => []
  | left, lexeme :: others => spacing left lexeme ++ lexeme.text ++ written (some lexeme) others

end Lexeme

def Leaf.lexeme : Leaf → Lexeme
  | .error (.unmatched bracket) => .closer bracket
  | other => .leaf other

mutual

def Token.flat : Token → List Lexeme
  | .leaf _ found => [found.lexeme]
  | .block _ opener content => .opener opener :: (flatAll content ++ [.closer opener.closedBy])

def flatAll : List Token → List Lexeme
  | [] => []
  | token :: others => token.flat ++ flatAll others

end

theorem flatAll_append (front back : List Token) :
    flatAll (front ++ back) = flatAll front ++ flatAll back := by
  induction front with
  | nil => rfl
  | cons token rest ih => rw [List.cons_append, flatAll, flatAll, ih, List.append_assoc]

namespace Lexeme

theorem spacing_cases (left : Option Lexeme) (lexeme : Lexeme) :
    spacing left lexeme = [] ∨ spacing left lexeme = ['/', '*', '*', '/'] := by
  unfold spacing
  split
  · split
    · unfold separator
      split
      · exact Or.inr rfl
      · exact Or.inl rfl
    · exact Or.inl rfl
  · exact Or.inl rfl

theorem written_append (left : Option Lexeme) (front back : List Lexeme) :
    written left (front ++ back) =
      written left front ++ written (front.getLast?.or left) back := by
  induction front generalizing left with
  | nil => rfl
  | cons lexeme rest ih =>
      have last : rest.getLast?.or (some lexeme) = (lexeme :: rest).getLast?.or left := by
        rw [List.getLast?_cons]
        cases rest.getLast? <;> rfl
      rw [List.cons_append, written, written, ih, last]
      simp only [List.append_assoc]

end Lexeme

def Token.first : Token → Lexeme
  | .leaf _ found => found.lexeme
  | .block _ opener _ => .opener opener

section

variable {holds : Lexeme → Prop}

mutual

/-- What holds of the first lexeme of every part of a token, and of closing brackets, holds of all
lexemes of the token. -/
theorem Token.forall_mem_flat (closers : ∀ bracket, holds (.closer bracket)) (token : Token)
    (all : token.Everywhere (fun part => holds part.first)) :
    ∀ lexeme ∈ token.flat, holds lexeme := by
  cases token with
  | leaf position found => exact List.forall_mem_singleton.mpr all.here
  | block position opener content =>
      refine List.forall_mem_cons.mpr ⟨all.here, ?_⟩
      intro lexeme member
      rcases List.mem_append.mp member with inside | closing
      · refine forall_mem_flatAll closers content ?_ lexeme inside
        exact fun token within part isPart => all part (.inside within isPart)
      · rw [List.mem_singleton.mp closing]
        exact closers opener.closedBy

theorem forall_mem_flatAll (closers : ∀ bracket, holds (.closer bracket)) (tokens : List Token)
    (all : ∀ token ∈ tokens, token.Everywhere (fun part => holds part.first)) :
    ∀ lexeme ∈ flatAll tokens, holds lexeme := by
  cases tokens with
  | nil => exact nofun
  | cons token others =>
      obtain ⟨here, later⟩ := List.forall_mem_cons.mp all
      intro lexeme member
      rcases List.mem_append.mp member with inside | behind
      · exact token.forall_mem_flat closers here lexeme inside
      · exact forall_mem_flatAll closers others later lexeme behind

end

end

/-! ### The text of tokens -/

def Token.last : Token → Lexeme
  | .leaf _ found => found.lexeme
  | .block _ opener _ => .closer opener.closedBy

theorem Token.getLast?_flat (token : Token) : token.flat.getLast? = some token.last := by
  cases token with
  | leaf position leaf => rfl
  | block position opener content =>
      rw [Token.flat, ← List.cons_append, List.getLast?_concat]
      rfl

theorem Kind.not_runsInto_error (left : Kind) : left.runsInto .error = false := by
  simp [runsInto, beginsName, beginsNumeral, isLiteralOf]

theorem Kind.not_runsInto_of_block (bracket : Bracket) (right : Kind) :
    (Kind.block bracket).runsInto right = false := by
  simp [runsInto, endsName, isLiteralOf]

theorem Kind.not_runsInto_of_function (right : Kind) : Kind.function.runsInto right = false := by
  simp [runsInto, endsName, isLiteralOf]

theorem Kind.not_runsInto_of_error (right : Kind) : Kind.error.runsInto right = false := by
  simp [runsInto, endsName, isLiteralOf]

theorem separator_of_not_runsInto {left right : Kind} (apart : left.runsInto right = false) :
    separator (some left) right = [] := by
  unfold separator
  rw [Option.any_some, apart, if_neg Bool.false_ne_true]

def SpaceAlike (left : Option Kind) (lexeme : Option Lexeme) : Prop :=
  ∀ token : Token, Lexeme.spacing lexeme token.first = separator left (Kind.ofToken token)

theorem spaceAlike_opener (opener : Opener) : SpaceAlike none (some (.opener opener)) :=
  fun _ => rfl

theorem spaceAlike_none : SpaceAlike none none :=
  fun _ => rfl

theorem Leaf.lexeme_cases (leaf : Leaf) :
    leaf.lexeme = .leaf leaf ∨ ∃ bracket, leaf = .error (.unmatched bracket) := by
  unfold Leaf.lexeme
  split
  · exact Or.inr ⟨_, rfl⟩
  · exact Or.inl rfl

theorem spacing_first (left : Leaf) (same : left.lexeme = .leaf left) (right : Token) :
    Lexeme.spacing (some left.lexeme) right.first =
      separator (some (Kind.ofLeaf left)) (Kind.ofToken right) := by
  rw [same]
  cases right with
  | block position opener content =>
      rw [Kind.ofToken_block]
      rfl
  | leaf position found =>
      change Lexeme.spacing (some (.leaf left)) found.lexeme = _
      rcases found.lexeme_cases with sameToo | ⟨bracket, rfl⟩
      · rw [sameToo]
        rfl
      · exact (separator_of_not_runsInto (Kind.not_runsInto_error _)).symm

theorem spaceAlike_last (token : Token) : SpaceAlike (some (Kind.ofToken token))
    (some token.last) := by
  intro right
  cases token with
  | block position opener content =>
      rw [Kind.ofToken_block]
      cases opener with
      | bracket bracket => exact (separator_of_not_runsInto (Kind.not_runsInto_of_block _ _)).symm
      | function name => exact (separator_of_not_runsInto (Kind.not_runsInto_of_function _)).symm
  | leaf position found =>
      rcases found.lexeme_cases with same | ⟨bracket, rfl⟩
      · exact spacing_first found same right
      · exact (separator_of_not_runsInto (Kind.not_runsInto_of_error _)).symm

mutual

theorem written_flat (left : Option Lexeme) (token : Token) :
    Lexeme.written left token.flat = Lexeme.spacing left token.first ++ tokenText token := by
  cases token with
  | leaf position found =>
      have text : found.lexeme.text = leafText found := by
        rcases found.lexeme_cases with same | ⟨bracket, rfl⟩
        · rw [same]
          rfl
        · rfl
      rw [Token.flat, Lexeme.written, Lexeme.written, List.append_nil, text]
      rfl
  | block position opener content =>
      have inside := written_flatAll (spaceAlike_opener opener) content
      have closer (last : Option Lexeme) :
          Lexeme.spacing last (.closer opener.closedBy) = [] := by
        cases last with
        | none => rfl
        | some lexeme => cases lexeme <;> rfl
      rw [Token.flat, Lexeme.written, Lexeme.written_append, inside, Lexeme.written, closer,
        Lexeme.written, List.append_nil, List.nil_append, tokenText]
      simp only [List.append_assoc]
      rfl

/-- The text of tokens is that of their lexemes. -/
theorem written_flatAll {left : Option Kind} {lexeme : Option Lexeme}
    (alike : SpaceAlike left lexeme) (tokens : List Token) :
    Lexeme.written lexeme (flatAll tokens) = tokensTextAfter left tokens := by
  cases tokens with
  | nil => rfl
  | cons token others =>
      have last : token.flat.getLast?.or lexeme = some token.last := by
        rw [token.getLast?_flat]
        rfl
      rw [flatAll, Lexeme.written_append, written_flat, last,
        written_flatAll (spaceAlike_last token), alike token, tokensTextAfter]

end

theorem tokensText_eq_written (tokens : List Token) :
    tokensText tokens = Lexeme.written none (flatAll tokens) :=
  (written_flatAll spaceAlike_none tokens).symm

/-! ### Nesting again -/

def Anywhere : Kind → Position → Position → Prop :=
  fun _ _ _ => True

/-- No closing bracket stands in the block as an error that would have closed it. -/
def Token.IsShutOnce : Token → Prop
  | .block _ opener content =>
      ∀ position, .leaf position (.error (.unmatched opener.closedBy)) ∉ content
  | _ => True

def StaysIn (frames : List Frame) (tokens : List Token) : Prop :=
  ∀ frame, frames.head? = some frame →
    ∀ position, .leaf position (.error (.unmatched frame.opener.closedBy)) ∉ tokens

theorem step_lexeme (frames : List Frame) (recent : List Token) (position place : Position)
    (found : Leaf) (stays : StaysIn frames [.leaf place found]) :
    Nest.step ⟨frames, recent⟩ (position, found.lexeme) =
      ⟨frames, .leaf position found :: recent⟩ := by
  rcases found.lexeme_cases with same | ⟨bracket, rfl⟩
  · rw [same]
    rfl
  · change Nest.shut ⟨frames, recent⟩ position bracket = _
    cases frames with
    | nil => rfl
    | cons frame outer =>
        apply if_neg
        intro shuts
        apply stays frame rfl place
        rw [shuts]
        exact List.mem_singleton_self _

mutual

theorem foldl_step_flat (token : Token) (placed : List (Position × Lexeme))
    (laidOut : placed.map Prod.snd = token.flat) (once : token.Everywhere Token.IsShutOnce)
    (frames : List Frame) (recent : List Token) (stays : StaysIn frames [token]) :
    ∃ twin, token.Alike Anywhere twin ∧
      placed.foldl Nest.step ⟨frames, recent⟩ = ⟨frames, twin :: recent⟩ := by
  cases token with
  | leaf place found =>
      obtain ⟨⟨position, lexeme⟩, rfl, same⟩ := List.map_eq_singleton_iff.mp laidOut
      cases same
      refine ⟨.leaf position found, .leaf trivial, ?_⟩
      exact step_lexeme frames recent position place found stays
  | block place opener content =>
      obtain ⟨⟨position, first⟩, others, rfl, same, behind⟩ := List.map_eq_cons_iff.mp laidOut
      cases same
      obtain ⟨inner, ending, rfl, inside, ends⟩ := List.map_eq_append_iff.mp behind
      obtain ⟨⟨closing, last⟩, rfl, sameToo⟩ := List.map_eq_singleton_iff.mp ends
      cases sameToo
      have onceInside : ∀ part ∈ content, part.Everywhere Token.IsShutOnce :=
        fun part member other isPart => once other (.inside member isPart)
      have staysInside : StaysIn (⟨position, opener, recent⟩ :: frames) content := by
        intro frame same
        cases same
        exact once.here
      obtain ⟨twins, alike, ran⟩ := foldl_step_flatAll content inner inside onceInside
        (⟨position, opener, recent⟩ :: frames) [] staysInside
      refine ⟨.block position opener twins, .block trivial alike, ?_⟩
      change (inner ++ [(closing, Lexeme.closer opener.closedBy)]).foldl Nest.step
        ⟨⟨position, opener, recent⟩ :: frames, []⟩ = _
      rw [List.foldl_append, ran]
      change Nest.shut ⟨⟨position, opener, recent⟩ :: frames, twins.reverse ++ []⟩ closing
        opener.closedBy = _
      unfold Nest.shut
      dsimp only
      rw [if_pos rfl, List.append_nil, List.reverse_reverse]

theorem foldl_step_flatAll (tokens : List Token) (placed : List (Position × Lexeme))
    (laidOut : placed.map Prod.snd = flatAll tokens)
    (once : ∀ token ∈ tokens, token.Everywhere Token.IsShutOnce) (frames : List Frame)
    (recent : List Token) (stays : StaysIn frames tokens) :
    ∃ twins, AllAlike Anywhere tokens twins ∧
      placed.foldl Nest.step ⟨frames, recent⟩ = ⟨frames, twins.reverse ++ recent⟩ := by
  cases tokens with
  | nil =>
      obtain rfl := List.map_eq_nil_iff.mp laidOut
      exact ⟨[], .nil, rfl⟩
  | cons token others =>
      obtain ⟨front, back, rfl, here, later⟩ := List.map_eq_append_iff.mp laidOut
      obtain ⟨onceHere, onceLater⟩ := List.forall_mem_cons.mp once
      have staysHere : StaysIn frames [token] := by
        intro frame found position member
        rw [List.mem_singleton] at member
        exact stays frame found position (member ▸ List.mem_cons_self)
      have staysLater : StaysIn frames others :=
        fun frame found position member =>
          stays frame found position (List.mem_cons_of_mem token member)
      obtain ⟨twin, alike, ran⟩ := foldl_step_flat token front here onceHere frames recent staysHere
      obtain ⟨twins, alikeToo, ranToo⟩ :=
        foldl_step_flatAll others back later onceLater frames (twin :: recent) staysLater
      refine ⟨twin :: twins, .cons alike alikeToo, ?_⟩
      rw [List.foldl_append, ran, ranToo, List.reverse_cons, List.append_assoc]
      rfl

end

/-- Lexemes in the order of some tokens nest to tokens like them. -/
theorem nest_flatAll (tokens : List Token) (placed : List (Position × Lexeme))
    (laidOut : placed.map Prod.snd = flatAll tokens)
    (once : ∀ token ∈ tokens, token.Everywhere Token.IsShutOnce) :
    AllAlike Anywhere tokens (nest placed) := by
  obtain ⟨twins, alike, ran⟩ := foldl_step_flatAll tokens placed laidOut once [] [] nofun
  have whole : nest placed = twins := by
    change (placed.foldl Nest.step ⟨[], []⟩).tokens = twins
    rw [ran]
    change (twins.reverse ++ []).reverse = twins
    rw [List.append_nil, List.reverse_reverse]
  rw [whole]
  exact alike

/-! ### Closing brackets -/

def StayOpen : List Frame → List Token → Prop
  | [], _ => True
  | frame :: outer, recent =>
      (∀ position, .leaf position (.error (.unmatched frame.opener.closedBy)) ∉ recent) ∧
        StayOpen outer frame.before

/-- No closing bracket stands as an error in a block, finished or open, that it would have closed. -/
structure Nest.ShutsOnce (nest : Nest) : Prop where
  stayOpen : StayOpen nest.frames nest.recent
  recent : ∀ token ∈ nest.recent, token.Everywhere Token.IsShutOnce
  before : ∀ frame ∈ nest.frames, ∀ token ∈ frame.before, token.Everywhere Token.IsShutOnce

namespace Nest

theorem ShutsOnce.push {nest : Nest} (all : nest.ShutsOnce) (position : Position) (leaf : Leaf)
    (stays : ∀ frame, nest.frames.head? = some frame →
      leaf ≠ .error (.unmatched frame.opener.closedBy)) :
    (nest.push (.leaf position leaf)).ShutsOnce := by
  obtain ⟨open_, recents, befores⟩ := all
  refine ⟨?_, List.forall_mem_cons.mpr ⟨Token.everywhere_leaf trivial, recents⟩, befores⟩
  obtain ⟨frames, recent⟩ := nest
  cases frames with
  | nil => trivial
  | cons frame outer =>
      refine ⟨?_, open_.2⟩
      intro place member
      rcases List.mem_cons.mp member with same | earlier
      · cases same
        exact stays frame rfl rfl
      · exact open_.1 place earlier

theorem ShutsOnce.close {frame : Frame} {outer : List Frame} {recent : List Token}
    (all : ShutsOnce ⟨frame :: outer, recent⟩) :
    ShutsOnce ⟨outer, .block frame.position frame.opener recent.reverse :: frame.before⟩ := by
  obtain ⟨⟨inside, open_⟩, recents, befores⟩ := all
  obtain ⟨beforeFirst, beforeOthers⟩ := List.forall_mem_cons.mp befores
  refine ⟨?_, List.forall_mem_cons.mpr ⟨?_, beforeFirst⟩, beforeOthers⟩
  · cases outer with
    | nil => trivial
    | cons next others =>
        refine ⟨?_, open_.2⟩
        intro place member
        rcases List.mem_cons.mp member with impossible | earlier
        · cases impossible
        · exact open_.1 place earlier
  · apply Token.everywhere_block
    · exact fun place member => inside place (List.mem_reverse.mp member)
    · exact fun token member => recents token (List.mem_reverse.mp member)

theorem ShutsOnce.step {nest : Nest} (all : nest.ShutsOnce) {placed : Position × Lexeme}
    (closers : ∀ position bracket,
      (Token.leaf position (.error (.unmatched bracket))).IsFrom placed →
        placed.2 = .closer bracket) : (nest.step placed).ShutsOnce := by
  obtain ⟨position, lexeme⟩ := placed
  have plain {leaf : Leaf} (isFrom : (Token.leaf position leaf).IsFrom (position, lexeme))
      (other : ∀ bracket, lexeme ≠ .closer bracket) (bracket : Bracket) :
      leaf ≠ .error (.unmatched bracket) := by
    rintro rfl
    exact other bracket (closers position bracket isFrom)
  cases lexeme with
  | leaf leaf => exact all.push position leaf (fun _ _ => plain .leaf nofun _)
  | brokenOff leaf error =>
      apply (all.push position leaf (fun _ _ => plain .brokenOff nofun _)).push
      exact fun _ _ => plain .breaking nofun _
  | comment body closed => exact all.push position _ (fun _ _ => nofun)
  | opener opener =>
      refine ⟨⟨fun _ absent => absurd absent List.not_mem_nil, all.stayOpen⟩,
        fun _ absent => absurd absent List.not_mem_nil, ?_⟩
      exact List.forall_mem_cons.mpr ⟨all.recent, all.before⟩
  | closer bracket =>
      obtain ⟨frames, recent⟩ := nest
      change (shut ⟨frames, recent⟩ position bracket).ShutsOnce
      cases frames with
      | nil => exact all.push position _ nofun
      | cons frame outer =>
          unfold shut
          dsimp only
          by_cases fits : frame.opener.closedBy = bracket
          · rw [if_pos fits]
            exact all.close
          · rw [if_neg fits]
            apply all.push
            intro next same unmatched
            cases same
            cases unmatched
            exact fits rfl

theorem ShutsOnce.finish {frames : List Frame} {recent : List Token}
    (all : ShutsOnce ⟨frames, recent⟩) :
    ∀ token ∈ finish frames recent, token.Everywhere Token.IsShutOnce := by
  induction frames generalizing recent with
  | nil =>
      intro token member
      exact all.recent token (List.mem_reverse.mp member)
  | cons frame outer ih => exact ih all.close

end Nest

/-- A closing bracket that stands in a block as an error does not fit the block. -/
theorem nest_isShutOnce (lexemes : List (Position × Lexeme))
    (closers : ∀ placed ∈ lexemes, ∀ position bracket,
      (Token.leaf position (.error (.unmatched bracket))).IsFrom placed →
        placed.2 = .closer bracket) :
    ∀ token ∈ nest lexemes, token.Everywhere Token.IsShutOnce := by
  have run (nest : Nest) (all : nest.ShutsOnce) : (lexemes.foldl Nest.step nest).ShutsOnce := by
    induction lexemes generalizing nest with
    | nil => exact all
    | cons placed rest ih =>
        obtain ⟨first, later⟩ := List.forall_mem_cons.mp closers
        exact ih later _ (all.step first)
  have start : Nest.empty.ShutsOnce := ⟨trivial, nofun, nofun⟩
  exact (run Nest.empty start).finish

end SheetCensus.Css
