import Mathlib.Data.List.ModifyLast
import SheetCensus.Proofs.Text.Blank
import SheetCensus.Stylesheet.Selector

set_option autoImplicit false

/-! The selectors on the two sides of a comma. Tokens fall into parts at their own commas in one way
only (`IsParted.groups_eq`), and a single pass that lets the last part grow finds these parts
(`groups_eq_foldl`). Each part is written out by itself, so the selectors of the whole are those of
the parts, in order, and a part in which nothing is written leaves no trace
(`list_splitsAtCommas`). -/

namespace SheetCensus.Selector

open Css

def IsCommaFree (tokens : List Token) : Prop :=
  ∀ token ∈ tokens, token.isLiteral [','] = false

def commaCount (tokens : List Token) : Nat :=
  tokens.countP (fun token => token.isLiteral [','])

def isBlank (part : List Token) : Bool :=
  (tokensText part).all Text.isBlank

/-- The tokens are the parts one after the other, with a comma between neighbours and none within a
part. -/
inductive IsParted : List Token → List (List Token) → Prop
  | last {part : List Token} (free : IsCommaFree part) : IsParted part [part]
  | comma {part tokens : List Token} {parts : List (List Token)} {comma : Token}
      (free : IsCommaFree part) (isComma : comma.isLiteral [','] = true)
      (behind : IsParted tokens parts) : IsParted (part ++ comma :: tokens) (part :: parts)

def collect (parts : List (List Token)) (token : Token) : List (List Token) :=
  if token.isLiteral [','] then parts ++ [[]]
  else parts.modifyLast (fun part => part ++ [token])

/-! ### Parts -/

theorem isCommaFree_nil : IsCommaFree [] :=
  nofun

theorem IsCommaFree.concat {part : List Token} (free : IsCommaFree part) {token : Token}
    (other : token.isLiteral [','] = false) : IsCommaFree (part ++ [token]) :=
  List.forall_mem_append.mpr ⟨free, List.forall_mem_singleton.mpr other⟩

theorem IsCommaFree.commaCount_eq {part : List Token} (free : IsCommaFree part) :
    commaCount part = 0 := by
  apply List.countP_eq_zero.mpr
  intro token member
  rw [free token member]
  exact Bool.false_ne_true

theorem IsCommaFree.groups_eq {part : List Token} (free : IsCommaFree part) :
    groups part = [part] := by
  induction part with
  | nil => rfl
  | cons token rest ih =>
      have here := free token List.mem_cons_self
      have behind := ih (fun other member => free other (List.mem_cons_of_mem token member))
      simp only [groups, here, behind, Bool.false_eq_true, if_false]

theorem commaCount_append_comma (left right : List Token) {comma : Token}
    (isComma : comma.isLiteral [','] = true) :
    commaCount (left ++ comma :: right) = commaCount left + commaCount right + 1 := by
  unfold commaCount
  rw [List.countP_append, List.countP_cons_of_pos isComma, Nat.add_assoc]

namespace IsParted

variable {tokens : List Token} {parts : List (List Token)}

theorem groups_eq (parted : IsParted tokens parts) : groups tokens = parts := by
  induction parted with
  | last free => exact free.groups_eq
  | comma free isComma _ ih =>
      rw [groups_append_comma _ _ _ isComma, free.groups_eq, ih]
      rfl

theorem length_eq (parted : IsParted tokens parts) : parts.length = commaCount tokens + 1 := by
  induction parted with
  | last free =>
      rw [free.commaCount_eq]
      rfl
  | comma free isComma _ ih =>
      rw [commaCount_append_comma _ _ isComma, free.commaCount_eq, List.length_cons, ih]
      omega

theorem ne_nil (parted : IsParted tokens parts) : parts ≠ [] := by
  cases parted <;> exact List.cons_ne_nil _ _

theorem concat_comma (parted : IsParted tokens parts) {comma : Token}
    (isComma : comma.isLiteral [','] = true) : IsParted (tokens ++ [comma]) (parts ++ [[]]) := by
  induction parted with
  | last free => exact .comma free isComma (.last isCommaFree_nil)
  | comma free first _ ih =>
      rw [List.append_assoc, List.cons_append]
      exact .comma free first ih

theorem concat_other (parted : IsParted tokens parts) {token : Token}
    (other : token.isLiteral [','] = false) :
    IsParted (tokens ++ [token]) (parts.modifyLast (fun part => part ++ [token])) := by
  induction parted with
  | last free => exact .last (free.concat other)
  | @comma part _ parts _ free isComma behind ih =>
      have grown : (part :: parts).modifyLast (fun part => part ++ [token]) =
          part :: parts.modifyLast (fun part => part ++ [token]) :=
        List.modifyLast_append_of_right_ne_nil _ [part] parts behind.ne_nil
      rw [List.append_assoc, List.cons_append, grown]
      exact .comma free isComma ih

theorem step (parted : IsParted tokens parts) (token : Token) :
    IsParted (tokens ++ [token]) (collect parts token) := by
  unfold collect
  cases comma : token.isLiteral [','] with
  | true => exact parted.concat_comma comma
  | false => exact parted.concat_other comma

/-- However far a pass has come, what it has collected are the parts of what it has read. -/
theorem foldl_collect (parted : IsParted tokens parts) (rest : List Token) :
    IsParted (tokens ++ rest) (rest.foldl collect parts) := by
  induction rest generalizing tokens parts with
  | nil =>
      rw [List.append_nil]
      exact parted
  | cons token rest ih =>
      have further := ih (parted.step token)
      rw [List.append_assoc] at further
      exact further

theorem subset (parted : IsParted tokens parts) : ∀ part ∈ parts, part ⊆ tokens := by
  induction parted with
  | last _ => exact List.forall_mem_singleton.mpr (List.Subset.refl _)
  | comma _ _ _ ih =>
      refine List.forall_mem_cons.mpr ⟨List.subset_append_left _ _, ?_⟩
      intro part member
      exact List.subset_append_of_subset_right _ (List.subset_cons_of_subset _ (ih part member))

theorem exists_part (parted : IsParted tokens parts) {token : Token} (member : token ∈ tokens) :
    token.isLiteral [','] = true ∨ ∃ part ∈ parts, token ∈ part := by
  induction parted with
  | last _ => exact Or.inr ⟨_, List.mem_singleton_self _, member⟩
  | comma _ isComma _ ih =>
      cases List.mem_append.mp member with
      | inl front => exact Or.inr ⟨_, List.mem_cons_self, front⟩
      | inr behind =>
          cases behind with
          | head => exact Or.inl isComma
          | tail _ later =>
              refine (ih later).imp id ?_
              intro found
              obtain ⟨part, listed, inside⟩ := found
              exact ⟨part, List.mem_cons_of_mem _ listed, inside⟩

end IsParted

theorem isParted_foldl_collect (tokens : List Token) :
    IsParted tokens (tokens.foldl collect [[]]) :=
  (IsParted.last isCommaFree_nil).foldl_collect tokens

/-- One pass over the tokens finds their parts. -/
theorem groups_eq_foldl (tokens : List Token) : groups tokens = tokens.foldl collect [[]] :=
  (isParted_foldl_collect tokens).groups_eq

theorem isParted_groups (tokens : List Token) : IsParted tokens (groups tokens) := by
  rw [groups_eq_foldl]
  exact isParted_foldl_collect tokens

theorem groups_subset (tokens : List Token) : ∀ group ∈ groups tokens, group ⊆ tokens :=
  (isParted_groups tokens).subset

theorem exists_group {tokens : List Token} {token : Token} (member : token ∈ tokens) :
    token.isLiteral [','] = true ∨ ∃ group ∈ groups tokens, token ∈ group :=
  (isParted_groups tokens).exists_part member

/-! ### Selectors -/

theorem mem_tokensText {tokens : List Token} {token : Token} (member : token ∈ tokens) (c : Char)
    (written : c ∈ tokenText token) : c ∈ tokensText tokens := by
  unfold tokensText
  generalize (none : Option Kind) = left
  induction tokens generalizing left with
  | nil => cases member
  | cons first rest ih =>
      rw [tokensTextAfter]
      cases member with
      | head => exact List.mem_append_left _ (List.mem_append_right _ written)
      | tail _ later => exact List.mem_append_right _ (ih later _)

/-- A part with a function or block in it has a text, for a block is always closed in writing. -/
theorem isBlank_eq_false_of_block {part content : List Token} {position : Position}
    {opener : Opener} (member : .block position opener content ∈ part) : isBlank part = false := by
  have closing : opener.closedBy.closing ∈ tokenText (.block position opener content) := by
    rw [tokenText]
    exact List.mem_append_right _ (List.mem_singleton_self _)
  have solid : Text.isBlank opener.closedBy.closing = false := by
    cases opener.closedBy <;> decide
  apply List.all_eq_false.mpr
  refine ⟨_, mem_tokensText member _ closing, ?_⟩
  rw [solid]
  exact Bool.false_ne_true

theorem isEmpty_text (part : List Token) : (text part).isEmpty = isBlank part := by
  unfold text isBlank
  rw [Bool.eq_iff_iff, List.isEmpty_iff, Text.collapse_eq_nil_iff, List.all_eq_true]

theorem list_eq (tokens : List Token) :
    list tokens = ((groups tokens).filter (fun part => !isBlank part)).map text := by
  unfold list
  rw [List.filter_map]
  have same : (fun selector : Text => !selector.isEmpty) ∘ text = (fun part => !isBlank part) := by
    funext part
    exact congrArg not (isEmpty_text part)
  rw [same]

theorem IsCommaFree.list_eq {part : List Token} (free : IsCommaFree part) :
    list part = if isBlank part then [] else [text part] := by
  rw [Selector.list_eq, free.groups_eq, List.filter_cons]
  cases isBlank part <;> rfl

theorem list_append_comma (left right : List Token) {comma : Token}
    (isComma : comma.isLiteral [','] = true) :
    list (left ++ comma :: right) = list left ++ list right := by
  unfold list
  rw [groups_append_comma left right comma isComma, List.map_append, List.filter_append]

structure SplitsAtCommas (selectors : List Token → List Text) : Prop where
  append_comma : ∀ (left right : List Token) (comma : Token), comma.isLiteral [','] = true →
    selectors (left ++ comma :: right) = selectors left ++ selectors right
  commaFree : ∀ part, IsCommaFree part →
    selectors part = if isBlank part then [] else [text part]
  /-- Commas inside a function or block part nothing, whatever else is in it. -/
  enclosed : ∀ (left content right : List Token) (position : Position) (opener : Opener),
    IsCommaFree left → IsCommaFree right →
      selectors (left ++ .block position opener content :: right) =
        [text (left ++ .block position opener content :: right)]
  /-- The parts that one pass collects are written out in their order, without the blank ones. -/
  inOrder : ∀ tokens, IsParted tokens (tokens.foldl collect [[]]) ∧
    selectors tokens = ((tokens.foldl collect [[]]).filter (fun part => !isBlank part)).map text
  /-- Where there is no selector, in front or behind or between, nothing is lost of the others. -/
  gap : ∀ (gap : List Token), selectors gap = [] →
    ∀ (left right : List Token) (comma other : Token), comma.isLiteral [','] = true →
      other.isLiteral [','] = true →
        selectors (gap ++ comma :: right) = selectors right ∧
          selectors (left ++ comma :: gap) = selectors left ∧
          selectors (left ++ comma :: (gap ++ other :: right)) = selectors (left ++ comma :: right)
  length_le : ∀ tokens, (selectors tokens).length ≤ commaCount tokens + 1

/-- The selectors on the two sides of a comma have nothing to do with each other. -/
theorem list_splitsAtCommas : SplitsAtCommas list where
  append_comma := fun left right _ isComma => list_append_comma left right isComma
  commaFree := fun _ free => free.list_eq
  enclosed := by
    intro left content right position opener front back
    have free : IsCommaFree (left ++ .block position opener content :: right) :=
      List.forall_mem_append.mpr ⟨front, List.forall_mem_cons.mpr ⟨rfl, back⟩⟩
    have inside :
        .block position opener content ∈ left ++ .block position opener content :: right :=
      List.mem_append_right left List.mem_cons_self
    rw [free.list_eq, isBlank_eq_false_of_block inside]
    rfl
  inOrder := by
    intro tokens
    refine ⟨isParted_foldl_collect tokens, ?_⟩
    rw [← groups_eq_foldl]
    exact list_eq tokens
  gap := by
    intro gap none left right comma other isComma isCommaToo
    have front : list (gap ++ other :: right) = list right := by
      rw [list_append_comma gap right isCommaToo, none, List.nil_append]
    refine ⟨?_, ?_, ?_⟩
    · rw [list_append_comma gap right isComma, none, List.nil_append]
    · rw [list_append_comma left gap isComma, none, List.append_nil]
    · rw [list_append_comma left _ isComma, front, list_append_comma left right isComma]
  length_le := by
    intro tokens
    rw [list_eq, List.length_map, ← (isParted_groups tokens).length_eq]
    exact List.length_filter_le _ _

/-- The comma in a function parts nothing, and what stands between two commas may be blank. -/
theorem list_splitsAtCommas_at_function_and_gap :
    list ([.leaf ⟨1, 1⟩ (.literal [':']),
        .block ⟨1, 2⟩ (.function ['i', 's']) [.leaf ⟨1, 5⟩ (.ident ['a']),
          .leaf ⟨1, 6⟩ (.literal [',']), .leaf ⟨1, 7⟩ (.ident ['b'])]] ++
      .leaf ⟨1, 9⟩ (.literal [',']) :: ([.leaf ⟨1, 10⟩ (.whitespace [' '])] ++
        .leaf ⟨1, 11⟩ (.literal [',']) :: [.leaf ⟨1, 12⟩ (.ident ['c'])])) =
      [[':', 'i', 's', '(', 'a', ',', 'b', ')'], ['c']] := by
  have colon : IsCommaFree [.leaf ⟨1, 1⟩ (.literal [':'])] := List.forall_mem_singleton.mpr rfl
  have front := list_splitsAtCommas.enclosed _ [.leaf ⟨1, 5⟩ (.ident ['a']),
    .leaf ⟨1, 6⟩ (.literal [',']), .leaf ⟨1, 7⟩ (.ident ['b'])] [] ⟨1, 2⟩ (.function ['i', 's'])
    colon isCommaFree_nil
  have blank : list [.leaf ⟨1, 10⟩ (.whitespace [' '])] = [] :=
    list_splitsAtCommas.commaFree _ (List.forall_mem_singleton.mpr rfl)
  have last : list [.leaf ⟨1, 12⟩ (.ident ['c'])] = [['c']] :=
    list_splitsAtCommas.commaFree _ (List.forall_mem_singleton.mpr rfl)
  refine (list_splitsAtCommas.gap _ blank _ _ _ _ rfl rfl).2.2.trans ?_
  exact (list_splitsAtCommas.append_comma _ _ _ rfl).trans (congrArg₂ (· ++ ·) front last)

end SheetCensus.Selector
