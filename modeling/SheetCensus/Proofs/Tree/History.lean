import Mathlib.Data.List.Nodup
import SheetCensus.Tree.Change

set_option autoImplicit false

/-! Trees by what stands in them. Changes keep one entry for each location (`Tree.after_isSound`),
so trees with the same node at every location answer every path alike, whatever was done to come to
them. The names in a directory come out strictly increasing, and they are the same for every order
in which its entries may be enumerated (`Tree.Enumerates.inOrder_eq`). -/

namespace SheetCensus

/-! ### The order of texts -/

namespace Text

def codePoints (text : Text) : List Nat :=
  text.map Char.toNat

theorem precedes_iff (left right : Text) :
    precedes left right = true ↔ left = right ∨ left.codePoints < right.codePoints := by
  induction left generalizing right with
  | nil =>
      cases right with
      | nil => exact iff_of_true rfl (Or.inl rfl)
      | cons other others => exact iff_of_true rfl (Or.inr (List.nil_lt_cons _ _))
  | cons first rest ih =>
      cases right with
      | nil =>
          refine iff_of_false Bool.false_ne_true ?_
          rintro (impossible | impossible)
          · cases impossible
          · exact List.not_lt_nil _ impossible
      | cons other others =>
          simp only [codePoints, List.map_cons, List.cons_lt_cons_iff, precedes, List.cons.injEq]
          by_cases below : first.toNat < other.toNat
          · rw [if_pos below]
            exact iff_of_true rfl (Or.inr (Or.inl below))
          rw [if_neg below]
          by_cases above : other.toNat < first.toNat
          · rw [if_pos above]
            refine iff_of_false Bool.false_ne_true ?_
            rintro (⟨rfl, _⟩ | below | ⟨level, _⟩) <;> omega
          · have level : first.toNat = other.toNat := by omega
            obtain rfl : first = other := Char.toNat_inj.mp level
            rw [if_neg above, ih]
            simp only [codePoints, Nat.lt_irrefl, true_and, false_or]

end Text

/-! ### Changes keep the order of a tree -/

namespace Tree

/-- A location has one entry at most, and relative paths begin at a given location. -/
structure IsSound (start : Location) (tree : Tree) : Prop where
  once : (tree.nodes.map Prod.fst).Nodup
  current_eq : tree.current = start

theorem empty_isSound : empty.IsSound [] :=
  ⟨List.nodup_nil, rfl⟩

section

variable {start : Location} {tree : Tree} (sound : tree.IsSound start)

include sound

theorem IsSound.filter (kept : Location × Node → Bool) :
    IsSound start { tree with nodes := tree.nodes.filter kept } :=
  ⟨sound.once.sublist (List.filter_sublist.map Prod.fst), sound.current_eq⟩

theorem IsSound.put (location : Location) (node : Node) :
    (tree.put location node).IsSound start := by
  refine ⟨List.nodup_cons.mpr ⟨?_, (sound.filter _).once⟩, sound.current_eq⟩
  intro member
  obtain ⟨entry, kept, same⟩ := List.mem_map.mp member
  have other := (List.mem_filter.mp kept).2
  exact bne_iff_ne.mp other same

theorem makeDirectory_isSound (text : Text) : (tree.makeDirectory text).tree.IsSound start := by
  unfold makeDirectory
  split
  · exact sound
  · exact sound
  · exact sound.put _ _
  · exact sound

theorem fill_isSound (text : Text) (bytes : List UInt8) :
    (tree.fill text bytes).tree.IsSound start := by
  unfold fill
  split
  · exact sound
  · split
    · exact sound
    · exact sound.put _ _
    · exact sound.put _ _
    · exact sound

theorem remove_isSound (text : Text) : (tree.remove text).tree.IsSound start := by
  unfold remove
  split
  · exact sound
  · exact sound.filter _
  · dsimp only
    split
    · exact sound.filter _
    · split
      · exact sound.filter _
      · exact (sound.filter _).filter _

end

theorem goOn_isSound {start : Location} {change : Change} (sound : change.tree.IsSound start)
    (text : Text) : (goOn change text).tree.IsSound start := by
  unfold goOn
  split
  · exact makeDirectory_isSound sound text
  · exact makeDirectory_isSound sound text
  · exact sound

theorem foldl_goOn_isSound {start : Location} (texts : List Text) {change : Change}
    (sound : change.tree.IsSound start) : (texts.foldl goOn change).tree.IsSound start := by
  induction texts generalizing change with
  | nil => exact sound
  | cons text others ih => exact ih (goOn_isSound sound text)

theorem makeDirectories_isSound {start : Location} {tree : Tree} (sound : tree.IsSound start)
    (text : Text) : (tree.makeDirectories text).tree.IsSound start := by
  unfold makeDirectories
  split
  · exact sound
  · exact foldl_goOn_isSound _ sound

theorem write_isSound {start : Location} {tree : Tree} (sound : tree.IsSound start) (text : Text)
    (bytes : List UInt8) : (tree.write text bytes).tree.IsSound start := by
  have made := makeDirectories_isSound sound (Path.front text)
  unfold write
  split
  · exact fill_isSound sound text bytes
  · dsimp only
    split
    · exact fill_isSound made text bytes
    · exact made

end Tree

inductive Edit where
  | write (path : Text) (bytes : List UInt8)
  | makeDirectories (path : Text)
  | remove (path : Text)

def Edit.change (tree : Tree) : Edit → Change
  | write path bytes => tree.write path bytes
  | makeDirectories path => tree.makeDirectories path
  | remove path => tree.remove path

namespace Tree

/-- The tree that is left when changes were asked for one after the other, whether they stopped
halfway or not. -/
def after (tree : Tree) (edits : List Edit) : Tree :=
  edits.foldl (fun tree edit => (edit.change tree).tree) tree

theorem change_isSound {start : Location} {tree : Tree} (sound : tree.IsSound start)
    (edit : Edit) : (edit.change tree).tree.IsSound start := by
  cases edit with
  | write path bytes => exact write_isSound sound path bytes
  | makeDirectories path => exact makeDirectories_isSound sound path
  | remove path => exact remove_isSound sound path

theorem after_isSound {start : Location} (edits : List Edit) {tree : Tree}
    (sound : tree.IsSound start) : (tree.after edits).IsSound start := by
  induction edits generalizing tree with
  | nil => exact sound
  | cons edit others ih => exact ih (change_isSound sound edit)

/-! ### Trees with the same nodes -/

/-- The same files with the same bytes and the same directories at the same locations. -/
def SameNodes (tree other : Tree) : Prop :=
  ∀ location, tree.node? location = other.node? location

theorem startOf_congr {start : Location} {tree other : Tree} (sound : tree.IsSound start)
    (soundToo : other.IsSound start) (path : Path) : tree.startOf path = other.startOf path := by
  rw [startOf, startOf, sound.current_eq, soundToo.current_eq]

section

variable {start : Location} {tree other : Tree} (same : tree.SameNodes other)

include same

theorem walk_congr (here : Location) (pieces : List Text) :
    tree.walk here pieces = other.walk here pieces := by
  induction pieces generalizing here with
  | nil => rfl
  | cons piece rest ih => simp only [walk, same here, same (here ++ [piece]), ih]

theorem follow_congr (text : Text) (here : Location) (pieces : List Text) :
    tree.follow text here pieces = other.follow text here pieces := by
  simp only [follow, walk_congr same, same _]

variable (sound : tree.IsSound start) (soundToo : other.IsSound start)

include sound soundToo

theorem find_congr (path : Path) : tree.find path = other.find path := by
  rw [find, find, startOf_congr sound soundToo, follow_congr same]

theorem leadsToFile_congr (text : Text) : tree.leadsToFile text = other.leadsToFile text := by
  rw [leadsToFile, leadsToFile, findText, findText, startOf_congr sound soundToo,
    follow_congr same]

theorem read_congr (path : Path) : tree.read path = other.read path := by
  rw [read, read, find_congr same sound soundToo]

end

/-! ### The names in a directory -/

/-- An enumeration of a directory: every name in it once, in whatever order. -/
structure Enumerates (tree : Tree) (here : Location) (names : List Text) : Prop where
  once : names.Nodup
  all : ∀ name, name ∈ names ↔ (tree.node? (here ++ [name])).isSome = true

def nameIn? (here location : Location) : Option Text :=
  match location.getLast? with
  | some name => if location.dropLast = here then some name else none
  | none => none

theorem nameIn?_eq_some_iff (here location : Location) (name : Text) :
    nameIn? here location = some name ↔ location = here ++ [name] := by
  unfold nameIn?
  constructor
  · intro found
    cases ends : location.getLast? with
    | none =>
        rw [ends] at found
        cases found
    | some last =>
        rw [ends] at found
        obtain ⟨inside, same⟩ := Option.ite_none_right_eq_some.mp found
        cases same
        rw [← inside]
        exact (List.dropLast_append_getLast? name ends).symm
  · rintro rfl
    simp only [List.getLast?_concat, List.dropLast_concat, if_true]

theorem isSome_node?_iff (tree : Tree) (location : Location) (notRoot : location ≠ []) :
    (tree.node? location).isSome = true ↔ location ∈ tree.nodes.map Prod.fst := by
  rw [node?, if_neg notRoot, List.lookup_isSome_iff, List.mem_map]
  exact exists_congr (fun entry => and_congr_right (fun _ => beq_iff_eq.trans eq_comm))

theorem enumerates_childNames {start : Location} {tree : Tree} (sound : tree.IsSound start)
    (here : Location) : tree.Enumerates here (tree.nodes.filterMap (childName? here)) := by
  have byLocation : tree.nodes.filterMap (childName? here) =
      (tree.nodes.map Prod.fst).filterMap (nameIn? here) := by
    rw [List.filterMap_map]
    rfl
  rw [byLocation]
  constructor
  · apply sound.once.filterMap
    intro location other name found foundToo
    rw [(nameIn?_eq_some_iff here location name).mp found,
      (nameIn?_eq_some_iff here other name).mp foundToo]
  · intro name
    rw [isSome_node?_iff tree (here ++ [name]) (List.append_ne_nil_of_right_ne_nil _ (by simp)),
      List.mem_filterMap]
    simp only [nameIn?_eq_some_iff, exists_eq_right]

theorem Enumerates.inOrder_eq {tree other : Tree} {here : Location} {names others : List Text}
    (enumerates : tree.Enumerates here names) (enumeratesToo : other.Enumerates here others)
    (same : tree.SameNodes other) :
    inOrder Text.precedes names = inOrder Text.precedes others := by
  apply inOrder_eq_of_perm Text.precedes Text.precedes_total Text.precedes_trans
    Text.precedes_antisymm
  apply (List.perm_ext_iff_of_nodup enumerates.once enumeratesToo.once).mpr
  intro name
  rw [enumerates.all, enumeratesToo.all, same]

theorem namesAt_enumerates {start : Location} {tree : Tree} (sound : tree.IsSound start)
    (here : Location) : tree.Enumerates here (tree.namesAt here) := by
  have perm := inOrder_perm Text.precedes (tree.nodes.filterMap (childName? here))
  have given := enumerates_childNames sound here
  exact ⟨perm.nodup_iff.mpr given.once, fun name => perm.mem_iff.trans (given.all name)⟩

theorem namesAt_increasing {start : Location} {tree : Tree} (sound : tree.IsSound start)
    (here : Location) :
    (tree.namesAt here).Pairwise (fun name later => name.codePoints < later.codePoints) := by
  have ordered : (tree.namesAt here).Pairwise (Text.precedes · · = true) :=
    pairwise_inOrder Text.precedes Text.precedes_total Text.precedes_trans _
  apply (ordered.and (namesAt_enumerates sound here).once).imp
  rintro name later ⟨early, different⟩
  exact ((Text.precedes_iff name later).mp early).resolve_left different

end Tree

end SheetCensus
