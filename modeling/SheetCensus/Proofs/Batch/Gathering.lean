import Mathlib.Data.List.Forall2
import SheetCensus.Batch.Run

set_option autoImplicit false

/-! The answer of a batch from the attempts of its files. Finished work that is gathered stands in
the order of the listing whatever the order it was finished in (`gather_of_perm`), and of attempts
in that order all records are collected or the first failure (`collect_isAnswer`). -/

namespace SheetCensus.Batch

/-! ### Collecting -/

def AllMade (attempts : List Attempt) (records : List Record) : Prop :=
  List.Forall₂ (fun attempt record => attempt.outcome = .ok record) attempts records

theorem allMade_append {attempts more : List Attempt} {records others : List Record}
    (made : AllMade attempts records) (madeToo : AllMade more others) :
    AllMade (attempts ++ more) (records ++ others) := by
  unfold AllMade at made
  induction made with
  | nil => exact madeToo
  | cons first _ ih => exact .cons first ih

theorem exists_allMade (attempts : List Attempt)
    (each : ∀ attempt ∈ attempts, ∃ record, attempt.outcome = .ok record) :
    ∃ records, AllMade attempts records := by
  induction attempts with
  | nil => exact ⟨[], .nil⟩
  | cons attempt rest ih =>
      obtain ⟨record, made⟩ := each attempt List.mem_cons_self
      obtain ⟨records, later⟩ := ih (fun other member => each other (List.mem_cons_of_mem _ member))
      exact ⟨record :: records, .cons made later⟩

theorem collect_of_allMade {attempts : List Attempt} {records : List Record}
    (made : AllMade attempts records) : collect attempts = .ok records := by
  unfold AllMade at made
  induction made with
  | nil => rfl
  | cons first _ ih =>
      unfold collect
      rw [first, ih]

theorem collect_of_first_failure {before : List Attempt} {records : List Record}
    (made : AllMade before records) (attempt : Attempt) (after : List Attempt) (failure : Failure)
    (missed : attempt.outcome = .error failure) :
    collect (before ++ attempt :: after) = .error failure := by
  unfold AllMade at made
  induction made with
  | nil =>
      change collect (attempt :: after) = _
      unfold collect
      rw [missed]
  | cons first _ ih =>
      rw [List.cons_append]
      unfold collect
      rw [first, ih]

/-- What the answer of a batch is to be: a record for each file, in the order of the files, or
else the failure of the first file that has no record. -/
structure IsAnswer (work : Text → Attempt) (files : List Text)
    (answer : Except Failure (List Record)) : Prop where
  records_of_all : (∀ file ∈ files, ∃ record, (work file).outcome = .ok record) →
    ∃ records, answer = .ok records ∧
      List.Forall₂ (fun file record => (work file).outcome = .ok record) files records
  error_of_first : ∀ before file after failure, files = before ++ file :: after →
    (∀ other ∈ before, ∃ record, (work other).outcome = .ok record) →
      (work file).outcome = .error failure → answer = .error failure

theorem exists_allMade_map (work : Text → Attempt) (files : List Text)
    (each : ∀ file ∈ files, ∃ record, (work file).outcome = .ok record) :
    ∃ records, AllMade (files.map work) records := by
  apply exists_allMade
  intro attempt member
  obtain ⟨file, listed, rfl⟩ := List.mem_map.mp member
  exact each file listed

theorem collect_isAnswer (work : Text → Attempt) (files : List Text) :
    IsAnswer work files (collect (files.map work)) where
  records_of_all := by
    intro each
    obtain ⟨records, made⟩ := exists_allMade_map work files each
    exact ⟨records, collect_of_allMade made, List.forall₂_map_left_iff.mp made⟩
  error_of_first := by
    rintro before file after failure rfl each missed
    obtain ⟨records, made⟩ := exists_allMade_map work before each
    rw [List.map_append, List.map_cons]
    exact collect_of_first_failure made (work file) (after.map work) failure missed

/-! ### Gathering -/

def placed (work : Text → Attempt) (files : List Text) : List (Nat × Attempt) :=
  files.mapIdx (fun place file => (place, work file))

theorem getElem?_placed (work : Text → Attempt) (files : List Text) (place : Nat) :
    (placed work files)[place]? = files[place]?.map (fun file => (place, work file)) :=
  List.getElem?_mapIdx

theorem mem_placed (work : Text → Attempt) (files : List Text) (place : Nat) (attempt : Attempt) :
    (place, attempt) ∈ placed work files ↔
      ∃ file, files[place]? = some file ∧ work file = attempt := by
  rw [List.mem_iff_getElem?]
  constructor
  · rintro ⟨index, found⟩
    rw [getElem?_placed] at found
    obtain ⟨file, listed, same⟩ := Option.map_eq_some_iff.mp found
    cases same
    exact ⟨file, listed, rfl⟩
  · rintro ⟨file, listed, rfl⟩
    refine ⟨place, ?_⟩
    rw [getElem?_placed, listed]
    rfl

theorem drop_placed (work : Text → Attempt) (files : List Text) (place : Nat) (file : Text)
    (listed : files[place]? = some file) :
    (placed work files).drop place =
      (place, work file) :: (placed work files).drop (place + 1) := by
  have there : (placed work files)[place]? = some (place, work file) := by
    rw [getElem?_placed, listed]
    rfl
  obtain ⟨bound, entry⟩ := List.getElem?_eq_some_iff.mp there
  rw [List.drop_eq_getElem_cons bound, entry]

theorem map_snd_placed (work : Text → Attempt) (files : List Text) :
    (placed work files).map Prod.snd = files.map work := by
  apply List.ext_getElem?
  intro place
  rw [List.getElem?_map, getElem?_placed, List.getElem?_map, Option.map_map]
  rfl

theorem pairwise_placed (work : Text → Attempt) (files : List Text) :
    (placed work files).Pairwise (fun left right => decide (left.1 ≤ right.1) = true) := by
  unfold placed
  apply List.pairwise_iff_getElem.mpr
  intro left right leftBound rightBound earlier
  rw [List.getElem_mapIdx, List.getElem_mapIdx, decide_eq_true_iff]
  exact Nat.le_of_lt earlier

theorem gather_of_perm (work : Text → Attempt) (files : List Text)
    (finished : List (Nat × Attempt)) (same : finished.Perm (placed work files)) :
    gather finished = files.map work := by
  unfold gather
  rw [← map_snd_placed]
  congr 1
  have reordered := (inOrder_perm (fun left right => left.1 ≤ right.1) finished).trans same
  apply List.Perm.eq_of_pairwise _ (pairwise_inOrder _ _ _ finished) (pairwise_placed work files)
    reordered
  · -- One place has one attempt, so places tell the attempts apart.
    rintro ⟨place, attempt⟩ ⟨other, attemptThere⟩ member memberThere early late
    obtain rfl : place = other :=
      Nat.le_antisymm (of_decide_eq_true early) (of_decide_eq_true late)
    obtain ⟨file, listed, rfl⟩ := (mem_placed work files place _).mp (reordered.mem_iff.mp member)
    obtain ⟨twin, listedToo, rfl⟩ := (mem_placed work files place _).mp memberThere
    rw [listed] at listedToo
    cases listedToo
    rfl
  · intro left right
    rw [decide_eq_true_iff, decide_eq_true_iff]
    exact Nat.le_total left.1 right.1
  · intro left middle right first second
    exact decide_eq_true (Nat.le_trans (of_decide_eq_true first) (of_decide_eq_true second))

end SheetCensus.Batch
