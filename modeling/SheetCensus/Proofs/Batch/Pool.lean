import Mathlib.Logic.Relation
import SheetCensus.Proofs.Batch.Gathering

set_option autoImplicit false

/-! A batch while its workers are at it. Workers take the files in the order of the listing and
finish them in any order; meanwhile the attempts are picked up place by place, and at the first
failure the files that no worker has taken yet are dropped. Every run of a pool ends
(`step_wellFounded`), and it ends with the answer that is collected from all attempts in order
(`answer_of_last`), whatever the schedule and the number of workers. -/

namespace SheetCensus.Batch

/-- Files that wait for a worker or are being worked on, attempts that are not picked up yet, and
the records of those that are. The place to be picked up next is the number of the records. -/
structure Pool where
  waiting : List (Nat × Text)
  running : List (Nat × Text)
  finished : List (Nat × Attempt)
  records : List Record
  failure : Option Failure

namespace Pool

def start (files : List Text) : Pool :=
  ⟨files.mapIdx Prod.mk, [], [], [], none⟩

def answer (pool : Pool) : Except Failure (List Record) :=
  match pool.failure with
  | some failure => .error failure
  | none => .ok pool.records

inductive Step (work : Text → Attempt) (workers : Nat) : Pool → Pool → Prop where
  | take {entry : Nat × Text} {waiting running : List (Nat × Text)}
      {finished : List (Nat × Attempt)} {records : List Record} {failure : Option Failure}
      (idle : running.length < workers) :
      Step work workers ⟨entry :: waiting, running, finished, records, failure⟩
        ⟨waiting, entry :: running, finished, records, failure⟩
  | finish {place : Nat} {file : Text} {waiting before after : List (Nat × Text)}
      {finished : List (Nat × Attempt)} {records : List Record} {failure : Option Failure} :
      Step work workers ⟨waiting, before ++ (place, file) :: after, finished, records, failure⟩
        ⟨waiting, before ++ after, (place, work file) :: finished, records, failure⟩
  | pick {attempt : Attempt} {record : Record} {waiting running : List (Nat × Text)}
      {before after : List (Nat × Attempt)} {records : List Record}
      (made : attempt.outcome = .ok record) :
      Step work workers
        ⟨waiting, running, before ++ (records.length, attempt) :: after, records, none⟩
        ⟨waiting, running, before ++ after, records ++ [record], none⟩
  | fail {attempt : Attempt} {failure : Failure} {waiting running : List (Nat × Text)}
      {before after : List (Nat × Attempt)} {records : List Record}
      (missed : attempt.outcome = .error failure) :
      Step work workers
        ⟨waiting, running, before ++ (records.length, attempt) :: after, records, none⟩
        ⟨waiting, running, before ++ after, records, some failure⟩
  | drop {entry : Nat × Text} {before after running : List (Nat × Text)}
      {finished : List (Nat × Attempt)} {records : List Record} {failure : Failure} :
      Step work workers ⟨before ++ entry :: after, running, finished, records, some failure⟩
        ⟨before ++ after, running, finished, records, some failure⟩

def IsLast (work : Text → Attempt) (workers : Nat) (pool : Pool) : Prop :=
  ∀ next, ¬ Step work workers pool next

/-! ### Every run ends -/

def toDo (pool : Pool) : Nat :=
  3 * pool.waiting.length + 2 * pool.running.length + pool.finished.length

theorem toDo_lt_of_step {work : Text → Attempt} {workers : Nat} {pool next : Pool}
    (step : Step work workers pool next) : next.toDo < pool.toDo := by
  cases step <;> simp only [toDo, List.length_cons, List.length_append] <;> omega

theorem step_wellFounded (work : Text → Attempt) (workers : Nat) :
    WellFounded (fun next pool => Step work workers pool next) := by
  apply Subrelation.wf _ (InvImage.wf toDo Nat.lt_wfRel.wf)
  intro next pool step
  exact toDo_lt_of_step step

/-! ### What a run keeps -/

def attemptOn (work : Text → Attempt) (entry : Nat × Text) : Nat × Attempt :=
  (entry.1, work entry.2)

def ahead (work : Text → Attempt) (pool : Pool) : List (Nat × Attempt) :=
  (pool.waiting ++ pool.running).map (attemptOn work) ++ pool.finished

/-- The records are those of the first files, and until a failure is found the other files are
all ahead, each once. A failure is that of the file after the ones with records. -/
structure IsSound (work : Text → Attempt) (files : List Text) (pool : Pool) : Prop where
  records_made : AllMade ((files.take pool.records.length).map work) pool.records
  ahead_perm : pool.failure = none →
    (pool.ahead work).Perm ((placed work files).drop pool.records.length)
  failed_next : ∀ failure, pool.failure = some failure →
    ∃ file, files[pool.records.length]? = some file ∧ (work file).outcome = .error failure

theorem start_isSound (work : Text → Attempt) (files : List Text) :
    (start files).IsSound work files where
  records_made := .nil
  ahead_perm := by
    intro _
    change ((files.mapIdx Prod.mk ++ []).map _ ++ []).Perm (placed work files)
    rw [List.append_nil, List.append_nil]
    apply List.Perm.of_eq
    apply List.ext_getElem?
    intro place
    rw [getElem?_placed, List.getElem?_map, List.getElem?_mapIdx, Option.map_map]
    rfl
  failed_next := by
    intro failure impossible
    cases impossible

private theorem perm_pulled {α : Type} (front before after : List α) (element : α) :
    (front ++ (before ++ element :: after)).Perm (element :: (front ++ (before ++ after))) := by
  rw [← List.append_assoc, ← List.append_assoc]
  exact List.perm_middle

theorem ahead_take (work : Text → Attempt) (entry : Nat × Text)
    (waiting running : List (Nat × Text)) (finished : List (Nat × Attempt))
    (records : List Record) (failure : Option Failure) :
    (ahead work ⟨waiting, entry :: running, finished, records, failure⟩).Perm
      (ahead work ⟨entry :: waiting, running, finished, records, failure⟩) :=
  (List.perm_middle.map (attemptOn work)).append_right finished

theorem ahead_finish (work : Text → Attempt) (entry : Nat × Text)
    (waiting before after : List (Nat × Text)) (finished : List (Nat × Attempt))
    (records : List Record) (failure : Option Failure) :
    (ahead work ⟨waiting, before ++ after, attemptOn work entry :: finished, records,
        failure⟩).Perm
      (ahead work ⟨waiting, before ++ entry :: after, finished, records, failure⟩) := by
  apply List.perm_middle.trans
  have pulled := (perm_pulled waiting before after entry).map (attemptOn work)
  exact pulled.symm.append_right finished

theorem ahead_pick (work : Text → Attempt) (entry : Nat × Attempt)
    (waiting running : List (Nat × Text)) (before after : List (Nat × Attempt))
    (records later : List Record) (failure : Option Failure) :
    (entry :: ahead work ⟨waiting, running, before ++ after, later, failure⟩).Perm
      (ahead work ⟨waiting, running, before ++ entry :: after, records, none⟩) :=
  (perm_pulled ((waiting ++ running).map (attemptOn work)) before after entry).symm

/-- The attempt that is picked up next is that of the next file. -/
theorem next_of_ahead {work : Text → Attempt} {files : List Text} {place : Nat} {attempt : Attempt}
    {rest : List (Nat × Attempt)}
    (same : ((place, attempt) :: rest).Perm ((placed work files).drop place)) :
    (∃ file, files[place]? = some file ∧ work file = attempt) ∧
      rest.Perm ((placed work files).drop (place + 1)) := by
  have member := List.mem_of_mem_drop (same.mem_iff.mp List.mem_cons_self)
  obtain ⟨file, listed, rfl⟩ := (mem_placed work files place attempt).mp member
  refine ⟨⟨file, listed, rfl⟩, ?_⟩
  rw [drop_placed work files place file listed] at same
  exact same.cons_inv

theorem allMade_take_succ {work : Text → Attempt} {files : List Text} {records : List Record}
    (made : AllMade ((files.take records.length).map work) records) {file : Text}
    {record : Record} (listed : files[records.length]? = some file)
    (recordMade : (work file).outcome = .ok record) :
    AllMade ((files.take (records ++ [record]).length).map work) (records ++ [record]) := by
  rw [List.length_append, List.length_singleton, List.take_add_one, listed, Option.toList_some,
    List.map_append]
  exact allMade_append made (.cons recordMade .nil)

theorem isSound_of_step {work : Text → Attempt} {files : List Text} {workers : Nat}
    {pool next : Pool} (step : Step work workers pool next) (sound : pool.IsSound work files) :
    next.IsSound work files := by
  obtain ⟨made, aheadPerm, failed⟩ := sound
  cases step with
  | take _ =>
      exact ⟨made, fun clear => (ahead_take work _ _ _ _ _ _).trans (aheadPerm clear), failed⟩
  | finish =>
      exact ⟨made, fun clear => (ahead_finish work _ _ _ _ _ _ _).trans (aheadPerm clear), failed⟩
  | @pick attempt record waiting running before after records recordMade =>
      have front := (ahead_pick work (records.length, attempt) waiting running before after records
        (records ++ [record]) none).trans (aheadPerm rfl)
      obtain ⟨⟨file, listed, rfl⟩, rest⟩ := next_of_ahead front
      refine ⟨allMade_take_succ made listed recordMade, ?_, ?_⟩
      · intro _
        change (ahead work _).Perm (List.drop (records ++ [record]).length _)
        rw [List.length_append, List.length_singleton]
        exact rest
      · intro failure impossible
        cases impossible
  | @fail attempt failure waiting running before after records missed =>
      have front := (ahead_pick work (records.length, attempt) waiting running before after records
        records none).trans (aheadPerm rfl)
      obtain ⟨⟨file, listed, rfl⟩, _⟩ := next_of_ahead front
      refine ⟨made, ?_, ?_⟩
      · intro impossible
        cases impossible
      · intro found same
        cases same
        exact ⟨file, listed, missed⟩
  | drop =>
      refine ⟨made, ?_, failed⟩
      intro impossible
      cases impossible

theorem isSound_of_reachable {work : Text → Attempt} {files : List Text} {workers : Nat}
    {pool : Pool} (reached : Relation.ReflTransGen (Step work workers) (start files) pool) :
    pool.IsSound work files := by
  induction reached with
  | refl => exact start_isSound work files
  | tail _ step ih => exact isSound_of_step step ih

/-! ### The last pool of a run -/

theorem running_eq_nil_of_isLast {work : Text → Attempt} {workers : Nat} {pool : Pool}
    (last : pool.IsLast work workers) : pool.running = [] := by
  obtain ⟨waiting, running, finished, records, failure⟩ := pool
  cases running with
  | nil => rfl
  | cons entry running =>
      have step : Step work workers ⟨waiting, [] ++ entry :: running, finished, records, failure⟩
          ⟨waiting, [] ++ running, attemptOn work entry :: finished, records, failure⟩ := .finish
      exact absurd step (last _)

theorem waiting_eq_nil_of_isLast {work : Text → Attempt} {workers : Nat} (staffed : 0 < workers)
    {pool : Pool} (last : pool.IsLast work workers) : pool.waiting = [] := by
  have none := running_eq_nil_of_isLast last
  obtain ⟨waiting, running, finished, records, failure⟩ := pool
  cases none
  cases waiting with
  | nil => rfl
  | cons entry waiting => exact absurd (Step.take staffed) (last _)

/-- Without a failure the last pool has picked up everything: an attempt at the next place would
be picked up. -/
theorem length_le_of_isLast {work : Text → Attempt} {files : List Text} {workers : Nat}
    (staffed : 0 < workers) {pool : Pool} (last : pool.IsLast work workers)
    (sound : pool.IsSound work files) (clear : pool.failure = none) :
    files.length ≤ pool.records.length := by
  have notRunning := running_eq_nil_of_isLast last
  have notWaiting := waiting_eq_nil_of_isLast staffed last
  have aheadPerm := sound.ahead_perm clear
  obtain ⟨waiting, running, finished, records, failure⟩ := pool
  cases notRunning
  cases notWaiting
  cases clear
  change finished.Perm ((placed work files).drop records.length) at aheadPerm
  apply Nat.le_of_not_lt
  intro bound
  obtain ⟨file, listed⟩ : ∃ file, files[records.length]? = some file :=
    ⟨_, List.getElem?_eq_getElem bound⟩
  rw [drop_placed work files _ file listed] at aheadPerm
  obtain ⟨before, after, rfl⟩ :=
    List.append_of_mem (aheadPerm.mem_iff.mpr List.mem_cons_self)
  cases outcome : (work file).outcome with
  | ok record => exact last _ (.pick outcome)
  | error failure => exact last _ (.fail outcome)

theorem answer_of_last {work : Text → Attempt} {files : List Text} {workers : Nat}
    (staffed : 0 < workers) {pool : Pool}
    (reached : Relation.ReflTransGen (Step work workers) (start files) pool)
    (last : pool.IsLast work workers) : pool.answer = collect (files.map work) := by
  have sound := isSound_of_reachable reached
  have made := sound.records_made
  unfold answer
  cases found : pool.failure with
  | some failure =>
      obtain ⟨file, listed, missed⟩ := sound.failed_next failure found
      obtain ⟨bound, entry⟩ := List.getElem?_eq_some_iff.mp listed
      have parts : files =
          files.take pool.records.length ++ file :: files.drop (pool.records.length + 1) := by
        rw [← entry, ← List.drop_eq_getElem_cons bound, List.take_append_drop]
      rw [parts, List.map_append, List.map_cons]
      exact (collect_of_first_failure made (work file) _ failure missed).symm
  | none =>
      have all := length_le_of_isLast staffed last sound found
      rw [List.take_of_length_le all] at made
      exact (collect_of_allMade made).symm

end Pool

end SheetCensus.Batch
