import SheetCensus.Proofs.Batch.Pool

set_option autoImplicit false

/-! The answer of a whole batch. A batch with workers comes to the answer that is collected from
its files in the order of the listing (`run_records`), so neither the number of workers nor the
order in which they finish shows in it (`run_isAnswer`). -/

namespace SheetCensus.Batch

def directoryOf (directory : Option Text) (config : Config) : Path :=
  Path.ofText (directory.getD config.directory)

def workOf [Codecs] (tree : Tree) (directory : Option Text) (config : Config) (file : Text) :
    Attempt :=
  Attempt.ofFile tree (directoryOf directory config) file config

theorem ofFinished_records (finished : List (Nat × Attempt)) :
    (ofFinished finished).map Result.records = collect (gather finished) := by
  unfold ofFinished
  dsimp only
  cases collect (gather finished) with
  | error failure => rfl
  | ok records => rfl

theorem ofFinished_records_of_perm [Codecs] (tree : Tree) (directory : Option Text)
    (config : Config)
    (files : List Text) (finished : List (Nat × Attempt))
    (same : finished.Perm (attempts tree (directoryOf directory config) config files)) :
    (ofFinished finished).map Result.records =
      collect (files.map (workOf tree directory config)) := by
  rw [ofFinished_records, gather_of_perm (workOf tree directory config) files finished same]

theorem run_unlisted [Codecs] (tree : Tree) (directory : Option Text) (config : Config)
    (failure : Failure)
    (unlisted : listing tree (directoryOf directory config) = .error failure) :
    run tree directory config = .error failure := by
  unfold directoryOf at unlisted
  unfold run
  dsimp only
  rw [unlisted]

theorem run_records [Codecs] (tree : Tree) (directory : Option Text) (config : Config)
    (files : List Text)
    (staffed : 1 ≤ config.workers)
    (listed : listing tree (directoryOf directory config) = .ok files) :
    (run tree directory config).map Result.records =
      collect (files.map (workOf tree directory config)) := by
  have found := listed
  unfold directoryOf at found
  unfold run
  dsimp only
  rw [found]
  cases files with
  | nil => rfl
  | cons file files =>
      dsimp only
      rw [if_neg (Int.not_lt.mpr staffed)]
      exact ofFinished_records_of_perm tree directory config (file :: files) _ (List.Perm.refl _)

/-- Only whether there are workers matters. -/
theorem run_workers [Codecs] (tree : Tree) (directory : Option Text) (config : Config) (count : Int)
    (staffed : 1 ≤ config.workers) (staffedToo : 1 ≤ count) :
    run tree directory { config with workers := count } = run tree directory config := by
  unfold run
  dsimp only
  cases listing tree (Path.ofText (directory.getD config.directory)) with
  | error failure => rfl
  | ok files =>
      cases files with
      | nil => rfl
      | cons file files =>
          dsimp only
          rw [if_neg (Int.not_lt.mpr staffed), if_neg (Int.not_lt.mpr staffedToo)]
          rfl

/-- The answer of a batch with workers is positional and all or nothing. It is the same for any
number of workers, for any order in which the attempts are finished, and at the end of any run of
a pool that works on the files. -/
theorem run_isAnswer [Codecs] (tree : Tree) (directory : Option Text) (config : Config)
    (staffed : 1 ≤ config.workers) :
    (∀ failure, listing tree (directoryOf directory config) = .error failure →
      run tree directory config = .error failure) ∧
    (∀ count, 1 ≤ count →
      run tree directory { config with workers := count } = run tree directory config) ∧
    ∀ files, listing tree (directoryOf directory config) = .ok files →
      IsAnswer (workOf tree directory config) files
        ((run tree directory config).map Result.records) ∧
      (∀ finished, finished.Perm (attempts tree (directoryOf directory config) config files) →
        (ofFinished finished).map Result.records =
          (run tree directory config).map Result.records) ∧
      ∀ workers, 0 < workers →
        WellFounded (fun next pool =>
          Pool.Step (workOf tree directory config) workers pool next) ∧
        ∀ pool, Relation.ReflTransGen (Pool.Step (workOf tree directory config) workers)
            (Pool.start files) pool →
          pool.IsLast (workOf tree directory config) workers →
            pool.answer = (run tree directory config).map Result.records := by
  refine ⟨?_, ?_, ?_⟩
  · intro failure unlisted
    exact run_unlisted tree directory config failure unlisted
  · intro count staffedToo
    exact run_workers tree directory config count staffed staffedToo
  · intro files listed
    rw [run_records tree directory config files staffed listed]
    refine ⟨collect_isAnswer _ files, ?_, ?_⟩
    · intro finished same
      exact ofFinished_records_of_perm tree directory config files finished same
    · intro workers staffedPool
      refine ⟨Pool.step_wellFounded _ workers, ?_⟩
      intro pool reached last
      exact Pool.answer_of_last staffedPool reached last

/-- Two names without an event id after a good one: the first of them is told of. -/
theorem run_isAnswer_at_two_failures :
    listing
        ⟨[([['c']], .directory), ([['c'], ['b']], .directory), ([['c'], ['a']], .file []),
          ([['c'], ['1']], .file [])], []⟩
        (directoryOf none ⟨['c'], 2, 50, ['u', 't', 'f', '8']⟩) = .ok [['1'], ['a'], ['b']] ∧
      (run
        ⟨[([['c']], .directory), ([['c'], ['b']], .directory), ([['c'], ['a']], .file []),
          ([['c'], ['1']], .file [])], []⟩
        none ⟨['c'], 2, 50, ['u', 't', 'f', '8']⟩).map Result.records =
          .error (.noEventId ['a']) := by
  have listed : listing
      ⟨[([['c']], .directory), ([['c'], ['b']], .directory), ([['c'], ['a']], .file []),
        ([['c'], ['1']], .file [])], []⟩
      (directoryOf none ⟨['c'], 2, 50, ['u', 't', 'f', '8']⟩) = .ok [['1'], ['a'], ['b']] := rfl
  refine ⟨listed, ?_⟩
  have answers := ((run_isAnswer _ none ⟨['c'], 2, 50, ['u', 't', 'f', '8']⟩ (by decide)).2.2
    _ listed).1
  apply answers.error_of_first [['1']] ['a'] [['b']] (.noEventId ['a']) rfl
  · intro other member
    obtain rfl := List.mem_singleton.mp member
    exact ⟨_, rfl⟩
  · rfl

end SheetCensus.Batch
