import Mathlib.Algebra.Order.Ring.Int
import SheetCensus.Proofs.Batch.Entry
import SheetCensus.Proofs.Batch.Run
import SheetCensus.Proofs.Report.Grammar
import SheetCensus.Proofs.Stylesheet.Reading

set_option autoImplicit false

/-! What a batch says beside its records. Every file with a record has one line of level `INFO`, with
the event id, the name and the length of its record, and one of level `WARNING` exactly when the
record tells of a failure (`Attempt.ofFile_isToldBy`). The notices of a batch that succeeds are
these, each once, whatever order the files are finished in (`Batch.run_tells`). -/

namespace SheetCensus

/-! ### The notices on one file -/

namespace Notice

def hasLevel (level : Text) (notice : Notice) : Bool :=
  notice.level == level

theorem hasLevel_info (notice : Notice) :
    notice.hasLevel "INFO".toList = !notice.isWarning := by
  unfold hasLevel level
  cases notice.isWarning <;> decide

theorem hasLevel_warning (notice : Notice) :
    notice.hasLevel "WARNING".toList = notice.isWarning := by
  unfold hasLevel level
  cases notice.isWarning <;> decide

structure TellsOfReading (notice : Notice) (eventId file : Text) (length : Int) : Prop where
  level_eq : notice.level = "INFO".toList
  text_eq : notice.text = "eventId=".toList ++ eventId ++ ", file=".toList ++ file ++
    ": read ".toList ++ (toString length).toList ++ " characters".toList

/-- The line that warns of a failure. It shows what the record keeps of the text, and the message
behind it is the one in the record. -/
structure TellsOfRefusal (notice : Notice) (record : Record) : Prop where
  level_eq : notice.level = "WARNING".toList
  text_eq : ∃ message, record.errorStack = Record.stackText message ∧
    notice.text = "Illegal CSS: ".toList ++ record.digest.jsonString ++ "... ".toList ++ message

theorem read_tellsOfReading (eventId file : Text) (length : Nat) :
    (read eventId file length).TellsOfReading eventId file length where
  level_eq := rfl
  text_eq := by
    rw [← Text.ofInt_eq_toString]
    rfl

end Notice

inductive Record.IsToldBy (record : Record) (file : Text) : List Notice → Prop where
  | counted {told : Notice} (clean : record.error = 0)
      (reads : told.TellsOfReading record.eventId file record.length) :
      IsToldBy record file [told]
  | refused {told warning : Notice} (failed : record.error = 1)
      (reads : told.TellsOfReading record.eventId file record.length)
      (warns : warning.TellsOfRefusal record) : IsToldBy record file [told, warning]

namespace Record.IsToldBy

variable {record : Record} {file : Text} {notices : List Notice}

theorem warnings (told : record.IsToldBy file notices) :
    (notices.countP (Notice.hasLevel "WARNING".toList) : Int) = record.error := by
  cases told with
  | counted clean reads =>
      rw [clean]
      simp [Notice.hasLevel, reads.level_eq]
  | refused failed reads warns =>
      rw [failed]
      simp [Notice.hasLevel, reads.level_eq, warns.level_eq]

theorem infos (told : record.IsToldBy file notices) :
    notices.countP (Notice.hasLevel "INFO".toList) = 1 := by
  cases told with
  | counted clean reads => simp [Notice.hasLevel, reads.level_eq]
  | refused failed reads warns => simp [Notice.hasLevel, reads.level_eq, warns.level_eq]

end Record.IsToldBy

namespace Attempt

theorem ofContent_isToldBy (id file label content : Text) (digestLength : Int) (record : Record)
    (made : (ofContent id file label content digestLength).outcome = .ok record) :
    record.IsToldBy file (ofContent id file label content digestLength).notices := by
  rcases ofContent_ok id file label content digestLength record made with
    ⟨sheet, read, rfl⟩ | ⟨fault, read, rfl⟩
  · have told : (ofContent id file label content digestLength).notices =
        [.read id file content.length] := by
      unfold ofContent
      dsimp only
      rw [read]
    rw [told, Record.countSheet, Record.count_eq]
    exact .counted rfl (Notice.read_tellsOfReading id file content.length)
  · have told : (ofContent id file label content digestLength).notices =
        [.read id file content.length,
          .refused (content.clip digestLength) fault.diagnostic] := by
      unfold ofContent
      dsimp only
      rw [read]
    rw [told]
    exact .refused rfl (Notice.read_tellsOfReading id file content.length)
      ⟨rfl, fault.diagnostic.text, rfl, rfl⟩

/-- A file with a record is told of by the notices that were given on it. -/
theorem ofFile_isToldBy [Codecs] (tree : Tree) (directory : Path) (file : Text) (config : Config)
    (record : Record) (made : (ofFile tree directory file config).outcome = .ok record) :
    record.IsToldBy file (ofFile tree directory file config).notices := by
  obtain ⟨id, text, named, decoded, ends⟩ := ofFile_ok tree directory file config record made
  have taken : ofFile tree directory file config =
      ofContent id file (directory.join (Path.ofText file)).text text config.digestLength := by
    simp only [ofFile, named, decoded]
  rw [taken]
  exact ofContent_isToldBy id file _ text config.digestLength record ends

end Attempt

/-! ### The notices of a batch -/

namespace Batch

structure Entry where
  file : Text
  record : Record
  notices : List Notice

/-- The notices of a batch match its records: they are the notices on its files, each once. So
there is one line of level `INFO` for each file, and there are as many of level `WARNING` as records
that tell of a failure. -/
structure TellsOf (files : List Text) (result : Result) : Prop where
  entries : ∃ entries : List Entry, entries.map Entry.file = files ∧
    entries.map Entry.record = result.records ∧
    (∀ entry ∈ entries, entry.record.IsToldBy entry.file entry.notices) ∧
      result.notices.Perm (entries.flatMap Entry.notices)
  infos : result.notices.countP (Notice.hasLevel "INFO".toList) = files.length
  warnings : (result.notices.countP (Notice.hasLevel "WARNING".toList) : Int) =
    (result.records.map Record.error).sum

theorem allMade_of_collect (attempts : List Attempt) (records : List Record)
    (collected : collect attempts = .ok records) : AllMade attempts records := by
  induction attempts generalizing records with
  | nil =>
      cases collected
      exact .nil
  | cons attempt others ih =>
      unfold collect at collected
      cases made : attempt.outcome with
      | error failure =>
          rw [made] at collected
          cases collected
      | ok record =>
          rw [made] at collected
          cases behind : collect others with
          | error failure =>
              rw [behind] at collected
              cases collected
          | ok later =>
              rw [behind] at collected
              cases collected
              exact .cons made (ih later behind)

/-- The files with their records and notices, when every file has a record. -/
theorem exists_entries (work : Text → Attempt) (files : List Text) (records : List Record)
    (tells : ∀ file record, (work file).outcome = .ok record →
      record.IsToldBy file (work file).notices)
    (made : AllMade (files.map work) records) :
    ∃ entries : List Entry, entries.map Entry.file = files ∧ entries.map Entry.record = records ∧
      (∀ entry ∈ entries, entry.record.IsToldBy entry.file entry.notices) ∧
        entries.flatMap Entry.notices = (files.map work).flatMap Attempt.notices := by
  have paired := List.forall₂_map_left_iff.mp made
  induction paired with
  | nil => exact ⟨[], rfl, rfl, nofun, rfl⟩
  | @cons file record files records first rest ih =>
      obtain ⟨entries, rfl, rfl, told, same⟩ := ih (List.forall₂_map_left_iff.mpr rest)
      refine ⟨⟨file, record, (work file).notices⟩ :: entries, rfl, rfl, ?_, ?_⟩
      · intro entry member
        rcases List.mem_cons.mp member with rfl | later
        · exact tells file record first
        · exact told entry later
      · rw [List.flatMap_cons, same]
        rfl

theorem warnings_of_entries (entries : List Entry)
    (told : ∀ entry ∈ entries, entry.record.IsToldBy entry.file entry.notices) :
    ((entries.flatMap Entry.notices).countP (Notice.hasLevel "WARNING".toList) : Int) =
      ((entries.map Entry.record).map Record.error).sum := by
  induction entries with
  | nil => rfl
  | cons entry entries ih =>
      have first := (told entry List.mem_cons_self).warnings
      have later := ih (fun other member => told other (List.mem_cons_of_mem entry member))
      rw [List.flatMap_cons, List.countP_append, Int.natCast_add, first, later]
      rfl

theorem infos_of_entries (entries : List Entry)
    (told : ∀ entry ∈ entries, entry.record.IsToldBy entry.file entry.notices) :
    (entries.flatMap Entry.notices).countP (Notice.hasLevel "INFO".toList) = entries.length := by
  induction entries with
  | nil => rfl
  | cons entry entries ih =>
      have first := (told entry List.mem_cons_self).infos
      have later := ih (fun other member => told other (List.mem_cons_of_mem entry member))
      rw [List.flatMap_cons, List.countP_append, first, later, List.length_cons, Nat.add_comm]

variable {tree : Tree} {directory : Option Text} {config : Config} {files : List Text}

theorem ofFinished_of_perm (work : Text → Attempt) (files : List Text)
    (finished : List (Nat × Attempt)) (same : finished.Perm (placed work files)) :
    ofFinished finished = (collect (files.map work)).map (fun records =>
      ⟨records, Notice.sorted ((files.map work).flatMap Attempt.notices)⟩) := by
  unfold ofFinished
  rw [gather_of_perm work files finished same]

/-- A batch that succeeds on some files has workers, and takes in its files. -/
theorem run_of_ok [Codecs] (result : Result) (some : files ≠ [])
    (listed : listing tree (directoryOf directory config) = .ok files)
    (runs : run tree directory config = .ok result) :
    1 ≤ config.workers ∧
      run tree directory config =
        ofFinished (attempts tree (directoryOf directory config) config files) := by
  obtain ⟨file, others, rfl⟩ := List.exists_cons_of_ne_nil some
  unfold directoryOf at listed
  unfold run at runs ⊢
  dsimp only at runs ⊢
  rw [listed] at runs ⊢
  dsimp only at runs ⊢
  by_cases few : config.workers < 1
  · rw [if_pos few] at runs
    cases runs
  · rw [if_neg few]
    exact ⟨Int.not_lt.mp few, rfl⟩

theorem tellsOf_of_collect (work : Text → Attempt) (records : List Record)
    (tells : ∀ file record, (work file).outcome = .ok record →
      record.IsToldBy file (work file).notices)
    (collected : collect (files.map work) = .ok records) :
    TellsOf files
      ⟨records, Notice.sorted ((files.map work).flatMap Attempt.notices)⟩ := by
  obtain ⟨entries, rfl, rfl, told, same⟩ :=
    exists_entries work files records tells (allMade_of_collect _ _ collected)
  have perm : (Notice.sorted (((entries.map Entry.file).map work).flatMap Attempt.notices)).Perm
      (entries.flatMap Entry.notices) := by
    rw [same]
    exact inOrder_perm Notice.precedes _
  refine ⟨⟨entries, rfl, rfl, told, perm⟩, ?_, ?_⟩
  · rw [perm.countP_eq, infos_of_entries entries told, List.length_map]
  · rw [perm.countP_eq, warnings_of_entries entries told]

/-- A batch that succeeds tells of each of its records, in whatever order its files are finished. -/
theorem run_tells [Codecs] (result : Result) (some : files ≠ [])
    (listed : listing tree (directoryOf directory config) = .ok files)
    (runs : run tree directory config = .ok result) :
    TellsOf files result ∧
      ∀ finished, finished.Perm (attempts tree (directoryOf directory config) config files) →
        ofFinished finished = .ok result := by
  obtain ⟨_, taken⟩ := run_of_ok result some listed runs
  rw [taken] at runs
  have whole := ofFinished_of_perm (workOf tree directory config) files _ (List.Perm.refl _)
  have ends := whole.symm.trans runs
  obtain ⟨records, collected, rfl⟩ := exists_ok_of_map_ok ends
  refine ⟨tellsOf_of_collect _ records ?_ collected, ?_⟩
  · exact fun file record => Attempt.ofFile_isToldBy tree _ file config record
  · intro finished same
    rw [ofFinished_of_perm (workOf tree directory config) files finished same, ends]

end Batch

end SheetCensus
