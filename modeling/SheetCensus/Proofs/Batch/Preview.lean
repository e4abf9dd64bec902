import SheetCensus.Proofs.Batch.Precedence
import SheetCensus.Proofs.Batch.Telling
import SheetCensus.Proofs.Text.JsonString

set_option autoImplicit false

/-! The preview in the warning on a refused style sheet. It stands in the text of the warning as a
JSON literal of visible characters, and reads back as the digest in the record of the file. -/

namespace SheetCensus

/-- The notices are one of progress and then a warning that shows the digest of the record. -/
def Record.IsPreviewedBy (record : Record) (notices : List Notice) : Prop :=
  ∃ progress warning literal detail, notices = [progress, warning] ∧
    progress.isWarning = false ∧ warning.isWarning = true ∧
      warning.text = "Illegal CSS: ".toList ++ literal ++ "... ".toList ++ detail ∧
        (∀ c ∈ literal, 0x20 ≤ c.toNat ∧ c.toNat ≤ 0x7f) ∧
          ∀ behind, Text.readJson? (literal ++ behind) = some (record.digest, behind)

theorem Record.IsToldBy.isPreviewedBy {record : Record} {file : Text} {notices : List Notice}
    (told : record.IsToldBy file notices) (failed : record.error = 1) :
    record.IsPreviewedBy notices := by
  cases told with
  | counted clean reads =>
      rw [clean] at failed
      cases failed
  | @refused told warning _ reads warns =>
      obtain ⟨message, _, shown⟩ := warns.text_eq
      refine ⟨told, warning, record.digest.jsonString, message, rfl, ?_, ?_, shown,
        Text.isVisible_of_mem_jsonString record.digest, Text.readJson?_jsonString record.digest⟩
      · have progress := told.hasLevel_info
        rw [Notice.hasLevel, reads.level_eq, beq_self_eq_true] at progress
        exact Bool.not_eq_true' _ |>.mp progress.symm
      · have warned := warning.hasLevel_warning
        rw [Notice.hasLevel, warns.level_eq, beq_self_eq_true] at warned
        exact warned.symm

namespace Attempt

variable {tree : Tree} {directory : Path} {file : Text} {config : Config}

/-- A file whose style sheet is refused has a record, and a warning that shows its digest. -/
theorem ofFile_previewsDigest [Codecs] (text : Text)
    (has : HasText tree directory config.encoding file text)
    (bad : ∃ fault, Stylesheet.read text none = .error (.fault fault)) :
    ∃ record, (ofFile tree directory file config).outcome = .ok record ∧ record.error = 1 ∧
      record.IsPreviewedBy (ofFile tree directory file config).notices := by
  obtain ⟨fault, read⟩ := bad
  have small := ((Stylesheet.read_eq_fault_iff text none fault).mp read).1
  obtain ⟨record, made, tells⟩ := has.exists_tellsOf small
  have failed := tells.refused.mpr ⟨fault, read⟩
  have told := ofFile_isToldBy tree directory file config record made
  exact ⟨record, made, failed, told.isPreviewedBy failed⟩

/-- A backslash in front of a quote, and a character written by two units, in front of an open
block that a negative length leaves off. -/
theorem ofFile_previewsDigest_behind_escapes :
    HasText ⟨[([['c']], .directory), ([['c'], ['7']],
        .file [0x5c, 0x22, 0xf0, 0x9f, 0x98, 0x80, 0x7b])], []⟩
      ⟨[], [['c']]⟩ ['u', 't', 'f', '8'] ['7'] ['\\', '"', '😀', '{'] ∧
    ∃ record, (ofFile ⟨[([['c']], .directory), ([['c'], ['7']],
        .file [0x5c, 0x22, 0xf0, 0x9f, 0x98, 0x80, 0x7b])], []⟩
      ⟨[], [['c']]⟩ ['7'] ⟨['c'], 1, -1, ['u', 't', 'f', '8']⟩).outcome = .ok record ∧
      record.error = 1 ∧ record.IsPreviewedBy
        (ofFile ⟨[([['c']], .directory), ([['c'], ['7']],
          .file [0x5c, 0x22, 0xf0, 0x9f, 0x98, 0x80, 0x7b])], []⟩
        ⟨[], [['c']]⟩ ['7'] ⟨['c'], 1, -1, ['u', 't', 'f', '8']⟩).notices := by
  have has : HasText ⟨[([['c']], .directory), ([['c'], ['7']],
        .file [0x5c, 0x22, 0xf0, 0x9f, 0x98, 0x80, 0x7b])], []⟩
      ⟨[], [['c']]⟩ ['u', 't', 'f', '8'] ['7'] ['\\', '"', '😀', '{'] :=
    ⟨⟨'7', [], rfl, by decide, by decide⟩, _, rfl, rfl⟩
  exact ⟨has, ofFile_previewsDigest _ has ⟨⟨.blockOpen .curly, ⟨1, 4⟩, none⟩, rfl⟩⟩

end Attempt

end SheetCensus
