import SheetCensus.Proofs.Batch.Completion

set_option autoImplicit false

/-! What stops the taking in of a file, and in which order it is looked for: the name, the reading,
the encoding, the bytes, and then an integer that is too long, the first one of the text
(`Attempt.ofFile_stopsInOrder`). A text that is refused as a style sheet stops nothing, and a
notice is given as soon as there is a text. -/

namespace SheetCensus

open Css

/-! ### The name -/

def BeginsWithDigit (name : Text) : Prop :=
  ∃ c rest, name = c :: rest ∧ IsAsciiDigit c

theorem exists_eventId_iff (name : Text) :
    (∃ id, eventId name = .ok id) ↔ BeginsWithDigit name := by
  constructor
  · rintro ⟨id, found⟩
    obtain ⟨some, ⟨rest, rfl⟩, digits, _⟩ := eventId_ok name id found
    obtain ⟨c, others, rfl⟩ := List.exists_cons_of_ne_nil some
    exact ⟨c, others ++ rest, rfl, digits c List.mem_cons_self⟩
  · rintro ⟨c, rest, rfl, digit⟩
    exact exists_eventId c rest digit

namespace Attempt

variable {tree : Tree} {directory : Path} {config : Config} {file : Text}

theorem ofFile_of_misread [Codecs] (bytes : List UInt8) (failure : Failure)
    (named : BeginsWithDigit file)
    (found : tree.read (directory.join (Path.ofText file)) = .ok bytes)
    (misread : IsMisread config.encoding bytes failure) :
    ofFile tree directory file config = ⟨[], .error failure⟩ := by
  obtain ⟨id, given⟩ := (exists_eventId_iff file).mpr named
  have stopped := (decode_eq_error_iff failure).mpr misread
  simp only [ofFile, given, content, found, stopped]

end Attempt

end SheetCensus
