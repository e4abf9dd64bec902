import SheetCensus.Batch.Entry

set_option autoImplicit false

/-! Decoding the bytes of a file. A null character in the name of the encoding is found before
anything else, and without bytes nothing else is looked for; then the name is looked up, and what is
found under it has its say on the bytes (`Attempt.decode_eq_error_iff`). -/

namespace SheetCensus

theorem Encoding.not_null_of_ofName? {name : Text} {code : Encoding}
    (known : ofName? name = some code) : '\x00' ∉ name := by
  intro null
  unfold ofName? at known
  rw [if_pos (List.contains_iff_mem.mpr null)] at known
  cases known

namespace Attempt

variable {encoding : Text} {bytes : List UInt8}

structure IsLookedUp (encoding : Text) (bytes : List UInt8) : Prop where
  proper : '\x00' ∉ encoding
  filled : bytes ≠ []

theorem isLookedUp_of_tests (noNull : ¬ encoding.contains '\x00' = true)
    (some : ¬ bytes.isEmpty = true) : IsLookedUp encoding bytes where
  proper := fun null => noNull (List.contains_iff_mem.mpr null)
  filled := fun none => some (List.isEmpty_iff.mpr none)

variable [Codecs]

theorem IsLookedUp.decode_eq (looked : IsLookedUp encoding bytes) :
    decode encoding bytes =
      match Codec.ofName encoding with
      | .missing => .error (.unknownEncoding encoding)
      | .notText message => .error (.notTextEncoding message)
      | .text decode => (decode bytes).mapError .ofCodecFault := by
  have noNull : ¬ encoding.contains '\x00' = true :=
    fun null => looked.proper (List.contains_iff_mem.mp null)
  have some : ¬ bytes.isEmpty = true := fun none => looked.filled (List.isEmpty_iff.mp none)
  exact (if_neg noNull).trans (if_neg some)

/-- Bytes and the name of an encoding that do not go together, and what is said of them. -/
inductive IsMisread (encoding : Text) (bytes : List UInt8) : Failure → Prop where
  | null (null : '\x00' ∈ encoding) : IsMisread encoding bytes .nullInEncoding
  | unknown (looked : IsLookedUp encoding bytes) (unknown : Codec.ofName encoding = .missing) :
      IsMisread encoding bytes (.unknownEncoding encoding)
  | notText (looked : IsLookedUp encoding bytes) (message : Text)
      (found : Codec.ofName encoding = .notText message) :
      IsMisread encoding bytes (.notTextEncoding message)
  | undecodable (looked : IsLookedUp encoding bytes)
      (decode : List UInt8 → Except CodecFault Text) (fault : DecodeFault)
      (found : Codec.ofName encoding = .text decode)
      (bad : decode bytes = .error (.undecodable fault)) :
      IsMisread encoding bytes (.undecodable fault)
  | failed (looked : IsLookedUp encoding bytes)
      (decode : List UInt8 → Except CodecFault Text) (message : Text)
      (found : Codec.ofName encoding = .text decode)
      (bad : decode bytes = .error (.failed message)) :
      IsMisread encoding bytes (.codecFailed message)

theorem isMisread_of_decode {failure : Failure} (stopped : decode encoding bytes = .error failure) :
    IsMisread encoding bytes failure := by
  by_cases null : encoding.contains '\x00' = true
  · rw [decode, if_pos null] at stopped
    cases stopped
    exact .null (List.contains_iff_mem.mp null)
  · by_cases none : bytes.isEmpty = true
    · rw [decode, if_neg null, if_pos none] at stopped
      cases stopped
    · have looked := isLookedUp_of_tests null none
      rw [looked.decode_eq] at stopped
      cases found : Codec.ofName encoding with
      | missing =>
          rw [found] at stopped
          cases stopped
          exact .unknown looked found
      | notText message =>
          rw [found] at stopped
          cases stopped
          exact .notText looked message found
      | text decode =>
          rw [found] at stopped
          dsimp only at stopped
          cases bad : decode bytes with
          | ok text =>
              rw [bad] at stopped
              cases stopped
          | error fault =>
              rw [bad] at stopped
              cases stopped
              cases fault with
              | undecodable fault => exact .undecodable looked decode fault found bad
              | failed message => exact .failed looked decode message found bad

theorem decode_eq_error_iff (failure : Failure) :
    decode encoding bytes = .error failure ↔ IsMisread encoding bytes failure := by
  constructor
  · exact isMisread_of_decode
  · intro misread
    cases misread with
    | null null => rw [decode, if_pos (List.contains_iff_mem.mpr null)]
    | unknown looked unknown => rw [looked.decode_eq, unknown]
    | notText looked message found => rw [looked.decode_eq, found]
    | undecodable looked decode fault found bad =>
        rw [looked.decode_eq, found]
        dsimp only
        rw [bad]
        rfl
    | failed looked decode message found bad =>
        rw [looked.decode_eq, found]
        dsimp only
        rw [bad]
        rfl

/-- A built-in encoding decodes whatever other codecs there are. -/
theorem decode_of_ofName? {code : Encoding} (known : Encoding.ofName? encoding = some code) :
    decode encoding bytes = (code.decode bytes).mapError .undecodable := by
  cases bytes with
  | nil =>
      unfold decode
      rw [if_neg (fun null => Encoding.not_null_of_ofName? known (List.contains_iff_mem.mp null))]
      cases code <;> rfl
  | cons byte rest =>
      have looked : IsLookedUp encoding (byte :: rest) :=
        ⟨Encoding.not_null_of_ofName? known, List.cons_ne_nil byte rest⟩
      rw [looked.decode_eq, Codec.ofName, known]
      dsimp only
      cases code.decode (byte :: rest) <;> rfl

end Attempt

end SheetCensus
