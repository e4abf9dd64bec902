import SheetCensus.Text.Basic

set_option autoImplicit false

/-! Control sequences of a terminal: an escape character, an opening square bracket, parameters,
intermediate characters and a final character, each from its own range of ASCII. Text that is
printed to something other than a terminal goes without them. -/

namespace SheetCensus.Text

def isParameter (c : Char) : Bool :=
  0x30 ≤ c.toNat && c.toNat ≤ 0x3f

def isIntermediate (c : Char) : Bool :=
  0x20 ≤ c.toNat && c.toNat ≤ 0x2f

def isFinal (c : Char) : Bool :=
  0x40 ≤ c.toNat && c.toNat ≤ 0x7e

def controlWidth? : Text → Option Nat
  | '[' :: rest =>
      let parameters := (rest.takeWhile isParameter).length
      let intermediates := ((rest.drop parameters).takeWhile isIntermediate).length
      if (rest.drop (parameters + intermediates)).head?.any isFinal then
        some (parameters + intermediates + 2)
      else none
  | _ => none

/-- The text without control sequences, when its first `skip` characters belong to one. -/
def plainFrom : Nat → Text → Text
  | _, [] => []
  | skip + 1, _ :: rest => plainFrom skip rest
  | 0, c :: rest =>
      if c = '\x1b' then
        match controlWidth? rest with
        | some width => plainFrom width rest
        | none => c :: plainFrom 0 rest
      else c :: plainFrom 0 rest

def plain (text : Text) : Text :=
  plainFrom 0 text

/-- Without an escape character nothing is left out. -/
theorem plain_eq_self (text : Text) (absent : '\x1b' ∉ text) : plain text = text := by
  unfold plain
  induction text with
  | nil => rfl
  | cons c rest ih =>
      simp only [List.mem_cons, not_or] at absent
      simp only [plainFrom, if_neg (Ne.symm absent.1), ih absent.2]

end SheetCensus.Text
