import SheetCensus.Proofs.Source.Offset

set_option autoImplicit false

/-! One kind of line end. Line ends can be replaced one kind after the other through the whole text,
pairs before single characters; a single pass comes to the same (`Source.replaced_eq_normalize`),
and a second one finds nothing left to replace (`Source.normalize_normalize`). -/

namespace SheetCensus

namespace Text

/-- The text with each occurrence of `old` replaced, from left to right, when the first `skip`
characters belong to an occurrence that is replaced already. -/
def replaceFrom (old new : Text) : Nat → Text → Text
  | _, [] => []
  | skip + 1, _ :: rest => replaceFrom old new skip rest
  | 0, c :: rest =>
      if old.isPrefixOf (c :: rest) then new ++ replaceFrom old new (old.length - 1) rest
      else c :: replaceFrom old new 0 rest

def replace (old new text : Text) : Text :=
  replaceFrom old new 0 text

theorem replace_char (old new : Char) (text : Text) :
    replace [old] [new] text = text.map (fun c => if c = old then new else c) := by
  unfold replace
  induction text with
  | nil => rfl
  | cons c rest ih =>
      rw [replaceFrom, List.map_cons, List.length_singleton, ih]
      by_cases same : old = c
      · simp [List.isPrefixOf, same]
      · simp [List.isPrefixOf, same, Ne.symm same]

theorem replace_pair (first second new : Char) (rest : Text) :
    replace [first, second] [new] (first :: second :: rest) =
      new :: replace [first, second] [new] rest := by
  unfold replace
  rw [replaceFrom, if_pos (by simp [List.isPrefixOf])]
  rfl

theorem replace_cons_of_ne (first second new c : Char) (rest : Text)
    (apart : ¬ (c = first ∧ rest.head? = some second)) :
    replace [first, second] [new] (c :: rest) = c :: replace [first, second] [new] rest := by
  have absent : [first, second].isPrefixOf (c :: rest) = false := by
    cases rest with
    | nil => simp [List.isPrefixOf]
    | cons d others =>
        simp only [List.head?_cons, Option.some.injEq] at apart
        simp only [List.isPrefixOf, Bool.and_true, Bool.and_eq_false_iff, beq_eq_false_iff_ne]
        by_cases same : first = c
        · exact Or.inr (fun other => apart ⟨same.symm, other.symm⟩)
        · exact Or.inl same
  unfold replace
  rw [replaceFrom, absent]
  rfl

end Text

namespace Source

/-- The text after four replacements, one after the other: the null character, the pairs of carriage
return and line feed, the carriage returns that are left and the form feeds. -/
def replaced (text : Text) : Text :=
  Text.replace ['\x0c'] ['\n'] (Text.replace ['\r'] ['\n']
    (Text.replace ['\r', '\n'] ['\n'] (Text.replace ['\x00'] ['\uFFFD'] text)))

def withoutNull (c : Char) : Char :=
  if c = '\x00' then '\uFFFD' else c

def lineEnd (c : Char) : Char :=
  if c = '\r' ∨ c = '\x0c' then '\n' else c

theorem withoutNull_eq_iff (c wanted : Char) (null : wanted ≠ '\x00')
    (shown : wanted ≠ '\uFFFD') : withoutNull c = wanted ↔ c = wanted := by
  fun_cases withoutNull c with
  | case1 same =>
      rw [same]
      exact ⟨fun impossible => absurd impossible.symm shown,
        fun impossible => absurd impossible.symm null⟩
  | case2 => exact Iff.rfl

theorem replaced_eq_map (text : Text) :
    replaced text =
      (Text.replace ['\r', '\n'] ['\n'] (text.map withoutNull)).map lineEnd := by
  have null : Text.replace ['\x00'] ['\uFFFD'] text = text.map withoutNull :=
    Text.replace_char _ _ text
  unfold replaced
  rw [null, Text.replace_char, Text.replace_char, List.map_map]
  congr 1
  funext c
  simp only [Function.comp_apply, lineEnd]
  by_cases returns : c = '\r'
  · simp [returns]
  · simp [returns]

/-- A single pass does what the four replacements do one after the other. -/
theorem replaced_eq_normalize (text : Text) : replaced text = normalize text := by
  rw [replaced_eq_map]
  fun_induction normalize text with
  | case1 => rfl
  | case2 rest ih =>
      rw [← ih]
      change (Text.replace _ _ ('\r' :: '\n' :: rest.map withoutNull)).map lineEnd = _
      rw [Text.replace_pair]
      rfl
  | case3 c rest plain ih =>
      have apart : ¬ (withoutNull c = '\r' ∧ (rest.map withoutNull).head? = some '\n') := by
        rintro ⟨returns, feeds⟩
        rw [withoutNull_eq_iff c _ (by decide) (by decide)] at returns
        cases rest with
        | nil => cases feeds
        | cons d others =>
            have second := (withoutNull_eq_iff d _ (by decide) (by decide)).mp
              (Option.some.inj feeds)
            exact plain others returns (by rw [second])
      rw [← ih, List.map_cons, Text.replace_cons_of_ne _ _ _ _ _ apart, List.map_cons]
      congr 1
      by_cases null : c = '\x00'
      · subst null
        rfl
      · simp only [withoutNull, lineEnd, if_neg null]

/-! ### Normalized texts -/

def IsNormal (c : Char) : Prop :=
  c ≠ '\x00' ∧ c ≠ '\r' ∧ c ≠ '\x0c'

theorem isNormal_of_mem_normalize (text : Text) (c : Char) (member : c ∈ normalize text) :
    IsNormal c := by
  fun_induction normalize text with
  | case1 => cases member
  | case2 rest ih =>
      rcases List.mem_cons.mp member with rfl | later
      · exact ⟨by decide, by decide, by decide⟩
      · exact ih later
  | case3 d rest _ ih =>
      rcases List.mem_cons.mp member with rfl | later
      · by_cases null : d = '\x00'
        · rw [if_pos null]
          exact ⟨by decide, by decide, by decide⟩
        · rw [if_neg null]
          by_cases breaks : d = '\r' ∨ d = '\x0c'
          · rw [if_pos breaks]
            exact ⟨by decide, by decide, by decide⟩
          · rw [if_neg breaks]
            exact ⟨null, not_or.mp breaks⟩
      · exact ih later

theorem normalize_eq_self (text : Text) (normal : ∀ c ∈ text, IsNormal c) :
    normalize text = text := by
  fun_induction normalize text with
  | case1 => rfl
  | case2 rest ih => exact absurd rfl (normal '\r' List.mem_cons_self).2.1
  | case3 c rest _ ih =>
      obtain ⟨null, returns, feeds⟩ := normal c List.mem_cons_self
      rw [if_neg null, if_neg (not_or.mpr ⟨returns, feeds⟩),
        ih (fun d member => normal d (List.mem_cons_of_mem c member))]

theorem normalize_normalize (text : Text) : normalize (normalize text) = normalize text :=
  normalize_eq_self _ (isNormal_of_mem_normalize text)

theorem normalize_append_cons (front : Text) (c : Char) (back : Text) (other : c ≠ '\n') :
    normalize (front ++ c :: back) = normalize front ++ normalize (c :: back) :=
  normalize_append front (c :: back) (fun _ feeds => other (Option.some.inj feeds))

theorem normalize_cons (c : Char) (rest : Text) (normal : IsNormal c) :
    normalize (c :: rest) = c :: normalize rest := by
  rw [normalize, if_neg normal.1, if_neg (not_or.mpr normal.2)]
  intro more returns
  exact absurd returns normal.2.1

theorem normalize_ne_nil (text : Text) (filled : text ≠ []) : normalize text ≠ [] := by
  fun_cases normalize text with
  | case1 => exact absurd rfl filled
  | case2 rest => exact List.cons_ne_nil _ _
  | case3 c rest _ => exact List.cons_ne_nil _ _

end Source

end SheetCensus
