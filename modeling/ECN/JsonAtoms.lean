import ECN.JsonRoundTrip

/-!
# Texts with floats

The text of a float that reads back is a numeral, so it has no punctuation and is the text
of no other scalar. With such texts every scalar that is not a string is a word.
-/
namespace ECN

/-! ## Numerals -/

/-- The characters of a number. -/
def isNumeral (c : Char) : Bool := c.isDigit || decide (c ∈ ['-', '+', '.', 'e', 'E'])

theorem isNumeral_of_isDigit {c : Char} (h : c.isDigit = true) : isNumeral c = true := by
  rw [isNumeral, h, Bool.true_or]

theorem mem_of_scanDigits {cs ds r : List Char} (h : scanDigits cs = some (ds, r)) {c : Char}
    (hc : c ∈ cs) : c.isDigit = true ∨ c ∈ r := by
  unfold scanDigits at h
  split at h
  · cases h
  · cases h
    rw [← List.takeWhile_append_dropWhile (p := Char.isDigit) (l := cs), List.mem_append] at hc
    exact hc.imp_left fun hc => List.mem_takeWhile_imp hc

theorem mem_of_scanWhole {cs w r : List Char} (h : scanWhole cs = some (w, r)) {c : Char}
    (hc : c ∈ cs) : c.isDigit = true ∨ c ∈ r := by
  unfold scanWhole at h
  split at h
  · cases h
    rcases List.mem_cons.mp hc with rfl | hc
    · exact .inl (by decide)
    · exact .inr hc
  · exact mem_of_scanDigits h hc

theorem mem_of_scanFraction {cs : List Char} {c : Char} (hc : c ∈ cs) :
    isNumeral c = true ∨ c ∈ (scanFraction cs).2 := by
  unfold scanFraction
  split
  · next cs =>
    cases hdigits : scanDigits cs with
    | none => exact .inr hc
    | some p =>
      obtain ⟨ds, r⟩ := p
      rcases List.mem_cons.mp hc with rfl | hc
      · exact .inl (by decide)
      · exact (mem_of_scanDigits hdigits hc).imp_left isNumeral_of_isDigit
  · exact .inr hc

theorem mem_of_scanExponentSign {cs : List Char} {c : Char} (hc : c ∈ cs) :
    isNumeral c = true ∨ c ∈ (scanExponentSign cs).2 := by
  unfold scanExponentSign
  split
  · exact (List.mem_cons.mp hc).imp_left fun h => by rw [h]; decide
  · exact (List.mem_cons.mp hc).imp_left fun h => by rw [h]; decide
  · exact .inr hc

theorem mem_of_scanExponent {cs : List Char} {c : Char} (hc : c ∈ cs) :
    isNumeral c = true ∨ c ∈ (scanExponent cs).2 := by
  cases cs with
  | nil => cases hc
  | cons b cs =>
    rw [scanExponent]
    by_cases hexp : b = 'e' ∨ b = 'E'
    · rw [if_pos hexp]
      cases hdigits : scanDigits (scanExponentSign cs).2 with
      | none => exact .inr hc
      | some p =>
        rcases List.mem_cons.mp hc with rfl | hc
        · exact .inl (by rcases hexp with rfl | rfl <;> decide)
        · rcases mem_of_scanExponentSign hc with hsign | hsign
          · exact .inl hsign
          · exact (mem_of_scanDigits hdigits hsign).imp_left isNumeral_of_isDigit
    · rw [if_neg hexp]
      exact .inr hc

theorem isNumeral_of_scanNumber {cs : List Char} {s : Scalar}
    (h : scanNumber cs = some (s, [])) : ∀ c ∈ cs, isNumeral c = true := by
  intro c hc
  unfold scanNumber at h
  obtain ⟨⟨w, r⟩, hwhole, hread⟩ := Option.map_eq_some_iff.mp h
  have hrest : (scanExponent (scanFraction r).2).2 = [] := (Prod.mk.inj hread).2
  have hsign : isNumeral c = true ∨ c ∈ (scanSign cs).2 := by
    unfold scanSign
    split
    · exact (List.mem_cons.mp hc).imp_left fun h => by rw [h]; decide
    · exact .inr hc
  rcases hsign with hsign | hsign
  · exact hsign
  rcases mem_of_scanWhole hwhole hsign with hdigit | hr
  · exact isNumeral_of_isDigit hdigit
  rcases mem_of_scanFraction hr with hprint | hf
  · exact hprint
  rcases mem_of_scanExponent hf with hprint | he
  · exact hprint
  · rw [hrest] at he
    cases he

/-! ## Floats among the words -/

/-- Everything but strings. -/
def Scalar.isAtom : Scalar → Bool
  | .str _ => false
  | .none | .bool _ | .int _ | .float _ => true

variable {py : Interp}

/-- The parser reads the text of an atom as the atom. -/
theorem loadWord_dumps (hpy : py.ReprReads) {s : Scalar} (hs : s.isAtom = true) :
    loadWord (s.dumps py).toList = some (s, []) := by
  cases s with
  | none => simp [Scalar.dumps, loadWord]
  | bool b =>
    cases b with
    | false => simp [Scalar.dumps, loadWord]
    | true => simp [Scalar.dumps, loadWord]
  | int n => exact loadWord_of_scanNumber (scanNumber_int n)
  | float x =>
    cases x with
    | finite q hq => exact loadWord_of_scanNumber (hpy _ rfl)
    | negZero => exact loadWord_of_scanNumber (hpy _ rfl)
    | inf negative =>
      cases negative with
      | false => simp [Scalar.dumps, loadWord]
      | true => simp [Scalar.dumps, loadWord]
    | nan => simp [Scalar.dumps, loadWord]
  | str s => cases hs

theorem not_mem_punctuation_of_isNumeral {c : Char} (h : isNumeral c = true) :
    c ∉ punctuation := by
  have hall : ∀ d ∈ punctuation, (!isNumeral d) = true := List.all_eq_true.mp (by decide)
  intro hmem
  have hno := hall c hmem
  rw [h] at hno
  cases hno

/-- A word without punctuation. -/
theorem not_mem_punctuation_of_word {word : String}
    (h : (word.toList.all fun c => !punctuation.contains c) = true) :
    ∀ c ∈ word.toList, c ∉ punctuation := by
  intro c hc hmem
  have hno := List.all_eq_true.mp h c hc
  rw [List.contains_iff_mem.mpr hmem] at hno
  cases hno

theorem atom_plain (hpy : py.ReprReads) {s : Scalar} (hs : s.isAtom = true) :
    ∀ c ∈ (s.dumps py).toList, c ∉ punctuation := by
  have hnumeral : ∀ {cs : List Char} {s : Scalar}, scanNumber cs = some (s, []) →
      ∀ c ∈ cs, c ∉ punctuation :=
    fun h c hc => not_mem_punctuation_of_isNumeral (isNumeral_of_scanNumber h c hc)
  cases s with
  | float x =>
    cases x with
    | finite q hq => exact hnumeral (hpy _ rfl)
    | negZero => exact hnumeral (hpy _ rfl)
    | inf negative =>
      cases negative with
      | false =>
        show ∀ c ∈ "Infinity".toList, c ∉ punctuation
        exact not_mem_punctuation_of_word (by decide)
      | true =>
        show ∀ c ∈ "-Infinity".toList, c ∉ punctuation
        exact not_mem_punctuation_of_word (by decide)
    | nan =>
      show ∀ c ∈ "NaN".toList, c ∉ punctuation
      exact not_mem_punctuation_of_word (by decide)
  | none => exact fun c hc => not_mem_punctuation py rfl hc
  | bool b => exact fun c hc => not_mem_punctuation py rfl hc
  | int n => exact fun c hc => not_mem_punctuation py rfl hc
  | str s => cases hs

/-- Where the texts of floats read back, all atoms are told apart. -/
theorem wordTexts_isAtom (hpy : py.ReprReads) : WordTexts py Scalar.isAtom where
  not_str _ := rfl
  ne_nil hs h := by
    have hread := loadWord_dumps hpy hs
    rw [h] at hread
    cases hread
  plain hs := atom_plain hpy hs
  injective hs hs' h := by
    have hread := loadWord_dumps hpy hs
    rw [h, loadWord_dumps hpy hs', Option.some.injEq, Prod.mk.injEq] at hread
    exact hread.1.symm

end ECN
