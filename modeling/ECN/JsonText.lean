import ECN.CanonicalJson
import ECN.Hex
import ECN.UniqueDecoding

/-!
# Reading back the printed text

A decoder of single characters inverts the escapes of a JSON string, so a quoted string
ends where it seems to. Null, booleans and integers print as words without punctuation.
-/
namespace ECN

/-! ## Escapes -/

/-- Four hexadecimal digits. -/
def unhex4 : List Char → Option (ℕ × List Char)
  | a :: b :: c :: d :: rest => do
    return (4096 * (← hexValue a) + 256 * (← hexValue b) + 16 * (← hexValue c) + (← hexValue d),
      rest)
  | _ => none

/-- The character of a two-character escape. -/
def shortEscape (c : Char) : Option Char :=
  [('"', '"'), ('\\', '\\'), ('n', '\n'), ('r', '\r'), ('t', '\t'), ('f', Char.ofNat 12),
    ('b', Char.ofNat 8)].lookup c

/-- One code unit, or two when the first is a high surrogate. -/
def unescapeUnits (cs : List Char) : Option (Char × List Char) :=
  (unhex4 cs).bind fun unit =>
    if 55296 ≤ unit.1 ∧ unit.1 < 56320 then
      (unhex4 (unit.2.drop 2)).map fun low =>
        (Char.ofNat (65536 + (unit.1 - 55296) * 1024 + (low.1 - 56320)), low.2)
    else some (Char.ofNat unit.1, unit.2)

/-- One character of a JSON string. -/
def unescape : List Char → Option (Char × List Char)
  | '\\' :: 'u' :: cs => unescapeUnits cs
  | '\\' :: c :: cs => (shortEscape c).map fun d => (d, cs)
  | c :: cs => some (c, cs)
  | [] => none

theorem unescape_unit (cs : List Char) : unescape ('\\' :: 'u' :: cs) = unescapeUnits cs := rfl

theorem toList_unit (s : String) (t : List Char) :
    ("\\u" ++ s).toList ++ t = '\\' :: 'u' :: (s.toList ++ t) := by
  simp

theorem toList_hex4 (n : ℕ) : (hex4 n).toList =
    [hexDigit (n / 4096 % 16), hexDigit (n / 256 % 16), hexDigit (n / 16 % 16),
      hexDigit (n % 16)] := by
  have halphabet : "0123456789abcdef".toList = hexAlphabet := by decide
  simp [hex4, hexDigit, halphabet]

theorem unhex4_hex4 {n : ℕ} (hn : n < 65536) (t : List Char) :
    unhex4 ((hex4 n).toList ++ t) = some (n, t) := by
  have hvalue : 4096 * (n / 4096 % 16) + 256 * (n / 256 % 16) + 16 * (n / 16 % 16) + n % 16 = n := by
    omega
  have hdigit : ∀ k, hexValue (hexDigit (k % 16)) = some (k % 16) :=
    fun k => hexValue_hexDigit (Nat.mod_lt k (by decide))
  rw [toList_hex4]
  simp [unhex4, hdigit, hvalue]

/-- A character is no surrogate. -/
theorem toNat_valid (c : Char) : c.toNat < 55296 ∨ 57343 < c.toNat ∧ c.toNat < 1114112 := c.valid

/-- A character of the basic plane is one code unit. -/
theorem unescapeUnits_single {c : Char} (hbmp : c.toNat < 65536) (t : List Char) :
    unescapeUnits ((hex4 c.toNat).toList ++ t) = some (c, t) := by
  have hvalid := toNat_valid c
  have hsingle : ¬ (55296 ≤ c.toNat ∧ c.toNat < 56320) := by omega
  rw [unescapeUnits, unhex4_hex4 hbmp, Option.bind_some, if_neg hsingle, Char.ofNat_toNat]

theorem unescapeUnits_pair {high low : ℕ} (hhigh : 55296 ≤ high ∧ high < 56320)
    (hlow : low < 65536) (t : List Char) :
    unescapeUnits ((hex4 high).toList ++ ('\\' :: 'u' :: ((hex4 low).toList ++ t))) =
      some (Char.ofNat (65536 + (high - 55296) * 1024 + (low - 56320)), t) := by
  have hunit : high < 65536 := hhigh.2.trans (by decide)
  rw [unescapeUnits, unhex4_hex4 hunit, Option.bind_some, if_pos hhigh, List.drop_succ_cons,
    List.drop_succ_cons, List.drop_zero, unhex4_hex4 hlow, Option.map_some]

/-- The other characters are a surrogate pair. -/
theorem unescapeUnits_astral {c : Char} (hbmp : ¬ c.toNat < 65536) (t : List Char) :
    unescapeUnits ((hex4 (55296 + (c.toNat - 65536) / 1024)).toList ++
      ('\\' :: 'u' :: ((hex4 (56320 + (c.toNat - 65536) % 1024)).toList ++ t))) = some (c, t) := by
  have hvalid := toNat_valid c
  have hhigh : 55296 ≤ 55296 + (c.toNat - 65536) / 1024 ∧
      55296 + (c.toNat - 65536) / 1024 < 56320 := by omega
  have hlow : 56320 + (c.toNat - 65536) % 1024 < 65536 := by omega
  have hvalue : 65536 + (55296 + (c.toNat - 65536) / 1024 - 55296) * 1024 +
      (56320 + (c.toNat - 65536) % 1024 - 56320) = c.toNat := by omega
  rw [unescapeUnits_pair hhigh hlow, hvalue, Char.ofNat_toNat]

theorem unescape_escapeChar (c : Char) (t : List Char) :
    unescape ((escapeChar c).toList ++ t) = some (c, t) := by
  have hc : Char.ofNat c.toNat = c := Char.ofNat_toNat c
  simp only [escapeChar]
  split_ifs with hquote hback hnl hcr htab hff hbs hprint hbmp
  · subst hquote; rfl
  · subst hback; rfl
  · subst hnl; rfl
  · subst hcr; rfl
  · subst htab; rfl
  · rw [← hc, hff]; rfl
  · rw [← hc, hbs]; rfl
  · simp only [String.toList_ofList, List.cons_append, List.nil_append]
    unfold unescape
    split <;> simp_all
  · rw [toList_unit, unescape_unit, unescapeUnits_single hbmp]
  · rw [String.append_assoc, String.append_assoc, toList_unit, String.toList_append,
      List.append_assoc, toList_unit, unescape_unit, unescapeUnits_astral hbmp]

/-! ## Strings -/

theorem toList_quote (s : String) : (quote s).toList =
    '"' :: (s.toList.flatMap (fun c => (escapeChar c).toList) ++ ['"']) := by
  simp [quote, List.flatMap_map]

/-- The closing quotation mark opens no character. -/
theorem escapeChar_append_ne (c : Char) (t u : List Char) :
    (escapeChar c).toList ++ t ≠ '"' :: u := by
  intro h
  have hread := congrArg unescape h
  rw [unescape_escapeChar] at hread
  have hquote : c = '"' := (Prod.mk.inj (Option.some_inj.mp hread)).1
  subst hquote
  cases h

/-- A quoted string determines its characters, whatever follows it. -/
theorem quote_append_inj {s s' : String} {t u : List Char}
    (h : (quote s).toList ++ t = (quote s').toList ++ u) : s = s' ∧ t = u := by
  rw [toList_quote, toList_quote, List.cons_append, List.cons_append, List.append_assoc,
    List.append_assoc, List.cons.injEq] at h
  obtain ⟨hchars, htu⟩ := flatMap_append_inj unescape_escapeChar escapeChar_append_ne h.2
  exact ⟨String.toList_injective hchars, htu⟩

/-! ## Words -/

/-- Null, booleans and integers. -/
def Scalar.isWord : Scalar → Bool
  | .none | .bool _ | .int _ => true
  | .float _ | .str _ => false

/-- The characters that give a text its structure. -/
def punctuation : List Char := ['"', ',', ':', '[', ']', '\x7b', '\x7d']

theorem toList_ofNat (m : ℕ) : (toString (Int.ofNat m)).toList = Nat.toDigits 10 m := by
  have hnat : toString (Int.ofNat m) = toString m := rfl
  rw [hnat]
  simp

theorem toList_negSucc (m : ℕ) :
    (toString (Int.negSucc m)).toList = '-' :: Nat.toDigits 10 (m + 1) := by
  have hminus : toString (Int.negSucc m) = "-" ++ toString (m + 1) := rfl
  rw [hminus]
  simp

theorem isDigit_of_mem_toDigits {c : Char} {m : ℕ} (h : c ∈ Nat.toDigits 10 m) :
    c.isDigit = true :=
  Nat.isDigit_of_mem_toDigits (by decide) (by decide) h

theorem toDigits_injective {m n : ℕ} (h : Nat.toDigits 10 m = Nat.toDigits 10 n) : m = n := by
  have hread := congrArg (fun ds => Nat.ofDigitChars 10 ds 0) h
  simpa using hread

theorem mem_toString_int {n : ℤ} {c : Char} (h : c ∈ (toString n).toList) :
    c = '-' ∨ c.isDigit = true := by
  cases n with
  | ofNat m =>
    rw [toList_ofNat] at h
    exact .inr (isDigit_of_mem_toDigits h)
  | negSucc m =>
    rw [toList_negSucc, List.mem_cons] at h
    exact h.imp_right isDigit_of_mem_toDigits

theorem toString_int_injective {m n : ℤ} (h : (toString m).toList = (toString n).toList) :
    m = n := by
  have hsign : ∀ {m : ℕ}, '-' ∉ Nat.toDigits 10 m :=
    fun hmem => absurd (isDigit_of_mem_toDigits hmem) (by decide)
  cases m with
  | ofNat a =>
    cases n with
    | ofNat b =>
      rw [toList_ofNat, toList_ofNat] at h
      rw [toDigits_injective h]
    | negSucc b =>
      rw [toList_ofNat, toList_negSucc] at h
      exact absurd (h ▸ List.mem_cons_self) hsign
  | negSucc a =>
    cases n with
    | ofNat b =>
      rw [toList_ofNat, toList_negSucc] at h
      exact absurd (h ▸ List.mem_cons_self) hsign
    | negSucc b =>
      rw [toList_negSucc, toList_negSucc, List.cons.injEq] at h
      have hab := toDigits_injective h.2
      rw [show a = b by omega]

variable (py : Interp)

/-- The text of null, a boolean or an integer has no punctuation. -/
theorem not_mem_punctuation {s : Scalar} (hs : s.isWord = true) {c : Char}
    (hc : c ∈ (s.dumps py).toList) : c ∉ punctuation := by
  cases s with
  | none =>
    have hall : ∀ d ∈ "null".toList, d ∉ punctuation := by simp [punctuation]
    exact hall c hc
  | bool b =>
    have hall : ∀ b : Bool, ∀ d ∈ (if b then "true" else "false").toList, d ∉ punctuation := by
      simp [punctuation]
    exact hall b c hc
  | int n =>
    have hall : ∀ d ∈ punctuation, d ≠ '-' ∧ d.isDigit = false := by simp [punctuation]
    intro hmem
    obtain ⟨hminus, hdigit⟩ := hall c hmem
    rcases mem_toString_int hc with h | h
    · exact hminus h
    · rw [h] at hdigit
      cases hdigit
  | float x => cases hs
  | str t => cases hs

theorem dumps_ne_nil {s : Scalar} (hs : s.isWord = true) : (s.dumps py).toList ≠ [] := by
  cases s with
  | none => exact show "null".toList ≠ [] by decide
  | bool b =>
    have hall : ∀ b : Bool, (if b then "true" else "false").toList ≠ [] := by decide
    exact hall b
  | int n =>
    change (toString n).toList ≠ []
    cases n with
    | ofNat m =>
      rw [toList_ofNat]
      exact Nat.toDigits_ne_nil
    | negSucc m =>
      rw [toList_negSucc]
      exact List.cons_ne_nil _ _
  | float x => cases hs
  | str t => cases hs

/-- The other words have letters. -/
theorem dumps_int_ne {n : ℤ} {s : Scalar} (hs : s.isWord = true) (hint : ∀ m, s ≠ .int m) :
    ((Scalar.int n).dumps py).toList ≠ (s.dumps py).toList := by
  have hletter : ∀ c : Char, c ≠ '-' → c.isDigit = false → c ∉ (toString n).toList := by
    intro c hminus hdigit hmem
    rcases mem_toString_int hmem with h | h
    · exact hminus h
    · rw [h] at hdigit
      cases hdigit
  intro h
  cases s with
  | none =>
    have hmem : 'l' ∈ "null".toList := by decide
    exact hletter 'l' (by decide) (by decide) (h ▸ hmem)
  | bool b =>
    have hmem : ∀ b : Bool, 'e' ∈ (if b then "true" else "false").toList := by decide
    exact hletter 'e' (by decide) (by decide) (h ▸ hmem b)
  | int m => exact hint m rfl
  | float x => cases hs
  | str t => cases hs

/-- Words with the same text are the same. -/
theorem dumps_word_injective {s s' : Scalar} (hs : s.isWord = true) (hs' : s'.isWord = true)
    (h : (s.dumps py).toList = (s'.dumps py).toList) : s = s' := by
  cases s with
  | none => cases s' with
    | none => rfl
    | bool b => cases b <;> simp [Scalar.dumps] at h
    | int n => exact absurd h.symm (dumps_int_ne py hs (by simp))
    | float x => cases hs'
    | str t => cases hs'
  | bool b => cases s' with
    | none => cases b <;> simp [Scalar.dumps] at h
    | bool b' => cases b <;> cases b' <;> simp [Scalar.dumps] at h ⊢
    | int n => exact absurd h.symm (dumps_int_ne py hs (by simp))
    | float x => cases hs'
    | str t => cases hs'
  | int n => cases s' with
    | int n' => rw [toString_int_injective h]
    | none => exact absurd h (dumps_int_ne py hs' (by simp))
    | bool b => exact absurd h (dumps_int_ne py hs' (by simp))
    | float x => cases hs'
    | str t => cases hs'
  | float x => cases hs
  | str t => cases hs

/-- The texts of these scalars are told apart: they are not empty, have no punctuation, and
differ. -/
structure WordTexts (word : Scalar → Bool) : Prop where
  not_str : ∀ s, word (.str s) = false
  ne_nil : ∀ {s}, word s = true → (s.dumps py).toList ≠ []
  plain : ∀ {s}, word s = true → ∀ c ∈ (s.dumps py).toList, c ∉ punctuation
  injective : ∀ {s s'}, word s = true → word s' = true →
    (s.dumps py).toList = (s'.dumps py).toList → s = s'

theorem wordTexts_isWord : WordTexts py Scalar.isWord where
  not_str _ := rfl
  ne_nil hs := dumps_ne_nil py hs
  plain hs _ hc := not_mem_punctuation py hs hc
  injective hs hs' h := dumps_word_injective py hs hs' h

end ECN
