import ECN.JsonLoads
import Mathlib.Data.List.TakeWhile

/-!
# Parsing what was printed

Every part of the parser reads back what the printer wrote, in front of a comma, a
closing bracket or the end of the text. The fuel that a text needs is its length.
-/
namespace ECN

/-! ## Numbers -/

/-- What may follow a value inside a document. -/
def closers : List Char := [',', ']', '\x7d']

theorem head_of_endsAt {t : List Char} (ht : EndsAt closers t) :
    t = [] ∨ ∃ c rest, t = c :: rest ∧ c ∈ closers := by
  cases t with
  | nil => exact .inl rfl
  | cons c rest => exact .inr ⟨c, rest, rfl, ht c rfl⟩

theorem endsAt_comma (t : List Char) : EndsAt closers (',' :: t) :=
  endsAt_cons (by simp [closers]) t

theorem endsAt_bracket (t : List Char) : EndsAt closers (']' :: t) :=
  endsAt_cons (by simp [closers]) t

theorem endsAt_brace (t : List Char) : EndsAt closers ('\x7d' :: t) :=
  endsAt_cons (by simp [closers]) t

theorem not_isDigit_of_mem_closers {c : Char} (h : c ∈ closers) : c.isDigit = false := by
  simp only [closers, List.mem_cons, List.not_mem_nil, or_false] at h
  rcases h with rfl | rfl | rfl <;> rfl

theorem takeWhile_append_closers (cs : List Char) {t : List Char} (ht : EndsAt closers t) :
    (cs ++ t).takeWhile Char.isDigit = cs.takeWhile Char.isDigit ∧
      (cs ++ t).dropWhile Char.isDigit = cs.dropWhile Char.isDigit ++ t := by
  induction cs with
  | nil =>
    rcases head_of_endsAt ht with rfl | ⟨c, rest, rfl, hc⟩
    · exact ⟨rfl, rfl⟩
    · simp [not_isDigit_of_mem_closers hc]
  | cons c cs ih =>
    by_cases h : c.isDigit = true
    · simp [h, ih]
    · simp [h]

theorem scanDigits_append (cs : List Char) {t : List Char} (ht : EndsAt closers t) :
    scanDigits (cs ++ t) = (scanDigits cs).map fun p => (p.1, p.2 ++ t) := by
  obtain ⟨htake, hdrop⟩ := takeWhile_append_closers cs ht
  rw [scanDigits, htake, hdrop, scanDigits]
  split <;> rfl

theorem scanWhole_append (cs : List Char) {t : List Char} (ht : EndsAt closers t) :
    scanWhole (cs ++ t) = (scanWhole cs).map fun p => (p.1, p.2 ++ t) := by
  have hdigits := scanDigits_append cs ht
  cases cs with
  | nil =>
    rcases head_of_endsAt ht with rfl | ⟨c, rest, rfl, hc⟩
    · rfl
    · have hzero : c ≠ '0' := by
        rintro rfl
        exact absurd (not_isDigit_of_mem_closers hc) (by decide)
      unfold scanWhole
      split
      · next h => simp_all
      · exact hdigits
  | cons c cs =>
    by_cases hc : c = '0'
    · subst hc
      rfl
    · unfold scanWhole
      split
      · next h => simp_all
      · split
        · next h => simp_all
        · exact hdigits

theorem scanFraction_append (cs : List Char) {t : List Char} (ht : EndsAt closers t) :
    scanFraction (cs ++ t) = ((scanFraction cs).1, (scanFraction cs).2 ++ t) := by
  cases cs with
  | nil =>
    rcases head_of_endsAt ht with rfl | ⟨c, rest, rfl, hc⟩
    · rfl
    · simp only [closers, List.mem_cons, List.not_mem_nil, or_false] at hc
      rcases hc with rfl | rfl | rfl <;> rfl
  | cons c cs =>
    by_cases hc : c = '.'
    · subst hc
      have hdigits := scanDigits_append cs ht
      simp only [List.cons_append, scanFraction, hdigits]
      cases scanDigits cs <;> rfl
    · unfold scanFraction
      split
      · next h => simp_all
      · split
        · next h => simp_all
        · rfl

theorem scanExponentSign_append (cs : List Char) {t : List Char} (ht : EndsAt closers t) :
    scanExponentSign (cs ++ t) = ((scanExponentSign cs).1, (scanExponentSign cs).2 ++ t) := by
  cases cs with
  | nil =>
    rcases head_of_endsAt ht with rfl | ⟨c, rest, rfl, hc⟩
    · rfl
    · simp only [closers, List.mem_cons, List.not_mem_nil, or_false] at hc
      rcases hc with rfl | rfl | rfl <;> rfl
  | cons c cs =>
    by_cases hminus : c = '-'
    · subst hminus
      rfl
    by_cases hplus : c = '+'
    · subst hplus
      rfl
    · simp [scanExponentSign, hminus, hplus]

theorem scanExponent_append (cs : List Char) {t : List Char} (ht : EndsAt closers t) :
    scanExponent (cs ++ t) = ((scanExponent cs).1, (scanExponent cs).2 ++ t) := by
  cases cs with
  | nil =>
    rcases head_of_endsAt ht with rfl | ⟨c, rest, rfl, hc⟩
    · rfl
    · simp only [closers, List.mem_cons, List.not_mem_nil, or_false] at hc
      rcases hc with rfl | rfl | rfl <;> rfl
  | cons c cs =>
    have hsign := scanExponentSign_append cs ht
    have hdigits := scanDigits_append (scanExponentSign cs).2 ht
    simp only [List.cons_append, scanExponent, hsign, hdigits]
    split
    · cases scanDigits (scanExponentSign cs).2 <;> rfl
    · rfl

theorem scanSign_append {cs : List Char} (hcs : cs ≠ []) (t : List Char) :
    scanSign (cs ++ t) = ((scanSign cs).1, (scanSign cs).2 ++ t) := by
  cases cs with
  | nil => exact absurd rfl hcs
  | cons c cs =>
    by_cases hminus : c = '-'
    · subst hminus
      rfl
    · simp [scanSign, hminus]

/-- A number that fills its text is read up to a closing symbol. -/
theorem scanNumber_append {cs : List Char} {s : Scalar} (h : scanNumber cs = some (s, []))
    {t : List Char} (ht : EndsAt closers t) : scanNumber (cs ++ t) = some (s, t) := by
  have hcs : cs ≠ [] := by
    rintro rfl
    cases h
  unfold scanNumber at h ⊢
  rw [scanSign_append hcs, scanWhole_append _ ht]
  cases hwhole : scanWhole (scanSign cs).2 with
  | none => simp [hwhole] at h
  | some whole =>
    simp only [hwhole, Option.map_some, Option.some.injEq, Prod.mk.injEq] at h
    simp only [Option.map_some, scanFraction_append _ ht, scanExponent_append _ ht, h.1, h.2,
      List.nil_append]

/-- The digits of a positive number do not start with zero. -/
theorem head_toDigits {m : ℕ} (hm : 0 < m) : (Nat.toDigits 10 m).head? ≠ some '0' := by
  induction m using Nat.strong_induction_on with
  | _ m ih =>
    rcases Nat.lt_or_ge m 10 with hlt | hge
    · rw [Nat.toDigits_of_lt_base hlt]
      have hdigit : ∀ k : ℕ, k < 10 → 0 < k → Nat.digitChar k ≠ '0' := by decide
      simpa using hdigit m hlt hm
    · rw [Nat.toDigits_of_base_le (by decide) hge]
      have hrest := ih (m / 10) (by omega) (by omega)
      cases hdigits : Nat.toDigits 10 (m / 10) with
      | nil => exact absurd hdigits Nat.toDigits_ne_nil
      | cons c cs =>
        rw [hdigits] at hrest
        simpa using hrest

theorem scanWhole_toDigits (m : ℕ) :
    scanWhole (Nat.toDigits 10 m) = some (Nat.toDigits 10 m, []) := by
  rcases Nat.eq_zero_or_pos m with rfl | hm
  · rfl
  have hall : ∀ c ∈ Nat.toDigits 10 m, c.isDigit = true := fun c hc => isDigit_of_mem_toDigits hc
  have hhead := head_toDigits hm
  have htake : (Nat.toDigits 10 m).takeWhile Char.isDigit = Nat.toDigits 10 m :=
    List.takeWhile_eq_self_iff.mpr hall
  have hdrop : (Nat.toDigits 10 m).dropWhile Char.isDigit = [] :=
    List.dropWhile_eq_nil_iff.mpr hall
  have hdigits : scanDigits (Nat.toDigits 10 m) = some (Nat.toDigits 10 m, []) := by
    rw [scanDigits, htake, hdrop, if_neg Nat.toDigits_ne_nil]
  unfold scanWhole
  split
  · next h =>
    rw [h] at hhead
    exact absurd rfl hhead
  · exact hdigits

theorem scanNumber_int (n : ℤ) : scanNumber (toString n).toList = some (.int n, []) := by
  cases n with
  | ofNat m =>
    have hsign : scanSign (Nat.toDigits 10 m) = (false, Nat.toDigits 10 m) := by
      unfold scanSign
      split
      · next h =>
        have hmem : '-' ∈ Nat.toDigits 10 m := by simp [h]
        exact absurd (isDigit_of_mem_toDigits hmem) (by decide)
      · rfl
    rw [toList_ofNat]
    simp [scanNumber, hsign, scanWhole_toDigits, scanFraction, scanExponent, signed]
  | negSucc m =>
    rw [toList_negSucc]
    simp [scanNumber, scanSign, scanWhole_toDigits, scanFraction, scanExponent, signed]
    omega

/-- A number starts with a digit or with a sign in front of one. -/
theorem head_of_scanNumber {cs : List Char} {r : Scalar × List Char} (h : scanNumber cs = some r) :
    ∃ c rest, cs = c :: rest ∧ (c.isDigit = true ∨
      c = '-' ∧ ∃ d rest', rest = d :: rest' ∧ d.isDigit = true) := by
  have hdigit : ∀ ds : List Char, scanWhole ds ≠ none →
      ∃ d rest, ds = d :: rest ∧ d.isDigit = true := by
    intro ds hds
    cases ds with
    | nil => exact absurd rfl hds
    | cons d rest =>
      refine ⟨d, rest, rfl, ?_⟩
      by_contra hnot
      have hzero : d ≠ '0' := by
        rintro rfl
        exact hnot rfl
      apply hds
      unfold scanWhole
      split
      · next heq => simp_all
      · simp [scanDigits, hnot]
  have hwhole : scanWhole (scanSign cs).2 ≠ none := by
    intro hnone
    rw [scanNumber, hnone] at h
    cases h
  obtain ⟨d, rest, hd, hisDigit⟩ := hdigit _ hwhole
  unfold scanSign at hd
  split at hd
  · exact ⟨'-', _, rfl, .inr ⟨rfl, d, rest, hd, hisDigit⟩⟩
  · exact ⟨d, rest, hd, .inl hisDigit⟩

/-! ## Words -/

theorem loadWord_of_scanNumber {cs : List Char} {r : Scalar × List Char}
    (h : scanNumber cs = some r) : loadWord cs = some r := by
  obtain ⟨c, rest, rfl, hhead⟩ := head_of_scanNumber h
  have hletter : ∀ d : Char, d ∈ ['n', 't', 'f', 'N', 'I'] → d.isDigit = false ∧ d ≠ '-' := by
    simp
  unfold loadWord
  split
  · next heq => simp_all
  · next heq => simp_all
  · next heq => simp_all
  · next heq => simp_all
  · next heq => simp_all
  · next heq => simp_all
  · exact h

/-! ## Strings -/

theorem loadUnits_single {c : Char} (hbmp : c.toNat < 65536) (t : List Char) :
    loadUnits ((hex4 c.toNat).toList ++ t) = some (c, t) := by
  have hvalid := toNat_valid c
  have hhigh : ¬ (55296 ≤ c.toNat ∧ c.toNat < 56320) := by omega
  have hlow : ¬ (56320 ≤ c.toNat ∧ c.toNat < 57344) := by omega
  rw [loadUnits, unhex4_hex4 hbmp, Option.bind_some, if_neg hhigh, if_neg hlow, Char.ofNat_toNat]

theorem loadUnits_astral {c : Char} (hbmp : ¬ c.toNat < 65536) (t : List Char) :
    loadUnits ((hex4 (55296 + (c.toNat - 65536) / 1024)).toList ++
      ('\\' :: 'u' :: ((hex4 (56320 + (c.toNat - 65536) % 1024)).toList ++ t))) = some (c, t) := by
  have hvalid := toNat_valid c
  have hhigh : 55296 ≤ 55296 + (c.toNat - 65536) / 1024 ∧
      55296 + (c.toNat - 65536) / 1024 < 56320 := by omega
  have hunit : 55296 + (c.toNat - 65536) / 1024 < 65536 := by omega
  have hlow : 56320 ≤ 56320 + (c.toNat - 65536) % 1024 ∧
      56320 + (c.toNat - 65536) % 1024 < 57344 := by omega
  have hunit' : 56320 + (c.toNat - 65536) % 1024 < 65536 := by omega
  have hvalue : 65536 + (55296 + (c.toNat - 65536) / 1024 - 55296) * 1024 +
      (56320 + (c.toNat - 65536) % 1024 - 56320) = c.toNat := by omega
  have hpair : ∀ high cs, loadLowUnit high ('\\' :: 'u' :: cs) = (unhex4 cs).bind fun low =>
      if 56320 ≤ low.1 ∧ low.1 < 57344 then
        some (Char.ofNat (65536 + (high - 55296) * 1024 + (low.1 - 56320)), low.2)
      else none := fun _ _ => rfl
  rw [loadUnits, unhex4_hex4 hunit, Option.bind_some, if_pos hhigh, hpair, unhex4_hex4 hunit',
    Option.bind_some, if_pos hlow, hvalue, Char.ofNat_toNat]

theorem loadChar_escapeChar (c : Char) (t : List Char) :
    loadChar ((escapeChar c).toList ++ t) = some (c, t) := by
  have hc : Char.ofNat c.toNat = c := Char.ofNat_toNat c
  simp only [escapeChar]
  split_ifs with hquote hback hnl hcr htab hff hbs hprint hbmp
  · subst hquote; rfl
  · subst hback; rfl
  · subst hnl; rfl
  · subst hcr; rfl
  · subst htab; rfl
  · rw [← hc, hff]; rfl
  · rw [← hc, hbs]; rfl
  · simp only [String.toList_ofList, List.cons_append, List.nil_append]
    have hnot : ¬ c.toNat < 32 := by omega
    unfold loadChar
    split <;> simp_all
  · rw [toList_unit]
    exact loadUnits_single hbmp t
  · rw [String.append_assoc, String.append_assoc, toList_unit, String.toList_append,
      List.append_assoc, toList_unit]
    exact loadUnits_astral hbmp t

theorem length_escapeChar_pos (c : Char) : 0 < (escapeChar c).toList.length := by
  rw [List.length_pos_iff]
  intro hnil
  have hread := loadChar_escapeChar c []
  rw [hnil] at hread
  cases hread

theorem loadString_of_ne {cs : List Char} (h : ∀ u, cs ≠ '"' :: u) (fuel : ℕ) :
    loadString (fuel + 1) cs = (loadChar cs).bind fun first =>
      (loadString fuel first.2).map fun rest => (first.1 :: rest.1, rest.2) := by
  rw [loadString]
  exact h

theorem loadString_escaped (chars t : List Char) {fuel : ℕ} (hfuel : chars.length < fuel) :
    loadString fuel (chars.flatMap (fun c => (escapeChar c).toList) ++ '"' :: t) =
      some (chars, t) := by
  induction chars generalizing fuel with
  | nil =>
    obtain ⟨fuel, rfl⟩ : ∃ k, fuel = k + 1 := ⟨fuel - 1, by simp at hfuel; omega⟩
    rfl
  | cons c chars ih =>
    obtain ⟨fuel, rfl⟩ : ∃ k, fuel = k + 1 := ⟨fuel - 1, by simp at hfuel; omega⟩
    rw [List.length_cons] at hfuel
    rw [List.flatMap_cons, List.append_assoc,
      loadString_of_ne (escapeChar_append_ne c _), loadChar_escapeChar, Option.bind_some,
      ih (by omega)]
    rfl

theorem length_le_flatMap_escape (chars : List Char) :
    chars.length ≤ (chars.flatMap fun c => (escapeChar c).toList).length := by
  induction chars with
  | nil => exact le_rfl
  | cons c chars ih =>
    have hpos := length_escapeChar_pos c
    rw [List.flatMap_cons, List.length_append, List.length_cons]
    omega

/-- A quoted string is read back, whatever follows it. -/
theorem loadString_quote (s : String) (t : List Char) :
    ∃ cs, (quote s).toList ++ t = '"' :: cs ∧ loadString (cs.length + 1) cs = some (s.toList, t) := by
  refine ⟨s.toList.flatMap (fun c => (escapeChar c).toList) ++ '"' :: t, ?_, ?_⟩
  · rw [toList_quote, List.cons_append, List.append_assoc]
    rfl
  · apply loadString_escaped
    have hlen := length_le_flatMap_escape s.toList
    rw [List.length_append]
    omega

/-! ## Values -/

variable {py : Interp}

/-- The value is read back from its text with any fuel above the length of the text. -/
def ReadsBack (py : Interp) (v : Value) : Prop :=
  ∀ fuel t, (v.jsonChars py).length < fuel → EndsAt closers t →
    loadValue fuel (v.jsonChars py ++ t) = some (v, t)

theorem loadValue_of_loadWord {cs t : List Char} {s : Scalar} (h : loadWord cs = some (s, t))
    (hquote : ∀ u, cs ≠ '"' :: u) (hlist : ∀ u, cs ≠ '[' :: u) (hdict : ∀ u, cs ≠ '\x7b' :: u)
    (fuel : ℕ) : loadValue (fuel + 1) cs = some (.scalar s, t) := by
  rw [loadValue, h]
  · rfl
  · exact hquote
  · exact hlist
  · exact hdict

theorem loadValue_of_scanNumber {cs t : List Char} {s : Scalar}
    (h : scanNumber cs = some (s, [])) (ht : EndsAt closers t) (fuel : ℕ) :
    loadValue (fuel + 1) (cs ++ t) = some (.scalar s, t) := by
  have hscan := scanNumber_append h ht
  have hopen : ∀ c, c ∈ ['"', '[', '\x7b'] → ∀ u, cs ++ t ≠ c :: u := by
    intro c hc u hcs
    obtain ⟨d, rest, hd, hhead⟩ := head_of_scanNumber hscan
    obtain rfl := (List.cons.inj (hd.symm.trans hcs)).1
    have hnot : ∀ c : Char, c ∈ ['"', '[', '\x7b'] → c.isDigit = false ∧ c ≠ '-' := by simp
    obtain ⟨hdigit, hminus⟩ := hnot d hc
    rcases hhead with h | ⟨h, -⟩
    · rw [hdigit] at h
      cases h
    · exact hminus h
  exact loadValue_of_loadWord (loadWord_of_scanNumber hscan) (hopen _ (by simp))
    (hopen _ (by simp)) (hopen _ (by simp)) fuel

theorem readsBack_scalar (hpy : py.ReprReads) {s : Scalar} (h : s.isJson = true) :
    ReadsBack py (.scalar s) := by
  intro fuel t hfuel ht
  obtain ⟨fuel, rfl⟩ : ∃ k, fuel = k + 1 := ⟨fuel - 1, by omega⟩
  cases s with
  | none =>
    have hchars : Value.none.jsonChars py ++ t = 'n' :: 'u' :: 'l' :: 'l' :: t := by
      simp [Value.jsonChars, Scalar.dumps]
    rw [hchars]
    exact loadValue_of_loadWord rfl (by simp) (by simp) (by simp) fuel
  | bool b =>
    cases b with
    | false =>
      have hchars : (Value.bool false).jsonChars py ++ t =
          'f' :: 'a' :: 'l' :: 's' :: 'e' :: t := by
        simp [Value.jsonChars, Scalar.dumps]
      rw [hchars]
      exact loadValue_of_loadWord rfl (by simp) (by simp) (by simp) fuel
    | true =>
      have hchars : (Value.bool true).jsonChars py ++ t = 't' :: 'r' :: 'u' :: 'e' :: t := by
        simp [Value.jsonChars, Scalar.dumps]
      rw [hchars]
      exact loadValue_of_loadWord rfl (by simp) (by simp) (by simp) fuel
  | int n => exact loadValue_of_scanNumber (scanNumber_int n) ht fuel
  | float x =>
    have hchars : (Value.scalar (.float x)).jsonChars py = (py.floatRepr x).toList := by
      cases x with
      | finite q hq => rfl
      | negZero => rfl
      | inf negative => cases h
      | nan => cases h
    rw [hchars]
    exact loadValue_of_scanNumber (hpy x h) ht fuel
  | str s =>
    obtain ⟨cs, hcs, hload⟩ := loadString_quote s t
    have hchars : (Value.scalar (.str s)).jsonChars py = (quote s).toList := rfl
    rw [hchars, hcs, loadValue, hload, Option.map_some, String.ofList_toList]

theorem skipSpace_cons {c : Char} (h : isJsonSpace c = false) (cs : List Char) :
    skipSpace (c :: cs) = c :: cs := by
  simp [skipSpace, h]

/-- The text of a value starts with no space and with no closing symbol. -/
def OpensAt (cs : List Char) : Prop :=
  ∃ c rest, cs = c :: rest ∧ isJsonSpace c = false ∧ c ∉ closers

theorem opensAt_of_scanNumber {cs : List Char} {r : Scalar × List Char}
    (h : scanNumber cs = some r) : OpensAt cs := by
  obtain ⟨c, rest, rfl, hhead⟩ := head_of_scanNumber h
  have hnot : ∀ d : Char, d ∈ [' ', '\t', '\n', '\r', ',', ']', '\x7d'] →
      d.isDigit = false ∧ d ≠ '-' := by simp
  have hc : ∀ d : Char, d ∈ [' ', '\t', '\n', '\r', ',', ']', '\x7d'] → c ≠ d := by
    rintro d hd rfl
    obtain ⟨hdigit, hminus⟩ := hnot c hd
    rcases hhead with h | ⟨h, -⟩
    · rw [hdigit] at h
      cases h
    · exact hminus h
  refine ⟨c, rest, rfl, ?_, ?_⟩
  · simp [isJsonSpace, hc ' ' (by simp), hc '\t' (by simp), hc '\n' (by simp), hc '\r' (by simp)]
  · simp [closers, hc ',' (by simp), hc ']' (by simp), hc '\x7d' (by simp)]

theorem opensAt_quote (s : String) : OpensAt (quote s).toList := by
  rw [toList_quote]
  exact ⟨'"', _, rfl, by decide, by decide⟩

theorem opensAt_jsonChars (hpy : py.ReprReads) {v : Value} (hv : IsJsonDoc v) :
    OpensAt (v.jsonChars py) := by
  cases hv with
  | scalar h =>
    rename_i s
    cases s with
    | none => exact ⟨'n', ['u', 'l', 'l'], by simp [Value.jsonChars, Scalar.dumps],
        by decide, by decide⟩
    | bool b =>
      cases b with
      | false => exact ⟨'f', ['a', 'l', 's', 'e'],
          by simp [Value.jsonChars, Scalar.dumps], by decide, by decide⟩
      | true => exact ⟨'t', ['r', 'u', 'e'],
          by simp [Value.jsonChars, Scalar.dumps], by decide, by decide⟩
    | int n => exact opensAt_of_scanNumber (scanNumber_int n)
    | float x =>
      cases x with
      | finite q hq => exact opensAt_of_scanNumber (hpy _ h)
      | negZero => exact opensAt_of_scanNumber (hpy _ h)
      | inf negative => cases h
      | nan => cases h
    | str s => exact opensAt_quote s
  | list values => exact ⟨'[', _, rfl, by decide, by decide⟩
  | dict nodup keys values => exact ⟨'\x7b', _, rfl, by decide, by decide⟩

/-! ## Lists -/

theorem elementChars_eq_map (vs : List Value) :
    Value.elementChars py vs = vs.map (Value.jsonChars py) := by
  induction vs with
  | nil => rfl
  | cons v vs ih => rw [Value.elementChars, ih, List.map_cons]

theorem intercalate_cons_cons {α : Type*} (sep a b : List α) (ls : List (List α)) :
    List.intercalate sep (a :: b :: ls) = a ++ (sep ++ List.intercalate sep (b :: ls)) := by
  simp [List.intercalate]

/-- The space behind a separator is skipped. -/
theorem skipSpace_text {cs : List Char} (h : OpensAt cs) (t : List Char) :
    skipSpace (' ' :: (cs ++ t)) = cs ++ t := by
  obtain ⟨c, rest, rfl, hspace, -⟩ := h
  have hskip : skipSpace (' ' :: (c :: rest ++ t)) = skipSpace (c :: (rest ++ t)) := rfl
  rw [hskip, skipSpace_cons hspace]
  rfl

theorem opensAt_intercalate (sep : List Char) {cs : List Char} (h : OpensAt cs)
    (ls : List (List Char)) :
    OpensAt (List.intercalate sep (cs :: ls)) := by
  obtain ⟨c, rest, rfl, hspace, hcloser⟩ := h
  cases ls with
  | nil => exact ⟨c, rest, by simp, hspace, hcloser⟩
  | cons l ls =>
    rw [intercalate_cons_cons]
    exact ⟨c, _, rfl, hspace, hcloser⟩

theorem loadElements_intercalate {v : Value} {vs : List Value}
    (hreads : ∀ w ∈ v :: vs, ReadsBack py w) (hopens : ∀ w ∈ v :: vs, OpensAt (w.jsonChars py))
    {fuel : ℕ} (t : List Char)
    (hfuel : (List.intercalate [',', ' '] ((v :: vs).map (Value.jsonChars py))).length + 1 < fuel) :
    loadElements fuel
      (List.intercalate [',', ' '] ((v :: vs).map (Value.jsonChars py)) ++ ']' :: t) =
        some (v :: vs, t) := by
  induction vs generalizing v fuel with
  | nil =>
    obtain ⟨fuel, rfl⟩ : ∃ k, fuel = k + 1 := ⟨fuel - 1, by omega⟩
    have htext : List.intercalate [',', ' '] ([v].map (Value.jsonChars py)) = v.jsonChars py := by
      simp
    rw [htext] at hfuel ⊢
    have hread := hreads v List.mem_cons_self fuel (']' :: t) (by omega) (endsAt_bracket t)
    rw [loadElements, hread]
    rfl
  | cons w vs ih =>
    obtain ⟨fuel, rfl⟩ : ∃ k, fuel = k + 1 := ⟨fuel - 1, by omega⟩
    have htext : List.intercalate [',', ' '] ((v :: w :: vs).map (Value.jsonChars py)) =
        v.jsonChars py ++ ',' :: ' ' ::
          List.intercalate [',', ' '] ((w :: vs).map (Value.jsonChars py)) := by
      rw [List.map_cons, List.map_cons, intercalate_cons_cons]
      rfl
    rw [htext] at hfuel ⊢
    simp only [List.length_append, List.length_cons] at hfuel
    have hread := hreads v List.mem_cons_self fuel
      (',' :: ' ' :: (List.intercalate [',', ' '] ((w :: vs).map (Value.jsonChars py)) ++ ']' :: t))
      (by omega) (endsAt_comma _)
    have hopen : OpensAt (List.intercalate [',', ' '] ((w :: vs).map (Value.jsonChars py))) :=
      opensAt_intercalate _ (hopens w (by simp)) _
    have hrest := ih (fun u hu => hreads u (List.mem_cons_of_mem v hu))
      (fun u hu => hopens u (List.mem_cons_of_mem v hu)) (show _ < fuel by omega)
    rw [List.append_assoc, List.cons_append, List.cons_append, loadElements, hread, Option.bind_some]
    show (loadElements fuel (skipSpace _)).map _ = _
    rw [skipSpace_text hopen, hrest]
    rfl

theorem loadValue_list {cs : List Char} (h : OpensAt cs) (fuel : ℕ) :
    loadValue (fuel + 1) ('[' :: cs) =
      (loadElements fuel cs).map fun vs => (.list vs.1, vs.2) := by
  obtain ⟨c, rest, rfl, hspace, hcloser⟩ := h
  have hne : c ≠ ']' := by
    rintro rfl
    exact hcloser (by simp [closers])
  rw [loadValue, skipSpace_cons hspace]
  split
  · next heq => exact absurd (List.cons.inj heq).1 hne
  · rfl

theorem readsBack_list {vs : List Value} (hreads : ∀ v ∈ vs, ReadsBack py v)
    (hopens : ∀ v ∈ vs, OpensAt (v.jsonChars py)) : ReadsBack py (.list vs) := by
  intro fuel t hfuel ht
  obtain ⟨fuel, rfl⟩ : ∃ k, fuel = k + 1 := ⟨fuel - 1, by omega⟩
  rw [Value.jsonChars, elementChars_eq_map] at hfuel ⊢
  rw [List.cons_append, List.append_assoc, List.singleton_append]
  cases vs with
  | nil => rfl
  | cons v vs =>
    simp only [List.length_cons, List.length_append, List.length_nil] at hfuel
    have hopen : OpensAt (List.intercalate [',', ' '] ((v :: vs).map (Value.jsonChars py)) ++
        ']' :: t) := by
      obtain ⟨c, rest, hcs, hc⟩ := opensAt_intercalate [',', ' ']
        (hopens v List.mem_cons_self) (vs.map (Value.jsonChars py))
      exact ⟨c, rest ++ ']' :: t, by rw [List.map_cons, hcs]; rfl, hc⟩
    rw [loadValue_list hopen, loadElements_intercalate hreads hopens t (by omega)]
    rfl

/-! ## Objects -/

/-- The text of a member. -/
def memberText (py : Interp) (e : Scalar × Value) : List Char :=
  (e.1.dumpsKey py).toList ++ ':' :: ' ' :: e.2.jsonChars py

theorem memberChars_eq_map (es : PyDict) : Value.memberChars py es = es.map (memberText py) := by
  induction es with
  | nil => rfl
  | cons e es ih =>
    obtain ⟨k, v⟩ := e
    rw [Value.memberChars, ih]
    rfl

/-- The key and the value of a member are read in turn. -/
theorem load_member (k : String) {v : Value} (hread : ReadsBack py v)
    (hopen : OpensAt (v.jsonChars py)) {fuel : ℕ} {t : List Char} (ht : EndsAt closers t)
    (hfuel : (memberText py (.str k, v)).length < fuel) :
    ∃ cs rest, memberText py (.str k, v) ++ t = '"' :: cs ∧
      loadString (cs.length + 1) cs = some (k.toList, ':' :: rest) ∧
      loadValue fuel (skipSpace rest) = some (v, t) := by
  obtain ⟨cs, hcs, hload⟩ := loadString_quote k (':' :: ' ' :: (v.jsonChars py ++ t))
  refine ⟨cs, _, ?_, hload, ?_⟩
  · rw [← hcs]
    simp [memberText, Scalar.dumpsKey]
  · rw [skipSpace_text hopen]
    apply hread fuel t _ ht
    simp only [memberText, List.length_append, List.length_cons] at hfuel
    omega

theorem loadMembers_last (k : String) {v : Value} (hread : ReadsBack py v)
    (hopen : OpensAt (v.jsonChars py)) {fuel : ℕ} (t : List Char)
    (hfuel : (memberText py (.str k, v)).length < fuel) :
    loadMembers (fuel + 1) (memberText py (.str k, v) ++ '\x7d' :: t) =
      some ([(.str k, v)], t) := by
  obtain ⟨cs, rest, htext, hload, hvalue⟩ :=
    load_member k hread hopen (endsAt_brace t) hfuel
  rw [htext, loadMembers, hload, Option.bind_some]
  show (loadValue fuel (skipSpace rest)).bind _ = _
  rw [hvalue, Option.bind_some, String.ofList_toList]
  rfl

theorem loadMembers_more (k : String) {v : Value} (hread : ReadsBack py v)
    (hopen : OpensAt (v.jsonChars py)) {fuel : ℕ} (t : List Char)
    (hfuel : (memberText py (.str k, v)).length < fuel) :
    loadMembers (fuel + 1) (memberText py (.str k, v) ++ ',' :: t) =
      (loadMembers fuel (skipSpace t)).map fun es => ((.str k, v) :: es.1, es.2) := by
  obtain ⟨cs, rest, htext, hload, hvalue⟩ :=
    load_member k hread hopen (endsAt_comma t) hfuel
  rw [htext, loadMembers, hload, Option.bind_some]
  show (loadValue fuel (skipSpace rest)).bind _ = _
  rw [hvalue, Option.bind_some, String.ofList_toList]
  rfl

theorem loadMembers_intercalate {e : Scalar × Value} {es : PyDict}
    (hkeys : ∀ f ∈ e :: es, ∃ s, f.1 = .str s) (hreads : ∀ f ∈ e :: es, ReadsBack py f.2)
    (hopens : ∀ f ∈ e :: es, OpensAt (f.2.jsonChars py)) {fuel : ℕ} (t : List Char)
    (hfuel : (List.intercalate [',', ' '] ((e :: es).map (memberText py))).length + 1 < fuel) :
    loadMembers fuel
      (List.intercalate [',', ' '] ((e :: es).map (memberText py)) ++ '\x7d' :: t) =
        some (e :: es, t) := by
  induction es generalizing e fuel with
  | nil =>
    obtain ⟨fuel, rfl⟩ : ∃ k, fuel = k + 1 := ⟨fuel - 1, by omega⟩
    obtain ⟨k, v⟩ := e
    obtain ⟨k, rfl⟩ := hkeys (k, v) List.mem_cons_self
    have htext : List.intercalate [',', ' '] ([(Scalar.str k, v)].map (memberText py)) =
        memberText py (.str k, v) := by simp
    rw [htext] at hfuel ⊢
    have hread : ReadsBack py v := hreads _ List.mem_cons_self
    have hopen : OpensAt (v.jsonChars py) := hopens _ List.mem_cons_self
    exact loadMembers_last k hread hopen t (by omega)
  | cons f es ih =>
    obtain ⟨fuel, rfl⟩ : ∃ k, fuel = k + 1 := ⟨fuel - 1, by omega⟩
    obtain ⟨k, v⟩ := e
    obtain ⟨k, rfl⟩ := hkeys (k, v) List.mem_cons_self
    have htext : List.intercalate [',', ' ']
        (((Scalar.str k, v) :: f :: es).map (memberText py)) =
          memberText py (.str k, v) ++ ',' :: ' ' ::
            List.intercalate [',', ' '] ((f :: es).map (memberText py)) := by
      rw [List.map_cons, List.map_cons, intercalate_cons_cons]
      rfl
    rw [htext] at hfuel ⊢
    simp only [List.length_append, List.length_cons] at hfuel
    have hread : ReadsBack py v := hreads _ List.mem_cons_self
    have hopen : OpensAt (v.jsonChars py) := hopens _ List.mem_cons_self
    have hopenRest : OpensAt (List.intercalate [',', ' '] ((f :: es).map (memberText py))) := by
      obtain ⟨l, w⟩ := f
      obtain ⟨l, rfl⟩ := hkeys (l, w) (by simp)
      obtain ⟨c, rest, hcs, hc⟩ := opensAt_quote l
      apply opensAt_intercalate
      refine ⟨c, rest ++ ':' :: ' ' :: w.jsonChars py, ?_, hc⟩
      rw [memberText, Scalar.dumpsKey, hcs]
      rfl
    have hrest := ih (fun u hu => hkeys u (List.mem_cons_of_mem _ hu))
      (fun u hu => hreads u (List.mem_cons_of_mem _ hu))
      (fun u hu => hopens u (List.mem_cons_of_mem _ hu)) (show _ < fuel by omega)
    rw [List.append_assoc, List.cons_append, List.cons_append,
      loadMembers_more k hread hopen _ (by omega), skipSpace_text hopenRest, hrest]
    rfl

theorem loadValue_dict {cs : List Char} (h : OpensAt cs) (fuel : ℕ) :
    loadValue (fuel + 1) ('\x7b' :: cs) =
      (loadMembers fuel cs).map fun es => (.dict (PyDict.ofPairs es.1), es.2) := by
  obtain ⟨c, rest, rfl, hspace, hcloser⟩ := h
  have hne : c ≠ '\x7d' := by
    rintro rfl
    exact hcloser (by simp [closers])
  rw [loadValue, skipSpace_cons hspace]
  split
  · next heq => exact absurd (List.cons.inj heq).1 hne
  · rfl

/-- Setting a new key appends. -/
theorem set_of_not_mem {d : PyDict} {s : String} (h : Scalar.str s ∉ d.map Prod.fst) (v : Value) :
    d.set (.str s) v = d ++ [(.str s, v)] := by
  induction d with
  | nil => rfl
  | cons e d ih =>
    rw [List.map_cons, List.mem_cons, not_or] at h
    have hne : e.1 ≠ .str s := Ne.symm h.1
    simp [PyDict.set, hne, ih h.2]

/-- Distinct string keys make a dictionary of their members. -/
theorem ofPairs_eq {es : PyDict} (hnodup : (es.map Prod.fst).Nodup)
    (hkeys : ∀ e ∈ es, ∃ s, e.1 = .str s) : PyDict.ofPairs es = es := by
  induction es using List.reverseRecOn with
  | nil => rfl
  | append_singleton es e ih =>
    rw [List.map_append, List.nodup_append] at hnodup
    obtain ⟨k, v⟩ := e
    obtain ⟨k, rfl⟩ := hkeys (k, v) (by simp)
    have hnew : Scalar.str k ∉ es.map Prod.fst := by
      intro hmem
      exact hnodup.2.2 _ hmem _ (by simp) rfl
    have hfirst := ih hnodup.1 fun f hf => hkeys f (by simp [hf])
    rw [PyDict.ofPairs, List.foldl_append, ← PyDict.ofPairs, hfirst]
    exact set_of_not_mem hnew v

theorem readsBack_dict {es : PyDict} (hnodup : (es.map Prod.fst).Nodup)
    (hkeys : ∀ e ∈ es, ∃ s, e.1 = .str s) (hreads : ∀ e ∈ es, ReadsBack py e.2)
    (hopens : ∀ e ∈ es, OpensAt (e.2.jsonChars py)) : ReadsBack py (.dict es) := by
  intro fuel t hfuel ht
  obtain ⟨fuel, rfl⟩ : ∃ k, fuel = k + 1 := ⟨fuel - 1, by omega⟩
  rw [Value.jsonChars, memberChars_eq_map] at hfuel ⊢
  rw [List.cons_append, List.append_assoc, List.singleton_append]
  cases es with
  | nil => rfl
  | cons e es =>
    simp only [List.length_cons, List.length_append, List.length_nil] at hfuel
    have hopen : OpensAt (List.intercalate [',', ' '] ((e :: es).map (memberText py)) ++
        '\x7d' :: t) := by
      obtain ⟨k, v⟩ := e
      obtain ⟨k, rfl⟩ := hkeys (k, v) List.mem_cons_self
      obtain ⟨c, rest, hcs, hc⟩ := opensAt_quote k
      have hmember : OpensAt (memberText py (.str k, v)) :=
        ⟨c, rest ++ ':' :: ' ' :: v.jsonChars py, by rw [memberText, Scalar.dumpsKey, hcs]; rfl, hc⟩
      obtain ⟨d, rest', hds, hd⟩ := opensAt_intercalate [',', ' '] hmember
        (es.map (memberText py))
      exact ⟨d, rest' ++ '\x7d' :: t, by rw [List.map_cons, hds]; rfl, hd⟩
    rw [loadValue_dict hopen, loadMembers_intercalate hkeys hreads hopens t (by omega),
      Option.map_some, ofPairs_eq hnodup hkeys]

/-! ## Documents -/

theorem IsJsonDoc.readsBack (hpy : py.ReprReads) {v : Value} (h : IsJsonDoc v) :
    ReadsBack py v := by
  induction h with
  | scalar h => exact readsBack_scalar hpy h
  | list values ih => exact readsBack_list ih fun v hv => opensAt_jsonChars hpy (values v hv)
  | dict nodup keys values ih =>
    exact readsBack_dict nodup keys ih fun e he => opensAt_jsonChars hpy (values e he)

/-- `json.loads(json.dumps(v)) == v`, the order of keys included. -/
theorem jsonLoads_jsonText (hpy : py.ReprReads) {v : Value} (h : IsJsonDoc v) :
    jsonLoads (v.jsonText py) = some v := by
  have hread := h.readsBack hpy ((v.jsonChars py).length + 1) [] (by omega) (endsAt_nil _)
  obtain ⟨c, rest, hcs, hspace, -⟩ := opensAt_jsonChars hpy h
  have hskip : skipSpace (v.jsonChars py) = v.jsonChars py := by
    rw [hcs]
    exact skipSpace_cons hspace rest
  rw [List.append_nil] at hread
  rw [jsonLoads, Value.jsonText, String.toList_ofList, hskip, hread]
  rfl

end ECN
