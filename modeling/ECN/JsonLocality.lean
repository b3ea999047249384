import ECN.JsonRoundTrip

/-!
# The parser looks no further than it reads

A value that was read in front of a closing symbol or a space is read the same way when
more text follows. So no strict part of the text of an object is a JSON text, and a message
that was cut off is not taken for another one.
-/
namespace ECN

/-- The rest of the text starts with a symbol that ends a number. -/
def StopsAt (t : List Char) : Prop :=
  ∃ c rest, t = c :: rest ∧ (c ∈ closers ∨ isJsonSpace c = true)

theorem StopsAt.ne_nil {t : List Char} (h : StopsAt t) : t ≠ [] := by
  obtain ⟨c, rest, rfl, -⟩ := h
  simp

/-- No symbol that ends a number is part of one. -/
theorem StopsAt.head_ne {t : List Char} (h : StopsAt t) {d : Char}
    (hd : d ∈ ['.', 'e', 'E', '-', '+'] ∨ d.isDigit = true) (rest : List Char) : t ≠ d :: rest := by
  obtain ⟨c, tail, rfl, hc⟩ := h
  intro heq
  obtain ⟨rfl, -⟩ := List.cons.inj heq
  have hstop : c ∈ [',', ']', '\x7d', ' ', '\t', '\n', '\r'] := by
    rcases hc with hc | hc
    · simp only [closers, List.mem_cons, List.not_mem_nil, or_false] at hc
      rcases hc with rfl | rfl | rfl <;> simp
    · simp only [isJsonSpace, Bool.or_eq_true, decide_eq_true_eq] at hc
      rcases hc with ((rfl | rfl) | rfl) | rfl <;> simp
  have hall : ∀ s : Char, s ∈ [',', ']', '\x7d', ' ', '\t', '\n', '\r'] →
      s ∉ ['.', 'e', 'E', '-', '+'] ∧ s.isDigit = false := by simp
  obtain ⟨hsign, hdigit⟩ := hall c hstop
  rcases hd with hd | hd
  · exact hsign hd
  · rw [hdigit] at hd
    cases hd

/-! ## Numbers -/

theorem digits_append {cs : List Char} (h : cs.dropWhile Char.isDigit ≠ []) (u : List Char) :
    (cs ++ u).takeWhile Char.isDigit = cs.takeWhile Char.isDigit ∧
      (cs ++ u).dropWhile Char.isDigit = cs.dropWhile Char.isDigit ++ u := by
  induction cs with
  | nil => exact absurd rfl h
  | cons c cs ih =>
    by_cases hc : c.isDigit = true
    · simp only [List.dropWhile_cons, hc, if_true] at h
      simpa [hc] using ih h
    · simp [hc]

theorem scanDigits_extend {cs ds r : List Char} (h : scanDigits cs = some (ds, r)) (hr : r ≠ [])
    (u : List Char) : scanDigits (cs ++ u) = some (ds, r ++ u) := by
  unfold scanDigits at h ⊢
  split at h
  · cases h
  · next hne =>
    cases h
    obtain ⟨htake, hdrop⟩ := digits_append hr u
    rw [htake, hdrop, if_neg hne]

theorem scanWhole_extend {cs w r : List Char} (h : scanWhole cs = some (w, r)) (hr : r ≠ [])
    (u : List Char) : scanWhole (cs ++ u) = some (w, r ++ u) := by
  cases cs with
  | nil => cases h
  | cons c cs =>
    by_cases hc : c = '0'
    · subst hc
      cases h
      rfl
    · have hwhole : ∀ t, scanWhole (c :: t) = scanDigits (c :: t) := by
        intro t
        unfold scanWhole
        split
        · next heq => simp_all
        · rfl
      rw [hwhole] at h
      rw [List.cons_append, hwhole]
      exact scanDigits_extend h hr u

theorem scanExponentSign_extend {cs : List Char} (h : cs ≠ []) (u : List Char) :
    scanExponentSign (cs ++ u) = ((scanExponentSign cs).1, (scanExponentSign cs).2 ++ u) := by
  obtain ⟨c, cs, rfl⟩ := List.exists_cons_of_ne_nil h
  by_cases hminus : c = '-'
  · subst hminus
    rfl
  by_cases hplus : c = '+'
  · subst hplus
    rfl
  · simp [scanExponentSign, hminus, hplus]

theorem scanExponent_extend {cs : List Char} (h : StopsAt (scanExponent cs).2) (u : List Char) :
    scanExponent (cs ++ u) = ((scanExponent cs).1, (scanExponent cs).2 ++ u) ∧ cs ≠ [] ∧
      ∀ rest, cs ≠ '.' :: rest := by
  cases cs with
  | nil => exact absurd rfl h.ne_nil
  | cons c cs =>
    by_cases hc : c = 'e' ∨ c = 'E'
    · have hdot : c ≠ '.' := by rcases hc with rfl | rfl <;> decide
      refine ⟨?_, by simp, fun rest heq => hdot (List.cons.inj heq).1⟩
      cases hdigits : scanDigits (scanExponentSign cs).2 with
      | none =>
        rw [scanExponent, if_pos hc, hdigits] at h
        have hmem : c ∈ ['.', 'e', 'E', '-', '+'] := by rcases hc with rfl | rfl <;> simp
        exact absurd rfl (h.head_ne (.inl hmem) cs)
      | some p =>
        obtain ⟨digits, rest⟩ := p
        have hcs : cs ≠ [] := by
          rintro rfl
          cases hdigits
        have hread {t rest : List Char} (ht : scanDigits (scanExponentSign t).2 =
            some (digits, rest)) : scanExponent (c :: t) =
              (some (signed (scanExponentSign t).1 (Nat.ofDigitChars 10 digits 0)), rest) := by
          rw [scanExponent, if_pos hc, ht]
        rw [hread hdigits] at h
        have hmore : scanDigits (scanExponentSign (cs ++ u)).2 = some (digits, rest ++ u) := by
          rw [scanExponentSign_extend hcs]
          exact scanDigits_extend hdigits h.ne_nil u
        rw [List.cons_append, hread hmore, hread hdigits, scanExponentSign_extend hcs]
    · have hunfold : ∀ t, scanExponent (c :: t) = (none, c :: t) := fun t => by
        rw [scanExponent, if_neg hc]
      rw [hunfold] at h
      refine ⟨?_, by simp, fun rest => h.head_ne (.inl (by simp)) rest⟩
      rw [List.cons_append, hunfold, hunfold]
      rfl

theorem scanFraction_extend {cs : List Char} (hne : (scanFraction cs).2 ≠ [])
    (hdot : ∀ rest, (scanFraction cs).2 ≠ '.' :: rest) (u : List Char) :
    scanFraction (cs ++ u) = ((scanFraction cs).1, (scanFraction cs).2 ++ u) := by
  cases cs with
  | nil => exact absurd rfl hne
  | cons c cs =>
    by_cases hc : c = '.'
    · subst hc
      have hunfold : ∀ t, scanFraction ('.' :: t) = (scanDigits t).getD ([], '.' :: t) :=
        fun _ => rfl
      rw [hunfold] at hne hdot
      rw [List.cons_append, hunfold, hunfold]
      cases hdigits : scanDigits cs with
      | none =>
        rw [hdigits] at hdot
        exact absurd rfl (hdot cs)
      | some p =>
        rw [hdigits] at hne
        rw [scanDigits_extend hdigits hne u]
        rfl
    · have hunfold : ∀ t, scanFraction (c :: t) = ([], c :: t) := by
        intro t
        unfold scanFraction
        split
        · next heq => simp_all
        · rfl
      rw [List.cons_append, hunfold, hunfold]
      rfl

/-- A number in front of a stop symbol is read alike when more follows. -/
theorem scanNumber_extend {cs t : List Char} {s : Scalar} (h : scanNumber cs = some (s, t))
    (ht : StopsAt t) (u : List Char) : scanNumber (cs ++ u) = some (s, t ++ u) := by
  have hsign : scanSign (cs ++ u) = ((scanSign cs).1, (scanSign cs).2 ++ u) := by
    refine scanSign_append ?_ u
    rintro rfl
    cases h
  unfold scanNumber at h ⊢
  rw [hsign]
  cases hwhole : scanWhole (scanSign cs).2 with
  | none =>
    rw [hwhole] at h
    cases h
  | some whole =>
    obtain ⟨w, r⟩ := whole
    rw [hwhole] at h
    have heq := Prod.mk.inj (Option.some.inj h)
    have hstop : StopsAt (scanExponent (scanFraction r).2).2 := by
      rw [heq.2]
      exact ht
    obtain ⟨hexponent, hne, hdot⟩ := scanExponent_extend hstop u
    have hr : r ≠ [] := by
      rintro rfl
      exact hne rfl
    rw [scanWhole_extend hwhole hr, Option.map_some]
    dsimp only
    rw [scanFraction_extend hne hdot, hexponent, ← heq.1, ← heq.2]

theorem loadWord_extend {cs t : List Char} {s : Scalar} (h : loadWord cs = some (s, t))
    (ht : StopsAt t) (u : List Char) : loadWord (cs ++ u) = some (s, t ++ u) := by
  unfold loadWord at h
  split at h
  case h_7 => exact loadWord_of_scanNumber (scanNumber_extend h ht u)
  all_goals
    cases h
    rfl

/-! ## Strings -/

theorem unhex4_extend {cs t : List Char} {n : ℕ} (h : unhex4 cs = some (n, t)) (u : List Char) :
    unhex4 (cs ++ u) = some (n, t ++ u) := by
  unfold unhex4 at h
  split at h
  · next a b c d rest =>
    simp only [Option.bind_eq_bind, Option.bind_eq_some_iff, Option.pure_def, Option.some.injEq,
      Prod.mk.injEq] at h
    obtain ⟨x, hx, y, hy, z, hz, w, hw, rfl, rfl⟩ := h
    simp [unhex4, hx, hy, hz, hw]
  · cases h

theorem loadLowUnit_unit (high : ℕ) (cs : List Char) : loadLowUnit high ('\\' :: 'u' :: cs) =
    (unhex4 cs).bind fun low =>
      if 56320 ≤ low.1 ∧ low.1 < 57344 then
        some (Char.ofNat (65536 + (high - 55296) * 1024 + (low.1 - 56320)), low.2)
      else none := rfl

theorem loadLowUnit_extend {high : ℕ} {cs t : List Char} {c : Char}
    (h : loadLowUnit high cs = some (c, t)) (u : List Char) :
    loadLowUnit high (cs ++ u) = some (c, t ++ u) := by
  unfold loadLowUnit at h
  split at h
  · next cs =>
    obtain ⟨⟨low, rest⟩, hlow, hread⟩ := Option.bind_eq_some_iff.mp h
    rw [List.cons_append, List.cons_append, loadLowUnit_unit, unhex4_extend hlow u,
      Option.bind_some]
    dsimp only at hread ⊢
    split at hread
    · next hin =>
      obtain ⟨rfl, rfl⟩ := Prod.mk.inj (Option.some.inj hread)
      rw [if_pos hin]
    · cases hread
  · cases h

theorem loadUnits_extend {cs t : List Char} {c : Char} (h : loadUnits cs = some (c, t))
    (u : List Char) : loadUnits (cs ++ u) = some (c, t ++ u) := by
  obtain ⟨⟨unit, rest⟩, hunit, hread⟩ := Option.bind_eq_some_iff.mp h
  have hext := unhex4_extend hunit u
  rw [loadUnits, hext, Option.bind_some]
  dsimp only at hread ⊢
  split at hread
  · next hhigh =>
    rw [if_pos hhigh]
    exact loadLowUnit_extend hread u
  · next hhigh =>
    split at hread
    · cases hread
    · next hlow =>
      cases hread
      rw [if_neg hhigh, if_neg hlow]

theorem loadChar_short {d : Char} (hunit : d ≠ 'u') (hslash : d ≠ '/') (cs : List Char) :
    loadChar ('\\' :: d :: cs) = (shortEscape d).map fun e => (e, cs) := by
  unfold loadChar
  split
  · simp_all
  · simp_all
  · simp_all
  · next hother heq =>
    obtain ⟨hc, hcs⟩ := List.cons.inj heq
    exact absurd hcs.symm (hother d cs hc.symm)
  · simp_all

theorem loadChar_plain {c : Char} (hc : c ≠ '\\') (cs : List Char) :
    loadChar (c :: cs) = if c.toNat < 32 then none else some (c, cs) := by
  unfold loadChar
  split <;> simp_all

theorem loadChar_extend {cs t : List Char} {c : Char} (h : loadChar cs = some (c, t))
    (ht : t ≠ []) (u : List Char) : loadChar (cs ++ u) = some (c, t ++ u) := by
  cases cs with
  | nil => cases h
  | cons b cs =>
    by_cases hb : b = '\\'
    · subst hb
      cases cs with
      | nil =>
        cases h
        exact absurd rfl ht
      | cons d cs =>
        by_cases hunit : d = 'u'
        · subst hunit
          exact loadUnits_extend h u
        by_cases hslash : d = '/'
        · subst hslash
          cases h
          rfl
        rw [loadChar_short hunit hslash] at h
        obtain ⟨e, he, hpair⟩ := Option.map_eq_some_iff.mp h
        cases hpair
        rw [List.cons_append, List.cons_append, loadChar_short hunit hslash, he]
        rfl
    · rw [loadChar_plain hb] at h
      rw [List.cons_append, loadChar_plain hb]
      split at h
      · cases h
      · next hcontrol =>
        cases h
        rw [if_neg hcontrol]

theorem loadString_extend {fuel : ℕ} {cs s t : List Char} (h : loadString fuel cs = some (s, t))
    {more : ℕ} (hmore : fuel ≤ more) (u : List Char) :
    loadString more (cs ++ u) = some (s, t ++ u) := by
  induction fuel generalizing cs s t more with
  | zero => cases h
  | succ fuel ih =>
    obtain ⟨more, rfl⟩ : ∃ k, more = k + 1 := ⟨more - 1, by omega⟩
    by_cases hquote : ∃ rest, cs = '"' :: rest
    · obtain ⟨rest, rfl⟩ := hquote
      cases h
      rfl
    · have hne : ∀ rest, cs ≠ '"' :: rest := fun rest heq => hquote ⟨rest, heq⟩
      rw [loadString_of_ne hne] at h
      obtain ⟨⟨c, tail⟩, hchar, hrest⟩ := Option.bind_eq_some_iff.mp h
      obtain ⟨⟨s', t'⟩, hstring, hpair⟩ := Option.map_eq_some_iff.mp hrest
      cases hpair
      have htail : tail ≠ [] := by
        rintro rfl
        cases fuel <;> cases hstring
      have hne' : ∀ rest, cs ++ u ≠ '"' :: rest := by
        intro rest heq
        cases cs with
        | nil => cases hchar
        | cons b cs => exact hne cs (by rw [(List.cons.inj heq).1])
      rw [loadString_of_ne hne', loadChar_extend hchar htail, Option.bind_some,
        ih hstring (by omega)]
      rfl

/-! ## Values -/

theorem skipSpace_extend {cs : List Char} (h : skipSpace cs ≠ []) (u : List Char) :
    skipSpace (cs ++ u) = skipSpace cs ++ u := by
  induction cs with
  | nil => exact absurd rfl h
  | cons c cs ih =>
    by_cases hc : isJsonSpace c = true
    · have hskip : ∀ t, skipSpace (c :: t) = skipSpace t := fun t => by simp [skipSpace, hc]
      rw [hskip] at h
      rw [List.cons_append, hskip, hskip, ih h]
    · have hkeep : ∀ t, skipSpace (c :: t) = c :: t := fun t => by simp [skipSpace, hc]
      rw [List.cons_append, hkeep, hkeep]
      rfl

theorem skipSpace_extend_cons {cs rest : List Char} {c : Char} (h : skipSpace cs = c :: rest)
    (u : List Char) : skipSpace (cs ++ u) = c :: (rest ++ u) := by
  rw [skipSpace_extend (by rw [h]; exact List.cons_ne_nil c rest), h]
  rfl

/-- Spaces and then a closing symbol stop a number. -/
theorem stopsAt_of_skipSpace {cs rest : List Char} {c : Char} (h : skipSpace cs = c :: rest)
    (hc : c ∈ closers) : StopsAt cs := by
  cases cs with
  | nil => cases h
  | cons b cs =>
    by_cases hb : isJsonSpace b = true
    · exact ⟨b, cs, rfl, .inr hb⟩
    · have hkeep : skipSpace (b :: cs) = b :: cs := by simp [skipSpace, hb]
      rw [hkeep] at h
      obtain ⟨rfl, -⟩ := List.cons.inj h
      exact ⟨b, cs, rfl, .inl hc⟩

/-- The text starts like a string, a list or an object. -/
def OpensClosed (cs : List Char) : Prop := ∃ c rest, cs = c :: rest ∧ c ∈ ['"', '[', '\x7b']

/-- What is read alike in front of more text, for one amount of fuel. -/
structure ReadsAlike (fuel : ℕ) : Prop where
  value : ∀ {cs t v more}, loadValue fuel cs = some (v, t) → StopsAt t ∨ OpensClosed cs →
    fuel ≤ more → ∀ u, loadValue more (cs ++ u) = some (v, t ++ u)
  elements : ∀ {cs t vs more}, loadElements fuel cs = some (vs, t) → fuel ≤ more →
    ∀ u, loadElements more (cs ++ u) = some (vs, t ++ u)
  members : ∀ {cs t es more}, loadMembers fuel cs = some (es, t) → fuel ≤ more →
    ∀ u, loadMembers more (cs ++ u) = some (es, t ++ u)

theorem loadValue_plain {cs : List Char} (h : ¬ OpensClosed cs) (fuel : ℕ) :
    loadValue (fuel + 1) cs = (loadWord cs).map fun s => (.scalar s.1, s.2) := by
  rw [loadValue]
  · intro rest heq
    exact h ⟨_, rest, heq, by simp⟩
  · intro rest heq
    exact h ⟨_, rest, heq, by simp⟩
  · intro rest heq
    exact h ⟨_, rest, heq, by simp⟩

theorem loadValue_bracket (fuel : ℕ) (cs : List Char) : loadValue (fuel + 1) ('[' :: cs) =
    if (skipSpace cs).head? = some ']' then some (.list [], (skipSpace cs).tail)
    else (loadElements fuel (skipSpace cs)).map fun vs => (.list vs.1, vs.2) := by
  rw [loadValue]
  cases skipSpace cs with
  | nil => rfl
  | cons c rest =>
    by_cases hc : c = ']'
    · subst hc
      rfl
    · simp [hc]

theorem loadValue_brace (fuel : ℕ) (cs : List Char) : loadValue (fuel + 1) ('\x7b' :: cs) =
    if (skipSpace cs).head? = some '\x7d' then some (.dict [], (skipSpace cs).tail)
    else (loadMembers fuel (skipSpace cs)).map fun es => (.dict (PyDict.ofPairs es.1), es.2) := by
  rw [loadValue]
  cases skipSpace cs with
  | nil => rfl
  | cons c rest =>
    by_cases hc : c = '\x7d'
    · subst hc
      rfl
    · simp [hc]

theorem loadValue_nil (fuel : ℕ) : loadValue fuel [] = none := by
  cases fuel <;> rfl

theorem loadElements_nil (fuel : ℕ) : loadElements fuel [] = none := by
  cases fuel with
  | zero => rfl
  | succ fuel => rw [loadElements, loadValue_nil, Option.bind_none]

theorem loadMembers_nil (fuel : ℕ) : loadMembers fuel [] = none := by
  cases fuel <;> rfl

theorem skipSpace_ne_nil {β : Type} {parse : List Char → Option β} (hnil : parse [] = none)
    {cs : List Char} {r : β} (h : parse (skipSpace cs) = some r) : skipSpace cs ≠ [] := by
  intro heq
  rw [heq, hnil] at h
  cases h

theorem ReadsAlike.value_succ {fuel : ℕ} (ih : ReadsAlike fuel) {cs t : List Char} {v : Value}
    {more : ℕ} (h : loadValue (fuel + 1) cs = some (v, t)) (ht : StopsAt t ∨ OpensClosed cs)
    (hmore : fuel + 1 ≤ more) (u : List Char) : loadValue more (cs ++ u) = some (v, t ++ u) := by
  obtain ⟨more, rfl⟩ : ∃ k, more = k + 1 := ⟨more - 1, by omega⟩
  by_cases hopen : OpensClosed cs
  · obtain ⟨c, rest, rfl, hc⟩ := hopen
    simp only [List.mem_cons, List.not_mem_nil, or_false] at hc
    rcases hc with rfl | rfl | rfl
    · rw [loadValue] at h
      obtain ⟨⟨s, tail⟩, hstring, hpair⟩ := Option.map_eq_some_iff.mp h
      cases hpair
      rw [List.cons_append, loadValue,
        loadString_extend hstring (by rw [List.length_append]; omega) u]
      rfl
    · rw [loadValue_bracket] at h
      rw [List.cons_append, loadValue_bracket]
      have hne : skipSpace rest ≠ [] := by
        intro hnil
        rw [hnil, List.head?_nil, if_neg (by simp), loadElements_nil] at h
        cases h
      rw [skipSpace_extend hne, List.head?_append_of_ne_nil _ hne, List.tail_append_of_ne_nil hne]
      split at h
      · next hempty =>
        cases h
        rw [if_pos hempty]
      · next hempty =>
        obtain ⟨⟨vs, tail⟩, hvs, hpair⟩ := Option.map_eq_some_iff.mp h
        cases hpair
        rw [if_neg hempty, ih.elements hvs (by omega)]
        rfl
    · rw [loadValue_brace] at h
      rw [List.cons_append, loadValue_brace]
      have hne : skipSpace rest ≠ [] := by
        intro hnil
        rw [hnil, List.head?_nil, if_neg (by simp), loadMembers_nil] at h
        cases h
      rw [skipSpace_extend hne, List.head?_append_of_ne_nil _ hne, List.tail_append_of_ne_nil hne]
      split at h
      · next hempty =>
        cases h
        rw [if_pos hempty]
      · next hempty =>
        obtain ⟨⟨es, tail⟩, hes, hpair⟩ := Option.map_eq_some_iff.mp h
        cases hpair
        rw [if_neg hempty, ih.members hes (by omega)]
        rfl
  · have hstop := ht.resolve_right hopen
    have hne : cs ≠ [] := by
      rintro rfl
      rw [loadValue_nil] at h
      cases h
    have hopen' : ¬ OpensClosed (cs ++ u) := by
      rintro ⟨c, rest, heq, hc⟩
      obtain ⟨b, cs, rfl⟩ := List.exists_cons_of_ne_nil hne
      rw [List.cons_append] at heq
      exact hopen ⟨b, cs, rfl, by rw [(List.cons.inj heq).1]; exact hc⟩
    rw [loadValue_plain hopen] at h
    obtain ⟨⟨s, tail⟩, hword, hpair⟩ := Option.map_eq_some_iff.mp h
    cases hpair
    rw [loadValue_plain hopen', loadWord_extend hword hstop u]
    rfl

theorem ReadsAlike.elements_succ {fuel : ℕ} (ih : ReadsAlike fuel) {cs t : List Char}
    {vs : List Value} {more : ℕ} (h : loadElements (fuel + 1) cs = some (vs, t))
    (hmore : fuel + 1 ≤ more) (u : List Char) :
    loadElements more (cs ++ u) = some (vs, t ++ u) := by
  obtain ⟨more, rfl⟩ : ∃ k, more = k + 1 := ⟨more - 1, by omega⟩
  rw [loadElements] at h
  obtain ⟨⟨v, tail⟩, hv, hrest⟩ := Option.bind_eq_some_iff.mp h
  dsimp only at hrest
  split at hrest
  · next rest hskip =>
    obtain ⟨⟨ws, tail'⟩, hws, hpair⟩ := Option.map_eq_some_iff.mp hrest
    cases hpair
    have hstop := stopsAt_of_skipSpace hskip (by simp [closers])
    have hne := skipSpace_ne_nil (loadElements_nil fuel) hws
    rw [loadElements, ih.value hv (.inl hstop) (by omega), Option.bind_some]
    dsimp only
    rw [skipSpace_extend_cons hskip]
    show (loadElements more (skipSpace (rest ++ u))).map _ = _
    rw [skipSpace_extend hne, ih.elements hws (by omega)]
    rfl
  · next rest hskip =>
    cases hrest
    have hstop := stopsAt_of_skipSpace hskip (by simp [closers])
    rw [loadElements, ih.value hv (.inl hstop) (by omega), Option.bind_some]
    dsimp only
    rw [skipSpace_extend_cons hskip]
    rfl
  · cases hrest

section Members

variable {fuel : ℕ} {cs k tail text after rest : List Char} {v : Value}

theorem loadMembers_comma (hkey : loadString (cs.length + 1) cs = some (k, tail))
    (hcolon : skipSpace tail = ':' :: text)
    (hvalue : loadValue fuel (skipSpace text) = some (v, after))
    (hcomma : skipSpace after = ',' :: rest) : loadMembers (fuel + 1) ('"' :: cs) =
      (loadMembers fuel (skipSpace rest)).map fun es =>
        ((.str (String.ofList k), v) :: es.1, es.2) := by
  rw [loadMembers, hkey, Option.bind_some]
  dsimp only
  rw [hcolon]
  show (loadValue fuel (skipSpace text)).bind _ = _
  rw [hvalue, Option.bind_some]
  dsimp only
  rw [hcomma]
  rfl

theorem loadMembers_brace (hkey : loadString (cs.length + 1) cs = some (k, tail))
    (hcolon : skipSpace tail = ':' :: text)
    (hvalue : loadValue fuel (skipSpace text) = some (v, after))
    (hbrace : skipSpace after = '\x7d' :: rest) :
    loadMembers (fuel + 1) ('"' :: cs) = some ([(.str (String.ofList k), v)], rest) := by
  rw [loadMembers, hkey, Option.bind_some]
  dsimp only
  rw [hcolon]
  show (loadValue fuel (skipSpace text)).bind _ = _
  rw [hvalue, Option.bind_some]
  dsimp only
  rw [hbrace]
  rfl

end Members

theorem ReadsAlike.members_succ {fuel : ℕ} (ih : ReadsAlike fuel) {cs t : List Char}
    {es : List (Scalar × Value)} {more : ℕ} (h : loadMembers (fuel + 1) cs = some (es, t))
    (hmore : fuel + 1 ≤ more) (u : List Char) :
    loadMembers more (cs ++ u) = some (es, t ++ u) := by
  obtain ⟨more, rfl⟩ : ∃ k, more = k + 1 := ⟨more - 1, by omega⟩
  unfold loadMembers at h
  split at h
  · next cs =>
    obtain ⟨⟨k, tail⟩, hkey, hrest⟩ := Option.bind_eq_some_iff.mp h
    have hlonger : cs.length + 1 ≤ (cs ++ u).length + 1 := by
      rw [List.length_append]
      omega
    have hkey' := loadString_extend hkey hlonger u
    dsimp only at hrest
    split at hrest
    · next text hcolon =>
      obtain ⟨⟨v, after⟩, hv, hnext⟩ := Option.bind_eq_some_iff.mp hrest
      have hne := skipSpace_ne_nil (loadValue_nil fuel) hv
      have hcolon' := skipSpace_extend_cons hcolon u
      have hread (hstop : StopsAt after) :
          loadValue more (skipSpace (text ++ u)) = some (v, after ++ u) := by
        rw [skipSpace_extend hne]
        exact ih.value hv (.inl hstop) (by omega) u
      dsimp only at hnext
      split at hnext
      · next rest hskip =>
        obtain ⟨⟨fs, tail'⟩, hfs, hpair⟩ := Option.map_eq_some_iff.mp hnext
        cases hpair
        have hstop := stopsAt_of_skipSpace hskip (by simp [closers])
        have hne' := skipSpace_ne_nil (loadMembers_nil fuel) hfs
        rw [List.cons_append, loadMembers_comma hkey' hcolon' (hread hstop)
          (skipSpace_extend_cons hskip u), skipSpace_extend hne', ih.members hfs (by omega)]
        rfl
      · next rest hskip =>
        cases hnext
        have hstop := stopsAt_of_skipSpace hskip (by simp [closers])
        exact loadMembers_brace hkey' hcolon' (hread hstop) (skipSpace_extend_cons hskip u)
      · cases hnext
    · cases hrest
  · cases h

theorem readsAlike (fuel : ℕ) : ReadsAlike fuel := by
  induction fuel with
  | zero =>
    constructor
    · intro cs t v more h
      cases h
    · intro cs t vs more h
      cases h
    · intro cs t es more h
      cases h
  | succ fuel ih =>
    constructor
    · intro cs t v more h ht hmore u
      exact ih.value_succ h ht hmore u
    · intro cs t vs more h hmore u
      exact ih.elements_succ h hmore u
    · intro cs t es more h hmore u
      exact ih.members_succ h hmore u

/-! ## Texts cut off -/

theorem OpensClosed.skipSpace_eq {cs : List Char} (h : OpensClosed cs) : skipSpace cs = cs := by
  obtain ⟨c, rest, rfl, hc⟩ := h
  refine skipSpace_cons ?_ rest
  simp only [List.mem_cons, List.not_mem_nil, or_false] at hc
  rcases hc with rfl | rfl | rfl <;> rfl

theorem skipSpace_append_of_nil {r : List Char} (h : skipSpace r = []) (u : List Char) :
    skipSpace (r ++ u) = skipSpace u := by
  have hall : ∀ c ∈ r, isJsonSpace c = true := List.dropWhile_eq_nil_iff.mp h
  exact List.dropWhile_append_of_pos hall

/-- After a whole string, list or object only spaces can follow. -/
theorem jsonLoads_append {part : String} {v : Value} (h : jsonLoads part = some v)
    (hopen : OpensClosed part.toList) (more : String) :
    jsonLoads (part ++ more) = if skipSpace more.toList = [] then some v else none := by
  have hopen' : OpensClosed (part.toList ++ more.toList) := by
    obtain ⟨c, rest, hpart, hc⟩ := hopen
    exact ⟨c, rest ++ more.toList, by rw [hpart]; rfl, hc⟩
  unfold jsonLoads at h ⊢
  rw [hopen.skipSpace_eq] at h
  rw [String.toList_append, hopen'.skipSpace_eq]
  cases hload : loadValue (part.toList.length + 1) part.toList with
  | none =>
    rw [hload] at h
    cases h
  | some p =>
    obtain ⟨w, r⟩ := p
    rw [hload] at h
    dsimp only at h
    split at h
    · next hspace =>
      cases h
      rw [(readsAlike _).value hload (.inr hopen) (by rw [List.length_append]; omega)]
      dsimp only
      rw [skipSpace_append_of_nil hspace]
    · cases h

/-- No strict part of the text of an object is read. -/
theorem jsonLoads_of_strict_part {py : Interp} (hpy : py.ReprReads) {es : PyDict}
    (h : IsJsonDoc (.dict es)) {part : String}
    (hpart : part.toList <+: ((Value.dict es).jsonText py).toList)
    (hne : part ≠ (Value.dict es).jsonText py) : jsonLoads part = none := by
  by_contra hsome
  obtain ⟨v, hv⟩ := Option.ne_none_iff_exists'.mp hsome
  obtain ⟨more, hmore⟩ := hpart
  have htext : (Value.dict es).jsonText py = part ++ String.ofList more :=
    String.toList_injective (by simp [hmore])
  have hnil : more ≠ [] := by
    rintro rfl
    exact hne (by rw [htext]; simp)
  have hchars : ((Value.dict es).jsonText py).toList = '\x7b' ::
      (List.intercalate [',', ' '] (Value.memberChars py es) ++ ['\x7d']) := by
    rw [Value.jsonText, String.toList_ofList, Value.jsonChars]
  have hopen : OpensClosed part.toList := by
    cases hcs : part.toList with
    | nil =>
      rw [jsonLoads, hcs] at hv
      cases hv
    | cons c rest =>
      rw [hcs, hchars, List.cons_append] at hmore
      exact ⟨c, rest, rfl, by simp [(List.cons.inj hmore).1]⟩
  have hwhole := jsonLoads_jsonText hpy h
  rw [htext, jsonLoads_append hv hopen, String.toList_ofList] at hwhole
  split at hwhole
  · next hspace =>
    have hlast : more.getLast hnil = '\x7d' := by
      have hl : (part.toList ++ more).getLast? = some '\x7d' := by
        rw [hmore, hchars, ← List.cons_append, List.getLast?_concat]
      rw [List.getLast?_append_of_ne_nil _ hnil, List.getLast?_eq_some_getLast hnil] at hl
      exact Option.some.inj hl
    have hall : ∀ c ∈ more, isJsonSpace c = true := List.dropWhile_eq_nil_iff.mp hspace
    have hbrace := hall _ (List.getLast_mem hnil)
    rw [hlast] at hbrace
    cases hbrace
  · cases hwhole

end ECN
