import ECN.ApiKeys
import ECN.JsonAtoms
import ECN.JsonLocality

/-!
# JSON texts as bytes

The text of a JSON value is printable ASCII: it holds no newline, each of its bytes is a
character, and a part of its bytes is the encoding of a part of the text. A reader that
decodes, strips and parses it gets the value back, and of a strict part of an object it
gets nothing.
-/
namespace ECN

/-- Space to tilde. -/
def isPrintable (c : Char) : Bool := 32 ≤ c.toNat && c.toNat < 127

/-- `bs.decode("utf-8")`, where the bytes are an encoding. -/
def decodeUtf8 (bs : List UInt8) : Option String := String.fromUTF8? bs.toByteArray

theorem decodeUtf8_utf8 (s : String) : decodeUtf8 (utf8 s) = some s := by
  have hbytes : (utf8 s).toByteArray = s.toByteArray := by
    rw [← String.utf8Encode_toList]
    rfl
  rw [decodeUtf8, String.fromUTF8?, hbytes, dif_pos s.isValidUTF8]
  rfl

/-! ## Printed texts are printable -/

theorem isPrintable_of_isDigit {c : Char} (h : c.isDigit = true) : isPrintable c = true := by
  simp only [Char.isDigit, Bool.and_eq_true, decide_eq_true_eq, ge_iff_le] at h
  have hlow : 48 ≤ c.toNat := UInt32.le_iff_toNat_le.mp h.1
  have hhigh : c.toNat ≤ 57 := UInt32.le_iff_toNat_le.mp h.2
  simp only [isPrintable, Bool.and_eq_true, decide_eq_true_eq]
  omega

theorem isPrintable_hex4 (n : ℕ) : ∀ c ∈ (hex4 n).toList, isPrintable c = true := by
  have hall : ∀ c ∈ hexAlphabet, isPrintable c = true := List.all_eq_true.mp (by decide)
  rw [toList_hex4]
  intro c hc
  simp only [List.mem_cons, List.not_mem_nil, or_false] at hc
  rcases hc with rfl | rfl | rfl | rfl
  all_goals exact hall _ (hexDigit_mem _)

theorem isPrintable_escapeChar (c : Char) : ∀ d ∈ (escapeChar c).toList, isPrintable d = true := by
  have hunit : ∀ n, ∀ d ∈ ("\\u" ++ hex4 n).toList, isPrintable d = true := by
    intro n d hd
    rw [String.toList_append, List.mem_append] at hd
    rcases hd with hd | hd
    · have hall : ∀ e ∈ "\\u".toList, isPrintable e = true := List.all_eq_true.mp (by decide)
      exact hall d hd
    · exact isPrintable_hex4 n d hd
  simp only [escapeChar]
  split_ifs with hquote hback hnl hcr htab hff hbs hprint hbmp
  · exact List.all_eq_true.mp (by decide)
  · exact List.all_eq_true.mp (by decide)
  · exact List.all_eq_true.mp (by decide)
  · exact List.all_eq_true.mp (by decide)
  · exact List.all_eq_true.mp (by decide)
  · exact List.all_eq_true.mp (by decide)
  · exact List.all_eq_true.mp (by decide)
  · intro d hd
    rw [String.toList_ofList, List.mem_singleton] at hd
    subst hd
    simp only [isPrintable, Bool.and_eq_true, decide_eq_true_eq]
    omega
  · exact hunit _
  · intro d hd
    rw [String.append_assoc, String.toList_append, List.mem_append] at hd
    exact hd.elim (hunit _ d) (hunit _ d)

theorem isPrintable_quote (s : String) : ∀ c ∈ (quote s).toList, isPrintable c = true := by
  rw [toList_quote]
  intro c hc
  rw [List.mem_cons, List.mem_append, List.mem_flatMap, List.mem_singleton] at hc
  rcases hc with rfl | ⟨d, -, hc⟩ | rfl
  · decide
  · exact isPrintable_escapeChar d c hc
  · decide

theorem isPrintable_of_isNumeral {c : Char} (h : isNumeral c = true) : isPrintable c = true := by
  rw [isNumeral, Bool.or_eq_true, decide_eq_true_eq] at h
  rcases h with h | h
  · exact isPrintable_of_isDigit h
  · have hall : ∀ d ∈ ['-', '+', '.', 'e', 'E'], isPrintable d = true :=
      List.all_eq_true.mp (by decide)
    exact hall c h

variable {py : Interp}

theorem isPrintable_scalar (hpy : py.ReprReads) {s : Scalar} (h : s.isJson = true) :
    ∀ c ∈ (s.dumps py).toList, isPrintable c = true := by
  cases s with
  | none =>
    show ∀ c ∈ "null".toList, isPrintable c = true
    exact List.all_eq_true.mp (by decide)
  | bool b =>
    cases b with
    | false =>
      show ∀ c ∈ "false".toList, isPrintable c = true
      exact List.all_eq_true.mp (by decide)
    | true =>
      show ∀ c ∈ "true".toList, isPrintable c = true
      exact List.all_eq_true.mp (by decide)
  | int n => exact fun c hc => isPrintable_of_isNumeral (isNumeral_of_scanNumber (scanNumber_int n) c hc)
  | float x =>
    have htext : (Scalar.float x).dumps py = py.floatRepr x := by
      cases x with
      | finite q hq => rfl
      | negZero => rfl
      | inf negative => cases h
      | nan => cases h
    rw [htext]
    exact fun c hc => isPrintable_of_isNumeral (isNumeral_of_scanNumber (hpy x h) c hc)
  | str s => exact isPrintable_quote s

theorem isPrintable_intercalate {texts : List (List Char)}
    (h : ∀ cs ∈ texts, ∀ c ∈ cs, isPrintable c = true) :
    ∀ c ∈ List.intercalate [',', ' '] texts, isPrintable c = true := by
  have hcomma : ∀ c ∈ [',', ' '], isPrintable c = true := List.all_eq_true.mp (by decide)
  induction texts with
  | nil =>
    intro c hc
    cases hc
  | cons cs texts ih =>
    cases texts with
    | nil => simpa using h
    | cons ds texts =>
      rw [intercalate_cons_cons]
      intro c hc
      rw [List.mem_append, List.mem_append] at hc
      rcases hc with hc | hc | hc
      · exact h cs (by simp) c hc
      · exact hcomma c hc
      · exact ih (fun es hes => h es (List.mem_cons_of_mem _ hes)) c hc

/-- Every character of the text of a JSON value is printable ASCII. -/
theorem IsJsonDoc.isPrintable (hpy : py.ReprReads) {v : Value} (h : IsJsonDoc v) :
    ∀ c ∈ v.jsonChars py, ECN.isPrintable c = true := by
  have hbracket : ∀ b ∈ ['[', ']', '\x7b', '\x7d'], ECN.isPrintable b = true :=
    List.all_eq_true.mp (by decide)
  induction h with
  | scalar h =>
    rw [Value.jsonChars]
    exact isPrintable_scalar hpy h
  | @list vs values ih =>
    rw [Value.jsonChars, elementChars_eq_map]
    intro c hc
    rw [List.mem_cons, List.mem_append, List.mem_singleton] at hc
    rcases hc with rfl | hc | rfl
    · exact hbracket _ (by simp)
    · refine isPrintable_intercalate (fun cs hcs => ?_) c hc
      obtain ⟨v, hv, rfl⟩ := List.mem_map.mp hcs
      exact ih v hv
    · exact hbracket _ (by simp)
  | @dict es nodup keys values ih =>
    rw [Value.jsonChars, memberChars_eq_map]
    intro c hc
    rw [List.mem_cons, List.mem_append, List.mem_singleton] at hc
    rcases hc with rfl | hc | rfl
    · exact hbracket _ (by simp)
    · refine isPrintable_intercalate (fun cs hcs => ?_) c hc
      obtain ⟨e, he, rfl⟩ := List.mem_map.mp hcs
      obtain ⟨k, hk⟩ := keys e he
      intro d hd
      rw [memberText, hk, List.mem_append, List.mem_cons, List.mem_cons] at hd
      rcases hd with hd | rfl | rfl | hd
      · exact isPrintable_quote k d hd
      · decide
      · decide
      · exact ih e he d hd
    · exact hbracket _ (by simp)

/-! ## The bytes of a line -/

theorem utf8_of_isPrintable {cs : List Char} (h : ∀ c ∈ cs, isPrintable c = true) :
    utf8 (String.ofList cs) = cs.map fun c => c.val.toUInt8 := by
  rw [utf8, String.toList_ofList]
  induction cs with
  | nil => rfl
  | cons c cs ih =>
    have hc := h c List.mem_cons_self
    simp only [isPrintable, Bool.and_eq_true, decide_eq_true_eq] at hc
    have hsize : c.utf8Size = 1 := by
      rw [Char.utf8Size_eq_one_iff, UInt32.le_iff_toNat_le]
      have hval : c.val.toNat = c.toNat := rfl
      have hmax : (127 : UInt32).toNat = 127 := rfl
      omega
    rw [List.flatMap_cons, String.utf8EncodeChar_eq_singleton hsize,
      ih fun d hd => h d (List.mem_cons_of_mem _ hd)]
    rfl

/-- The byte that ends a line. -/
def newline : UInt8 := 10

theorem newline_not_mem {cs : List Char} (h : ∀ c ∈ cs, isPrintable c = true) :
    newline ∉ utf8 (String.ofList cs) := by
  rw [utf8_of_isPrintable h]
  intro hmem
  obtain ⟨c, hc, hbyte⟩ := List.mem_map.mp hmem
  have hprint := h c hc
  simp only [isPrintable, Bool.and_eq_true, decide_eq_true_eq] at hprint
  have hval : c.val.toUInt8.toNat = c.toNat % 256 := rfl
  rw [hbyte] at hval
  have hten : newline.toNat = 10 := rfl
  omega

theorem utf8_append (s t : String) : utf8 (s ++ t) = utf8 s ++ utf8 t := by
  simp [utf8]

/-- A part of the bytes is the encoding of a part of the text. -/
theorem exists_part_of_bytes {cs : List Char} (h : ∀ c ∈ cs, isPrintable c = true)
    {bs : List UInt8} (hbs : bs <+: utf8 (String.ofList cs)) :
    ∃ ds, ds <+: cs ∧ bs = utf8 (String.ofList ds) ∧ bs.length = ds.length := by
  refine ⟨cs.take bs.length, List.take_prefix _ _, ?_, ?_⟩
  · rw [utf8_of_isPrintable fun c hc => h c (List.mem_of_mem_take hc), List.map_take,
      ← utf8_of_isPrintable h]
    exact (List.prefix_iff_eq_take.mp hbs)
  · have hle := hbs.length_le
    rw [utf8_of_isPrintable h, List.length_map] at hle
    rw [List.length_take]
    omega

/-- The line that carries a value. -/
def writeLine (py : Interp) (v : Value) : List UInt8 := utf8 (v.jsonText py ++ "\n")

theorem writeLine_eq (py : Interp) (v : Value) :
    writeLine py v = utf8 (v.jsonText py) ++ [newline] := by
  rw [writeLine, utf8_append]
  rfl

/-- `json.loads(line.decode("utf-8").strip())`, with nothing for any of its exceptions. -/
def loadLine (line : List UInt8) : Option Value :=
  (decodeUtf8 line).bind fun text => jsonLoads (pyStrip text)

/-- A text that starts with no space is stripped at its end only. -/
theorem pyStrip_of_head {s : String} {c : Char} {cs : List Char} (hs : s.toList = c :: cs)
    (hc : isPySpace c = false) :
    pyStrip s = String.ofList (s.toList.reverse.dropWhile isPySpace).reverse := by
  rw [pyStrip, hs, List.dropWhile_cons, if_neg (by simp [hc])]

theorem pyStrip_prefix {s : String} {c : Char} {cs : List Char} (hs : s.toList = c :: cs)
    (hc : isPySpace c = false) : (pyStrip s).toList <+: s.toList := by
  rw [pyStrip_of_head hs hc, String.toList_ofList, ← List.reverse_suffix, List.reverse_reverse]
  exact List.dropWhile_suffix _

theorem pyStrip_newline {s : String} {c : Char} {cs : List Char} (hs : s.toList = c :: cs)
    (hc : isPySpace c = false) : pyStrip (s ++ "\n") = pyStrip s := by
  have hs' : (s ++ "\n").toList = c :: (cs ++ ['\n']) := by
    rw [String.toList_append, hs]
    rfl
  have hspace : isPySpace '\n' = true := by decide
  rw [pyStrip_of_head hs' hc, pyStrip_of_head hs hc, String.toList_append]
  congr 2
  show ((s.toList ++ ['\n']).reverse).dropWhile isPySpace = _
  rw [List.reverse_append, List.reverse_singleton, List.singleton_append, List.dropWhile_cons,
    if_pos hspace]

/-! ## Objects on a line -/

section Objects

variable {es : PyDict}

/-- The characters of the text of a dictionary. -/
theorem toList_jsonText_dict (py : Interp) (es : PyDict) : ((Value.dict es).jsonText py).toList =
    '\x7b' :: (List.intercalate [',', ' '] (Value.memberChars py es) ++ ['\x7d']) := by
  rw [Value.jsonText, String.toList_ofList, Value.jsonChars]

/-- The text of an object has nothing to strip. -/
theorem pyStrip_jsonText_dict (py : Interp) (es : PyDict) :
    pyStrip ((Value.dict es).jsonText py) = (Value.dict es).jsonText py := by
  have hchars := toList_jsonText_dict py es
  have hbrace : isPySpace '\x7d' = false := by decide
  rw [pyStrip_of_head hchars (by decide), hchars, ← List.cons_append, List.reverse_append,
    List.reverse_singleton, List.singleton_append, List.dropWhile_cons, if_neg (by simp [hbrace]),
    List.reverse_cons, List.reverse_reverse, List.cons_append, ← hchars, String.ofList_toList]

variable {py : Interp} (hpy : py.ReprReads) (h : IsJsonDoc (.dict es))
include hpy h

/-- With its newline or without, the line of an object gives the object back. -/
theorem loadLine_dict :
    loadLine (utf8 ((Value.dict es).jsonText py)) = some (.dict es) ∧
      loadLine (utf8 ((Value.dict es).jsonText py) ++ [newline]) = some (.dict es) := by
  have hstrip := pyStrip_jsonText_dict py es
  have hload := jsonLoads_jsonText hpy h
  constructor
  · rw [loadLine, decodeUtf8_utf8, Option.bind_some, hstrip, hload]
  · rw [← writeLine_eq, writeLine, loadLine, decodeUtf8_utf8, Option.bind_some,
      pyStrip_newline (toList_jsonText_dict py es) (by decide), hstrip, hload]

/-- A strict part of the line of an object gives nothing. -/
theorem loadLine_of_strict_part {bs : List UInt8}
    (hbs : bs <+: utf8 ((Value.dict es).jsonText py))
    (hne : bs ≠ utf8 ((Value.dict es).jsonText py)) : loadLine bs = none := by
  have hprint := h.isPrintable hpy
  obtain ⟨ds, hds, rfl, hlen⟩ := exists_part_of_bytes hprint hbs
  rw [loadLine, decodeUtf8_utf8, Option.bind_some]
  have hchars := toList_jsonText_dict py es
  have hwhole : (Value.dict es).jsonChars py = ((Value.dict es).jsonText py).toList := by
    rw [Value.jsonText, String.toList_ofList]
  rw [hwhole] at hds
  cases ds with
  | nil => rfl
  | cons d ds =>
    have hd : d = '\x7b' := by
      obtain ⟨more, hmore⟩ := hds
      rw [hchars, List.cons_append] at hmore
      exact (List.cons.inj hmore).1
    subst hd
    have hpart := pyStrip_prefix (String.toList_ofList (l := '\x7b' :: ds)) (by decide)
    rw [String.toList_ofList] at hpart
    refine jsonLoads_of_strict_part hpy h (hpart.trans hds) fun heq => hne ?_
    -- a part as long as the whole is the whole
    have hle := hpart.length_le
    rw [heq] at hle
    have hsame : '\x7b' :: ds = ((Value.dict es).jsonText py).toList :=
      hds.eq_of_length_le hle
    rw [hsame, String.ofList_toList]

/-- The line of an object has one newline, at its end. -/
theorem newline_not_mem_jsonText : newline ∉ utf8 ((Value.dict es).jsonText py) :=
  newline_not_mem (h.isPrintable hpy)

end Objects

end ECN
