import ECN.JsonText
import Mathlib.Data.String.Basic

/-!
# Canonical texts of JSON values

Two JSON values have the same canonical text exactly when they agree up to the order of
object keys. In one direction the printer sorts the keys; in the other the text of a value
is uniquely decodable in front of a comma or a closing bracket.
-/
namespace ECN

/-! ## JSON values -/

/-- Words, strings, lists, and objects with distinct string keys. -/
inductive JsonOver (word : Scalar → Bool) : Value → Prop where
  | word {s : Scalar} (h : word s = true) : JsonOver word (.scalar s)
  | str (s : String) : JsonOver word (.str s)
  | list {vs : List Value} (values : ∀ v ∈ vs, JsonOver word v) : JsonOver word (.list vs)
  | dict {es : PyDict} (nodup : (es.map Prod.fst).Nodup) (keys : ∀ e ∈ es, ∃ s, e.1 = .str s)
      (values : ∀ e ∈ es, JsonOver word e.2) : JsonOver word (.dict es)

/-- Null, booleans, integers, strings, lists, and objects with distinct string keys. -/
abbrev IsJson : Value → Prop := JsonOver Scalar.isWord

namespace Value

mutual

/-- Structural equality up to the order of object keys. -/
def same : Value → Value → Bool
  | .scalar s, .scalar t => decide (s = t)
  | .list vs, .list ws => sameList vs ws
  | .dict es, .dict fs => decide (es.length = fs.length) && sameItems es fs
  | _, _ => false

def sameList : List Value → List Value → Bool
  | [], [] => true
  | v :: vs, w :: ws => same v w && sameList vs ws
  | _, _ => false

/-- Every item of the first object is one of the second. -/
def sameItems : List (Scalar × Value) → List (Scalar × Value) → Bool
  | [], _ => true
  | (k, v) :: es, fs =>
    (match PyDict.get? fs k with
    | some w => same v w
    | Option.none => false) && sameItems es fs

end

theorem sameList_iff {vs ws : List Value} :
    sameList vs ws = true ↔ List.Forall₂ (fun v w => v.same w = true) vs ws := by
  induction vs generalizing ws with
  | nil => cases ws <;> simp [sameList]
  | cons v vs ih => cases ws <;> simp [sameList, ih]

theorem sameItems_iff {es fs : PyDict} : sameItems es fs = true ↔
    ∀ e ∈ es, ∃ w, PyDict.get? fs e.1 = some w ∧ e.2.same w = true := by
  induction es with
  | nil => simp [sameItems]
  | cons e es ih =>
    obtain ⟨k, v⟩ := e
    cases hget : PyDict.get? fs k <;> simp [sameItems, hget, ih]

theorem same_dict_iff {es fs : PyDict} : (Value.dict es).same (.dict fs) = true ↔
    es.length = fs.length ∧
      ∀ e ∈ es, ∃ w, PyDict.get? fs e.1 = some w ∧ e.2.same w = true := by
  rw [same, Bool.and_eq_true, decide_eq_true_iff, sameItems_iff]

end Value

variable {word : Scalar → Bool}

theorem JsonOver.stringKeyed {v : Value} (h : JsonOver word v) : v.stringKeyed = true := by
  induction h with
  | word h => rfl
  | str s => rfl
  | list values ih => exact (Value.stringKeyedList_iff _).mpr ih
  | dict nodup keys values ih =>
    exact (Value.stringKeyed_dict_iff _).mpr fun e he => ⟨keys e he, ih e he⟩

/-! ## Texts -/

variable (py : Interp)

/-- The canonical text of a value that prints. -/
def Value.text (v : Value) : String :=
  match v.dumps py with
  | .ok s => s
  | .error _ => ""

variable {py}

theorem JsonOver.dumps_eq {v : Value} (h : JsonOver word v) : v.dumps py = .ok (v.text py) := by
  obtain ⟨s, hs⟩ := Value.dumps_ok py v h.stringKeyed
  rw [Value.text, hs]

theorem dumpsList_eq {vs : List Value} (h : ∀ v ∈ vs, JsonOver word v) :
    Value.dumpsList py vs = .ok (vs.map (Value.text py)) := by
  induction vs with
  | nil => rfl
  | cons v vs ih =>
    rw [Value.dumpsList, (h v List.mem_cons_self).dumps_eq,
      ih fun w hw => h w (List.mem_cons_of_mem v hw)]
    rfl

theorem dumpsItems_eq {es : PyDict} (h : ∀ e ∈ es, JsonOver word e.2) :
    Value.dumpsItems py es = .ok (es.map fun e => (e.1, e.2.text py)) := by
  induction es with
  | nil => rfl
  | cons e es ih =>
    rw [Value.dumpsItems, (h e List.mem_cons_self).dumps_eq,
      ih fun f hf => h f (List.mem_cons_of_mem e hf)]
    rfl

/-- The text of an object item. -/
def entryText (py : Interp) (e : Scalar × Value) : List Char :=
  (e.1.dumpsKey py).toList ++ ':' :: (e.2.text py).toList

theorem text_list {vs : List Value} (h : ∀ v ∈ vs, JsonOver word v) :
    ((Value.list vs).text py).toList =
      '[' :: (joined ',' (fun v => (v.text py).toList) vs ++ [']']) := by
  have hdumps : (Value.list vs).dumps py =
      .ok ("[" ++ String.intercalate "," (vs.map (Value.text py)) ++ "]") := by
    rw [Value.dumps, dumpsList_eq h]
    rfl
  rw [Value.text, hdumps]
  simp [joined, Function.comp_def]

/-- An object is printed item by item in some order. -/
theorem text_dict (py : Interp) {es : PyDict} (h : JsonOver word (.dict es)) :
    ∃ sorted : PyDict, sorted.Perm es ∧ ((Value.dict es).text py).toList =
      '\x7b' :: (joined ',' (entryText py) sorted ++ ['\x7d']) := by
  cases h with
  | dict nodup keys values =>
    obtain ⟨sorted, hsorted⟩ := pySorted_ok (fun a b : Scalar × Value => a.1.lt b.1)
      (fun e => ∃ s, e.1 = .str s)
      (by rintro ⟨_, _⟩ ⟨_, _⟩ ⟨s, rfl⟩ ⟨t, rfl⟩; exact ⟨_, rfl⟩) keys
    have hitems : pySorted (fun a b : Scalar × String => a.1.lt b.1)
        (es.map fun e => (e.1, e.2.text py)) =
          (pySorted (fun a b : Scalar × Value => a.1.lt b.1) es).map
            (List.map fun e => (e.1, e.2.text py)) := pySorted_map _ (fun _ _ => rfl) es
    rw [hsorted] at hitems
    have hdumps : (Value.dict es).dumps py = .ok ("\x7b" ++ String.intercalate ","
        ((sorted.map fun e => (e.1, e.2.text py)).map fun e => e.1.dumpsKey py ++ ":" ++ e.2) ++
        "\x7d") := by
      simp only [Value.dumps, dumpsItems_eq values, bind, Except.bind, hitems]
      rfl
    refine ⟨sorted, pySorted_perm hsorted, ?_⟩
    rw [Value.text, hdumps]
    simp [joined, Function.comp_def]
    rfl

/-! ## The order of keys does not show -/

/-- Objects with the same items up to `same` have the same printed items, in another order. -/
theorem printed_perm {es fs : PyDict} (hes : (es.map Prod.fst).Nodup)
    (hfs : (fs.map Prod.fst).Nodup) (hkeys : ∀ e ∈ es, ∃ s, e.1 = .str s)
    (hlength : es.length = fs.length)
    (hitems : ∀ e ∈ es, ∃ w, PyDict.get? fs e.1 = some w ∧ e.2.text py = w.text py) :
    (es.map fun e => (e.1, e.2.text py)).Perm (fs.map fun e => (e.1, e.2.text py)) := by
  have hnodup : (es.map fun e => (e.1, e.2.text py)).Nodup := by
    refine List.Nodup.of_map Prod.fst ?_
    simpa [Function.comp_def] using hes
  have hsub : (es.map fun e => (e.1, e.2.text py)) ⊆ fs.map fun e => (e.1, e.2.text py) := by
    intro p hp
    obtain ⟨e, he, rfl⟩ := List.mem_map.mp hp
    obtain ⟨s, hs⟩ := hkeys e he
    obtain ⟨w, hget, htext⟩ := hitems e he
    rw [hs] at hget
    refine List.mem_map.mpr ⟨(.str s, w), (PyDict.get?_str_eq_some_iff hfs).mp hget, ?_⟩
    rw [hs, htext]
  exact (List.subperm_of_subset hnodup hsub).perm_of_length_le (by simp [hlength])

/-- The string of a key. -/
def keyString : Scalar → String
  | .str s => s
  | _ => ""

theorem pySorted_printed {es fs : PyDict} (hes : (es.map Prod.fst).Nodup)
    (hkeys : ∀ e ∈ es, ∃ s, e.1 = .str s)
    (hperm : (es.map fun e => (e.1, e.2.text py)).Perm (fs.map fun e => (e.1, e.2.text py))) :
    pySorted (fun a b : Scalar × String => a.1.lt b.1) (es.map fun e => (e.1, e.2.text py)) =
      pySorted (fun a b : Scalar × String => a.1.lt b.1)
        (fs.map fun e => (e.1, e.2.text py)) := by
  have hlt : ∀ a b : Scalar × String, (∃ s, a.1 = .str s) → (∃ s, b.1 = .str s) →
      ∃ less, a.1.lt b.1 = .ok less ∧ (less = true ↔ keyString a.1 < keyString b.1) := by
    rintro ⟨_, _⟩ ⟨_, _⟩ ⟨s, rfl⟩ ⟨t, rfl⟩
    exact ⟨_, rfl, decide_eq_true_iff⟩
  refine pySorted_eq_of_perm hlt (fun p hp => ?_) ?_ hperm
  · obtain ⟨e, he, rfl⟩ := List.mem_map.mp hp
    exact hkeys e he
  · have hinj : ∀ k ∈ es.map Prod.fst, ∀ l ∈ es.map Prod.fst,
        keyString k = keyString l → k = l := by
      intro k hk l hl hkl
      obtain ⟨e, he, rfl⟩ := List.mem_map.mp hk
      obtain ⟨f, hf, rfl⟩ := List.mem_map.mp hl
      obtain ⟨s, hs⟩ := hkeys e he
      obtain ⟨t, ht⟩ := hkeys f hf
      rw [hs, ht] at hkl ⊢
      exact congrArg Scalar.str hkl
    have hnodup : ((es.map Prod.fst).map keyString).Nodup :=
      (List.nodup_map_iff_inj_on hes).mpr hinj
    simpa [Function.comp_def] using hnodup

theorem text_list_congr {vs ws : List Value} (hvs : ∀ v ∈ vs, JsonOver word v) (hws : ∀ w ∈ ws, JsonOver word w)
    (h : vs.map (Value.text py) = ws.map (Value.text py)) :
    (Value.list vs).text py = (Value.list ws).text py := by
  have hdumps : (Value.list vs).dumps py = (Value.list ws).dumps py := by
    rw [Value.dumps, Value.dumps, dumpsList_eq hvs, dumpsList_eq hws, h]
  rw [Value.text, Value.text, hdumps]

theorem text_dict_congr {es fs : PyDict} (hes : JsonOver word (.dict es)) (hfs : JsonOver word (.dict fs))
    (hlength : es.length = fs.length)
    (hitems : ∀ e ∈ es, ∃ w, PyDict.get? fs e.1 = some w ∧ e.2.text py = w.text py) :
    (Value.dict es).text py = (Value.dict fs).text py := by
  cases hes with
  | dict hnodup hkeys hvalues =>
  cases hfs with
  | dict hnodup' hkeys' hvalues' =>
  have hsorted := pySorted_printed hnodup hkeys (printed_perm hnodup hnodup' hkeys hlength hitems)
  have hdumps : (Value.dict es).dumps py = (Value.dict fs).dumps py := by
    simp only [Value.dumps, dumpsItems_eq hvalues, dumpsItems_eq hvalues', bind, Except.bind,
      hsorted]
  rw [Value.text, Value.text, hdumps]

theorem JsonOver.of_get? {es : PyDict} {k : Scalar} {v : Value} (h : JsonOver word (.dict es))
    (hget : PyDict.get? es k = some v) : JsonOver word v := by
  cases h with
  | dict nodup keys values =>
    obtain ⟨e, he, rfl⟩ := PyDict.get?_mem hget
    exact values e he

/-- Values that agree up to the order of keys have one text. -/
theorem text_eq_of_same {v w : Value} (hv : JsonOver word v) (hw : JsonOver word w) (h : v.same w = true) :
    v.text py = w.text py := by
  induction hv generalizing w with
  | @word s hs =>
    cases w with
    | scalar t => rw [of_decide_eq_true h]
    | list ws => cases h
    | dict fs => cases h
  | str s =>
    cases w with
    | scalar t =>
      obtain rfl : Scalar.str s = t := of_decide_eq_true h
      rfl
    | list ws => cases h
    | dict fs => cases h
  | @list vs hvs ih =>
    cases hw with
    | @list ws hws =>
      have hsame : List.Forall₂ (fun v w => v.same w = true) vs ws := Value.sameList_iff.mp h
      exact text_list_congr hvs hws
        (map_eq_of_forall₂ hsame fun v hv w hw hvw => ih v hv (hws w hw) hvw)
    | word hs => cases h
    | str s => cases h
    | dict nodup keys values => cases h
  | @dict es nodup keys values ih =>
    cases w with
    | scalar t => cases h
    | list ws => cases h
    | dict fs =>
      obtain ⟨hlength, hitems⟩ := Value.same_dict_iff.mp h
      refine text_dict_congr (.dict nodup keys values) hw hlength fun e he => ?_
      obtain ⟨w, hget, hsame⟩ := hitems e he
      exact ⟨w, hget, ih e he (hw.of_get? hget) hsame⟩

/-! ## Nothing else is hidden -/

/-- The symbols behind a value. -/
def valueStops : List Char := [',', ']', '\x7d']

/-- The symbol that opens a string, a list or an object. -/
def opening : Value → Option Char
  | .scalar (.str _) => some '"'
  | .scalar _ => none
  | .list _ => some '['
  | .dict _ => some '\x7b'

def openingOf (c : Char) : Option Char := if c ∈ ['"', '[', '\x7b'] then some c else none

/-- The text determines the value up to the order of keys. -/
abbrev Decodes (py : Interp) (word : Scalar → Bool) (v : Value) : Prop :=
  Determines valueStops (fun v => (v.text py).toList) (JsonOver word) (fun v w => v.same w = true) v

variable (hword : WordTexts py word)
include hword

theorem opening_word {s : Scalar} (hs : word s = true) : opening (.scalar s) = none := by
  cases s with
  | str t =>
    rw [hword.not_str t] at hs
    cases hs
  | none => rfl
  | bool b => rfl
  | int n => rfl
  | float x => rfl

/-- The first symbol tells the kind of a value. -/
theorem text_head {v : Value} (h : JsonOver word v) :
    ∃ c cs, (v.text py).toList = c :: cs ∧ c ∉ valueStops ∧ opening v = openingOf c := by
  cases h with
  | @word s hs =>
    obtain ⟨c, cs, hc⟩ := List.exists_cons_of_ne_nil (hword.ne_nil hs)
    have hpunct : c ∉ punctuation := hword.plain hs c (hc ▸ List.mem_cons_self)
    refine ⟨c, cs, hc, fun hmem => hpunct ?_, ?_⟩
    · have hall : ∀ d ∈ valueStops, d ∈ punctuation := by simp [valueStops, punctuation]
      exact hall c hmem
    · have hall : ∀ d ∈ ['"', '[', '\x7b'], d ∈ punctuation := by simp [punctuation]
      rw [openingOf, if_neg fun hmem => hpunct (hall c hmem), opening_word hword hs]
  | str s =>
    have htext : ((Value.str s).text py).toList = (quote s).toList := rfl
    rw [htext, toList_quote]
    exact ⟨_, _, rfl, by decide, rfl⟩
  | list hvs =>
    rw [text_list hvs]
    exact ⟨_, _, rfl, by decide, rfl⟩
  | dict nodup keys values =>
    obtain ⟨sorted, -, htext⟩ := text_dict py (.dict nodup keys values)
    rw [htext]
    exact ⟨_, _, rfl, by decide, rfl⟩

/-- Texts with a common start are of the same kind. -/
theorem opening_eq {v w : Value} (hv : JsonOver word v) (hw : JsonOver word w) {t u : List Char}
    (h : (v.text py).toList ++ t = (w.text py).toList ++ u) : opening v = opening w := by
  obtain ⟨c, cs, hc, -, hopen⟩ := text_head hword hv
  obtain ⟨d, ds, hd, -, hopen'⟩ := text_head hword hw
  rw [hc, hd, List.cons_append, List.cons_append, List.cons.injEq] at h
  rw [hopen, hopen', h.1]

theorem decodes_word {s : Scalar} (hs : word s = true) : Decodes py word (.scalar s) := by
  intro w t u hw ht hu h
  have hopen := opening_eq hword (.word hs) hw h
  rw [opening_word hword hs] at hopen
  have hstops : ∀ {s : Scalar}, word s = true →
      ∀ c ∈ ((Value.scalar s).text py).toList, c ∉ valueStops := by
    intro s hs c hc hstop
    have hall : ∀ d ∈ valueStops, d ∈ punctuation := by simp [valueStops, punctuation]
    exact hword.plain hs c hc (hall c hstop)
  cases hw with
  | word hs' =>
    obtain ⟨htext, htu⟩ := append_inj_of_endsAt (hstops hs) (hstops hs') ht hu h
    exact ⟨decide_eq_true (hword.injective hs hs' htext), htu⟩
  | str s' => cases hopen
  | list hws => cases hopen
  | dict nodup keys values => cases hopen

theorem decodes_str (s : String) : Decodes py word (.str s) := by
  intro w t u hw ht hu h
  have hopen := opening_eq hword (.str s) hw h
  cases hw with
  | word hs' =>
    rw [opening_word hword hs'] at hopen
    cases hopen
  | str s' =>
    obtain ⟨rfl, htu⟩ := quote_append_inj h
    exact ⟨decide_eq_true rfl, htu⟩
  | list hws => cases hopen
  | dict nodup keys values => cases hopen

theorem decodes_list {vs : List Value} (hvs : ∀ v ∈ vs, JsonOver word v) (ih : ∀ v ∈ vs, Decodes py word v) :
    Decodes py word (.list vs) := by
  intro w t u hw ht hu h
  have hopen := opening_eq hword (.list hvs) hw h
  cases hw with
  | word hs' =>
    rw [opening_word hword hs'] at hopen
    cases hopen
  | str s' => cases hopen
  | @list ws hws =>
    simp only [text_list hvs, text_list hws, List.cons_append, List.append_assoc, List.nil_append,
      List.cons.injEq, true_and] at h
    have hheads : ∀ v, JsonOver word v → ∃ c cs, (v.text py).toList = c :: cs ∧ c ∉ valueStops := by
      intro v hv
      obtain ⟨c, cs, hc, hstop, -⟩ := text_head hword hv
      exact ⟨c, cs, hc, hstop⟩
    obtain ⟨hsame, htu⟩ := joined_append_inj (show ',' ∈ valueStops by decide)
      (show ']' ∈ valueStops by decide) (by decide) hheads (fun v hv => ⟨hvs v hv, ih v hv⟩) hws h
    exact ⟨Value.sameList_iff.mpr hsame, htu⟩
  | dict nodup keys values => cases hopen

omit hword in
/-- An item with a string key and a value that is decodable is decodable. -/
theorem determines_entry {e : Scalar × Value} (hkey : ∃ s, e.1 = .str s) (hvalue : Decodes py word e.2) :
    Determines valueStops (entryText py) (fun e => (∃ s, e.1 = .str s) ∧ JsonOver word e.2)
      (fun e f => e.1 = f.1 ∧ e.2.same f.2 = true) e := by
  rintro ⟨_, w⟩ t u ⟨⟨s', rfl⟩, hw⟩ ht hu h
  obtain ⟨_, v⟩ := e
  obtain ⟨s, rfl⟩ := hkey
  rw [entryText, entryText, List.append_assoc, List.append_assoc] at h
  obtain ⟨rfl, hrest⟩ := quote_append_inj h
  obtain ⟨hsame, htu⟩ := hvalue w t u hw ht hu (List.cons.inj hrest).2
  exact ⟨⟨rfl, hsame⟩, htu⟩

theorem decodes_dict {es : PyDict} (hes : JsonOver word (.dict es)) (ih : ∀ e ∈ es, Decodes py word e.2) :
    Decodes py word (.dict es) := by
  intro w t u hw ht hu h
  have hopen := opening_eq hword hes hw h
  cases w with
  | scalar s' =>
    cases hw with
    | word hs' =>
      rw [opening_word hword hs'] at hopen
      cases hopen
    | str s' => cases hopen
  | list ws => cases hopen
  | dict fs =>
    obtain ⟨sortedE, hpermE, htextE⟩ := text_dict py hes
    obtain ⟨sortedF, hpermF, htextF⟩ := text_dict py hw
    cases hes with
    | dict hnodup hkeys hvalues =>
    cases hw with
    | dict hnodup' hkeys' hvalues' =>
    simp only [htextE, htextF, List.cons_append, List.append_assoc, List.nil_append,
      List.cons.injEq, true_and] at h
    have hheads : ∀ e : Scalar × Value, (∃ s, e.1 = .str s) ∧ JsonOver word e.2 →
        ∃ c cs, entryText py e = c :: cs ∧ c ∉ valueStops := by
      rintro ⟨_, v⟩ ⟨⟨s, rfl⟩, -⟩
      have hquote : (Scalar.dumpsKey py (.str s)).toList = (quote s).toList := rfl
      rw [entryText, hquote, toList_quote, List.cons_append]
      exact ⟨_, _, rfl, by decide⟩
    obtain ⟨hsame, htu⟩ := joined_append_inj (show ',' ∈ valueStops by decide)
      (show '\x7d' ∈ valueStops by decide) (by decide) hheads
      (fun e he => have hmem := hpermE.mem_iff.mp he
        ⟨⟨hkeys e hmem, hvalues e hmem⟩, determines_entry (hkeys e hmem) (ih e hmem)⟩)
      (fun f hf => have hmem := hpermF.mem_iff.mp hf
        ⟨hkeys' f hmem, hvalues' f hmem⟩) h
    refine ⟨Value.same_dict_iff.mpr ⟨?_, fun e he => ?_⟩, htu⟩
    · rw [← hpermE.length_eq, ← hpermF.length_eq, hsame.length_eq]
    · obtain ⟨f, hf, hkey, hvalue⟩ := exists_of_mem_left hsame (hpermE.mem_iff.mpr he)
      obtain ⟨s, hs⟩ := hkeys' f (hpermF.mem_iff.mp hf)
      have hget : PyDict.get? fs (.str s) = some f.2 :=
        (PyDict.get?_str_eq_some_iff hnodup').mpr (hs ▸ hpermF.mem_iff.mp hf)
      exact ⟨f.2, by rw [hkey, hs, hget], hvalue⟩

theorem decodes {v : Value} (h : JsonOver word v) : Decodes py word v := by
  induction h with
  | word hs => exact decodes_word hword hs
  | str s => exact decodes_str hword s
  | list hvs ih => exact decodes_list hword hvs ih
  | dict nodup keys values ih => exact decodes_dict hword (.dict nodup keys values) ih

/-- Two JSON values have the same canonical text exactly when they are structurally equal
up to the order of object keys. -/
theorem text_eq_iff_same {v w : Value} (hv : JsonOver word v) (hw : JsonOver word w) :
    v.text py = w.text py ↔ v.same w = true := by
  refine ⟨fun h => ?_, text_eq_of_same hv hw⟩
  have happend : (v.text py).toList ++ [] = (w.text py).toList ++ [] := by rw [h]
  exact (decodes hword hv w [] [] hw (endsAt_nil _) (endsAt_nil _) happend).1

end ECN
