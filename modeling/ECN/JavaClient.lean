import ECN.JsonFields
import ECN.JsonLocality

/-!
# The bodies of the Java client

The Java client builds its request bodies without a JSON library. It escapes backslashes and
quotation marks and nothing else, so a body is JSON exactly when none of its texts holds a
control character, and then the server reads the dictionary that was meant.
-/
namespace ECN.JavaClient

/-! ## The writer -/

/-- `s.replace(target, replacement)` for a target of one character. -/
def replaceChar (target : Char) (replacement cs : List Char) : List Char :=
  cs.flatMap fun c => if c = target then replacement else [c]

def escape (s : String) : List Char :=
  replaceChar '"' ['\\', '"'] (replaceChar '\\' ['\\', '\\'] s.toList)

/-- The objects that the client passes to `json`; whatever is no other kind goes in as text. -/
inductive JavaValue where
  | null
  | bool (b : Bool)
  | number (n : ℤ)
  | list (items : List (Option String))
  | text (s : String)

def quoted (s : String) : List Char := '"' :: (escape s ++ ['"'])

def itemChars : Option String → List Char
  | none => "null".toList
  | some s => quoted s

def listToJson (items : List (Option String)) : List Char :=
  '[' :: (List.intercalate [','] (items.map itemChars) ++ [']'])

def JavaValue.chars : JavaValue → List Char
  | null => "null".toList
  | bool b => (if b then "true" else "false").toList
  | number n => (toString n).toList
  | list items => listToJson items
  | text s => quoted s

/-- A key, which is not escaped, and its value. -/
def fieldChars (f : String × JavaValue) : List Char :=
  '"' :: (f.1.toList ++ '"' :: ':' :: f.2.chars)

def json (fields : List (String × JavaValue)) : String :=
  String.ofList ('\x7b' :: (List.intercalate [','] (fields.map fieldChars) ++ ['\x7d']))

/-! ## What the server should read -/

/-- No character below the space. -/
def Clean (s : String) : Prop := ∀ c ∈ s.toList, 32 ≤ c.toNat

instance (s : String) : Decidable (Clean s) :=
  List.decidableBAll (fun c : Char => 32 ≤ c.toNat) s.toList

/-- A text that needs no escape. -/
structure PlainKey (s : String) : Prop where
  clean : Clean s
  quote : '"' ∉ s.toList
  backslash : '\\' ∉ s.toList

instance (s : String) : Decidable (PlainKey s) :=
  decidable_of_iff (Clean s ∧ '"' ∉ s.toList ∧ '\\' ∉ s.toList)
    ⟨fun h => ⟨h.1, h.2.1, h.2.2⟩, fun h => ⟨h.clean, h.quote, h.backslash⟩⟩

/-- What is read of a text, if anything. -/
def readText (s : String) : Option Value := if Clean s then some (.str s) else none

def readItem : Option String → Option Value
  | none => some .none
  | some s => readText s

def JavaValue.read : JavaValue → Option Value
  | null => some .none
  | bool b => some (.bool b)
  | number n => some (.int n)
  | list items => (items.mapM readItem).map .list
  | text s => readText s

def readField (f : String × JavaValue) : Option (Scalar × Value) :=
  f.2.read.map fun v => (.str f.1, v)

/-! ## Texts -/

/-- What `escape` makes of one character. -/
def escapeOne (c : Char) : List Char :=
  if c = '\\' then ['\\', '\\'] else if c = '"' then ['\\', '"'] else [c]

theorem escape_eq (s : String) : escape s = s.toList.flatMap escapeOne := by
  rw [escape, replaceChar, replaceChar, List.flatMap_assoc]
  refine List.flatMap_congr fun c _ => ?_
  by_cases hback : c = '\\'
  · subst hback
    rfl
  · rw [if_neg hback, List.flatMap_singleton, escapeOne, if_neg hback]

theorem escapeOne_plain {c : Char} (hback : c ≠ '\\') (hquote : c ≠ '"') : escapeOne c = [c] := by
  rw [escapeOne, if_neg hback, if_neg hquote]

theorem loadChar_escapeOne (c : Char) (t : List Char) :
    loadChar (escapeOne c ++ t) = if 32 ≤ c.toNat then some (c, t) else none := by
  by_cases hback : c = '\\'
  · subst hback
    rfl
  · by_cases hquote : c = '"'
    · subst hquote
      rfl
    · rw [escapeOne_plain hback hquote, List.singleton_append, loadChar_plain hback]
      split_ifs with hlow hclean hclean
      · omega
      · rfl
      · rfl
      · omega

theorem escapeOne_ne_quote (c : Char) (t u : List Char) : escapeOne c ++ t ≠ '"' :: u := by
  by_cases hback : c = '\\'
  · subst hback
    simp [escapeOne]
  · by_cases hquote : c = '"'
    · subst hquote
      simp [escapeOne]
    · rw [escapeOne_plain hback hquote]
      simp [hquote]

/-- An escaped text is read back up to the first control character, which ends the reading. -/
theorem loadString_escaped_text (cs t : List Char) {fuel : ℕ} (hfuel : cs.length < fuel) :
    loadString fuel (cs.flatMap escapeOne ++ '"' :: t) =
      if cs.all (fun c => 32 ≤ c.toNat) then some (cs, t) else none := by
  induction cs generalizing fuel with
  | nil =>
    obtain ⟨fuel, rfl⟩ : ∃ k, fuel = k + 1 := ⟨fuel - 1, by simp at hfuel; omega⟩
    rfl
  | cons c cs ih =>
    obtain ⟨fuel, rfl⟩ : ∃ k, fuel = k + 1 := ⟨fuel - 1, by omega⟩
    rw [List.length_cons] at hfuel
    rw [List.flatMap_cons, List.append_assoc, loadString_of_ne (escapeOne_ne_quote c _),
      loadChar_escapeOne]
    by_cases hclean : 32 ≤ c.toNat
    · rw [if_pos hclean, Option.bind_some, ih (by omega), List.all_cons, decide_eq_true hclean,
        Bool.true_and]
      cases cs.all fun d => 32 ≤ d.toNat with
      | true => rfl
      | false => rfl
    · rw [if_neg hclean, List.all_cons, decide_eq_false hclean, Bool.false_and]
      rfl

theorem loadString_escape (s : String) (t : List Char) {fuel : ℕ}
    (hfuel : s.toList.length < fuel) : loadString fuel (s.toList.flatMap escapeOne ++ '"' :: t) =
      if Clean s then some (s.toList, t) else none := by
  have hiff : (s.toList.all fun c => 32 ≤ c.toNat) = true ↔ Clean s := by
    rw [List.all_eq_true]
    simp only [decide_eq_true_eq]
    rfl
  rw [loadString_escaped_text s.toList t hfuel, if_congr hiff rfl rfl]

theorem length_le_escape (cs : List Char) : cs.length ≤ (cs.flatMap escapeOne).length := by
  induction cs with
  | nil => exact le_rfl
  | cons c cs ih =>
    have hone : 1 ≤ (escapeOne c).length := by
      unfold escapeOne
      split_ifs <;> simp
    rw [List.flatMap_cons, List.length_append, List.length_cons]
    omega

/-- A key stands for itself. -/
theorem escape_key {s : String} (h : PlainKey s) : s.toList.flatMap escapeOne = s.toList := by
  have hall : ∀ c ∈ s.toList, escapeOne c = [c] := fun c hc =>
    escapeOne_plain (fun heq => h.backslash (heq ▸ hc)) fun heq => h.quote (heq ▸ hc)
  rw [List.flatMap_congr hall]
  simp

theorem loadString_key {s : String} (h : PlainKey s) (t : List Char) :
    loadString ((s.toList ++ '"' :: t).length + 1) (s.toList ++ '"' :: t) =
      some (s.toList, t) := by
  have hload := loadString_escape s t
    (show s.toList.length < (s.toList ++ '"' :: t).length + 1 by
      rw [List.length_append]
      omega)
  rw [escape_key h, if_pos h.clean] at hload
  exact hload

/-! ## Values -/

/-- In front of a closing symbol the text is read as the value, or not at all. -/
def Reads (cs : List Char) (r : Option Value) : Prop :=
  ∀ fuel t, cs.length < fuel → EndsAt closers t → loadValue fuel (cs ++ t) = r.map fun v => (v, t)

theorem reads_quoted (s : String) : Reads (quoted s) (readText s) := by
  intro fuel t hfuel _
  obtain ⟨fuel, rfl⟩ : ∃ k, fuel = k + 1 := ⟨fuel - 1, by omega⟩
  have hlen := length_le_escape s.toList
  have htext : quoted s ++ t = '"' :: (s.toList.flatMap escapeOne ++ '"' :: t) := by
    rw [quoted, escape_eq]
    simp
  rw [htext, loadValue, loadString_escape s t (by rw [List.length_append]; omega), readText]
  by_cases hclean : Clean s
  · rw [if_pos hclean, if_pos hclean, Option.map_some, String.ofList_toList]
    rfl
  · rw [if_neg hclean, if_neg hclean]
    rfl

theorem reads_word {cs : List Char} {s : Scalar}
    (hvalue : ∀ fuel t, EndsAt closers t → loadValue (fuel + 1) (cs ++ t) = some (.scalar s, t)) :
    Reads cs (some (.scalar s)) := by
  intro fuel t hfuel ht
  obtain ⟨fuel, rfl⟩ : ∃ k, fuel = k + 1 := ⟨fuel - 1, by omega⟩
  exact hvalue fuel t ht

theorem reads_null : Reads "null".toList (some .none) :=
  reads_word fun _ _ _ => rfl

theorem reads_bool (b : Bool) : Reads (if b then "true" else "false").toList (some (.bool b)) := by
  cases b with
  | true => exact reads_word fun _ _ _ => rfl
  | false => exact reads_word fun _ _ _ => rfl

theorem reads_number (n : ℤ) : Reads (toString n).toList (some (.int n)) :=
  reads_word fun fuel _ ht => loadValue_of_scanNumber (scanNumber_int n) ht fuel

theorem opensAt_quoted (s : String) : OpensAt (quoted s) :=
  ⟨'"', _, rfl, by decide, by decide⟩

theorem skipSpace_opensAt {cs : List Char} (h : OpensAt cs) (t : List Char) :
    skipSpace (cs ++ t) = cs ++ t := by
  obtain ⟨c, rest, rfl, hspace, -⟩ := h
  exact skipSpace_cons hspace _

theorem opensAt_append {cs : List Char} (h : OpensAt cs) (t : List Char) : OpensAt (cs ++ t) := by
  obtain ⟨c, rest, rfl, hc⟩ := h
  exact ⟨c, rest ++ t, rfl, hc⟩

/-! ## Lists -/

theorem mapM_cons_some {α β : Type} {f : α → Option β} {x : α} {xs : List α} {v : β}
    (h : f x = some v) : (x :: xs).mapM f = (xs.mapM f).map (v :: ·) := by
  rw [List.mapM_cons, h]
  cases xs.mapM f with
  | none => rfl
  | some vs => rfl

section

variable {α : Type} {chars : α → List Char} {read : α → Option Value}

/-- The elements are read in turn, up to the first that cannot be read. -/
theorem loadElements_items {x : α} {xs : List α} (hreads : ∀ y, Reads (chars y) (read y))
    (hopens : ∀ y, OpensAt (chars y)) {fuel : ℕ} (t : List Char)
    (hfuel : (List.intercalate [','] ((x :: xs).map chars)).length + 1 < fuel) :
    loadElements fuel (List.intercalate [','] ((x :: xs).map chars) ++ ']' :: t) =
      ((x :: xs).mapM read).map fun vs => (vs, t) := by
  induction xs generalizing x fuel with
  | nil =>
    obtain ⟨fuel, rfl⟩ : ∃ k, fuel = k + 1 := ⟨fuel - 1, by omega⟩
    have htext : List.intercalate [','] ([x].map chars) = chars x := by simp
    rw [htext] at hfuel ⊢
    rw [loadElements, hreads x fuel _ (by omega) (endsAt_bracket t)]
    cases hread : read x with
    | none => simp [hread]
    | some v => simp [hread, skipSpace, isJsonSpace]
  | cons y ys ih =>
    obtain ⟨fuel, rfl⟩ : ∃ k, fuel = k + 1 := ⟨fuel - 1, by omega⟩
    have htext : List.intercalate [','] ((x :: y :: ys).map chars) =
        chars x ++ ',' :: List.intercalate [','] ((y :: ys).map chars) := by
      rw [List.map_cons, List.map_cons, intercalate_cons_cons]
      rfl
    rw [htext] at hfuel ⊢
    simp only [List.length_append, List.length_cons] at hfuel
    have hrest := @ih y fuel (by omega)
    have hopen : OpensAt (List.intercalate [','] ((y :: ys).map chars)) :=
      opensAt_intercalate [','] (hopens y) (ys.map chars)
    rw [List.append_assoc, List.cons_append, loadElements,
      hreads x fuel _ (by omega) (endsAt_comma _)]
    cases hread : read x with
    | none => simp [hread]
    | some v =>
      show (loadElements fuel (skipSpace (List.intercalate [','] ((y :: ys).map chars) ++
        ']' :: t))).map (fun vs => (v :: vs.1, vs.2)) = _
      rw [skipSpace_opensAt hopen, hrest, mapM_cons_some hread, Option.map_map, Option.map_map]
      rfl

end

theorem reads_item (item : Option String) : Reads (itemChars item) (readItem item) := by
  cases item with
  | none => exact reads_null
  | some s => exact reads_quoted s

theorem opensAt_item (item : Option String) : OpensAt (itemChars item) := by
  cases item with
  | none => exact ⟨'n', _, rfl, by decide, by decide⟩
  | some s => exact opensAt_quoted s

theorem reads_list (items : List (Option String)) :
    Reads (listToJson items) ((items.mapM readItem).map .list) := by
  intro fuel t hfuel _
  obtain ⟨fuel, rfl⟩ : ∃ k, fuel = k + 1 := ⟨fuel - 1, by omega⟩
  rw [listToJson, List.cons_append, List.append_assoc, List.singleton_append]
  rw [listToJson, List.length_cons, List.length_append, List.length_singleton] at hfuel
  cases items with
  | nil => rfl
  | cons item items =>
    have hopen := opensAt_intercalate [','] (opensAt_item item) (items.map itemChars)
    rw [← List.map_cons] at hopen
    rw [loadValue_list (opensAt_append hopen _), loadElements_items reads_item opensAt_item t (by omega)]
    cases ((item :: items).mapM readItem) with
    | none => rfl
    | some vs => rfl

theorem reads_value (v : JavaValue) : Reads v.chars v.read := by
  cases v with
  | null => exact reads_null
  | bool b => exact reads_bool b
  | number n => exact reads_number n
  | list items => exact reads_list items
  | text s => exact reads_quoted s

theorem opensAt_value (v : JavaValue) : OpensAt v.chars := by
  cases v with
  | null => exact ⟨'n', _, rfl, by decide, by decide⟩
  | bool b =>
    cases b with
    | true => exact ⟨'t', _, rfl, by decide, by decide⟩
    | false => exact ⟨'f', _, rfl, by decide, by decide⟩
  | number n => exact opensAt_of_scanNumber (scanNumber_int n)
  | list items => exact ⟨'[', _, rfl, by decide, by decide⟩
  | text s => exact opensAt_quoted s

/-! ## Bodies -/

/-- The key and the value of a field are read in turn. -/
theorem loadMembers_field {f : String × JavaValue} (hkey : PlainKey f.1) {fuel : ℕ}
    {t : List Char} (ht : EndsAt closers t) (hfuel : (fieldChars f).length < fuel) :
    loadMembers (fuel + 1) (fieldChars f ++ t) = f.2.read.bind fun v =>
      match skipSpace t with
      | ',' :: cs => (loadMembers fuel (skipSpace cs)).map fun es => ((.str f.1, v) :: es.1, es.2)
      | '\x7d' :: cs => some ([(.str f.1, v)], cs)
      | _ => none := by
  have htext : fieldChars f ++ t = '"' :: (f.1.toList ++ '"' :: (':' :: (f.2.chars ++ t))) := by
    simp [fieldChars]
  have hvalue : loadValue fuel (skipSpace (f.2.chars ++ t)) = f.2.read.map fun v => (v, t) := by
    rw [skipSpace_opensAt (opensAt_value f.2)]
    apply reads_value f.2 fuel t _ ht
    simp only [fieldChars, List.length_cons, List.length_append] at hfuel
    omega
  rw [htext, loadMembers, loadString_key hkey, Option.bind_some]
  show (loadValue fuel (skipSpace (f.2.chars ++ t))).bind _ = _
  rw [hvalue, String.ofList_toList]
  cases f.2.read with
  | none => rfl
  | some v => rfl

theorem opensAt_field (f : String × JavaValue) : OpensAt (fieldChars f) :=
  ⟨'"', _, rfl, by decide, by decide⟩

/-- The fields are read in turn, up to the first that cannot be read. -/
theorem loadMembers_fields {f : String × JavaValue} {fields : List (String × JavaValue)}
    (hkeys : ∀ g ∈ f :: fields, PlainKey g.1) {fuel : ℕ} (t : List Char)
    (hfuel : (List.intercalate [','] ((f :: fields).map fieldChars)).length + 1 < fuel) :
    loadMembers fuel (List.intercalate [','] ((f :: fields).map fieldChars) ++ '\x7d' :: t) =
      ((f :: fields).mapM readField).map fun es => (es, t) := by
  have hkey : PlainKey f.1 := hkeys f List.mem_cons_self
  induction fields generalizing f fuel with
  | nil =>
    obtain ⟨fuel, rfl⟩ : ∃ k, fuel = k + 1 := ⟨fuel - 1, by omega⟩
    have htext : List.intercalate [','] ([f].map fieldChars) = fieldChars f := by simp
    rw [htext] at hfuel ⊢
    rw [loadMembers_field hkey (endsAt_brace t) (by omega)]
    cases hread : f.2.read with
    | none => simp [readField, hread]
    | some v => simp [readField, hread, skipSpace, isJsonSpace]
  | cons g fields ih =>
    obtain ⟨fuel, rfl⟩ : ∃ k, fuel = k + 1 := ⟨fuel - 1, by omega⟩
    have htext : List.intercalate [','] ((f :: g :: fields).map fieldChars) =
        fieldChars f ++ ',' :: List.intercalate [','] ((g :: fields).map fieldChars) := by
      rw [List.map_cons, List.map_cons, intercalate_cons_cons]
      rfl
    rw [htext] at hfuel ⊢
    simp only [List.length_append, List.length_cons] at hfuel
    have hkeys' : ∀ k ∈ g :: fields, PlainKey k.1 := fun k hk =>
      hkeys k (List.mem_cons_of_mem f hk)
    have hrest := ih hkeys' (show _ < fuel by omega) (hkeys' g List.mem_cons_self)
    have hopen : OpensAt (List.intercalate [','] ((g :: fields).map fieldChars)) :=
      opensAt_intercalate [','] (opensAt_field g) (fields.map fieldChars)
    rw [List.append_assoc, List.cons_append, loadMembers_field hkey (endsAt_comma _) (by omega)]
    cases hread : f.2.read with
    | none => simp [readField, hread]
    | some v =>
      have hfield : readField f = some (.str f.1, v) := by rw [readField, hread, Option.map_some]
      show (loadMembers fuel (skipSpace (List.intercalate [','] ((g :: fields).map fieldChars) ++
        '\x7d' :: t))).map (fun es => ((.str f.1, v) :: es.1, es.2)) = _
      rw [skipSpace_opensAt hopen, hrest, mapM_cons_some hfield, Option.map_map, Option.map_map]
      rfl

/-- A body is read as the dictionary of its fields, or not at all. -/
theorem jsonLoads_json {fields : List (String × JavaValue)} (hkeys : ∀ f ∈ fields, PlainKey f.1) :
    jsonLoads (json fields) =
      (fields.mapM readField).map fun es => .dict (PyDict.ofPairs es) := by
  rw [jsonLoads, json, String.toList_ofList, skipSpace_cons (by decide)]
  cases fields with
  | nil => rfl
  | cons f fields =>
    have hopen := opensAt_intercalate [','] (opensAt_field f) (fields.map fieldChars)
    rw [← List.map_cons] at hopen
    rw [loadValue_dict (opensAt_append hopen _), loadMembers_fields hkeys []
      (by simp only [List.length_cons, List.length_append]; omega)]
    cases ((f :: fields).mapM readField) with
    | none => rfl
    | some es => rfl

/-! ## The calls of the client -/

namespace JavaValue

/-- An argument of the reference type `String`. -/
def ofText : Option String → JavaValue
  | none => null
  | some s => text s

/-- The texts inside a value. -/
def texts : JavaValue → List String
  | null | bool _ | number _ => []
  | list items => items.flatMap Option.toList
  | text s => [s]

/-- The value that is meant. -/
def value : JavaValue → Value
  | null => .none
  | bool b => .bool b
  | number n => .int n
  | list items => .list (items.map optionalText)
  | text s => .str s

end JavaValue

@[simp] theorem JavaValue.value_bool (b : Bool) : (bool b).value = .bool b := rfl

@[simp] theorem JavaValue.value_text (s : String) : (text s).value = .str s := rfl

@[simp] theorem JavaValue.value_list (items : List (Option String)) :
    (list items).value = .list (items.map optionalText) := rfl

@[simp] theorem JavaValue.value_ofText (s : Option String) : (ofText s).value = optionalText s := by
  cases s with
  | none => rfl
  | some s => rfl

/-- The calls that post a body built by `json`; `submit` stands for `submit` and `tenantSubmit`
with no fields or blank ones. The tenant is in the path. -/
inductive ClientCall where
  | submit (type : Option String)
  | tenantShip (productId destination shipper : Option String)
  | ship (productId destination shipper : Option String)
  | receive (productId receiver : Option String) (atCustoms : Bool)
  | inspect (productId checkName inspector : Option String)
  | quarantine (productId reason : Option String)
  | release (productId releasedBy : Option String)
  | subscribeWebhook (url : Option String) (events : Option (List (Option String)))
  | issueApiKey (role description tenantId : Option String)
  | createTenant (name : Option String) (nodeCount : ℤ) (products : Option (List (Option String)))

namespace ClientCall

open JavaValue (ofText)

/-- The arguments of `json`, keys and values in turn. -/
def fields : ClientCall → List (String × JavaValue)
  | submit type => [("type", ofText type)]
  | tenantShip productId destination shipper | ship productId destination shipper =>
    [("type", .text "ship"), ("product_id", ofText productId),
      ("destination", ofText destination), ("shipper", ofText shipper)]
  | receive productId receiver atCustoms =>
    [("type", .text "receive"), ("product_id", ofText productId), ("receiver", ofText receiver),
      ("at_customs", .bool atCustoms)]
  | inspect productId checkName inspector =>
    [("type", .text "inspect"), ("product_id", ofText productId),
      ("check_name", ofText checkName), ("inspector", ofText inspector)]
  | quarantine productId reason =>
    [("type", .text "quarantine"), ("product_id", ofText productId), ("reason", ofText reason)]
  | release productId releasedBy =>
    [("type", .text "release"), ("product_id", ofText productId),
      ("released_by", ofText releasedBy)]
  | subscribeWebhook url events => [("url", ofText url), ("events", .list (events.getD []))]
  | issueApiKey role description tenantId =>
    [("role", ofText role), ("description", .text (description.getD "")),
      ("tenant_id", ofText tenantId)]
  | createTenant name nodeCount products =>
    [("name", ofText name), ("node_count", .number nodeCount),
      ("products", .list (products.getD []))]

def body (call : ClientCall) : String := json call.fields

/-- The dictionary that the body stands for. -/
def document (call : ClientCall) : PyDict :=
  call.fields.map fun f => (.str f.1, f.2.value)

/-- The texts that a call sends. -/
def texts (call : ClientCall) : List String := call.fields.flatMap fun f => f.2.texts

/-- The dictionary that the Python client serialises for the same call, where it has one. -/
def sdkBody : ClientCall → Option PyDict
  | submit type => some [(.str "type", optionalText type)]
  | tenantShip _ _ _ => none
  | ship productId destination shipper =>
    some [(.str "type", .str "ship"), (.str "product_id", optionalText productId),
      (.str "destination", optionalText destination), (.str "shipper", optionalText shipper)]
  | receive productId receiver atCustoms =>
    some [(.str "type", .str "receive"), (.str "product_id", optionalText productId),
      (.str "receiver", optionalText receiver), (.str "at_customs", .bool atCustoms)]
  | inspect productId checkName inspector =>
    some [(.str "type", .str "inspect"), (.str "product_id", optionalText productId),
      (.str "check_name", optionalText checkName), (.str "inspector", optionalText inspector)]
  | quarantine productId reason =>
    some [(.str "type", .str "quarantine"), (.str "product_id", optionalText productId),
      (.str "reason", optionalText reason)]
  | release productId releasedBy =>
    some [(.str "type", .str "release"), (.str "product_id", optionalText productId),
      (.str "released_by", optionalText releasedBy)]
  | subscribeWebhook url events =>
    some [(.str "url", optionalText url),
      (.str "events", .list ((events.getD []).map optionalText))]
  | issueApiKey _ _ _ => none
  | createTenant _ _ _ => none

end ClientCall

theorem mapM_ite {α β : Type} {p : α → Prop} [DecidablePred p] {f : α → Option β} {g : α → β}
    (h : ∀ x, f x = if p x then some (g x) else none) (xs : List α) :
    xs.mapM f = if ∀ x ∈ xs, p x then some (xs.map g) else none := by
  induction xs with
  | nil => rfl
  | cons x xs ih =>
    rw [List.mapM_cons, h, ih]
    by_cases hx : p x
    · by_cases hxs : ∀ y ∈ xs, p y
      · rw [if_pos hx, if_pos hxs, if_pos (List.forall_mem_cons.mpr ⟨hx, hxs⟩)]
        rfl
      · rw [if_pos hx, if_neg hxs, if_neg fun hall => hxs (List.forall_mem_cons.mp hall).2]
        rfl
    · rw [if_neg hx, if_neg fun hall => hx (List.forall_mem_cons.mp hall).1]
      rfl

theorem readItem_eq (item : Option String) : readItem item =
    if ∀ s ∈ item.toList, Clean s then some (optionalText item) else none := by
  cases item with
  | none => rfl
  | some s =>
    rw [readItem, readText, Option.toList_some]
    by_cases hclean : Clean s
    · rw [if_pos hclean, if_pos (by simpa using hclean)]
      rfl
    · rw [if_neg hclean, if_neg (by simpa using hclean)]

theorem read_eq (v : JavaValue) :
    v.read = if ∀ s ∈ v.texts, Clean s then some v.value else none := by
  cases v with
  | null => rfl
  | bool b => rfl
  | number n => rfl
  | list items =>
    rw [JavaValue.read, mapM_ite readItem_eq, JavaValue.texts, JavaValue.value]
    by_cases hclean : ∀ item ∈ items, ∀ s ∈ item.toList, Clean s
    · have hall : ∀ s ∈ items.flatMap Option.toList, Clean s := by
        intro s hs
        obtain ⟨item, hitem, hmem⟩ := List.mem_flatMap.mp hs
        exact hclean item hitem s hmem
      rw [if_pos hclean, if_pos hall]
      rfl
    · have hnot : ¬ ∀ s ∈ items.flatMap Option.toList, Clean s := fun hall =>
        hclean fun item hitem s hs => hall s (List.mem_flatMap.mpr ⟨item, hitem, hs⟩)
      rw [if_neg hclean, if_neg hnot]
      rfl
  | text s =>
    have hone := readItem_eq (some s)
    rw [Option.toList_some] at hone
    exact hone

theorem readField_eq (f : String × JavaValue) : readField f =
    if ∀ s ∈ f.2.texts, Clean s then some (.str f.1, f.2.value) else none := by
  rw [readField, read_eq]
  split_ifs
  · rfl
  · rfl

/-- The keys of a call are plain and distinct. -/
theorem keys_fields (call : ClientCall) :
    (∀ k ∈ call.fields.map Prod.fst, PlainKey k) ∧ (call.fields.map Prod.fst).Nodup := by
  cases call <;> exact ⟨by simp only [ClientCall.fields, List.map_cons, List.map_nil]; decide,
    by simp [ClientCall.fields]⟩

/-- The server reads the body of a call as the dictionary that the call stands for, the same
that the Python client sends, when no text of the call holds a control character, and
otherwise it reads no JSON at all. -/
theorem body_reads (call : ClientCall) :
    jsonLoads call.body =
        (if ∀ s ∈ call.texts, Clean s then some (.dict call.document) else none) ∧
      ∀ d ∈ call.sdkBody, d = call.document := by
  obtain ⟨hplain, hnodup⟩ := keys_fields call
  have hkeys : ∀ f ∈ call.fields, PlainKey f.1 := fun f hf => hplain f.1 (List.mem_map_of_mem hf)
  have hpairs : PyDict.ofPairs call.document = call.document := by
    apply ofPairs_eq
    · rw [ClientCall.document, List.map_map]
      have hfst : (Prod.fst ∘ fun f : String × JavaValue => (Scalar.str f.1, f.2.value)) =
          Scalar.str ∘ Prod.fst := rfl
      rw [hfst, ← List.map_map]
      exact hnodup.map fun _ _ => Scalar.str.inj
    · intro e he
      obtain ⟨f, -, rfl⟩ := List.mem_map.mp he
      exact ⟨f.1, rfl⟩
  constructor
  · rw [ClientCall.body, jsonLoads_json hkeys, mapM_ite readField_eq]
    by_cases hclean : ∀ f ∈ call.fields, ∀ s ∈ f.2.texts, Clean s
    · have hall : ∀ s ∈ call.texts, Clean s := by
        intro s hs
        obtain ⟨f, hf, hmem⟩ := List.mem_flatMap.mp hs
        exact hclean f hf s hmem
      rw [if_pos hclean, if_pos hall, Option.map_some, ← ClientCall.document, hpairs]
    · have hnot : ¬ ∀ s ∈ call.texts, Clean s := fun hall =>
        hclean fun f hf s hs => hall s (List.mem_flatMap.mpr ⟨f, hf, hs⟩)
      rw [if_neg hclean, if_neg hnot]
      rfl
  · intro d hd
    cases call <;> cases hd <;>
      simp [ClientCall.document, ClientCall.fields]

/-! ## Generic transactions -/

/-- `Character.isWhitespace`. -/
def isJavaSpace (c : Char) : Bool :=
  (9 ≤ c.toNat && c.toNat ≤ 13) || (28 ≤ c.toNat && c.toNat ≤ 32) || c.toNat = 0x1680 ||
    (0x2000 ≤ c.toNat && c.toNat ≤ 0x2006) || (0x2008 ≤ c.toNat && c.toNat ≤ 0x200a) ||
    c.toNat = 0x2028 || c.toNat = 0x2029 || c.toNat = 0x205f || c.toNat = 0x3000

/-- The body of `submit`: the type in front of the fields, whose first character is dropped. -/
def submitBody (type : String) (fieldsJson : Option String) : String :=
  match fieldsJson with
  | none => json [("type", .text type)]
  | some text =>
    if text.toList.all isJavaSpace then json [("type", .text type)]
    else String.ofList ("\x7b\"type\":\"".toList ++ escape type ++ "\",".toList ++ text.toList.drop 1)

/-- Setting some members looks up the last of them under a key, or what was there. -/
theorem get?_foldl_set (pairs : List (Scalar × Value))
    (hkeys : ∀ e ∈ pairs, ∃ s, e.1 = .str s) (d : PyDict) (k : String) :
    (pairs.foldl (fun d e => d.set e.1 e.2) d).get? (.str k) =
      ((PyDict.ofPairs pairs).get? (.str k)).or (d.get? (.str k)) := by
  induction pairs using List.reverseRecOn with
  | nil => rfl
  | append_singleton pairs e ih =>
    obtain ⟨s, hs⟩ := hkeys e (by simp)
    have hrest := ih fun f hf => hkeys f (by simp [hf])
    rw [PyDict.ofPairs, List.foldl_append, List.foldl_append]
    simp only [List.foldl_cons, List.foldl_nil, hs, PyDict.get?_set_str]
    split_ifs with hk
    · rfl
    · exact hrest

/-- What is read as members has string keys, and there is at least one. -/
theorem keys_of_loadMembers {fuel : ℕ} {cs t : List Char} {es : List (Scalar × Value)}
    (h : loadMembers fuel cs = some (es, t)) : (∀ e ∈ es, ∃ s, e.1 = .str s) ∧ es ≠ [] := by
  induction fuel generalizing cs es t with
  | zero => cases h
  | succ fuel ih =>
    unfold loadMembers at h
    split at h
    · obtain ⟨k, -, h⟩ := Option.bind_eq_some_iff.mp h
      split at h
      · obtain ⟨v, -, h⟩ := Option.bind_eq_some_iff.mp h
        split at h
        · obtain ⟨rest, hrest, h⟩ := Option.map_eq_some_iff.mp h
          cases h
          refine ⟨?_, by simp⟩
          intro e he
          rcases List.mem_cons.mp he with rfl | he
          · exact ⟨_, rfl⟩
          · exact (ih hrest).1 e he
        · cases h
          exact ⟨by simp, by simp⟩
        · cases h
      · cases h
    · cases h

theorem set_ne_nil (d : PyDict) (k : Scalar) (v : Value) : d.set k v ≠ [] := by
  cases d with
  | nil => simp [PyDict.set]
  | cons e d =>
    rw [PyDict.set]
    split_ifs
    · simp
    · simp

theorem ofPairs_ne_nil {pairs : List (Scalar × Value)} (h : pairs ≠ []) :
    PyDict.ofPairs pairs ≠ [] := by
  obtain ⟨init, e, rfl⟩ := (List.eq_nil_or_concat pairs).resolve_left h
  rw [PyDict.ofPairs, List.concat_eq_append, List.foldl_append]
  exact set_ne_nil _ _ _

/-- The text of a generic transaction whose fields start with a brace. -/
theorem toList_submitBody (type : String) (tail : List Char) :
    (submitBody type (some (String.ofList ('\x7b' :: tail)))).toList =
      '\x7b' :: (fieldChars ("type", .text type) ++ ',' :: tail) := by
  have hblank : (String.ofList ('\x7b' :: tail)).toList.all isJavaSpace = false := by
    rw [String.toList_ofList, List.all_cons, Bool.and_eq_false_iff]
    exact .inl (by decide)
  simp only [submitBody, hblank]
  simp [fieldChars, JavaValue.chars, quoted]

theorem jsonLoads_members {s : String} {cs : List Char} (hs : s.toList = '\x7b' :: cs)
    (hopen : OpensAt cs) : jsonLoads s = (loadMembers (cs.length + 1) cs).bind fun es =>
      if skipSpace es.2 = [] then some (.dict (PyDict.ofPairs es.1)) else none := by
  rw [jsonLoads, hs, skipSpace_cons (by decide), loadValue_dict hopen, List.length_cons]
  cases loadMembers (cs.length + 1) cs with
  | none => rfl
  | some es => rfl

/-- An object is read as empty, or from its members. -/
theorem loadMembers_of_object {tail : List Char} {es : PyDict}
    (h : jsonLoads (String.ofList ('\x7b' :: tail)) = some (.dict es)) :
    (es = [] ∧ (skipSpace tail).head? = some '\x7d') ∨
      ∃ pairs rest, loadMembers (tail.length + 1) (skipSpace tail) = some (pairs, rest) ∧
        skipSpace rest = [] ∧ es = PyDict.ofPairs pairs := by
  rw [jsonLoads, String.toList_ofList, skipSpace_cons (by decide), List.length_cons,
    loadValue_brace] at h
  by_cases hempty : (skipSpace tail).head? = some '\x7d'
  · rw [if_pos hempty] at h
    dsimp only at h
    split_ifs at h
    cases h
    exact .inl ⟨rfl, hempty⟩
  · rw [if_neg hempty] at h
    cases hload : loadMembers (tail.length + 1) (skipSpace tail) with
    | none =>
      rw [hload] at h
      cases h
    | some r =>
      rw [hload] at h
      simp only [Option.map_some] at h
      split_ifs at h with hrest
      cases h
      exact .inr ⟨r.1, r.2, rfl, hrest, rfl⟩

/-- A brace opens no member. -/
theorem loadMembers_of_close {cs : List Char} (h : cs.head? = some '\x7d') (fuel : ℕ) :
    loadMembers fuel cs = none := by
  obtain ⟨rest, rfl⟩ : ∃ rest, cs = '\x7d' :: rest := List.head?_eq_some_iff.mp h
  cases fuel with
  | zero => rfl
  | succ fuel => rfl

/-- The body is read as the type, then the members of the fields. -/
theorem jsonLoads_submitBody (type : String) (tail : List Char) :
    ∃ fuel, tail.length + 1 ≤ fuel ∧
      jsonLoads (submitBody type (some (String.ofList ('\x7b' :: tail)))) =
        ((readText type).bind fun v => (loadMembers fuel (skipSpace tail)).map fun es =>
          ((.str "type", v) :: es.1, es.2)).bind fun es =>
            if skipSpace es.2 = [] then some (.dict (PyDict.ofPairs es.1)) else none := by
  let field : String × JavaValue := ("type", .text type)
  have hread : field.2.read = readText type := rfl
  have hlen : (fieldChars field ++ ',' :: tail).length + 1 =
      ((fieldChars field).length + 1 + tail.length) + 1 := by
    rw [List.length_append, List.length_cons]
    omega
  have hless : (fieldChars field).length < (fieldChars field).length + 1 + tail.length := by omega
  have hkey : PlainKey field.1 := by
    show PlainKey "type"
    decide
  refine ⟨(fieldChars field).length + 1 + tail.length, by omega, ?_⟩
  rw [jsonLoads_members (toList_submitBody type tail) (opensAt_append (opensAt_field field) _),
    hlen, loadMembers_field hkey (endsAt_comma tail) hless, hread]
  rfl

/-- The fields of a JSON object, from its opening brace on, come behind the type: the body of
`submit` is read as the type and these fields, a type among them replacing the first, when the
type holds no control character and there are any fields, and as no JSON otherwise. -/
theorem submit_reads (type : String) {tail : List Char} {es : PyDict}
    (h : jsonLoads (String.ofList ('\x7b' :: tail)) = some (.dict es)) :
    let body := submitBody type (some (String.ofList ('\x7b' :: tail)))
    (Clean type ∧ es ≠ [] → ∃ d : PyDict, jsonLoads body = some (.dict d) ∧ ∀ k,
      d.get? (.str k) = (es.get? (.str k)).or (if k = "type" then some (.str type) else none)) ∧
    (¬ (Clean type ∧ es ≠ []) → jsonLoads body = none) := by
  intro body
  obtain ⟨fuel, hfuel, hbody⟩ := jsonLoads_submitBody type tail
  rcases loadMembers_of_object h with ⟨rfl, hempty⟩ | ⟨pairs, rest, hload, hrest, rfl⟩
  · have hfail : jsonLoads body = none := by
      rw [hbody, loadMembers_of_close hempty]
      cases readText type with
      | none => rfl
      | some v => rfl
    exact ⟨fun hgood => absurd rfl hgood.2, fun _ => hfail⟩
  · obtain ⟨hkeys, hpairs⟩ := keys_of_loadMembers hload
    have hmore := (readsAlike _).members hload hfuel []
    rw [List.append_nil, List.append_nil] at hmore
    rw [hmore] at hbody
    have hne := ofPairs_ne_nil hpairs
    by_cases hclean : Clean type
    · rw [readText, if_pos hclean] at hbody
      simp only [Option.bind_some, Option.map_some, if_pos hrest] at hbody
      refine ⟨fun _ => ⟨_, hbody, fun k => ?_⟩, fun hbad => absurd ⟨hclean, hne⟩ hbad⟩
      rw [PyDict.ofPairs, List.foldl_cons, get?_foldl_set pairs hkeys, PyDict.get?_set_str]
      rfl
    · rw [readText, if_neg hclean] at hbody
      exact ⟨fun hgood => absurd hgood.1 hclean, fun _ => hbody⟩

/-- The fields of a shipment whose own type is another. -/
def retypedFields : List Char := "\"product_id\": \"P\", \"type\": \"release\"\x7d".toList

theorem submit_reads_retyped :
    ∃ d : PyDict, jsonLoads (submitBody "ship" (some (String.ofList ('\x7b' :: retypedFields)))) =
        some (.dict d) ∧ d.get? (.str "type") = some (.str "release") := by
  have hfields : jsonLoads (String.ofList ('\x7b' :: retypedFields)) =
      some (.dict [(.str "product_id", .str "P"), (.str "type", .str "release")]) := by
    decide +kernel
  obtain ⟨d, hread, hget⟩ := (submit_reads "ship" hfields).1 ⟨by decide, by simp⟩
  exact ⟨d, hread, by rw [hget]; rfl⟩

end ECN.JavaClient
