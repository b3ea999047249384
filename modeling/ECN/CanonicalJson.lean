import ECN.PyValue

/-!
# Canonical JSON text

The compact printer with sorted keys and ASCII escapes. Keys are sorted before
they are turned into text, so a dictionary whose keys do not compare cannot be
printed.
-/
namespace ECN

/-- Four lowercase hexadecimal digits. -/
def hex4 (n : ℕ) : String :=
  let digit (k : ℕ) : Char := "0123456789abcdef".toList.getD (n / 16 ^ k % 16) '0'
  String.ofList [digit 3, digit 2, digit 1, digit 0]

/-- One character of a JSON string; characters beyond the basic plane become a
surrogate pair. -/
def escapeChar (c : Char) : String :=
  let n := c.toNat
  if c = '"' then "\\\""
  else if c = '\\' then "\\\\"
  else if c = '\n' then "\\n"
  else if c = '\r' then "\\r"
  else if c = '\t' then "\\t"
  else if n = 12 then "\\f"
  else if n = 8 then "\\b"
  else if 32 ≤ n ∧ n ≤ 126 then String.ofList [c]
  else if n < 65536 then "\\u" ++ hex4 n
  else "\\u" ++ hex4 (55296 + (n - 65536) / 1024) ++ "\\u" ++ hex4 (56320 + (n - 65536) % 1024)

def quote (s : String) : String := "\"" ++ String.join (s.toList.map escapeChar) ++ "\""

variable (py : Interp)

/-- A scalar in value position. -/
def Scalar.dumps : Scalar → String
  | .none => "null"
  | .bool b => if b then "true" else "false"
  | .int n => toString n
  | .float .nan => "NaN"
  | .float (.inf negative) => if negative then "-Infinity" else "Infinity"
  | .float x => py.floatRepr x
  | .str s => quote s

/-- A scalar in key position: every key is printed as a string. -/
def Scalar.dumpsKey : Scalar → String
  | .str s => quote s
  | s => "\"" ++ s.dumps py ++ "\""

namespace Value

mutual

/-- `json.dumps(v, sort_keys=True, separators=(",", ":"))`. -/
def dumps : Value → Except Exc String
  | .scalar s => .ok (s.dumps py)
  | .list vs => do return "[" ++ String.intercalate "," (← dumpsList vs) ++ "]"
  | .dict es => do
    let sorted ← pySorted (fun a b => a.1.lt b.1) (← dumpsItems es)
    return "\x7b" ++ String.intercalate ","
      (sorted.map fun e => e.1.dumpsKey py ++ ":" ++ e.2) ++ "\x7d"

def dumpsList : List Value → Except Exc (List String)
  | [] => .ok []
  | v :: vs => do return (← dumps v) :: (← dumpsList vs)

/-- The printed values, still under their keys. -/
def dumpsItems : List (Scalar × Value) → Except Exc (List (Scalar × String))
  | [] => .ok []
  | (k, v) :: es => do return (k, ← dumps v) :: (← dumpsItems es)

end

mutual

/-- A value with string keys throughout prints. -/
theorem dumps_ok : (v : Value) → v.stringKeyed = true → ∃ s, v.dumps py = .ok s
  | .scalar s, _ => ⟨s.dumps py, by rw [dumps]⟩
  | .list vs, h => by
    obtain ⟨parts, hparts⟩ := dumpsList_ok vs h
    exact ⟨_, by rw [dumps, hparts]; rfl⟩
  | .dict es, h => by
    obtain ⟨items, hitems, hkeys⟩ := dumpsItems_ok es h
    obtain ⟨sorted, hsorted⟩ := pySorted_ok (fun a b : Scalar × String => a.1.lt b.1)
      (fun e => ∃ s, e.1 = .str s)
      (by rintro ⟨_, _⟩ ⟨_, _⟩ ⟨s, rfl⟩ ⟨t, rfl⟩; exact ⟨_, rfl⟩) hkeys
    exact ⟨_, by rw [dumps, hitems]; simp only [bind, Except.bind, hsorted]; rfl⟩

theorem dumpsList_ok : (vs : List Value) → stringKeyedList vs = true →
    ∃ parts, dumpsList py vs = .ok parts
  | [], _ => ⟨[], by rw [dumpsList]⟩
  | v :: vs, h => by
    simp only [stringKeyedList, Bool.and_eq_true] at h
    obtain ⟨s, hs⟩ := dumps_ok v h.1
    obtain ⟨parts, hparts⟩ := dumpsList_ok vs h.2
    exact ⟨s :: parts, by rw [dumpsList, hs, hparts]; rfl⟩

theorem dumpsItems_ok : (es : List (Scalar × Value)) → stringKeyedItems es = true →
    ∃ items, dumpsItems py es = .ok items ∧ ∀ e ∈ items, ∃ s, e.1 = .str s
  | [], _ => ⟨[], by rw [dumpsItems], by simp⟩
  | (k, v) :: es, h => by
    simp only [stringKeyedItems, Bool.and_eq_true] at h
    obtain ⟨s, hs⟩ := dumps_ok v h.1.2
    obtain ⟨items, hitems, hkeys⟩ := dumpsItems_ok es h.2
    refine ⟨(k, s) :: items, by rw [dumpsItems, hs, hitems]; rfl, ?_⟩
    intro e he
    rcases List.mem_cons.mp he with rfl | he
    · cases k with
      | str t => exact ⟨t, rfl⟩
      | _ => simp at h
    · exact hkeys e he

end

/-- The items print when their values do. -/
theorem dumpsItems_ok_iff (es : List (Scalar × Value)) :
    (∃ items, dumpsItems py es = .ok items) ↔ ∀ e ∈ es, ∃ s, e.2.dumps py = .ok s := by
  induction es with
  | nil => simp [dumpsItems]
  | cons e es ih =>
    obtain ⟨k, v⟩ := e
    simp only [dumpsItems, bind_eq_ok, pure_eq_ok, List.mem_cons, forall_eq_or_imp, ← ih]
    constructor
    · rintro ⟨items, s, hs, rest, hrest, -⟩
      exact ⟨⟨s, hs⟩, rest, hrest⟩
    · rintro ⟨⟨s, hs⟩, rest, hrest⟩
      exact ⟨_, s, hs, rest, hrest, rfl⟩

theorem dumpsItems_keys {es : List (Scalar × Value)} {items : List (Scalar × String)}
    (h : dumpsItems py es = .ok items) : items.map Prod.fst = es.map Prod.fst := by
  induction es generalizing items with
  | nil =>
    cases h
    rfl
  | cons e es ih =>
    obtain ⟨k, v⟩ := e
    simp only [dumpsItems, bind_eq_ok, pure_eq_ok] at h
    obtain ⟨s, -, rest, hrest, rfl⟩ := h
    rw [List.map_cons, List.map_cons, ih hrest]

/-- A dictionary prints when its values do and its keys compare. -/
theorem dumps_dict_ok_iff (es : List (Scalar × Value)) :
    (∃ s, (Value.dict es).dumps py = .ok s) ↔
      (∀ e ∈ es, ∃ s, e.2.dumps py = .ok s) ∧
        ∃ keys, pySorted Scalar.lt (es.map Prod.fst) = .ok keys := by
  rw [← dumpsItems_ok_iff]
  have hsort : ∀ items, dumpsItems py es = .ok items →
      pySorted Scalar.lt (es.map Prod.fst) =
        (pySorted (fun a b : Scalar × String => a.1.lt b.1) items).map (List.map Prod.fst) := by
    intro items hitems
    rw [← dumpsItems_keys py hitems]
    exact pySorted_map Prod.fst (fun _ _ => rfl) items
  simp only [dumps, bind_eq_ok, pure_eq_ok]
  constructor
  · rintro ⟨s, items, hitems, sorted, hsorted, -⟩
    refine ⟨⟨items, hitems⟩, sorted.map Prod.fst, ?_⟩
    rw [hsort items hitems, hsorted]
    rfl
  · rintro ⟨⟨items, hitems⟩, keys, hkeys⟩
    rw [hsort items hitems] at hkeys
    cases hsorted : pySorted (fun a b : Scalar × String => a.1.lt b.1) items with
    | error e =>
      rw [hsorted] at hkeys
      cases hkeys
    | ok sorted => exact ⟨_, items, hitems, sorted, hsorted, rfl⟩

end Value
end ECN
