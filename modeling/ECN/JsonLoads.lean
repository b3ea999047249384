import ECN.JsonText

/-!
# JSON texts and their parser

`jsonText` prints a value with the default separators and keys in insertion order;
`jsonLoads` is the parser. A JSON value is read back from its text as it was, floats
included when the text of a float reads back as that float.
-/
namespace ECN

/-! ## The printer -/

namespace PyFloat

/-- A number of the format, not an infinity or a NaN. -/
def isFinite : PyFloat → Bool
  | .finite _ _ | .negZero => true
  | .inf _ | .nan => false

end PyFloat

variable (py : Interp)

namespace Value

mutual

/-- The characters of `json.dumps(v)`. -/
def jsonChars : Value → List Char
  | .scalar s => (s.dumps py).toList
  | .list vs => '[' :: (List.intercalate [',', ' '] (elementChars vs) ++ [']'])
  | .dict es => '\x7b' :: (List.intercalate [',', ' '] (memberChars es) ++ ['\x7d'])

def elementChars : List Value → List (List Char)
  | [] => []
  | v :: vs => jsonChars v :: elementChars vs

def memberChars : List (Scalar × Value) → List (List Char)
  | [] => []
  | (k, v) :: es => ((k.dumpsKey py).toList ++ ':' :: ' ' :: jsonChars v) :: memberChars es

end

/-- `json.dumps(v)`. -/
def jsonText (v : Value) : String := String.ofList (v.jsonChars py)

end Value

/-! ## Numbers -/

def scanSign : List Char → Bool × List Char
  | '-' :: cs => (true, cs)
  | cs => (false, cs)

/-- A run of digits, not empty. -/
def scanDigits (cs : List Char) : Option (List Char × List Char) :=
  if cs.takeWhile Char.isDigit = [] then none
  else some (cs.takeWhile Char.isDigit, cs.dropWhile Char.isDigit)

/-- The integer part; a zero stands alone. -/
def scanWhole : List Char → Option (List Char × List Char)
  | '0' :: cs => some (['0'], cs)
  | cs => scanDigits cs

/-- The fraction, when there is one. -/
def scanFraction : List Char → List Char × List Char
  | '.' :: cs => (scanDigits cs).getD ([], '.' :: cs)
  | cs => ([], cs)

def scanExponentSign : List Char → Bool × List Char
  | '-' :: cs => (true, cs)
  | '+' :: cs => (false, cs)
  | cs => (false, cs)

def signed (negative : Bool) (n : ℕ) : ℤ := if negative then -n else n

/-- The exponent, when there is one. -/
def scanExponent : List Char → Option ℤ × List Char
  | [] => (none, [])
  | c :: cs =>
    if c = 'e' ∨ c = 'E' then
      match scanDigits (scanExponentSign cs).2 with
      | some (digits, rest) =>
        (some (signed (scanExponentSign cs).1 (Nat.ofDigitChars 10 digits 0)), rest)
      | none => (none, c :: cs)
    else (none, c :: cs)

/-- `float` of a decimal text with the given digits and exponent. -/
def PyFloat.ofDecimal (negative : Bool) (digits : ℕ) (exponent : ℤ) : PyFloat :=
  let q : ℚ := signed negative digits * 10 ^ exponent
  if negative = true ∧ Rounding.binary64 q = 0 then .negZero else .ofRat q

/-- An integer, or a float when there is a fraction or an exponent. -/
def scanNumber (cs : List Char) : Option (Scalar × List Char) :=
  (scanWhole (scanSign cs).2).map fun whole =>
    let fraction := scanFraction whole.2
    let exponent := scanExponent fraction.2
    (if fraction.1 = [] ∧ exponent.1 = none then
      .int (signed (scanSign cs).1 (Nat.ofDigitChars 10 whole.1 0))
    else .float (.ofDecimal (scanSign cs).1 (Nat.ofDigitChars 10 (whole.1 ++ fraction.1) 0)
      (exponent.1.getD 0 - fraction.1.length)), exponent.2)

/-- `repr` of a finite float is a JSON number that reads back as the float. -/
def Interp.ReprReads (py : Interp) : Prop :=
  ∀ x : PyFloat, x.isFinite = true → scanNumber (py.floatRepr x).toList = some (.float x, [])

/-! ## The parser -/

/-- The second code unit of a character beyond the basic plane. -/
def loadLowUnit (high : ℕ) : List Char → Option (Char × List Char)
  | '\\' :: 'u' :: cs =>
    (unhex4 cs).bind fun low =>
      if 56320 ≤ low.1 ∧ low.1 < 57344 then
        some (Char.ofNat (65536 + (high - 55296) * 1024 + (low.1 - 56320)), low.2)
      else none
  | _ => none

/-- Code units behind a `\u`; an unpaired surrogate is no character. -/
def loadUnits (cs : List Char) : Option (Char × List Char) :=
  (unhex4 cs).bind fun unit =>
    if 55296 ≤ unit.1 ∧ unit.1 < 56320 then loadLowUnit unit.1 unit.2
    else if 56320 ≤ unit.1 ∧ unit.1 < 57344 then none
    else some (Char.ofNat unit.1, unit.2)

/-- One character of a JSON string; control characters must be escaped. -/
def loadChar : List Char → Option (Char × List Char)
  | '\\' :: 'u' :: cs => loadUnits cs
  | '\\' :: '/' :: cs => some ('/', cs)
  | '\\' :: c :: cs => (shortEscape c).map fun d => (d, cs)
  | c :: cs => if c.toNat < 32 then none else some (c, cs)
  | [] => none

/-- The characters up to the closing quotation mark. -/
def loadString : ℕ → List Char → Option (List Char × List Char)
  | 0, _ => none
  | _ + 1, '"' :: cs => some ([], cs)
  | fuel + 1, cs =>
    (loadChar cs).bind fun first =>
      (loadString fuel first.2).map fun rest => (first.1 :: rest.1, rest.2)

def isJsonSpace (c : Char) : Bool := c = ' ' || c = '\t' || c = '\n' || c = '\r'

def skipSpace (cs : List Char) : List Char := cs.dropWhile isJsonSpace

/-- A constant or a number. -/
def loadWord : List Char → Option (Scalar × List Char)
  | 'n' :: 'u' :: 'l' :: 'l' :: cs => some (.none, cs)
  | 't' :: 'r' :: 'u' :: 'e' :: cs => some (.bool true, cs)
  | 'f' :: 'a' :: 'l' :: 's' :: 'e' :: cs => some (.bool false, cs)
  | 'N' :: 'a' :: 'N' :: cs => some (.float .nan, cs)
  | 'I' :: 'n' :: 'f' :: 'i' :: 'n' :: 'i' :: 't' :: 'y' :: cs => some (.float (.inf false), cs)
  | '-' :: 'I' :: 'n' :: 'f' :: 'i' :: 'n' :: 'i' :: 't' :: 'y' :: cs =>
    some (.float (.inf true), cs)
  | cs => scanNumber cs

/-- The dictionary of a list of members; a later member replaces an earlier one. -/
def PyDict.ofPairs (pairs : List (Scalar × Value)) : PyDict :=
  pairs.foldl (fun d e => d.set e.1 e.2) []

mutual

/-- A value at the head of a text, and the rest of the text. -/
def loadValue : ℕ → List Char → Option (Value × List Char)
  | 0, _ => none
  | fuel + 1, cs =>
    match cs with
    | '"' :: cs => (loadString (cs.length + 1) cs).map fun s => (.str (String.ofList s.1), s.2)
    | '[' :: cs =>
      match skipSpace cs with
      | ']' :: cs => some (.list [], cs)
      | cs => (loadElements fuel cs).map fun vs => (.list vs.1, vs.2)
    | '\x7b' :: cs =>
      match skipSpace cs with
      | '\x7d' :: cs => some (.dict [], cs)
      | cs => (loadMembers fuel cs).map fun es => (.dict (PyDict.ofPairs es.1), es.2)
    | cs => (loadWord cs).map fun s => (.scalar s.1, s.2)

def loadElements : ℕ → List Char → Option (List Value × List Char)
  | 0, _ => none
  | fuel + 1, cs =>
    (loadValue fuel cs).bind fun v =>
      match skipSpace v.2 with
      | ',' :: cs => (loadElements fuel (skipSpace cs)).map fun vs => (v.1 :: vs.1, vs.2)
      | ']' :: cs => some ([v.1], cs)
      | _ => none

def loadMembers : ℕ → List Char → Option (List (Scalar × Value) × List Char)
  | 0, _ => none
  | fuel + 1, cs =>
    match cs with
    | '"' :: cs =>
      (loadString (cs.length + 1) cs).bind fun k =>
        match skipSpace k.2 with
        | ':' :: cs =>
          (loadValue fuel (skipSpace cs)).bind fun v =>
            match skipSpace v.2 with
            | ',' :: cs =>
              (loadMembers fuel (skipSpace cs)).map fun es =>
                ((.str (String.ofList k.1), v.1) :: es.1, es.2)
            | '\x7d' :: cs => some ([(.str (String.ofList k.1), v.1)], cs)
            | _ => none
        | _ => none
    | _ => none

end

/-- `json.loads(text)`; `none` stands for its exception. -/
def jsonLoads (text : String) : Option Value :=
  match loadValue (text.toList.length + 1) (skipSpace text.toList) with
  | some (v, rest) => if skipSpace rest = [] then some v else none
  | none => none

/-! ## JSON values -/

/-- No infinity and no NaN. -/
def Scalar.isJson : Scalar → Bool
  | .float x => x.isFinite
  | _ => true

/-- Null, booleans, numbers, strings, lists, and objects with distinct string keys. -/
inductive IsJsonDoc : Value → Prop where
  | scalar {s : Scalar} (h : s.isJson = true) : IsJsonDoc (.scalar s)
  | list {vs : List Value} (values : ∀ v ∈ vs, IsJsonDoc v) : IsJsonDoc (.list vs)
  | dict {es : PyDict} (nodup : (es.map Prod.fst).Nodup) (keys : ∀ e ∈ es, ∃ s, e.1 = .str s)
      (values : ∀ e ∈ es, IsJsonDoc e.2) : IsJsonDoc (.dict es)

end ECN
