import ECN.JsonLoads

/-!
# Typed fields of JSON objects

A loader takes the values of an object as they come. A typed field can hold only values
of its type, and every other value is refused here.
-/
namespace ECN

/-! ## Writing -/

def texts (ss : List String) : Value := .list (ss.map Value.str)

def optionalText : Option String → Value
  | some s => .str s
  | none => .none

/-! ## Reading -/

namespace Value

def asStr : Value → Except Exc String
  | .scalar (.str s) => .ok s
  | _ => .error .typeError

def asOptionalStr : Value → Except Exc (Option String)
  | .scalar .none => .ok Option.none
  | .scalar (.str s) => .ok (some s)
  | _ => .error .typeError

def asNat : Value → Except Exc ℕ
  | .scalar (.int n) => if 0 ≤ n then .ok n.toNat else .error .typeError
  | _ => .error .typeError

def asBool : Value → Except Exc Bool
  | .scalar (.bool b) => .ok b
  | _ => .error .typeError

def asList : Value → Except Exc (List Value)
  | .list vs => .ok vs
  | _ => .error .typeError

def asDict : Value → Except Exc PyDict
  | .dict es => .ok es
  | _ => .error .typeError

def asTexts (v : Value) : Except Exc (List String) := do (← v.asList).mapM asStr

/-- A member of an enumeration, under its text. -/
def asMember {α : Type} (parse : String → Option α) (v : Value) : Except Exc α := do
  match parse (← v.asStr) with
  | some a => return a
  | Option.none => throw .typeError

end Value

/-- `d.get(k, default)`. -/
def PyDict.getD (d : PyDict) (k : String) (v : Value) : Value := (d.get? (.str k)).getD v

/-- The value in a stored text. -/
def storedValue (data : String) : Except Exc Value :=
  match jsonLoads data with
  | some v => .ok v
  | none => .error (.valueError "invalid JSON")

/-! ## Round trips -/

theorem mapM_eq_ok {ε α β γ : Type} (f : α → β) (g : β → Except ε γ) (h : α → γ) (xs : List α)
    (hg : ∀ x ∈ xs, g (f x) = .ok (h x)) : (xs.map f).mapM g = .ok (xs.map h) := by
  induction xs with
  | nil => rfl
  | cons x xs ih =>
    rw [List.map_cons, List.mapM_cons, hg x List.mem_cons_self,
      ih fun y hy => hg y (List.mem_cons_of_mem x hy)]
    rfl

@[simp] theorem asOptionalStr_optionalText (s : Option String) :
    (optionalText s).asOptionalStr = .ok s := by
  cases s <;> rfl

@[simp] theorem asTexts_texts (ss : List String) : (texts ss).asTexts = .ok ss := by
  have hmap := mapM_eq_ok Value.str Value.asStr id ss fun _ _ => rfl
  rw [List.map_id] at hmap
  exact hmap

theorem asMember_str {α : Type} {parse : String → Option α} {s : String} {a : α}
    (h : parse s = some a) : (Value.str s).asMember parse = .ok a := by
  simp [Value.asMember, Value.asStr, bind, Except.bind, h]
  rfl

theorem storedValue_eq_ok {data : String} {v : Value} (h : jsonLoads data = some v) :
    storedValue data = .ok v := by
  rw [storedValue, h]

/-! ## Fields are JSON -/

theorem isJsonDoc_str (s : String) : IsJsonDoc (.str s) := .scalar rfl

theorem isJsonDoc_optionalText (s : Option String) : IsJsonDoc (optionalText s) := by
  cases s <;> exact .scalar rfl

theorem isJsonDoc_texts (ss : List String) : IsJsonDoc (texts ss) := by
  refine .list fun v hv => ?_
  obtain ⟨s, -, rfl⟩ := List.mem_map.mp hv
  exact isJsonDoc_str s

end ECN
