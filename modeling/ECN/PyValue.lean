import ECN.Rounding

/-!
# Dynamic values of the modelled language

JSON-shaped values with the language's own equality, ordering, truthiness,
subscripts and integer arithmetic. A dictionary key is a scalar; numeric keys
compare by value, so `1`, `1.0` and `true` are one key, and a later write keeps
the key object already there. Operations that the language rejects return an
exception. Strings are sequences of Unicode scalar values, and decimal conversion
of integers has no digit limit here; what the interpreter's limits change is a layer above.
-/
namespace ECN

/-- A double: a finite number of the format, negative zero, an infinity or a NaN. -/
inductive PyFloat where
  | finite (q : ℚ) (representable : Rounding.binary64.Representable q ∧ |q| < 2 ^ 1024)
  | negZero
  | inf (negative : Bool)
  | nan
  deriving DecidableEq

inductive Scalar where
  | none
  | bool (b : Bool)
  | int (n : ℤ)
  | float (x : PyFloat)
  | str (s : String)
  deriving DecidableEq

inductive Value where
  | scalar (s : Scalar)
  | list (vs : List Value)
  | dict (es : List (Scalar × Value))

/-- A dictionary as its items in insertion order. -/
abbrev PyDict := List (Scalar × Value)

@[match_pattern] abbrev Value.none : Value := .scalar .none
@[match_pattern] abbrev Value.bool (b : Bool) : Value := .scalar (.bool b)
@[match_pattern] abbrev Value.int (n : ℤ) : Value := .scalar (.int n)
@[match_pattern] abbrev Value.str (s : String) : Value := .scalar (.str s)

instance : Inhabited Value := ⟨Value.none⟩

/-- Raised exceptions. The texts of the interpreter's own errors are left out. -/
inductive Exc where
  | valueError (msg : String)
  | keyError (key : Scalar)
  | typeError
  | attributeError
  | indexError
  | overflowError
  deriving DecidableEq

/-- What the interpreter supplies beyond the operations below. -/
structure Interp where
  /-- `repr` of a float. -/
  floatRepr : PyFloat → String
  /-- `repr` of a list or a dictionary. -/
  containerRepr : Value → String
  /-- `int(s)` of a string, when it is a decimal literal that the interpreter converts. -/
  parseInt : String → Option ℤ

/-- `if condition: raise e`. -/
def raiseIf (condition : Bool) (e : Exc) : Except Exc Unit :=
  if condition then .error e else .ok ()

@[simp] theorem raiseIf_eq_ok (condition : Bool) (e : Exc) (u : Unit) :
    raiseIf condition e = .ok u ↔ condition = false := by
  cases condition <;> simp [raiseIf]

theorem bind_eq_ok {ε α β : Type} {x : Except ε α} {f : α → Except ε β} {b : β} :
    (x >>= f) = .ok b ↔ ∃ a, x = .ok a ∧ f a = .ok b := by
  cases x <;> simp [bind, Except.bind]

theorem pure_eq_ok {ε α : Type} {a b : α} : (pure a : Except ε α) = .ok b ↔ a = b := by
  simp [pure, Except.pure]

/-! ## Structural equality of values is decidable -/

mutual

def Value.decEq : (a b : Value) → Decidable (a = b)
  | .scalar s, .scalar t => decidable_of_iff (s = t) (by simp)
  | .list vs, .list ws =>
    have := Value.decEqList vs ws
    decidable_of_iff (vs = ws) (by simp)
  | .dict es, .dict fs =>
    have := Value.decEqItems es fs
    decidable_of_iff (es = fs) (by simp)
  | .scalar _, .list _ | .scalar _, .dict _ | .list _, .scalar _
  | .list _, .dict _ | .dict _, .scalar _ | .dict _, .list _ => isFalse (by simp)

def Value.decEqList : (vs ws : List Value) → Decidable (vs = ws)
  | [], [] => isTrue rfl
  | v :: vs, w :: ws =>
    have := Value.decEq v w
    have := Value.decEqList vs ws
    decidable_of_iff (v = w ∧ vs = ws) (by simp)
  | [], _ :: _ | _ :: _, [] => isFalse (by simp)

def Value.decEqItems : (es fs : List (Scalar × Value)) → Decidable (es = fs)
  | [], [] => isTrue rfl
  | (k, v) :: es, (l, w) :: fs =>
    have := Value.decEq v w
    have := Value.decEqItems es fs
    decidable_of_iff ((k = l ∧ v = w) ∧ es = fs) (by simp)
  | [], _ :: _ | _ :: _, [] => isFalse (by simp)

end

instance : DecidableEq Value := Value.decEq

/-! ## Numbers -/

/-- The numeric values that comparisons see. -/
inductive ExtRat where
  | nan
  | negInf
  | fin (q : ℚ)
  | posInf
  deriving DecidableEq

def ExtRat.eq : ExtRat → ExtRat → Bool
  | .nan, _ => false
  | _, .nan => false
  | x, y => decide (x = y)

def ExtRat.lt : ExtRat → ExtRat → Bool
  | .fin p, .fin q => decide (p < q)
  | .negInf, .fin _ | .negInf, .posInf | .fin _, .posInf => true
  | _, _ => false

namespace PyFloat

def ext : PyFloat → ExtRat
  | .finite q _ => .fin q
  | .negZero => .fin 0
  | .inf true => .negInf
  | .inf false => .posInf
  | .nan => .nan

/-- The double nearest to an exact result, or an infinity. -/
def ofRat (q : ℚ) : PyFloat :=
  if h : |Rounding.binary64 q| < 2 ^ 1024 then
    .finite (Rounding.binary64 q) ⟨Rounding.binary64.representable_round q, h⟩
  else .inf (decide (q < 0))

/-- Conversion of an integer operand; a large one overflows. -/
def ofInt (n : ℤ) : Except Exc ℚ :=
  if |Rounding.binary64 n| < 2 ^ 1024 then .ok (Rounding.binary64 n) else .error .overflowError

/-- `x + n`; subtraction of a non-zero integer is addition of its negative. -/
def addInt (x : PyFloat) (n : ℤ) : Except Exc PyFloat := do
  let r ← ofInt n
  match x with
  | .finite q _ => return ofRat (q + r)
  | .negZero => return ofRat r
  | .inf negative => return .inf negative
  | .nan => return .nan

/-- `int(x)`: truncation towards zero. -/
def toInt : PyFloat → Except Exc ℤ
  | .finite q _ => .ok (if 0 ≤ q then ⌊q⌋ else ⌈q⌉)
  | .negZero => .ok 0
  | .inf _ => .error .overflowError
  | .nan => .error (.valueError "cannot convert float NaN to integer")

end PyFloat

namespace Scalar

def num : Scalar → Option ExtRat
  | .bool b => some (.fin (if b then 1 else 0))
  | .int n => some (.fin n)
  | .float x => some x.ext
  | .none | .str _ => Option.none

/-- `a == b`. -/
def eq (a b : Scalar) : Bool :=
  match a.num, b.num with
  | some x, some y => x.eq y
  | Option.none, Option.none => decide (a = b)
  | _, _ => false

/-- `a < b`. -/
def lt (a b : Scalar) : Except Exc Bool :=
  match a, b with
  | .str s, .str t => .ok (decide (s < t))
  | a, b =>
    match a.num, b.num with
    | some x, some y => .ok (x.lt y)
    | _, _ => .error .typeError

def truthy : Scalar → Bool
  | .none => false
  | .bool b => b
  | .int n => decide (n ≠ 0)
  | .float x => !x.ext.eq (.fin 0)
  | .str s => decide (s ≠ "")

/-- `x + n`. -/
def addInt (x : Scalar) (n : ℤ) : Except Exc Scalar :=
  match x with
  | .bool b => .ok (.int ((if b then 1 else 0) + n))
  | .int m => .ok (.int (m + n))
  | .float f => do return .float (← f.addInt n)
  | .none | .str _ => .error .typeError

@[simp] theorem eq_str (k : Scalar) (s : String) : k.eq (.str s) = decide (k = .str s) := by
  cases k <;> simp [eq, num]

@[simp] theorem str_eq (s : String) (k : Scalar) : Scalar.eq (.str s) k = decide (.str s = k) := by
  cases k <;> simp [eq, num]

@[simp] theorem lt_str (s t : String) : Scalar.lt (.str s) (.str t) = .ok (decide (s < t)) := rfl

end Scalar

/-! ## Dictionaries -/

namespace PyDict

/-- `d.get(k)`. -/
def get? (d : PyDict) (k : Scalar) : Option Value := (d.find? fun e => e.1.eq k).map Prod.snd

/-- `d[k] = v`. -/
def set (d : PyDict) (k : Scalar) (v : Value) : PyDict :=
  match d with
  | [] => [(k, v)]
  | e :: es => if e.1.eq k then (e.1, v) :: es else e :: set es k v

/-- `d.pop(k, None)`, the dictionary part. -/
def pop (d : PyDict) (k : Scalar) : PyDict := d.eraseP fun e => e.1.eq k

/-- `d[k]`. -/
def item (d : PyDict) (k : Scalar) : Except Exc Value :=
  match d.get? k with
  | some v => .ok v
  | Option.none => .error (.keyError k)

theorem get?_set_str (d : PyDict) (a b : String) (v : Value) :
    (d.set (.str a) v).get? (.str b) = if b = a then some v else d.get? (.str b) := by
  unfold get?
  induction d with
  | nil => simp [set, eq_comm]
  | cons e es ih =>
    by_cases he : e.1 = .str a
    · by_cases h : b = a
      · simp [set, he, h]
      · simp [set, he, h, Ne.symm h]
    · by_cases hb : e.1 = .str b
      · have hne : b ≠ a := fun h => he (h ▸ hb)
        simp [set, hb, hne]
      · simpa [set, he, hb] using ih

theorem get?_mem {d : PyDict} {k : Scalar} {v : Value} (h : d.get? k = some v) :
    ∃ e ∈ d, e.2 = v := by
  unfold get? at h
  obtain ⟨e, he, rfl⟩ := Option.map_eq_some_iff.mp h
  exact ⟨e, List.mem_of_find?_eq_some he, rfl⟩

/-- With distinct keys, a dictionary holds what a lookup finds. -/
theorem get?_str_eq_some_iff {d : PyDict} (hd : (d.map Prod.fst).Nodup) {s : String}
    {v : Value} : d.get? (.str s) = some v ↔ (.str s, v) ∈ d := by
  induction d with
  | nil => simp [get?]
  | cons e es ih =>
    obtain ⟨k, w⟩ := e
    rw [List.map_cons, List.nodup_cons] at hd
    by_cases hk : k = .str s
    · subst hk
      have hout : (Scalar.str s, v) ∉ es := fun h => hd.1 (List.mem_map.mpr ⟨_, h, rfl⟩)
      simp [get?, hout, eq_comm]
    · have hskip : get? ((k, w) :: es) (.str s) = get? es (.str s) := by
        simp [get?, hk]
      rw [hskip, ih hd.2]
      simp [Ne.symm hk]

theorem mem_keys_of_get? {d : PyDict} {account : String} {v : Value}
    (h : get? d (.str account) = some v) : Scalar.str account ∈ d.map Prod.fst := by
  obtain ⟨e, he, -⟩ := Option.map_eq_some_iff.mp h
  have hkey : e.1 = .str account := by simpa using List.find?_some he
  exact List.mem_map.mpr ⟨e, List.mem_of_find?_eq_some he, hkey⟩

/-- A write under a key that is there keeps the keys. -/
theorem keys_set {d : PyDict} {s : String} {v : Value} (h : d.get? (.str s) = some v) (w : Value) :
    (d.set (.str s) w).map Prod.fst = d.map Prod.fst := by
  induction d with
  | nil => cases h
  | cons e es ih =>
    by_cases he : e.1 = .str s
    · simp [set, he]
    · have hrest : get? es (.str s) = some v := by simpa [get?, he] using h
      simp [set, he, ih hrest]

/-- A property of all items survives a write of an item that has it. -/
theorem forall_set {P : Scalar × Value → Prop} {d : PyDict} {k : Scalar} {v : Value}
    (hd : ∀ e ∈ d, P e) (hnew : P (k, v)) (hold : ∀ e ∈ d, e.1.eq k = true → P (e.1, v)) :
    ∀ e ∈ d.set k v, P e := by
  induction d with
  | nil => simpa [set] using hnew
  | cons e es ih =>
    by_cases he : e.1.eq k = true
    · simp only [set, he, if_true, List.mem_cons, forall_eq_or_imp]
      exact ⟨hold e List.mem_cons_self he, fun f hf => hd f (List.mem_cons_of_mem e hf)⟩
    · simp only [set, he, Bool.false_eq_true, if_false, List.mem_cons, forall_eq_or_imp]
      exact ⟨hd e List.mem_cons_self, ih (fun f hf => hd f (List.mem_cons_of_mem e hf))
        (fun f hf => hold f (List.mem_cons_of_mem e hf))⟩

end PyDict

/-! ## Quoted texts -/

/-- One character inside single or double quotes. -/
def reprChar (quotes c : Char) : String :=
  let n := c.toNat
  let hex (n : ℕ) : Char := "0123456789abcdef".toList.getD n '0'
  if c = quotes ∨ c = '\\' then String.ofList ['\\', c]
  else if c = '\n' then "\\n"
  else if c = '\r' then "\\r"
  else if c = '\t' then "\\t"
  else if n < 32 ∨ n = 127 then "\\x" ++ String.ofList [hex (n / 16), hex (n % 16)]
  else String.ofList [c]

/-- `repr` of a text whose characters beyond ASCII are all printable. -/
def reprText (s : String) : String :=
  let quotes := if s.toList.contains '\'' ∧ ¬ s.toList.contains '"' then '"' else '\''
  String.ofList [quotes] ++ String.join (s.toList.map (reprChar quotes)) ++ String.ofList [quotes]

/-! ## Sorting with a comparison that can raise -/

/-- Insert after the elements that are not larger. -/
def insertSorted {α : Type} (lt : α → α → Except Exc Bool) (x : α) : List α → Except Exc (List α)
  | [] => .ok [x]
  | y :: ys => do
    if ← lt x y then return x :: y :: ys
    return y :: (← insertSorted lt x ys)

/-- Stable sort; it raises when a comparison does. -/
def pySorted {α : Type} (lt : α → α → Except Exc Bool) (xs : List α) : Except Exc (List α) :=
  xs.foldlM (fun sorted x => insertSorted lt x sorted) []

theorem insertSorted_ok {α : Type} (lt : α → α → Except Exc Bool) (P : α → Prop)
    (hlt : ∀ a b, P a → P b → ∃ c, lt a b = .ok c) {x : α} (hx : P x) {ys : List α}
    (hys : ∀ y ∈ ys, P y) : ∃ zs, insertSorted lt x ys = .ok zs ∧ ∀ z ∈ zs, P z := by
  induction ys with
  | nil => exact ⟨[x], rfl, by simpa using hx⟩
  | cons y ys ih =>
    obtain ⟨c, hc⟩ := hlt x y hx (hys y List.mem_cons_self)
    obtain ⟨zs, hzs, hP⟩ := ih fun z hz => hys z (List.mem_cons_of_mem y hz)
    cases c with
    | true =>
      refine ⟨x :: y :: ys, by simp [insertSorted, hc, bind, Except.bind, pure, Except.pure], ?_⟩
      intro z hz
      rcases List.mem_cons.mp hz with rfl | hz
      · exact hx
      · exact hys z hz
    | false =>
      refine ⟨y :: zs, by simp [insertSorted, hc, hzs, bind, Except.bind, pure, Except.pure], ?_⟩
      intro z hz
      rcases List.mem_cons.mp hz with rfl | hz
      · exact hys z List.mem_cons_self
      · exact hP z hz

/-- A comparison that never raises on the elements gives a sort that does not. -/
theorem pySorted_ok {α : Type} (lt : α → α → Except Exc Bool) (P : α → Prop)
    (hlt : ∀ a b, P a → P b → ∃ c, lt a b = .ok c) {xs : List α} (hxs : ∀ x ∈ xs, P x) :
    ∃ ys, pySorted lt xs = .ok ys := by
  suffices h : ∀ acc : List α, (∀ y ∈ acc, P y) →
      ∃ ys, xs.foldlM (fun sorted x => insertSorted lt x sorted) acc = .ok ys from h [] (by simp)
  induction xs with
  | nil => exact fun acc _ => ⟨acc, rfl⟩
  | cons x xs ih =>
    intro acc hacc
    obtain ⟨zs, hzs, hP⟩ := insertSorted_ok lt P hlt (hxs x List.mem_cons_self) hacc
    obtain ⟨ys, hys⟩ := ih (fun y hy => hxs y (List.mem_cons_of_mem x hy)) zs hP
    exact ⟨ys, by simpa [List.foldlM_cons, hzs, bind, Except.bind] using hys⟩

theorem insertSorted_perm {α : Type} {lt : α → α → Except Exc Bool} {x : α} {ys zs : List α}
    (h : insertSorted lt x ys = .ok zs) : zs.Perm (x :: ys) := by
  induction ys generalizing zs with
  | nil => cases h; exact List.Perm.refl _
  | cons y ys ih =>
    simp only [insertSorted, bind_eq_ok] at h
    obtain ⟨c, -, h⟩ := h
    split at h
    · rw [← pure_eq_ok.mp h]
    · obtain ⟨ws, hws, h⟩ := bind_eq_ok.mp h
      rw [← pure_eq_ok.mp h]
      exact ((ih hws).cons y).trans (List.Perm.swap x y ys)

theorem pySorted_perm {α : Type} {lt : α → α → Except Exc Bool} {xs zs : List α}
    (h : pySorted lt xs = .ok zs) : zs.Perm xs := by
  suffices hacc : ∀ acc, xs.foldlM (fun sorted x => insertSorted lt x sorted) acc = .ok zs →
      zs.Perm (acc ++ xs) from hacc [] h
  clear h
  induction xs with
  | nil => intro acc h; cases h; simp
  | cons x xs ih =>
    intro acc h
    rw [List.foldlM_cons] at h
    obtain ⟨mid, hmid, hrest⟩ := bind_eq_ok.mp h
    have hinsert : (mid ++ xs).Perm (x :: acc ++ xs) := (insertSorted_perm hmid).append_right xs
    exact (ih mid hrest).trans (hinsert.trans List.perm_middle.symm)

theorem insertSorted_map {α β : Type} {lt : α → α → Except Exc Bool}
    {lt' : β → β → Except Exc Bool} (f : α → β) (hf : ∀ a b, lt' (f a) (f b) = lt a b) (x : α)
    (ys : List α) : insertSorted lt' (f x) (ys.map f) = (insertSorted lt x ys).map (List.map f) := by
  induction ys with
  | nil => rfl
  | cons y ys ih =>
    simp only [List.map_cons, insertSorted, hf, ih]
    cases lt x y with
    | error e => rfl
    | ok less =>
      cases less with
      | true => rfl
      | false => cases insertSorted lt x ys <;> rfl

/-- Sorting by a key of the elements is sorting the keys. -/
theorem pySorted_map {α β : Type} {lt : α → α → Except Exc Bool} {lt' : β → β → Except Exc Bool}
    (f : α → β) (hf : ∀ a b, lt' (f a) (f b) = lt a b) (xs : List α) :
    pySorted lt' (xs.map f) = (pySorted lt xs).map (List.map f) := by
  suffices h : ∀ acc : List α,
      (xs.map f).foldlM (fun sorted x => insertSorted lt' x sorted) (acc.map f) =
        (xs.foldlM (fun sorted x => insertSorted lt x sorted) acc).map (List.map f) from h []
  induction xs with
  | nil => exact fun acc => rfl
  | cons x xs ih =>
    intro acc
    simp only [List.map_cons, List.foldlM_cons, insertSorted_map f hf]
    cases insertSorted lt x acc with
    | error e => rfl
    | ok sorted => exact ih sorted

section SortingByKey

variable {α β : Type} [LinearOrder β] {lt : α → α → Except Exc Bool} {P : α → Prop} {key : α → β}

theorem insertSorted_pairwise
    (hlt : ∀ a b, P a → P b → ∃ less, lt a b = .ok less ∧ (less = true ↔ key a < key b))
    {x : α} (hx : P x) {ys zs : List α} (hys : ∀ y ∈ ys, P y)
    (hsorted : ys.Pairwise fun a b => key a ≤ key b) (h : insertSorted lt x ys = .ok zs) :
    zs.Pairwise fun a b => key a ≤ key b := by
  induction ys generalizing zs with
  | nil =>
    cases h
    simp
  | cons y ys ih =>
    have hall := hsorted
    rw [List.pairwise_cons] at hsorted
    obtain ⟨less, hless, hiff⟩ := hlt x y hx (hys y List.mem_cons_self)
    simp only [insertSorted, hless, bind, Except.bind] at h
    by_cases hxy : key x < key y
    · rw [if_pos (hiff.mpr hxy)] at h
      obtain rfl := Except.ok.inj h
      refine List.pairwise_cons.mpr ⟨fun z hz => ?_, hall⟩
      rcases List.mem_cons.mp hz with rfl | hz
      · exact hxy.le
      · exact hxy.le.trans (hsorted.1 z hz)
    · rw [if_neg (mt hiff.mp hxy)] at h
      obtain ⟨ws, hws, h⟩ := bind_eq_ok.mp h
      obtain rfl := Except.ok.inj h
      refine List.pairwise_cons.mpr
        ⟨fun z hz => ?_, ih (fun z hz => hys z (List.mem_cons_of_mem y hz)) hsorted.2 hws⟩
      rcases List.mem_cons.mp ((insertSorted_perm hws).mem_iff.mp hz) with rfl | hz
      · exact not_lt.mp hxy
      · exact hsorted.1 z hz

theorem pySorted_pairwise
    (hlt : ∀ a b, P a → P b → ∃ less, lt a b = .ok less ∧ (less = true ↔ key a < key b))
    {xs zs : List α} (hxs : ∀ x ∈ xs, P x) (h : pySorted lt xs = .ok zs) :
    zs.Pairwise fun a b => key a ≤ key b := by
  suffices hacc : ∀ acc : List α, (∀ y ∈ acc, P y) → (acc.Pairwise fun a b => key a ≤ key b) →
      xs.foldlM (fun sorted x => insertSorted lt x sorted) acc = .ok zs →
        zs.Pairwise fun a b => key a ≤ key b from hacc [] (by simp) .nil h
  clear h
  induction xs with
  | nil =>
    intro acc _ hsorted h
    cases h
    exact hsorted
  | cons x xs ih =>
    intro acc hP hsorted h
    rw [List.foldlM_cons] at h
    obtain ⟨mid, hmid, hrest⟩ := bind_eq_ok.mp h
    have hx := hxs x List.mem_cons_self
    refine ih (fun y hy => hxs y (List.mem_cons_of_mem x hy)) mid (fun y hy => ?_)
      (insertSorted_pairwise hlt hx hP hsorted hmid) hrest
    rcases List.mem_cons.mp ((insertSorted_perm hmid).mem_iff.mp hy) with rfl | hy
    · exact hx
    · exact hP y hy

/-- With distinct keys the order of the input does not matter. -/
theorem pySorted_eq_of_perm
    (hlt : ∀ a b, P a → P b → ∃ less, lt a b = .ok less ∧ (less = true ↔ key a < key b))
    {xs ys : List α} (hxs : ∀ x ∈ xs, P x) (hkeys : (xs.map key).Nodup) (hperm : xs.Perm ys) :
    pySorted lt xs = pySorted lt ys := by
  have hok : ∀ a b, P a → P b → ∃ less, lt a b = .ok less :=
    fun a b ha hb => (hlt a b ha hb).imp fun _ h => h.1
  have hys : ∀ y ∈ ys, P y := fun y hy => hxs y (hperm.mem_iff.mpr hy)
  obtain ⟨zs, hzs⟩ := pySorted_ok lt P hok hxs
  obtain ⟨ws, hws⟩ := pySorted_ok lt P hok hys
  have hzw : zs.Perm ws := (pySorted_perm hzs).trans (hperm.trans (pySorted_perm hws).symm)
  have hinj : ∀ a ∈ zs, ∀ b ∈ zs, key a = key b → a = b := by
    have hnodup : (zs.map key).Nodup := ((pySorted_perm hzs).map key).nodup_iff.mpr hkeys
    exact fun a ha b hb => List.inj_on_of_nodup_map hnodup ha hb
  have heq : zs = ws := hzw.eq_of_pairwise
    (fun a b ha hb hab hba => hinj a ha b (hzw.mem_iff.mpr hb) (le_antisymm hab hba))
    (pySorted_pairwise hlt hxs hzs) (pySorted_pairwise hlt hys hws)
  rw [hzs, hws, heq]

end SortingByKey

/-! ## Operations on values -/

namespace Value

mutual

/-- `a == b`. -/
def eq : Value → Value → Bool
  | .scalar s, .scalar t => s.eq t
  | .list vs, .list ws => eqList vs ws
  | .dict es, .dict fs => decide (es.length = fs.length) && eqItems es fs
  | _, _ => false

def eqList : List Value → List Value → Bool
  | [], [] => true
  | v :: vs, w :: ws => eq v w && eqList vs ws
  | _, _ => false

/-- Every item of the first dictionary is an item of the second. -/
def eqItems : List (Scalar × Value) → List (Scalar × Value) → Bool
  | [], _ => true
  | (k, v) :: es, fs =>
    (match PyDict.get? fs k with
    | some w => eq v w
    | Option.none => false) && eqItems es fs

end

mutual

/-- `a < b`: numbers, strings, and lists lexicographically. -/
def lt : Value → Value → Except Exc Bool
  | .scalar s, .scalar t => s.lt t
  | .list vs, .list ws => ltList vs ws
  | _, _ => .error .typeError

def ltList : List Value → List Value → Except Exc Bool
  | [], [] => .ok false
  | [], _ :: _ => .ok true
  | _ :: _, [] => .ok false
  | v :: vs, w :: ws => if v.eq w then ltList vs ws else lt v w

end

def truthy : Value → Bool
  | .scalar s => s.truthy
  | .list vs => !vs.isEmpty
  | .dict es => !es.isEmpty

/-- The key of a subscript or membership test on a dictionary. -/
def asKey : Value → Except Exc Scalar
  | .scalar s => .ok s
  | .list _ | .dict _ => .error .typeError

/-- `x in container`. -/
def contains (container x : Value) : Except Exc Bool :=
  match container, x with
  | .dict es, x => do return (PyDict.get? es (← x.asKey)).isSome
  | .list vs, x => .ok (vs.any fun v => v.eq x)
  | .str s, .str t => .ok (decide (t.toList <:+: s.toList))
  | .scalar _, _ => .error .typeError

/-- Position meant by a list index. -/
def listIndex (size : ℕ) : Value → Except Exc ℕ
  | .scalar s =>
    match s with
    | .int n => position n
    | .bool b => position (if b then 1 else 0)
    | _ => .error .typeError
  | .list _ | .dict _ => .error .typeError
where
  position (n : ℤ) : Except Exc ℕ :=
    if 0 ≤ n ∧ n < size then .ok n.toNat
    else if n < 0 ∧ -size ≤ n then .ok (n + size).toNat
    else .error .indexError

/-- `container[x]`. -/
def item (container x : Value) : Except Exc Value :=
  match container with
  | .dict es => do PyDict.item es (← x.asKey)
  | .list vs => do return vs.getD (← listIndex vs.length x) Value.none
  | .scalar _ => .error .typeError

/-- `container.get(x, default)`. -/
def getOr (container x default : Value) : Except Exc Value :=
  match container with
  | .dict es => do return (PyDict.get? es (← x.asKey)).getD default
  | .list _ | .scalar _ => .error .attributeError

/-- `container[x] = v`. -/
def setItem (container x v : Value) : Except Exc Value :=
  match container with
  | .dict es => do return .dict (PyDict.set es (← x.asKey) v)
  | .list vs => do return .list (vs.set (← listIndex vs.length x) v)
  | .scalar _ => .error .typeError

/-- `v < n`. -/
def ltInt (v : Value) (n : ℤ) : Except Exc Bool := v.lt (.int n)

/-- `v + n`. -/
def addInt (v : Value) (n : ℤ) : Except Exc Value :=
  match v with
  | .scalar s => do return .scalar (← s.addInt n)
  | .list _ | .dict _ => .error .typeError

theorem setItem_dict_str (es : PyDict) (k : String) (v : Value) :
    (Value.dict es).setItem (.str k) v = .ok (.dict (PyDict.set es (.str k) v)) := rfl

theorem ltInt_int (k n : ℤ) : (Value.int k).ltInt n = .ok (decide ((k : ℚ) < n)) := rfl

theorem addInt_int (k n : ℤ) : (Value.int k).addInt n = .ok (.int (k + n)) := rfl

variable (py : Interp)

/-- `str(v)`, which a formatted string inserts. -/
def pyStr : Value → String
  | .scalar .none => "None"
  | .scalar (.bool b) => if b then "True" else "False"
  | .scalar (.int n) => toString n
  | .scalar (.float x) => py.floatRepr x
  | .scalar (.str s) => s
  | .list vs => py.containerRepr (.list vs)
  | .dict es => py.containerRepr (.dict es)

/-- `int(v)`. -/
def toInt : Value → Except Exc ℤ
  | .scalar .none => .error .typeError
  | .scalar (.bool b) => .ok (if b then 1 else 0)
  | .scalar (.int n) => .ok n
  | .scalar (.float x) => x.toInt
  | .scalar (.str s) =>
    match py.parseInt s with
    | some n => .ok n
    | Option.none => .error (.valueError ("invalid literal for int() with base 10: " ++
        String.ofList ((reprText s).toList.take 200)))
  | .list _ | .dict _ => .error .typeError

mutual

/-- Every dictionary key, at every depth, is a string. -/
def stringKeyed : Value → Bool
  | .scalar _ => true
  | .list vs => stringKeyedList vs
  | .dict es => stringKeyedItems es

def stringKeyedList : List Value → Bool
  | [] => true
  | v :: vs => stringKeyed v && stringKeyedList vs

def stringKeyedItems : List (Scalar × Value) → Bool
  | [] => true
  | (k, v) :: es => (match k with | .str _ => true | _ => false) && stringKeyed v &&
    stringKeyedItems es

end

theorem stringKeyedList_iff (vs : List Value) :
    stringKeyedList vs = true ↔ ∀ v ∈ vs, v.stringKeyed = true := by
  induction vs with
  | nil => simp [stringKeyedList]
  | cons v vs ih => simp [stringKeyedList, ih]

theorem stringKeyedItems_iff (es : List (Scalar × Value)) :
    stringKeyedItems es = true ↔
      ∀ e ∈ es, (∃ s, e.1 = .str s) ∧ e.2.stringKeyed = true := by
  induction es with
  | nil => simp [stringKeyedItems]
  | cons e es ih =>
    obtain ⟨k, v⟩ := e
    cases k <;> simp [stringKeyedItems, ih]

@[simp] theorem stringKeyed_scalar (s : Scalar) : (Value.scalar s).stringKeyed = true := rfl

theorem stringKeyed_dict_iff (es : List (Scalar × Value)) :
    (Value.dict es).stringKeyed = true ↔
      ∀ e ∈ es, (∃ s, e.1 = .str s) ∧ e.2.stringKeyed = true :=
  stringKeyedItems_iff es

end Value

namespace PyDict

theorem stringKeyed_get? {d : PyDict} {k : Scalar} {v : Value}
    (hd : (Value.dict d).stringKeyed = true) (h : d.get? k = some v) : v.stringKeyed = true := by
  obtain ⟨e, he, rfl⟩ := get?_mem h
  exact ((Value.stringKeyed_dict_iff d).mp hd e he).2

theorem stringKeyed_item {d : PyDict} {k : Scalar} {v : Value}
    (hd : (Value.dict d).stringKeyed = true) (h : d.item k = .ok v) : v.stringKeyed = true := by
  unfold item at h
  split at h
  · next w hw =>
    cases h
    exact stringKeyed_get? hd hw
  · cases h

theorem item_eq_ok {d : PyDict} {k : Scalar} {v : Value} :
    d.item k = .ok v ↔ d.get? k = some v := by
  unfold item
  split <;> simp_all

theorem stringKeyed_set {d : PyDict} {s : String} {v : Value}
    (hd : (Value.dict d).stringKeyed = true) (hv : v.stringKeyed = true) :
    (Value.dict (d.set (.str s) v)).stringKeyed = true := by
  rw [Value.stringKeyed_dict_iff] at hd ⊢
  exact forall_set hd ⟨⟨s, rfl⟩, hv⟩ fun e he _ => ⟨(hd e he).1, hv⟩

theorem stringKeyed_pop {d : PyDict} {k : Scalar} (hd : (Value.dict d).stringKeyed = true) :
    (Value.dict (d.pop k)).stringKeyed = true := by
  rw [Value.stringKeyed_dict_iff] at hd ⊢
  exact fun e he => hd e (List.mem_of_mem_eraseP he)

/-- A key that is found in a string-keyed dictionary is a string. -/
theorem key_str_of_get? {d : PyDict} {k : Scalar} {v : Value}
    (hd : (Value.dict d).stringKeyed = true) (h : d.get? k = some v) : ∃ s, k = .str s := by
  unfold get? at h
  obtain ⟨e, he, -⟩ := Option.map_eq_some_iff.mp h
  obtain ⟨s, hs⟩ := ((Value.stringKeyed_dict_iff d).mp hd e (List.mem_of_find?_eq_some he)).1
  have heq := List.find?_some he
  rw [hs, Scalar.str_eq] at heq
  exact ⟨s, (of_decide_eq_true heq).symm⟩

end PyDict

namespace Value

theorem stringKeyed_item {c x v : Value} (hc : c.stringKeyed = true) (h : c.item x = .ok v) :
    v.stringKeyed = true := by
  cases c with
  | scalar s => cases h
  | dict es =>
    obtain ⟨k, -, hk⟩ := bind_eq_ok.mp h
    exact PyDict.stringKeyed_item hc hk
  | list vs =>
    obtain ⟨i, -, hi⟩ := bind_eq_ok.mp h
    rw [← pure_eq_ok.mp hi, List.getD_eq_getElem?_getD]
    cases hget : vs[i]? with
    | none => rfl
    | some w => exact (stringKeyedList_iff vs).mp hc w (List.mem_of_getElem? hget)

/-- Overwriting an element that is there keeps the keys. -/
theorem stringKeyed_setItem {c x v w c' : Value} (hc : c.stringKeyed = true)
    (hv : v.stringKeyed = true) (hget : c.item x = .ok w) (h : c.setItem x v = .ok c') :
    c'.stringKeyed = true := by
  cases c with
  | scalar s => cases h
  | dict es =>
    obtain ⟨k, hk, hset⟩ := bind_eq_ok.mp h
    obtain ⟨k', hk', hitem⟩ := bind_eq_ok.mp hget
    rw [hk] at hk'
    cases hk'
    rw [← pure_eq_ok.mp hset]
    obtain ⟨s, rfl⟩ := PyDict.key_str_of_get? hc (PyDict.item_eq_ok.mp hitem)
    exact PyDict.stringKeyed_set hc hv
  | list vs =>
    obtain ⟨i, -, hset⟩ := bind_eq_ok.mp h
    rw [← pure_eq_ok.mp hset]
    refine (stringKeyedList_iff _).mpr fun u hu => ?_
    rcases List.mem_or_eq_of_mem_set hu with hu | rfl
    · exact (stringKeyedList_iff vs).mp hc u hu
    · exact hv

theorem stringKeyed_setItem_str {c v c' : Value} {s : String} (hc : c.stringKeyed = true)
    (hv : v.stringKeyed = true) (h : c.setItem (.str s) v = .ok c') :
    c'.stringKeyed = true ∧ ∃ es, c' = .dict es := by
  cases c with
  | scalar s => cases h
  | dict es =>
    obtain ⟨k, hk, hset⟩ := bind_eq_ok.mp h
    cases hk
    rw [← pure_eq_ok.mp hset]
    exact ⟨PyDict.stringKeyed_set hc hv, _, rfl⟩
  | list vs => cases h

end Value
end ECN
