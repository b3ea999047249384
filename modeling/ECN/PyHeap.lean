import ECN.ObjectHeap
import ECN.PyValue

/-!
# Lists and dictionaries as objects

A state of the program is a graph of list and dictionary objects, and the statements of
the language read and write these objects in place. Each operation here is the operation on
values, read off the objects: it returns the part that the value operation returns, or
leaves objects that stand for the value the value operation returns.
-/
namespace ECN

open ObjectHeap

/-- A list, or a dictionary with its keys in insertion order. -/
inductive Kind where
  | list
  | dict (keys : List Scalar)
  deriving DecidableEq

def Kind.build : Kind → List Value → Option Value
  | .list, vs => some (.list vs)
  | .dict keys, vs => if keys.length = vs.length then some (.dict (keys.zip vs)) else none

abbrev PyHandle := Handle Scalar
abbrev PyObject := Object Kind Scalar
abbrev PyHeap := Heap Kind Scalar

/-- The handle stands for `v`, which it owns, and `v` is not nested deeper than `n`. -/
abbrev Stands (n : ℕ) (heap : PyHeap) (x : PyHandle) (v : Value) (F : List ℕ) : Prop :=
  Owns Value.scalar Kind.build n heap x v F

abbrev StandsAll (n : ℕ) (heap : PyHeap) (xs : List PyHandle) (vs : List Value) (F : List ℕ) :
    Prop := OwnsAll Value.scalar Kind.build n heap xs vs F

/-! ## Programs on the heap -/

/-- What is raised: an exception of the program, or of a nesting that is too deep. -/
inductive Fault where
  | raised (e : Exc)
  | recursion

/-- A program that reads and writes objects; what it has written stays when it raises. -/
def HeapM (α : Type) : Type := PyHeap → Except Fault α × PyHeap

namespace HeapM

instance : Monad HeapM where
  pure a := fun heap => (.ok a, heap)
  bind m f := fun heap =>
    match m heap with
    | (.ok a, heap) => f a heap
    | (.error fault, heap) => (.error fault, heap)

variable {α β : Type}

def raise (e : Exc) : HeapM α := fun heap => (.error (.raised e), heap)

def lift (r : Except Exc α) : HeapM α := fun heap => (r.mapError .raised, heap)

theorem bind_of_ok {m : HeapM α} {heap heap' : PyHeap} {a : α} (h : m heap = (.ok a, heap'))
    (f : α → HeapM β) : (m >>= f) heap = f a heap' := by
  show (match m heap with | (.ok a, heap) => f a heap | (.error e, heap) => (.error e, heap)) = _
  rw [h]

theorem bind_of_error {m : HeapM α} {heap heap' : PyHeap} {fault : Fault}
    (h : m heap = (.error fault, heap')) (f : α → HeapM β) :
    (m >>= f) heap = (.error fault, heap') := by
  show (match m heap with | (.ok a, heap) => f a heap | (.error e, heap) => (.error e, heap)) = _
  rw [h]

end HeapM

open HeapM

/-- A new object. -/
def alloc (o : PyObject) : HeapM PyHandle := fun heap => (.ok (.ref heap.length), heap ++ [o])

def writeObject (a : ℕ) (o : PyObject) : HeapM Unit := fun heap => (.ok (), heap.set a o)

/-- The object of a handle, if it is one. -/
def object (x : PyHandle) : HeapM (Option (ℕ × PyObject)) := fun heap =>
  match x with
  | .leaf _ => (.ok none, heap)
  | .ref a =>
    match heap[a]? with
    | some o => (.ok (some (a, o)), heap)
    | none => (.error .recursion, heap)

/-- What a handle stands for, to print, compare or convert it. -/
def load (limit : ℕ) (x : PyHandle) : HeapM Value := fun heap =>
  match readBack Value.scalar Kind.build heap limit x with
  | some (v, _) => (.ok v, heap)
  | none => (.error .recursion, heap)

def loadAll (limit : ℕ) : List PyHandle → HeapM (List (PyHandle × Value))
  | [] => pure []
  | x :: xs => do
    let v ← load limit x
    let rest ← loadAll limit xs
    return (x, v) :: rest

/-- `copy.deepcopy(x)`. -/
def copyObject (limit : ℕ) (x : PyHandle) : HeapM PyHandle := fun heap =>
  match deepcopy limit x ⟨heap, []⟩ with
  | some (y, c) => (.ok y, c.heap)
  | none => (.error .recursion, heap)

/-! ## Subscripts and methods -/

/-- The position of a key. -/
def keyIndex (keys : List Scalar) (k : Scalar) : Option ℕ := keys.findIdx? fun l => l.eq k

/-- `x[k]`. -/
def getItem (x : PyHandle) (k : Value) : HeapM PyHandle := do
  match ← object x with
  | none => raise .typeError
  | some (_, ⟨.dict keys, fields⟩) =>
    let key ← lift k.asKey
    match keyIndex keys key with
    | some i => return fields.getD i (.leaf .none)
    | none => raise (.keyError key)
  | some (_, ⟨.list, fields⟩) =>
    let i ← lift (Value.listIndex fields.length k)
    return fields.getD i (.leaf .none)

/-- `x.get(k, default)`. -/
def getOr (x : PyHandle) (k : Value) (default : PyHandle) : HeapM PyHandle := do
  match ← object x with
  | some (_, ⟨.dict keys, fields⟩) =>
    let key ← lift k.asKey
    match keyIndex keys key with
    | some i => return fields.getD i (.leaf .none)
    | none => return default
  | none | some (_, ⟨.list, _⟩) => raise .attributeError

/-- `x[k] = y`. -/
def setItem (x : PyHandle) (k : Value) (y : PyHandle) : HeapM Unit := do
  match ← object x with
  | none => raise .typeError
  | some (a, ⟨.dict keys, fields⟩) =>
    let key ← lift k.asKey
    match keyIndex keys key with
    | some i => writeObject a ⟨.dict keys, fields.set i y⟩
    | none => writeObject a ⟨.dict (keys ++ [key]), fields ++ [y]⟩
  | some (a, ⟨.list, fields⟩) =>
    let i ← lift (Value.listIndex fields.length k)
    writeObject a ⟨.list, fields.set i y⟩

/-- `x.setdefault(k, default)`. -/
def setDefault (x : PyHandle) (k : Scalar) (default : PyHandle) : HeapM PyHandle := do
  match ← object x with
  | some (a, ⟨.dict keys, fields⟩) =>
    match keyIndex keys k with
    | some i => return fields.getD i (.leaf .none)
    | none =>
      writeObject a ⟨.dict (keys ++ [k]), fields ++ [default]⟩
      return default
  | none | some (_, ⟨.list, _⟩) => raise .attributeError

/-- `x.pop(k, None)`. -/
def popItem (x : PyHandle) (k : Scalar) : HeapM Unit := do
  match ← object x with
  | some (a, ⟨.dict keys, fields⟩) =>
    match keyIndex keys k with
    | some i => writeObject a ⟨.dict (keys.eraseIdx i), fields.eraseIdx i⟩
    | none => return ()
  | none | some (_, ⟨.list, _⟩) => raise .attributeError

/-- `x.append(y)`. -/
def append (x y : PyHandle) : HeapM Unit := do
  match ← object x with
  | some (a, ⟨.list, fields⟩) => writeObject a ⟨.list, fields ++ [y]⟩
  | none | some (_, ⟨.dict _, _⟩) => raise .attributeError

/-- `x.sort()`. Where a comparison raises, CPython may leave the list partly sorted; here it
is not written, as the only list sorted is in a copy that the exception drops. -/
def sort (limit : ℕ) (x : PyHandle) : HeapM Unit := do
  match ← object x with
  | some (a, ⟨.list, fields⟩) =>
    let loaded ← loadAll limit fields
    let sorted ← lift (pySorted (fun p q => Value.lt p.2 q.2) loaded)
    writeObject a ⟨.list, sorted.map Prod.fst⟩
  | none | some (_, ⟨.dict _, _⟩) => raise .attributeError

/-- `x[k] += n`. -/
def increase (x : PyHandle) (k : Value) (n : ℤ) : HeapM Unit := do
  match ← getItem x k with
  | .leaf s => setItem x k (.leaf (← lift (s.addInt n)))
  | .ref _ => raise .typeError

/-! ## Keys and positions -/

theorem keyIndex_cons (l : Scalar) (keys : List Scalar) (k : Scalar) :
    keyIndex (l :: keys) k = if l.eq k then some 0 else (keyIndex keys k).map (· + 1) := by
  simp only [keyIndex, List.findIdx?_cons]

theorem keyIndex_lt {keys : List Scalar} {k : Scalar} {i : ℕ} (h : keyIndex keys k = some i) :
    i < keys.length := (List.findIdx?_eq_some_iff_getElem.mp h).1

/-- A lookup finds the value at the position of the key. -/
theorem get?_zip {keys : List Scalar} {vs : List Value} (hlen : keys.length = vs.length)
    (k : Scalar) : PyDict.get? (keys.zip vs) k = (keyIndex keys k).bind fun i => vs[i]? := by
  induction keys generalizing vs with
  | nil => rfl
  | cons l keys ih =>
    obtain ⟨v, vs, rfl⟩ := List.exists_cons_of_length_eq_add_one hlen.symm
    have hstep : PyDict.get? ((l, v) :: keys.zip vs) k =
        if l.eq k then some v else PyDict.get? (keys.zip vs) k := by
      cases hl : l.eq k <;> simp [PyDict.get?, hl]
    rw [List.zip_cons_cons, hstep, keyIndex_cons]
    split
    · rfl
    · rw [ih (by simpa using hlen)]
      cases keyIndex keys k <;> rfl

/-- A write replaces the value at the position of the key, or adds the key. -/
theorem set_zip {keys : List Scalar} {vs : List Value} (hlen : keys.length = vs.length)
    (k : Scalar) (w : Value) : PyDict.set (keys.zip vs) k w =
      match keyIndex keys k with
      | some i => keys.zip (vs.set i w)
      | none => (keys ++ [k]).zip (vs ++ [w]) := by
  induction keys generalizing vs with
  | nil =>
    obtain rfl := List.length_eq_zero_iff.mp hlen.symm
    rfl
  | cons l keys ih =>
    obtain ⟨v, vs, rfl⟩ := List.exists_cons_of_length_eq_add_one hlen.symm
    rw [List.zip_cons_cons, PyDict.set, keyIndex_cons]
    split
    · rfl
    · rw [ih (by simpa using hlen)]
      cases keyIndex keys k <;> rfl

theorem pop_zip {keys : List Scalar} {vs : List Value} (hlen : keys.length = vs.length)
    (k : Scalar) : PyDict.pop (keys.zip vs) k =
      match keyIndex keys k with
      | some i => (keys.eraseIdx i).zip (vs.eraseIdx i)
      | none => keys.zip vs := by
  induction keys generalizing vs with
  | nil => rfl
  | cons l keys ih =>
    obtain ⟨v, vs, rfl⟩ := List.exists_cons_of_length_eq_add_one hlen.symm
    have hstep : PyDict.pop ((l, v) :: keys.zip vs) k =
        if l.eq k then keys.zip vs else (l, v) :: PyDict.pop (keys.zip vs) k := by
      cases hl : l.eq k <;> simp [PyDict.pop, hl]
    rw [List.zip_cons_cons, hstep, keyIndex_cons]
    split
    · rfl
    · rw [ih (by simpa using hlen)]
      cases keyIndex keys k <;> rfl

/-! ## What a handle can be -/

theorem Stands.cases {n : ℕ} {heap : PyHeap} {x : PyHandle} {v : Value} {F : List ℕ}
    (h : Stands n heap x v F) :
    (∃ s, x = .leaf s ∧ v = .scalar s ∧ F = []) ∨
    (∃ m a fields vs fs, n = m + 1 ∧ x = .ref a ∧ heap[a]? = some ⟨.list, fields⟩ ∧
      StandsAll m heap fields vs fs ∧ a ∉ fs ∧ v = .list vs ∧ F = a :: fs) ∨
    (∃ m a keys fields vs fs, n = m + 1 ∧ x = .ref a ∧ heap[a]? = some ⟨.dict keys, fields⟩ ∧
      StandsAll m heap fields vs fs ∧ a ∉ fs ∧ keys.length = vs.length ∧
      v = .dict (keys.zip vs) ∧ F = a :: fs) := by
  cases x with
  | leaf s =>
    left
    refine ⟨s, rfl, ?_⟩
    cases n <;> cases h.1 <;> exact ⟨rfl, rfl⟩
  | ref a =>
    right
    cases n with
    | zero => cases h.1
    | succ m =>
      obtain ⟨⟨shape, fields⟩, vs, fs, ho, hfields, ha, hv, rfl⟩ := Owns.ref_iff.mp h
      cases shape with
      | list =>
        cases hv
        exact .inl ⟨m, a, fields, vs, fs, rfl, rfl, ho, hfields, ha, rfl, rfl⟩
      | dict keys =>
        simp only [Kind.build, Option.ite_none_right_eq_some, Option.some.injEq] at hv
        obtain ⟨hlen, rfl⟩ := hv
        exact .inr ⟨m, a, keys, fields, vs, fs, rfl, rfl, ho, hfields, ha, hlen, rfl, rfl⟩

theorem build_dict {keys : List Scalar} {vs : List Value} (h : keys.length = vs.length) :
    Kind.build (.dict keys) vs = some (.dict (keys.zip vs)) := if_pos h

/-! ## Reading -/

section Reading

variable {n : ℕ} {heap : PyHeap} {x : PyHandle} {v : Value} {F : List ℕ} {a : ℕ}

theorem object_leaf (s : Scalar) (heap : PyHeap) : object (.leaf s) heap = (.ok none, heap) := rfl

theorem object_ref {o : PyObject} (ho : heap[a]? = some o) :
    object (.ref a) heap = (.ok (some (a, o)), heap) := by
  show (match heap[a]? with
    | some o => (Except.ok (some (a, o)), heap)
    | none => (.error Fault.recursion, heap)) = _
  rw [ho]

theorem load_of_stands {limit : ℕ} (h : Stands n heap x v F) (hn : n ≤ limit) :
    load limit x heap = (.ok v, heap) := by
  show (match readBack Value.scalar Kind.build heap limit x with
    | some (v, _) => (Except.ok v, heap)
    | none => (.error Fault.recursion, heap)) = _
  rw [(h.mono hn).1]

theorem getItem_dict {keys : List Scalar} {fields : List PyHandle}
    (ho : heap[a]? = some ⟨.dict keys, fields⟩) (k : Value) : getItem (.ref a) k heap =
      match k.asKey with
      | .error e => (.error (.raised e), heap)
      | .ok key =>
        match keyIndex keys key with
        | some i => (.ok (fields.getD i (.leaf .none)), heap)
        | none => (.error (.raised (.keyError key)), heap) := by
  rw [getItem, bind_of_ok (object_ref ho)]
  cases k.asKey with
  | error e => rfl
  | ok key =>
    show (match keyIndex keys key with
      | some i => (pure (fields.getD i (.leaf .none)) : HeapM PyHandle)
      | none => raise (.keyError key)) heap = _
    dsimp only
    cases keyIndex keys key <;> rfl

theorem getItem_list {fields : List PyHandle} (ho : heap[a]? = some ⟨.list, fields⟩) (k : Value) :
    getItem (.ref a) k heap =
      match Value.listIndex fields.length k with
      | .error e => (.error (.raised e), heap)
      | .ok i => (.ok (fields.getD i (.leaf .none)), heap) := by
  rw [getItem, bind_of_ok (object_ref ho)]
  cases hi : Value.listIndex fields.length k with
  | error e =>
    show (lift (Value.listIndex fields.length k) >>= fun i =>
      (pure (fields.getD i (.leaf .none)) : HeapM PyHandle)) heap = _
    rw [hi]
    rfl
  | ok i =>
    show (lift (Value.listIndex fields.length k) >>= fun i =>
      (pure (fields.getD i (.leaf .none)) : HeapM PyHandle)) heap = _
    rw [hi]
    rfl

theorem listIndex_lt {size i : ℕ} {k : Value} (h : Value.listIndex size k = .ok i) : i < size := by
  have hposition : ∀ n : ℤ, Value.listIndex.position size n = .ok i → i < size := by
    intro n hn
    unfold Value.listIndex.position at hn
    split at hn
    · cases hn
      omega
    · split at hn
      · cases hn
        omega
      · cases hn
  unfold Value.listIndex at h
  split at h
  · split at h
    · exact hposition _ h
    · exact hposition _ h
    · cases h
  · cases h
  · cases h

/-- A subscript raises where it does on the value. -/
theorem getItem_error (h : Stands n heap x v F) {k : Value} {e : Exc} (he : v.item k = .error e) :
    getItem x k heap = (.error (.raised e), heap) := by
  rcases h.cases with ⟨s, rfl, rfl, -⟩ | ⟨m, a, fields, vs, fs, -, rfl, ho, hfields, -, rfl, -⟩ |
    ⟨m, a, keys, fields, vs, fs, -, rfl, ho, hfields, -, hlen, rfl, -⟩
  · cases he
    rw [getItem, bind_of_ok (object_leaf s heap)]
    rfl
  · rw [getItem_list ho, ← hfields.length_eq]
    dsimp only [Value.item] at he
    cases hi : Value.listIndex vs.length k with
    | error e' =>
      rw [hi] at he
      cases he
      rfl
    | ok i =>
      rw [hi] at he
      cases he
  · rw [getItem_dict ho]
    dsimp only [Value.item] at he
    cases hk : k.asKey with
    | error e' =>
      rw [hk] at he
      cases he
      rfl
    | ok key =>
      rw [hk] at he
      have hget : PyDict.item (keys.zip vs) key = .error e := he
      unfold PyDict.item at hget
      rw [get?_zip hlen] at hget
      dsimp only
      cases hi : keyIndex keys key with
      | some i =>
        have hlt : i < vs.length := hlen ▸ keyIndex_lt hi
        rw [hi, Option.bind_some, List.getElem?_eq_getElem hlt] at hget
        cases hget
      | none =>
        rw [hi] at hget
        cases hget
        rfl

/-- A subscript returns the part that stands for the value's item, and whatever comes to
stand in its place changes the whole as an assignment to the item does. -/
theorem getItem_focus {root : PyHandle} {limit : ℕ} {plug : Value → Option Value}
    {outer : List ℕ} (hfocus : Focus Value.scalar Kind.build limit heap root n x plug outer)
    (h : Stands n heap x v F) (hdisjoint : F.Disjoint outer) {k w : Value}
    (hw : v.item k = .ok w) : ∃ m y f outer', n = m + 1 ∧ getItem x k heap = (.ok y, heap) ∧
      Stands m heap y w f ∧ f.Disjoint outer' ∧ (∀ b ∈ f, b ∈ F) ∧
      (∀ b ∈ outer', b ∈ outer ∨ b ∈ F) ∧
      Focus Value.scalar Kind.build limit heap root m y
        (fun u => (v.setItem k u).toOption.bind plug) outer' := by
  rcases h.cases with ⟨s, rfl, rfl, -⟩ | ⟨m, a, fields, vs, fs, rfl, rfl, ho, hfields, ha, rfl, rfl⟩ |
    ⟨m, a, keys, fields, vs, fs, rfl, rfl, ho, hfields, ha, hlen, rfl, rfl⟩
  · cases hw
  · dsimp only [Value.item] at hw
    cases hi : Value.listIndex vs.length k with
    | error e =>
      rw [hi] at hw
      cases hw
    | ok i =>
      rw [hi] at hw
      have hat : vs[i]? = some w := by
        have hw' : vs.getD i Value.none = w := pure_eq_ok.mp hw
        rw [← hw', List.getD_eq_getElem?_getD, List.getElem?_eq_getElem (listIndex_lt hi),
          Option.getD_some]
      obtain ⟨y, f, outer', hfield, hy, hd, hf, hout, hfoc⟩ :=
        hfocus.field ho hfields ha hdisjoint hat
      have hset : ∀ u, (Value.setItem (.list vs) k u).toOption = Kind.build .list (vs.set i u) := by
        intro u
        rw [Value.setItem, hi]
        rfl
      simp only [hset]
      refine ⟨m, y, f, outer', rfl, ?_, hy, hd, hf, hout, hfoc⟩
      rw [getItem_list ho, ← hfields.length_eq, hi]
      dsimp only
      rw [List.getD_eq_getElem?_getD, hfield, Option.getD_some]
  · dsimp only [Value.item] at hw
    cases hk : k.asKey with
    | error e =>
      rw [hk] at hw
      cases hw
    | ok key =>
      rw [hk] at hw
      have hget : PyDict.get? (keys.zip vs) key = some w := PyDict.item_eq_ok.mp hw
      rw [get?_zip hlen] at hget
      obtain ⟨i, hi, hat⟩ := Option.bind_eq_some_iff.mp hget
      obtain ⟨y, f, outer', hfield, hy, hd, hf, hout, hfoc⟩ :=
        hfocus.field ho hfields ha hdisjoint hat
      have hset : ∀ u, (Value.setItem (.dict (keys.zip vs)) k u).toOption =
          Kind.build (.dict keys) (vs.set i u) := by
        intro u
        rw [build_dict (by rw [List.length_set, hlen]), Value.setItem, hk]
        show some (Value.dict (PyDict.set (keys.zip vs) key u)) = _
        rw [set_zip hlen, hi]
      simp only [hset]
      refine ⟨m, y, f, outer', rfl, ?_, hy, hd, hf, hout, hfoc⟩
      rw [getItem_dict ho, hk]
      dsimp only
      rw [hi]
      dsimp only
      rw [List.getD_eq_getElem?_getD, hfield, Option.getD_some]

/-- A subscript of an owned handle. -/
theorem getItem_ok (h : Stands n heap x v F) {k w : Value} (hw : v.item k = .ok w) :
    ∃ m y f, n = m + 1 ∧ getItem x k heap = (.ok y, heap) ∧ Stands m heap y w f ∧
      ∀ b ∈ f, b ∈ F := by
  obtain ⟨m, y, f, -, hn, hget, hy, -, hf, -, -⟩ :=
    getItem_focus (Focus.whole n heap x) h (by simp [List.Disjoint]) hw
  exact ⟨m, y, f, hn, hget, hy, hf⟩

end Reading

/-! ## Writing -/

/-- The objects outside `F` are as they were, and no object is new. -/
structure Rewrites (F : List ℕ) (heap heap' : PyHeap) : Prop where
  length : heap'.length = heap.length
  outside : ∀ b, b ∉ F → heap'[b]? = heap[b]?

theorem Rewrites.set {F : List ℕ} {a : ℕ} (ha : a ∈ F) (heap : PyHeap) (o : PyObject) :
    Rewrites F heap (heap.set a o) := by
  refine ⟨List.length_set, fun b hb => List.getElem?_set_ne ?_⟩
  rintro rfl
  exact hb ha

section Writing

variable {n : ℕ} {heap : PyHeap} {x : PyHandle} {v : Value} {F : List ℕ} {a : ℕ}

theorem setItem_dict {keys : List Scalar} {fields : List PyHandle}
    (ho : heap[a]? = some ⟨.dict keys, fields⟩) (k : Value) (y : PyHandle) :
    setItem (.ref a) k y heap =
      match k.asKey with
      | .error e => (.error (.raised e), heap)
      | .ok key =>
        match keyIndex keys key with
        | some i => (.ok (), heap.set a ⟨.dict keys, fields.set i y⟩)
        | none => (.ok (), heap.set a ⟨.dict (keys ++ [key]), fields ++ [y]⟩) := by
  rw [setItem, bind_of_ok (object_ref ho)]
  cases k.asKey with
  | error e => rfl
  | ok key =>
    show (match keyIndex keys key with
      | some i => writeObject a ⟨.dict keys, fields.set i y⟩
      | none => writeObject a ⟨.dict (keys ++ [key]), fields ++ [y]⟩) heap = _
    dsimp only
    cases keyIndex keys key <;> rfl

theorem setItem_list {fields : List PyHandle} (ho : heap[a]? = some ⟨.list, fields⟩) (k : Value)
    (y : PyHandle) : setItem (.ref a) k y heap =
      match Value.listIndex fields.length k with
      | .error e => (.error (.raised e), heap)
      | .ok i => (.ok (), heap.set a ⟨.list, fields.set i y⟩) := by
  rw [setItem, bind_of_ok (object_ref ho)]
  show (lift (Value.listIndex fields.length k) >>= fun i =>
    writeObject a ⟨.list, fields.set i y⟩) heap = _
  cases hi : Value.listIndex fields.length k <;> rfl

theorem lt_length_of_getElem? {o : PyObject} (ho : heap[a]? = some o) : a < heap.length :=
  (List.getElem?_eq_some_iff.mp ho).1

/-- An assignment raises where it does on the value. -/
theorem setItem_error (h : Stands n heap x v F) {k w : Value} {e : Exc}
    (he : v.setItem k w = .error e) (y : PyHandle) :
    setItem x k y heap = (.error (.raised e), heap) := by
  rcases h.cases with ⟨s, rfl, rfl, -⟩ | ⟨m, a, fields, vs, fs, -, rfl, ho, hfields, -, rfl, -⟩ |
    ⟨m, a, keys, fields, vs, fs, -, rfl, ho, -, -, -, rfl, -⟩
  · cases he
    rw [setItem, bind_of_ok (object_leaf s heap)]
    rfl
  · rw [setItem_list ho, ← hfields.length_eq]
    dsimp only [Value.setItem] at he
    cases hi : Value.listIndex vs.length k with
    | error e' =>
      rw [hi] at he
      cases he
      rfl
    | ok i =>
      rw [hi] at he
      cases he
  · rw [setItem_dict ho]
    dsimp only [Value.setItem] at he
    cases hk : k.asKey with
    | error e' =>
      rw [hk] at he
      cases he
      rfl
    | ok key =>
      rw [hk] at he
      cases he

/-- A scalar is written into a field. -/
theorem stands_setField {m : ℕ} {shape : Kind} {fields : List PyHandle} {vs : List Value}
    {fs : List ℕ} (ho : heap[a]? = some ⟨shape, fields⟩) (hfields : StandsAll m heap fields vs fs)
    (ha : a ∉ fs) {i : ℕ} (hi : i < vs.length) {s : Scalar} {v' : Value}
    (hv : shape.build (vs.set i (.scalar s)) = some v') :
    ∃ G, Stands (m + 1) (heap.set a ⟨shape, fields.set i (.leaf s)⟩) (.ref a) v' G ∧
      ∀ b ∈ G, b ∈ a :: fs := by
  obtain ⟨G, hG, hsub⟩ := hfields.set (hfields.length_eq ▸ hi) (Owns.of_leaf m heap s)
    (by simp [List.Disjoint])
  have hsub' : ∀ b ∈ G, b ∈ fs := fun b hb => (hsub b hb).resolve_right (by simp)
  refine ⟨a :: G, Owns.write (lt_length_of_getElem? ho) (o := ⟨shape, fields.set i (.leaf s)⟩) hG
    (fun hmem => ha (hsub' a hmem)) hv, fun b hb => ?_⟩
  rcases List.mem_cons.mp hb with rfl | hb
  · exact List.mem_cons_self
  · exact List.mem_cons_of_mem a (hsub' b hb)

/-- An assignment of a scalar leaves the value that the assignment on values gives. -/
theorem setItem_ok (h : Stands n heap x v F) {k v' : Value} {s : Scalar}
    (hset : v.setItem k (.scalar s) = .ok v') :
    ∃ heap' F', setItem x k (.leaf s) heap = (.ok (), heap') ∧ Stands n heap' x v' F' ∧
      (∀ b ∈ F', b ∈ F) ∧ Rewrites F heap heap' := by
  rcases h.cases with ⟨s', rfl, rfl, -⟩ |
    ⟨m, a, fields, vs, fs, rfl, rfl, ho, hfields, ha, rfl, rfl⟩ |
    ⟨m, a, keys, fields, vs, fs, rfl, rfl, ho, hfields, ha, hlen, rfl, rfl⟩
  · cases hset
  · dsimp only [Value.setItem] at hset
    cases hi : Value.listIndex vs.length k with
    | error e =>
      rw [hi] at hset
      cases hset
    | ok i =>
      rw [hi] at hset
      cases hset
      obtain ⟨G, hG, hsub⟩ := stands_setField ho hfields ha (listIndex_lt hi) (s := s) rfl
      refine ⟨_, G, ?_, hG, hsub, Rewrites.set List.mem_cons_self heap _⟩
      rw [setItem_list ho, ← hfields.length_eq, hi]
  · dsimp only [Value.setItem] at hset
    cases hk : k.asKey with
    | error e =>
      rw [hk] at hset
      cases hset
    | ok key =>
      rw [hk] at hset
      cases hset
      rw [set_zip hlen]
      cases hi : keyIndex keys key with
      | some i =>
        obtain ⟨G, hG, hsub⟩ := stands_setField ho hfields ha (hlen ▸ keyIndex_lt hi) (s := s)
          (build_dict (by rw [List.length_set, hlen]))
        refine ⟨_, G, ?_, hG, hsub, Rewrites.set List.mem_cons_self heap _⟩
        rw [setItem_dict ho, hk]
        dsimp only
        rw [hi]
      | none =>
        have hG := hfields.concat (Owns.of_leaf m heap s) (by simp [List.Disjoint])
        rw [List.append_nil] at hG
        refine ⟨_, a :: fs, ?_, Owns.write (lt_length_of_getElem? ho)
          (o := ⟨.dict (keys ++ [key]), fields ++ [_]⟩) hG ha
          (build_dict (by simp [hlen])), fun b hb => hb, Rewrites.set List.mem_cons_self heap _⟩
        rw [setItem_dict ho, hk]
        dsimp only
        rw [hi]

/-- Where there is an item, an assignment succeeds. -/
theorem setItem_of_item {k w : Value} (hw : v.item k = .ok w) (u : Value) :
    ∃ v', v.setItem k u = .ok v' := by
  cases v with
  | scalar s => cases hw
  | list vs =>
    dsimp only [Value.item] at hw
    cases hi : Value.listIndex vs.length k with
    | error e =>
      rw [hi] at hw
      cases hw
    | ok i => exact ⟨.list (vs.set i u), by rw [Value.setItem, hi]; rfl⟩
  | dict es =>
    dsimp only [Value.item] at hw
    cases hk : k.asKey with
    | error e =>
      rw [hk] at hw
      cases hw
    | ok key => exact ⟨.dict (PyDict.set es key u), by rw [Value.setItem, hk]; rfl⟩

/-- `x[k] += n` on the value. -/
theorem increase_ok (h : Stands n heap x v F) {k held more v' : Value} {d : ℤ}
    (hitem : v.item k = .ok held) (hmore : held.addInt d = .ok more)
    (hset : v.setItem k more = .ok v') :
    ∃ heap' F', increase x k d heap = (.ok (), heap') ∧ Stands n heap' x v' F' ∧
      (∀ b ∈ F', b ∈ F) ∧ Rewrites F heap heap' := by
  obtain ⟨m, y, f, -, hget, hy, -⟩ := getItem_ok h hitem
  rw [increase, HeapM.bind_of_ok hget]
  rcases hy.cases with ⟨s, rfl, rfl, -⟩ | ⟨_, _, _, _, _, -, rfl, -, -, -, rfl, -⟩ |
    ⟨_, _, _, _, _, _, -, rfl, -, -, -, -, rfl, -⟩
  · obtain ⟨t, ht, hs⟩ := bind_eq_ok.mp hmore
    cases hs
    have hlift : HeapM.lift (s.addInt d) heap = (.ok t, heap) := by
      rw [HeapM.lift, ht]
      rfl
    show ∃ heap' F', (HeapM.lift (s.addInt d) >>= fun t => setItem x k (.leaf t)) heap = _ ∧ _
    rw [HeapM.bind_of_ok hlift]
    exact setItem_ok h hset
  · cases hmore
  · cases hmore

theorem increase_error (h : Stands n heap x v F) {k held : Value} {d : ℤ} {e : Exc}
    (hitem : v.item k = .ok held) (he : held.addInt d = .error e) :
    increase x k d heap = (.error (.raised e), heap) := by
  obtain ⟨m, y, f, -, hget, hy, -⟩ := getItem_ok h hitem
  rw [increase, HeapM.bind_of_ok hget]
  rcases hy.cases with ⟨s, rfl, rfl, -⟩ | ⟨_, _, _, _, _, -, rfl, -, -, -, rfl, -⟩ |
    ⟨_, _, _, _, _, _, -, rfl, -, -, -, -, rfl, -⟩
  · have hlift : HeapM.lift (s.addInt d) heap = (.error (.raised e), heap) := by
      cases hs : s.addInt d with
      | error e' =>
        rw [Value.addInt, hs] at he
        cases he
        rw [HeapM.lift]
        rfl
      | ok t =>
        rw [Value.addInt, hs] at he
        cases he
    show (HeapM.lift (s.addInt d) >>= fun t => setItem x k (.leaf t)) heap = _
    rw [HeapM.bind_of_error hlift]
  · cases he
    rfl
  · cases he
    rfl

/-! ### Lists -/

theorem append_ok {vs : List Value} (h : Stands n heap x (.list vs) F) (s : Scalar) :
    ∃ heap', append x (.leaf s) heap = (.ok (), heap') ∧
      Stands n heap' x (.list (vs ++ [.scalar s])) F ∧ Rewrites F heap heap' := by
  rcases h.cases with ⟨_, -, hv, -⟩ | ⟨m, a, fields, us, fs, rfl, rfl, ho, hfields, ha, hv, rfl⟩ |
    ⟨_, _, _, _, _, _, -, -, -, -, -, -, hv, -⟩
  · cases hv
  · cases hv
    have hG := hfields.concat (Owns.of_leaf m heap s) (by simp [List.Disjoint])
    rw [List.append_nil] at hG
    refine ⟨_, ?_, Owns.write (lt_length_of_getElem? ho) (o := ⟨.list, fields ++ [.leaf s]⟩) hG ha
      rfl, Rewrites.set List.mem_cons_self heap _⟩
    rw [append, HeapM.bind_of_ok (object_ref ho)]
    rfl
  · cases hv

theorem append_error (h : Stands n heap x v F) (hv : ∀ vs, v ≠ .list vs) (y : PyHandle) :
    append x y heap = (.error (.raised .attributeError), heap) := by
  rcases h.cases with ⟨s, rfl, -, -⟩ | ⟨_, _, _, vs, _, -, -, -, -, -, rfl, -⟩ |
    ⟨_, a, _, _, _, _, -, rfl, ho, -, -, -, -, -⟩
  · rw [append, HeapM.bind_of_ok (object_leaf s heap)]
    rfl
  · exact absurd rfl (hv vs)
  · rw [append, HeapM.bind_of_ok (object_ref ho)]
    rfl

theorem loadAll_ok {limit m : ℕ} (hm : m ≤ limit) {xs : List PyHandle} {vs : List Value}
    {fs : List ℕ} (h : StandsAll m heap xs vs fs) :
    loadAll limit xs heap = (.ok (xs.zip vs), heap) := by
  induction xs generalizing vs fs with
  | nil =>
    cases h.1
    rfl
  | cons x xs ih =>
    obtain ⟨v, f, us, g, hx, hxs, -, rfl, rfl⟩ := OwnsAll.cons_iff.mp h
    rw [loadAll, HeapM.bind_of_ok (load_of_stands hx hm), HeapM.bind_of_ok (ih hxs)]
    rfl

/-- Sorting pairs by their value sorts the values. -/
theorem pySorted_byValue (loaded : List (PyHandle × Value)) :
    pySorted Value.lt (loaded.map Prod.snd) =
      (pySorted (fun p q => Value.lt p.2 q.2) loaded).map (List.map Prod.snd) :=
  pySorted_map Prod.snd (fun _ _ => rfl) loaded

/-- Sorting the handles by what they stand for sorts the values. -/
theorem sort_ok {limit : ℕ} {vs ws : List Value} (h : Stands n heap x (.list vs) F)
    (hn : n ≤ limit) (hws : pySorted Value.lt vs = .ok ws) :
    ∃ heap' F', sort limit x heap = (.ok (), heap') ∧ Stands n heap' x (.list ws) F' ∧
      (∀ b ∈ F', b ∈ F) ∧ Rewrites F heap heap' := by
  rcases h.cases with ⟨_, -, hv, -⟩ | ⟨m, a, fields, us, fs, rfl, rfl, ho, hfields, ha, hv, rfl⟩ |
    ⟨_, _, _, _, _, _, -, -, -, -, -, -, hv, -⟩
  · cases hv
  · cases hv
    have hlen := hfields.length_eq
    have hmap := pySorted_byValue (fields.zip vs)
    rw [List.map_snd_zip hlen.le, hws] at hmap
    cases hsorted : pySorted (fun p q : PyHandle × Value => Value.lt p.2 q.2) (fields.zip vs) with
    | error e =>
      rw [hsorted] at hmap
      cases hmap
    | ok sorted =>
      rw [hsorted] at hmap
      cases hmap
      have hpairs : StandsAll m heap ((fields.zip vs).map Prod.fst)
          ((fields.zip vs).map Prod.snd) fs := by
        rw [List.map_fst_zip hlen.ge, List.map_snd_zip hlen.le]
        exact hfields
      obtain ⟨G, hG, hperm⟩ := hpairs.perm (pySorted_perm hsorted).symm
      refine ⟨_, a :: G, ?_, Owns.write (lt_length_of_getElem? ho)
        (o := ⟨.list, sorted.map Prod.fst⟩) hG (fun hmem => ha (hperm.mem_iff.mp hmem)) rfl, ?_,
        Rewrites.set List.mem_cons_self heap _⟩
      · rw [sort, HeapM.bind_of_ok (object_ref ho)]
        show (loadAll limit fields >>= fun loaded =>
          HeapM.lift (pySorted (fun p q => Value.lt p.2 q.2) loaded) >>= fun sorted =>
          writeObject a ⟨.list, sorted.map Prod.fst⟩) heap = _
        rw [HeapM.bind_of_ok (loadAll_ok (by omega) hfields), hsorted]
        rfl
      · intro b hb
        exact (List.mem_cons.mp hb).elim (fun hb => by simp [hb])
          fun hb => List.mem_cons_of_mem a (hperm.mem_iff.mp hb)
  · cases hv

theorem sort_error {limit : ℕ} {vs : List Value} {e : Exc} (h : Stands n heap x (.list vs) F)
    (hn : n ≤ limit) (he : pySorted Value.lt vs = .error e) :
    sort limit x heap = (.error (.raised e), heap) := by
  rcases h.cases with ⟨_, -, hv, -⟩ | ⟨m, a, fields, us, fs, rfl, rfl, ho, hfields, ha, hv, rfl⟩ |
    ⟨_, _, _, _, _, _, -, -, -, -, -, -, hv, -⟩
  · cases hv
  · cases hv
    have hmap := pySorted_byValue (fields.zip vs)
    rw [List.map_snd_zip hfields.length_eq.le, he] at hmap
    have hsorted : pySorted (fun p q : PyHandle × Value => Value.lt p.2 q.2) (fields.zip vs) =
        .error e := by
      cases hs : pySorted (fun p q : PyHandle × Value => Value.lt p.2 q.2) (fields.zip vs) with
      | error e' =>
        rw [hs] at hmap
        cases hmap
        rfl
      | ok sorted =>
        rw [hs] at hmap
        cases hmap
    rw [sort, HeapM.bind_of_ok (object_ref ho)]
    show (loadAll limit fields >>= fun loaded =>
      HeapM.lift (pySorted (fun p q => Value.lt p.2 q.2) loaded) >>= fun sorted =>
      writeObject a ⟨.list, sorted.map Prod.fst⟩) heap = _
    rw [HeapM.bind_of_ok (loadAll_ok (by omega) hfields), hsorted]
    rfl
  · cases hv

/-! ### Dictionaries -/

theorem popItem_ok {es : PyDict} (h : Stands n heap x (.dict es) F) (k : Scalar) :
    ∃ heap' F', popItem x k heap = (.ok (), heap') ∧ Stands n heap' x (.dict (es.pop k)) F' ∧
      (∀ b ∈ F', b ∈ F) ∧ Rewrites F heap heap' := by
  rcases h.cases with ⟨_, -, hv, -⟩ | ⟨_, _, _, _, _, -, -, -, -, -, hv, -⟩ |
    ⟨m, a, keys, fields, vs, fs, rfl, rfl, ho, hfields, ha, hlen, hv, rfl⟩
  · cases hv
  · cases hv
  · cases hv
    have hrun : popItem (.ref a) k heap =
        match keyIndex keys k with
        | some i => (.ok (), heap.set a ⟨.dict (keys.eraseIdx i), fields.eraseIdx i⟩)
        | none => (.ok (), heap) := by
      rw [popItem, HeapM.bind_of_ok (object_ref ho)]
      dsimp only
      cases keyIndex keys k <;> rfl
    rw [hrun, pop_zip hlen]
    cases hi : keyIndex keys k with
    | none => exact ⟨heap, a :: fs, rfl, h, fun b hb => hb, rfl, fun _ _ => rfl⟩
    | some i =>
      obtain ⟨G, hG, hsub⟩ := hfields.eraseIdx i
      have hlt := keyIndex_lt hi
      refine ⟨_, a :: G, rfl, Owns.write (lt_length_of_getElem? ho)
        (o := ⟨.dict (keys.eraseIdx i), fields.eraseIdx i⟩) hG (fun hmem => ha (hsub a hmem))
        (build_dict ?_), ?_, Rewrites.set List.mem_cons_self heap _⟩
      · rw [List.length_eraseIdx_of_lt hlt, List.length_eraseIdx_of_lt (hlen ▸ hlt), hlen]
      · intro b hb
        exact (List.mem_cons.mp hb).elim (fun hb => by simp [hb])
          fun hb => List.mem_cons_of_mem a (hsub b hb)

theorem popItem_error (h : Stands n heap x v F) (hv : ∀ es, v ≠ .dict es) (k : Scalar) :
    popItem x k heap = (.error (.raised .attributeError), heap) := by
  rcases h.cases with ⟨s, rfl, -, -⟩ | ⟨_, a, _, _, _, -, rfl, ho, -, -, -, -⟩ |
    ⟨_, _, keys, _, vs, _, -, -, -, -, -, -, rfl, -⟩
  · rw [popItem, HeapM.bind_of_ok (object_leaf s heap)]
    rfl
  · rw [popItem, HeapM.bind_of_ok (object_ref ho)]
    rfl
  · exact absurd rfl (hv _)

/-- `x.get(k, default)` is a subscript where the key is there. -/
theorem getOr_dict {es : PyDict} (h : Stands n heap x (.dict es) F) {k : Value} {key : Scalar}
    (hk : k.asKey = .ok key) (y : PyHandle) : getOr x k y heap =
      match PyDict.get? es key with
      | some _ => getItem x k heap
      | none => (.ok y, heap) := by
  rcases h.cases with ⟨_, -, hv, -⟩ | ⟨_, _, _, _, _, -, -, -, -, -, hv, -⟩ |
    ⟨m, a, keys, fields, vs, fs, rfl, rfl, ho, hfields, ha, hlen, hv, rfl⟩
  · cases hv
  · cases hv
  · cases hv
    rw [get?_zip hlen, getItem_dict ho, hk]
    rw [getOr, HeapM.bind_of_ok (object_ref ho)]
    show (HeapM.lift k.asKey >>= fun key =>
      match keyIndex keys key with
      | some i => (pure (fields.getD i (.leaf .none)) : HeapM PyHandle)
      | none => pure y) heap = _
    rw [hk]
    show (match keyIndex keys key with
      | some i => (pure (fields.getD i (.leaf .none)) : HeapM PyHandle)
      | none => pure y) heap = _
    dsimp only
    cases hi : keyIndex keys key with
    | none => rfl
    | some i =>
      have hlt : i < vs.length := hlen ▸ keyIndex_lt hi
      rw [Option.bind_some, List.getElem?_eq_getElem hlt]
      rfl

theorem getOr_error (h : Stands n heap x v F) {k d : Value} {e : Exc}
    (he : v.getOr k d = .error e) (y : PyHandle) :
    getOr x k y heap = (.error (.raised e), heap) := by
  rcases h.cases with ⟨s, rfl, rfl, -⟩ | ⟨_, a, _, _, _, -, rfl, ho, -, -, rfl, -⟩ |
    ⟨_, a, keys, _, vs, _, -, rfl, ho, -, -, -, rfl, -⟩
  · cases he
    rw [getOr, HeapM.bind_of_ok (object_leaf s heap)]
    rfl
  · cases he
    rw [getOr, HeapM.bind_of_ok (object_ref ho)]
    rfl
  · dsimp only [Value.getOr] at he
    cases hk : k.asKey with
    | error e' =>
      rw [hk] at he
      cases he
      rw [getOr, HeapM.bind_of_ok (object_ref ho)]
      dsimp only
      rw [hk]
      rfl
    | ok key =>
      rw [hk] at he
      cases he

theorem set_set_str (es : PyDict) (k : String) (v w : Value) :
    PyDict.set (PyDict.set es (.str k) v) (.str k) w = PyDict.set es (.str k) w := by
  induction es with
  | nil => simp [PyDict.set]
  | cons e es ih =>
    by_cases he : e.1 = .str k
    · simp [PyDict.set, he]
    · simp [PyDict.set, he, ih]

theorem setDefault_dict {es : PyDict} (h : Stands n heap x (.dict es) F) (k : String)
    (y : PyHandle) {w : Value} (hw : PyDict.get? es (.str k) = some w) :
    setDefault x (.str k) y heap = getItem x (.str k) heap := by
  rcases h.cases with ⟨_, -, hv, -⟩ | ⟨_, _, _, _, _, -, -, -, -, -, hv, -⟩ |
    ⟨m, a, keys, fields, vs, fs, rfl, rfl, ho, hfields, ha, hlen, hv, rfl⟩
  · cases hv
  · cases hv
  · cases hv
    rw [get?_zip hlen] at hw
    obtain ⟨i, hi, -⟩ := Option.bind_eq_some_iff.mp hw
    rw [getItem_dict ho, setDefault, HeapM.bind_of_ok (object_ref ho)]
    show (match keyIndex keys (.str k) with
      | some i => (pure (fields.getD i (.leaf .none)) : HeapM PyHandle)
      | none => _) heap = match keyIndex keys (.str k) with
        | some i => (.ok (fields.getD i (.leaf .none)), heap)
        | none => _
    rw [hi]
    rfl

/-- `x.setdefault(k, [])` under a new key. -/
theorem setDefault_new {es : PyDict} {k : String} {d m : ℕ}
    (h : Stands (m + 2) heap x (.dict es) F) (hd : heap[d]? = some ⟨.list, []⟩) (hdF : d ∉ F)
    (hget : PyDict.get? es (.str k) = none) :
    ∃ heap', setDefault x (.str k) (.ref d) heap = (.ok (.ref d), heap') ∧
      getItem x (.str k) heap' = (.ok (.ref d), heap') ∧
      Stands (m + 2) heap' x (.dict (PyDict.set es (.str k) (.list []))) (F ++ [d]) ∧
      Rewrites F heap heap' := by
  rcases h.cases with ⟨_, -, hv, -⟩ | ⟨_, _, _, _, _, -, -, -, -, -, hv, -⟩ |
    ⟨m', a, keys, fields, vs, fs, hm, rfl, ho, hfields, ha, hlen, hv, rfl⟩
  · cases hv
  · cases hv
  · obtain rfl : m + 1 = m' := by omega
    cases hv
    rw [get?_zip hlen] at hget
    have hnone : keyIndex keys (.str k) = none := by
      cases hi : keyIndex keys (.str k) with
      | none => rfl
      | some i =>
        have hlt : i < vs.length := hlen ▸ keyIndex_lt hi
        rw [hi, Option.bind_some, List.getElem?_eq_getElem hlt] at hget
        cases hget
    have hlast : keyIndex (keys ++ [.str k]) (.str k) = some keys.length := by
      unfold keyIndex at hnone ⊢
      rw [List.findIdx?_append, hnone]
      simp
    have hdfs : d ∉ fs := fun hmem => hdF (List.mem_cons_of_mem a hmem)
    have hda : d ≠ a := fun heq => hdF (by simp [heq])
    have hempty : Stands (m + 1) heap (.ref d) (.list []) [d] :=
      Owns.ref_iff.mpr ⟨_, [], [], hd, OwnsAll.nil m heap, by simp, rfl, rfl⟩
    have hG := hfields.concat hempty (by simpa [List.Disjoint] using hdfs)
    have hlt := lt_length_of_getElem? ho
    let o : PyObject := ⟨.dict (keys ++ [.str k]), fields ++ [.ref d]⟩
    refine ⟨heap.set a o, ?_, ?_, ?_, Rewrites.set List.mem_cons_self heap o⟩
    · rw [setDefault, HeapM.bind_of_ok (object_ref ho)]
      dsimp only
      rw [hnone]
      rfl
    · have hkey : (Value.str k).asKey = .ok (.str k) := rfl
      rw [getItem_dict (List.getElem?_set_self hlt), hkey]
      dsimp only
      rw [hlast, hlen, hfields.length_eq]
      simp [o]
    · rw [set_zip hlen, hnone]
      refine Owns.write hlt (o := o) hG ?_ (build_dict (by simp [hlen]))
      simp only [List.mem_append, List.mem_singleton, not_or]
      exact ⟨ha, hda.symm⟩

/-- `x.setdefault(k, [])` with a new list: the part under the key, and the dictionary that
has it. -/
theorem setDefault_focus {limit : ℕ} {root : PyHandle} {plug : Value → Option Value}
    {outer : List ℕ} {es : PyDict} {k : String} {d m : ℕ}
    (hfocus : Focus Value.scalar Kind.build limit heap root (m + 2) x plug outer)
    (h : Stands (m + 2) heap x (.dict es) F) (hdisjoint : F.Disjoint outer)
    (hd : heap[d]? = some ⟨.list, []⟩) (hdF : d ∉ F) (hdouter : d ∉ outer) :
    ∃ y f outer' heap', setDefault x (.str k) (.ref d) heap = (.ok y, heap') ∧
      Stands (m + 1) heap' y ((PyDict.get? es (.str k)).getD (.list [])) f ∧
      f.Disjoint outer' ∧ (∀ b ∈ f, b ∈ F ∨ b = d) ∧
      (∀ b ∈ outer', b ∈ outer ∨ b ∈ F ∨ b = d) ∧ Rewrites F heap heap' ∧
      Focus Value.scalar Kind.build limit heap' root (m + 1) y
        (fun u => plug (.dict (PyDict.set es (.str k) u))) outer' := by
  have hplug : (fun u => (Value.setItem (.dict es) (.str k) u).toOption.bind plug) =
      fun u => plug (.dict (PyDict.set es (.str k) u)) := rfl
  cases hget : PyDict.get? es (.str k) with
  | some w =>
    have hitem : (Value.dict es).item (.str k) = .ok w := PyDict.item_eq_ok.mpr hget
    obtain ⟨m', y, f, outer', hm, hrun, hy, hd', hf, hout, hfoc⟩ :=
      getItem_focus hfocus h hdisjoint hitem
    obtain rfl : m + 1 = m' := by omega
    rw [hplug] at hfoc
    refine ⟨y, f, outer', heap, ?_, hy, hd', fun b hb => .inl (hf b hb),
      fun b hb => (hout b hb).imp_right .inl, ⟨rfl, fun _ _ => rfl⟩, hfoc⟩
    rw [← hrun]
    exact setDefault_dict h k (.ref d) hget
  | none =>
    obtain ⟨heap', hrun, hread, hnew, hkeep⟩ := setDefault_new h hd hdF hget
    have hmem : ∀ b, b ∈ F ++ [d] ↔ b ∈ F ∨ b = d := by simp
    have hfocus' := hfocus.transfer fun b hb => hkeep.outside b fun hF => hdisjoint hF hb
    have hdisjoint' : (F ++ [d]).Disjoint outer := by
      intro b hb hout
      rcases (hmem b).mp hb with hb | rfl
      · exact hdisjoint hb hout
      · exact hdouter hout
    have hitem : (Value.dict (PyDict.set es (.str k) (.list []))).item (.str k) =
        .ok (.list []) := PyDict.item_eq_ok.mpr (by rw [PyDict.get?_set_str, if_pos rfl])
    obtain ⟨m', y, f, outer', hm', hread', hy, hd', hf, hout, hfoc⟩ :=
      getItem_focus hfocus' hnew hdisjoint' hitem
    obtain rfl : m + 1 = m' := by omega
    have hsame : (.ref d : PyHandle) = y := by
      rw [hread] at hread'
      exact Except.ok.inj (Prod.mk.inj hread').1
    have hagain : (fun u => (Value.setItem (.dict (PyDict.set es (.str k) (.list [])))
        (.str k) u).toOption.bind plug) = fun u => plug (.dict (PyDict.set es (.str k) u)) := by
      funext u
      show plug (.dict (PyDict.set (PyDict.set es (.str k) (.list [])) (.str k) u)) = _
      rw [set_set_str]
    rw [hagain] at hfoc
    exact ⟨y, f, outer', heap', hsame ▸ hrun, hy, hd', fun b hb => (hmem b).mp (hf b hb),
      fun b hb => (hout b hb).imp_right (hmem b).mp, hkeep, hfoc⟩

theorem setDefault_error (h : Stands n heap x v F) (hv : ∀ es, v ≠ .dict es) (k : Scalar)
    (y : PyHandle) : setDefault x k y heap = (.error (.raised .attributeError), heap) := by
  rcases h.cases with ⟨s, rfl, -, -⟩ | ⟨_, a, _, _, _, -, rfl, ho, -, -, -, -⟩ |
    ⟨_, _, keys, _, vs, _, -, -, -, -, -, -, rfl, -⟩
  · rw [setDefault, HeapM.bind_of_ok (object_leaf s heap)]
    rfl
  · rw [setDefault, HeapM.bind_of_ok (object_ref ho)]
    rfl
  · exact absurd rfl (hv _)

theorem copyObject_ok {limit : ℕ} (h : Stands limit heap x v F) :
    ∃ y heap' F', copyObject limit x heap = (.ok y, heap') ∧ Stands limit heap' y v F' ∧
      heap.length ≤ heap'.length ∧ (∀ a < heap.length, heap'[a]? = heap[a]?) ∧
      ∀ a ∈ F', heap.length ≤ a := by
  obtain ⟨y, c, F', hcopy, hy, hc⟩ := deepcopy_owned (c := ⟨heap, []⟩) h (by simp)
  refine ⟨y, c.heap, F', ?_, hy, hc.grows, hc.keeps, hc.fresh⟩
  rw [copyObject, hcopy]

end Writing

end ECN
