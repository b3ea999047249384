import ECN.CanonicalJson

/-!
# Keys that compare

A sort raises exactly when two of its elements do not compare, as long as comparing is
symmetric and transitive. Scalars compare when both are strings or both are numbers, so a
dictionary prints when its values do and its keys are of one kind.
-/
namespace ECN

/-! ## Sorting with a comparison that can raise -/

section Sorting

variable {α : Type} {lt : α → α → Except Exc Bool} {R : α → α → Prop}

theorem insertSorted_ok_iff (hlt : ∀ a b, R a b ↔ ∃ less, lt a b = .ok less)
    (htrans : ∀ a b c, R a b → R b c → R a c) {x : α} {ys : List α} (hys : ys.Pairwise R) :
    (∃ zs, insertSorted lt x ys = .ok zs) ↔ ∀ y ∈ ys, R x y := by
  induction ys with
  | nil => simp [insertSorted]
  | cons y ys ih =>
    obtain ⟨hy, hrest⟩ := List.pairwise_cons.mp hys
    rw [List.forall_mem_cons]
    constructor
    · rintro ⟨zs, hzs⟩
      obtain ⟨less, hless, -⟩ := bind_eq_ok.mp hzs
      have hxy : R x y := (hlt x y).mpr ⟨less, hless⟩
      exact ⟨hxy, fun z hz => htrans x y z hxy (hy z hz)⟩
    · rintro ⟨hxy, hxrest⟩
      obtain ⟨less, hless⟩ := (hlt x y).mp hxy
      simp only [insertSorted, hless, bind, Except.bind]
      cases less with
      | true => exact ⟨_, rfl⟩
      | false =>
        obtain ⟨zs, hzs⟩ := (ih hrest).mpr hxrest
        rw [hzs]
        exact ⟨_, rfl⟩

theorem pySorted_ok_iff (hlt : ∀ a b, R a b ↔ ∃ less, lt a b = .ok less)
    (hsymm : ∀ {a b}, R a b → R b a) (htrans : ∀ a b c, R a b → R b c → R a c) (xs : List α) :
    (∃ zs, pySorted lt xs = .ok zs) ↔ xs.Pairwise R := by
  suffices h : ∀ acc : List α, acc.Pairwise R →
      ((∃ zs, xs.foldlM (fun sorted x => insertSorted lt x sorted) acc = .ok zs) ↔
        (acc ++ xs).Pairwise R) from h [] .nil
  induction xs with
  | nil =>
    intro acc hacc
    rw [List.append_nil]
    exact iff_of_true ⟨acc, rfl⟩ hacc
  | cons x xs ih =>
    intro acc hacc
    have hmiddle : (acc ++ x :: xs).Pairwise R ↔ (x :: acc ++ xs).Pairwise R :=
      List.perm_middle.pairwise_iff hsymm
    have hnext {mid : List α} (hmid : insertSorted lt x acc = .ok mid) :
        (∃ zs, xs.foldlM (fun sorted x => insertSorted lt x sorted) mid = .ok zs) ↔
          (acc ++ x :: xs).Pairwise R := by
      have hperm := insertSorted_perm hmid
      have hx := (insertSorted_ok_iff hlt htrans hacc).mp ⟨mid, hmid⟩
      rw [hmiddle, ih mid ((hperm.pairwise_iff hsymm).mpr (List.pairwise_cons.mpr ⟨hx, hacc⟩))]
      exact (hperm.append_right xs).pairwise_iff hsymm
    simp only [List.foldlM_cons, bind_eq_ok]
    constructor
    · rintro ⟨zs, mid, hmid, hzs⟩
      exact (hnext hmid).mp ⟨zs, hzs⟩
    · intro h
      have hx : ∀ y ∈ acc, R x y := fun y hy =>
        (List.pairwise_cons.mp (hmiddle.mp h)).1 y (List.mem_append_left xs hy)
      obtain ⟨mid, hmid⟩ := (insertSorted_ok_iff hlt htrans hacc).mpr hx
      obtain ⟨zs, hzs⟩ := (hnext hmid).mpr h
      exact ⟨zs, mid, hmid, hzs⟩

end Sorting

/-! ## Scalars -/

namespace Scalar

/-- `a < b` raises nothing. -/
def Comparable (a b : Scalar) : Prop := ∃ less, a.lt b = .ok less

theorem comparable_iff {a b : Scalar} : a.Comparable b ↔
    (∃ s t, a = .str s ∧ b = .str t) ∨ (a.num.isSome = true ∧ b.num.isSome = true) := by
  cases a <;> cases b <;> simp [Comparable, lt, num]

instance (a b : Scalar) : Decidable (a.Comparable b) :=
  match h : a.lt b with
  | .ok less => isTrue ⟨less, h⟩
  | .error e => isFalse fun ⟨less, hless⟩ => by
    rw [h] at hless
    cases hless

theorem Comparable.symm {a b : Scalar} (h : a.Comparable b) : b.Comparable a := by
  rw [comparable_iff] at h ⊢
  exact h.imp (fun ⟨s, t, hs, ht⟩ => ⟨t, s, ht, hs⟩) And.symm

instance : Std.Symm Comparable := ⟨fun _ _ => Comparable.symm⟩

theorem Comparable.trans {a b c : Scalar} (h : a.Comparable b) (h' : b.Comparable c) :
    a.Comparable c := by
  rw [comparable_iff] at h h' ⊢
  rcases h with ⟨s, t, rfl, rfl⟩ | h
  · rcases h' with ⟨_, u, -, rfl⟩ | h'
    · exact .inl ⟨s, u, rfl, rfl⟩
    · cases h'.1
  · rcases h' with ⟨_, u, rfl, -⟩ | h'
    · cases h.2
    · exact .inr ⟨h.1, h'.2⟩

theorem comparable_str {a : Scalar} {s : String} : a.Comparable (.str s) ↔ ∃ t, a = .str t := by
  cases a <;> simp [comparable_iff, num]

/-- Of all scalars only a NaN differs from itself. -/
theorem comparable_self {a : Scalar} (h : a.eq a = false) : a.Comparable a := by
  cases a with
  | none => cases h
  | str s => exact ⟨_, rfl⟩
  | bool b => exact comparable_iff.mpr (.inr ⟨rfl, rfl⟩)
  | int n => exact comparable_iff.mpr (.inr ⟨rfl, rfl⟩)
  | float x => exact comparable_iff.mpr (.inr ⟨rfl, rfl⟩)

theorem pySorted_ok_iff_pairwise (xs : List Scalar) :
    (∃ zs, pySorted Scalar.lt xs = .ok zs) ↔ xs.Pairwise Comparable := by
  refine pySorted_ok_iff (R := Comparable) ?_ Comparable.symm (fun _ _ _ => Comparable.trans) xs
  exact fun _ _ => Iff.rfl

end Scalar

/-! ## Dictionaries -/

namespace PyDict

theorem keys_set_of_isSome {d : PyDict} {k : Scalar} (h : (d.get? k).isSome = true) (v : Value) :
    (d.set k v).map Prod.fst = d.map Prod.fst := by
  induction d with
  | nil => cases h
  | cons e es ih =>
    by_cases he : e.1.eq k = true
    · simp [set, he]
    · have hrest : (get? es k).isSome = true := by simpa [get?, he] using h
      simp [set, he, ih hrest]

theorem get?_set_of_isSome {d : PyDict} {k : Scalar} (h : (d.get? k).isSome = true) (v : Value) :
    (d.set k v).get? k = some v := by
  induction d with
  | nil => cases h
  | cons e es ih =>
    by_cases he : e.1.eq k = true
    · simp [set, get?, he]
    · have hrest : (get? es k).isSome = true := by simpa [get?, he] using h
      have hskip : get? (e :: PyDict.set es k v) k = get? (PyDict.set es k v) k := by
        simp [get?, he]
      rw [set, if_neg he, hskip, ih hrest]

theorem set_of_get?_none {d : PyDict} {k : Scalar} (h : d.get? k = none) (v : Value) :
    d.set k v = d ++ [(k, v)] := by
  induction d with
  | nil => rfl
  | cons e es ih =>
    by_cases he : e.1.eq k = true
    · simp [get?, he] at h
    · have hrest : get? es k = none := by simpa [get?, he] using h
      simp [set, he, ih hrest]

end PyDict

/-! ## Values that print -/

namespace Value

variable (py : Interp)

/-- `json.dumps` raises nothing. -/
def Prints (v : Value) : Prop := ∃ s, v.dumps py = .ok s

variable {py}

theorem prints_of_stringKeyed {v : Value} (h : v.stringKeyed = true) : v.Prints py :=
  dumps_ok py v h

theorem dumpsList_ok_iff (vs : List Value) :
    (∃ parts, dumpsList py vs = .ok parts) ↔ ∀ v ∈ vs, v.Prints py := by
  induction vs with
  | nil => simp [dumpsList]
  | cons v vs ih =>
    simp only [dumpsList, bind_eq_ok, pure_eq_ok, List.mem_cons, forall_eq_or_imp, ← ih]
    constructor
    · rintro ⟨parts, s, hs, rest, hrest, -⟩
      exact ⟨⟨s, hs⟩, rest, hrest⟩
    · rintro ⟨⟨s, hs⟩, rest, hrest⟩
      exact ⟨_, s, hs, rest, hrest, rfl⟩

theorem prints_list_iff {vs : List Value} : (Value.list vs).Prints py ↔ ∀ v ∈ vs, v.Prints py := by
  rw [← dumpsList_ok_iff]
  simp only [Prints, dumps, bind_eq_ok, pure_eq_ok]
  constructor
  · rintro ⟨s, parts, hparts, -⟩
    exact ⟨parts, hparts⟩
  · rintro ⟨parts, hparts⟩
    exact ⟨_, parts, hparts, rfl⟩

theorem prints_dict_iff {es : PyDict} : (Value.dict es).Prints py ↔
    (∀ e ∈ es, e.2.Prints py) ∧ (es.map Prod.fst).Pairwise Scalar.Comparable := by
  rw [← Scalar.pySorted_ok_iff_pairwise]
  exact dumps_dict_ok_iff py es

theorem Prints.get? {es : PyDict} {k : Scalar} {v : Value} (h : (Value.dict es).Prints py)
    (hget : PyDict.get? es k = some v) : v.Prints py := by
  obtain ⟨e, he, rfl⟩ := PyDict.get?_mem hget
  exact (prints_dict_iff.mp h).1 e he

/-- Overwriting under a key that is there keeps the keys. -/
theorem Prints.set {es : PyDict} {k : Scalar} {v : Value} (h : (Value.dict es).Prints py)
    (hget : (PyDict.get? es k).isSome = true) (hv : v.Prints py) :
    (Value.dict (PyDict.set es k v)).Prints py := by
  rw [prints_dict_iff] at h ⊢
  rw [PyDict.keys_set_of_isSome hget]
  exact ⟨PyDict.forall_set h.1 hv fun _ _ _ => hv, h.2⟩

theorem prints_set_new_iff {es : PyDict} {k : Scalar} {v : Value} (h : (Value.dict es).Prints py)
    (hget : PyDict.get? es k = Option.none) (hv : v.Prints py) :
    (Value.dict (PyDict.set es k v)).Prints py ↔ ∀ e ∈ es, e.1.Comparable k := by
  rw [prints_dict_iff] at h ⊢
  rw [PyDict.set_of_get?_none hget, List.map_append, List.pairwise_append]
  simp only [List.mem_append, List.mem_singleton, List.map_cons, List.map_nil, List.mem_map]
  constructor
  · rintro ⟨-, -, -, hkeys⟩ e he
    exact hkeys e.1 ⟨e, he, rfl⟩ k rfl
  · intro hkeys
    refine ⟨?_, h.2, List.pairwise_singleton _ k, ?_⟩
    · rintro e (he | rfl)
      · exact h.1 e he
      · exact hv
    · rintro _ ⟨e, he, rfl⟩ _ rfl
      exact hkeys e he

/-- A dictionary that prints and has one string key takes any other. -/
theorem Prints.set_str {es : PyDict} {s : String} {v : Value} (h : (Value.dict es).Prints py)
    (hkeys : ∀ e ∈ es, ∃ t, e.1 = .str t) (hv : v.Prints py) :
    (Value.dict (PyDict.set es (.str s) v)).Prints py := by
  cases hget : PyDict.get? es (.str s) with
  | some w => exact h.set (by rw [hget, Option.isSome_some]) hv
  | none =>
    exact (prints_set_new_iff h hget hv).mpr fun e he => Scalar.comparable_str.mpr (hkeys e he)

theorem Prints.keys_str {es : PyDict} {s : String} (h : (Value.dict es).Prints py)
    (hget : (PyDict.get? es (.str s)).isSome = true) : ∀ e ∈ es, ∃ t, e.1 = .str t := by
  obtain ⟨v, hv⟩ := Option.isSome_iff_exists.mp hget
  have hmem := PyDict.mem_keys_of_get? hv
  intro e he
  by_cases heq : e.1 = .str s
  · exact ⟨s, heq⟩
  · exact Scalar.comparable_str.mp
      ((prints_dict_iff.mp h).2.forall (List.mem_map_of_mem he) hmem heq)

theorem Prints.item {c x v : Value} (hc : c.Prints py) (h : c.item x = .ok v) : v.Prints py := by
  cases c with
  | scalar s => cases h
  | dict es =>
    obtain ⟨k, -, hk⟩ := bind_eq_ok.mp h
    exact hc.get? (PyDict.item_eq_ok.mp hk)
  | list vs =>
    obtain ⟨i, -, hi⟩ := bind_eq_ok.mp h
    rw [← pure_eq_ok.mp hi, List.getD_eq_getElem?_getD]
    cases hget : vs[i]? with
    | none => exact prints_of_stringKeyed rfl
    | some w => exact prints_list_iff.mp hc w (List.mem_of_getElem? hget)

theorem listIndex_lt {size i : ℕ} {x : Value} (h : listIndex size x = .ok i) : i < size := by
  have hposition {n : ℤ} (hn : listIndex.position size n = .ok i) : i < size := by
    unfold listIndex.position at hn
    split_ifs at hn
    · cases hn
      omega
    · cases hn
      omega
  cases x with
  | list vs => cases h
  | dict es => cases h
  | scalar s =>
    cases s with
    | int n => exact hposition h
    | bool b => exact hposition h
    | none => cases h
    | float x => cases h
    | str s => cases h

theorem Prints.setItem {c x v w c' : Value} (hc : c.Prints py) (hv : v.Prints py)
    (hget : c.item x = .ok w) (h : c.setItem x v = .ok c') : c'.Prints py := by
  cases c with
  | scalar s => cases h
  | dict es =>
    obtain ⟨k, hk, hset⟩ := bind_eq_ok.mp h
    obtain ⟨k', hk', hitem⟩ := bind_eq_ok.mp hget
    cases hk.symm.trans hk'
    rw [← pure_eq_ok.mp hset]
    exact hc.set (by rw [PyDict.item_eq_ok.mp hitem, Option.isSome_some]) hv
  | list vs =>
    obtain ⟨i, -, hset⟩ := bind_eq_ok.mp h
    rw [← pure_eq_ok.mp hset]
    refine prints_list_iff.mpr fun u hu => ?_
    rcases List.mem_or_eq_of_mem_set hu with hu | rfl
    · exact prints_list_iff.mp hc u hu
    · exact hv

/-- What is there can be overwritten. -/
theorem setItem_of_item {c x w : Value} (h : c.item x = .ok w) (v : Value) :
    ∃ c', c.setItem x v = .ok c' := by
  cases c with
  | scalar s => cases h
  | dict es =>
    obtain ⟨k, hk, -⟩ := bind_eq_ok.mp h
    exact ⟨_, bind_eq_ok.mpr ⟨k, hk, rfl⟩⟩
  | list vs =>
    obtain ⟨i, hi, -⟩ := bind_eq_ok.mp h
    exact ⟨_, bind_eq_ok.mpr ⟨i, hi, rfl⟩⟩

/-- What was written is read back. -/
theorem item_setItem {c x v w c' : Value} (hget : c.item x = .ok w)
    (h : c.setItem x v = .ok c') : c'.item x = .ok v := by
  cases c with
  | scalar s => cases h
  | dict es =>
    obtain ⟨k, hk, hset⟩ := bind_eq_ok.mp h
    obtain ⟨k', hk', hitem⟩ := bind_eq_ok.mp hget
    cases hk.symm.trans hk'
    rw [← pure_eq_ok.mp hset]
    refine bind_eq_ok.mpr ⟨k, hk, PyDict.item_eq_ok.mpr (PyDict.get?_set_of_isSome ?_ v)⟩
    rw [PyDict.item_eq_ok.mp hitem, Option.isSome_some]
  | list vs =>
    obtain ⟨i, hi, hset⟩ := bind_eq_ok.mp h
    rw [← pure_eq_ok.mp hset]
    refine bind_eq_ok.mpr ⟨i, ?_, ?_⟩
    · rw [List.length_set, hi]
    · have hread : (vs.set i v).getD i Value.none = v := by
        simp [List.getD_eq_getElem?_getD, listIndex_lt hi]
      exact congrArg Except.ok hread

/-! ## Records -/

variable (py) in
/-- A dictionary with string keys that prints. -/
def IsRecord (v : Value) : Prop :=
  v.Prints py ∧ ∃ es, v = .dict es ∧ ∀ e ∈ es, ∃ t, e.1 = .str t

/-- A value that prints and has an item under a string key is a record. -/
theorem Prints.isRecord {v w : Value} {s : String} (hv : v.Prints py)
    (h : v.item (.str s) = .ok w) : v.IsRecord py := by
  cases v with
  | scalar a => cases h
  | list vs => cases h
  | dict es =>
    have hget := PyDict.item_eq_ok.mp (show PyDict.item es (.str s) = .ok w from h)
    exact ⟨hv, es, rfl, hv.keys_str (by rw [hget, Option.isSome_some])⟩

theorem IsRecord.setItem {v x v' : Value} {s : String} (hv : v.IsRecord py) (hx : x.Prints py)
    (h : v.setItem (.str s) x = .ok v') : v'.IsRecord py := by
  obtain ⟨hprints, es, rfl, hkeys⟩ := hv
  obtain rfl := Except.ok.inj h
  exact ⟨hprints.set_str hkeys hx, _, rfl,
    PyDict.forall_set hkeys ⟨s, rfl⟩ fun e he _ => hkeys e he⟩

theorem IsRecord.pop {es : PyDict} (h : (Value.dict es).IsRecord py) (k : Scalar) :
    (Value.dict (PyDict.pop es k)).Prints py := by
  have hsub : (PyDict.pop es k).Sublist es := List.eraseP_sublist
  have hes := prints_dict_iff.mp h.1
  exact prints_dict_iff.mpr ⟨fun e he => hes.1 e (hsub.subset he), hes.2.sublist (hsub.map _)⟩

end Value
end ECN
