import ECN.ComparableKeys
import ECN.SupplyChain

/-!
# Gauges

A gauge measures how large a value is: each container takes a part of a budget, a scalar
needs what is left to reach its own part, and integers may be bounded. Values fit entry by
entry, so a container that is written to fits exactly when what is written does.
-/
namespace ECN

/-- What scalars and containers take of a budget, and a bound on integers. -/
structure Gauge where
  bound : Option ℕ
  leaf : ℕ
  node : ℕ
  leaf_le_node : leaf ≤ node
  one_lt_bound : ∀ b ∈ bound, 1 < b

namespace Gauge

def allows (g : Gauge) : Scalar → Bool
  | .int n => g.bound.all fun b => decide (n.natAbs < b)
  | .none | .bool _ | .float _ | .str _ => true

theorem allows_of_natAbs_le {g : Gauge} {m n : ℤ} (hle : m.natAbs ≤ n.natAbs)
    (h : g.allows (.int n) = true) : g.allows (.int m) = true := by
  unfold allows at h ⊢
  cases hb : g.bound with
  | none => rfl
  | some b =>
    simp only [hb, Option.all_some, decide_eq_true_eq] at h ⊢
    omega

theorem allows_bit {g : Gauge} {n : ℤ} (hn : n.natAbs ≤ 1) : g.allows (.int n) = true := by
  unfold allows
  cases hb : g.bound with
  | none => rfl
  | some b =>
    have hlt : 1 < b := g.one_lt_bound b hb
    simp only [Option.all_some, decide_eq_true_eq]
    omega

end Gauge

/-! ## Entries of a dictionary -/

/-- All keys and values have the property. -/
def Entries (P : Value → Prop) (es : PyDict) : Prop := ∀ e ∈ es, P (.scalar e.1) ∧ P e.2

/-- A write keeps the property when the value has it, and the key when it is new. -/
theorem entries_set_iff {P : Value → Prop} {es : PyDict} {k : Scalar} {v : Value}
    (hes : Entries P es) : Entries P (PyDict.set es k v) ↔
      (PyDict.get? es k = none → P (.scalar k)) ∧ P v := by
  cases hget : PyDict.get? es k with
  | none =>
    rw [PyDict.set_of_get?_none hget]
    constructor
    · intro h
      obtain ⟨hk, hv⟩ := h (k, v) (by simp)
      exact ⟨fun _ => hk, hv⟩
    · rintro ⟨hk, hv⟩ e he
      rcases List.mem_append.mp he with he | he
      · exact hes e he
      · rw [List.mem_singleton.mp he]
        exact ⟨hk rfl, hv⟩
  | some w =>
    have hsome : (PyDict.get? es k).isSome = true := by rw [hget, Option.isSome_some]
    constructor
    · intro h
      obtain ⟨e, he, rfl⟩ := PyDict.get?_mem (PyDict.get?_set_of_isSome hsome v)
      exact ⟨nofun, (h e he).2⟩
    · rintro ⟨-, hv⟩ e he
      have hmem : e.1 ∈ es.map Prod.fst :=
        PyDict.keys_set_of_isSome hsome v ▸ List.mem_map_of_mem he
      obtain ⟨f, hf, hkey⟩ := List.mem_map.mp hmem
      rw [← hkey]
      exact ⟨(hes f hf).1, PyDict.forall_set (fun e he => (hes e he).2) hv (fun _ _ _ => hv) e he⟩

namespace Value

variable {g : Gauge} {n : ℕ}

mutual

/-- The value stays within a budget. -/
def fits (g : Gauge) : Value → ℕ → Bool
  | .scalar s, n => g.allows s && decide (g.leaf ≤ n)
  | .list vs, n => decide (g.node ≤ n) && fitsList g vs (n - g.node)
  | .dict es, n => decide (g.node ≤ n) && fitsItems g es (n - g.node)

def fitsList (g : Gauge) : List Value → ℕ → Bool
  | [], _ => true
  | v :: vs, n => fits g v n && fitsList g vs n

def fitsItems (g : Gauge) : List (Scalar × Value) → ℕ → Bool
  | [], _ => true
  | (k, v) :: es, n => g.allows k && decide (g.leaf ≤ n) && fits g v n && fitsItems g es n

end

def Fits (g : Gauge) (n : ℕ) (v : Value) : Prop := v.fits g n = true

instance (g : Gauge) (n : ℕ) (v : Value) : Decidable (v.Fits g n) :=
  inferInstanceAs (Decidable (_ = true))

theorem fits_scalar_iff {s : Scalar} :
    (Value.scalar s).Fits g n ↔ g.allows s = true ∧ g.leaf ≤ n := by
  simp [Fits, fits]

theorem fitsList_iff (vs : List Value) : fitsList g vs n = true ↔ ∀ v ∈ vs, v.Fits g n := by
  induction vs with
  | nil => simp [fitsList]
  | cons v vs ih => simp [fitsList, ih, Fits]

theorem fitsItems_iff (es : PyDict) : fitsItems g es n = true ↔
    Entries (Fits g n) es := by
  induction es with
  | nil => simp [fitsItems, Entries]
  | cons e es ih =>
    obtain ⟨k, v⟩ := e
    rw [Entries, List.forall_mem_cons, ← Entries, ← ih, fits_scalar_iff]
    simp [fitsItems, Fits, and_assoc]

theorem fits_list_iff {vs : List Value} :
    (Value.list vs).Fits g n ↔ g.node ≤ n ∧ ∀ v ∈ vs, v.Fits g (n - g.node) := by
  rw [← fitsList_iff]
  simp [Fits, fits]

theorem fits_dict_iff {es : PyDict} : (Value.dict es).Fits g n ↔
    g.node ≤ n ∧ Entries (Fits g (n - g.node)) es := by
  rw [← fitsItems_iff]
  simp [Fits, fits]

theorem Fits.leaf_le {v : Value} (h : v.Fits g n) : g.leaf ≤ n := by
  cases v with
  | scalar s => exact (fits_scalar_iff.mp h).2
  | list vs => exact g.leaf_le_node.trans (fits_list_iff.mp h).1
  | dict es => exact g.leaf_le_node.trans (fits_dict_iff.mp h).1

theorem fits_str {s : String} (h : g.leaf ≤ n) : (Value.str s).Fits g n :=
  fits_scalar_iff.mpr ⟨rfl, h⟩

/-! ## One gauge against another -/

section Compare

variable {g' : Gauge} {c : ℕ}

mutual

/-- A gauge that asks for less passes whatever the other one does. -/
theorem fits_of_fits (hbound : g'.bound = Option.none) (hc : 0 < c) (hleaf : c * g'.leaf ≤ g.leaf)
    (hnode : c * g'.node ≤ g.node) :
    ∀ (v : Value) {n m : ℕ}, n ≤ c * m → v.fits g n = true → v.fits g' m = true
  | .scalar s, n, m, hn, h => by
    simp only [fits, Bool.and_eq_true, decide_eq_true_eq] at h ⊢
    refine ⟨?_, Nat.le_of_mul_le_mul_left ((hleaf.trans h.2).trans hn) hc⟩
    cases s with
    | int k => simp [Gauge.allows, hbound]
    | none => rfl
    | bool b => rfl
    | float x => rfl
    | str s => rfl
  | .list vs, n, m, hn, h => by
    simp only [fits, Bool.and_eq_true, decide_eq_true_eq] at h ⊢
    have hle : g'.node ≤ m := Nat.le_of_mul_le_mul_left ((hnode.trans h.1).trans hn) hc
    have hrest : n - g.node ≤ c * (m - g'.node) := by
      rw [Nat.mul_sub]
      omega
    exact ⟨hle, fitsList_of_fitsList hbound hc hleaf hnode vs hrest h.2⟩
  | .dict es, n, m, hn, h => by
    simp only [fits, Bool.and_eq_true, decide_eq_true_eq] at h ⊢
    have hle : g'.node ≤ m := Nat.le_of_mul_le_mul_left ((hnode.trans h.1).trans hn) hc
    have hrest : n - g.node ≤ c * (m - g'.node) := by
      rw [Nat.mul_sub]
      omega
    exact ⟨hle, fitsItems_of_fitsItems hbound hc hleaf hnode es hrest h.2⟩

theorem fitsList_of_fitsList (hbound : g'.bound = Option.none) (hc : 0 < c)
    (hleaf : c * g'.leaf ≤ g.leaf) (hnode : c * g'.node ≤ g.node) :
    ∀ (vs : List Value) {n m : ℕ}, n ≤ c * m → fitsList g vs n = true → fitsList g' vs m = true
  | [], _, _, _, _ => rfl
  | v :: vs, n, m, hn, h => by
    simp only [fitsList, Bool.and_eq_true] at h ⊢
    exact ⟨fits_of_fits hbound hc hleaf hnode v hn h.1,
      fitsList_of_fitsList hbound hc hleaf hnode vs hn h.2⟩

theorem fitsItems_of_fitsItems (hbound : g'.bound = Option.none) (hc : 0 < c)
    (hleaf : c * g'.leaf ≤ g.leaf) (hnode : c * g'.node ≤ g.node) :
    ∀ (es : List (Scalar × Value)) {n m : ℕ}, n ≤ c * m → fitsItems g es n = true →
      fitsItems g' es m = true
  | [], _, _, _, _ => rfl
  | (k, v) :: es, n, m, hn, h => by
    simp only [fitsItems, Bool.and_eq_true, decide_eq_true_eq] at h ⊢
    obtain ⟨⟨⟨-, hk⟩, hv⟩, hes⟩ := h
    refine ⟨⟨⟨?_, Nat.le_of_mul_le_mul_left ((hleaf.trans hk).trans hn) hc⟩,
      fits_of_fits hbound hc hleaf hnode v hn hv⟩,
      fitsItems_of_fitsItems hbound hc hleaf hnode es hn hes⟩
    cases k with
    | int i => simp [Gauge.allows, hbound]
    | none => rfl
    | bool b => rfl
    | float x => rfl
    | str s => rfl

end

end Compare

/-! ## Reading and writing -/

section Writing

variable {es : PyDict} {k : Scalar} {c c' v w x : Value}

theorem Fits.get? (h : (Value.dict es).Fits g n) (hget : PyDict.get? es k = some v) :
    v.Fits g (n - g.node) := by
  obtain ⟨e, he, rfl⟩ := PyDict.get?_mem hget
  exact ((fits_dict_iff.mp h).2 e he).2

theorem Fits.item (h : c.Fits g n) (hget : c.item x = .ok v) : v.Fits g (n - g.node) := by
  cases c with
  | scalar s => cases hget
  | dict es =>
    obtain ⟨k, -, hk⟩ := bind_eq_ok.mp hget
    exact h.get? (PyDict.item_eq_ok.mp hk)
  | list vs =>
    obtain ⟨i, hi, hget⟩ := bind_eq_ok.mp hget
    have hmem : v ∈ vs := by
      have hread : vs[i]? = some v := by
        rw [← pure_eq_ok.mp hget, List.getD_eq_getElem?_getD]
        simp [listIndex_lt hi]
      exact List.mem_of_getElem? hread
    exact (fits_list_iff.mp h).2 v hmem

theorem fits_set_iff (h : (Value.dict es).Fits g n)
    (hk : PyDict.get? es k = Option.none → v.Fits g (n - g.node) →
      (Value.scalar k).Fits g (n - g.node)) :
    (Value.dict (PyDict.set es k v)).Fits g n ↔ v.Fits g (n - g.node) := by
  obtain ⟨hroom, hes⟩ := fits_dict_iff.mp h
  rw [fits_dict_iff, entries_set_iff hes]
  exact ⟨fun h => h.2.2, fun hv => ⟨hroom, fun hnone => hk hnone hv, hv⟩⟩

/-- An element that is there is overwritten. -/
theorem fits_setItem_iff (h : c.Fits g n) (hget : c.item x = .ok w)
    (hset : c.setItem x v = .ok c') :
    c'.Fits g n ↔ v.Fits g (n - g.node) := by
  cases c with
  | scalar s => cases hget
  | dict es =>
    obtain ⟨k, hk, hset⟩ := bind_eq_ok.mp hset
    obtain ⟨k', hk', hitem⟩ := bind_eq_ok.mp hget
    cases hk.symm.trans hk'
    rw [← pure_eq_ok.mp hset]
    exact fits_set_iff h fun hnone _ => by simp [PyDict.item_eq_ok.mp hitem] at hnone
  | list vs =>
    obtain ⟨i, hi, hset⟩ := bind_eq_ok.mp hset
    rw [← pure_eq_ok.mp hset]
    have hvs := fits_list_iff.mp h
    refine ⟨fun h' => (fits_list_iff.mp h').2 v (List.mem_set (listIndex_lt hi) v), fun hv => ?_⟩
    refine fits_list_iff.mpr ⟨hvs.1, fun u hu => ?_⟩
    rcases List.mem_or_eq_of_mem_set hu with hu | rfl
    · exact hvs.2 u hu
    · exact hv

/-- A field of a record is written. -/
theorem fits_setItem_str_iff {s : String} (h : c.Fits g n)
    (hset : c.setItem (.str s) v = .ok c') : c'.Fits g n ↔ v.Fits g (n - g.node) := by
  cases c with
  | scalar s => cases hset
  | list vs => cases hset
  | dict es =>
    obtain rfl := Except.ok.inj hset
    exact fits_set_iff h fun _ hv => fits_str hv.leaf_le

/-- Two fields of a record are written. -/
theorem fits_setItem_twice_iff {a b : String} (hab : a ≠ b) (h : c.Fits g n)
    (hfirst : c.setItem (.str a) v = .ok x) (hsecond : x.setItem (.str b) w = .ok c') :
    c'.Fits g n ↔ v.Fits g (n - g.node) ∧ w.Fits g (n - g.node) := by
  constructor
  · intro hfits
    cases c with
    | scalar s => cases hfirst
    | list vs => cases hfirst
    | dict es =>
      obtain rfl := Except.ok.inj hfirst
      obtain rfl := Except.ok.inj hsecond
      have hv : PyDict.get? (PyDict.set (PyDict.set es (.str a) v) (.str b) w) (.str a) =
          some v := by
        rw [PyDict.get?_set_str, if_neg hab, PyDict.get?_set_str, if_pos rfl]
      have hw : PyDict.get? (PyDict.set (PyDict.set es (.str a) v) (.str b) w) (.str b) =
          some w := by
        rw [PyDict.get?_set_str, if_pos rfl]
      exact ⟨hfits.get? hv, hfits.get? hw⟩
  · rintro ⟨hv, hw⟩
    have hx := (fits_setItem_str_iff h hfirst).mpr hv
    exact (fits_setItem_str_iff hx hsecond).mpr hw

end Writing

end Value

/-! ## Products -/

section Products

variable {g : Gauge} {n : ℕ} {py : Interp} {state new : State} {productId product old : Value}

theorem fits_getProduct (hs : (Value.dict state).Fits g n)
    (h : getProduct py state productId = .ok product) :
    product.Fits g (n - g.node - g.node) := by
  obtain ⟨products, hget, hitem⟩ := getProduct_item py h
  exact (hs.get? hget).item hitem

theorem fits_putProduct_iff (hs : (Value.dict state).Fits g n)
    (hold : getProduct py state productId = .ok old)
    (h : putProduct state productId product = .ok new) :
    (Value.dict new).Fits g n ↔ product.Fits g (n - g.node - g.node) := by
  obtain ⟨products, hget, hitem⟩ := getProduct_item py hold
  simp only [putProduct, bind_eq_ok, pure_eq_ok, PyDict.item_eq_ok, hget] at h
  obtain ⟨_, ⟨⟩, products', hset, rfl⟩ := h
  rw [Value.fits_set_iff hs fun hnone _ => by simp [hget] at hnone]
  exact Value.fits_setItem_iff (hs.get? hget) hitem hset

end Products

end ECN
