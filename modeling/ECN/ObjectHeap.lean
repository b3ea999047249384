import Mathlib.Data.List.Nodup
import Mathlib.Tactic

/-!
# Objects that refer to each other

A heap is a list of objects; a field is a leaf or the address of an object. What a handle
stands for is its unfolding, read together with the addresses on the way. A handle whose
unfolding meets no address twice owns these objects: a write elsewhere does not change what
it stands for, a deep copy stands for the same in new objects, and a change inside one part
changes this part of the whole and nothing else.
-/
namespace ECN.ObjectHeap

variable {σ ν τ : Type*}

inductive Handle (ν : Type*) where
  | leaf (x : ν)
  | ref (a : ℕ)
  deriving DecidableEq

/-- A shape and the handles it holds. -/
structure Object (σ ν : Type*) where
  shape : σ
  fields : List (Handle ν)
  deriving DecidableEq

abbrev Heap (σ ν : Type*) := List (Object σ ν)

/-! ## Unfolding -/

/-- Read a list of handles, with all addresses on the way. -/
def readAll (read : Handle ν → Option (τ × List ℕ)) : List (Handle ν) → Option (List τ × List ℕ)
  | [] => some ([], [])
  | x :: xs => do
    let (v, f) ← read x
    let (vs, fs) ← readAll read xs
    return (v :: vs, f ++ fs)

variable (leaf : ν → τ) (node : σ → List τ → Option τ)

/-- What a handle stands for, to some depth. An object whose shape does not fit its fields
stands for nothing. -/
def readBack (heap : Heap σ ν) : ℕ → Handle ν → Option (τ × List ℕ)
  | _, .leaf x => some (leaf x, [])
  | 0, .ref _ => none
  | n + 1, .ref a =>
    (heap[a]?).bind fun o =>
      (readAll (readBack heap n) o.fields).bind fun r =>
        (node o.shape r.1).map fun v => (v, a :: r.2)

/-- The handle stands for `v`, and the objects on the way are met once. -/
def Owns (n : ℕ) (heap : Heap σ ν) (x : Handle ν) (v : τ) (F : List ℕ) : Prop :=
  readBack leaf node heap n x = some (v, F) ∧ F.Nodup

def OwnsAll (n : ℕ) (heap : Heap σ ν) (xs : List (Handle ν)) (vs : List τ) (F : List ℕ) : Prop :=
  readAll (readBack leaf node heap n) xs = some (vs, F) ∧ F.Nodup

variable {leaf node} {n : ℕ} {heap heap' : Heap σ ν}

theorem readAll_cons_eq_some {read : Handle ν → Option (τ × List ℕ)} {x : Handle ν}
    {xs : List (Handle ν)} {ws : List τ} {F : List ℕ} :
    readAll read (x :: xs) = some (ws, F) ↔ ∃ v f vs fs, read x = some (v, f) ∧
      readAll read xs = some (vs, fs) ∧ ws = v :: vs ∧ F = f ++ fs := by
  simp only [readAll, Option.bind_eq_bind, Option.bind_eq_some_iff, Option.pure_def,
    Option.some.injEq, Prod.exists, Prod.mk.injEq]
  constructor
  · rintro ⟨v, f, hx, vs, fs, hxs, hws, hF⟩
    exact ⟨v, f, vs, fs, hx, hxs, hws.symm, hF.symm⟩
  · rintro ⟨v, f, vs, fs, hx, hxs, hws, hF⟩
    exact ⟨v, f, hx, vs, fs, hxs, hws.symm, hF.symm⟩

theorem readAll_append_eq_some {read : Handle ν → Option (τ × List ℕ)}
    {xs ys : List (Handle ν)} {ws : List τ} {F : List ℕ} :
    readAll read (xs ++ ys) = some (ws, F) ↔ ∃ us f vs g, readAll read xs = some (us, f) ∧
      readAll read ys = some (vs, g) ∧ ws = us ++ vs ∧ F = f ++ g := by
  induction xs generalizing ws F with
  | nil =>
    constructor
    · intro h
      exact ⟨[], [], ws, F, rfl, h, rfl, rfl⟩
    · rintro ⟨us, f, vs, g, hus, hvs, rfl, rfl⟩
      cases hus
      exact hvs
  | cons x xs ih =>
    simp only [List.cons_append, readAll_cons_eq_some, ih]
    constructor
    · rintro ⟨v, f, _, _, hx, ⟨us, g, vs, k, hus, hvs, rfl, rfl⟩, rfl, rfl⟩
      exact ⟨v :: us, f ++ g, vs, k, ⟨v, f, us, g, hx, hus, rfl, rfl⟩, hvs, rfl,
        (List.append_assoc f g k).symm⟩
    · rintro ⟨_, _, vs, k, ⟨v, f, us, g, hx, hus, rfl, rfl⟩, hvs, rfl, rfl⟩
      exact ⟨v, f, us ++ vs, g ++ k, hx, ⟨us, g, vs, k, hus, hvs, rfl, rfl⟩, rfl,
        List.append_assoc f g k⟩

theorem length_readAll {read : Handle ν → Option (τ × List ℕ)} {xs : List (Handle ν)}
    {vs : List τ} {F : List ℕ} (h : readAll read xs = some (vs, F)) : vs.length = xs.length := by
  induction xs generalizing vs F with
  | nil =>
    cases h
    rfl
  | cons x xs ih =>
    obtain ⟨v, f, us, fs, -, hxs, rfl, rfl⟩ := readAll_cons_eq_some.mp h
    rw [List.length_cons, List.length_cons, ih hxs]

/-- A reader that agrees on the addresses of one read reads the same. -/
theorem readAll_congr {read read' : Handle ν → Option (τ × List ℕ)} {xs : List (Handle ν)}
    {vs : List τ} {F : List ℕ} (h : readAll read xs = some (vs, F))
    (hread : ∀ x v f, read x = some (v, f) → f ⊆ F → read' x = some (v, f)) :
    readAll read' xs = some (vs, F) := by
  induction xs generalizing vs F with
  | nil => exact h
  | cons x xs ih =>
    obtain ⟨v, f, us, fs, hx, hxs, rfl, rfl⟩ := readAll_cons_eq_some.mp h
    refine readAll_cons_eq_some.mpr ⟨v, f, us, fs,
      hread x v f hx (List.subset_append_left f fs), ?_, rfl, rfl⟩
    exact ih hxs fun y w g hy hg => hread y w g hy (List.subset_append_of_subset_right f hg)

/-- What is read depends on the objects on the way only. -/
theorem readBack_congr {x : Handle ν} {v : τ} {F : List ℕ}
    (h : readBack leaf node heap n x = some (v, F)) (hagree : ∀ a ∈ F, heap'[a]? = heap[a]?) :
    readBack leaf node heap' n x = some (v, F) := by
  induction n generalizing x v F with
  | zero =>
    cases x with
    | leaf x => exact h
    | ref a => cases h
  | succ n ih =>
    cases x with
    | leaf x => exact h
    | ref a =>
      simp only [readBack, Option.bind_eq_some_iff, Option.map_eq_some_iff, Prod.mk.injEq,
        Prod.exists] at h ⊢
      obtain ⟨o, ho, vs, fs, hfields, w, hw, hv, rfl⟩ := h
      refine ⟨o, by rw [hagree a List.mem_cons_self, ho], vs, fs, ?_, w, hw, hv, rfl⟩
      exact readAll_congr hfields fun y w g hy hg =>
        ih hy fun b hb => hagree b (List.mem_cons_of_mem a (hg hb))

theorem mem_readAll_lt {read : Handle ν → Option (τ × List ℕ)} {bound : ℕ}
    (hread : ∀ x v f, read x = some (v, f) → ∀ a ∈ f, a < bound) {xs : List (Handle ν)}
    {vs : List τ} {F : List ℕ} (h : readAll read xs = some (vs, F)) : ∀ a ∈ F, a < bound := by
  induction xs generalizing vs F with
  | nil =>
    cases h
    simp
  | cons x xs ih =>
    obtain ⟨v, f, us, fs, hx, hxs, rfl, rfl⟩ := readAll_cons_eq_some.mp h
    intro a ha
    rcases List.mem_append.mp ha with ha | ha
    · exact hread x v f hx a ha
    · exact ih hxs a ha

theorem mem_readBack_lt {x : Handle ν} {v : τ} {F : List ℕ}
    (h : readBack leaf node heap n x = some (v, F)) : ∀ a ∈ F, a < heap.length := by
  induction n generalizing x v F with
  | zero =>
    cases x with
    | leaf x =>
      cases h
      simp
    | ref a => cases h
  | succ n ih =>
    cases x with
    | leaf x =>
      cases h
      simp
    | ref a =>
      simp only [readBack, Option.bind_eq_some_iff, Option.map_eq_some_iff, Prod.mk.injEq,
        Prod.exists] at h
      obtain ⟨o, ho, vs, fs, hfields, -, -, -, rfl⟩ := h
      intro b hb
      rcases List.mem_cons.mp hb with rfl | hb
      · exact (List.getElem?_eq_some_iff.mp ho).1
      · exact mem_readAll_lt (fun y w g hy => ih hy) hfields b hb

/-! ## Owning -/

namespace Owns

theorem of_leaf (n : ℕ) (heap : Heap σ ν) (x : ν) :
    Owns leaf node n heap (.leaf x) (leaf x) [] := by
  cases n <;> exact ⟨rfl, List.nodup_nil⟩

theorem ref_iff {a : ℕ} {v : τ} {F : List ℕ} : Owns leaf node (n + 1) heap (.ref a) v F ↔
    ∃ o vs fs, heap[a]? = some o ∧ OwnsAll leaf node n heap o.fields vs fs ∧ a ∉ fs ∧
      node o.shape vs = some v ∧ F = a :: fs := by
  simp only [Owns, OwnsAll, readBack, Option.bind_eq_some_iff, Option.map_eq_some_iff,
    Prod.mk.injEq, Prod.exists]
  constructor
  · rintro ⟨⟨o, ho, vs, fs, hfields, w, hw, rfl, rfl⟩, hF⟩
    exact ⟨o, vs, fs, ho, ⟨hfields, (List.nodup_cons.mp hF).2⟩, (List.nodup_cons.mp hF).1, hw, rfl⟩
  · rintro ⟨o, vs, fs, ho, ⟨hfields, hnodup⟩, ha, hv, rfl⟩
    exact ⟨⟨o, ho, vs, fs, hfields, v, hv, rfl, rfl⟩, List.nodup_cons.mpr ⟨ha, hnodup⟩⟩

/-- A write elsewhere changes nothing. -/
theorem frame {x : Handle ν} {v : τ} {F : List ℕ} (h : Owns leaf node n heap x v F)
    (hagree : ∀ a ∈ F, heap'[a]? = heap[a]?) : Owns leaf node n heap' x v F :=
  ⟨readBack_congr h.1 hagree, h.2⟩

theorem lt_length {x : Handle ν} {v : τ} {F : List ℕ} (h : Owns leaf node n heap x v F) :
    ∀ a ∈ F, a < heap.length := mem_readBack_lt h.1

end Owns

theorem readAll_mono {read read' : Handle ν → Option (τ × List ℕ)} {xs : List (Handle ν)}
    {r : List τ × List ℕ} (hread : ∀ x r, read x = some r → read' x = some r)
    (h : readAll read xs = some r) : readAll read' xs = some r := by
  obtain ⟨vs, F⟩ := r
  exact readAll_congr h fun x v f hx _ => hread x (v, f) hx

theorem readBack_succ {x : Handle ν} {r : τ × List ℕ} (h : readBack leaf node heap n x = some r) :
    readBack leaf node heap (n + 1) x = some r := by
  induction n generalizing x r with
  | zero =>
    cases x with
    | leaf x => exact h
    | ref a => cases h
  | succ n ih =>
    cases x with
    | leaf x => exact h
    | ref a =>
      simp only [readBack, Option.bind_eq_some_iff] at h ⊢
      obtain ⟨o, ho, r, hr, hv⟩ := h
      exact ⟨o, ho, r, readAll_mono (fun x r hx => ih hx) hr, hv⟩

/-- More depth does no harm. -/
theorem Owns.mono {m : ℕ} (hm : n ≤ m) {x : Handle ν} {v : τ} {F : List ℕ}
    (h : Owns leaf node n heap x v F) : Owns leaf node m heap x v F := by
  induction m, hm using Nat.le_induction with
  | base => exact h
  | succ m _ ih => exact ⟨readBack_succ ih.1, h.2⟩

namespace OwnsAll

theorem nil (n : ℕ) (heap : Heap σ ν) : OwnsAll leaf node n heap [] [] [] :=
  ⟨rfl, List.nodup_nil⟩

theorem frame {xs : List (Handle ν)} {vs : List τ} {F : List ℕ}
    (h : OwnsAll leaf node n heap xs vs F) (hagree : ∀ a ∈ F, heap'[a]? = heap[a]?) :
    OwnsAll leaf node n heap' xs vs F :=
  ⟨readAll_congr h.1 fun _ _ _ hx hf => readBack_congr hx fun a ha => hagree a (hf ha), h.2⟩

theorem append_iff {xs ys : List (Handle ν)} {ws : List τ} {F : List ℕ} :
    OwnsAll leaf node n heap (xs ++ ys) ws F ↔ ∃ us f vs g, OwnsAll leaf node n heap xs us f ∧
      OwnsAll leaf node n heap ys vs g ∧ f.Disjoint g ∧ ws = us ++ vs ∧ F = f ++ g := by
  simp only [OwnsAll, readAll_append_eq_some]
  constructor
  · rintro ⟨⟨us, f, vs, g, hus, hvs, rfl, rfl⟩, hF⟩
    obtain ⟨hf, hg, hdisjoint⟩ := List.nodup_append'.mp hF
    exact ⟨us, f, vs, g, ⟨hus, hf⟩, ⟨hvs, hg⟩, hdisjoint, rfl, rfl⟩
  · rintro ⟨us, f, vs, g, ⟨hus, hf⟩, ⟨hvs, hg⟩, hdisjoint, rfl, rfl⟩
    exact ⟨⟨us, f, vs, g, hus, hvs, rfl, rfl⟩, List.nodup_append'.mpr ⟨hf, hg, hdisjoint⟩⟩

theorem cons_iff {x : Handle ν} {xs : List (Handle ν)} {ws : List τ} {F : List ℕ} :
    OwnsAll leaf node n heap (x :: xs) ws F ↔ ∃ v f vs g, Owns leaf node n heap x v f ∧
      OwnsAll leaf node n heap xs vs g ∧ f.Disjoint g ∧ ws = v :: vs ∧ F = f ++ g := by
  simp only [OwnsAll, Owns, readAll_cons_eq_some]
  constructor
  · rintro ⟨⟨v, f, vs, g, hv, hvs, rfl, rfl⟩, hF⟩
    obtain ⟨hf, hg, hdisjoint⟩ := List.nodup_append'.mp hF
    exact ⟨v, f, vs, g, ⟨hv, hf⟩, ⟨hvs, hg⟩, hdisjoint, rfl, rfl⟩
  · rintro ⟨v, f, vs, g, ⟨hv, hf⟩, ⟨hvs, hg⟩, hdisjoint, rfl, rfl⟩
    exact ⟨⟨v, f, vs, g, hv, hvs, rfl, rfl⟩, List.nodup_append'.mpr ⟨hf, hg, hdisjoint⟩⟩

/-- The order of the handles does not matter. -/
theorem perm {ps qs : List (Handle ν × τ)} (hperm : ps.Perm qs) {F : List ℕ}
    (h : OwnsAll leaf node n heap (ps.map Prod.fst) (ps.map Prod.snd) F) :
    ∃ G, OwnsAll leaf node n heap (qs.map Prod.fst) (qs.map Prod.snd) G ∧ G.Perm F := by
  induction hperm generalizing F with
  | nil => exact ⟨F, h, .refl F⟩
  | @cons p ps qs _ ih =>
    obtain ⟨v, f, vs, g, hx, hxs, hd, heq, rfl⟩ := cons_iff.mp h
    obtain ⟨rfl, rfl⟩ := List.cons.inj heq
    obtain ⟨G, hG, hGperm⟩ := ih hxs
    refine ⟨f ++ G, cons_iff.mpr ⟨_, f, _, G, hx, hG, ?_, rfl, rfl⟩, hGperm.append_left f⟩
    exact fun b hf hb => hd hf (hGperm.mem_iff.mp hb)
  | swap p q ps =>
    obtain ⟨v, f, vs, g, hx, hxs, hd, heq, rfl⟩ := cons_iff.mp h
    obtain ⟨rfl, rfl⟩ := List.cons.inj heq
    obtain ⟨w, k, ws, l, hy, hys, hd', heq, rfl⟩ := cons_iff.mp hxs
    obtain ⟨rfl, rfl⟩ := List.cons.inj heq
    refine ⟨k ++ (f ++ l), cons_iff.mpr ⟨_, k, _, f ++ l, hy, cons_iff.mpr
      ⟨_, f, _, l, hx, hys, fun b hf hl => hd hf (List.mem_append_right k hl), rfl, rfl⟩,
      fun b hk hb => ?_, rfl, rfl⟩, ?_⟩
    · rcases List.mem_append.mp hb with hb | hb
      · exact hd hb (List.mem_append_left l hk)
      · exact hd' hk hb
    · rw [← List.append_assoc, ← List.append_assoc]
      exact List.perm_append_comm.append_right l
  | trans _ _ ih₁ ih₂ =>
    obtain ⟨G, hG, hGperm⟩ := ih₁ h
    obtain ⟨K, hK, hKperm⟩ := ih₂ hG
    exact ⟨K, hK, hKperm.trans hGperm⟩

theorem length_eq {xs : List (Handle ν)} {vs : List τ} {F : List ℕ}
    (h : OwnsAll leaf node n heap xs vs F) : vs.length = xs.length := length_readAll h.1

/-- One field is replaced. -/
theorem set {xs : List (Handle ν)} {vs : List τ} {F : List ℕ}
    (h : OwnsAll leaf node n heap xs vs F) {i : ℕ} (hi : i < xs.length) {y : Handle ν} {w : τ}
    {G : List ℕ} (hy : Owns leaf node n heap y w G) (hG : G.Disjoint F) :
    ∃ F', OwnsAll leaf node n heap (xs.set i y) (vs.set i w) F' ∧ ∀ b ∈ F', b ∈ F ∨ b ∈ G := by
  induction xs generalizing vs F i with
  | nil => simp at hi
  | cons x xs ih =>
    obtain ⟨v, f, us, g, hx, hxs, hd, rfl, rfl⟩ := cons_iff.mp h
    have hGf : G.Disjoint f := fun b hb hf => hG hb (List.mem_append_left g hf)
    have hGg : G.Disjoint g := fun b hb hg => hG hb (List.mem_append_right f hg)
    cases i with
    | zero =>
      refine ⟨G ++ g, cons_iff.mpr ⟨w, G, us, g, hy, hxs, hGg, rfl, rfl⟩, fun b hb => ?_⟩
      exact (List.mem_append.mp hb).elim .inr fun hb => .inl (List.mem_append_right f hb)
    | succ i =>
      obtain ⟨F', hF', hsub⟩ := ih hxs (by simpa using hi) hGg
      refine ⟨f ++ F', cons_iff.mpr ⟨v, f, _, F', hx, hF', fun b hf hb => ?_, rfl, rfl⟩,
        fun b hb => ?_⟩
      · rcases hsub b hb with hb | hb
        · exact hd hf hb
        · exact hGf hb hf
      · rcases List.mem_append.mp hb with hb | hb
        · exact .inl (List.mem_append_left g hb)
        · exact (hsub b hb).imp_left fun hb => List.mem_append_right f hb

theorem concat {xs : List (Handle ν)} {vs : List τ} {F : List ℕ}
    (h : OwnsAll leaf node n heap xs vs F) {y : Handle ν} {w : τ} {G : List ℕ}
    (hy : Owns leaf node n heap y w G) (hG : G.Disjoint F) :
    OwnsAll leaf node n heap (xs ++ [y]) (vs ++ [w]) (F ++ G) := by
  refine append_iff.mpr ⟨vs, F, [w], G, h, ?_, hG.symm, rfl, rfl⟩
  refine cons_iff.mpr ⟨w, G, [], [], hy, nil n heap, ?_, rfl, by simp⟩
  simp [List.Disjoint]

theorem eraseIdx {xs : List (Handle ν)} {vs : List τ} {F : List ℕ}
    (h : OwnsAll leaf node n heap xs vs F) (i : ℕ) :
    ∃ F', OwnsAll leaf node n heap (xs.eraseIdx i) (vs.eraseIdx i) F' ∧ ∀ b ∈ F', b ∈ F := by
  induction xs generalizing vs F i with
  | nil =>
    cases h.1
    exact ⟨[], nil n heap, by simp⟩
  | cons x xs ih =>
    obtain ⟨v, f, us, g, hx, hxs, hd, rfl, rfl⟩ := cons_iff.mp h
    cases i with
    | zero => exact ⟨g, hxs, fun b hb => List.mem_append_right f hb⟩
    | succ i =>
      obtain ⟨F', hF', hsub⟩ := ih hxs i
      refine ⟨f ++ F', cons_iff.mpr ⟨v, f, _, F', hx, hF', fun b hf hb => hd hf (hsub b hb), rfl,
        rfl⟩, fun b hb => ?_⟩
      exact (List.mem_append.mp hb).elim (fun hb => List.mem_append_left g hb)
        fun hb => List.mem_append_right f (hsub b hb)

theorem lt_length {xs : List (Handle ν)} {vs : List τ} {F : List ℕ}
    (h : OwnsAll leaf node n heap xs vs F) : ∀ a ∈ F, a < heap.length :=
  mem_readAll_lt (fun _ _ _ hx => mem_readBack_lt hx) h.1

end OwnsAll

/-- An object is replaced by one that holds owned parts. -/
theorem Owns.write {a : ℕ} (ha : a < heap.length) {o : Object σ ν} {vs : List τ} {G : List ℕ}
    (h : OwnsAll leaf node n heap o.fields vs G) (hout : a ∉ G) {v : τ}
    (hv : node o.shape vs = some v) : Owns leaf node (n + 1) (heap.set a o) (.ref a) v (a :: G) := by
  refine Owns.ref_iff.mpr ⟨o, vs, G, List.getElem?_set_self ha, ?_, hout, hv, rfl⟩
  refine h.frame fun b hb => List.getElem?_set_ne ?_
  rintro rfl
  exact hout hb

/-! ## Deep copies -/

/-- The heap while a copy is made, with the copy of each object that was met. -/
structure Copying (σ ν : Type*) where
  heap : Heap σ ν
  memo : List (ℕ × ℕ)

def copyAll (copy : Handle ν → Copying σ ν → Option (Handle ν × Copying σ ν)) :
    List (Handle ν) → Copying σ ν → Option (List (Handle ν) × Copying σ ν)
  | [], c => some ([], c)
  | x :: xs, c => do
    let (y, c) ← copy x c
    let (ys, c) ← copyAll copy xs c
    return (y :: ys, c)

/-- Copy a handle with all it refers to, some calls deep. The copy of an object is made and
remembered before its fields are copied. -/
def deepcopy : ℕ → Handle ν → Copying σ ν → Option (Handle ν × Copying σ ν)
  | _, .leaf x, c => some (.leaf x, c)
  | 0, .ref _, _ => none
  | n + 1, .ref a, c =>
    match c.memo.lookup a with
    | some b => some (.ref b, c)
    | none =>
      (c.heap[a]?).bind fun o =>
        let b := c.heap.length
        (copyAll (deepcopy n) o.fields ⟨c.heap ++ [⟨o.shape, []⟩], (a, b) :: c.memo⟩).map
          fun r => (.ref b, ⟨r.2.heap.set b ⟨o.shape, r.1⟩, r.2.memo⟩)

/-- What making a copy of the objects in `F`, with the objects in `F'`, does to the heap. -/
structure Copied (c : Copying σ ν) (F : List ℕ) (c' : Copying σ ν) (F' : List ℕ) : Prop where
  grows : c.heap.length ≤ c'.heap.length
  keeps : ∀ a < c.heap.length, c'.heap[a]? = c.heap[a]?
  memo : ∀ a ∈ c'.memo.map Prod.fst, a ∈ c.memo.map Prod.fst ∨ a ∈ F
  fresh : ∀ a ∈ F', c.heap.length ≤ a

namespace Copied

variable {c c₁ c₂ : Copying σ ν} {F F' G G' : List ℕ}

theorem refl (c : Copying σ ν) (F : List ℕ) : Copied c F c [] where
  grows := le_rfl
  keeps := fun _ _ => rfl
  memo := fun _ ha => .inl ha
  fresh := by simp

theorem trans (h₁ : Copied c F c₁ F') (h₂ : Copied c₁ G c₂ G') :
    Copied c (F ++ G) c₂ (F' ++ G') where
  grows := h₁.grows.trans h₂.grows
  keeps := fun a ha => (h₂.keeps a (ha.trans_le h₁.grows)).trans (h₁.keeps a ha)
  memo := by
    intro a ha
    rcases h₂.memo a ha with ha | ha
    · exact (h₁.memo a ha).imp_right fun hf => List.mem_append_left G hf
    · exact .inr (List.mem_append_right F ha)
  fresh := by
    intro a ha
    rcases List.mem_append.mp ha with ha | ha
    · exact h₁.fresh a ha
    · exact h₁.grows.trans (h₂.fresh a ha)

/-- An object is made and remembered, then its fields are copied, then it gets the copies. -/
theorem object {a : ℕ} {o₀ : Object σ ν}
    (h : Copied ⟨c.heap ++ [o₀], (a, c.heap.length) :: c.memo⟩ F c₂ G) (o : Object σ ν) :
    Copied c (a :: F) ⟨c₂.heap.set c.heap.length o, c₂.memo⟩ (c.heap.length :: G) := by
  let c₁ : Copying σ ν := ⟨c.heap ++ [o₀], (a, c.heap.length) :: c.memo⟩
  have hlength : c₁.heap.length = c.heap.length + 1 := List.length_append
  have hgrows : c₁.heap.length ≤ c₂.heap.length := h.grows
  refine ⟨?_, fun b hb => ?_, fun b hb => ?_, fun b hb => ?_⟩
  · show c.heap.length ≤ (c₂.heap.set _ _).length
    rw [List.length_set]
    omega
  · show (c₂.heap.set c.heap.length o)[b]? = _
    have hb₁ : b < c₁.heap.length := by omega
    rw [List.getElem?_set_ne hb.ne', h.keeps b hb₁]
    exact List.getElem?_append_left hb
  · rcases h.memo b hb with hb | hb
    · rcases List.mem_cons.mp hb with rfl | hb
      · exact .inr List.mem_cons_self
      · exact .inl hb
    · exact .inr (List.mem_cons_of_mem a hb)
  · rcases List.mem_cons.mp hb with rfl | hb
    · exact le_rfl
    · have hfresh : c₁.heap.length ≤ b := h.fresh b hb
      omega

end Copied

theorem copyAll_owned {copy : Handle ν → Copying σ ν → Option (Handle ν × Copying σ ν)}
    (hcopy : ∀ {x v F} {c : Copying σ ν}, Owns leaf node n c.heap x v F →
      (∀ a ∈ F, a ∉ c.memo.map Prod.fst) → ∃ y c' F', copy x c = some (y, c') ∧
        Owns leaf node n c'.heap y v F' ∧ Copied c F c' F')
    {xs : List (Handle ν)} {vs : List τ} {F : List ℕ} {c : Copying σ ν}
    (h : OwnsAll leaf node n c.heap xs vs F) (hmemo : ∀ a ∈ F, a ∉ c.memo.map Prod.fst) :
    ∃ ys c' F', copyAll copy xs c = some (ys, c') ∧ OwnsAll leaf node n c'.heap ys vs F' ∧
      Copied c F c' F' := by
  induction xs generalizing vs F c with
  | nil =>
    cases h.1
    exact ⟨[], c, [], rfl, OwnsAll.nil n c.heap, .refl c []⟩
  | cons x xs ih =>
    obtain ⟨v, f, us, g, hx, hxs, hdisjoint, rfl, rfl⟩ := OwnsAll.cons_iff.mp h
    obtain ⟨y, c₁, f', hy, hyv, hc₁⟩ :=
      hcopy hx fun a ha => hmemo a (List.mem_append_left g ha)
    have hxs₁ : OwnsAll leaf node n c₁.heap xs us g :=
      hxs.frame fun a ha => hc₁.keeps a (hxs.lt_length a ha)
    have hmemo₁ : ∀ a ∈ g, a ∉ c₁.memo.map Prod.fst := by
      intro a ha hmem
      rcases hc₁.memo a hmem with hold | hf
      · exact hmemo a (List.mem_append_right f ha) hold
      · exact hdisjoint hf ha
    obtain ⟨ys, c₂, g', hys, hysv, hc₂⟩ := ih hxs₁ hmemo₁
    have hyv₂ : Owns leaf node n c₂.heap y v f' :=
      hyv.frame fun a ha => hc₂.keeps a (hyv.lt_length a ha)
    have hdisjoint' : f'.Disjoint g' := by
      intro a hf hg
      have hlt := hyv.lt_length a hf
      have hge := hc₂.fresh a hg
      omega
    refine ⟨y :: ys, c₂, f' ++ g', ?_, ?_, hc₁.trans hc₂⟩
    · simp only [copyAll, hy, hys, Option.bind_eq_bind, Option.bind_some, Option.pure_def]
    · exact OwnsAll.cons_iff.mpr ⟨v, f', us, g', hyv₂, hysv, hdisjoint', rfl, rfl⟩

/-- A deep copy of an owned handle stands for the same, in new objects only; no object that
was there is written. -/
theorem deepcopy_owned {x : Handle ν} {v : τ} {F : List ℕ} {c : Copying σ ν}
    (h : Owns leaf node n c.heap x v F) (hmemo : ∀ a ∈ F, a ∉ c.memo.map Prod.fst) :
    ∃ y c' F', deepcopy n x c = some (y, c') ∧ Owns leaf node n c'.heap y v F' ∧
      Copied c F c' F' := by
  induction n generalizing x v F c with
  | zero =>
    cases x with
    | leaf x =>
      cases h.1
      exact ⟨.leaf x, c, [], rfl, Owns.of_leaf 0 c.heap x, .refl c []⟩
    | ref a => cases h.1
  | succ n ih =>
    cases x with
    | leaf x =>
      cases h.1
      exact ⟨.leaf x, c, [], rfl, Owns.of_leaf (n + 1) c.heap x, .refl c []⟩
    | ref a =>
      obtain ⟨o, vs, fs, ho, hfields, ha, hv, rfl⟩ := Owns.ref_iff.mp h
      have hlookup : c.memo.lookup a = none := by
        rw [List.lookup_eq_none_iff]
        intro e he
        have hne : e.1 ≠ a := fun heq =>
          hmemo a List.mem_cons_self (heq ▸ List.mem_map_of_mem he)
        simpa using hne.symm
      let c₁ : Copying σ ν := ⟨c.heap ++ [⟨o.shape, []⟩], (a, c.heap.length) :: c.memo⟩
      have hfields₁ : OwnsAll leaf node n c₁.heap o.fields vs fs :=
        hfields.frame fun b hb => List.getElem?_append_left (hfields.lt_length b hb)
      have hmemo₁ : ∀ b ∈ fs, b ∉ c₁.memo.map Prod.fst := by
        intro b hb hmem
        rcases List.mem_cons.mp hmem with rfl | hmem
        · exact ha hb
        · exact hmemo b (List.mem_cons_of_mem a hb) hmem
      obtain ⟨ys, c₂, G, hys, hysv, hc₂⟩ := copyAll_owned (fun hx hm => ih hx hm) hfields₁ hmemo₁
      have hlength : c₁.heap.length = c.heap.length + 1 := List.length_append
      have hgrows := hc₂.grows
      have hout : c.heap.length ∉ G := by
        intro hmem
        have hfresh := hc₂.fresh _ hmem
        omega
      refine ⟨.ref c.heap.length, _, c.heap.length :: G, ?_,
        Owns.write (o := ⟨o.shape, ys⟩) (by omega) hysv hout hv, hc₂.object ⟨o.shape, ys⟩⟩
      simp only [deepcopy, hlookup, ho, Option.bind_some]
      rw [hys, Option.map_some]

/-! ## Changing a part -/

variable (leaf node)

/-- `x` is a part of `root`: whatever `x` comes to stand for, as long as the objects in
`outer` stay, `root` stands for the whole with this part. -/
def Focus (n : ℕ) (heap : Heap σ ν) (root : Handle ν) (m : ℕ) (x : Handle ν)
    (plug : τ → Option τ) (outer : List ℕ) : Prop :=
  ∀ heap' w F v, (∀ a ∈ outer, heap'[a]? = heap[a]?) → Owns leaf node m heap' x w F →
    F.Disjoint outer → plug w = some v →
    ∃ F', Owns leaf node n heap' root v F' ∧ ∀ a ∈ F', a ∈ outer ∨ a ∈ F

variable {leaf node}

theorem Focus.whole (n : ℕ) (heap : Heap σ ν) (x : Handle ν) :
    Focus leaf node n heap x n x some [] := by
  intro heap' w F v _ hown _ hplug
  cases hplug
  exact ⟨F, hown, fun a ha => .inr ha⟩

theorem Focus.transfer {m : ℕ} {root x : Handle ν} {plug : τ → Option τ} {outer : List ℕ}
    (h : Focus leaf node n heap root m x plug outer)
    (hagree : ∀ a ∈ outer, heap'[a]? = heap[a]?) :
    Focus leaf node n heap' root m x plug outer := by
  intro heap'' w F v hagree' hown hdisjoint hplug
  exact h heap'' w F v (fun a ha => (hagree' a ha).trans (hagree a ha)) hown hdisjoint hplug

/-- Each of the parts can change by itself: what it comes to stand for takes its place, as long
as the objects of the others stay. -/
theorem OwnsAll.part {xs : List (Handle ν)} {vs : List τ} {G : List ℕ}
    (h : OwnsAll leaf node n heap xs vs G) {i : ℕ} {w : τ} (hw : vs[i]? = some w) :
    ∃ y f rest, xs[i]? = some y ∧ Owns leaf node n heap y w f ∧ f.Disjoint rest ∧
      (∀ b, b ∈ G ↔ b ∈ rest ∨ b ∈ f) ∧
      ∀ heap' u g, (∀ b ∈ rest, heap'[b]? = heap[b]?) → Owns leaf node n heap' y u g →
        g.Disjoint rest →
        ∃ G', OwnsAll leaf node n heap' xs (vs.set i u) G' ∧ ∀ b, b ∈ G' ↔ b ∈ rest ∨ b ∈ g := by
  induction xs generalizing vs G i with
  | nil =>
    have hnil : vs = [] := List.eq_nil_of_length_eq_zero h.length_eq
    rw [hnil] at hw
    cases hw
  | cons x xs ih =>
    obtain ⟨v, f, us, g, hx, hxs, hd, rfl, rfl⟩ := cons_iff.mp h
    cases i with
    | zero =>
      obtain rfl : v = w := Option.some.inj hw
      refine ⟨x, f, g, rfl, hx, hd, fun b => List.mem_append.trans or_comm, ?_⟩
      intro heap' u k hagree hu hk
      exact ⟨k ++ g, cons_iff.mpr ⟨u, k, us, g, hu, hxs.frame hagree, hk, rfl, rfl⟩,
        fun b => List.mem_append.trans or_comm⟩
    | succ i =>
      obtain ⟨y, f', rest, hy, hown, hd', hmem, hput⟩ := ih hxs hw
      refine ⟨y, f', f ++ rest, hy, hown, fun b hb hrest => ?_, fun b => ?_, ?_⟩
      · rcases List.mem_append.mp hrest with hrest | hrest
        · exact hd hrest ((hmem b).mpr (.inr hb))
        · exact hd' hb hrest
      · rw [List.mem_append, List.mem_append, hmem, or_assoc]
      · intro heap' u k hagree hu hk
        obtain ⟨G', hG', hmem'⟩ := hput heap' u k
          (fun b hb => hagree b (List.mem_append_right f hb)) hu
          fun b hb hrest => hk hb (List.mem_append_right f hrest)
        have hx' := hx.frame fun b hb => hagree b (List.mem_append_left rest hb)
        refine ⟨f ++ G', cons_iff.mpr ⟨v, f, us.set i u, G', hx', hG', fun b hf hb => ?_, rfl, rfl⟩,
          fun b => ?_⟩
        · rcases (hmem' b).mp hb with hb | hb
          · exact hd hf ((hmem b).mpr (.inl hb))
          · exact hk hb (List.mem_append_left rest hf)
        · rw [List.mem_append, List.mem_append, hmem', or_assoc]

/-- A field of a part is a part. -/
theorem Focus.field {m a : ℕ} {root : Handle ν} {plug : τ → Option τ} {outer : List ℕ}
    (h : Focus leaf node n heap root (m + 1) (.ref a) plug outer) {o : Object σ ν}
    (ho : heap[a]? = some o) {vs : List τ} {G : List ℕ}
    (hall : OwnsAll leaf node m heap o.fields vs G) (ha : a ∉ G)
    (hdisjoint : (a :: G).Disjoint outer) {i : ℕ} {w : τ} (hw : vs[i]? = some w) :
    ∃ y f outer', o.fields[i]? = some y ∧ Owns leaf node m heap y w f ∧ f.Disjoint outer' ∧
      (∀ b ∈ f, b ∈ a :: G) ∧ (∀ b ∈ outer', b ∈ outer ∨ b ∈ a :: G) ∧
      Focus leaf node n heap root m y (fun u => (node o.shape (vs.set i u)).bind plug) outer' := by
  obtain ⟨y, f, rest, hy, hown, hd, hmem, hput⟩ := hall.part hw
  have hf : ∀ b ∈ f, b ∈ G := fun b hb => (hmem b).mpr (.inr hb)
  have hrest : ∀ b ∈ rest, b ∈ G := fun b hb => (hmem b).mpr (.inl hb)
  refine ⟨y, f, outer ++ a :: rest, hy, hown, ?_, fun b hb => List.mem_cons_of_mem a (hf b hb),
    ?_, ?_⟩
  · intro b hb hout
    simp only [List.mem_append, List.mem_cons] at hout
    rcases hout with hout | rfl | hout
    · exact hdisjoint (List.mem_cons_of_mem a (hf b hb)) hout
    · exact ha (hf b hb)
    · exact hd hb hout
  · intro b hb
    simp only [List.mem_append, List.mem_cons] at hb ⊢
    exact hb.imp_right fun hb => hb.imp_right (hrest b)
  · intro heap' u g t hagree hu hg hplug
    obtain ⟨part, hpart, hplug⟩ := Option.bind_eq_some_iff.mp hplug
    obtain ⟨G', hall', hmem'⟩ := hput heap' u g (fun b hb => hagree b (by simp [hb])) hu
      fun b hb hmem => hg hb (by simp [hmem])
    have ha' : a ∉ G' := by
      intro hmem
      rcases (hmem' a).mp hmem with hmem | hmem
      · exact ha (hrest a hmem)
      · exact hg hmem (by simp)
    have hown' : Owns leaf node (m + 1) heap' (.ref a) part (a :: G') :=
      Owns.ref_iff.mpr ⟨o, _, _, (hagree a (by simp)).trans ho, hall', ha', hpart, rfl⟩
    have hdisjoint' : (a :: G').Disjoint outer := by
      intro b hb hout
      rcases List.mem_cons.mp hb with rfl | hb
      · exact hdisjoint List.mem_cons_self hout
      · rcases (hmem' b).mp hb with hb | hb
        · exact hdisjoint (List.mem_cons_of_mem a (hrest b hb)) hout
        · exact hg hb (List.mem_append_left _ hout)
    obtain ⟨F', hroot, hF'⟩ := h heap' part _ t
      (fun b hb => hagree b (List.mem_append_left _ hb)) hown' hdisjoint' hplug
    refine ⟨F', hroot, fun b hb => ?_⟩
    rcases hF' b hb with hb | hb
    · exact .inl (List.mem_append_left _ hb)
    · rcases List.mem_cons.mp hb with rfl | hb
      · exact .inl (by simp)
      · exact ((hmem' b).mp hb).imp_left fun hb => by simp [hb]

/-! ## What can be reached -/

/-- The objects reached from some handles. -/
inductive Reaches (heap : Heap σ ν) (roots : List (Handle ν)) : ℕ → Prop
  | root {a : ℕ} (h : .ref a ∈ roots) : Reaches heap roots a
  | field {a b : ℕ} {o : Object σ ν} (h : Reaches heap roots a) (ho : heap[a]? = some o)
      (hb : .ref b ∈ o.fields) : Reaches heap roots b

/-- A set of objects that refer to no object outside it. -/
def Closed (heap : Heap σ ν) (P : ℕ → Prop) : Prop :=
  ∀ a o b, P a → heap[a]? = some o → .ref b ∈ o.fields → P b

theorem Reaches.closed (heap : Heap σ ν) (roots : List (Handle ν)) :
    Closed heap (Reaches heap roots) := fun _ _ _ h ho hb => .field h ho hb

theorem Reaches.of_closed {roots : List (Handle ν)} {P : ℕ → Prop} (hP : Closed heap P)
    (hroots : ∀ a, .ref a ∈ roots → P a) {a : ℕ} (h : Reaches heap roots a) : P a := by
  induction h with
  | root h => exact hroots _ h
  | field _ ho hb ih => exact hP _ _ _ ih ho hb

theorem OwnsAll.closed {xs : List (Handle ν)} {vs : List τ} {F : List ℕ}
    (hown : ∀ {x v f}, Owns leaf node n heap x v f →
      (∀ a, x = .ref a → a ∈ f) ∧ Closed heap fun a => a ∈ f)
    (h : OwnsAll leaf node n heap xs vs F) :
    (∀ a, .ref a ∈ xs → a ∈ F) ∧ Closed heap fun a => a ∈ F := by
  induction xs generalizing vs F with
  | nil =>
    cases h.1
    simp [Closed]
  | cons x xs ih =>
    obtain ⟨v, f, us, g, hx, hxs, -, rfl, rfl⟩ := cons_iff.mp h
    obtain ⟨hroot, hclosed⟩ := hown hx
    obtain ⟨hroots, hcloseds⟩ := ih hxs
    constructor
    · intro a ha
      rcases List.mem_cons.mp ha with ha | ha
      · exact List.mem_append_left g (hroot a ha.symm)
      · exact List.mem_append_right f (hroots a ha)
    · intro a o b ha ho hb
      rcases List.mem_append.mp ha with ha | ha
      · exact List.mem_append_left g (hclosed a o b ha ho hb)
      · exact List.mem_append_right f (hcloseds a o b ha ho hb)

/-- All that is reached from a handle is what it owns. -/
theorem Owns.closed {x : Handle ν} {v : τ} {F : List ℕ} (h : Owns leaf node n heap x v F) :
    (∀ a, x = .ref a → a ∈ F) ∧ Closed heap fun a => a ∈ F := by
  induction n generalizing x v F with
  | zero =>
    cases x with
    | leaf x =>
      cases h.1
      simp [Closed]
    | ref a => cases h.1
  | succ n ih =>
    cases x with
    | leaf x =>
      cases h.1
      simp [Closed]
    | ref a =>
      obtain ⟨o, vs, fs, ho, hall, -, -, rfl⟩ := ref_iff.mp h
      obtain ⟨hroots, hclosed⟩ := OwnsAll.closed ih hall
      constructor
      · intro b hb
        cases hb
        exact List.mem_cons_self
      · intro b o' c hb ho' hc
        rcases List.mem_cons.mp hb with rfl | hb
        · obtain rfl : o = o' := Option.some.inj (ho.symm.trans ho')
          exact List.mem_cons_of_mem b (hroots c hc)
        · exact List.mem_cons_of_mem a (hclosed b o' c hb ho' hc)

end ECN.ObjectHeap
