import Mathlib.Algebra.Order.Floor.Div
import Mathlib.Data.List.Nodup
import Mathlib.Data.Nat.Log
import Mathlib.Data.Set.Function
import Mathlib.Tactic

/-!
# Hash trees over lists

A level is reduced by joining neighbours, an odd last node with itself, until one node is
left. Where the joining function is injective on the pairs that the trees join, a level
without repetitions can be recovered from the one above it, so two trees with a level in
common are the same up to their height. If no leaf is a joined node, they are the same.
-/
namespace ECN.MerkleTree

variable {δ : Type*}

/-- Neighbours; an odd last node is paired with itself. -/
def pairs : List δ → List (δ × δ)
  | [] => []
  | [x] => [(x, x)]
  | x :: y :: rest => (x, y) :: pairs rest

theorem mem_of_mem_pairs {level : List δ} {p : δ × δ} (h : p ∈ pairs level) :
    p.1 ∈ level ∧ p.2 ∈ level := by
  induction level using pairs.induct with
  | case1 => cases h
  | case2 x =>
    obtain rfl := List.mem_singleton.mp h
    simp
  | case3 x y rest ih =>
    rcases List.mem_cons.mp h with rfl | h
    · simp
    · have hrest := ih h
      simp [hrest]

theorem fst_pairs_sublist (level : List δ) : ((pairs level).map Prod.fst).Sublist level := by
  induction level using pairs.induct with
  | case1 => simp [pairs]
  | case2 x => simp [pairs]
  | case3 x y rest ih => exact (ih.cons y).cons_cons x

theorem nodup_pairs {level : List δ} (h : level.Nodup) : (pairs level).Nodup :=
  List.Nodup.of_map Prod.fst (h.sublist (fst_pairs_sublist level))

/-- Without repetitions an odd last node is told from two equal ones. -/
theorem pairs_injective {level level' : List δ} (h : level.Nodup) (h' : level'.Nodup)
    (heq : pairs level = pairs level') : level = level' := by
  induction level using pairs.induct generalizing level' with
  | case1 =>
    match level' with
    | [] => rfl
    | [x'] => cases heq
    | x' :: y' :: rest' => cases heq
  | case2 x =>
    match level' with
    | [] => cases heq
    | [x'] =>
      simp only [pairs, List.cons.injEq, Prod.mk.injEq] at heq
      rw [heq.1.1]
    | x' :: y' :: rest' =>
      simp only [pairs, List.cons.injEq, Prod.mk.injEq] at heq
      obtain ⟨⟨rfl, rfl⟩, -⟩ := heq
      simp at h'
  | case3 x y rest ih =>
    match level' with
    | [] => cases heq
    | [x'] =>
      simp only [pairs, List.cons.injEq, Prod.mk.injEq] at heq
      obtain ⟨⟨rfl, rfl⟩, -⟩ := heq
      simp at h
    | x' :: y' :: rest' =>
      simp only [pairs, List.cons.injEq, Prod.mk.injEq] at heq
      obtain ⟨⟨rfl, rfl⟩, hrest⟩ := heq
      rw [ih (h.of_cons.of_cons) h'.of_cons.of_cons hrest]

/-! ## Levels -/

variable (join : δ → δ → δ)

/-- The level above. -/
def next (level : List δ) : List δ := (pairs level).map fun p => join p.1 p.2

/-- The levels of the tree over the leaves. -/
inductive Level (leaves : List δ) : List δ → Prop
  | leaves : Level leaves leaves
  | up {level : List δ} (below : Level leaves level) (long : 1 < level.length) :
      Level leaves (next join level)

/-- The pairs that the tree over the leaves joins. -/
def Joins (leaves : List δ) (p : δ × δ) : Prop :=
  ∃ level, Level join leaves level ∧ 1 < level.length ∧ p ∈ pairs level

variable {join} {leaves leaves' level : List δ}

theorem length_pairs (level : List δ) : (pairs level).length = (level.length + 1) / 2 := by
  induction level using pairs.induct with
  | case1 => simp [pairs]
  | case2 x => simp [pairs]
  | case3 x y rest ih =>
    simp only [pairs, List.length_cons, ih]
    omega

@[simp] theorem length_next (join : δ → δ → δ) (level : List δ) :
    (next join level).length = (level.length + 1) / 2 := by
  rw [next, List.length_map, length_pairs]

/-- The tree seen from its leaves: a level is the lowest one or lies over the next one. -/
theorem Level.eq_or_above (h : Level join leaves level) :
    level = leaves ∨ 1 < leaves.length ∧ Level join (next join leaves) level := by
  induction h with
  | leaves => exact .inl rfl
  | up below long ih =>
    rcases ih with rfl | ⟨hlong, habove⟩
    · exact .inr ⟨long, .leaves⟩
    · exact .inr ⟨hlong, .up habove long⟩

/-- The joining function can be inverted on the pairs of the set. -/
abbrev Separates (join : δ → δ → δ) (s : Set (δ × δ)) : Prop :=
  Set.InjOn (fun p : δ × δ => join p.1 p.2) s

theorem Level.nodup (h : Level join leaves level) (hleaves : leaves.Nodup)
    (hsep : Separates join {p | Joins join leaves p}) : level.Nodup := by
  induction h with
  | leaves => exact hleaves
  | up below long ih =>
    exact (List.nodup_map_iff_inj_on (nodup_pairs ih)).mpr
      fun p hp q hq hpq => hsep ⟨_, below, long, hp⟩ ⟨_, below, long, hq⟩ hpq

/-- A level above the leaves consists of joined nodes. -/
theorem Level.eq_or_joined (h : Level join leaves level) :
    level = leaves ∨ ∀ x ∈ level, ∃ p, Joins join leaves p ∧ x = join p.1 p.2 := by
  cases h with
  | leaves => exact .inl rfl
  | up below long =>
    refine .inr fun x hx => ?_
    obtain ⟨p, hp, rfl⟩ := List.mem_map.mp hx
    exact ⟨p, ⟨_, below, long, hp⟩, rfl⟩

theorem map_inj_of_injOn {β : Type*} {f : δ → β} {s : Set δ} (hf : s.InjOn f) {xs ys : List δ}
    (hxs : ∀ x ∈ xs, x ∈ s) (hys : ∀ y ∈ ys, y ∈ s) (h : xs.map f = ys.map f) : xs = ys := by
  induction xs generalizing ys with
  | nil => exact (List.map_eq_nil_iff.mp h.symm).symm
  | cons x xs ih =>
    obtain ⟨y, ys, rfl, hxy, hrest⟩ := List.map_eq_cons_iff.mp h.symm
    rw [List.forall_mem_cons] at hxs hys
    rw [hf hys.1 hxs.1 hxy, ih hxs.2 hys.2 hrest.symm]

/-- One level determines the one below it. -/
theorem eq_of_next_eq {level' : List δ} {s : Set (δ × δ)} (hsep : Separates join s)
    (h : level.Nodup) (h' : level'.Nodup) (hs : ∀ p ∈ pairs level, p ∈ s)
    (hs' : ∀ p ∈ pairs level', p ∈ s) (heq : next join level = next join level') :
    level = level' :=
  pairs_injective h h' (map_inj_of_injOn hsep hs hs' heq)

/-- Of two trees with a level in common, one contains the leaves of the other. -/
theorem level_of_common (h : Level join leaves level) (h' : Level join leaves' level)
    (hleaves : leaves.Nodup) (hleaves' : leaves'.Nodup)
    (hsep : Separates join {p | Joins join leaves p ∨ Joins join leaves' p}) :
    Level join leaves leaves' ∨ Level join leaves' leaves := by
  have hsepL : Separates join {p | Joins join leaves p} := hsep.mono fun p hp => .inl hp
  have hsepR : Separates join {p | Joins join leaves' p} := hsep.mono fun p hp => .inr hp
  -- The induction goes down one tree; the other is inverted at each level.
  induction h with
  | leaves => exact .inr h'
  | @up below hbelow hlong ih =>
    generalize habove : next join below = above at h'
    cases h' with
    | leaves => exact .inl (habove ▸ .up hbelow hlong)
    | @up below' hbelow' hlong' =>
      have heq : below = below' := eq_of_next_eq hsep (hbelow.nodup hleaves hsepL)
        (hbelow'.nodup hleaves' hsepR) (fun p hp => .inl ⟨below, hbelow, hlong, hp⟩)
        (fun p hp => .inr ⟨below', hbelow', hlong', hp⟩) habove
      exact ih (heq ▸ hbelow')

/-- The leaves of one tree are no level of another whose leaves are no joined nodes. -/
theorem Level.eq_of_leaves (h : Level join leaves leaves') (hne : leaves' ≠ [])
    (hleaf : ∀ x ∈ leaves', ∀ p, Joins join leaves p → x ≠ join p.1 p.2) : leaves' = leaves := by
  rcases h.eq_or_joined with heq | hjoined
  · exact heq
  · obtain ⟨x, rest, rfl⟩ := List.exists_cons_of_ne_nil hne
    obtain ⟨p, hp, hx⟩ := hjoined x List.mem_cons_self
    exact absurd hx (hleaf x List.mem_cons_self p hp)

/-- Trees over leaves without repetitions that share a level have the same leaves, when the
pairs that they join are told apart and no leaf is a joined node. -/
theorem leaves_eq_of_common (h : Level join leaves level) (h' : Level join leaves' level)
    (hne : leaves ≠ []) (hne' : leaves' ≠ []) (hleaves : leaves.Nodup) (hleaves' : leaves'.Nodup)
    (hsep : Separates join {p | Joins join leaves p ∨ Joins join leaves' p})
    (hleaf : ∀ x, x ∈ leaves ∨ x ∈ leaves' →
      ∀ p, Joins join leaves p ∨ Joins join leaves' p → x ≠ join p.1 p.2) :
    leaves = leaves' := by
  rcases level_of_common h h' hleaves hleaves' hsep with hup | hup
  · exact (hup.eq_of_leaves hne' fun x hx p hp => hleaf x (.inr hx) p (.inl hp)).symm
  · exact hup.eq_of_leaves hne fun x hx p hp => hleaf x (.inl hx) p (.inr hp)

/-! ## The shape of a tree -/

theorem getElem?_pairs (level : List δ) (i : ℕ) :
    (pairs level)[i]? = level[2 * i]?.map fun x => (x, level[2 * i + 1]?.getD x) := by
  induction level using pairs.induct generalizing i with
  | case1 => simp [pairs]
  | case2 x =>
    cases i with
    | zero => simp [pairs]
    | succ i => simp [pairs, Nat.mul_succ]
  | case3 x y rest ih =>
    cases i with
    | zero => simp [pairs]
    | succ i => simp [pairs, Nat.mul_succ, ih]

/-- The levels from the leaves up to a single root: each is half as wide as the one below,
rounded up, and a node joins its two nodes below, the first with itself without a second. -/
structure IsTree (join : δ → δ → δ) (leaves : List δ) (levels : List (List δ)) : Prop where
  lowest : levels[0]? = some leaves
  width : ∀ h level upper, levels[h]? = some level → levels[h + 1]? = some upper →
    upper.length = level.length ⌈/⌉ 2
  node : ∀ h level upper, levels[h]? = some level → levels[h + 1]? = some upper →
    ∀ i < upper.length, ∃ x, level[2 * i]? = some x ∧
      upper[i]? = some (join x (level[2 * i + 1]?.getD x))
  root : ∃ r, levels.getLast? = some [r]
  height : levels.length = Nat.clog 2 leaves.length + 1

theorem isTree_singleton (join : δ → δ → δ) (x : δ) : IsTree join [x] [[x]] where
  lowest := rfl
  width h level upper _ hupper := by simp at hupper
  node h level upper _ hupper := by simp at hupper
  root := ⟨x, rfl⟩
  height := by simp

theorem clog_length_next (join : δ → δ → δ) {level : List δ} (hlong : 1 < level.length) :
    Nat.clog 2 level.length = Nat.clog 2 (next join level).length + 1 := by
  rw [length_next, Nat.clog_of_two_le Nat.one_lt_two hlong]
  rfl

/-- A tree over the next level is one over the level itself. -/
theorem IsTree.cons {level : List δ} {levels : List (List δ)} (hlong : 1 < level.length)
    (h : IsTree join (next join level) levels) : IsTree join level (level :: levels) where
  lowest := rfl
  width height lower upper hlower hupper := by
    cases height with
    | succ height => exact h.width height lower upper hlower hupper
    | zero =>
      obtain rfl := Option.some.inj hlower
      obtain rfl := Option.some.inj (h.lowest.symm.trans hupper)
      rw [length_next, Nat.ceilDiv_eq_add_pred_div]
      omega
  node height lower upper hlower hupper i hi := by
    cases height with
    | succ height => exact h.node height lower upper hlower hupper i hi
    | zero =>
      obtain rfl := Option.some.inj hlower
      obtain rfl := Option.some.inj (h.lowest.symm.trans hupper)
      have hlow : 2 * i < level.length := by
        rw [length_next] at hi
        omega
      refine ⟨level[2 * i], List.getElem?_eq_getElem hlow, ?_⟩
      rw [next, List.getElem?_map, getElem?_pairs, List.getElem?_eq_getElem hlow]
      rfl
  root := by
    obtain ⟨r, hr⟩ := h.root
    refine ⟨r, ?_⟩
    rw [List.getLast?_cons, hr]
    rfl
  height := by
    rw [List.length_cons, h.height, clog_length_next join hlong]

end ECN.MerkleTree
