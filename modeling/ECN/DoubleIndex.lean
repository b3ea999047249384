import ECN.OrderedDict

/-!
# Records under two indexes

Records are stored twice, under a primary and under a secondary key. The indexes are
coherent when they hold the same records. Writing a record into both keeps them
coherent exactly when no other record stands under either of its keys; removing a
record by its primary key always does, and so does loading records whose keys are
distinct in both indexes, in any order.
-/
namespace ECN

structure DoubleIndex (κ μ ρ : Type*) [DecidableEq κ] [DecidableEq μ] where
  primary : OrderedDict κ ρ
  secondary : OrderedDict μ ρ

namespace DoubleIndex

variable {κ μ ρ : Type*} [DecidableEq κ] [DecidableEq μ] (f : ρ → κ) (g : ρ → μ)

def empty : DoubleIndex κ μ ρ := ⟨.empty, .empty⟩

/-- Write a record under both keys. -/
def insert (d : DoubleIndex κ μ ρ) (r : ρ) : DoubleIndex κ μ ρ :=
  ⟨d.primary.set (f r) r, d.secondary.set (g r) r⟩

/-- Remove the record under a primary key from both indexes. -/
def remove (d : DoubleIndex κ μ ρ) (k : κ) : DoubleIndex κ μ ρ :=
  match d.primary.get? k with
  | none => d
  | some r => ⟨d.primary.erase k, d.secondary.erase (g r)⟩

def load (rows : List ρ) : DoubleIndex κ μ ρ := rows.foldl (insert f g) empty

/-- Every record stands under its own primary key. -/
def Keyed (d : DoubleIndex κ μ ρ) : Prop := ∀ k r, d.primary.get? k = some r → f r = k

/-- The secondary index finds exactly the records of the primary one. -/
def Coherent (d : DoubleIndex κ μ ρ) : Prop :=
  ∀ s r, d.secondary.get? s = some r ↔ d.primary.get? (f r) = some r ∧ g r = s

/-- No other record stands under a key of `r`. -/
def Admits (d : DoubleIndex κ μ ρ) (r : ρ) : Prop :=
  (∀ r', d.primary.get? (f r) = some r' → g r' = g r) ∧
    ∀ r', d.secondary.get? (g r) = some r' → f r' = f r

variable {f g} {d : DoubleIndex κ μ ρ}

theorem coherent_empty : (empty : DoubleIndex κ μ ρ).Coherent f g := by
  intro s r
  simp [empty]

theorem Keyed.insert (hd : d.Keyed f) (r : ρ) : (d.insert f g r).Keyed f := by
  intro k r' hr'
  rw [DoubleIndex.insert, OrderedDict.get?_set] at hr'
  split at hr'
  · next hk =>
    obtain rfl := Option.some_inj.mp hr'
    exact hk.symm
  · exact hd k r' hr'

theorem Keyed.remove (hd : d.Keyed f) (k : κ) : (d.remove g k).Keyed f := by
  intro k' r hr
  unfold DoubleIndex.remove at hr
  split at hr
  · exact hd k' r hr
  · rw [OrderedDict.get?_erase] at hr
    split at hr
    · cases hr
    · exact hd k' r hr

theorem Coherent.insert (hd : d.Coherent f g) {r : ρ} (h : d.Admits f g r) :
    (d.insert f g r).Coherent f g := by
  intro s r'
  simp only [DoubleIndex.insert, OrderedDict.get?_set]
  by_cases hs : s = g r
  · subst hs
    rw [if_pos rfl]
    constructor
    · intro heq
      obtain rfl := Option.some_inj.mp heq
      exact ⟨if_pos rfl, rfl⟩
    · rintro ⟨hp, hg⟩
      by_cases hk : f r' = f r
      · rwa [if_pos hk] at hp
      · -- A record with this secondary key is already found under it.
        rw [if_neg hk] at hp
        exact absurd (h.2 r' ((hd (g r) r').mpr ⟨hp, hg⟩)) hk
  · rw [if_neg hs, hd s r']
    by_cases hk : f r' = f r
    · rw [if_pos hk, hk]
      constructor
      · rintro ⟨hp, hg⟩
        exact absurd (hg.symm.trans (h.1 r' hp)) hs
      · rintro ⟨heq, hg⟩
        obtain rfl := Option.some_inj.mp heq
        exact absurd hg.symm hs
    · rw [if_neg hk]

/-- The condition for a write to keep coherence is exact. -/
theorem coherent_insert_iff (hd : d.Coherent f g) (hk : d.Keyed f) (r : ρ) :
    (d.insert f g r).Coherent f g ↔ d.Admits f g r := by
  refine ⟨fun h => ⟨fun r' hp => ?_, fun r' hs => ?_⟩, hd.insert⟩
  · by_contra hne
    have hkey := hk _ _ hp
    -- The replaced record is still found under its own secondary key.
    have hold : (d.insert f g r).secondary.get? (g r') = some r' := by
      rw [DoubleIndex.insert, OrderedDict.get?_set, if_neg hne]
      exact (hd (g r') r').mpr ⟨by rw [hkey, hp], rfl⟩
    have hnew := ((h (g r') r').mp hold).1
    rw [DoubleIndex.insert, OrderedDict.get?_set, if_pos hkey] at hnew
    exact hne (congrArg g (Option.some_inj.mp hnew).symm)
  · by_contra hne
    obtain ⟨hp, hg⟩ := (hd (g r) r').mp hs
    have hlost : (d.insert f g r).secondary.get? (g r) = some r' := by
      refine (h (g r) r').mpr ⟨?_, hg⟩
      rw [DoubleIndex.insert, OrderedDict.get?_set, if_neg hne]
      exact hp
    rw [DoubleIndex.insert, OrderedDict.get?_set, if_pos rfl] at hlost
    exact hne (congrArg f (Option.some_inj.mp hlost).symm)

theorem Coherent.remove (hd : d.Coherent f g) (hk : d.Keyed f) (k : κ) :
    (d.remove g k).Coherent f g := by
  unfold DoubleIndex.remove
  split
  · exact hd
  · next r hr =>
    intro s r'
    have hkey := hk k r hr
    have hsec : d.secondary.get? (g r) = some r := (hd (g r) r).mpr ⟨by rw [hkey, hr], rfl⟩
    rw [OrderedDict.get?_erase, OrderedDict.get?_erase]
    by_cases hs : s = g r
    · rw [if_pos hs]
      refine iff_of_false nofun ?_
      rintro ⟨hp, hg⟩
      split at hp
      · cases hp
      · next hne =>
        have hfound := (hd s r').mpr ⟨hp, hg⟩
        rw [hs, hsec] at hfound
        obtain rfl := Option.some_inj.mp hfound
        exact hne hkey
    · rw [if_neg hs, hd s r']
      refine and_congr_left fun hg => ?_
      by_cases hne : f r' = k
      · rw [if_pos hne, hne, hr]
        refine iff_of_false (fun heq => ?_) nofun
        obtain rfl := Option.some_inj.mp heq
        exact hs hg.symm
      · rw [if_neg hne]

/-! ## Loading -/

theorem load_eq (rows : List ρ) : load f g rows =
    ⟨.ofList (rows.map fun r => (f r, r)), .ofList (rows.map fun r => (g r, r))⟩ := by
  induction rows using List.reverseRecOn with
  | nil => rfl
  | append_singleton rows r ih =>
    have happ : load f g (rows ++ [r]) = (load f g rows).insert f g r := by simp [load]
    rw [happ, ih]
    simp [DoubleIndex.insert, OrderedDict.ofList]

theorem get?_ofList_iff {ν : Type*} [DecidableEq ν] (k : ρ → ν) {rows : List ρ}
    (hnd : (rows.map k).Nodup) (x : ν) (r : ρ) :
    (OrderedDict.ofList (rows.map fun r => (k r, r))).get? x = some r ↔ r ∈ rows ∧ k r = x := by
  constructor
  · intro h
    have hmem := (OrderedDict.mem_keys_iff _ _).mpr ⟨r, h⟩
    rw [OrderedDict.mem_keys_ofList, List.map_map] at hmem
    obtain ⟨r', hr', rfl⟩ := List.mem_map.mp hmem
    have := OrderedDict.get?_ofList_map k id rows hnd hr'
    obtain rfl := Option.some_inj.mp (h.symm.trans this)
    exact ⟨hr', rfl⟩
  · rintro ⟨hr, rfl⟩
    exact OrderedDict.get?_ofList_map k id rows hnd hr

/-- Rows with distinct keys load into coherent indexes that hold just these rows. -/
theorem coherent_load {rows : List ρ} (hf : (rows.map f).Nodup) (hg : (rows.map g).Nodup) :
    (load f g rows).Coherent f g := by
  intro s r
  rw [load_eq, get?_ofList_iff g hg, get?_ofList_iff f hf]
  simp

theorem get?_primary_load {rows : List ρ} (hf : (rows.map f).Nodup) (k : κ) (r : ρ) :
    (load f g rows).primary.get? k = some r ↔ r ∈ rows ∧ f r = k := by
  rw [load_eq, get?_ofList_iff f hf]

theorem keyed_load {rows : List ρ} (hf : (rows.map f).Nodup) : (load f g rows).Keyed f :=
  fun k r hr => ((get?_primary_load hf k r).mp hr).2

/-- The records of coherent indexes have distinct secondary keys. -/
theorem Coherent.nodup_secondary (hd : d.Coherent f g) {rows : List ρ}
    (hf : (rows.map f).Nodup) (hrows : ∀ r ∈ rows, d.primary.get? (f r) = some r) :
    (rows.map g).Nodup := by
  refine List.Nodup.map_on (fun r hr r' hr' heq => ?_) hf.of_map
  have h := (hd (g r) r).mpr ⟨hrows r hr, rfl⟩
  have h' := (hd (g r) r').mpr ⟨hrows r' hr', heq.symm⟩
  exact Option.some_inj.mp (h.symm.trans h')

end DoubleIndex
end ECN
