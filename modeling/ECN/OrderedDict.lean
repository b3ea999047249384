import Mathlib.Data.List.Nodup
import Mathlib.Data.List.Count
import Mathlib.Algebra.BigOperators.Group.List.Basic
import Mathlib.Tactic

/-!
# Insertion-ordered dictionaries

A dictionary is its list of entries in insertion order, with distinct keys.
Setting a present key keeps its position; a new key goes last. `counter` is the
tally of a list: one entry for each distinct element, in order of first
occurrence.
-/
namespace ECN

variable {κ ν : Type*} [DecidableEq κ]

/-- Replace the value at `k` in place, or append a new entry. -/
def upsert (k : κ) (v : ν) : List (κ × ν) → List (κ × ν)
  | [] => [(k, v)]
  | e :: es => if e.1 = k then (k, v) :: es else e :: upsert k v es

theorem mem_keys_upsert (k : κ) (v : ν) (es : List (κ × ν)) (k' : κ) :
    k' ∈ (upsert k v es).map Prod.fst ↔ k' = k ∨ k' ∈ es.map Prod.fst := by
  induction es with
  | nil => simp [upsert]
  | cons e es ih =>
    by_cases h : e.1 = k
    · simp [upsert, h]
    · simp only [upsert, if_neg h, List.map_cons, List.mem_cons, ih]
      tauto

theorem nodup_upsert (k : κ) (v : ν) {es : List (κ × ν)} (h : (es.map Prod.fst).Nodup) :
    ((upsert k v es).map Prod.fst).Nodup := by
  induction es with
  | nil => simp [upsert]
  | cons e es ih =>
    simp only [List.map_cons, List.nodup_cons] at h
    by_cases he : e.1 = k
    · simpa [upsert, he] using ⟨by simpa [he] using h.1, h.2⟩
    · simp only [upsert, if_neg he, List.map_cons, List.nodup_cons, mem_keys_upsert]
      exact ⟨fun hm => hm.elim he h.1, ih h.2⟩

theorem lookup_cons_ite (e : κ × ν) (es : List (κ × ν)) (k : κ) :
    (e :: es).lookup k = if k = e.1 then some e.2 else es.lookup k := by
  obtain ⟨ek, ev⟩ := e
  by_cases h : k = ek
  · simp [h]
  · have hb : (k == ek) = false := beq_eq_false_iff_ne.mpr h
    simp [List.lookup_cons, hb, h]

theorem lookup_upsert (k : κ) (v : ν) (es : List (κ × ν)) (k' : κ) :
    (upsert k v es).lookup k' = if k' = k then some v else es.lookup k' := by
  induction es with
  | nil => simp [upsert, lookup_cons_ite]
  | cons e es ih =>
    by_cases he : e.1 = k
    · by_cases h : k' = k <;> simp [upsert, lookup_cons_ite, he, h]
    · simp only [upsert, if_neg he, lookup_cons_ite, ih]
      by_cases hk : k' = e.1
      · subst hk
        simp [he]
      · simp [hk]

/-- A dictionary with its keys in insertion order. -/
structure OrderedDict (κ ν : Type*) [DecidableEq κ] where
  entries : List (κ × ν)
  nodup : (entries.map Prod.fst).Nodup

namespace OrderedDict

@[ext] theorem ext {d d' : OrderedDict κ ν} (h : d.entries = d'.entries) : d = d' := by
  cases d
  cases d'
  simpa using h

def empty : OrderedDict κ ν := ⟨[], by simp⟩

instance : Inhabited (OrderedDict κ ν) := ⟨empty⟩

def get? (d : OrderedDict κ ν) (k : κ) : Option ν := d.entries.lookup k

/-- `d.get(k, default)`. -/
def getD (d : OrderedDict κ ν) (k : κ) (v : ν) : ν := (d.get? k).getD v

def keys (d : OrderedDict κ ν) : List κ := d.entries.map Prod.fst

def values (d : OrderedDict κ ν) : List ν := d.entries.map Prod.snd

def isEmpty (d : OrderedDict κ ν) : Bool := d.entries.isEmpty

/-- `d[k] = v`. -/
def set (d : OrderedDict κ ν) (k : κ) (v : ν) : OrderedDict κ ν :=
  ⟨upsert k v d.entries, nodup_upsert k v d.nodup⟩

/-- `d.pop(k, None)`, the dictionary part. -/
def erase (d : OrderedDict κ ν) (k : κ) : OrderedDict κ ν :=
  ⟨d.entries.filter (fun e => e.1 ≠ k), (d.nodup.sublist (List.filter_sublist.map _))⟩

/-- Later pairs overwrite earlier ones, as a dictionary display does. -/
def ofList (es : List (κ × ν)) : OrderedDict κ ν :=
  es.foldl (fun d e => d.set e.1 e.2) empty

@[simp] theorem get?_empty (k : κ) : (empty : OrderedDict κ ν).get? k = none := rfl

@[simp] theorem get?_set (d : OrderedDict κ ν) (k k' : κ) (v : ν) :
    (d.set k v).get? k' = if k' = k then some v else d.get? k' :=
  lookup_upsert k v d.entries k'

@[simp] theorem get?_erase (d : OrderedDict κ ν) (k k' : κ) :
    (d.erase k).get? k' = if k' = k then none else d.get? k' := by
  change (d.entries.filter (fun e => e.1 ≠ k)).lookup k' = _
  unfold get?
  induction d.entries with
  | nil => simp
  | cons e es ih =>
    by_cases he : e.1 = k
    · rw [List.filter_cons_of_neg (by simpa using he), ih, lookup_cons_ite]
      by_cases h : k' = k <;> simp [h, he]
    · rw [List.filter_cons_of_pos (by simpa using he), lookup_cons_ite, lookup_cons_ite, ih]
      by_cases hk : k' = e.1
      · subst hk
        simp [he]
      · simp [hk]

theorem get?_eq_some_iff (d : OrderedDict κ ν) (k : κ) (v : ν) :
    d.get? k = some v ↔ (k, v) ∈ d.entries := by
  obtain ⟨es, hnd⟩ := d
  change es.lookup k = some v ↔ (k, v) ∈ es
  induction es with
  | nil => simp
  | cons e es ih =>
    simp only [List.map_cons, List.nodup_cons] at hnd
    obtain ⟨ek, ev⟩ := e
    rw [lookup_cons_ite, List.mem_cons]
    by_cases hk : k = ek
    · subst hk
      have hout : (k, v) ∉ es := fun hm => hnd.1 (List.mem_map.mpr ⟨(k, v), hm, rfl⟩)
      simp [hout, eq_comm]
    · simp [hk, ih hnd.2]

theorem keys_erase (d : OrderedDict κ ν) (k : κ) : (d.erase k).keys ⊆ d.keys :=
  (List.filter_sublist.map Prod.fst).subset

theorem get?_eq_none_iff (d : OrderedDict κ ν) (k : κ) : d.get? k = none ↔ k ∉ d.keys := by
  rw [Option.eq_none_iff_forall_ne_some]
  simp only [ne_eq, get?_eq_some_iff, keys, List.mem_map, Prod.exists, exists_and_right,
    exists_eq_right, not_exists]

theorem mem_keys_iff (d : OrderedDict κ ν) (k : κ) : k ∈ d.keys ↔ ∃ v, d.get? k = some v := by
  rw [← Option.isSome_iff_exists, Option.isSome_iff_ne_none, ne_eq, get?_eq_none_iff, not_not]

theorem mem_values_iff (d : OrderedDict κ ν) (v : ν) : v ∈ d.values ↔ ∃ k, d.get? k = some v := by
  simp [values, get?_eq_some_iff]

@[simp] theorem mem_keys_set (d : OrderedDict κ ν) (k k' : κ) (v : ν) :
    k' ∈ (d.set k v).keys ↔ k' = k ∨ k' ∈ d.keys :=
  mem_keys_upsert k v d.entries k'

/-- Dictionaries that read alike differ in the order of their entries only. -/
theorem entries_perm {d d' : OrderedDict κ ν} (h : ∀ k, d.get? k = d'.get? k) :
    d.entries.Perm d'.entries := by
  refine (List.perm_ext_iff_of_nodup d.nodup.of_map d'.nodup.of_map).mpr fun e => ?_
  rw [← get?_eq_some_iff, ← get?_eq_some_iff, h]

theorem keys_perm {d d' : OrderedDict κ ν} (h : ∀ k, d.get? k = d'.get? k) :
    d.keys.Perm d'.keys := (entries_perm h).map Prod.fst

/-- A dictionary is its keys, in order, and what is read under them. -/
theorem ext_keys {d d' : OrderedDict κ ν} (hkeys : d.keys = d'.keys)
    (h : ∀ k, d.get? k = d'.get? k) : d = d' := by
  have hlength : d.entries.length = d'.entries.length := by
    simpa [keys] using congrArg List.length hkeys
  refine OrderedDict.ext (List.ext_getElem hlength fun i hi hi' => ?_)
  have hfst : d.entries[i].1 = d'.entries[i].1 := by
    simpa [keys, hi, hi'] using congrArg (fun ks => ks[i]?) hkeys
  have hread : d.get? d.entries[i].1 = some d.entries[i].2 :=
    (get?_eq_some_iff d _ _).mpr (List.getElem_mem hi)
  have hread' : d'.get? d'.entries[i].1 = some d'.entries[i].2 :=
    (get?_eq_some_iff d' _ _).mpr (List.getElem_mem hi')
  rw [h, hfst, hread'] at hread
  exact Prod.ext hfst (Option.some.inj hread).symm

/-- Overwriting keeps the keys and their order. -/
theorem keys_set (d : OrderedDict κ ν) {k : κ} {v : ν} (h : d.get? k = some v) (w : ν) :
    (d.set k w).keys = d.keys := by
  obtain ⟨es, hnd⟩ := d
  change es.lookup k = some v at h
  change (upsert k w es).map Prod.fst = es.map Prod.fst
  clear hnd
  induction es with
  | nil => simp at h
  | cons e es ih =>
    by_cases he : e.1 = k
    · simp [upsert, he]
    · rw [lookup_cons_ite, if_neg (Ne.symm he)] at h
      simp [upsert, he, ih h]

/-- A later pair wins, so the last pair of a key is the one that is read. -/
theorem get?_ofList_append (es : List (κ × ν)) (k k' : κ) (v : ν) :
    (ofList (es ++ [(k, v)])).get? k' = if k' = k then some v else (ofList es).get? k' := by
  simp [ofList]

theorem get?_ofList_map {α : Type*} (f : α → κ) (g : α → ν) (xs : List α)
    (hnd : (xs.map f).Nodup) {x : α} (hx : x ∈ xs) :
    (ofList (xs.map fun a => (f a, g a))).get? (f x) = some (g x) := by
  induction xs using List.reverseRecOn with
  | nil => simp at hx
  | append_singleton xs a ih =>
    rw [List.map_append, List.map_cons, List.map_nil, get?_ofList_append]
    rw [List.map_append, List.nodup_append] at hnd
    rcases List.mem_append.mp hx with hx | hx
    · have hne : f x ≠ f a := fun he =>
        hnd.2.2 (f x) (List.mem_map_of_mem hx) (f a) (by simp) he
      rw [if_neg hne]
      exact ih hnd.1 hx
    · rw [List.mem_singleton.mp hx, if_pos rfl]

theorem upsert_of_not_mem {k : κ} {es : List (κ × ν)} (h : k ∉ es.map Prod.fst) (v : ν) :
    upsert k v es = es ++ [(k, v)] := by
  induction es with
  | nil => rfl
  | cons e es ih =>
    rw [List.map_cons, List.mem_cons, not_or] at h
    rw [upsert, if_neg (Ne.symm h.1), ih h.2, List.cons_append]

/-- Pairs with distinct keys are the entries of their dictionary. -/
theorem entries_ofList {es : List (κ × ν)} (h : (es.map Prod.fst).Nodup) :
    (ofList es).entries = es := by
  induction es using List.reverseRecOn with
  | nil => rfl
  | append_singleton es e ih =>
    rw [List.map_append, List.nodup_append] at h
    have hnew : e.1 ∉ es.map Prod.fst := fun hmem => h.2.2 _ hmem _ (by simp) rfl
    have hset : (ofList (es ++ [e])).entries = upsert e.1 e.2 (ofList es).entries := by
      simp [ofList, set]
    rw [hset, ih h.1, upsert_of_not_mem hnew]

theorem mem_keys_ofList (es : List (κ × ν)) (k : κ) :
    k ∈ (ofList es).keys ↔ k ∈ es.map Prod.fst := by
  induction es using List.reverseRecOn with
  | nil => simp [ofList, empty, keys]
  | append_singleton es e ih =>
    have hset : ofList (es ++ [e]) = (ofList es).set e.1 e.2 := by simp [ofList]
    rw [hset, mem_keys_set, ih]
    simp [or_comm]

/-- What is read comes from one of the pairs. -/
theorem mem_of_get?_ofList {es : List (κ × ν)} {k : κ} {v : ν} (h : (ofList es).get? k = some v) :
    ∃ e ∈ es, e.1 = k ∧ e.2 = v := by
  induction es using List.reverseRecOn with
  | nil => simp [ofList] at h
  | append_singleton es e ih =>
    rw [get?_ofList_append] at h
    by_cases hk : k = e.1
    · rw [if_pos hk] at h
      exact ⟨e, by simp, hk.symm, Option.some_inj.mp h⟩
    · rw [if_neg hk] at h
      obtain ⟨e', he', hk', hv'⟩ := ih h
      exact ⟨e', List.mem_append_left _ he', hk', hv'⟩

/-- Setting a key changes no value exactly when it has that value. -/
theorem values_set_iff (d : OrderedDict κ ν) (k : κ) (v : ν) :
    (d.set k v).values = d.values ↔ d.get? k = some v := by
  change (upsert k v d.entries).map Prod.snd = d.entries.map Prod.snd ↔ d.entries.lookup k = some v
  induction d.entries with
  | nil => simp [upsert]
  | cons e es ih =>
    rw [lookup_cons_ite, upsert]
    by_cases hk : e.1 = k
    · rw [if_pos hk, if_pos hk.symm, List.map_cons, List.map_cons, List.cons_eq_cons,
        and_iff_left rfl, Option.some_inj, eq_comm]
    · rw [if_neg hk, if_neg (Ne.symm hk), List.map_cons, List.map_cons, List.cons_inj_right, ih]

/-- A key that is there takes its value with it. -/
theorem length_values_erase (d : OrderedDict κ ν) {k : κ} (h : k ∈ d.keys) :
    (d.erase k).values.length < d.values.length := by
  obtain ⟨e, he, rfl⟩ := List.mem_map.mp h
  rw [values, values, List.length_map, List.length_map, erase]
  exact List.length_filter_lt_length_iff_exists.mpr ⟨e, he, by simp⟩

/-! ## Mapped values -/

section Map

variable {μ : Type*} (f : ν → μ)

/-- The same keys with mapped values. -/
def map (d : OrderedDict κ ν) : OrderedDict κ μ :=
  ⟨d.entries.map fun e => (e.1, f e.2), by
    rw [List.map_map]
    exact d.nodup⟩

theorem upsert_map (k : κ) (v : ν) (es : List (κ × ν)) :
    upsert k (f v) (es.map fun e => (e.1, f e.2)) = (upsert k v es).map fun e => (e.1, f e.2) := by
  induction es with
  | nil => rfl
  | cons e es ih =>
    by_cases he : e.1 = k
    · simp [upsert, he]
    · simp [upsert, he, ih]

theorem set_map (d : OrderedDict κ ν) (k : κ) (v : ν) : (d.map f).set k (f v) = (d.set k v).map f :=
  ext (upsert_map f k v d.entries)

theorem erase_map (d : OrderedDict κ ν) (k : κ) : (d.map f).erase k = (d.erase k).map f := by
  refine ext ?_
  simp [erase, map, List.filter_map, Function.comp_def]

theorem values_map (d : OrderedDict κ ν) : (d.map f).values = d.values.map f := by
  simp [values, map]

theorem get?_map (d : OrderedDict κ ν) (k : κ) : (d.map f).get? k = (d.get? k).map f := by
  change (d.entries.map fun e => (e.1, f e.2)).lookup k = (d.entries.lookup k).map f
  induction d.entries with
  | nil => rfl
  | cons e es ih =>
    rw [List.map_cons, lookup_cons_ite, lookup_cons_ite, ih]
    split <;> rfl

end Map

/-! ## Tallies -/

/-- One more occurrence of `k`. -/
def increment (d : OrderedDict κ ℕ) (k : κ) : OrderedDict κ ℕ := d.set k (d.getD k 0 + 1)

theorem getD_increment (d : OrderedDict κ ℕ) (k k' : κ) :
    (d.increment k).getD k' 0 = d.getD k' 0 + if k = k' then 1 else 0 := by
  rw [increment, getD, get?_set]
  by_cases h : k = k'
  · subst h
    simp
  · simp [h, Ne.symm h, getD]

/-- `Counter(xs)`. -/
def counter (xs : List κ) : OrderedDict κ ℕ := xs.foldl increment empty

theorem counter_concat (xs : List κ) (x : κ) :
    counter (xs ++ [x]) = (counter xs).increment x := by
  simp [counter]

theorem get?_counter (xs : List κ) (k : κ) :
    (counter xs).get? k = if k ∈ xs then some (xs.count k) else none := by
  induction xs using List.reverseRecOn with
  | nil => simp [counter]
  | append_singleton xs x ih =>
    rw [counter_concat, increment, get?_set, getD]
    by_cases hk : k = x
    · subst hk
      rw [ih]
      by_cases hm : k ∈ xs
      · simp [hm]
      · simp [hm, List.count_eq_zero.mpr hm]
    · rw [if_neg hk, ih]
      simp [hk, List.count_append, Ne.symm hk]

theorem getD_counter (xs : List κ) (k : κ) : (counter xs).getD k 0 = xs.count k := by
  rw [getD, get?_counter]
  by_cases hm : k ∈ xs
  · simp [hm]
  · simp [hm, List.count_eq_zero.mpr hm]

theorem mem_entries_counter (xs : List κ) (k : κ) (n : ℕ) :
    (k, n) ∈ (counter xs).entries ↔ k ∈ xs ∧ xs.count k = n := by
  rw [← get?_eq_some_iff, get?_counter]
  by_cases hm : k ∈ xs <;> simp [hm]

theorem sum_values_upsert (k : κ) (n : ℕ) (es : List (κ × ℕ)) :
    ((upsert k n es).map Prod.snd).sum + (es.lookup k).getD 0 = (es.map Prod.snd).sum + n := by
  induction es with
  | nil => simp [upsert]
  | cons e es ih =>
    by_cases he : e.1 = k
    · have hlk : (e :: es).lookup k = some e.2 := by simp [lookup_cons_ite, he]
      simp only [upsert, if_pos he, List.map_cons, List.sum_cons, hlk, Option.getD_some]
      omega
    · have hlk : (e :: es).lookup k = es.lookup k := by simp [lookup_cons_ite, Ne.symm he]
      simp only [upsert, if_neg he, List.map_cons, List.sum_cons, hlk]
      omega

theorem sum_values_counter (xs : List κ) : (counter xs).values.sum = xs.length := by
  induction xs using List.reverseRecOn with
  | nil => simp [counter, empty, values]
  | append_singleton xs x ih =>
    have hsum := sum_values_upsert x ((counter xs).getD x 0 + 1) (counter xs).entries
    rw [counter_concat, List.length_append, List.length_singleton, ← ih]
    change ((upsert x _ (counter xs).entries).map Prod.snd).sum = _
    unfold getD get? values at *
    omega

end OrderedDict
end ECN
