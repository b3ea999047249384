import Mathlib.Data.List.Infix
import Mathlib.Tactic

/-!
# Runs of a deterministic step function

`Throughout` says that a property holds in every state of a run, and `StepsMeet`
that a condition on state and input holds before every step. A property that a step
keeps under the condition holds throughout every run that meets it.
-/
namespace ECN

variable {σ ι : Type*}

/-- `P` holds in every state, the first and the last included. -/
def Throughout (step : σ → ι → σ) (P : σ → Prop) : σ → List ι → Prop
  | s, [] => P s
  | s, i :: is => P s ∧ Throughout step P (step s i) is

/-- `ok` holds before every step. -/
def StepsMeet (step : σ → ι → σ) (ok : σ → ι → Prop) : σ → List ι → Prop
  | _, [] => True
  | s, i :: is => ok s i ∧ StepsMeet step ok (step s i) is

variable {step : σ → ι → σ} {P Q : σ → Prop} {ok ok' : σ → ι → Prop} {s : σ} {is : List ι}

instance Throughout.decidable [DecidablePred P] : ∀ s is, Decidable (Throughout step P s is)
  | s, [] => inferInstanceAs (Decidable (P s))
  | s, i :: is =>
    have := Throughout.decidable (step s i) is
    inferInstanceAs (Decidable (P s ∧ Throughout step P (step s i) is))

instance StepsMeet.decidable [∀ s i, Decidable (ok s i)] :
    ∀ s is, Decidable (StepsMeet step ok s is)
  | _, [] => inferInstanceAs (Decidable True)
  | s, i :: is =>
    have := StepsMeet.decidable (step s i) is
    inferInstanceAs (Decidable (ok s i ∧ StepsMeet step ok (step s i) is))

theorem Throughout.head (h : Throughout step P s is) : P s := by
  cases is with
  | nil => exact h
  | cons i is => exact h.1

theorem Throughout.mono (hPQ : ∀ s, P s → Q s) (h : Throughout step P s is) :
    Throughout step Q s is := by
  induction is generalizing s with
  | nil => exact hPQ s h
  | cons i is ih => exact ⟨hPQ s h.1, ih h.2⟩

/-- The states of a run are those after its prefixes. -/
theorem throughout_iff_prefix :
    Throughout step P s is ↔ ∀ pre, pre <+: is → P (pre.foldl step s) := by
  induction is generalizing s with
  | nil => simp [Throughout]
  | cons i is ih =>
    simp only [Throughout, ih, List.prefix_cons_iff]
    constructor
    · rintro ⟨h0, h⟩ pre (rfl | ⟨pre, rfl, hpre⟩)
      · exact h0
      · exact h pre hpre
    · intro h
      exact ⟨h [] (.inl rfl), fun pre hpre => h (i :: pre) (.inr ⟨pre, rfl, hpre⟩)⟩

/-- The rule for runs: a step that meets the condition keeps the property. -/
theorem Throughout.of_stepsMeet (hstep : ∀ s i, P s → ok s i → P (step s i)) (h0 : P s)
    (h : StepsMeet step ok s is) : Throughout step P s is := by
  induction is generalizing s with
  | nil => exact h0
  | cons i is ih => exact ⟨h0, ih (hstep s i h0 h.1) h.2⟩

/-- What every step keeps holds throughout every run. -/
theorem Throughout.of_step (hstep : ∀ s i, P s → P (step s i)) (h0 : P s) (is : List ι) :
    Throughout step P s is := by
  induction is generalizing s with
  | nil => exact h0
  | cons i is ih => exact ⟨h0, ih (hstep s i h0)⟩

theorem StepsMeet.mono (hok : ∀ s i, ok s i → ok' s i) (h : StepsMeet step ok s is) :
    StepsMeet step ok' s is := by
  induction is generalizing s with
  | nil => trivial
  | cons i is ih => exact ⟨hok s i h.1, ih h.2⟩

theorem StepsMeet.and (h : StepsMeet step ok s is) (h' : StepsMeet step ok' s is) :
    StepsMeet step (fun s i => ok s i ∧ ok' s i) s is := by
  induction is generalizing s with
  | nil => trivial
  | cons i is ih => exact ⟨⟨h.1, h'.1⟩, ih h.2 h'.2⟩

theorem Throughout.last (h : Throughout step P s is) : P (is.foldl step s) :=
  throughout_iff_prefix.mp h is List.prefix_rfl

/-- The condition holds before each single step. -/
theorem StepsMeet.split {past rest : List ι} {i : ι}
    (h : StepsMeet step ok s (past ++ i :: rest)) : ok (past.foldl step s) i := by
  induction past generalizing s with
  | nil => exact h.1
  | cons j past ih => exact ih h.2

theorem stepsMeet_append {js : List ι} : StepsMeet step ok s (is ++ js) ↔
    StepsMeet step ok s is ∧ StepsMeet step ok (is.foldl step s) js := by
  induction is generalizing s with
  | nil => simp [StepsMeet]
  | cons i is ih => simp only [List.cons_append, StepsMeet, List.foldl_cons, ih, and_assoc]

/-- A run that misses the condition somewhere has a first such step. -/
theorem exists_first_miss (h : ¬ StepsMeet step ok s is) : ∃ past i rest,
    is = past ++ i :: rest ∧ StepsMeet step ok s past ∧ ¬ ok (past.foldl step s) i := by
  induction is generalizing s with
  | nil => exact absurd trivial h
  | cons i is ih =>
    by_cases hok : ok s i
    · obtain ⟨past, j, rest, rfl, hpast, hmiss⟩ := ih fun hrest => h ⟨hok, hrest⟩
      exact ⟨i :: past, j, rest, rfl, ⟨hok, hpast⟩, hmiss⟩
    · exact ⟨[], i, is, rfl, trivial, hok⟩

/-- Two conditions that agree on good inputs in the states of an invariant hold of the same
runs of good inputs. The invariant has to be kept only by the steps that meet them. -/
theorem stepsMeet_congr_kept {I : σ → Prop} {G : ι → Prop}
    (hI : ∀ s i, I s → G i → ok' s i → I (step s i))
    (h : ∀ s i, I s → G i → (ok s i ↔ ok' s i)) (hs : I s) (his : ∀ i ∈ is, G i) :
    StepsMeet step ok s is ↔ StepsMeet step ok' s is := by
  induction is generalizing s with
  | nil => exact Iff.rfl
  | cons i is ih =>
    rw [List.forall_mem_cons] at his
    rw [StepsMeet, StepsMeet, h s i hs his.1]
    exact and_congr_right fun hok => ih (hI s i hs his.1 hok) his.2

theorem stepsMeet_congr_inputs {I : σ → Prop} {G : ι → Prop}
    (hI : ∀ s i, I s → G i → I (step s i)) (h : ∀ s i, I s → G i → (ok s i ↔ ok' s i)) (hs : I s)
    (his : ∀ i ∈ is, G i) : StepsMeet step ok s is ↔ StepsMeet step ok' s is :=
  stepsMeet_congr_kept (fun s i hs hi _ => hI s i hs hi) h hs his

/-- Two conditions that agree in the states of an invariant hold of the same runs. -/
theorem stepsMeet_congr {I : σ → Prop} (hI : ∀ s i, I s → I (step s i))
    (h : ∀ s i, I s → (ok s i ↔ ok' s i)) (hs : I s) :
    StepsMeet step ok s is ↔ StepsMeet step ok' s is :=
  stepsMeet_congr_inputs (G := fun _ => True) (fun s i hs _ => hI s i hs) (fun s i hs _ => h s i hs)
    hs fun _ _ => trivial

/-- A condition on the inputs alone. -/
theorem stepsMeet_inputs {G : ι → Prop} : StepsMeet step (fun _ i => G i) s is ↔ ∀ i ∈ is, G i := by
  induction is generalizing s with
  | nil => simp [StepsMeet]
  | cons i is ih => rw [StepsMeet, ih, List.forall_mem_cons]

/-- Where the condition is exact for one step, with a good input, of every state that
satisfies an invariant, it is exact for runs of good inputs. The invariant has to be kept
only by the steps after which the property holds. -/
theorem throughout_iff_stepsMeet_inputs {I : σ → Prop} {G : ι → Prop}
    (hI : ∀ s i, I s → G i → P s → P (step s i) → I (step s i))
    (hstep : ∀ s i, I s → G i → P s → (P (step s i) ↔ ok s i)) (hs : I s) (h0 : P s)
    (his : ∀ i ∈ is, G i) : Throughout step P s is ↔ StepsMeet step ok s is := by
  induction is generalizing s with
  | nil => exact ⟨fun _ => trivial, fun _ => h0⟩
  | cons i is ih =>
    rw [List.forall_mem_cons] at his
    have hone := hstep s i hs his.1 h0
    have hrest (hnext : P (step s i)) := ih (hI s i hs his.1 h0 hnext) hnext his.2
    constructor
    · rintro ⟨-, hthrough⟩
      have hnext : P (step s i) := hthrough.head
      exact ⟨hone.mp hnext, (hrest hnext).mp hthrough⟩
    · rintro ⟨hok, hmeet⟩
      have hnext : P (step s i) := hone.mpr hok
      exact ⟨h0, (hrest hnext).mpr hmeet⟩

/-- Where the condition is exact for one step of every state that satisfies an invariant,
it is exact for runs. -/
theorem throughout_iff_stepsMeet {I : σ → Prop} (hI : ∀ s i, I s → P s → I (step s i))
    (hstep : ∀ s i, I s → P s → (P (step s i) ↔ ok s i)) (hs : I s) (h0 : P s) :
    Throughout step P s is ↔ StepsMeet step ok s is :=
  throughout_iff_stepsMeet_inputs (G := fun _ => True) (fun s i hs _ h _ => hI s i hs h)
    (fun s i hs _ => hstep s i hs) hs h0 fun _ _ => trivial

/-! ## Answers of a run -/

section Answers

variable {τ ο ο' α : Type*}

/-- What a machine answers to its inputs, one answer for each. -/
def answers (respond : σ → ι → σ × ο) : σ → List ι → List ο
  | _, [] => []
  | s, i :: is => (respond s i).2 :: answers respond (respond s i).1 is

/-- The rule for two machines: a relation that every input keeps, with answers that look the
same through it, makes all answers of two runs look the same. -/
theorem answers_of_simulation {respond : σ → ι → σ × ο} {respond' : τ → ι → τ × ο'}
    {view : ο → α} {view' : ο' → α} {Rel : σ → τ → Prop}
    (hstep : ∀ s t i, Rel s t → Rel (respond s i).1 (respond' t i).1 ∧
      view (respond s i).2 = view' (respond' t i).2) {t : τ} (h : Rel s t) (is : List ι) :
    (answers respond s is).map view = (answers respond' t is).map view' := by
  induction is generalizing s t with
  | nil => rfl
  | cons i is ih =>
    obtain ⟨hnext, hview⟩ := hstep s t i h
    rw [answers, answers, List.map_cons, List.map_cons, hview, ih hnext]

end Answers

/-! ## Fresh names -/

/-- Adding an item with a name of its own repeats no name. -/
theorem nodup_map_concat {α κ : Type*} {name : α → κ} {items : List α} {item : α}
    (hnames : (items.map name).Nodup) (hnew : ∀ x ∈ items, name x ≠ name item) :
    ((items ++ [item]).map name).Nodup := by
  rw [List.map_append, List.map_singleton, List.nodup_append]
  refine ⟨hnames, List.nodup_singleton _, fun a ha b hb => ?_⟩
  obtain ⟨x, hx, rfl⟩ := List.mem_map.mp ha
  rw [List.mem_singleton.mp hb]
  exact hnew x hx

/-- Items in two places have different names. -/
theorem name_ne_of_getElem? {α κ : Type*} {name : α → κ} {items : List α}
    (hnames : (items.map name).Nodup) {i j : ℕ} (hij : i ≠ j) {x y : α}
    (hx : items[i]? = some x) (hy : items[j]? = some y) : name x ≠ name y := by
  intro hname
  have hlt : i < (items.map name).length := by
    rw [List.length_map]
    exact (List.getElem?_eq_some_iff.mp hx).1
  refine hij ((List.getElem?_inj hlt hnames).mp ?_)
  rw [List.getElem?_map, List.getElem?_map, hx, hy, Option.map_some, Option.map_some, hname]

section Fresh

variable {κ : Type*} {brings : ι → Option κ} {used : σ → κ → Prop} {I : σ → Prop}

/-- An invariant that inputs with unused names keep holds after every run whose inputs
bring in each name once and none that is used already. -/
theorem fresh_run
    (hstep : ∀ s i, I s → (∀ k, brings i = some k → ¬ used s k) →
      I (step s i) ∧ ∀ k, used (step s i) k → used s k ∨ brings i = some k)
    (hs : I s) (hnames : (is.filterMap brings).Nodup)
    (hfresh : ∀ k ∈ is.filterMap brings, ¬ used s k) :
    I (is.foldl step s) ∧
      ∀ k, used (is.foldl step s) k → used s k ∨ k ∈ is.filterMap brings := by
  induction is generalizing s with
  | nil => exact ⟨hs, fun k hk => .inl hk⟩
  | cons i is ih =>
    have hcons : (i :: is).filterMap brings = (brings i).toList ++ is.filterMap brings := by
      rw [List.filterMap_cons]
      cases brings i <;> rfl
    rw [hcons] at hnames hfresh ⊢
    obtain ⟨-, hrest, hdisjoint⟩ := List.nodup_append.mp hnames
    obtain ⟨hnext, hused⟩ := hstep s i hs fun k hk => hfresh k (by simp [hk])
    obtain ⟨hlast, hall⟩ := ih hnext hrest (by
      intro k hk hin
      rcases hused k hin with hin | hbrought
      · exact hfresh k (List.mem_append_right _ hk) hin
      · exact hdisjoint k (by simp [hbrought]) k hk rfl)
    refine ⟨hlast, fun k hk => ?_⟩
    rcases hall k hk with hin | hin
    · rcases hused k hin with hin | hbrought
      · exact .inl hin
      · exact .inr (List.mem_append_left _ (by simp [hbrought]))
    · exact .inr (List.mem_append_right _ hin)

/-- In the middle of a run from a state where nothing is used, what is still to come is
fresh. -/
theorem fresh_split
    (hstep : ∀ s i, I s → (∀ k, brings i = some k → ¬ used s k) →
      I (step s i) ∧ ∀ k, used (step s i) k → used s k ∨ brings i = some k)
    (hs : I s) (hnone : ∀ k, ¬ used s k) {past rest : List ι}
    (hnames : ((past ++ rest).filterMap brings).Nodup) :
    I (past.foldl step s) ∧ (rest.filterMap brings).Nodup ∧
      ∀ k ∈ rest.filterMap brings, ¬ used (past.foldl step s) k := by
  rw [List.filterMap_append] at hnames
  obtain ⟨hpast, hrest, hdisjoint⟩ := List.nodup_append.mp hnames
  obtain ⟨hmid, hused⟩ := fresh_run hstep hs hpast fun k _ => hnone k
  refine ⟨hmid, hrest, fun k hk hin => ?_⟩
  rcases hused k hin with hin | hin
  · exact hnone k hin
  · exact hdisjoint k hin k hk rfl

end Fresh

/-! ## Logs of a run -/

section Trail

variable {ε : Type*} {R : σ → ε → σ → Prop} {es fs : List ε} {e : ε} {t u : σ}

/-- The entries lead from the first state to the last, each by a step that `R` allows. -/
def Trail (R : σ → ε → σ → Prop) : σ → List ε → σ → Prop
  | s, [], t => s = t
  | s, e :: es, t => ∃ u, R s e u ∧ Trail R u es t

theorem trail_append : Trail R s (es ++ fs) t ↔ ∃ u, Trail R s es u ∧ Trail R u fs t := by
  induction es generalizing s with
  | nil => simp [Trail]
  | cons e es ih =>
    simp only [List.cons_append, Trail, ih]
    constructor
    · rintro ⟨u, hu, v, hv, ht⟩
      exact ⟨v, ⟨u, hu, hv⟩, ht⟩
    · rintro ⟨v, ⟨u, hu, hv⟩, ht⟩
      exact ⟨u, hu, v, hv, ht⟩

theorem Trail.concat (h : Trail R s es t) (he : R t e u) : Trail R s (es ++ [e]) u :=
  trail_append.mpr ⟨t, h, u, he, rfl⟩

/-- The step that an entry of a log stands for. -/
theorem Trail.split (h : Trail R s (es ++ e :: fs) t) :
    ∃ before after, Trail R s es before ∧ R before e after ∧ Trail R after fs t := by
  obtain ⟨before, hbefore, after, he, hafter⟩ := trail_append.mp h
  exact ⟨before, after, hbefore, he, hafter⟩

/-- Running the inputs of the entries again ends in the same state. -/
theorem Trail.replay {α χ : Type*} {run : σ → α → Except χ σ} {input : ε → α}
    (hR : ∀ {s e t}, R s e t → run s (input e) = .ok t) (h : Trail R s es t) :
    (es.map input).foldlM run s = .ok t := by
  induction es generalizing s with
  | nil => exact congrArg Except.ok h
  | cons e es ih =>
    obtain ⟨u, hu, hrest⟩ := h
    rw [List.map_cons, List.foldlM_cons, hR hu]
    exact ih hrest

end Trail

end ECN
