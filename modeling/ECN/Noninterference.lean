import Mathlib.Data.List.Basic

/-!
# Noninterference

Inputs come from several domains and each gets an answer. What a domain is told does not
depend on the others when its answers are those of the run that is left after the inputs of
the others are purged. Two conditions on single steps suffice for it, given a relation
between states that look alike to the domain: the inputs of others lead to a state that
still looks alike, and its own inputs are answered alike in states that look alike, and
lead to such states again. `PrivateOp` is the form in which single operations are shown to
meet them: they keep an invariant, change the view of one domain only, and depend on no
other.
-/
namespace ECN

variable {σ ι α β δ : Type*}

/-- The answers of a run to the inputs of one domain, in order. -/
def answersTo [DecidableEq δ] (step : σ → ι → σ × α) (domain : ι → δ) (d : δ) :
    σ → List ι → List α
  | _, [] => []
  | s, i :: is =>
    if domain i = d then (step s i).2 :: answersTo step domain d (step s i).1 is
    else answersTo step domain d (step s i).1 is

/-- The run without the inputs of all other domains. -/
def purge [DecidableEq δ] (domain : ι → δ) (d : δ) (is : List ι) : List ι :=
  is.filter fun i => domain i = d

/-- Conditions on single steps: the answers to `d`, as far as `observe` tells them apart,
depend only on what `alike` keeps. -/
structure Unwinding (step : σ → ι → σ × α) (domain : ι → δ) (d : δ) (alike : σ → σ → Prop)
    (observe : α → β) : Prop where
  inert : ∀ s t i, alike s t → domain i ≠ d → alike (step s i).1 t
  consistent : ∀ s t i, alike s t → domain i = d → alike (step s i).1 (step t i).1
  answered : ∀ s t i, alike s t → domain i = d → observe (step s i).2 = observe (step t i).2

variable {step : σ → ι → σ × α} {domain : ι → δ} {d : δ} {alike : σ → σ → Prop} {observe : α → β}

/-- The rule of unwinding: from states that look alike, the run and the purged run give the
same answers. By induction on the run; a purged input moves one of the two states only. -/
theorem Unwinding.answersTo_purge [DecidableEq δ] (h : Unwinding step domain d alike observe)
    {s t : σ} (hst : alike s t) (is : List ι) :
    (answersTo step domain d s is).map observe =
      (answersTo step domain d t (purge domain d is)).map observe := by
  induction is generalizing s t with
  | nil => rfl
  | cons i is ih =>
    by_cases hi : domain i = d
    · have hpurge : purge domain d (i :: is) = i :: purge domain d is := by simp [purge, hi]
      rw [hpurge, answersTo, answersTo, if_pos hi, if_pos hi, List.map_cons, List.map_cons,
        h.answered s t i hst hi, ih (h.consistent s t i hst hi)]
    · have hpurge : purge domain d (i :: is) = purge domain d is := by simp [purge, hi]
      rw [hpurge, answersTo, if_neg hi, ih (h.inert s t i hst hi)]

/-! ## Operations on one view -/

variable {ν ρ : Type*}

/-- A change of state that concerns one domain: in states of the invariant it changes the
view of no other domain, and its own in a way that depends on this view alone. -/
structure PrivateWrite (view : δ → σ → ν) (I : σ → Prop) (d : δ) (write : σ → σ) : Prop where
  keeps : ∀ s, I s → I (write s)
  frame : ∀ s d', I s → d' ≠ d → view d' (write s) = view d' s
  congr : ∀ s t, I s → I t → view d s = view d t → view d (write s) = view d (write t)

/-- An operation of one domain, with its answer. -/
structure PrivateOp (view : δ → σ → ν) (I : σ → Prop) (observe : α → β) (d : δ)
    (op : σ → σ × α) : Prop where
  write : PrivateWrite view I d fun s => (op s).1
  answer : ∀ s t, I s → I t → view d s = view d t → observe (op s).2 = observe (op t).2

variable {view : δ → σ → ν} {I : σ → Prop} {op : σ → σ × α}

namespace PrivateWrite

theorem unchanged : PrivateWrite view I d fun s => s :=
  ⟨fun _ hs => hs, fun _ _ _ _ => rfl, fun _ _ _ _ h => h⟩

/-- A change that keeps the invariant and updates one view. -/
theorem of_update [DecidableEq δ] {write : σ → σ} (keeps : ∀ s, I s → I (write s))
    (update : ν → ν)
    (h : ∀ s d', view d' (write s) = if d' = d then update (view d s) else view d' s) :
    PrivateWrite view I d write where
  keeps := keeps
  frame s d' _ hd := by rw [h, if_neg hd]
  congr s t _ _ hst := by rw [h, h, if_pos rfl, if_pos rfl, hst]

/-- One change after the other. -/
theorem andThen {first second : σ → σ} (h : PrivateWrite view I d first)
    (h' : PrivateWrite view I d second) : PrivateWrite view I d fun s => second (first s) where
  keeps s hs := h'.keeps _ (h.keeps s hs)
  frame s d' hs hd := by rw [h'.frame _ d' (h.keeps s hs) hd, h.frame s d' hs hd]
  congr s t hs ht hst := h'.congr _ _ (h.keeps s hs) (h.keeps t ht) (h.congr s t hs ht hst)

end PrivateWrite

namespace PrivateOp

/-- A change with an answer that is fixed. -/
theorem reply {write : σ → σ} (h : PrivateWrite view I d write) (a : α) :
    PrivateOp view I observe d fun s => (write s, a) :=
  ⟨h, fun _ _ _ _ _ => rfl⟩

/-- An operation that reads its own view goes on as a private operation for whatever it has
read. -/
theorem of_read (read : ν → ρ)
    (h : ∀ s, I s → ∃ next, PrivateOp view I observe d next ∧
      ∀ t, I t → read (view d t) = read (view d s) → op t = next t) :
    PrivateOp view I observe d op where
  write := by
    refine ⟨fun s hs => ?_, fun s d' hs hd => ?_, fun s t hs ht hst => ?_⟩
    · obtain ⟨next, hnext, hop⟩ := h s hs
      rw [hop s hs rfl]
      exact hnext.write.keeps s hs
    · obtain ⟨next, hnext, hop⟩ := h s hs
      rw [hop s hs rfl]
      exact hnext.write.frame s d' hs hd
    · obtain ⟨next, hnext, hop⟩ := h s hs
      rw [hop s hs rfl, hop t ht (congrArg read hst.symm)]
      exact hnext.write.congr s t hs ht hst
  answer s t hs ht hst := by
    obtain ⟨next, hnext, hop⟩ := h s hs
    rw [hop s hs rfl, hop t ht (congrArg read hst.symm)]
    exact hnext.answer s t hs ht hst

/-- A step whose inputs are private operations of their domains is unwound by equality of
views. -/
theorem unwinding (h : ∀ i, PrivateOp view I observe (domain i) fun s => step s i) (d : δ) :
    Unwinding step domain d (fun s t => I s ∧ I t ∧ view d s = view d t) observe where
  inert s t i hst hi :=
    ⟨(h i).write.keeps s hst.1, hst.2.1,
      ((h i).write.frame s d hst.1 (Ne.symm hi)).trans hst.2.2⟩
  consistent s t i hst hi := by
    subst hi
    exact ⟨(h i).write.keeps s hst.1, (h i).write.keeps t hst.2.1,
      (h i).write.congr s t hst.1 hst.2.1 hst.2.2⟩
  answered s t i hst hi := by
    subst hi
    exact (h i).answer s t hst.1 hst.2.1 hst.2.2

end PrivateOp
end ECN
