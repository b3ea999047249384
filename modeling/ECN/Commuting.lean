import Mathlib.Data.List.Perm.Basic

/-!
# Operations that may fail and commute

`attempt` performs an operation or, when it fails, does nothing. Two operations commute when
both orders lead to the same state and neither decides whether the other succeeds. A list of
pairwise commuting operations has one outcome in every order: one last state, and the same
operations that succeed.
-/
namespace ECN

variable {σ ι : Type*}

/-- Perform an operation, or stay where it fails. -/
def attempt (act : σ → ι → Option σ) (s : σ) (i : ι) : σ := (act s i).getD s

/-- The operations of a run that succeed. -/
def performed (act : σ → ι → Option σ) : σ → List ι → List ι
  | _, [] => []
  | s, i :: is =>
    if (act s i).isSome then i :: performed act (attempt act s i) is
    else performed act (attempt act s i) is

/-- The operations can be exchanged in every state. -/
structure Commute (act : σ → ι → Option σ) (i j : ι) : Prop where
  swap : ∀ s, attempt act (attempt act s i) j = attempt act (attempt act s j) i
  left : ∀ s, (act (attempt act s j) i).isSome = (act s i).isSome
  right : ∀ s, (act (attempt act s i) j).isSome = (act s j).isSome

variable {act : σ → ι → Option σ} {s : σ} {i j : ι} {is js : List ι}

theorem Commute.symm (h : Commute act i j) : Commute act j i :=
  ⟨fun s => (h.swap s).symm, h.right, h.left⟩

theorem attempt_of_none (h : act s i = none) : attempt act s i = s := by
  rw [attempt, h, Option.getD_none]

/-- An operation that never succeeds can be exchanged with any other. -/
theorem commute_of_none (h : ∀ s, act s i = none) (j : ι) : Commute act i j where
  swap s := by rw [attempt_of_none (h s), attempt_of_none (h _)]
  left s := by rw [h, h]
  right s := by rw [attempt_of_none (h s)]

/-- Names of operations that can be exchanged can be exchanged. -/
theorem Commute.named {κ : Type*} {read : κ → Option ι} {k l : κ} (hk : read k = some i)
    (hl : read l = some j) (h : Commute act i j) :
    Commute (fun s k => (read k).bind (act s)) k l := by
  have hact (s : σ) : (read k).bind (act s) = act s i := by rw [hk, Option.bind_some]
  have hact' (s : σ) : (read l).bind (act s) = act s j := by rw [hl, Option.bind_some]
  refine ⟨fun s => ?_, fun s => ?_, fun s => ?_⟩
  · simpa only [attempt, hact, hact'] using h.swap s
  · simpa only [attempt, hact, hact'] using h.left s
  · simpa only [attempt, hact, hact'] using h.right s

/-- Two operations at the head of a run. -/
theorem performed_swap (h : Commute act i j) (is : List ι) :
    (performed act s (i :: j :: is)).Perm (performed act s (j :: i :: is)) := by
  simp only [performed, h.swap, h.left, h.right]
  cases (act s i).isSome with
  | true =>
    cases (act s j).isSome with
    | true => exact List.Perm.swap j i _
    | false => exact List.Perm.refl _
  | false =>
    cases (act s j).isSome with
    | true => exact List.Perm.refl _
    | false => exact List.Perm.refl _

/-- The rule for reordering: by induction on the permutation, one exchange at a time. -/
theorem reorder (hperm : is.Perm js) (hcommute : is.Pairwise (Commute act)) (s : σ) :
    is.foldl (attempt act) s = js.foldl (attempt act) s ∧
      (performed act s is).Perm (performed act s js) := by
  induction hperm generalizing s with
  | nil => exact ⟨rfl, List.Perm.refl _⟩
  | cons i _ ih =>
    obtain ⟨hlast, hperformed⟩ := ih (List.pairwise_cons.mp hcommute).2 (attempt act s i)
    refine ⟨hlast, ?_⟩
    simp only [performed]
    split
    · exact hperformed.cons i
    · exact hperformed
  | swap i j is =>
    have hji : Commute act j i := (List.pairwise_cons.mp hcommute).1 i List.mem_cons_self
    refine ⟨?_, performed_swap hji is⟩
    simp only [List.foldl_cons, hji.swap]
  | trans hperm _ ih ih' =>
    have hmid := (hperm.pairwise_iff fun {_ _} h => Commute.symm h).mp hcommute
    exact ⟨(ih hcommute s).1.trans (ih' hmid s).1, (ih hcommute s).2.trans (ih' hmid s).2⟩

end ECN
