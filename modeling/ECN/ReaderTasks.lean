import Mathlib.Data.List.Basic
import Mathlib.Tactic

/-!
# Tasks that read a shared world

Some moves change the world, and tasks that are resumed in between read it and change nothing
but themselves. So a task depends on the worlds it was resumed in, and on no other task.
-/
namespace ECN.ReaderTasks

variable {σ τ ι : Type*}

structure Pool (σ τ : Type*) where
  world : σ
  tasks : List τ

inductive PoolMove (ι τ : Type*) where
  | act (input : ι)
  | spawn (task : τ)
  | resume (i : ℕ)

variable (act : σ → ι → σ) (wake : σ → τ → τ)

def Pool.step (p : Pool σ τ) : PoolMove ι τ → Pool σ τ
  | .act input => { p with world := act p.world input }
  | .spawn task => { p with tasks := p.tasks ++ [task] }
  | .resume i => { p with tasks := p.tasks.modify i (wake p.world) }

def Pool.run (p : Pool σ τ) (moves : List (PoolMove ι τ)) : Pool σ τ := moves.foldl (step act wake) p

/-- The world after some moves. -/
def worldAfter (w : σ) : List (PoolMove ι τ) → σ
  | [] => w
  | .act input :: moves => worldAfter (act w input) moves
  | .spawn _ :: moves => worldAfter w moves
  | .resume _ :: moves => worldAfter w moves

/-- The worlds in which task `i` is resumed. -/
def wakes (i : ℕ) (w : σ) : List (PoolMove ι τ) → List σ
  | [] => []
  | .act input :: moves => wakes i (act w input) moves
  | .spawn _ :: moves => wakes i w moves
  | .resume j :: moves => if j = i then w :: wakes i w moves else wakes i w moves

/-- A task after it was resumed in each of the worlds. -/
def resumed (t : τ) (worlds : List σ) : τ := worlds.foldl (fun t w => wake w t) t

variable {act wake}

theorem world_run (p : Pool σ τ) (moves : List (PoolMove ι τ)) :
    (p.run act wake moves).world = worldAfter act p.world moves := by
  induction moves generalizing p with
  | nil => rfl
  | cons move moves ih =>
    rw [Pool.run, List.foldl_cons]
    exact (ih (p.step act wake move)).trans (by cases move <;> rfl)

theorem tasks_step {p : Pool σ τ} {i : ℕ} {t : τ} (h : p.tasks[i]? = some t) (move : PoolMove ι τ) :
    (p.step act wake move).tasks[i]? = some (resumed wake t (wakes act i p.world [move])) := by
  cases move with
  | act input => exact h
  | spawn task =>
    rw [Pool.step, List.getElem?_append_left (List.getElem?_eq_some_iff.mp h).1]
    exact h
  | resume j =>
    rw [Pool.step, List.getElem?_modify, h, wakes]
    split_ifs with hj
    · rfl
    · rfl

theorem wakes_cons (i : ℕ) (w : σ) (move : PoolMove ι τ) (moves : List (PoolMove ι τ)) :
    wakes act i w (move :: moves) =
      wakes act i w [move] ++ wakes act i (worldAfter act w [move]) moves := by
  cases move with
  | act input => rfl
  | spawn task => rfl
  | resume j =>
    simp only [wakes, worldAfter]
    split_ifs with hj
    · rfl
    · rfl

/-- What every change of the world keeps holds in all its states. -/
theorem worldAfter_of_step {I : σ → Prop} (hact : ∀ w input, I w → I (act w input)) {w : σ}
    (h : I w) (moves : List (PoolMove ι τ)) : I (worldAfter act w moves) := by
  induction moves generalizing w with
  | nil => exact h
  | cons move moves ih =>
    cases move with
    | act input => exact ih (hact w input h)
    | spawn task => exact ih h
    | resume j => exact ih h

theorem wakes_of_step {I : σ → Prop} (hact : ∀ w input, I w → I (act w input)) (i : ℕ) {w : σ}
    (h : I w) (moves : List (PoolMove ι τ)) : ∀ u ∈ wakes act i w moves, I u := by
  induction moves generalizing w with
  | nil => exact fun u hu => nomatch hu
  | cons move moves ih =>
    intro u hu
    rw [wakes_cons, List.mem_append] at hu
    rcases hu with hu | hu
    · cases move with
      | act input => cases hu
      | spawn task => cases hu
      | resume j =>
        simp only [wakes] at hu
        split_ifs at hu with hj
        · exact List.mem_singleton.mp hu ▸ h
        · cases hu
    · exact ih (worldAfter_of_step hact h [move]) u hu

/-- A task has been resumed in the worlds of its own resumptions. -/
theorem tasks_run {p : Pool σ τ} {i : ℕ} {t : τ} (h : p.tasks[i]? = some t)
    (moves : List (PoolMove ι τ)) :
    (p.run act wake moves).tasks[i]? = some (resumed wake t (wakes act i p.world moves)) := by
  induction moves generalizing p t with
  | nil => exact h
  | cons move moves ih =>
    have hworld : (p.step act wake move).world = worldAfter act p.world [move] :=
      world_run p [move]
    rw [Pool.run, List.foldl_cons]
    refine (ih (tasks_step h move)).trans ?_
    rw [hworld, wakes_cons i p.world move moves, resumed, resumed, resumed, List.foldl_append]

variable (act wake) in
/-- A task that is started during the run. -/
theorem tasks_spawn (p : Pool σ τ) (past later : List (PoolMove ι τ)) (t : τ) :
    (p.run act wake (past ++ .spawn t :: later)).tasks[(p.run act wake past).tasks.length]? =
      some (resumed wake t (wakes act (p.run act wake past).tasks.length
        (worldAfter act p.world past) later)) := by
  let q : Pool σ τ := (p.run act wake past).step act wake (.spawn t)
  have hspawned : q.tasks[(p.run act wake past).tasks.length]? = some t :=
    List.getElem?_concat_length
  have hworld : q.world = worldAfter act p.world past := world_run p past
  rw [Pool.run, List.foldl_append, List.foldl_cons, ← hworld]
  exact tasks_run hspawned later

end ECN.ReaderTasks
