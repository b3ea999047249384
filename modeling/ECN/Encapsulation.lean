import ECN.InPlace
import ECN.ReferenceRuntime

/-!
# Who can change the state

A state manager hands out copies of its state and takes transactions that callers go on
holding. Whatever callers write to the objects they can get to, between calls and in any
order, the manager's state is what its own calls have made of it.
-/
namespace ECN

open ObjectHeap HeapM

/-! ## The manager, with its state as an object -/

/-- A state manager that refers to its state. -/
structure ObjectManager where
  state : PyHandle
  useMerkle : Bool

/-- The dictionary that a handle stands for. -/
def loadState (limit : ℕ) (x : PyHandle) : HeapM State := do
  match ← load limit x with
  | .dict es => return es
  | .scalar _ | .list _ => raise .attributeError

namespace ObjectManager

variable (limit : ℕ) (rt : Runtime) (table : HandlersInPlace)

/-- `{"balances": {}}`. -/
def emptyState : HeapM PyHandle := do
  let balances ← alloc ⟨.dict [], []⟩
  alloc ⟨.dict [.str "balances"], [balances]⟩

/-- The state of `__init__` and `reset`: a copy of the argument, or the empty default. -/
def freshState : Option PyHandle → HeapM PyHandle
  | some x => copyObject limit x
  | none => emptyState

def computeStateHash (m : ObjectManager) : HeapM String := do
  lift (stateHash rt m.useMerkle (← loadState limit m.state))

/-- The copy of the old state that is kept for the difference, and the new state. -/
def runTransaction (m : ObjectManager) (tx : PyHandle) : HeapM (PyHandle × PyHandle) := do
  let oldState ← copyObject limit m.state
  let _ ← m.computeStateHash limit rt
  let newState ← executeInPlace limit rt.toInterp table m.state tx
  return (oldState, newState)

/-- Hash the new state, compare it with the old one and return a copy. -/
def finish (m : ObjectManager) (oldState : PyHandle) : HeapM PyHandle := do
  let _ ← m.computeStateHash limit rt
  let _ ← lift (computeDiff (← loadState limit oldState) (← loadState limit m.state))
  copyObject limit m.state

/-- Execute `tx` against the current state; the new state stays when the rest raises. -/
def applyTransaction (m : ObjectManager) (tx : PyHandle) (heap : PyHeap) :
    ObjectManager × Except Fault PyHandle × PyHeap :=
  match m.runTransaction limit rt table tx heap with
  | (.error fault, heap) => (m, .error fault, heap)
  | (.ok (oldState, newState), heap) =>
    ({ m with state := newState }, ({ m with state := newState }).finish limit rt oldState heap)

/-- A copy of the state. -/
def getState (m : ObjectManager) : HeapM PyHandle := copyObject limit m.state

end ObjectManager

/-! ## Reading the state -/

section Manager

variable {limit : ℕ} {rt : Runtime} {table : HandlersInPlace} {heap old : PyHeap}
  {m : ObjectManager} {S : State} {F : List ℕ}

theorem loadState_ok {n : ℕ} {x : PyHandle} (h : Stands n heap x (.dict S) F) (hn : n ≤ limit) :
    loadState limit x heap = (.ok S, heap) := by
  rw [loadState, bind_of_ok (load_of_stands h hn)]
  rfl

/-- The hash is a step that the value of the state takes too. -/
theorem computeStateHash_tracks {γ δ : Type} {g : String → HeapM γ} {q : String → Except Exc δ}
    {post : δ → γ → PyHeap → Prop} (hk : Keeps old heap)
    (h : Stands limit heap m.state (.dict S) F)
    (hg : ∀ hash, stateHash rt m.useMerkle S = .ok hash → Tracks old (q hash) (g hash heap) post) :
    Tracks old (stateHash rt m.useMerkle S >>= q)
      ((m.computeStateHash limit rt >>= g) heap) post := by
  have hrun : m.computeStateHash limit rt heap =
      HeapM.lift (stateHash rt m.useMerkle S) heap := by
    rw [ObjectManager.computeStateHash, bind_of_ok (loadState_ok h le_rfl)]
  refine Tracks.swap hrun ?_
  exact Tracks.lift hk hg

theorem runTransaction_tracks (htable : TableTracks limit rt.handlers table) {tx : PyHandle}
    {T : Transaction} {G : List ℕ} (hs : Stands limit heap m.state (.dict S) F)
    (ht : Stands 1 heap tx (.dict T) G) :
    Tracks heap (stateHash rt m.useMerkle S >>= fun _ => rt.execute S T)
      (m.runTransaction limit rt table tx heap) fun new ys heap' =>
        (∃ F₀, Stands limit heap' ys.1 (.dict S) F₀) ∧ NewState limit heap new ys.2 heap' := by
  refine Tracks.copied (Keeps.refl heap) hs fun y₀ heap₁ F₀ hk₁ hy₀ _ => ?_
  have hs₁ : Stands limit heap₁ m.state (.dict S) F :=
    hs.frame fun a ha => hk₁.same a (hs.lt_length a ha)
  have ht₁ : Stands 1 heap₁ tx (.dict T) G :=
    ht.frame fun a ha => hk₁.same a (ht.lt_length a ha)
  refine computeStateHash_tracks hk₁ hs₁ fun hash _ => ?_
  have hexec := executeInPlace_tracks rt.toInterp htable hs₁ ht₁
  refine Tracks.rebase ?_ hk₁
  show Tracks heap₁ (rt.execute S T) _ _
  rw [← bind_pure (rt.execute S T)]
  refine hexec.bind fun new y heap₂ _ hk₂ ⟨F', hy, hnew⟩ => ?_
  have hgrown := hk₁.grows
  refine Tracks.of_ok rfl rfl hk₂ ⟨⟨F₀, ?_⟩, F', hy, fun b hb => hgrown.trans (hnew b hb)⟩
  exact hy₀.frame fun a ha => hk₂.same a (hy₀.lt_length a ha)

variable (rt) in
theorem finish_tracks {oldState : PyHandle} {new : State} {F₀ : List ℕ}
    (hold : Stands limit heap oldState (.dict S) F₀)
    (hs : Stands limit heap m.state (.dict new) F) :
    Tracks heap (StateManager.summarize rt m.useMerkle S new >>= fun _ => pure new)
      (m.finish limit rt oldState heap) (NewState limit heap) := by
  have hk := Keeps.refl heap
  have hpure : (StateManager.summarize rt m.useMerkle S new >>= fun _ => pure new) =
      stateHash rt m.useMerkle new >>= fun _ => computeDiff S new >>= fun _ => .ok new := by
    rw [StateManager.summarize, bind_assoc]
    refine bind_congr fun hash => ?_
    rw [bind_assoc]
    rfl
  rw [hpure]
  refine computeStateHash_tracks hk hs fun _ _ => ?_
  refine Tracks.step (loadState_ok hold le_rfl) ?_
  refine Tracks.step (loadState_ok hs le_rfl) ?_
  refine Tracks.lift hk fun _ _ => ?_
  obtain ⟨y, heap', F', hrun, hy, hgrows, hsame, hnew⟩ := copyObject_ok hs
  exact Tracks.of_ok rfl hrun ⟨hgrows, hsame⟩ ⟨F', hy, hnew⟩

/-- What a call leaves: no object that was there is written, the state stands in objects
that were its own or are new, and what is returned stands in new objects beside it. -/
structure Call (limit : ℕ) (heap : PyHeap) (F : List ℕ) (new : State) (p : Except Exc State)
    (r : ObjectManager × Except Fault PyHandle × PyHeap) : Prop where
  keeps : Keeps heap r.2.2
  apart : ∃ F', Stands limit r.2.2 r.1.state (.dict new) F' ∧
    (∀ b ∈ F', b ∈ F ∨ heap.length ≤ b) ∧
    match p with
    | .ok result => ∃ y F'', r.2.1 = .ok y ∧ Stands limit r.2.2 y (.dict result) F'' ∧
        (∀ b ∈ F'', heap.length ≤ b) ∧ F''.Disjoint F'
    | .error e => r.2.1 = .error (.raised e)

/-- A call on the objects does what the call on values does. -/
theorem applyTransaction_call (htable : TableTracks limit rt.handlers table)
    {manager : StateManager} (hm : m.useMerkle = manager.useMerkle) {tx : PyHandle}
    {T : Transaction} {G : List ℕ} (hs : Stands limit heap m.state (.dict manager.state) F)
    (ht : Stands 1 heap tx (.dict T) G) :
    Call limit heap F (manager.applyTransaction rt T).1.state (manager.applyTransaction rt T).2
      (m.applyTransaction limit rt table tx heap) := by
  obtain ⟨hk₁, hrun⟩ := runTransaction_tracks htable hs ht
  obtain ⟨res, heap₁, hr⟩ : ∃ res heap₁, m.runTransaction limit rt table tx heap = (res, heap₁) :=
    ⟨_, _, rfl⟩
  rw [hr] at hk₁ hrun
  have hs₁ : Stands limit heap₁ m.state (.dict manager.state) F :=
    hs.frame fun a ha => hk₁.same a (hs.lt_length a ha)
  unfold StateManager.applyTransaction StateManager.computeStateHash ObjectManager.applyTransaction
  rw [hr]
  rw [hm] at hrun
  cases hash : stateHash rt manager.useMerkle manager.state with
  | error e =>
    rw [hash] at hrun
    have hres : res = .error (.raised e) := hrun
    subst hres
    exact ⟨hk₁, F, hs₁, fun b hb => .inl hb, rfl⟩
  | ok oldHash =>
    rw [hash] at hrun
    have hstep : (Except.ok oldHash >>= fun _ => rt.execute manager.state T) =
        rt.execute manager.state T := rfl
    rw [hstep] at hrun
    cases hexec : rt.execute manager.state T with
    | error e =>
      rw [hexec] at hrun
      have hres : res = .error (.raised e) := hrun
      subst hres
      exact ⟨hk₁, F, hs₁, fun b hb => .inl hb, rfl⟩
    | ok new =>
      rw [hexec] at hrun
      obtain ⟨⟨y₀, y⟩, rfl, ⟨F₀, hold⟩, F', hy, hnew⟩ := hrun
      -- The state is replaced before the rest, which may still raise.
      have hend := finish_tracks rt (m := { m with state := y }) hold hy
      dsimp only at hend hold hy hk₁ ⊢
      rw [hm] at hend ⊢
      obtain ⟨hk₂, hend⟩ := hend
      have hgrown := hk₁.grows
      have hy₂ := hy.frame fun a ha => hk₂.same a (hy.lt_length a ha)
      have hnew' : ∀ b ∈ F', b ∈ F ∨ heap.length ≤ b := fun b hb => .inr (hnew b hb)
      cases hsum : StateManager.summarize rt manager.useMerkle manager.state new with
      | error e =>
        rw [hsum] at hend
        exact ⟨hk₁.trans hk₂, F', hy₂, hnew', hend⟩
      | ok r =>
        rw [hsum] at hend
        obtain ⟨z, hz, F'', hstands, hfresh⟩ := hend
        refine ⟨hk₁.trans hk₂, F', hy₂, hnew', z, F'', hz, hstands, ?_, ?_⟩
        · exact fun b hb => hgrown.trans (hfresh b hb)
        · exact fun b hb hb' => absurd (hfresh b hb) (by have := hy.lt_length b hb'; omega)

end Manager

/-! ## Callers -/

/-- The objects of a process, its manager, and the handles that callers hold. -/
structure World where
  heap : PyHeap
  manager : ObjectManager
  held : List PyHandle

namespace World

/-- An object that callers can get to. -/
def Known (w : World) (a : ℕ) : Prop := Reaches w.heap w.held a

/-- A handle that callers can have. -/
def Knows (w : World) (x : PyHandle) : Prop := ∀ a, x = .ref a → w.Known a

end World

/-- What callers see of the manager. -/
inductive Seen where
  | applied (tx : Transaction) (result : Except Exc State)
  | read (state : State)
  | reset (newState : Option State)

/-- The argument stands for a state, if there is one. -/
def StandsForArgument (limit : ℕ) (heap : PyHeap) : Option PyHandle → Option State → Prop
  | some x, some S => ∃ F, Stands limit heap x (.dict S) F
  | none, none => True
  | none, some _ | some _, none => False

/-- Callers write what they can get to and make objects of it, and they call the manager. -/
inductive CallerStep (limit : ℕ) (rt : Runtime) (table : HandlersInPlace) :
    World → List Seen → World → Prop
  | write {w : World} {a : ℕ} {o : PyObject} (ha : w.Known a) (ho : ∀ x ∈ o.fields, w.Knows x) :
      CallerStep limit rt table w [] { w with heap := w.heap.set a o }
  | make {w : World} {o : PyObject} (ho : ∀ x ∈ o.fields, w.Knows x) :
      CallerStep limit rt table w [] ⟨w.heap ++ [o], w.manager, .ref w.heap.length :: w.held⟩
  | applied {w : World} {tx y : PyHandle} {T : Transaction} {G : List ℕ} {m' : ObjectManager}
      {heap' : PyHeap} {new : State} (htx : w.Knows tx) (ht : Stands 1 w.heap tx (.dict T) G)
      (hrun : w.manager.applyTransaction limit rt table tx w.heap = (m', .ok y, heap'))
      (hy : loadState limit y heap' = (.ok new, heap')) :
      CallerStep limit rt table w [.applied T (.ok new)] ⟨heap', m', y :: w.held⟩
  | raised {w : World} {tx : PyHandle} {T : Transaction} {G : List ℕ} {m' : ObjectManager}
      {heap' : PyHeap} {e : Exc} (htx : w.Knows tx) (ht : Stands 1 w.heap tx (.dict T) G)
      (hrun : w.manager.applyTransaction limit rt table tx w.heap =
        (m', .error (.raised e), heap')) :
      CallerStep limit rt table w [.applied T (.error e)] ⟨heap', m', w.held⟩
  | read {w : World} {y : PyHandle} {heap' : PyHeap} {state : State}
      (hrun : w.manager.getState limit w.heap = (.ok y, heap'))
      (hy : loadState limit y heap' = (.ok state, heap')) :
      CallerStep limit rt table w [.read state] ⟨heap', w.manager, y :: w.held⟩
  | reset {w : World} {x : Option PyHandle} {newState : Option State} {y : PyHandle}
      {heap' : PyHeap} (hx : StandsForArgument limit w.heap x newState)
      (hrun : ObjectManager.freshState limit x w.heap = (.ok y, heap')) :
      CallerStep limit rt table w [.reset newState] ⟨heap', { w.manager with state := y }, w.held⟩

/-- Any number of moves, in any order. -/
inductive CallerRun (limit : ℕ) (rt : Runtime) (table : HandlersInPlace) (start : World) :
    List Seen → World → Prop
  | none : CallerRun limit rt table start [] start
  | next {w w' : World} {seen more : List Seen} (h : CallerRun limit rt table start seen w)
      (hstep : CallerStep limit rt table w more w') : CallerRun limit rt table start (seen ++ more) w'

namespace StateManager

variable (rt : Runtime)

def after (m : StateManager) : Seen → StateManager
  | .applied tx _ => (m.applyTransaction rt tx).1
  | .read _ => m
  | .reset newState => m.reset newState

/-- What the manager's values are like when callers see this. -/
def Shows (m : StateManager) : Seen → Prop
  | .applied tx result => (m.applyTransaction rt tx).2 = result
  | .read state => m.state = state
  | .reset _ => True

def ShowsAll (m : StateManager) : List Seen → Prop
  | [] => True
  | s :: seen => m.Shows rt s ∧ (m.after rt s).ShowsAll seen

theorem showsAll_append (m : StateManager) (xs ys : List Seen) :
    m.ShowsAll rt (xs ++ ys) ↔ m.ShowsAll rt xs ∧ (xs.foldl (after rt) m).ShowsAll rt ys := by
  induction xs generalizing m with
  | nil => simp [ShowsAll]
  | cons s xs ih => rw [List.cons_append, ShowsAll, ShowsAll, ih, List.foldl_cons, and_assoc]

end StateManager

/-! ## The state is sealed -/

/-- The manager's state is what the values are, and callers cannot get to its objects. -/
structure Sealed (limit : ℕ) (w : World) (m : StateManager) : Prop where
  merkle : w.manager.useMerkle = m.useMerkle
  valid : ∀ a, w.Known a → a < w.heap.length
  state : ∃ F, Stands limit w.heap w.manager.state (.dict m.state) F ∧ ∀ a ∈ F, ¬ w.Known a

section Sealing

variable {limit : ℕ} {rt : Runtime} {table : HandlersInPlace} {w : World} {m : StateManager}

/-- Callers get to nothing new while the manager works. -/
theorem World.Known.of_keeps {heap' : PyHeap} {m' : ObjectManager}
    (hvalid : ∀ a, w.Known a → a < w.heap.length) (hk : Keeps w.heap heap') {a : ℕ}
    (h : World.Known ⟨heap', m', w.held⟩ a) : w.Known a := by
  refine Reaches.of_closed (fun b o c hb ho hc => ?_) (fun b hb => Reaches.root hb) h
  have ho' := (hk.same b (hvalid b hb)).symm.trans ho
  exact Reaches.field hb ho' hc

theorem World.Known.of_write {a : ℕ} {o : PyObject} (ho : ∀ x ∈ o.fields, w.Knows x) {b : ℕ}
    (h : World.Known { w with heap := w.heap.set a o } b) : w.Known b := by
  refine Reaches.of_closed (fun c o' d hc hc' hd => ?_) (fun c hc => Reaches.root hc) h
  by_cases hac : a = c
  · subst hac
    have hlt : a < w.heap.length := by
      have hlt := (List.getElem?_eq_some_iff.mp hc').1
      rwa [List.length_set] at hlt
    rw [List.getElem?_set_self hlt] at hc'
    cases hc'
    exact ho _ hd d rfl
  · rw [List.getElem?_set_ne hac] at hc'
    exact Reaches.field hc hc' hd

theorem World.Known.of_make {o : PyObject} (hvalid : ∀ a, w.Known a → a < w.heap.length)
    (ho : ∀ x ∈ o.fields, w.Knows x) {b : ℕ}
    (h : World.Known ⟨w.heap ++ [o], w.manager, .ref w.heap.length :: w.held⟩ b) :
    w.Known b ∨ b = w.heap.length := by
  refine Reaches.of_closed (P := fun b => w.Known b ∨ b = w.heap.length) ?_ ?_ h
  · rintro c o' d (hc | rfl) hc' hd
    · rw [List.getElem?_append_left (hvalid c hc)] at hc'
      exact .inl (Reaches.field hc hc' hd)
    · rw [List.getElem?_concat_length] at hc'
      cases hc'
      exact .inl (ho _ hd d rfl)
  · intro c hc
    rcases List.mem_cons.mp hc with hc | hc
    · cases hc
      exact .inr rfl
    · exact .inl (Reaches.root hc)

/-- What callers are given is all they get to. -/
theorem World.Known.of_returned {heap' : PyHeap} {m' : ObjectManager} {y : PyHandle} {n : ℕ}
    {v : Value} {G : List ℕ} (hvalid : ∀ a, w.Known a → a < w.heap.length)
    (hk : Keeps w.heap heap') (hy : Stands n heap' y v G) {a : ℕ}
    (h : World.Known ⟨heap', m', y :: w.held⟩ a) : w.Known a ∨ a ∈ G := by
  obtain ⟨hroot, hclosed⟩ := hy.closed
  refine Reaches.of_closed (P := fun a => w.Known a ∨ a ∈ G) ?_ ?_ h
  · rintro b o c (hb | hb) ho hc
    · have ho' := (hk.same b (hvalid b hb)).symm.trans ho
      exact .inl (Reaches.field hb ho' hc)
    · exact .inr (hclosed b o c hb ho hc)
  · intro b hb
    rcases List.mem_cons.mp hb with hb | hb
    · exact .inr (hroot b hb.symm)
    · exact .inl (Reaches.root hb)

theorem applyTransaction_useMerkle_eq {m m' : ObjectManager} {tx : PyHandle} {heap heap' : PyHeap}
    {res : Except Fault PyHandle}
    (h : m.applyTransaction limit rt table tx heap = (m', res, heap')) :
    m'.useMerkle = m.useMerkle := by
  unfold ObjectManager.applyTransaction at h
  split at h
  · rw [← (Prod.mk.inj h).1]
  · rw [← (Prod.mk.inj h).1]

/-- The state stays sealed when the manager replaces it and hands out a copy. -/
theorem Sealed.returned {heap' : PyHeap} {m' : ObjectManager} {manager : StateManager}
    {y : PyHandle} {n : ℕ} {v : Value} {F' G : List ℕ} (hw : Sealed limit w m)
    (hk : Keeps w.heap heap') (hmerkle : m'.useMerkle = manager.useMerkle)
    (hs : Stands limit heap' m'.state (.dict manager.state) F')
    (hF' : ∀ b ∈ F', ¬ w.Known b) (hy : Stands n heap' y v G) (hdisjoint : G.Disjoint F') :
    Sealed limit ⟨heap', m', y :: w.held⟩ manager := by
  refine ⟨hmerkle, fun a ha => ?_, F', hs, fun b hb hknown => ?_⟩
  · rcases World.Known.of_returned hw.valid hk hy ha with ha | ha
    · exact (hw.valid a ha).trans_le hk.grows
    · exact hy.lt_length a ha
  · rcases World.Known.of_returned hw.valid hk hy hknown with hknown | hmem
    · exact hF' b hb hknown
    · exact hdisjoint hmem hb

theorem Sealed.replaced {heap' : PyHeap} {m' : ObjectManager} {manager : StateManager}
    {F' : List ℕ} (hw : Sealed limit w m) (hk : Keeps w.heap heap')
    (hmerkle : m'.useMerkle = manager.useMerkle)
    (hs : Stands limit heap' m'.state (.dict manager.state) F')
    (hF' : ∀ b ∈ F', ¬ w.Known b) : Sealed limit ⟨heap', m', w.held⟩ manager := by
  refine ⟨hmerkle, fun a ha => ?_, F', hs, fun b hb hknown => ?_⟩
  · exact (hw.valid a (World.Known.of_keeps hw.valid hk ha)).trans_le hk.grows
  · exact hF' b hb (World.Known.of_keeps hw.valid hk hknown)

/-- Callers do not get to what is new. -/
theorem not_known_of_new {F F' : List ℕ} (hvalid : ∀ a, w.Known a → a < w.heap.length)
    (hF : ∀ a ∈ F, ¬ w.Known a) (hF' : ∀ b ∈ F', b ∈ F ∨ w.heap.length ≤ b) :
    ∀ b ∈ F', ¬ w.Known b := by
  intro b hb hknown
  have hlt := hvalid b hknown
  rcases hF' b hb with hb | hb
  · exact hF b hb hknown
  · omega

theorem freshState_ok (hlimit : 4 ≤ limit) {heap : PyHeap} {x : Option PyHandle}
    {newState : Option State} (hx : StandsForArgument limit heap x newState) :
    ∃ y heap' F, ObjectManager.freshState limit x heap = (.ok y, heap') ∧ Keeps heap heap' ∧
      Stands limit heap' y (.dict (newState.getD [(.str "balances", .dict [])])) F ∧
      ∀ b ∈ F, heap.length ≤ b := by
  cases x with
  | some x =>
    cases newState with
    | none => cases hx
    | some S =>
      obtain ⟨F, hF⟩ := hx
      obtain ⟨y, heap', F', hrun, hy, hgrows, hsame, hnew⟩ := copyObject_ok hF
      exact ⟨y, heap', F', hrun, ⟨hgrows, hsame⟩, hy, hnew⟩
  | none =>
    cases newState with
    | some S => cases hx
    | none =>
      let balances : PyObject := ⟨.dict [], []⟩
      let whole : PyObject := ⟨.dict [.str "balances"], [.ref heap.length]⟩
      have hrun : ObjectManager.freshState limit none heap =
          (.ok (.ref (heap ++ [balances]).length), heap ++ [balances] ++ [whole]) := rfl
      have hk : Keeps heap (heap ++ [balances] ++ [whole]) := by
        refine ⟨by simp, fun a ha => ?_⟩
        rw [List.append_assoc]
        exact List.getElem?_append_left ha
      have hbalances : Stands 1 (heap ++ [balances] ++ [whole]) (.ref heap.length) (.dict [])
          [heap.length] :=
        Owns.ref_iff.mpr ⟨balances, [], [], by simp, OwnsAll.nil 0 _, by simp, rfl, rfl⟩
      have hfields : StandsAll 1 (heap ++ [balances] ++ [whole]) [.ref heap.length] [.dict []]
          [heap.length] :=
        OwnsAll.cons_iff.mpr ⟨_, _, [], [], hbalances, OwnsAll.nil 1 _, by simp, rfl, by simp⟩
      have hwhole : Stands 2 (heap ++ [balances] ++ [whole]) (.ref (heap ++ [balances]).length)
          (.dict [(.str "balances", .dict [])]) [(heap ++ [balances]).length, heap.length] :=
        Owns.ref_iff.mpr ⟨whole, _, _, by simp, hfields, by simp, rfl, rfl⟩
      refine ⟨_, _, _, hrun, hk, hwhole.mono (by omega), ?_⟩
      simp

/-- A move keeps the state sealed, and callers see what the values are. -/
theorem Sealed.step (hlimit : 4 ≤ limit) (htable : TableTracks limit rt.handlers table)
    {seen : List Seen} {w' : World} (hstep : CallerStep limit rt table w seen w')
    (hw : Sealed limit w m) :
    m.ShowsAll rt seen ∧ Sealed limit w' (seen.foldl (StateManager.after rt) m) := by
  obtain ⟨F, hs, hF⟩ := hw.state
  cases hstep with
  | @write a o ha ho =>
    refine ⟨trivial, hw.merkle, fun b hb => ?_, F, ?_, fun b hb hknown => hF b hb ?_⟩
    · rw [List.length_set]
      exact hw.valid b (World.Known.of_write ho hb)
    · refine hs.frame fun b hb => List.getElem?_set_ne ?_
      rintro rfl
      exact hF _ hb ha
    · exact World.Known.of_write ho hknown
  | @make o ho =>
    have hknown : ∀ b, World.Known ⟨w.heap ++ [o], w.manager, .ref w.heap.length :: w.held⟩ b →
        w.Known b ∨ b = w.heap.length := fun b hb => World.Known.of_make hw.valid ho hb
    refine ⟨trivial, hw.merkle, fun b hb => ?_, F, ?_, fun b hb hk => ?_⟩
    · rw [List.length_append]
      rcases hknown b hb with hb | rfl
      · have hlt := hw.valid b hb
        omega
      · simp
    · exact hs.frame fun b hb => List.getElem?_append_left (hs.lt_length b hb)
    · have hlt := hs.lt_length b hb
      rcases hknown b hk with hk | rfl
      · exact hF b hb hk
      · omega
  | @applied tx y T G m' heap' new htx ht hrun hy =>
    obtain ⟨hk, F', hs', hsub, hres⟩ := applyTransaction_call htable hw.merkle hs ht
    rw [hrun] at hk hs' hres
    have hmerkle := applyTransaction_useMerkle_eq hrun
    cases hp : (m.applyTransaction rt T).2 with
    | error e =>
      rw [hp] at hres
      cases hres
    | ok result =>
      rw [hp] at hres
      obtain ⟨y', F'', hy', hstands, hfresh, hdisjoint⟩ := hres
      cases hy'
      have hnew : new = result := by
        have hload := hy.symm.trans (loadState_ok hstands le_rfl)
        injection (Prod.mk.inj hload).1
      refine ⟨⟨hp.trans (by rw [hnew]), trivial⟩, ?_⟩
      refine hw.returned hk ?_ hs' (not_known_of_new hw.valid hF hsub) hstands hdisjoint
      rw [hmerkle, hw.merkle]
      exact (StateManager.applyTransaction_useMerkle rt m T).symm
  | @raised tx T G m' heap' e htx ht hrun =>
    obtain ⟨hk, F', hs', hsub, hres⟩ := applyTransaction_call htable hw.merkle hs ht
    rw [hrun] at hk hs' hres
    have hmerkle := applyTransaction_useMerkle_eq hrun
    cases hp : (m.applyTransaction rt T).2 with
    | ok result =>
      rw [hp] at hres
      obtain ⟨y', F'', hy', -⟩ := hres
      cases hy'
    | error e' =>
      rw [hp] at hres
      cases hres
      refine ⟨⟨hp, trivial⟩, hw.replaced hk ?_ hs' (not_known_of_new hw.valid hF hsub)⟩
      rw [hmerkle, hw.merkle]
      exact (StateManager.applyTransaction_useMerkle rt m T).symm
  | @read y heap' state hrun hy =>
    obtain ⟨y', heap'', F', hcopy, hstands, hgrows, hsame, hnew⟩ := copyObject_ok hs
    obtain ⟨hy', rfl⟩ := Prod.mk.inj (hrun.symm.trans hcopy)
    cases hy'
    have hstate : state = m.state := by
      have hload := hy.symm.trans (loadState_ok hstands le_rfl)
      injection (Prod.mk.inj hload).1
    have hs' := hs.frame fun b hb => hsame b (hs.lt_length b hb)
    refine ⟨⟨hstate.symm, trivial⟩, hw.returned ⟨hgrows, hsame⟩ hw.merkle hs' hF hstands ?_⟩
    intro b hb hb'
    have hlt := hs.lt_length b hb'
    have hge := hnew b hb
    omega
  | @reset x newState y heap' hx hrun =>
    obtain ⟨y', heap'', F', hfresh, hk, hstands, hnew⟩ := freshState_ok hlimit hx
    obtain ⟨hy', rfl⟩ := Prod.mk.inj (hrun.symm.trans hfresh)
    cases hy'
    refine ⟨⟨trivial, trivial⟩, hw.replaced hk hw.merkle hstands ?_⟩
    exact not_known_of_new hw.valid hF fun b hb => .inr (hnew b hb)

/-- So does any number of moves. -/
theorem Sealed.run (hlimit : 4 ≤ limit) (htable : TableTracks limit rt.handlers table)
    (hw : Sealed limit w m) {seen : List Seen} {w' : World}
    (hsteps : CallerRun limit rt table w seen w') :
    m.ShowsAll rt seen ∧ Sealed limit w' (seen.foldl (StateManager.after rt) m) := by
  induction hsteps with
  | none => exact ⟨trivial, hw⟩
  | next _ hstep ih =>
    obtain ⟨hshows, hsealed⟩ := ih
    obtain ⟨hmore, hsealed'⟩ := hsealed.step hlimit htable hstep
    rw [List.foldl_append]
    exact ⟨(StateManager.showsAll_append rt m _ _).mpr ⟨hshows, hmore⟩, hsealed'⟩

end Sealing

/-- The programs of one of the tables that the program registers. -/
def Installed (limit : ℕ) (rt : Runtime) (table : HandlersInPlace) : Prop :=
  (rt.handlers = builtinHandlers rt.toInterp ∧ table = builtinHandlersInPlace limit rt.toInterp) ∨
  (rt.handlers = registerSupplyChainHandlers rt.toInterp (builtinHandlers rt.toInterp) ∧
    table = registerSupplyChainInPlace limit rt.toInterp
      (builtinHandlersInPlace limit rt.toInterp))

theorem Installed.tracks {limit : ℕ} {rt : Runtime} {table : HandlersInPlace}
    (h : Installed limit rt table) (hlimit : 4 ≤ limit) :
    TableTracks limit rt.handlers table := by
  rcases h with ⟨hhandlers, rfl⟩ | ⟨hhandlers, rfl⟩
  · rw [hhandlers]
    exact builtinHandlersInPlace_tracks
  · rw [hhandlers]
    exact registerSupplyChainInPlace_tracks hlimit builtinHandlersInPlace_tracks

/-- Whatever callers write to the objects they can get to, between calls of the manager and
in any order, they see what the manager on values shows, its state is the state that the
calls alone have made, callers cannot get to an object of it, and the next call returns or
raises what it does on values: `apply_transaction` on a transaction of scalars, `get_state`,
and `reset` to a state whose objects share nothing inside. -/
theorem sealed_from_start {limit : ℕ} {rt : Runtime} {table : HandlersInPlace}
    (hlimit : 4 ≤ limit) (htable : Installed limit rt table) {heap heap' : PyHeap}
    {held : List PyHandle} (hheld : ∀ a, Reaches heap held a → a < heap.length)
    {argument : Option PyHandle} {initialState : Option State}
    (hargument : StandsForArgument limit heap argument initialState) {state : PyHandle}
    (hstart : ObjectManager.freshState limit argument heap = (.ok state, heap'))
    {useMerkle : Bool} {seen : List Seen} {w : World}
    (hrun : CallerRun limit rt table ⟨heap', ⟨state, useMerkle⟩, held⟩ seen w) :
    let start := StateManager.init initialState useMerkle
    let now := seen.foldl (StateManager.after rt) start
    start.ShowsAll rt seen ∧
    loadState limit w.manager.state w.heap = (.ok now.state, w.heap) ∧
    ∃ F, Stands limit w.heap w.manager.state (.dict now.state) F ∧ (∀ a ∈ F, ¬ w.Known a) ∧
      (∀ tx T G, Stands 1 w.heap tx (.dict T) G →
        Call limit w.heap F (now.applyTransaction rt T).1.state (now.applyTransaction rt T).2
          (w.manager.applyTransaction limit rt table tx w.heap)) ∧
      (∃ y heap₁, w.manager.getState limit w.heap = (.ok y, heap₁) ∧ Keeps w.heap heap₁ ∧
        loadState limit y heap₁ = (.ok now.state, heap₁)) ∧
      ∀ x newState, StandsForArgument limit w.heap x newState →
        ∃ y heap₁, ObjectManager.freshState limit x w.heap = (.ok y, heap₁) ∧
          Keeps w.heap heap₁ ∧ loadState limit y heap₁ = (.ok (now.reset newState).state, heap₁) := by
  intro start now
  obtain ⟨y, heap₁, F, hfresh, hk, hs, hnew⟩ := freshState_ok hlimit hargument
  obtain ⟨hy, rfl⟩ := Prod.mk.inj (hstart.symm.trans hfresh)
  cases hy
  have hsealed : Sealed limit ⟨heap', ⟨state, useMerkle⟩, held⟩ start := by
    have hknown : ∀ a, World.Known ⟨heap', ⟨state, useMerkle⟩, held⟩ a → Reaches heap held a :=
      fun a ha => World.Known.of_keeps (w := ⟨heap, ⟨state, useMerkle⟩, held⟩) hheld hk ha
    refine ⟨rfl, fun a ha => (hheld a (hknown a ha)).trans_le hk.grows, F, hs, fun a ha hreach => ?_⟩
    have hlt := hheld a (hknown a hreach)
    have hge := hnew a ha
    omega
  obtain ⟨hshows, hmerkle, -, F', hs', hF'⟩ := hsealed.run hlimit (htable.tracks hlimit) hrun
  refine ⟨hshows, loadState_ok hs' le_rfl, F', hs', hF', fun tx T G ht => ?_, ?_,
    fun x newState hx => ?_⟩
  · exact applyTransaction_call (htable.tracks hlimit) hmerkle hs' ht
  · obtain ⟨y, heap₁, G, hcopy, hy, hgrows, hsame, -⟩ := copyObject_ok hs'
    exact ⟨y, heap₁, hcopy, ⟨hgrows, hsame⟩, loadState_ok hy le_rfl⟩
  · obtain ⟨y, heap₁, G, hfresh, hkeeps, hy, -⟩ := freshState_ok hlimit hx
    exact ⟨y, heap₁, hfresh, hkeeps, loadState_ok hy le_rfl⟩

/-! ## A caller that writes to what it was given -/

def supplyChainInPlace : HandlersInPlace :=
  registerSupplyChainInPlace 4 referenceInterp (builtinHandlersInPlace 4 referenceInterp)

/-- `{"balances": …}` over the object with the balances. -/
def balancesObject (a : ℕ) : PyObject := ⟨.dict [.str "balances"], [.ref a]⟩

/-- `{"a": n}`. -/
def balanceObject (n : ℤ) : PyObject := ⟨.dict [.str "a"], [.leaf (.int n)]⟩

/-- A transaction of the caller that mints 5 for `a`. -/
def mintObject : PyObject :=
  ⟨.dict [.str "type", .str "to", .str "amount"],
    [.leaf (.str "mint"), .leaf (.str "a"), .leaf (.int 5)]⟩

def mintFive : Transaction :=
  [(.str "type", .str "mint"), (.str "to", .str "a"), (.str "amount", .int 5)]

def fundedState : State := [(.str "balances", .dict [(.str "a", .int 5)])]

/-- The objects after the caller has made and submitted the transaction. -/
def mintedHeap : PyHeap :=
  [⟨.dict [], []⟩, balancesObject 0, mintObject, balancesObject 4, ⟨.dict [], []⟩, balancesObject 6,
    balanceObject 5, balancesObject 8, balanceObject 5]

def startWorld : World := ⟨[⟨.dict [], []⟩, balancesObject 0], ⟨.ref 1, false⟩, []⟩

/-- The caller has given itself a million in the state that it was given, and has read the
state again. -/
def forgedWorld : World :=
  ⟨mintedHeap.set 8 (balanceObject 1000000) ++ [balancesObject 10, balanceObject 5], ⟨.ref 5, false⟩,
    [.ref 9, .ref 7, .ref 2]⟩

theorem forgery_run : CallerRun 4 (referenceRuntime true) supplyChainInPlace startWorld
    [.applied mintFive (.ok fundedState), .read fundedState] forgedWorld := by
  have hmake : CallerRun 4 (referenceRuntime true) supplyChainInPlace startWorld []
      ⟨[⟨.dict [], []⟩, balancesObject 0, mintObject], ⟨.ref 1, false⟩, [.ref 2]⟩ :=
    .next .none (.make (by simp [mintObject, World.Knows]))
  have hheld : World.Knows ⟨[⟨.dict [], []⟩, balancesObject 0, mintObject], ⟨.ref 1, false⟩,
      [.ref 2]⟩ (.ref 2) := by
    intro a ha
    cases ha
    exact .root List.mem_cons_self
  have htx : Stands 1 [⟨.dict [], []⟩, balancesObject 0, mintObject] (.ref 2) (.dict mintFive) [2] :=
    ⟨rfl, by simp⟩
  have hmint : CallerRun 4 (referenceRuntime true) supplyChainInPlace startWorld
      [.applied mintFive (.ok fundedState)] ⟨mintedHeap, ⟨.ref 5, false⟩, [.ref 7, .ref 2]⟩ :=
    hmake.next (.applied hheld htx rfl rfl)
  have hbalances : World.Known ⟨mintedHeap, ⟨.ref 5, false⟩, [.ref 7, .ref 2]⟩ 8 :=
    .field (a := 7) (.root List.mem_cons_self) rfl (by simp [balancesObject])
  have hwrite := hmint.next (.write (o := balanceObject 1000000) hbalances
    (by simp [balanceObject, World.Knows]))
  exact hwrite.next (.read rfl rfl)

/-- The manager still has 5 for `a`. -/
theorem sealed_from_start_forgery :
    ((StateManager.init none false).ShowsAll (referenceRuntime true)
      [.applied mintFive (.ok fundedState), .read fundedState]) ∧
    ∃ F, Stands 4 forgedWorld.heap forgedWorld.manager.state (.dict fundedState) F ∧
      ∀ a ∈ F, ¬ forgedWorld.Known a := by
  have hnone : ∀ a, Reaches ([] : PyHeap) [] a → a < ([] : PyHeap).length := fun a ha =>
    Reaches.of_closed (P := fun a => a < ([] : PyHeap).length)
      (fun _ _ _ hlt => absurd hlt (Nat.not_lt_zero _)) (by simp) ha
  have hargument : StandsForArgument 4 ([] : PyHeap) none none := trivial
  have hstart : ObjectManager.freshState 4 none [] =
      (.ok (.ref 1), [⟨.dict [], []⟩, balancesObject 0]) := rfl
  have h := sealed_from_start (le_refl 4) (.inr ⟨rfl, rfl⟩) hnone hargument hstart forgery_run
  obtain ⟨hshows, -, F, hs, hF, -⟩ := h
  exact ⟨hshows, F, hs, hF⟩

/-! ## A transaction that is not of scalars -/

/-- A product at the factory, a list of places, and a transaction that ships to the list. -/
def shippingHeap (place : String) : PyHeap :=
  [⟨.dict [.str "status", .str "location", .str "owner"],
      [.leaf (.str "manufactured"), .leaf (.str "factory"), .leaf (.str "maker")]⟩,
    ⟨.dict [.str "p"], [.ref 0]⟩,
    ⟨.dict [.str "balances", .str "products"], [.ref 3, .ref 1]⟩,
    ⟨.dict [], []⟩,
    ⟨.list, [.leaf (.str place)]⟩,
    ⟨.dict [.str "type", .str "product_id", .str "destination", .str "shipper"],
      [.leaf (.str "ship"), .leaf (.str "p"), .ref 4, .leaf (.str "s")]⟩]

/-- The state with the product on its way to the list of places. -/
def shippedState (place : String) : State :=
  [(.str "balances", .dict []), (.str "products", .dict [(.str "p", .dict
    [(.str "status", .str "in_transit"), (.str "location", .list [.str place]),
      (.str "owner", .str "s")])])]

/-- The new state shares the list with the caller, whose later write to it changes the state. -/
theorem shared_destination :
    ∃ state heap, executeInPlace 4 referenceInterp supplyChainInPlace (.ref 2) (.ref 5)
        (shippingHeap "here") = (.ok state, heap) ∧
      (loadState 4 state heap).1 = .ok (shippedState "here") ∧
      (loadState 4 state (heap.set 4 ⟨.list, [.leaf (.str "there")]⟩)).1 =
        .ok (shippedState "there") :=
  ⟨.ref 6, _, rfl, rfl, rfl⟩

end ECN
