import ECN.OrderedDict

/-!
# Node health

Each node is healthy, suspect, excluded or rehabilitating. Failures in a row push
it towards exclusion, successes bring it back, and an excluded node must wait for
the rehabilitation window. Times are microseconds and latencies milliseconds.
-/
namespace ECN

inductive NodeState where
  | healthy
  | suspect
  | excluded
  | rehabilitating
  deriving DecidableEq, Repr

/-- Consecutive failures before a node is suspect. -/
def suspectThreshold : ℕ := 3

/-- Consecutive failures before a node is excluded. -/
def excludedThreshold : ℕ := 5

/-- Time excluded before a success rehabilitates. -/
def rehabWindow : ℕ := 60 * 1000000

/-- Number of recent latency samples. -/
def latencyWindow : ℕ := 20

/-- Current health of a single node. -/
structure NodeHealth where
  nodeId : String
  state : NodeState
  consecutiveFailures : ℕ
  lastSuccessAt : Option ℕ
  excludedSince : Option ℕ
  latencySamples : List ℚ

namespace NodeHealth

def init (nodeId : String) : NodeHealth := ⟨nodeId, .healthy, 0, none, none, []⟩

/-- The window was over when `now` was read. -/
def windowOver (since : Option ℕ) (now : ℕ) : Bool :=
  match since with
  | some t => rehabWindow ≤ now - t
  | none => false

def recordSuccess (health : NodeHealth) (now : ℕ) (latencyMs : ℚ) : NodeHealth :=
  let samples := health.latencySamples ++ [latencyMs]
  let health := { health with
    latencySamples := samples.drop (samples.length - latencyWindow)
    consecutiveFailures := 0
    lastSuccessAt := some now }
  match health.state with
  | .excluded =>
    if windowOver health.excludedSince now then
      { health with state := .rehabilitating, excludedSince := none }
    else health
  | .rehabilitating => { health with state := .healthy }
  | .suspect | .healthy => { health with state := .healthy }

def recordFailure (health : NodeHealth) (now : ℕ) : NodeHealth :=
  let health := { health with consecutiveFailures := health.consecutiveFailures + 1 }
  if health.state = .excluded then health
  else if excludedThreshold ≤ health.consecutiveFailures then
    { health with state := .excluded, excludedSince := some now }
  else if suspectThreshold ≤ health.consecutiveFailures then { health with state := .suspect }
  else if health.state = .rehabilitating then { health with state := .suspect }
  else health

/-- Outside exclusion a success ends any trouble. -/
theorem recordSuccess_healthy {health : NodeHealth} (h : health.state ≠ .excluded) (now : ℕ)
    (latencyMs : ℚ) : (health.recordSuccess now latencyMs).state = .healthy := by
  unfold recordSuccess
  cases hs : health.state with
  | excluded => exact absurd hs h
  | rehabilitating => rfl
  | suspect => rfl
  | healthy => rfl

@[simp] theorem recordSuccess_failures (health : NodeHealth) (now : ℕ) (latencyMs : ℚ) :
    (health.recordSuccess now latencyMs).consecutiveFailures = 0 := by
  unfold recordSuccess
  dsimp only
  split
  · split <;> rfl
  all_goals rfl

@[simp] theorem recordFailure_failures (health : NodeHealth) (now : ℕ) :
    (health.recordFailure now).consecutiveFailures = health.consecutiveFailures + 1 := by
  unfold recordFailure
  dsimp only
  split_ifs <;> rfl

/-- A healthy node stays healthy exactly while the run of failures is short. -/
theorem recordFailure_healthy_iff {health : NodeHealth} (h : health.state = .healthy) (now : ℕ) :
    (health.recordFailure now).state = .healthy ↔
      health.consecutiveFailures + 1 < suspectThreshold := by
  unfold recordFailure
  simp only [h, reduceCtorEq, if_false]
  split_ifs with h₁ h₂
  · simp only [suspectThreshold, excludedThreshold] at *
    simp only [false_iff]
    omega
  · simp only [false_iff]
    omega
  · simp only [true_iff]
    omega

end NodeHealth

/-- Health records by node id. -/
abbrev NodeHealthRegistry := OrderedDict String NodeHealth

namespace NodeHealthRegistry

/-- The health record of a node; unknown nodes are healthy. -/
def get (registry : NodeHealthRegistry) (nodeId : String) : NodeHealth :=
  registry.getD nodeId (.init nodeId)

/-- Create the record when it is missing. -/
def getOrCreate (registry : NodeHealthRegistry) (nodeId : String) : NodeHealthRegistry :=
  registry.set nodeId (get registry nodeId)

def recordSuccess (registry : NodeHealthRegistry) (nodeId : String) (now : ℕ) (latencyMs : ℚ) :
    NodeHealthRegistry :=
  registry.set nodeId ((get registry nodeId).recordSuccess now latencyMs)

def recordFailure (registry : NodeHealthRegistry) (nodeId : String) (now : ℕ) :
    NodeHealthRegistry :=
  registry.set nodeId ((get registry nodeId).recordFailure now)

@[simp] theorem get_set (registry : NodeHealthRegistry) (k nodeId : String) (health : NodeHealth) :
    get (registry.set k health) nodeId = if nodeId = k then health else get registry nodeId := by
  unfold get OrderedDict.getD
  rw [OrderedDict.get?_set]
  split_ifs <;> rfl

end NodeHealthRegistry
end ECN
