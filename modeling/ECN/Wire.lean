import ECN.P2PNetwork

/-!
# Replies as they arrive

A reply is a line of JSON, and the three fields that are read from it can hold any JSON
value. They flow unchecked into the lookup of the key, the check of the signature, the
counter of the votes and the printed report, all of which reject some types. What is
raised while one reply is read counts as a failure of its server; what is raised later
leaves the broadcast.
-/
namespace ECN

variable {rt : Runtime}

def isSurrogate (codePoint : ℕ) : Bool := decide (0xD800 ≤ codePoint ∧ codePoint ≤ 0xDFFF)

/-- A string of the language. JSON escapes can name lone surrogates; a string that holds
one cannot be encoded. -/
inductive PyStr where
  | text (s : String)
  | broken (codePoints : List ℕ) (surrogate : codePoints.any isSurrogate = true)
  deriving DecidableEq

inductive JsonScalar where
  | null
  | bool (b : Bool)
  | int (n : ℤ)
  | float (x : PyFloat)
  | str (s : PyStr)
  deriving DecidableEq

inductive Json where
  | scalar (s : JsonScalar)
  | list (vs : List Json)
  | object (fields : List (PyStr × Json))

@[match_pattern] abbrev Json.null : Json := .scalar .null
@[match_pattern] abbrev Json.text (s : String) : Json := .scalar (.str (.text s))

instance : Inhabited Json := ⟨.null⟩

namespace PyStr

def codePoints : PyStr → List ℕ
  | .text s => s.toList.map Char.toNat
  | .broken codePoints _ => codePoints

/-- The bytes of the text, where it has any. -/
def encode : PyStr → Option String
  | .text s => some s
  | .broken _ _ => none

/-- `a < b`, by code points. -/
def lt : PyStr → PyStr → Bool
  | .text s, .text t => decide (s < t)
  | s, t => decide (s.codePoints < t.codePoints)

end PyStr

namespace JsonScalar

def num : JsonScalar → Option ExtRat
  | .bool b => some (.fin (if b then 1 else 0))
  | .int n => some (.fin n)
  | .float x => some x.ext
  | .null | .str _ => none

/-- `a == b`. -/
def eq (a b : JsonScalar) : Bool :=
  match a.num, b.num with
  | some x, some y => x.eq y
  | none, none => decide (a = b)
  | _, _ => false

/-- Dictionaries find a key by identity before they compare. The parser makes one object
for all NaNs. -/
def sameKey (a b : JsonScalar) : Bool := decide (a = b) || a.eq b

/-- `a < b`; types that do not compare raise. -/
def lt (a b : JsonScalar) : Option Bool :=
  match a, b with
  | .str s, .str t => some (s.lt t)
  | a, b =>
    match a.num, b.num with
    | some x, some y => some (x.lt y)
    | _, _ => none

def truthy : JsonScalar → Bool
  | .null => false
  | .bool b => b
  | .int n => decide (n ≠ 0)
  | .float x => !x.ext.eq (.fin 0)
  | .str s => decide (s ≠ .text "")

@[simp] theorem sameKey_text (k : JsonScalar) (s : String) :
    k.sameKey (.str (.text s)) = decide (k = .str (.text s)) := by
  cases k <;> simp [sameKey, eq, num]

@[simp] theorem text_sameKey (s : String) (k : JsonScalar) :
    sameKey (.str (.text s)) k = decide (k = .str (.text s)) := by
  cases k <;> simp [sameKey, eq, num, eq_comm]

@[simp] theorem eq_text (k : JsonScalar) (s : String) :
    k.eq (.str (.text s)) = decide (k = .str (.text s)) := by
  cases k <;> simp [eq, num]

end JsonScalar

namespace Json

/-- The dictionary key that a value can be; lists and objects are not hashable. -/
def asKey : Json → Option JsonScalar
  | .scalar s => some s
  | .list _ | .object _ => none

variable (py : Interp) (containerRepr : Json → String)

/-- `str(v)`. The text of a list or an object escapes what cannot be encoded. -/
def pyStr : Json → PyStr
  | .scalar .null => .text "None"
  | .scalar (.bool b) => .text (if b then "True" else "False")
  | .scalar (.int n) => .text (toString n)
  | .scalar (.float x) => .text (py.floatRepr x)
  | .scalar (.str s) => s
  | .list vs => .text (containerRepr (.list vs))
  | .object fields => .text (containerRepr (.object fields))

end Json

namespace Wire

/-- A result as it was read, of unknown types. -/
structure WireResult where
  nodeId : Json
  stateHash : Json
  signature : Json

def field (fields : List (PyStr × Json)) (name : String) : Option Json :=
  fields.lookup (.text name)

/-- Read one reply. Only an object gets past the test for an error and the subscripts. -/
def receive : Json → Option WireResult
  | .object fields =>
    match field fields "error" with
    | some _ => none
    | none => do
      let nodeId ← field fields "node_id"
      let stateHash ← field fields "state_hash"
      return ⟨nodeId, stateHash, (field fields "signature").getD .null⟩
  | .scalar _ | .list _ => none

/-- The reply of one server with its latency, or nothing where no JSON arrives in time. -/
abbrev WireResponse := Option (WireResult × ℚ)

def response (reply : Option (Json × ℚ)) : WireResponse := do
  let (data, latencyMs) ← reply
  return (← receive data, latencyMs)

/-- Count a response towards its server's health. -/
def recordResponse (now : ℕ) (registry : NodeHealthRegistry) (p : NodeServer rt × WireResponse) :
    NodeHealthRegistry :=
  match p.2 with
  | none => registry.recordFailure p.1.nodeId now
  | some (_, latencyMs) => registry.recordSuccess p.1.nodeId now latencyMs

/-! ## Consensus -/

/-- Output of a consensus round; `null` where no hash is agreed. -/
structure WireConsensus where
  agreedHash : JsonScalar
  voteCounts : List (JsonScalar × ℕ)
  honestNodes : List Json
  faultyNodes : List Json
  invalidSigNodes : List Json
  totalNodes : ℕ
  quorumThreshold : ℚ
  consensusReached : Bool

/-- `vote_counts.get(k, 0)`. -/
def votesFor (voteCounts : List (JsonScalar × ℕ)) (k : JsonScalar) : ℕ :=
  ((voteCounts.find? fun e => e.1.sameKey k).map Prod.snd).getD 0

def WireConsensus.init (R : Rounding) (agreedHash : JsonScalar)
    (voteCounts : List (JsonScalar × ℕ)) (honestNodes faultyNodes invalidSigNodes : List Json)
    (quorumThreshold : ℚ) : WireConsensus where
  agreedHash
  voteCounts
  honestNodes
  faultyNodes
  invalidSigNodes
  totalNodes := honestNodes.length + faultyNodes.length
  quorumThreshold
  consensusReached :=
    let totalVerified := (voteCounts.map Prod.snd).sum
    if agreedHash ≠ .null ∧ 0 < totalVerified then
      decide (quorumThreshold ≤ R ((votesFor voteCounts agreedHash : ℚ) / totalVerified))
    else false

/-- One more vote for `k`. -/
def increment (k : JsonScalar) : List (JsonScalar × ℕ) → List (JsonScalar × ℕ)
  | [] => [(k, 1)]
  | e :: es => if e.1.sameKey k then (e.1, e.2 + 1) :: es else e :: increment k es

/-- `Counter(hashes)`. -/
def counter (hashes : List JsonScalar) : List (JsonScalar × ℕ) :=
  hashes.foldl (fun voteCounts k => increment k voteCounts) []

/-- `min(candidates)`. -/
def minimum : List JsonScalar → Option JsonScalar
  | [] => none
  | k :: ks => ks.foldlM (fun least k => do return if ← k.lt least then k else least) k

/-- Most votes, and the least hash on a tie; hashes that do not compare raise. -/
def selectWinner (voteCounts : List (JsonScalar × ℕ)) : Option JsonScalar :=
  let maxVotes := (voteCounts.map Prod.snd).foldl max 0
  minimum ((voteCounts.filter fun e => e.2 = maxVotes).map Prod.fst)

section Consensus

variable (containerRepr : Json → String)

/-- Verify a signature. The message is built first, and text that has no encoding does not
verify; a signature that is no string raises. -/
def verifyResult (nodeId : String) (stateHash signature : Json) (publicKey : rt.PublicKey) :
    Option Bool :=
  match (stateHash.pyStr rt.toInterp containerRepr).encode with
  | none => some false
  | some hashText =>
    match signature with
    | .scalar (.str s) =>
      match s.encode with
      | some signatureHex =>
        some (ECN.verifyResult rt.toCrypto nodeId hashText signatureHex publicKey)
      | none => some false
    | _ => none

/-- Whether a result is counted. An id that is not hashable raises in the lookup of its
key, and all registered ids are text. -/
def accepted (keys : OrderedDict String rt.PublicKey) (r : WireResult) : Option Bool :=
  if keys.isEmpty then some true
  else
    match r.nodeId with
    | .list _ | .object _ => none
    | .scalar (.str (.text nodeId)) =>
      match keys.get? nodeId with
      | none => some false
      | some publicKey =>
        match r.signature with
        | .scalar .null => some false
        | signature => verifyResult containerRepr nodeId r.stateHash signature publicKey
    | .scalar _ => some false

/-- Perform a consensus round; nothing where an exception is raised. -/
def runConsensus (R : Rounding) (results : List WireResult)
    (keys : OrderedDict String rt.PublicKey) (quorumThreshold : ℚ) : Option WireConsensus :=
  if results.isEmpty then
    some (.init R .null [] [] [] [] quorumThreshold)
  else do
    let checked ← results.mapM fun r => do return (r, ← accepted containerRepr keys r)
    let invalidSigNodes := (checked.filter fun c => !c.2).map fun c => c.1.nodeId
    let verified := (checked.filter fun c => c.2).map Prod.fst
    if verified.isEmpty then
      return .init R .null [] [] (results.map WireResult.nodeId) invalidSigNodes quorumThreshold
    else
      let votes ← verified.mapM fun r => do return (r.nodeId, ← r.stateHash.asKey)
      let voteCounts := counter (votes.map Prod.snd)
      let agreedHash ← selectWinner voteCounts
      let honestNodes := (votes.filter fun v => v.2.eq agreedHash).map Prod.fst
      let hashFaulty := (votes.filter fun v => !v.2.eq agreedHash).map Prod.fst
      return .init R agreedHash voteCounts honestNodes (hashFaulty ++ invalidSigNodes)
        invalidSigNodes quorumThreshold

end Consensus

/-! ## The report and the broadcast -/

/-- `signature[:12]` of a signature that is not false: a string or a list has a prefix, and
the prefix of a string must be encodable. -/
def signaturePrints : Json → Bool
  | .scalar (.str (.broken codePoints _)) => !(codePoints.take 12).any isSurrogate
  | .scalar (.str (.text _)) => true
  | .scalar s => !s.truthy
  | .list _ => true
  | .object fields => fields.isEmpty

/-- One line of the report: the id is padded, which `None`, lists and objects reject, and
both id and hash are encoded. -/
def linePrints (r : WireResult) : Bool :=
  (match r.nodeId with
    | .scalar .null => false
    | .scalar (.str s) => s.encode.isSome
    | .scalar _ => true
    | .list _ | .object _ => false) &&
  (match r.stateHash with
    | .scalar (.str s) => s.encode.isSome
    | _ => true) &&
  signaturePrints r.signature

/-- What leaves a broadcast that does not return. -/
inductive RoundError where
  | insufficientQuorum (e : InsufficientQuorumError)
  | raised

/-- The responses of a round. -/
def gather (net : P2PNetwork rt) (replies : NodeServer rt → Option (Json × ℚ)) :
    List (NodeServer rt × WireResponse) :=
  net.participating.map fun s => (s, response (replies s))

/-- The results among the responses. -/
def resultsOf (responses : List (NodeServer rt × WireResponse)) : List WireResult :=
  responses.filterMap fun p => p.2.map Prod.fst

/-- A broadcast after all replies are in: the health records and the outcome. -/
def broadcast (R : Rounding) (containerRepr : Json → String) (net : P2PNetwork rt) (now : ℕ)
    (verbose : Bool) (replies : NodeServer rt → Option (Json × ℚ)) :
    NodeHealthRegistry × Except RoundError (List WireResult × WireConsensus) :=
  let responses := gather net replies
  let results := resultsOf responses
  (responses.foldl (recordResponse now) net.health,
    if (results.length : ℤ) < net.minResponses then
      .error (.insufficientQuorum ⟨"Only " ++ toString results.length ++ "/" ++
        toString net.servers.length ++ " nodes responded (min_responses=" ++
        toString net.minResponses ++ ")"⟩)
    else
      match runConsensus containerRepr R results net.publicKeys net.quorumThreshold with
      | none => .error .raised
      | some cr =>
        if verbose && !results.all linePrints then .error .raised else .ok (results, cr))

/-! ## The counter -/

theorem sum_increment (k : JsonScalar) (es : List (JsonScalar × ℕ)) :
    ((increment k es).map Prod.snd).sum = (es.map Prod.snd).sum + 1 := by
  induction es with
  | nil => simp [increment]
  | cons e es ih =>
    by_cases h : e.1.sameKey k = true
    · simp only [increment, h, if_true, List.map_cons, List.sum_cons]
      omega
    · simp only [increment, h, Bool.false_eq_true, if_false, List.map_cons, List.sum_cons, ih]
      omega

theorem votesFor_increment (k : JsonScalar) (s : String) (es : List (JsonScalar × ℕ)) :
    votesFor (increment k es) (.str (.text s)) =
      votesFor es (.str (.text s)) + if k = .str (.text s) then 1 else 0 := by
  unfold votesFor
  induction es with
  | nil => by_cases hk : k = .str (.text s) <;> simp [increment, hk]
  | cons e es ih =>
    by_cases he : e.1 = .str (.text s)
    · by_cases hk : k = .str (.text s)
      · simp [increment, he, hk]
      · simp [increment, he, hk]
    · by_cases hk : e.1.sameKey k = true
      · have hne : k ≠ .str (.text s) := fun h => he (by simpa [h] using hk)
        simp [increment, hk, he, hne]
      · simpa [increment, hk, he] using ih

theorem counter_concat (hashes : List JsonScalar) (k : JsonScalar) :
    counter (hashes ++ [k]) = increment k (counter hashes) := by
  simp [counter]

theorem sum_counter (hashes : List JsonScalar) :
    ((counter hashes).map Prod.snd).sum = hashes.length := by
  induction hashes using List.reverseRecOn with
  | nil => rfl
  | append_singleton hashes k ih =>
    rw [counter_concat, sum_increment, ih, List.length_append, List.length_singleton]

theorem votesFor_counter (hashes : List JsonScalar) (s : String) :
    votesFor (counter hashes) (.str (.text s)) = hashes.count (.str (.text s)) := by
  induction hashes using List.reverseRecOn with
  | nil => rfl
  | append_singleton hashes k ih =>
    rw [counter_concat, votesFor_increment, ih, List.count_append, List.count_singleton]
    by_cases hk : k = .str (.text s) <;> simp [hk]

theorem mem_counter {hashes : List JsonScalar} {s : String}
    (h : 0 < hashes.count (.str (.text s))) :
    (.str (.text s), hashes.count (.str (.text s))) ∈ counter hashes := by
  rw [← votesFor_counter] at h ⊢
  unfold votesFor at h ⊢
  cases hfind : (counter hashes).find? fun e => e.1.sameKey (.str (.text s)) with
  | none =>
    rw [hfind] at h
    simp at h
  | some e =>
    have hkey : e.1 = .str (.text s) := by simpa using List.find?_some hfind
    have hmem := List.mem_of_find?_eq_some hfind
    rw [← hkey]
    exact hmem

theorem foldl_max_eq {ns : List ℕ} {n : ℕ} (hmem : n ∈ ns) (hle : ∀ m ∈ ns, m ≤ n) :
    ns.foldl max 0 = n := by
  have hge : ∀ (ms : List ℕ) (m : ℕ), m ≤ ms.foldl max m ∧ ∀ k ∈ ms, k ≤ ms.foldl max m := by
    intro ms
    induction ms with
    | nil => simp
    | cons a ms ih =>
      intro m
      obtain ⟨hstart, hall⟩ := ih (max m a)
      simp only [List.foldl_cons, List.mem_cons, forall_eq_or_imp]
      exact ⟨by omega, by omega, hall⟩
  have hbound : ∀ (ms : List ℕ) (m : ℕ), m ≤ n → (∀ k ∈ ms, k ≤ n) → ms.foldl max m ≤ n := by
    intro ms
    induction ms with
    | nil => simp
    | cons a ms ih =>
      intro m hm hall
      simp only [List.mem_cons, forall_eq_or_imp] at hall
      exact ih (max m a) (by omega) hall.2
  have hlow := (hge ns 0).2 n hmem
  have hhigh := hbound ns 0 (by omega) hle
  omega

/-- An entry with more than half of the votes is the only candidate. -/
theorem selectWinner_of_majority {es : List (JsonScalar × ℕ)} {k : JsonScalar} {n : ℕ}
    (hmem : (k, n) ∈ es) (hmaj : (es.map Prod.snd).sum < 2 * n) : selectWinner es = some k := by
  obtain ⟨pre, post, rfl⟩ := List.append_of_mem hmem
  have hother : ∀ e ∈ pre ++ post, e.2 < n := by
    intro e he
    have hle : e.2 ≤ ((pre ++ post).map Prod.snd).sum :=
      List.single_le_sum (by simp) _ (List.mem_map_of_mem he)
    simp only [List.map_append, List.map_cons, List.sum_append, List.sum_cons] at hle hmaj
    omega
  have hmax : ((pre ++ (k, n) :: post).map Prod.snd).foldl max 0 = n := by
    refine foldl_max_eq (List.mem_map_of_mem hmem) ?_
    intro m hm
    obtain ⟨e, he, rfl⟩ := List.mem_map.mp hm
    simp only [List.mem_append, List.mem_cons] at he
    rcases he with he | rfl | he
    · exact (hother e (List.mem_append_left post he)).le
    · exact le_rfl
    · exact (hother e (List.mem_append_right pre he)).le
  have hnone : ∀ es' : List (JsonScalar × ℕ), (∀ e ∈ es', e ∈ pre ++ post) →
      (es'.filter fun e => e.2 = n) = [] := by
    intro es' hsub
    rw [List.filter_eq_nil_iff]
    intro e he
    have hlt := hother e (hsub e he)
    simp only [decide_eq_true_eq]
    omega
  have hpre := hnone pre fun e he => List.mem_append_left post he
  have hpost := hnone post fun e he => List.mem_append_right pre he
  unfold selectWinner
  simp only [hmax, List.filter_append, hpre, List.filter_cons, hpost, decide_true, if_true]
  rfl

theorem selectWinner_counter {hashes : List JsonScalar} {s : String}
    (hmaj : hashes.length < 2 * hashes.count (.str (.text s))) :
    selectWinner (counter hashes) = some (.str (.text s)) := by
  refine selectWinner_of_majority (mem_counter (by omega)) ?_
  rw [sum_counter]
  exact hmaj

/-! ## Rounds that return -/

theorem mapM_isSome {α β γ : Type} {f : α → Option β} {g : α → γ} {xs : List α}
    {ys : List (γ × β)} (h : (xs.mapM fun x => do return (g x, ← f x)) = some ys) :
    ∀ x ∈ xs, (f x).isSome = true := by
  induction xs generalizing ys with
  | nil => simp
  | cons x xs ih =>
    rw [List.mapM_cons] at h
    simp only [Option.bind_eq_bind, Option.bind_eq_some_iff] at h
    obtain ⟨y, ⟨b, hb, -⟩, ys', hys, -⟩ := h
    intro z hz
    rcases List.mem_cons.mp hz with rfl | hz
    · simp [hb]
    · exact ih hys z hz

theorem mapM_eq_some {α β γ : Type} {f : α → Option β} {g : α → γ} {b : α → β} {xs : List α}
    (h : ∀ x ∈ xs, f x = some (b x)) :
    (xs.mapM fun x => do return (g x, ← f x)) = some (xs.map fun x => (g x, b x)) := by
  induction xs with
  | nil => rfl
  | cons x xs ih =>
    rw [List.mapM_cons, ih fun y hy => h y (List.mem_cons_of_mem x hy),
      h x List.mem_cons_self]
    rfl

variable (containerRepr : Json → String)

/-- The result is counted. -/
def counted (keys : OrderedDict String rt.PublicKey) (r : WireResult) : Bool :=
  (accepted containerRepr keys r).getD false

/-- The hash as a key of the counter. -/
def hashKey (r : WireResult) : JsonScalar := r.stateHash.asKey.getD .null

variable {containerRepr} {R : Rounding} {results : List WireResult}
  {keys : OrderedDict String rt.PublicKey} {t : ℚ}

theorem accepted_eq_counted {r : WireResult} (h : (accepted containerRepr keys r).isSome = true) :
    accepted containerRepr keys r = some (counted containerRepr keys r) := by
  obtain ⟨b, hb⟩ := Option.isSome_iff_exists.mp h
  simp [counted, hb]

theorem checked_eq (hread : ∀ r ∈ results, (accepted containerRepr keys r).isSome = true) :
    (results.mapM fun r => do return (r, ← accepted containerRepr keys r)) =
      some (results.map fun r => (r, counted containerRepr keys r)) :=
  mapM_eq_some fun r hr => accepted_eq_counted (hread r hr)

/-- A round that does not raise could read every result and count every verified hash. -/
theorem readable_of_runConsensus {cr : WireConsensus}
    (h : runConsensus containerRepr R results keys t = some cr) :
    (∀ r ∈ results, (accepted containerRepr keys r).isSome = true) ∧
    ∀ r ∈ results, counted containerRepr keys r = true → r.stateHash.asKey.isSome = true := by
  unfold runConsensus at h
  split at h
  · next hempty =>
    rw [List.isEmpty_iff.mp hempty]
    simp
  · obtain ⟨checked, hchecked, h⟩ := Option.bind_eq_some_iff.mp h
    have hread := mapM_isSome hchecked
    rw [checked_eq hread] at hchecked
    obtain rfl := Option.some_inj.mp hchecked
    refine ⟨hread, fun r hr hcounted => ?_⟩
    have hmem : r ∈ ((results.map fun r => (r, counted containerRepr keys r)).filter
        fun c => c.2).map Prod.fst :=
      List.mem_map.mpr ⟨(r, true), List.mem_filter.mpr
        ⟨List.mem_map.mpr ⟨r, hr, by rw [hcounted]⟩, rfl⟩, rfl⟩
    dsimp only at h
    split at h
    · next hnone =>
      rw [List.isEmpty_iff.mp hnone] at hmem
      cases hmem
    · obtain ⟨votes, hvotes, -⟩ := Option.bind_eq_some_iff.mp h
      exact mapM_isSome hvotes r hmem

/-- What a round returns when all results can be read and none is verified. -/
theorem runConsensus_of_unverified (hne : results ≠ [])
    (hread : ∀ r ∈ results, (accepted containerRepr keys r).isSome = true)
    (hnone : results.filter (counted containerRepr keys) = []) :
    runConsensus containerRepr R results keys t = some (.init R .null [] []
      (results.map WireResult.nodeId)
      ((results.filter fun r => !counted containerRepr keys r).map WireResult.nodeId) t) := by
  have hverified : ((results.map fun r => (r, counted containerRepr keys r)).filter
      fun c => c.2).map Prod.fst = [] := by
    rw [List.filter_map, List.map_map, ← hnone]
    exact List.map_id _
  have hinvalid : ((results.map fun r => (r, counted containerRepr keys r)).filter
      fun c => !c.2).map (fun c => c.1.nodeId) =
        (results.filter fun r => !counted containerRepr keys r).map WireResult.nodeId := by
    rw [List.filter_map, List.map_map]
    rfl
  unfold runConsensus
  rw [if_neg (by simpa using hne), checked_eq hread, Option.bind_eq_bind, Option.bind_some]
  dsimp only
  rw [hverified, hinvalid]
  rfl

/-- What a round returns when all results can be read and a winner is selected. -/
theorem runConsensus_of_readable
    (hread : ∀ r ∈ results, (accepted containerRepr keys r).isSome = true)
    (hkey : ∀ r ∈ results, counted containerRepr keys r = true → r.stateHash.asKey.isSome = true)
    (hne : results.filter (counted containerRepr keys) ≠ []) {w : JsonScalar}
    (hwin : selectWinner (counter ((results.filter (counted containerRepr keys)).map hashKey)) =
      some w) :
    let verified := results.filter (counted containerRepr keys)
    let invalid := (results.filter fun r => !counted containerRepr keys r).map WireResult.nodeId
    runConsensus containerRepr R results keys t = some (.init R w
      (counter (verified.map hashKey))
      ((verified.filter fun r => (hashKey r).eq w).map WireResult.nodeId)
      ((verified.filter fun r => !(hashKey r).eq w).map WireResult.nodeId ++ invalid) invalid t) := by
  dsimp only
  have hresults : results.isEmpty = false := by
    rw [List.isEmpty_eq_false_iff]
    rintro rfl
    exact hne rfl
  have hverified : ((results.map fun r => (r, counted containerRepr keys r)).filter
      fun c => c.2).map Prod.fst = results.filter (counted containerRepr keys) := by
    rw [List.filter_map, List.map_map]
    exact List.map_id _
  have hinvalid : ((results.map fun r => (r, counted containerRepr keys r)).filter
      fun c => !c.2).map (fun c => c.1.nodeId) =
        (results.filter fun r => !counted containerRepr keys r).map WireResult.nodeId := by
    rw [List.filter_map, List.map_map]
    rfl
  have hvotes : ((results.filter (counted containerRepr keys)).mapM
      fun r => do return (r.nodeId, ← r.stateHash.asKey)) =
        some ((results.filter (counted containerRepr keys)).map fun r => (r.nodeId, hashKey r)) := by
    refine mapM_eq_some fun r hr => ?_
    obtain ⟨hr, hcounted⟩ := List.mem_filter.mp hr
    obtain ⟨k, hk⟩ := Option.isSome_iff_exists.mp (hkey r hr hcounted)
    simp [hashKey, hk]
  unfold runConsensus
  rw [hresults, if_neg Bool.false_ne_true, checked_eq hread, Option.bind_eq_bind,
    Option.bind_some]
  dsimp only
  rw [hverified, hinvalid, if_neg (by simpa using hne), hvotes, Option.bind_eq_bind,
    Option.bind_some]
  rw [List.map_map]
  change (selectWinner (counter ((results.filter (counted containerRepr keys)).map hashKey))).bind
    _ = _
  rw [hwin, Option.bind_some, List.filter_map, List.filter_map, List.map_map, List.map_map]
  rfl

end Wire
end ECN
