import ECN.Lifecycle

/-!
# Finalized transactions

Many submissions may be in flight at once: each has saved its first four records and
waits for its broadcast, while servers handle requests in any order and responses of
any kind come back. A finished round is finalized whether or not it reached quorum,
so `FINALIZED` means quorum in exactly those runs in which every round that returns
results has a hash with the share that the threshold asks for.
-/
namespace ECN

variable {rt : Runtime}

/-- A submission that waits for its broadcast. -/
structure InFlight where
  ctx : SubmitContext
  tx : Transaction
  record : TransactionRecord

/-- The application and the submissions in flight. -/
structure Submissions (rt : Runtime) where
  app : App rt
  inFlight : List InFlight

/-- A request arrives, a server handles the transaction of one submission, or all
requests of one broadcast have ended with the given responses. -/
inductive Move (rt : Runtime) where
  | submit (ctx : SubmitContext) (body : TransactionRequest)
  | deliver (i server : ℕ)
  | finish (i : ℕ) (responses : List (NodeServer rt × Response))

namespace Submissions

/-- An empty store and nothing in flight. -/
def start (app : App rt) : Submissions rt := ⟨{ app with saves := [] }, []⟩

variable (R : Rounding)

def step (s : Submissions rt) : Move rt → Submissions rt
  | .submit ctx body =>
    match s.app.submitBegin R ctx with
    | (app, .error _) => ⟨app, s.inFlight⟩
    | (app, .ok record) => ⟨app, s.inFlight ++ [⟨ctx, body.toEcnTx, record⟩]⟩
  | .deliver i j =>
    match s.inFlight[i]?, s.app.network.servers[j]? with
    | some p, some server =>
      { s with app.network.servers :=
          s.app.network.servers.set j (server.handleClient p.tx).1 }
    | _, _ => s
  | .finish i responses =>
    match s.inFlight[i]? with
    | some p => ⟨(s.app.submitEnd R p.ctx p.tx p.record responses).1, s.inFlight.eraseIdx i⟩
    | none => s

/-- Every record saved as finalized, billed or replicated has reached consensus. -/
def FinalMeansQuorum (s : Submissions rt) : Prop :=
  ∀ r ∈ s.app.saves, r.state.isFinal = true → r.consensusReached = true

/-- A round that ends is not recorded, has too few results, or has a hash whose share of
the verified results meets the threshold. -/
def MeetsQuorum (s : Submissions rt) : Move rt → Prop
  | .finish i responses =>
    let results := P2PNetwork.resultsOf responses
    let hashes := ballots results (some s.app.network.publicKeys)
    s.inFlight.length ≤ i ∨ s.app.network.auditLog.isNone ∨
      (results.length : ℤ) < s.app.network.minResponses ∨ results = [] ∨
      ∃ w ∈ hashes, s.app.network.quorumThreshold ≤ R ((hashes.count w : ℚ) / hashes.length)
  | .submit _ _ => True
  | .deliver _ _ => True

instance (s : Submissions rt) : DecidablePred (s.MeetsQuorum R) := fun move =>
  match move with
  | .finish _ _ => inferInstanceAs (Decidable (_ ∨ _ ∨ _ ∨ _ ∨ ∃ _ ∈ _, _))
  | .submit _ _ => inferInstanceAs (Decidable True)
  | .deliver _ _ => inferInstanceAs (Decidable True)

/-- The records in flight wait for consensus. -/
def Waiting (s : Submissions rt) : Prop := ∀ p ∈ s.inFlight, p.record.state = .consensusPending

/-! ## One move -/

theorem Waiting.step {s : Submissions rt} (h : s.Waiting) (move : Move rt) :
    (s.step R move).Waiting := by
  cases move with
  | submit ctx body =>
    cases hlog : s.app.network.auditLog with
    | none => simpa [Submissions.step, App.submitBegin, hlog] using h
    | some log =>
      obtain ⟨saved, record, hbegin, -, hstate, -, -⟩ :=
        s.app.submitBegin_eq R ctx (by rw [hlog]; rfl)
      simp only [Submissions.step, hbegin]
      intro p hp
      rcases List.mem_append.mp hp with hp | hp
      · exact h p hp
      · obtain rfl := List.mem_singleton.mp hp
        exact hstate
  | deliver i j =>
    unfold Submissions.step
    dsimp only
    split
    · exact h
    · exact h
  | finish i responses =>
    unfold Submissions.step
    dsimp only
    split
    · exact fun p hp => h p (List.mem_of_mem_eraseIdx hp)
    · exact h

/-- Nothing that a submission saves before its broadcast is final. -/
theorem finalMeansQuorum_submit (s : Submissions rt) (ctx : SubmitContext)
    (body : TransactionRequest) :
    (s.step R (.submit ctx body)).FinalMeansQuorum ↔ s.FinalMeansQuorum := by
  cases hlog : s.app.network.auditLog with
  | none => simp [FinalMeansQuorum, step, App.submitBegin, hlog]
  | some log =>
    obtain ⟨saved, record, hbegin, -, -, -, hsaved⟩ :=
      s.app.submitBegin_eq R ctx (by rw [hlog]; rfl)
    simp only [FinalMeansQuorum, step, hbegin, List.mem_append]
    constructor
    · exact fun h r hr => h r (.inl hr)
    · rintro h r (hr | hr) hfinal
      · exact h r hr hfinal
      · rw [hsaved r hr] at hfinal
        cases hfinal

/-- A round that ends saves nothing or three final records with its outcome. -/
theorem finalMeansQuorum_finish {s : Submissions rt} (hw : s.Waiting)
    (hs : s.FinalMeansQuorum) (i : ℕ) (responses : List (NodeServer rt × Response)) :
    (s.step R (.finish i responses)).FinalMeansQuorum ↔ s.MeetsQuorum R (.finish i responses) := by
  unfold step MeetsQuorum
  dsimp only
  cases hi : s.inFlight[i]? with
  | none => exact iff_of_true hs (.inl (List.getElem?_eq_none_iff.mp hi))
  | some p =>
    have hlt := (List.getElem?_eq_some_iff.mp hi).1
    rw [or_iff_right (not_le.mpr hlt), Option.isNone_iff_eq_none]
    dsimp only
    by_cases hfail : s.app.network.auditLog = none ∨
        ((P2PNetwork.resultsOf responses).length : ℤ) < s.app.network.minResponses ∨
        P2PNetwork.resultsOf responses = []
    · obtain ⟨network, e, hend⟩ := App.submitEnd_fails R s.app p.ctx p.tx p.record responses hfail
      rw [hend]
      refine iff_of_true hs ?_
      tauto
    · push Not at hfail
      obtain ⟨hlog, hmin, hne⟩ := hfail
      obtain ⟨log, hlog⟩ := Option.ne_none_iff_exists'.mp hlog
      obtain ⟨after, response, finalized, billed, replicated, hend, hsaves, -, -, hfs, -, -, hall⟩ :=
        App.submitEnd_succeeds R s.app p.ctx p.tx (hw p (List.mem_of_getElem? hi)) responses hlog
          hmin hne
      rw [hend, or_iff_right (by simp [hlog]), or_iff_right (not_lt.mpr hmin), or_iff_right hne,
        ← runConsensus_reached_iff_share]
      simp only [FinalMeansQuorum, hsaves, List.mem_append]
      constructor
      · intro h
        rw [← (hall finalized (by simp)).2.1]
        exact h finalized (.inr (by simp)) (by rw [hfs]; rfl)
      · rintro hreached r (hr | hr) hfinal
        · exact hs r hr hfinal
        · rw [(hall r hr).2.1]
          exact hreached

theorem finalMeansQuorum_step {s : Submissions rt} (hw : s.Waiting) (hs : s.FinalMeansQuorum)
    (move : Move rt) : (s.step R move).FinalMeansQuorum ↔ s.MeetsQuorum R move := by
  cases move with
  | submit ctx body => exact iff_of_true ((finalMeansQuorum_submit R s ctx body).mpr hs) trivial
  | deliver i j =>
    refine iff_of_true ?_ trivial
    unfold step
    dsimp only
    split
    · exact hs
    · exact hs
  | finish i responses => exact finalMeansQuorum_finish R hw hs i responses

/-! ## Runs -/

/-- In a run from an empty store, final records have reached consensus throughout
exactly when every round that ends meets the quorum. -/
theorem finalMeansQuorum_iff (app : App rt) (moves : List (Move rt)) :
    Throughout (step R) FinalMeansQuorum (start app) moves ↔
      StepsMeet (step R) (MeetsQuorum R) (start app) moves :=
  throughout_iff_stepsMeet (fun _ move hw _ => hw.step R move)
    (fun _ move hw hs => finalMeansQuorum_step R hw hs move) nofun nofun

/-- One honest result and one signed result with another hash. -/
def splitResponses : List (NodeServer (referenceRuntime false) × Response) :=
  App.pairApp.network.gather App.burnRequest.toEcnTx fun server =>
    if server.nodeId = "Node-1" then
      .byzantine (.result "Node-1" "00" (some (signResult referenceCrypto "Node-1" "00" [1]))) 0
    else .answered 0

/-- The split round is finalized without quorum. -/
theorem split_round_finalized :
    ¬ Throughout (step .binary64) FinalMeansQuorum (start App.pairApp)
      [.submit App.firstContext App.burnRequest, .deliver 0 1, .finish 0 splitResponses] := by
  rw [finalMeansQuorum_iff]
  decide +kernel

end Submissions
end ECN
