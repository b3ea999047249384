import ECN.AuditStream
import ECN.BillingReports
import ECN.VoteLaws

/-!
# The quorum of a tier

Billing sells each tier a quorum and reports it with the service level. The network that
the application starts knows no tiers and asks for 0.51. What a round charges as agreed
meets the quorum of its tier exactly when no hash reaches 0.51 or some hash reaches the
quorum of the tier.
-/
namespace ECN

variable {rt : Runtime}

namespace Submissions

variable (R : Rounding)

/-- The consensus of the round whose broadcast ends with these responses. -/
def roundConsensus (s : Submissions rt) (responses : List (NodeServer rt × Response)) :
    ConsensusResult :=
  runConsensus R (P2PNetwork.resultsOf responses) (some s.app.network.publicKeys)
    s.app.network.quorumThreshold

/-- Votes for the agreed hash over all verified votes, in the machine's arithmetic. -/
def agreedShare (cr : ConsensusResult) : Option ℚ :=
  cr.agreedHash.map fun w => R ((cr.voteCounts.getD w 0 : ℚ) / cr.voteCounts.values.sum)

/-- What the end of the `i`th broadcast writes to the ledger as agreed has at least the
share that `get_sla` then reports for the tier in force. -/
def SoldQuorumMet (s : Submissions rt) (i : ℕ) (responses : List (NodeServer rt × Response)) :
    Prop :=
  let after := (s.step R (.finish i responses)).app
  ∀ p tracker, s.inFlight[i]? = some p → after.tracker = some tracker →
    ∀ entry ∈ s.app.newEntries after, entry.consensusReached = true →
      ∃ share, agreedShare R (s.roundConsensus R responses) = some share ∧
        (tracker.getSla R p.ctx.billing.tier entry.tenantId).quorumThreshold ≤ share

/-- The share of a hash among the verified results. -/
def share (hashes : List String) (w : String) : ℚ :=
  R ((hashes.count w : ℚ) / hashes.length)

/-- There is no such submission, or the largest share of its round is outside the gap from
the default threshold to the quorum of its tier. -/
def ClearOfTheGap (s : Submissions rt) (i : ℕ) (responses : List (NodeServer rt × Response)) :
    Prop :=
  let hashes := ballots (P2PNetwork.resultsOf responses) (some s.app.network.publicKeys)
  ∀ p, s.inFlight[i]? = some p →
    ∀ w ∈ hashes, (∀ v ∈ hashes, share R hashes v ≤ share R hashes w) →
      ¬ (defaultQuorumThreshold R ≤ share R hashes w ∧
        share R hashes w < R p.ctx.billing.tier.quorumThreshold)

/-- The largest share is outside a gap when all shares are below it or one is above it. -/
theorem largest_share_outside (hashes : List String) (low high : ℚ) :
    (∀ w ∈ hashes, (∀ v ∈ hashes, share R hashes v ≤ share R hashes w) →
      ¬ (low ≤ share R hashes w ∧ share R hashes w < high)) ↔
    (∀ w ∈ hashes, share R hashes w < low) ∨ ∃ w ∈ hashes, high ≤ share R hashes w := by
  constructor
  · intro hclear
    by_cases hne : hashes = []
    · exact .inl (by simp [hne])
    · have hsome : hashes.toFinset.Nonempty := List.toFinset_nonempty_iff _ |>.mpr hne
      obtain ⟨w, hw, hmax⟩ := hashes.toFinset.exists_max_image (share R hashes) hsome
      simp only [List.mem_toFinset] at hw hmax
      rcases lt_or_ge (share R hashes w) low with hlow | hlow
      · exact .inl fun v hv => (hmax v hv).trans_lt hlow
      · exact .inr ⟨w, hw, not_lt.mp fun hhigh => hclear w hw hmax ⟨hlow, hhigh⟩⟩
  · rintro (hlow | ⟨v, hv, hhigh⟩) w hw hmax ⟨hle, hlt⟩
    · exact absurd (hlow w hw) (not_lt.mpr hle)
    · exact absurd ((hhigh.trans (hmax v hv)).trans_lt hlt) (lt_irrefl _)

/-! ## The application that `lifespan` starts -/

/-- What every run keeps of an application started without a threshold of its own. -/
structure DefaultSettings (s : Submissions rt) : Prop where
  waiting : s.Waiting
  quorumThreshold : s.app.network.quorumThreshold = defaultQuorumThreshold R
  minResponses : s.app.network.minResponses = 1
  recording : s.app.network.auditLog.isSome
  billing : s.app.tracker.isSome

theorem isSome_billedTracker {app : App rt} (h : app.tracker.isSome) (ctx : SubmitContext)
    (record : TransactionRecord) (nodeCount : ℕ) (consensusReached : Bool) :
    (app.billedTracker R ctx record nodeCount consensusReached).isSome := by
  rw [App.billedTracker, Option.isSome_map]
  exact h

theorem DefaultSettings.step {s : Submissions rt} (h : s.DefaultSettings R) (move : Move rt) :
    (s.step R move).DefaultSettings R := by
  obtain ⟨hsettings, hround⟩ := roundStep R h.waiting move
  refine ⟨h.waiting.step R move, hsettings.quorumThreshold.trans h.quorumThreshold,
    hsettings.minResponses.trans h.minResponses, ?_, ?_⟩
  · rcases hround with ⟨hlog, -⟩ | ⟨_, _, -, -, hlog, -⟩ | ⟨_, _, _, _, _, _, -, -, hlog, -⟩
    · rw [hlog]
      exact h.recording
    · rw [hlog]
      rfl
    · rw [hlog]
      rfl
  · cases move with
    | submit ctx body =>
      obtain ⟨saved, record, hbegin, -⟩ := s.app.submitBegin_eq R ctx h.recording
      simpa only [Submissions.step, hbegin] using h.billing
    | deliver i j =>
      unfold Submissions.step
      dsimp only
      split <;> exact h.billing
    | finish i responses =>
      unfold Submissions.step
      dsimp only
      split
      · next p hp =>
        obtain ⟨log, hlog⟩ := Option.isSome_iff_exists.mp h.recording
        by_cases hfail : ((P2PNetwork.resultsOf responses).length : ℤ) <
            s.app.network.minResponses ∨ P2PNetwork.resultsOf responses = []
        · obtain ⟨network, e, hend⟩ := App.submitEnd_fails R s.app p.ctx p.tx p.record responses
            (.inr hfail)
          rw [hend]
          exact h.billing
        · push Not at hfail
          obtain ⟨_, _, _, _, _, hend, -, htracker, -⟩ := App.submitEnd_succeeds R s.app p.ctx p.tx
            (h.waiting p (List.mem_of_getElem? hp)) responses hlog hfail.1 hfail.2
          rw [hend, htracker]
          exact isSome_billedTracker R h.billing _ _ _ _
      · exact h.billing

theorem defaultSettings_run (servers : List (NodeServer rt)) (moves : List (Move rt)) :
    (moves.foldl (step R) (start (App.lifespan R none servers))).DefaultSettings R := by
  refine Throughout.last (Throughout.of_step (fun s move h => h.step R move) ?_ moves)
  exact ⟨nofun, rfl, rfl, rfl, rfl⟩

/-! ## The condition is exact -/

/-- The agreed share reaches a bound when some hash does. -/
theorem agreedShare_iff (s : Submissions rt) (responses : List (NodeServer rt × Response))
    (bound : ℚ) :
    let hashes := ballots (P2PNetwork.resultsOf responses) (some s.app.network.publicKeys)
    (∃ q, agreedShare R (s.roundConsensus R responses) = some q ∧ bound ≤ q) ↔
      ∃ w ∈ hashes, bound ≤ share R hashes w := by
  intro hashes
  have hsum : (s.roundConsensus R responses).voteCounts.values.sum = hashes.length :=
    (sum_voteCounts R (P2PNetwork.resultsOf responses) _).trans (List.length_map _).symm
  have hcount (w : String) : (s.roundConsensus R responses).voteCounts.getD w 0 =
      hashes.count w := runConsensus_voteCounts R (P2PNetwork.resultsOf responses) _ _ w
  have hagreed (w : String) : (s.roundConsensus R responses).agreedHash = some w ↔
      Plurality hashes w := runConsensus_agreedHash_iff R (P2PNetwork.resultsOf responses) _ _ w
  refine Iff.trans ?_ ((runConsensus_reached_iff R (P2PNetwork.resultsOf responses) _ bound).symm.trans
    (runConsensus_reached_iff_share R _ _ bound))
  simp only [agreedShare, Option.map_eq_some_iff, hsum, hcount, hagreed,
    runConsensus_agreedHash_iff]
  constructor
  · rintro ⟨q, ⟨w, hw, rfl⟩, hq⟩
    exact ⟨w, hw, hq⟩
  · rintro ⟨w, hw, hq⟩
    exact ⟨_, ⟨w, hw, rfl⟩, hq⟩

/-- The entry that a charged round adds. -/
theorem newEntries_of_billed {app after : App rt} {tracker : BillingTracker} {ctx : SubmitContext}
    {record : TransactionRecord} {nodeCount : ℕ} {consensusReached : Bool}
    (htracker : app.tracker = some tracker)
    (hafter : after.tracker = app.billedTracker R ctx record nodeCount consensusReached) :
    ∃ entry : LedgerEntry, app.newEntries after = [entry] ∧
      entry.consensusReached = consensusReached := by
  refine ⟨⟨tracker.seq + 1, record.txId, record.tenantId, ctx.billing.period, nodeCount,
    computeBilledAmount R nodeCount ctx.billing.tier, consensusReached, ctx.billing.now⟩, ?_, rfl⟩
  simp only [App.newEntries, hafter, htracker, App.billedTracker, Option.map_some,
    BillingTracker.recordRound, List.drop_left]

theorem DefaultSettings.met_iff_clear {s : Submissions rt} (h : s.DefaultSettings R) (i : ℕ)
    (responses : List (NodeServer rt × Response)) :
    s.SoldQuorumMet R i responses ↔ s.ClearOfTheGap R i responses := by
  obtain ⟨tracker, htracker⟩ := Option.isSome_iff_exists.mp h.billing
  obtain ⟨log, hlog⟩ := Option.isSome_iff_exists.mp h.recording
  unfold SoldQuorumMet ClearOfTheGap
  dsimp only
  cases hi : s.inFlight[i]? with
  | none => simp
  | some p =>
    simp only [largest_share_outside]
    have hstep : (s.step R (.finish i responses)).app =
        (s.app.submitEnd R p.ctx p.tx p.record responses).1 := by
      rw [Submissions.step, hi]
    rw [hstep]
    by_cases hne : P2PNetwork.resultsOf responses = []
    · -- Nothing is charged, and there are no votes.
      obtain ⟨network, e, hend⟩ := App.submitEnd_fails R s.app p.ctx p.tx p.record responses
        (.inr (.inr hne))
      simp [hend, App.newEntries, htracker, hne, ballots, verifiedResults]
    · have hmin : s.app.network.minResponses ≤ (P2PNetwork.resultsOf responses).length := by
        have hpos := List.length_pos_iff.mpr hne
        rw [h.minResponses]
        omega
      obtain ⟨after, _, _, _, _, hend, -, hafter, -⟩ := App.submitEnd_succeeds R s.app p.ctx p.tx
        (h.waiting p (List.mem_of_getElem? hi)) responses hlog hmin hne
      obtain ⟨entry, hentries, hreached⟩ := newEntries_of_billed R htracker hafter
      obtain ⟨tracker', htracker'⟩ := Option.isSome_iff_exists.mp
        (hafter ▸ isSome_billedTracker R h.billing _ _ _ _)
      have hquorum : entry.consensusReached = true ↔
          ∃ w ∈ ballots (P2PNetwork.resultsOf responses) (some s.app.network.publicKeys),
            defaultQuorumThreshold R ≤ share R (ballots (P2PNetwork.resultsOf responses)
              (some s.app.network.publicKeys)) w := by
        rw [hreached, ← h.quorumThreshold]
        exact runConsensus_reached_iff_share R (P2PNetwork.resultsOf responses) _ _
      have hshare := s.agreedShare_iff R responses (R p.ctx.billing.tier.quorumThreshold)
      rw [hend]
      constructor
      · rintro hmet p' ⟨rfl⟩
        by_cases hagreed : entry.consensusReached = true
        · refine .inr (hshare.mp (hmet p tracker' rfl htracker' entry ?_ hagreed))
          rw [hentries]
          exact List.mem_singleton_self entry
        · rw [hquorum] at hagreed
          push Not at hagreed
          exact .inl hagreed
      · rintro hclear p' tr ⟨rfl⟩ htr e he hagreed
        rw [hentries, List.mem_singleton] at he
        subst he
        obtain ⟨w, hw, hle⟩ := hquorum.mp hagreed
        rcases hclear p rfl with hlow | hhigh
        · exact absurd hle (not_le.mpr (hlow w hw))
        · exact hshare.mpr hhigh

/-- In every run of an application started without a threshold of its own, a round that
ends meets the quorum of its tier exactly when its votes are clear of the gap between the
two thresholds. -/
theorem soldQuorumMet_iff (servers : List (NodeServer rt)) (moves : List (Move rt)) (i : ℕ)
    (responses : List (NodeServer rt × Response)) :
    let s := moves.foldl (step R) (start (App.lifespan R none servers))
    s.SoldQuorumMet R i responses ↔ s.ClearOfTheGap R i responses :=
  (defaultSettings_run R servers moves).met_iff_clear R i responses

/-! ## Three votes of five -/

/-- The five servers of the application, with a key each. -/
def fiveServers : List (NodeServer (referenceRuntime true)) :=
  [("Warehouse", 18000, [1]), ("Shipper", 18001, [2]), ("Customs", 18002, [3]),
    ("Insurer", 18003, [4]), ("Retailer", 18004, [5])].map fun c =>
      .init _ c.1 (makeInitialState ["LAPTOP-001", "PHONE-002", "TABLET-003"]) "127.0.0.1" c.2.1
        c.2.2 false

def shipLaptop : TransactionRequest :=
  ⟨"ship", some "LAPTOP-001", some "port", some "S", none, none, none, none, none, none, none, none,
    none⟩

/-- The application with one submission in flight. -/
def oneInFlight : Submissions (referenceRuntime true) :=
  [Move.submit App.firstContext shipLaptop].foldl (step .binary64)
    (start (App.lifespan .binary64 none fiveServers))

/-- A reply in the name of a server, signed with its key. -/
def signedReply (server : NodeServer (referenceRuntime true)) (stateHash : String) :
    NodeServer (referenceRuntime true) × Response :=
  (server, receive 0 (.result server.nodeId stateHash
    (some (signResult referenceCrypto server.nodeId stateHash server.privateKey))))

/-- Three servers vote for one hash and two for another. -/
def threeOfFive : List (NodeServer (referenceRuntime true) × Response) :=
  (fiveServers.zip ["h", "h", "h", "g", "g"]).map fun p => signedReply p.1 p.2

theorem ballots_threeOfFive : ballots (P2PNetwork.resultsOf threeOfFive)
    (some oneInFlight.app.network.publicKeys) = ["h", "h", "h", "g", "g"] := by
  have hids : (oneInFlight.app.network.servers.map NodeServer.nodeId).Nodup := by decide
  have hsigned : ∀ r ∈ P2PNetwork.resultsOf threeOfFive,
      accepted (some oneInFlight.app.network.publicKeys) r = true := by
    intro r hr
    obtain ⟨_, hp, hr⟩ := List.mem_filterMap.mp hr
    obtain ⟨⟨server, stateHash⟩, hserver, rfl⟩ := List.mem_map.mp hp
    obtain ⟨_, hq, rfl⟩ := Option.map_eq_some_iff.mp hr
    obtain rfl := Option.some_inj.mp hq
    have hkey := P2PNetwork.get?_publicKeys hids (List.of_mem_zip hserver).1
    have hvalid := verifyResult_signResult referenceCrypto server.nodeId stateHash server.privateKey
    simp only [accepted, signatureValid, hkey, Bool.or_eq_true]
    exact .inr hvalid
  rw [ballots, verifiedResults, List.filter_eq_self.mpr hsigned]
  rfl

/-- Three votes of five are charged as agreed in the tier `standard`, which sells 0.67. -/
theorem sold_quorum_missed :
    ¬ SoldQuorumMet .binary64 ([Move.submit App.firstContext shipLaptop].foldl (step .binary64)
      (start (App.lifespan .binary64 none fiveServers))) 0 threeOfFive := by
  change ¬ SoldQuorumMet .binary64 oneInFlight 0 threeOfFive
  have h : DefaultSettings .binary64 oneInFlight := defaultSettings_run _ _ _
  obtain ⟨p, hp, htier⟩ : ∃ p, oneInFlight.inFlight[0]? = some p ∧
      p.ctx.billing.tier = .standard := ⟨_, rfl, rfl⟩
  rw [h.met_iff_clear]
  intro hclear
  have hgap := hclear p hp
  rw [largest_share_outside, ballots_threeOfFive, htier] at hgap
  rcases hgap with hlow | ⟨w, hw, hhigh⟩
  · exact absurd (hlow "h" (by simp)) (by decide +kernel)
  · have hshares : ∀ w ∈ ["h", "h", "h", "g", "g"],
        share .binary64 ["h", "h", "h", "g", "g"] w <
          Rounding.binary64 PricingTier.standard.quorumThreshold := by decide +kernel
    exact absurd hhigh (not_le.mpr (hshares w hw))

end Submissions
end ECN
