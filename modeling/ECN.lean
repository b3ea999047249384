import ECN.Rounding
import ECN.OrderedDict
import ECN.PyValue
import ECN.ExecutionEngine
import ECN.SupplyChain
import ECN.Hex
import ECN.Crypto
import ECN.CanonicalJson
import ECN.StateManager
import ECN.Node
import ECN.Plurality
import ECN.Consensus
import ECN.Audit
import ECN.NodeHealth
import ECN.NodeServer
import ECN.P2PNetwork
import ECN.Sha256
import ECN.ReferenceRuntime
import ECN.Validity
import ECN.Runs
import ECN.Exclusion
import ECN.Delivery
import ECN.Transaction
import ECN.Billing
import ECN.Api
import ECN.Lifecycle
import ECN.Finality
import ECN.Network
import ECN.FaultTolerance
import ECN.DoubleIndex
import ECN.ApiKeys
import ECN.Revocation
import ECN.Base64
import ECN.Auth
import ECN.Tenant
import ECN.Service
import ECN.Access
import ECN.Quorum
import ECN.Rehabilitation
import ECN.Attribution
import ECN.MessageLoss
import ECN.VoteOrigin
import ECN.Wire
import ECN.MalformedReplies
import ECN.WireRefinement
import ECN.Ledger
import ECN.Supply
import ECN.Trace
import ECN.UniqueDecoding
import ECN.JsonText
import ECN.JsonTree
import ECN.Commitment
import ECN.MerkleTree
import ECN.MerkleCommitment
import ECN.JsonStates
import ECN.HashModes
import ECN.Custody
import ECN.SupplyRecords
import ECN.RetainedLog
import ECN.Stream
import ECN.Polling
import ECN.HandOver
import ECN.AuditStream
import ECN.JsonLoads
import ECN.JsonRoundTrip
import ECN.JsonAtoms
import ECN.JsonFields
import ECN.FloatRepr
import ECN.AuditStore
import ECN.KeyStore
import ECN.VoteLaws
import ECN.BillingReports
import ECN.Sla
import ECN.TierQuorum
import ECN.LedgerRecords
import ECN.TransactionStore
import ECN.DurableLifecycle
import ECN.TenantServers
import ECN.OrphanedServers
import ECN.ComparableKeys
import ECN.Gauges
import ECN.HashableStates
import ECN.WrittenValues
import ECN.Limits
import ECN.AtomicApply
import ECN.Commuting
import ECN.IndependentMoves
import ECN.Noninterference
import ECN.TenantBilling
import ECN.TenantApi
import ECN.TenantIsolation
import ECN.Classification
import ECN.Subscriptions
import ECN.AuditAtomicity
import ECN.KeyAtomicity
import ECN.OrderedCodes
import ECN.BillingBackends
import ECN.BillingAtomicity
import ECN.SubmissionCharges
import ECN.Majority
import ECN.HealthLifecycle
import ECN.SignedPairs
import ECN.TokenChecks
import ECN.Migrations
import ECN.RequestFields
import ECN.EngineErrors
import ECN.MerkleShape
import ECN.RingBuffers
import ECN.LineStream
import ECN.JsonLocality
import ECN.WireText
import ECN.NodeWire
import ECN.ObjectHeap
import ECN.PyHeap
import ECN.InPlace
import ECN.Encapsulation
import ECN.AuditReplay
import ECN.EventStream
import ECN.SseWire
import ECN.Lockstep
import ECN.JavaClient
import ECN.OrderStatistics
import ECN.Latency
import ECN.ServiceRun
import ECN.ReaderTasks
import ECN.WebhookDelivery
import ECN.LedgerLimits
import ECN.NetworkLimits
