import StateBraid.Library.Dict
import StateBraid.Library.Exec
import StateBraid.Library.Run
import StateBraid.Errors
import StateBraid.Policy.State
import StateBraid.Policy.Plan
import StateBraid.Policy.Commit
import StateBraid.Policy.Limits
import StateBraid.Policy.Representation
import StateBraid.Coordinator.Transaction
import StateBraid.Coordinator.Operations
import StateBraid.Coordinator.MapBackend
import StateBraid.Coordinator.Agreement
import StateBraid.Coordinator.FaultyMap
import StateBraid.Coordinator.Atomicity
import StateBraid.LlamaCpp.Reference
import StateBraid.LlamaCpp.Reuse
import StateBraid.Managed.Json
import StateBraid.Managed.Server
import StateBraid.Managed.Transport
import StateBraid.Managed.Adapter
import StateBraid.Managed.Backend
import StateBraid.Managed.PromptCache
import StateBraid.Managed.ServerFacts
import StateBraid.Managed.StoreFacts
import StateBraid.Managed.AdapterFacts
import StateBraid.Managed.AdapterSpecs
import StateBraid.Managed.CaptureSpecs
import StateBraid.Managed.BackendSpecs
import StateBraid.Managed.Registry
import StateBraid.Managed.Coherence
import StateBraid.Managed.Calls
import StateBraid.Managed.Session
import StateBraid.Managed.Ledger
import StateBraid.Managed.Orderly
import StateBraid.Managed.SessionFacts
import StateBraid.Managed.Prepare
import StateBraid.Managed.Reconciliation
import StateBraid.Managed.Budget
import StateBraid.Managed.Growth
import StateBraid.Mlx.Generation
import StateBraid.Coordinator.Blindness
import StateBraid.Coordinator.PinQuota
import StateBraid.Coordinator.Probation
import StateBraid.Managed.Pricing
import StateBraid.Managed.Protocol
import StateBraid.Mlx.PromptCache
import StateBraid.Managed.Aside
import StateBraid.Managed.Custody
import StateBraid.Managed.DropSafety
import StateBraid.Managed.FaultFree
import StateBraid.Managed.Identity
import StateBraid.Coordinator.PinOrder
import StateBraid.Coordinator.WorkingSet
import StateBraid.Managed.Lookup
import StateBraid.LlamaCpp.Qualification
import StateBraid.Mlx.Accounting
import StateBraid.LlamaCpp.CommitField
import StateBraid.Managed.Chronicle
import StateBraid.Managed.Restore
import StateBraid.Mlx.SystemBoundary
import StateBraid.Policy.Interface
import StateBraid.Coordinator.Threads
import StateBraid.Mlx.Saves
import StateBraid.Managed.Fence
import StateBraid.Managed.Recovery
import StateBraid.Managed.Opening
import StateBraid.Coordinator.Telemetry
