import EmOdp.Lib.TransitionSystem
import EmOdp.Lib.Progress
import EmOdp.Lib.CoreSum
import EmOdp.Lib.CycleLatch
import EmOdp.EventGroup.Counter
import EmOdp.EventGroup.Machine
import EmOdp.EventGroup.Invariant
import EmOdp.EventGroup.Completion
import EmOdp.EventGroup.ControlPoll
import EmOdp.EventGroup.OuterGroup
import EmOdp.EventGroup.NotifAccesses
import EmOdp.EventGroup.NotifRuns
import EmOdp.Lib.BoundedRun
import EmOdp.Lib.Greedy
import EmOdp.Dispatch.Burst
import EmOdp.Dispatch.BurstCount
import EmOdp.Dispatch.BurstReset
import EmOdp.Dispatch.Multircv
import EmOdp.Dispatch.LocalBurst
import EmOdp.Lib.WhileLoop
import EmOdp.Dispatch.Duration
import EmOdp.Dispatch.DurationExact
import EmOdp.Dispatch.Userfn
import EmOdp.Lib.PackedWord
import EmOdp.Lib.Resources
import EmOdp.AtomicGroup.DispatchLock
import EmOdp.AtomicGroup.Machine
import EmOdp.AtomicGroup.Invariant
import EmOdp.AtomicGroup.Steps
import EmOdp.AtomicGroup.Protocol
import EmOdp.AtomicGroup.Stashes
import EmOdp.AtomicGroup.StashLives
import EmOdp.AtomicGroup.StashRuns
import EmOdp.AtomicGroup.Queues
import EmOdp.AtomicGroup.QueueRuns
import EmOdp.AtomicGroup.DrainLoop
import EmOdp.AtomicGroup.Drain
import EmOdp.QueueGroup.Machine
import EmOdp.QueueGroup.Convergence
import EmOdp.QueueGroup.ModifyCall
import EmOdp.QueueGroup.ModifyReturn
import EmOdp.QueueGroup.Operations
import EmOdp.QueueGroup.OperationPhases
import EmOdp.QueueGroup.OperationStart
import EmOdp.QueueGroup.OperationSteps
import EmOdp.QueueGroup.OperationComplete
import EmOdp.EventState.Counters
import EmOdp.EventState.Verify
import EmOdp.EventState.Ownership
import EmOdp.EventState.Generation
import EmOdp.EventState.NoFalsePositive
import EmOdp.EventState.StaleUse
import EmOdp.EventState.Allocate
import EmOdp.EventState.ExternalUpdate
import EmOdp.Lib.EachCell
import EmOdp.EventState.Reverts
import EmOdp.EventState.ReferenceCount
import EmOdp.EventState.ReferenceSafety
import EmOdp.EventState.GenerationReset
import EmOdp.Lib.Handover
import EmOdp.Lib.Batch
import EmOdp.EoStart.Machine
import EmOdp.EoStart.FinalState
import EmOdp.EoStart.BufferedEvents
import EmOdp.EoStart.Nesting
import EmOdp.LocalFunc.Request
import EmOdp.LocalFunc.Ownership
import EmOdp.LocalFunc.RequesterSteps
import EmOdp.LocalFunc.HandlerSteps
import EmOdp.LocalFunc.Resources
import EmOdp.Lib.IntrusiveList
import EmOdp.QueueTable.Machine
import EmOdp.QueueTable.Elements
import EmOdp.QueueTable.OutputQueues
import EmOdp.QueueTable.OutputCreate
import EmOdp.QueueTable.OutputRuns
import EmOdp.QueueTable.GroupLists
import EmOdp.QueueTable.FailedDelete
import EmOdp.QueueTable.GroupRuns
import EmOdp.QueueTable.DeleteRetry
import EmOdp.Chaining.Machine
import EmOdp.Chaining.Accounting
import EmOdp.Chaining.Steps
import EmOdp.Chaining.Calls
import EmOdp.Chaining.SendGroup
import EmOdp.OutputQueue.Machine
import EmOdp.OutputQueue.Drain
import EmOdp.OutputQueue.Lock
import EmOdp.OutputQueue.Runs
import EmOdp.Send.Event
import EmOdp.Send.Destinations
import EmOdp.Send.Calls
import EmOdp.Send.Restore
import EmOdp.Send.Multi
import EmOdp.Send.One
import EmOdp.Send.Ownership
import EmOdp.Timer.Storage
import EmOdp.Timer.Bookkeeping
import EmOdp.Timer.BookkeepingSteps
import EmOdp.Timer.CreateCases
import EmOdp.Timer.BookkeepingRuns
import EmOdp.Timer.Periodic
import EmOdp.Timer.PeriodicSafety
import EmOdp.Timer.PeriodicCancel
import EmOdp.Timer.Tmo
import EmOdp.Timer.FailedTmoCalls
import EmOdp.Timer.Grid
import EmOdp.Timer.PeriodNonzero
import EmOdp.Lib.ForEach
import EmOdp.QueueTable.Lifetime
import EmOdp.EoQueues.Machine
import EmOdp.EoQueues.Changes
import EmOdp.EoQueues.Aggregators
import EmOdp.EoQueues.Linked
import EmOdp.EoQueues.Calls
import EmOdp.EoQueues.AggrSends
import EmOdp.EoQueues.ReceiveCalls
import EmOdp.EoQueues.Records
import EmOdp.EoQueues.Quiet
import EmOdp.EoQueues.DeleteAll
import EmOdp.EoQueues.Deletable
import EmOdp.EoQueues.Stuck
import EmOdp.EoQueues.SyncCalls
import EmOdp.Pool.Machine
import EmOdp.Pool.Calls
import EmOdp.Pool.FailedCalls
import EmOdp.Pool.FailureRuns
import EmOdp.Pool.Cores
import EmOdp.Pool.CoresAlone
import EmOdp.Pool.MapExact
import EmOdp.Threads.Machine
import EmOdp.Threads.Consistent
import EmOdp.Threads.InitRuns
import EmOdp.Threads.TermReqs
import EmOdp.Threads.TermBalance
import EmOdp.Pool.Subpools
import EmOdp.Pool.Payload
import EmOdp.InternalEvent.CoreCtrlEvents
import EmOdp.InternalEvent.CoreCtrlAccounted
import EmOdp.Send.GivenBack
import EmOdp.Lib.Pointwise
import EmOdp.EventFree.Memory
import EmOdp.EventFree.Accesses
import EmOdp.EventFree.Free
import EmOdp.EventFree.FreeMulti
import EmOdp.EventFree.MarkFree
import EmOdp.EventFree.MarkRevert
import EmOdp.EventFree.MarkInverse
import EmOdp.Alloc.Machine
import EmOdp.Alloc.Taken
import EmOdp.Alloc.MultiSingle
import EmOdp.Lib.History
import EmOdp.LocalQueues.Machine
import EmOdp.LocalQueues.InOrder
import EmOdp.LocalQueues.Drained
import EmOdp.EventClone.Machine
import EmOdp.EventClone.Correct
import EmOdp.EventClone.FromPool
import EmOdp.Lib.WordArray
import EmOdp.CoreMask.Bits
import EmOdp.CoreMask.RoundTrip
import EmOdp.Hooks.Storage
import EmOdp.Hooks.Refinement
import EmOdp.Hooks.Machine
import EmOdp.Hooks.Readers
import EmOdp.QueuePools.Objpool
import EmOdp.QueuePools.Init
import EmOdp.QueuePools.Machine
import EmOdp.QueuePools.Partition
import EmOdp.Lib.RoundRobin
import EmOdp.Objpool.Machine
import EmOdp.Objpool.Lists
import EmOdp.Objpool.Runs
import EmOdp.Objpool.Alone
import EmOdp.Pool.Startup
import EmOdp.Pool.StartupRuns
import EmOdp.Lib.Alike
import EmOdp.EventInit.Header
import EmOdp.EventInit.Multi
import EmOdp.EventInit.SameHeaders
import EmOdp.EventInit.BatchEach
import EmOdp.Lib.Cursor
import EmOdp.Tables.Iteration
import EmOdp.Tables.OwnedQueues
import EmOdp.LocalFunc.Cores
import EmOdp.LocalFunc.CoreRuns
import EmOdp.Dispatch.Rounds
import EmOdp.Dispatch.RoundHooks
import EmOdp.OdpExt.PktEnqueue
import EmOdp.OdpExt.PktSteps
import EmOdp.OdpExt.PktRuns
import EmOdp.Lib.Lockstep
import EmOdp.EventUarea.Machine
import EmOdp.EventUarea.Cells
import EmOdp.Threads.CoreIds
import EmOdp.SyncApi.Blocking
import EmOdp.QueueGroup.LifeCycles
