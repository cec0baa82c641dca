import Xsched.Preempt.Steps
import Xsched.Preempt.Invariant
import Xsched.Preempt.Pause
import Xsched.Preempt.Completion
import Xsched.Preempt.Fifo
import Xsched.Preempt.WaitAll
import Xsched.Preempt.Idle
import Xsched.Preempt.AsyncXQueue
import Xsched.Preempt.Suspend
import Xsched.Preempt.Submit
import Xsched.Preempt.Progress
import Xsched.Preempt.InFlight
import Xsched.Preempt.Drop
import Xsched.Cuda.ExactlyOnce
import Xsched.Cuda.Device
import Xsched.Cuda.Events
import Xsched.HbSplit.Launch
import Xsched.HbSplit.Ptx
import Xsched.HbSplit.Reads
import Xsched.Cuda.Unload
import Xsched.LevelZero.CmdList
import Xsched.Preempt.Executor
import Xsched.Preempt.LastReference
import Xsched.Core.Bytes
import Xsched.Platform.KernelArgs
import Xsched.Sched.Local
import Xsched.Sched.Server
import Xsched.Sched.Representation
import Xsched.Sched.Handle
import Xsched.Sched.Client
import Xsched.Sched.Agreement
import Xsched.Sched.Announced
import Xsched.Sched.Handover
import Xsched.Sched.Config
import Xsched.Cuda.EventQuery
import Xsched.Hip.Shim
import Xsched.Hip.NullStream
import Xsched.Hip.EventWait
import Xsched.Cuda.NullStream
import Xsched.Core.Unwinding
import Xsched.Sched.Policy
import Xsched.Sched.HintPolicies
import Xsched.Sched.Memory
import Xsched.Sched.TimePolicies
import Xsched.Sched.PolicyMemory
import Xsched.Sched.Reuse
import Xsched.Sched.PrioritySafety
import Xsched.Sched.Rounds
import Xsched.Core.MapLoop
import Xsched.Utils.McsLock
import Xsched.Sched.PolicySwitch
import Xsched.Utils.PidWaiter
import Xsched.Cuda.ManagedMemory
import Xsched.LevelZero.Immediate
import Xsched.HbSplit.Registry
import Xsched.Core.Notify
import Xsched.Preempt.LifeCycle
import Xsched.Preempt.Ownership
import Xsched.Cuda.EventLife
import Xsched.Cuda.EventDestroy
import Xsched.Sched.ServiceLevels
import Xsched.Sched.Interference
import Xsched.Sched.FeedbackLevels
import Xsched.Sched.FairRounds
import Xsched.Sched.FairShare
import Xsched.Sched.Newcomers
import Xsched.Core.MapIter
import Xsched.Sched.Rotation
import Xsched.Core.RunQueue
import Xsched.Sched.Partition
import Xsched.Sched.ProcessPartition
import Xsched.Sched.ProcessSlices
import Xsched.Sched.Budgets
import Xsched.Sched.DeadlineOrder
import Xsched.Sched.NoExecute
import Xsched.Sched.ActiveWindows
import Xsched.Sched.EventLoop
import Xsched.Sched.Ticks
import Xsched.Sched.LaxityTimers
import Xsched.Preempt.Course
import Xsched.Preempt.Overtaking
import Xsched.Preempt.Batches
import Xsched.Core.TakeUntil
import Xsched.Preempt.Admission
import Xsched.Preempt.Eviction
import Xsched.HbSplit.EntryNames
import Xsched.Cuda.Fatbin
import Xsched.HbSplit.TryLaunch
import Xsched.Preempt.Prefetch
import Xsched.Preempt.Budget
import Xsched.Preempt.ActiveQueues
import Xsched.Core.Stamps
import Xsched.Preempt.Hotness
import Xsched.Preempt.RemovedQueues
import Xsched.Core.Infix
import Xsched.HbSplit.Search
import Xsched.HbSplit.Idempotent
import Xsched.HbSplit.SingleFlight
import Xsched.HbSplit.SplitGroup
import Xsched.HbSplit.Entries
import Xsched.HbSplit.EntryTransform
import Xsched.HbSplit.ModuleTransform
import Xsched.Core.RowMajor
import Xsched.Cuda.PreemptBuffer
import Xsched.Cuda.InstrMem
import Xsched.Cuda.DeviceIntensity
import Xsched.Utils.ObjectPool
import Xsched.LevelZero.EventPools
import Xsched.Core.Layout
import Xsched.Sched.Wire
import Xsched.Sched.WireOperations
import Xsched.Sched.WireSystem
import Xsched.Cuda.Instrument
import Xsched.Sched.StatusQuery
import Xsched.Preempt.Managers
import Xsched.Core.Trampoline
import Xsched.Cuda.TrapHandler
import Xsched.Preempt.AutoQueues
import Xsched.OpenCL.DeferredArgs
