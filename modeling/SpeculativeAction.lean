import SpeculativeAction.CandidateExecution
import SpeculativeAction.PlanRuntime.DecisionWindows
import SpeculativeAction.PlanRuntime.Retention
import SpeculativeAction.EffectTransaction.AdoptionSafety
import SpeculativeAction.ReuseStore.Retention
import SpeculativeAction.ProcessHandoff.Exclusion
import SpeculativeAction.ReuseStore.Tickets
import SpeculativeAction.ActionSemantics
import SpeculativeAction.CandidateStore.Eviction
import SpeculativeAction.TaskTiming.Accounting
import SpeculativeAction.Scheduler.Order
import SpeculativeAction.DrafterBudget.Accounting
import SpeculativeAction.ActorAction.Accounting
import SpeculativeAction.ResultViews.Retention
import SpeculativeAction.ArtifactViews.Leases
import SpeculativeAction.RuntimeLifecycle.Shutdown
import SpeculativeAction.WorkspaceDiff.Soundness
import SpeculativeAction.TaskTiming.RestoredTiming
import SpeculativeAction.StableEquality
import SpeculativeAction.TaskTiming.RootedGraphs
import SpeculativeAction.TaskTiming.IntervalAlgebra
import SpeculativeAction.PathContainment
import SpeculativeAction.EventQueue.Runs
import SpeculativeAction.PpmTrie.RoundTrip
import SpeculativeAction.Scheduler.LedgerBound
import SpeculativeAction.ContentChunks.Writing
import SpeculativeAction.ExecutionPaths
import SpeculativeAction.StreamPreview.Streams
import SpeculativeAction.TraceLines.Rendering
import SpeculativeAction.NativeMetadata.Reads
import SpeculativeAction.PatternBindings.Replay
import SpeculativeAction.ActionSemantics.Canonical
import SpeculativeAction.ProcessHandoff.Linearity
import SpeculativeAction.ReuseLookup.Sharing
