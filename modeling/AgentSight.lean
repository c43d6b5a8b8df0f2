import AgentSight.Bridge.ResumedStream
import AgentSight.Bridge.ResumeIdentity
import AgentSight.Bridge.Framing
import AgentSight.Bridge.FrameCeiling
import AgentSight.Bridge.ScopeFlush
import AgentSight.Bridge.HealthAccount
import AgentSight.Bridge.Annotations
import AgentSight.Bridge.Disclosure
import AgentSight.View.Coherence
import AgentSight.Bpf.LineValidity
import AgentSight.Bpf.TlsPairing
import AgentSight.Controller.RelayLifecycle
import AgentSight.Controller.RelayScope
import AgentSight.Controller.Revocation
import AgentSight.Collector.Authorization
import AgentSight.Collector.RelayPath
import AgentSight.Collector.RuntimeSlots
import AgentSight.Collector.TurnTracking
import AgentSight.Collector.LiveCapture
import AgentSight.Sse.Attribution
import AgentSight.Sse.ChunkedPlain
import AgentSight.Session.ScriptFields
import AgentSight.Session.StickyBindings
import AgentSight.Session.SplitRecords
import AgentSight.Session.Summaries
import AgentSight.Collector.HostSessions
import AgentSight.Pprof.Agreement
import AgentSight.View.UsageMerge
import AgentSight.View.TokenSummary
import AgentSight.Runners.System
import AgentSight.Collector.Monitor
import AgentSight.Bridge.SnapshotDelivery
import AgentSight.Bpf.Stdiocap
import AgentSight.Nebula.FileSet
import AgentSight.Session.ResponseMerge
import AgentSight.Http.WebSocket
import AgentSight.Http.Regrouping
import AgentSight.Http.StreamPairing
import AgentSight.Bpf.FollowedPids
import AgentSight.View.ProcessInstances
import AgentSight.Session.ShellSegments
import AgentSight.Http.Http1
import AgentSight.Collector.ProviderLine
import AgentSight.Collector.MintAtomicity
import AgentSight.Nebula.ResolvePath
import AgentSight.Bpf.FullCommand
import AgentSight.Sse.EmbeddedObject
import AgentSight.Nebula.DirectoryShares
import AgentSight.Bpf.FdDetail
