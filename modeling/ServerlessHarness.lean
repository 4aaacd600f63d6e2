import ServerlessHarness.Analysis.ConfigBundle.Discovering
import ServerlessHarness.Analysis.ConfigBundle.RoundTrip
import ServerlessHarness.Analysis.ConfigOverlay.Holding
import ServerlessHarness.Analysis.ControlPlane.Exchange
import ServerlessHarness.Analysis.ControlPlane.Paging
import ServerlessHarness.Analysis.ControlPlane.Queueing
import ServerlessHarness.Analysis.ControlPlane.Sealing
import ServerlessHarness.Analysis.ControlPlane.Tombstones
import ServerlessHarness.Analysis.GuestAgent.Capping
import ServerlessHarness.Analysis.K8sSandbox.Chunks
import ServerlessHarness.Analysis.K8sSandbox.Words
import ServerlessHarness.Analysis.Leaf.Tenants
import ServerlessHarness.Analysis.LeafJob.Saturation
import ServerlessHarness.Analysis.Mocactl.Diff
import ServerlessHarness.Analysis.Mocactl.Recovery
import ServerlessHarness.Analysis.Mocactl.Streaming
import ServerlessHarness.Analysis.Mocactl.Trimming
import ServerlessHarness.Analysis.Mocactl.Turns
import ServerlessHarness.Analysis.RemoteWorker.Buffering
import ServerlessHarness.Analysis.RemoteWorker.Dedup
import ServerlessHarness.Analysis.RemoteWorker.LeastRecent
import ServerlessHarness.Analysis.RemoteWorker.Reserve
import ServerlessHarness.Analysis.Sandbox.Leases
import ServerlessHarness.Analysis.SessionLog.Durability
import ServerlessHarness.Analysis.Supervisor.Affinity
import ServerlessHarness.Analysis.Supervisor.Capacity
import ServerlessHarness.Analysis.Supervisor.Draining
import ServerlessHarness.Analysis.Supervisor.Estimates
import ServerlessHarness.Analysis.Supervisor.Heads
import ServerlessHarness.Analysis.TurnStream.Previews
import ServerlessHarness.Analysis.VmPool.Budget
import ServerlessHarness.Analysis.VmPool.CgroupNames
import ServerlessHarness.Analysis.VmPool.Counting
import ServerlessHarness.Analysis.VmPool.Isolation
import ServerlessHarness.Analysis.VmPool.Parking
import ServerlessHarness.Analysis.VmPool.Shutdown
import ServerlessHarness.Analysis.VmPool.Sweeping
import ServerlessHarness.Analysis.VmPool.Warmings
import ServerlessHarness.Analysis.Workloads.Ownership
