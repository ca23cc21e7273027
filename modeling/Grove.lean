import Grove.Api.Manifests
import Grove.Api.Publishing
import Grove.Client.Carried
import Grove.Client.Clock
import Grove.Client.HostFields
import Grove.Client.Retained
import Grove.Client.Tracking
import Grove.Core.BreakerRuns
import Grove.Core.Countdown
import Grove.Core.DispatchRuns
import Grove.Core.Punctual
import Grove.Core.Regions
import Grove.Core.Resume
import Grove.Core.Spatial
import Grove.Core.Tweening
import Grove.Editor.Digest
import Grove.Editor.Exits
import Grove.Fleet.History
import Grove.Fleet.Slots
import Grove.Fleet.Worlds
import Grove.Grove
import Grove.Host.Clock
import Grove.Host.Instance
import Grove.Host.Saves
import Grove.Instances.Beats
import Grove.Instances.Drains
import Grove.Instances.Ring
import Grove.Joins.Line
import Grove.Joins.Queue
import Grove.Manager.Budgets
import Grove.Manager.Leaderboard
import Grove.Manager.Revisions
import Grove.Math.Random
import Grove.Net.Chunks
import Grove.Net.Emitted
import Grove.Net.Held
import Grove.Net.Listing
import Grove.Net.Sends
import Grove.Net.Superseded
import Grove.Objects.Types
import Grove.Render.Picking
import Grove.Render.Subtrees
import Grove.Sim.LagRing
import Grove.Sim.Placing
import Grove.Sim.Readable
import Grove.Sim.Registry
import Grove.Tasks.Building
import Grove.Tasks.Positions
import Grove.Transport.InboxRuns
import Grove.Transport.LoopbackRuns
import Grove.Transport.Utf16
