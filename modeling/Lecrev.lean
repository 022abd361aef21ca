import Lecrev.Api.Deployments
import Lecrev.Api.ProjectID
import Lecrev.Api.Refusals
import Lecrev.Artifact.Tools
import Lecrev.Build.Admission
import Lecrev.Build.Credentials
import Lecrev.Build.Manifests
import Lecrev.Build.NextSite
import Lecrev.Build.Redelivery
import Lecrev.Capacity.Placement
import Lecrev.Capacity.Restored
import Lecrev.Coordinator.Redelivery
import Lecrev.Direct.OffPath
import Lecrev.Dispatch.MemoryBus
import Lecrev.Execution.Budget
import Lecrev.Execution.Crash
import Lecrev.Execution.Delivery
import Lecrev.Execution.Fencing
import Lecrev.Execution.Live
import Lecrev.Execution.Provenance
import Lecrev.Execution.Race
import Lecrev.Execution.Terminal
import Lecrev.Http.Bodies
import Lecrev.Http.Readiness
import Lecrev.Http.StreamCalls
import Lecrev.Idempotency.Keys
import Lecrev.Leadership.Run
import Lecrev.Microvm.Leases
import Lecrev.Microvm.Subnets
import Lecrev.NodeAgent.Environment
import Lecrev.NodeAgent.Slots
import Lecrev.NodeAgent.Transmission
import Lecrev.Nodeexec.Worker
import Lecrev.Postgres.Json
import Lecrev.Postgres.Migrations
import Lecrev.Scheduler.FirstAccepting
import Lecrev.Secrets.Resolver
import Lecrev.Sessions.OpenChannels
import Lecrev.Sessions.Replacement
import Lecrev.Store.Claims
import Lecrev.Store.CompositeKeys
