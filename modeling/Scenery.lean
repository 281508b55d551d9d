import Scenery.Restartable
import Scenery.Exclusion
import Scenery.PlanningFrame
import Scenery.Revalidation
import Scenery.Durable.Fencing
import Scenery.Durable.History
import Scenery.Durable.Waiting
import Scenery.Durable.Limit
import Scenery.Durable.Deduplication
import Scenery.Durable.Steps
import Scenery.Durable.Firing
import Scenery.Auth.Login
import Scenery.Auth.Family
import Scenery.Vault.Credentials
import Scenery.Deploy.Plans
import Scenery.Deploy.LockProgress
import Scenery.Deploy.Committing
import Scenery.Host.Streams
import Scenery.Host.FinalReport
import Scenery.Dev.Draining
import Scenery.Mcp.SessionBinding
import Scenery.Assistant.Issued
import Scenery.Assistant.Chunking
import Scenery.Storage.RestoreProgress
import Scenery.Contract.Dates
import Scenery.Contract.Decoding
import Scenery.Revision
import Scenery.Unreported
import Scenery.Policy.Equality
import Scenery.Http.Preflight
import Scenery.Http.Negotiation
import Scenery.Schedule.Calendar
import Scenery.Schedule.Overlap
import Scenery.Storage.Ordered
import Scenery.Contract.Equality
import Scenery.Dirlisting
import Scenery.Mcp.Federation
import Scenery.Validation
import Scenery.Http.Allow
import Scenery.Watchignore.Rules
import Scenery.Syntax
