import GatewayConsole.Machine
import GatewayConsole.Server
import GatewayConsole.Resolver
import GatewayConsole.Repo
import GatewayConsole.Refresh
import GatewayConsole.Routing
import GatewayConsole.Mirror
import GatewayConsole.PoolWalk
import GatewayConsole.FailedReads
import GatewayConsole.AuditPollCatchUp
import GatewayConsole.AuditPollReply
import GatewayConsole.RosterJoin
import GatewayConsole.AuditPaging
import GatewayConsole.Migration
import GatewayConsole.StaleUnauthorized
import GatewayConsole.Drilldown
import GatewayConsole.CacheAge
import GatewayConsole.Spelling
import GatewayConsole.PoolPath
import GatewayConsole.FormatWei
import GatewayConsole.PayerDaemon
import GatewayConsole.Env
import GatewayConsole.LayerCheck
import GatewayConsole.NoSecretsInLogs
import GatewayConsole.AdminSender
import GatewayConsole.CapabilitySearch
import GatewayConsole.Restarts
import GatewayConsole.PageRest
import GatewayConsole.AdminApp
import GatewayConsole.AuditTrail
import GatewayConsole.FormatTimestamp
import GatewayConsole.ZodAtBoundary
