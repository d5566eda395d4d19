import Catio.Db.WriteOps.Import
import Catio.Db.SqlFileIo.Execute
import Catio.Db.QuerySessionRegistry.Leases
import Catio.Ssh.SftpTransfer.Cleanup
import Catio.Ssh.SftpTransfer.Agreement
import Catio.Ssh.Sftp.Write
import Catio.Ssh.Tunnel
import Catio.Ssh.Conn.HostKeys
import Catio.Ssh.Reconnect.Disconnect
import Catio.Agent.Engine.Protocol
import Catio.Agent.Engine.Approval
import Catio.Agent.Engine.Responses
import Catio.Agent.Engine.Conversation
import Catio.Automation.Repo.Durability
import Catio.Automation.Workbench
import Catio.Automation.Scheduler.Minutes
import Catio.Automation.Scheduler.Overlap
import Catio.Automation.Scheduler.Once
import Catio.Mcp.ServerTargets.OwnerScope
import Catio.Optical.Reads
import Catio.Workbench.AgentProjector.Settlement
import Catio.Workbench.CompareTables.Converges
import Catio.Db.SqlFileIo.Decoding
import Catio.Workbench.Transport.Subscriptions
import Catio.Workbench.TerminalCapture.Captures
import Catio.Server.VncSessions.Closing
import Catio.Db.SqlFile.Delimiters
import Catio.Workbench.RedisDiagnostics.Mirror
import Catio.Server.WsHub.Honest
import Catio.Server.WsCommands.Cleanup
import Catio.Db.Export.Batches
import Catio.Db.Export.Paging
import Catio.Db.ErRelation
import Catio.Ssh.ShellIntegration
import Catio.Ssh.Sftp.Download.Complete
import Catio.Ssh.Term.Output
import Catio.Db.MongoShell.RoundTrip
import Catio.Server.Sessions.Revocation
import Catio.Automation.Scheduler.Arithmetic
import Catio.Automation.Cron.Denotation
import Catio.Ssh.Sftp.Listing.Exact
import Catio.Ssh.Tunnel.Socks5
import Catio.Mcp.Chunked
import Catio.Automation.McpClient
import Catio.Agent.Provider.Decoders
import Catio.Agent.Provider.Anthropic.Assembly
import Catio.Workbench.GridFilter
import Catio.Workbench.MarkdownTable
import Catio.Mcp.LogFile
import Catio.Ssh.KnownHosts.Trust
import Catio.Db.ObjectSourceSql.Saved
import Catio.Workbench.CompareSelection
import Catio.Workbench.CompareTables.Equality
import Catio.Mcp.WriteTools
import Catio.Workbench.StructureDdl.Modified
import Catio.Workbench.AiSqlExecution.Scoped
import Catio.Mcp.Dates
import Catio.Db.Result
import Catio.Workbench.TerminalLayout
import Catio.Db.WriteOps.Upsert
import Catio.Workbench.Transfers
import Catio.Server.VncConn
import Catio.Workbench.ConfigSync
import Catio.Agent.Workspaces
import Catio.Automation.Scheduler.Due
