import PgCmdQueue.Connection
import PgCmdQueue.Daemon
import PgCmdQueue.Environment
import PgCmdQueue.Extension.CmdLine
import PgCmdQueue.Extension.DeleteAfterUpdate
import PgCmdQueue.Extension.Downcast
import PgCmdQueue.Extension.Interval
import PgCmdQueue.Extension.QueueOrder
import PgCmdQueue.Extension.QueueView
import PgCmdQueue.Extension.RequireExitSuccess
import PgCmdQueue.Extension.RunSqlCmdQueue
import PgCmdQueue.Extension.SignatureConstraint
import PgCmdQueue.Lib.Announced
import PgCmdQueue.Lib.Backoff
import PgCmdQueue.Lib.FdTable
import PgCmdQueue.Lib.JobPool
import PgCmdQueue.LogWriter
import PgCmdQueue.Manager.Listen
import PgCmdQueue.Manager.MainThread
import PgCmdQueue.Manager.OneRunnerEach
import PgCmdQueue.Manager.Shutdown
import PgCmdQueue.NixTool.CmdRuntime
import PgCmdQueue.NixTool.SameRun
import PgCmdQueue.NixTool.UpdateStmt
import PgCmdQueue.Notify
import PgCmdQueue.Payload
import PgCmdQueue.Postgres.Float8
import PgCmdQueue.Postgres.Name
import PgCmdQueue.Postgres.Raises
import PgCmdQueue.QueueCmd
import PgCmdQueue.QueueMetadata
import PgCmdQueue.RunCmd.Capture
import PgCmdQueue.RunCmd.Descriptors
import PgCmdQueue.RunCmd.Isolation
import PgCmdQueue.RunCmd.Stderr
import PgCmdQueue.RunCmd.Stdin
import PgCmdQueue.RunCmd.Timeout
import PgCmdQueue.RunCmd.Wakeup
import PgCmdQueue.Runner.Atomic
import PgCmdQueue.Runner.ExactlyOnce
import PgCmdQueue.Runner.Exclusive
import PgCmdQueue.Runner.JobPool
import PgCmdQueue.Runner.Join
import PgCmdQueue.Runner.KillPipe
import PgCmdQueue.Runner.NixStdin
import PgCmdQueue.Runner.Notices
import PgCmdQueue.Runner.Progress
import PgCmdQueue.Runner.Recorded
import PgCmdQueue.Runner.Reselect
import PgCmdQueue.Runner.RoundCounter
import PgCmdQueue.Runner.Stop
import PgCmdQueue.SqlErrors
import PgCmdQueue.WithCmdqd.CleanExit
import PgCmdQueue.WithCmdqd.Readiness
import PgCmdQueue.WithCmdqd.Wrapper
