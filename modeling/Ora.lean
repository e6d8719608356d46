import Ora.Cli.ExchangedBounds
import Ora.Client.Limits
import Ora.Client.Waiting
import Ora.Executor.AcceptedRuns
import Ora.Executor.Process
import Ora.Postgres.CancelBeatsRetries
import Ora.Postgres.FiltersKept
import Ora.Postgres.Finality
import Ora.Postgres.HistoryDeleted
import Ora.Postgres.IfNotExists
import Ora.Postgres.JobCount
import Ora.Postgres.LifeCycle
import Ora.Postgres.ListedPage
import Ora.Postgres.ReadyStream
import Ora.Postgres.ScheduleLink
import Ora.Postgres.Waiting
import Ora.Proto.JobTypeIds
import Ora.Server.AddedLabels
import Ora.Server.Drained
import Ora.Server.HandedOver
import Ora.Server.Overdue
import Ora.Server.PoliciesKept
import Ora.Server.Priority
import Ora.Server.Recorded
import Ora.Server.Refused
import Ora.Server.RetryBackoff
import Ora.Server.ScheduleErrors
import Ora.Server.ScheduleProgress
import Ora.Server.StoppedSchedules
import Ora.Server.Zombies
import Ora.Tui.Caret
import Ora.Tui.KeptRows
import Ora.Tui.Prefill
import Ora.Ui.ConcurrencyLimit
import Ora.Ui.FilterLinks
import Ora.Ui.ListTable
import Ora.Ui.RouteQuery
import Ora.Wgroup.WaitGroup
