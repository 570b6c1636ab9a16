import GeserDesk.Clipboard.Content
import GeserDesk.Client.Clipboard
import GeserDesk.Client.FirstUse
import GeserDesk.Client.Inject
import GeserDesk.Proto.Codec
import GeserDesk.App.Control
import GeserDesk.App.Session
import GeserDesk.Lib.Dict
import GeserDesk.Lib.Postcard
import GeserDesk.Lib.Spans
import GeserDesk.Lib.Transition
import GeserDesk.Lib.Unwinding
import GeserDesk.Clipboard.Inbound
import GeserDesk.Clipboard.Collect
import GeserDesk.Clipboard.Pull
import GeserDesk.Clipboard.PullBounds
import GeserDesk.Server.Handover
import GeserDesk.Server.Files
import GeserDesk.Server.CoordBounds
import GeserDesk.Server.DeskOverlap
import GeserDesk.Server.DeskPart
import GeserDesk.Server.OneCursor
import GeserDesk.Server.Bounce
import GeserDesk.Server.Placement
import GeserDesk.Server.Handshake
import GeserDesk.Server.Relay
import GeserDesk.System.RelayRuns
import GeserDesk.System.SyncRuns
import GeserDesk.System.SavedConfig
import GeserDesk.System.CopyLimits
import GeserDesk.System.Announcements
import GeserDesk.Clipboard.StageSafety
import GeserDesk.Clipboard.OsWalk
import GeserDesk.Clipboard.Pullable
import GeserDesk.System.CopiedTree
import GeserDesk.System.OneDesk
import GeserDesk.System.HubView
import GeserDesk.System.GrabRuns
import GeserDesk.System.KeyRuns
import GeserDesk.System.PullRuns
import GeserDesk.System.PromptRuns
import GeserDesk.System.GateRuns
import GeserDesk.System.InputRuns
import GeserDesk.System.OrphanedReads
import GeserDesk.System.CrossedAnswers
import GeserDesk.System.ActiveScreen
import GeserDesk.System.Admission
import GeserDesk.System.TurnedOff
import GeserDesk.System.LastCopy
import GeserDesk.System.MotionRuns
import GeserDesk.System.CancelRuns
import GeserDesk.System.ChordRuns
import GeserDesk.System.HookRuns
import GeserDesk.System.InjectRuns
import GeserDesk.Server.Pending
import GeserDesk.System.PendingRuns
import GeserDesk.System.RangeRuns
import GeserDesk.Server.Admin
import GeserDesk.Server.AutoPlacement
import GeserDesk.Server.LinkWalk
import GeserDesk.Clipboard.Reassembly
import GeserDesk.Server.KeepAlive
import GeserDesk.App.Remote
import GeserDesk.App.Transfers
import GeserDesk.Client.TrustStore
import GeserDesk.System.Welcomes
import GeserDesk.Server.ConfigText
import GeserDesk.App.KeysFile
import GeserDesk.Lib.Utf8
import GeserDesk.Server.FingerprintBytes
import GeserDesk.Lib.Scan
import GeserDesk.App.Geometry
import GeserDesk.App.SideDrag
import GeserDesk.App.EditorAgrees
import GeserDesk.System.DrivenMachines
import GeserDesk.App.Arrange
import GeserDesk.App.AutoArrange
import GeserDesk.Client.Retry
import GeserDesk.System.Greeting
import GeserDesk.System.IdentityFile
import GeserDesk.System.ReceivedRuns
import GeserDesk.System.MonitorReports
import GeserDesk.App.Daemon
import GeserDesk.App.Mirror
import GeserDesk.Clipboard.Note
