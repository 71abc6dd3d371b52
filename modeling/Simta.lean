import Simta.Lib.Prog
import Simta.Lib.Directory
import Simta.Spool
import Simta.Envelope
import Simta.EnvMove
import Simta.QCleanup
import Simta.DirStartup
import Simta.SlowMerge
import Simta.Families
import Simta.Recovery
import Simta.Lib.World
import Simta.Receive
import Simta.StartTls
import Simta.Mx
import Simta.Address
import Simta.Rcpt
import Simta.EnvOutfile
import Simta.OutfileAtomic
import Simta.HeaderText
import Simta.Bounce
import Simta.Smtp
import Simta.Delivery
import Simta.Standing
import Simta.Lib.Links
import Simta.Queue
import Simta.HostQueues
import Simta.Schedule
import Simta.Backoff
import Simta.DiskScan
import Simta.Daemon
import Simta.DaemonSchedule
import Simta.DaemonBackoff
import Simta.Messages
import Simta.DaemonMessages
import Simta.Commands
import Simta.Punt
import Simta.Lib.Search
import Simta.Lib.StableSort
import Simta.StringAddress
import Simta.AddressGrammar
import Simta.AddressCorrection
import Simta.AddressPath
import Simta.ExpAddr
import Simta.Memonly
import Simta.SenderChild
import Simta.RootPath
import Simta.Lib.Chain
import Simta.Expand
import Simta.Ldap
import Simta.AddressExpand
import Simta.ExpandSteps
import Simta.ExpandRules
import Simta.Worklist
import Simta.ExpandRun
import Simta.ExpandOut
import Simta.ExpandMarks
import Simta.TerminalAddress
import Simta.Permitted
import Simta.AtSign
import Simta.ExpandPartition
import Simta.Partition
import Simta.HeaderParse
import Simta.CommentSkip
import Simta.LineFile
import Simta.HeaderCorrect
import Simta.HeaderRecipients
import Simta.HeaderNames
import Simta.HeaderRead
import Simta.Data
import Simta.HeaderFields
import Simta.DataSize
import Simta.SnetStream
import Simta.DotStuffing
import Simta.AddressLists
import Simta.MessageId
import Simta.MailboxText
import Simta.FieldText
import Simta.RecipientHeader
import Simta.CommandWords
import Simta.RedTable
import Simta.ReplyLine
import Simta.TimeOrder
import Simta.RemoteHosts
import Simta.RetryList
import Simta.LdapFilter
import Simta.LocalRules
import Simta.Base64
import Simta.DnsMatch
import Simta.Lib.Orbit
import Simta.DnsName
import Simta.DnsLabels
import Simta.SnetLines
import Simta.Wildcard
import Simta.StartupMerge
import Simta.SeenBefore
import Simta.DnCanonical
import Simta.Dll
import Simta.EnvIndex
import Simta.EnvIndexed
import Simta.IndexRuns
import Simta.TokenUnfold
import Simta.Lib.Numeral
import Simta.EnvIds
import Simta.Lib.Fields
import Simta.MbxCompare
import Simta.MxCutoff
import Simta.DataCommand
import Simta.FilterVerdict
import Simta.Session
import Simta.Lib.Monitor
import Simta.SessionHistory
import Simta.SessionInvariant
import Simta.DataHistory
import Simta.SessionRuns
import Simta.DataAnswer
import Simta.ProcessTable
import Simta.ProcessAccounts
import Simta.EfileRoundTrip
import Simta.Peer
import Simta.InStep
import Simta.Tally
