import Xinu.Theorems.HeapInvariant
import Xinu.Theorems.ProcessLists
import Xinu.Theorems.SemaphoreInvariant
import Xinu.Theorems.SleepLaw
import Xinu.Theorems.Scheduling
import Xinu.Theorems.Mailbox
import Xinu.Theorems.ProcessAccounting
import Xinu.Theorems.UdpQueues
import Xinu.Theorems.UdpSlots
import Xinu.Theorems.IcmpQueues
import Xinu.Theorems.TtyInput
import Xinu.Theorems.TtyOutput
import Xinu.Theorems.AllocationSizes
import Xinu.Theorems.FormattedOutput
import Xinu.Theorems.ScanPrint
import Xinu.Theorems.TftpTransfer
import Xinu.Theorems.Configuration
import Xinu.Theorems.PacketDisposal
import Xinu.Theorems.Loopback
import Xinu.Theorems.Datagrams
import Xinu.Theorems.Echoes
import Xinu.Theorems.IpQueue
import Xinu.Theorems.ArpCache
import Xinu.Theorems.ArpAnswers
import Xinu.Theorems.ArpLan
import Xinu.Theorems.HeapCalls
import Xinu.Theorems.FailedCalls
import Xinu.Theorems.Deferral
import Xinu.Theorems.DiskFormat
import Xinu.Theorems.ExitNotification
import Xinu.Theorems.PortReset
import Xinu.Theorems.PortConservation
import Xinu.Theorems.PortMessages
import Xinu.Kernel.Storage
import Xinu.Lib.Chain
import Xinu.Memory.PoolChains
import Xinu.Theorems.BufferPools
import Xinu.Lfs.Truncate
import Xinu.Theorems.RemoteDisk
import Xinu.Theorems.RemoteFile
import Xinu.Theorems.UdpLengths
import Xinu.Theorems.TtyLookahead
import Xinu.Theorems.TtyReading
import Xinu.Theorems.LineEditing
import Xinu.Lib.OnesComplement
import Xinu.Net.Bounds
import Xinu.Theorems.Checksums
import Xinu.Theorems.IcmpLengths
import Xinu.Theorems.MaskBalance
import Xinu.Theorems.DnsQuestions
import Xinu.Theorems.DnsResponses
import Xinu.Theorems.DhcpOptions
import Xinu.Theorems.DhcpSlot
import Xinu.Theorems.DhcpAcks
import Xinu.Theorems.DnsQueries
import Xinu.Theorems.DottedAddresses
import Xinu.Theorems.NameSubstitution
import Xinu.Theorems.NamePrefixes
import Xinu.Theorems.ShellTokens
import Xinu.Theorems.ShellCommands
import Xinu.Theorems.RejectedCommands
import Xinu.Theorems.NumericFormatting
import Xinu.Theorems.Sorting
import Xinu.Theorems.CalendarDates
import Xinu.Theorems.DeltaLists
import Xinu.Theorems.IndexBlocks
import Xinu.Theorems.RoundRobin
import Xinu.Theorems.LocalFiles
