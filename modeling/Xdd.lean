import Xdd.Library.Account
import Xdd.Library.CInt
import Xdd.Library.Extremum
import Xdd.Library.Links
import Xdd.Library.Ownership
import Xdd.Library.Stream
import Xdd.Library.Strtoul
import Xdd.Library.Text
import Xdd.Library.Tiling
import Xdd.Library.Transition
import Xdd.TimeStamp.Stamping
import Xdd.TimeStamp.Entries
import Xdd.DirectIo.Fallback
import Xdd.DirectIo.Descriptors
import Xdd.Syncio.Barrier
import Xdd.Syncio.Stranded
import Xdd.Trigger.Start
import Xdd.Trigger.Delivered
import Xdd.Barrier.Chain
import Xdd.Barrier.Wait
import Xdd.Bx.Pipeline
import Xdd.Bx.LostWakeUp
import Xdd.Bx.Places
import Xdd.Bx.Carried
import Xdd.Bx.Complete
import Xdd.Target.Data
import Xdd.Target.SeekList
import Xdd.Target.Pass
import Xdd.Target.Coverage
import Xdd.Target.Capacity
import Xdd.Target.Options
import Xdd.Target.ScsiGeneric
import Xdd.Target.SaveLoad
import Xdd.Target.Mix
import Xdd.Target.Stagger
import Xdd.Target.Histogram
import Xdd.Target.Loading
import Xdd.Target.Throttling
import Xdd.DataPattern.Hex
import Xdd.DataPattern.Conversion
import Xdd.DataPattern.Buffer
import Xdd.DataPattern.Verify
import Xdd.Options.CommandLine
import Xdd.Options.Phases
import Xdd.Options.LastWriter
import Xdd.Options.Addresses
import Xdd.Options.Ports
import Xdd.Options.BasePorts
import Xdd.Options.Calls
import Xdd.Options.Paramfile
import Xdd.Tools.Naming
import Xdd.Tools.Partition
import Xdd.Tools.Flow
import Xdd.Ordering.Table
import Xdd.Ordering.Chain
import Xdd.Ordering.Serial
import Xdd.Ordering.Release
import Xdd.EndToEnd.Framing
import Xdd.EndToEnd.Receive
import Xdd.EndToEnd.AddressCache
import Xdd.EndToEnd.Bounds
import Xdd.EndToEnd.Copy
import Xdd.EndToEnd.Exact
import Xdd.EndToEnd.Reported
import Xdd.Results.Run
import Xdd.Results.Rounds
import Xdd.Results.Torn
import Xdd.Results.Ledger
import Xdd.Results.Totals
import Xdd.Results.ExitStatus
import Xdd.Results.OpTimes
import Xdd.HandOff.Loops
import Xdd.HandOff.Exclusive
import Xdd.HandOff.Available
import Xdd.HandOff.Outstanding
import Xdd.Restart.File
import Xdd.Restart.Monitor
import Xdd.Restart.PlainTcp
import Xdd.Restart.Scan
import Xdd.Restart.Checkpoints
import Xdd.Xni.Framing
import Xdd.Xni.Pool
import Xdd.Xni.Connection
import Xdd.Xni.Delivered
import Xdd.Xni.Resume
import Xdd.Lockstep.Construction
import Xdd.Lockstep.Ring
import Xdd.Lockstep.Exclusion
import Xdd.Lockstep.Stranded
import Xdd.Lockstep.Ending
import Xdd.Lite.Options
import Xdd.Lite.Plan
