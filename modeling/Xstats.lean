import Xstats.Lib.Transition
import Xstats.Lib.SharedReads
import Xstats.Lib.RingBuffer
import Xstats.Lib.Decimal
import Xstats.Lib.FlatJson
import Xstats.Lib.BoundedText
import Xstats.Lib.Bytes
import Xstats.Lib.Delimited
import Xstats.Lib.BitFields
import Xstats.Xstat.RingRun
import Xstats.Xstat.Timestamps
import Xstats.Xstat.SharedClock
import Xstats.Xstat.Exit
import Xstats.Haswellstat.Sleep
import Xstats.Xstat.Sleep
import Xstats.Haswellstat.StopLiving
import Xstats.Xstat.IpmiLabels
import Xstats.Lib.PageReader
import Xstats.Hardware
import Xstats.PerfTotals
import Xstats.Haswellstat.Counters
import Xstats.Haswellstat.Init
import Xstats.Haswellstat.Ring
import Xstats.Haswellstat.RingsAgree
import Xstats.Haswellstat.RollBuffer
import Xstats.Haswellstat.Windows
import Xstats.Micstat.StatText
import Xstats.Micstat.Unload
import Xstats.Micstat.Windows
import Xstats.Sbstat.Lossless
import Xstats.Xstat.Energy
import Xstats.Xstat.Hotplug
import Xstats.Xstat.Init
import Xstats.Xstat.PartialStart
import Xstats.Xstat.PerfLimit
import Xstats.Xstat.TempWord
import Xstats.Xstat.PerfModule
import Xstats.Xstat.PerfSamples
import Xstats.Xstat.IpmiUsers
import Xstats.Xstat.IpmiMsgids
import Xstats.Xstat.IpmiRemoval
import Xstats.Lib.Locks
import Xstats.Lib.Gaps
import Xstats.Lib.JsonLines
import Xstats.Lib.Ranking
import Xstats.Lib.Spacing
import Xstats.Lib.Simulation
import Xstats.Xstat.Consumer
import Xstats.Xstat.Progress
import Xstats.Xstat.Pace
import Xstats.Xstat.Service
import Xstats.Lib.RelativeError
import Xstats.PerfRounding
import Xstats.Lib.Json
import Xstats.Lib.LooseJson
import Xstats.Lib.LabelledWords
import Xstats.StatReader
import Xstats.Haswellstat.Pace
import Xstats.Micstat.Pace
