import Grnvs.Ascii.Order
import Grnvs.Ascii.Channels
import Grnvs.Ascii.Grammar
import Grnvs.Ascii.Grouping
import Grnvs.Ascii.Outgoing
import Grnvs.Trace.Extension
import Grnvs.Trace.Replies
import Grnvs.Trace.Allowance
import Grnvs.Stats.Interrupted
import Grnvs.Trace.Labels
import Grnvs.Trace.HopLimit
import Grnvs.Ascii.Starving
import Grnvs.Ascii.Visits
import Grnvs.Trace.Landing
import Grnvs.Collatz.Orbit
import Grnvs.Hexdump.Program
import Grnvs.Stats.Counters
import Grnvs.Raw.Session
import Grnvs.Trace.Arguments
import Grnvs.Trace.Wire
import Grnvs.Stats.Main
import Grnvs.Trace.Distance
import Grnvs.Trace.Termination
import Grnvs.Ascii.Sockets
import Grnvs.Stats.Memory
import Grnvs.Ascii.Hanging
import Grnvs.Trace.Main
