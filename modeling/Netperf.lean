import Netperf.Lib.Runs
import Netperf.Control
import Netperf.Lib.Frames
import Netperf.NetUtils
import Netperf.Conversations
import Netperf.Controller
import Netperf.ServerTest
import Netperf.Notices
import Netperf.ServerPhases
import Netperf.EndOfLoad
import Netperf.Vanish
import Netperf.Lib.Lists
import Netperf.Registration
import Netperf.Server
import Netperf.ServerLoop
import Netperf.Silence
import Netperf.Handling
import Netperf.Isolation
import Netperf.ClientSocket
import Netperf.Pair
import Netperf.Results
import Netperf.Gathering
import Netperf.Session
import Netperf.Alignment
import Netperf.Directions
import Netperf.Observations
import Netperf.Collection
import Netperf.Admission
import Netperf.Announced
import Netperf.Progress
import Netperf.DataStream
import Netperf.Lib.LittleEndian
import Netperf.P3.DataPlane
import Netperf.P3.Streams
import Netperf.P3.Negotiation
import Netperf.P3.Places
import Netperf.P3.Sending
import Netperf.StreamCounts
import Netperf.WorkerPanics
import Netperf.StreamIds
import Netperf.Grammar
import Netperf.P3.Reader
import Netperf.Accounting
import Netperf.Ui
import Netperf.Samples
import Netperf.Figures
import Netperf.Lib.Checked
import Netperf.Reporting
import Netperf.Completion
import Netperf.Lib.Efforts
import Netperf.Room
import Netperf.Effort
import Netperf.Desertion
import Netperf.Reported
import Netperf.Winding
import Netperf.P3.WholeTest
import Netperf.Latency
import Netperf.P3.Stalls
import Netperf.Printed
import Netperf.Handshake
import Netperf.Served
import Netperf.Windows
