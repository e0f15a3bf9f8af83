import Dts.Infra.Run
import Dts.Infra.Probe
import Dts.Data.MapLaw
import Dts.Data.FrameLaw
import Dts.Web.ReportFrame
import Dts.Web.Window
import Dts.Routing.MsgTable
import Dts.Routing.TaskActive
import Dts.Bucket.Fifo
import Dts.Bucket.Delivery
import Dts.Bucket.Ownership
import Dts.Bucket.Wakeup
import Dts.Console.Jobs
import Dts.Console.ReadLine
import Dts.Console.Framing
import Dts.Detmw.Topic
import Dts.Detmw.Communicator
import Dts.Detmw.StaticDiscovery
import Dts.Agent.Framing
import Dts.Thread.ThreadRun
import Dts.Detsched.SchedDefs
import Dts.Routing.Tables
import Dts.Data.RawKey
import Dts.Web.ReportParse
import Dts.Console.Execute
import Dts.Bucket.Entry
import Dts.Data.Layout
import Dts.Data.Ttl
import Dts.Thread.Loop
import Dts.Timer.Period
import Dts.Timer.Cancel
import Dts.Log.Rotate
import Dts.Console.LineLimit
import Dts.Console.ActiveFds
import Dts.Web.Streams
import Dts.Routing.Activation
import Dts.Data.TdMap
import Dts.Agent.Capacity
import Dts.Console.Budget
import Dts.Data.Alignment
import Dts.Detmw.Dump
import Dts.Detmw.EntityIds
import Dts.Web.RequestHead
import Dts.Thread.Stop
import Dts.Bucket.Crash
import Dts.Detsched.Factory
import Dts.Detmw.ConfigFile
import Dts.Bootstrap.StopSignal
import Dts.Bootstrap.Routes
import Dts.Bootstrap.Lifecycle
import Dts.Console.Commands
import Dts.Web.Observation
import Dts.Infra.HttpHead
import Dts.Web.Exchange
