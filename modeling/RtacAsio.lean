import RtacAsio.Lib.Run
import RtacAsio.Lib.Memory
import RtacAsio.Request.Slot
import RtacAsio.Request.World
import RtacAsio.Request.Turn
import RtacAsio.Request.Steps
import RtacAsio.Request.Action
import RtacAsio.Request.Protocol
import RtacAsio.Reader.Model
import RtacAsio.Reader.Loops
import RtacAsio.Reader.Turns
import RtacAsio.Reader.Lawful
import RtacAsio.Reader.Bounds
import RtacAsio.Reader.Conservation
import RtacAsio.Reader.Ownership
import RtacAsio.Writer.Model
import RtacAsio.Writer.Lawful
import RtacAsio.Writer.Accounting
import RtacAsio.Contract
import RtacAsio.Threads.Model
import RtacAsio.Threads.Moves
import RtacAsio.Threads.Ids
import RtacAsio.Threads.Ending
import RtacAsio.Threads.Sync
import RtacAsio.Udp.Model
import RtacAsio.Udp.Window
import RtacAsio.Service.Timer
import RtacAsio.Service.Model
import RtacAsio.Service.KeepAlive
import RtacAsio.Service.Stop
import RtacAsio.Service.Exclusion
import RtacAsio.Service.Start
import RtacAsio.Threads.Wake
import RtacAsio.Udp.Lossless
import RtacAsio.Udp.Reader
import RtacAsio.Request.Wrap
import RtacAsio.KeptBusy
import RtacAsio.Reader.Scan
import RtacAsio.Reader.Framing
import RtacAsio.Reader.Agreement
import RtacAsio.StringStream.Model
import RtacAsio.StringStream.Piecewise
import RtacAsio.StringStream.Fifo
import RtacAsio.Reader.Line
import RtacAsio.Reader.Session
import RtacAsio.Reader.CutOff
import RtacAsio.Dump.Recording
import RtacAsio.Dump.Traffic
import RtacAsio.Udp.Nesting
import RtacAsio.Lib.Simulation
import RtacAsio.Request.Frame
import RtacAsio.Reader.Passage
import RtacAsio.Udp.Refinement
import RtacAsio.StringStream.Loopback
import RtacAsio.Request.Thorough
import RtacAsio.Request.Finish
import RtacAsio.Request.Timeouts
import RtacAsio.Outcome
import RtacAsio.Lib.Mutex
import RtacAsio.Service.Workers
import RtacAsio.Dump.Files
import RtacAsio.StringStream.Progress
import RtacAsio.Udp.Progress
import RtacAsio.Threads.Carried
import RtacAsio.Threads.Progress
import RtacAsio.Threads.View
import RtacAsio.Threads.Atomic
import RtacAsio.Threads.Refinement
