import TedgeDot.Report.Settle
import TedgeDot.Report.Replay
import TedgeDot.Report.Agreement
import TedgeDot.Measure.Accounting
import TedgeDot.Measure.Frames
import TedgeDot.Lib.LastIndex
import TedgeDot.Lib.Code
import TedgeDot.Measure.Slots
import TedgeDot.Measure.Inherited
import TedgeDot.Measure.Distinct
import TedgeDot.Runtime.InFlight
import TedgeDot.Runtime.SetConfig
import TedgeDot.Runtime.Boundary
import TedgeDot.Runtime.Rearm
import TedgeDot.Runtime.Ownership
import TedgeDot.Map.Integers
import TedgeDot.Library.Points
import TedgeDot.Runtime.Reach
import TedgeDot.Runtime.DueAt
import TedgeDot.Sdk.EncodeAgreement
import TedgeDot.Lib.Shortest
import TedgeDot.Opcua.Decode
import TedgeDot.Opcua.Fields
import TedgeDot.Opcua.Total
import TedgeDot.Opcua.Values
import TedgeDot.Opcua.Selection
import TedgeDot.Lib.Reading
import TedgeDot.Map.WriteBack
import TedgeDot.Canbus.Write
import TedgeDot.Sdk.WriteNumber
import TedgeDot.Canopen.Transfer
import TedgeDot.Profibus.Inputs
import TedgeDot.Snmp.Listener
import TedgeDot.Runtime.ReadPool
import TedgeDot.Snmp.Poll
import TedgeDot.Snmp.Answers
import TedgeDot.Snmp.TrapEngine
import TedgeDot.Opcua.Namespaces
import TedgeDot.Flows.CommandForward
import TedgeDot.Opcua.Subscriptions
import TedgeDot.Flows.CommandResult
import TedgeDot.Flows.ParameterState
import TedgeDot.Flows.Ownership
import TedgeDot.Flows.Sources
import TedgeDot.Flows.Edits
import TedgeDot.Flows.Configuration
import TedgeDot.Flows.Convergence
import TedgeDot.Runtime.Lifecycle
import TedgeDot.Runtime.InForce
import TedgeDot.Runtime.FileEdits
import TedgeDot.Runtime.EngineeringUnits
import TedgeDot.Flows.Descriptors
import TedgeDot.Flows.Registration
import TedgeDot.Flows.DescriptorOrder
import TedgeDot.Runtime.MainLoop
import TedgeDot.Runtime.OneRead
import TedgeDot.Lib.Retained
import TedgeDot.Runtime.BrokerSession
import TedgeDot.Runtime.Restored
import TedgeDot.Runtime.RetainedUnits
import TedgeDot.Lib.Scan
import TedgeDot.Runtime.Supervisor
import TedgeDot.Runtime.WatchedFiles
import TedgeDot.Runtime.Noticed
import TedgeDot.Lib.FirstKept
import TedgeDot.Map.Outputs
import TedgeDot.Sdk.Bitfield
import TedgeDot.Lib.Division
import TedgeDot.Lib.Spans
import TedgeDot.Sdk.DurationAgreement
import TedgeDot.Runtime.WriteBatch
import TedgeDot.Measure.Deadlines
import TedgeDot.Lib.Numbered
import TedgeDot.Measure.Sizes
import TedgeDot.Measure.Splits
import TedgeDot.Measure.SizeBound
import TedgeDot.Report.Heartbeat
import TedgeDot.Flows.Measurement
import TedgeDot.Flows.UnitsState
import TedgeDot.Canbus.Layout
import TedgeDot.Canopen.ByteOrder
import TedgeDot.Modbus.Registers
import TedgeDot.Modbus.FieldWrite
import TedgeDot.Lib.Framing
import TedgeDot.Profibus.Frames
import TedgeDot.Profibus.Scanner
import TedgeDot.Lib.Calendar
import TedgeDot.Lib.Rfc3339
import TedgeDot.Opcua.Instants
import TedgeDot.Lib.MinimalBytes
import TedgeDot.Lib.Septets
import TedgeDot.Snmp.Canonical
import TedgeDot.Flows.Alarms
import TedgeDot.Flows.AlarmConditions
import TedgeDot.Flows.AlarmOwners
import TedgeDot.Lib.Chunks
import TedgeDot.Snmp.Complete
import TedgeDot.Snmp.TdotPoll
import TedgeDot.AvevaPi.Ring
import TedgeDot.Opcua.PushRing
import TedgeDot.AvevaPi.Cursor
import TedgeDot.AvevaPi.Channels
import TedgeDot.Runtime.Redelivered
import TedgeDot.Opcua.Pipelined
