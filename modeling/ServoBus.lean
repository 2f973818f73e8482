import ServoBus.Action
import ServoBus.Axis.Channel
import ServoBus.Axis.Layout
import ServoBus.Axis.Options
import ServoBus.Axis.Param
import ServoBus.Axis.Tuning
import ServoBus.Bus
import ServoBus.Checked
import ServoBus.Decimal.Literal
import ServoBus.Decimal.Positional
import ServoBus.Decimal.Shortest
import ServoBus.Decimal.Whole
import ServoBus.Device.Generic
import ServoBus.Device.Registry
import ServoBus.Device.Rig
import ServoBus.Device.Stepper
import ServoBus.Device.Type
import ServoBus.Fault
import ServoBus.Feature.Basic
import ServoBus.Feature.Resolve
import ServoBus.Feature.Set
import ServoBus.Image.Bytes
import ServoBus.Image.Field
import ServoBus.Image.Word
import ServoBus.Log
import ServoBus.Master
import ServoBus.Object
import ServoBus.Param.Channel
import ServoBus.Param.Declaration
import ServoBus.Param.Value
import ServoBus.Pin.Table
import ServoBus.Pin.Value
import ServoBus.Ratio.Basic
import ServoBus.Ratio.Convergent
import ServoBus.Registration.Basic
import ServoBus.Registration.Overlap
import ServoBus.Request.Writer
import ServoBus.Setup
import ServoBus.Slave
import ServoBus.Sync.Basic
import ServoBus.Sync.Builder
import ServoBus.Sync.Storage
import ServoBus.Text.Blank
import ServoBus.Text.Caseless
import ServoBus.Text.Hidden
import ServoBus.Text.Mark
import ServoBus.Text.Numeral
import ServoBus.Text.Quoted
import ServoBus.Text.Ranges
import ServoBus.Text.Unassigned
import ServoBus.Proofs.Action.Success
import ServoBus.Proofs.Axis.Flow
import ServoBus.Proofs.Axis.Channels
import ServoBus.Proofs.Axis.Address
import ServoBus.Proofs.Axis.Layout
import ServoBus.Proofs.Axis.Acceptance
import ServoBus.Proofs.Axis.Wiring
import ServoBus.Proofs.Action.Moves
import ServoBus.Proofs.Pin.Table
import ServoBus.Proofs.Registration.Overlap
import ServoBus.Proofs.Registration.Register
import ServoBus.Proofs.Setup
import ServoBus.Proofs.Axis.Channel
import ServoBus.Proofs.Axis.Configure
import ServoBus.Proofs.Axis.Settings
import ServoBus.Proofs.Device.Lines
import ServoBus.Proofs.Device.Wired
import ServoBus.Proofs.Device.Idle
import ServoBus.Proofs.Slave
import ServoBus.Proofs.Bus.Run
import ServoBus.Proofs.Device.Sends
import ServoBus.Proofs.Registration.Field
import ServoBus.Proofs.Slave.Drives
import ServoBus.Proofs.Bus.Write
import ServoBus.Proofs.Action.Failure
import ServoBus.Proofs.Axis.Maps
import ServoBus.Proofs.Axis.Room
import ServoBus.Proofs.Axis.Mapping
import ServoBus.Proofs.Request.Turn
import ServoBus.Proofs.Request.Run
import ServoBus.Proofs.Bus.Fresh
import ServoBus.Proofs.Device.Held
import ServoBus.Proofs.Slave.Places
import ServoBus.Proofs.Slave.Handles
import ServoBus.Proofs.Bus.Handles
import ServoBus.Proofs.Sync.Draft
import ServoBus.Proofs.Sync.Storage
import ServoBus.Proofs.Trace
import ServoBus.Proofs.Bus.Trace
import ServoBus.Proofs.Bus.Gate
import ServoBus.Proofs.Pin.Adds
import ServoBus.Proofs.Axis.Pins
import ServoBus.Proofs.Slave.Seen
import ServoBus.Proofs.Pin.Reading
import ServoBus.Proofs.Device.Takes
import ServoBus.Proofs.Slave.Takes
import ServoBus.Proofs.Slave.Read
import ServoBus.Proofs.Bus.Read
import ServoBus.Proofs.Setup.Trace
import ServoBus.Proofs.Axis.Noted
import ServoBus.Proofs.Axis.Seeds
import ServoBus.Proofs.Slave.Seeds
import ServoBus.Proofs.Slave.Settled
import ServoBus.Proofs.Bus.Lasting
import ServoBus.Proofs.Bus.Rests
import ServoBus.Proofs.Bus.Seeds
import ServoBus.Proofs.Setup.Answers
import ServoBus.Proofs.Axis.Answers
import ServoBus.Proofs.Device.Answers
import ServoBus.Proofs.Slave.Answers
import ServoBus.Proofs.Device.Made
import ServoBus.Proofs.Slave.History
import ServoBus.Proofs.Slave.Blank
import ServoBus.Proofs.Slave.Careful
import ServoBus.Station
import ServoBus.Proofs.Station
import ServoBus.Proofs.Station.Forgetful
import ServoBus.Proofs.Bus.Isolation
import ServoBus.Proofs.Param.Names
import ServoBus.Proofs.Device.Parameters
import ServoBus.Proofs.Device.Declared
import ServoBus.Proofs.Device.Faults
import ServoBus.Proofs.Slave.Handled
import ServoBus.Proofs.Device.Effects
import ServoBus.Proofs.Device.Latest
import ServoBus.Proofs.Setup.Exposes
import ServoBus.Proofs.Axis.Surface
import ServoBus.Proofs.Device.Surface
import ServoBus.Proofs.Device.PinNames
import ServoBus.Proofs.Slave.Surface
import ServoBus.Proofs.Bus.Blank
import ServoBus.Proofs.Feature.Closure
import ServoBus.Proofs.Image.Bits
import ServoBus.Proofs.Image.Word
import ServoBus.Proofs.Image.Codec
import ServoBus.Proofs.Registration.Clash
import ServoBus.Proofs.Device.Qualified
import ServoBus.Proofs.Bus.Lookup
import ServoBus.Proofs.Bus.Names
import ServoBus.Proofs.Registration.Family
import ServoBus.Proofs.Axis.Tuning
import ServoBus.Proofs.Axis.Refusal
import ServoBus.Proofs.Param.Channel
import ServoBus.Proofs.Text.Blank
import ServoBus.Proofs.Text.Numeral
import ServoBus.Proofs.Double.Rounding
import ServoBus.Proofs.Double.Packing
import ServoBus.Proofs.Double.Order
import ServoBus.Proofs.Double.Arithmetic
import ServoBus.Proofs.Double.Whole
import ServoBus.Proofs.Double.Reciprocal
import ServoBus.Proofs.Double.Expansion
import ServoBus.Proofs.Ratio.Updates
import ServoBus.Proofs.Ratio.Growth
import ServoBus.Proofs.Ratio.Decode
import ServoBus.Proofs.Ratio.Explicit
import ServoBus.Proofs.Ratio.Reduced
import ServoBus.Proofs.Ratio.Drift
import ServoBus.Proofs.Ratio.Exact
import ServoBus.Proofs.Text.Based
import ServoBus.Proofs.Text.Caseless
import ServoBus.Proofs.Param.Spelling
import ServoBus.Proofs.Image.Packed
import ServoBus.Proofs.Image.Payload
import ServoBus.Pin.Storage
import ServoBus.Proofs.Pin.Storage
import ServoBus.Proofs.Pin.Consistent
import ServoBus.Feature.Bitmap
import ServoBus.Proofs.Feature.Objects
import ServoBus.Proofs.Feature.Bitmap
import ServoBus.Brittle
import ServoBus.Axis.Words
import ServoBus.Proofs.Axis.Appends
import ServoBus.Proofs.Axis.Words
import ServoBus.Bus.Words
import ServoBus.Proofs.Bus.Words
