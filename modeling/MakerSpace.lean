import MakerSpace.Reactive.Machine
import MakerSpace.Reactive.Latch
import MakerSpace.Reactive.Rollover
import MakerSpace.Reactive.ChangeLog
import MakerSpace.Codec.HexDump
import MakerSpace.Codec.LittleEndian
import MakerSpace.Codec.Lines
import MakerSpace.Codec.Wave
import MakerSpace.Codec.BitStream
import MakerSpace.Raster.Paint
import MakerSpace.Raster.TextGrid
import MakerSpace.Display.Panel
import MakerSpace.Display.FastLines
import MakerSpace.Display.Gfx
import MakerSpace.Display.Text
import MakerSpace.Display.Readings
import MakerSpace.Arduino
import MakerSpace.PumpController.Model
import MakerSpace.PumpController.LatchLaw
import MakerSpace.PumpController.Heartbeat
import MakerSpace.PumpController.StatusLed
import MakerSpace.PumpController.SerialLog
import MakerSpace.PumpController.StatusClock
import MakerSpace.LowHighSensor.Model
import MakerSpace.LowHighSensor.Overfill
import MakerSpace.LowHighSensor.Agreement
import MakerSpace.InfraRed.Receiver
import MakerSpace.InfraRed.Capture
import MakerSpace.InfraRed.Bursts
import MakerSpace.InfraRed.PulseDistance
import MakerSpace.InfraRed.Protocols
import MakerSpace.InfraRed.Link
import MakerSpace.InfraRed.Nec
import MakerSpace.InfraRed.NecLink
import MakerSpace.InfraRed.Session
import MakerSpace.InfraRed.Transmission
import MakerSpace.RobotCar.Model
import MakerSpace.RobotCar.SafeActuation
import MakerSpace.RobotCar.Steering
import MakerSpace.RobotCar.Symmetry
import MakerSpace.RobotCar.Throttle
import MakerSpace.RobotCar.Remote
import MakerSpace.CommandDemo.Model
import MakerSpace.CommandDemo.Blink
import MakerSpace.CommandDemo.LineEndings
import MakerSpace.BaseListen.Model
import MakerSpace.BaseListen.Dump
import MakerSpace.BaseListen.Framing
import MakerSpace.Ranging.Dw3000
import MakerSpace.Ranging.RangeTx
import MakerSpace.Ranging.Polls
import MakerSpace.Ranging.RangeRx
import MakerSpace.Ranging.TwoWay
import MakerSpace.Ranging.Rounds
import MakerSpace.Servo.Model
import MakerSpace.Servo.Angles
import MakerSpace.Servo.Schedule
import MakerSpace.Codec.Search
import MakerSpace.Codec.Decimal
import MakerSpace.WiFiEsp.EspDrv
import MakerSpace.WiFiEsp.Answers
import MakerSpace.WiFiEsp.Packets
import MakerSpace.WiFiEsp.Scan
import MakerSpace.WiFiEsp.CurrentSsid
