import VhlHackathon.Packing
import VhlHackathon.Xpi
import VhlHackathon.Handlers
import VhlHackathon.Dispatch
import VhlHackathon.Schedule
import VhlHackathon.Perform
import VhlHackathon.Steps
import VhlHackathon.Request
import VhlHackathon.Alignment
import VhlHackathon.Replies
import VhlHackathon.Effects
import VhlHackathon.Deferred
import VhlHackathon.LockStep
import VhlHackathon.FlatRead
import VhlHackathon.Capacity
import VhlHackathon.Transition
import VhlHackathon.Node
import VhlHackathon.Overflow
import VhlHackathon.Client
import VhlHackathon.Correlation
import VhlHackathon.PollSchedule
import VhlHackathon.BipBuffer
import VhlHackathon.Endpoint
import VhlHackathon.Bridge
import VhlHackathon.EthOut
import VhlHackathon.Stranding
import VhlHackathon.Handing
import VhlHackathon.Isolation
import VhlHackathon.Framing
import VhlHackathon.Transmit
import VhlHackathon.Crc
import VhlHackathon.Postcard
import VhlHackathon.Radio
import VhlHackathon.Lora
import VhlHackathon.StrWriter
import VhlHackathon.Codec
import VhlHackathon.Points
import VhlHackathon.Answers
import VhlHackathon.Interpreter
import VhlHackathon.Observer
import VhlHackathon.Overlay
import VhlHackathon.Server
import VhlHackathon.Room
import VhlHackathon.System
import VhlHackathon.Progress
import VhlHackathon.Display
import VhlHackathon.Screen
import VhlHackathon.Station
import VhlHackathon.Air
import VhlHackathon.Meaning
import VhlHackathon.Firmware
