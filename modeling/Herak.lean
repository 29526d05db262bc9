import Herak.Support.EventMachine
import Herak.Support.CString
import Herak.Support.CInt
import Herak.Support.Memory
import Herak.Support.RequestScheduler
import Herak.Support.BinaryFloat
import Herak.Support.CFloat
import Herak.Support.FloatConversion
import Herak.Support.Access
import Herak.Mqtt.Listen
import Herak.Mqtt.Client
import Herak.Mqtt.Session
import Herak.Mqtt.History
import Herak.Mqtt.Order
import Herak.Mqtt.Reassembly
import Herak.Mqtt.Leak
import Herak.Commands.Registry
import Herak.Commands.Dispatch
import Herak.Commands.Modules
import Herak.Ssr.Relay
import Herak.Ssr.Plan
import Herak.Ssr.Schedule
import Herak.Ota.Internal
import Herak.Ota.Update
import Herak.Ota.Check
import Herak.Tftp.Url
import Herak.Ota.Commands
import Herak.Ota.System
import Herak.Ota.UpdateRule
import Herak.Ota.Metadata
import Herak.Ota.MetaIsolation
import Herak.Ota.Downgrade
import Herak.Ota.ImageWrite
import Herak.Ota.VerifiedApply
import Herak.Ota.JobInvariant
import Herak.Voltronic.Proto
import Herak.Fs.Gets
import Herak.Scripts.Script
import Herak.Scripts.Run
import Herak.Scripts.Lines
import Herak.Scripts.Exec
import Herak.Scripts.Schedule
import Herak.Scripts.Fairness
import Herak.Thermostat.Device
import Herak.Thermostat.System
import Herak.Thermostat.Automaton
import Herak.Thermostat.Thresholds
import Herak.BmsJk.Device
import Herak.BmsJk.Automation
import Herak.BmsJk.System
import Herak.BmsJk.FrameSoundness
import Herak.BmsJk.Reassembly
import Herak.BmsJk.CellLevels
import Herak.BmsJk.Solar
import Herak.BmsJk.SolarScripts
import Herak.Daly.Response
import Herak.Daly.Decoding
import Herak.OpenTherm.Manchester
import Herak.OpenTherm.Frame
import Herak.OpenTherm.Device
import Herak.OpenTherm.System
import Herak.OpenTherm.Readings
import Herak.OpenTherm.Setpoints
import Herak.Mqtt.RateLimit
import Herak.Mqtt.TopicList
import Herak.Mqtt.Subscriptions
import Herak.Mqtt.Routing
import Herak.Bt.Attribution
import Herak.Tftp.Isolation
import Herak.Fs.Handles
import Herak.Web.Completion
import Herak.Web.OneCommand
import Herak.Web.Server
import Herak.Web.Isolation
import Herak.Support.Mutex
import Herak.Webhook.Client
import Herak.Webhook.Lock
import Herak.Webhook.Stream
import Herak.Support.Ledger
import Herak.Support.TextObject
import Herak.Flow.Sensor
import Herak.Flow.Conservation
import Herak.Flow.Schedule
import Herak.Mqtt.Payload
import Herak.OpenTherm.Gas
import Herak.Mqtt.Discovery
import Herak.Cfg.Base64
import Herak.Cfg.Reset
import Herak.Fs.Copy
import Herak.Fs.CopyParams
import Herak.Fs.LocalCopy
import Herak.Fs.Upload
import Herak.Mqtt.DiscoverySent
import Herak.Ssr.Status
import Herak.Support.Calendar
import Herak.Time.LocalTime
import Herak.Time.Uptime
import Herak.Mqtt.DiscoveryProgress
import Herak.Support.Crc
import Herak.Support.Tokens
import Herak.Support.Hex
import Herak.Support.PairList
import Herak.Support.Places
import Herak.Support.Rotation
import Herak.Voltronic.Crc
import Herak.Sht20.Device
import Herak.Sht20.Checksum
import Herak.Sht20.Publishing
import Herak.Ssr.Config
import Herak.Ssr.Command
import Herak.OneWire.Device
import Herak.OneWire.Detection
import Herak.OneWire.Mapping
import Herak.OneWire.Publishing
import Herak.Soil.Device
import Herak.Soil.Configured
import Herak.Soil.Rounds
import Herak.Soil.Coverage
import Herak.BmsJk.Config
import Herak.BmsJk.ConfigLists
import Herak.BmsJk.ConfigAlignment
import Herak.Voltronic.Usb
import Herak.Voltronic.Attribution
import Herak.Mqtt.Recovery
import Herak.Support.RationalFloat
import Herak.OpenTherm.FixedPoint
import Herak.Support.RankedLoop
import Herak.OpenTherm.Search
import Herak.Ota.Strategy
import Herak.Support.Substring
import Herak.Ota.MetaLines
import Herak.Support.BoundedPrint
import Herak.Ota.StatusMessage
import Herak.Mqtt.DiscoveryBuffers
import Herak.Commands.RegistryArrays
import Herak.Support.LittleEndian
import Herak.Support.FloatArithmetic
import Herak.Lcd.Driver
import Herak.Lcd.Display
import Herak.Lcd.Refresh
import Herak.Support.BubbleSort
import Herak.Utils.Samples
import Herak.Sht20.Samples
import Herak.Support.PackedId
import Herak.Bt.Ids
import Herak.Log.Module
import Herak.Log.Lock
import Herak.Support.CalendarDate
import Herak.Time.Epoch
import Herak.Support.LeastMatch
import Herak.Scripts.Cron
import Herak.Scripts.CronFields
import Herak.Scripts.CronDays
import Herak.Scripts.CronMoves
import Herak.Scripts.CronNext
import Herak.Scripts.CronParse
import Herak.Scripts.CronSets
import Herak.Scripts.CronText
import Herak.Scripts.CronNames
import Herak.Scripts.CronSchedule
import Herak.Scripts.CronRuns
import Herak.Wifi.Config
import Herak.Wifi.Connect
import Herak.System.StatusLog
import Herak.System.Watchdog
import Herak.System.MainLoop
import Herak.OpenTherm.Link
import Herak.OpenTherm.Poll
