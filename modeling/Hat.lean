import Hat.Core.Machine
import Hat.Core.SortedMap
import Hat.Minilibs.MParams
import Hat.Minilibs.MMessage
import Hat.Manager.RuleEngine
import Hat.Manager.RuleStatus
import Hat.Manager.RuleWindow
import Hat.Core.Deadline
import Hat.Manager.RuleCycle
import Hat.Minilibs.SubjectSet
import Hat.Manager.ProgramEngine
import Hat.Manager.ProgramStatus
import Hat.Manager.InstalledProgram
import Hat.Manager.ProgramDelivery
import Hat.Core.Monitor
import Hat.Minilibs.MMessageQueue
import Hat.Minilibs.RpcWaitTable
import Hat.Minilibs.RpcAnswers
import Hat.Core.Guarded
import Hat.Minilibs.FileManager
import Hat.WSServer.AuthManager
import Hat.Core.Pathname
import Hat.Minilibs.AgentElection
import Hat.Minilibs.AgentObservers
import Hat.Minilibs.AgentUpdate
import Hat.Minilibs.ArchiveConfined
import Hat.Minilibs.Route
import Hat.WSServer.AuthCheck
import Hat.WSServer.AuthHistory
import Hat.WSServer.AuthRestart
import Hat.Core.Delimited
import Hat.Minilibs.MessageReaders
import Hat.Minilibs.MessageForm
import Hat.Minilibs.MessageText
import Hat.Minilibs.ArchiveTimes
import Hat.WSServer.NameTableLookup
import Hat.WSServer.NameTableRegistration
import Hat.Minilibs.ArchivePurge
import Hat.Core.Collect
import Hat.WSServer.ReadJson
import Hat.Minilibs.ArchiveQueries
import Hat.WSServer.ArchiveThread
import Hat.Minilibs.ArchiveWindows
import Hat.WSServer.ArchiveCommands
import Hat.Minilibs.ArchiveVisibility
import Hat.Core.DirTree
import Hat.Minilibs.ArchiveExplore
import Hat.Manager.ProgramRestart
import Hat.Manager.ProgramSwitch
import Hat.Manager.ProgramPage
import Hat.Minilibs.ProgramDays
import Hat.Minilibs.PwrProgram
import Hat.Minilibs.PwrTargets
import Hat.Minilibs.PwrReaders
import Hat.Core.Timetable
import Hat.Minilibs.PwrFollowing
import Hat.Core.ChangeLog
import Hat.Manager.TimedRule
import Hat.Manager.TimedRuleSwitch
import Hat.Core.Automaton
import Hat.Core.Countdown
import Hat.Minilibs.Trigger
import Hat.Minilibs.QueueDiscipline
import Hat.Minilibs.Subject
import Hat.Minilibs.AttributeValues
import Hat.WSServer.AuthAddition
import Hat.WSServer.UserFields
import Hat.WSServer.JParserRows
import Hat.MqttBBDevices.Device
import Hat.MqttBBDevices.FSMDevice
import Hat.Core.Places
import Hat.MqttBBDevices.FSMRefinement
import Hat.MqttBBDevices.FSMStart
import Hat.MqttBBDevices.FSMValue
import Hat.MqttBBDevices.Timer
import Hat.MqttBBDevices.BinaryOutput
import Hat.MqttBBDevices.OutputTimer
import Hat.Core.Orders
import Hat.MqttBBDevices.TriStateOutput
import Hat.MqttBBDevices.TriStateViews
import Hat.Core.Outbox
import Hat.MqttBBDevices.BinaryInput
import Hat.Core.Debounce
import Hat.MqttBBDevices.GPIOThread
import Hat.Core.Selection
import Hat.PwrControl.Control
import Hat.PwrControl.SensorSet
import Hat.PwrControl.Scheduler
import Hat.PwrControl.ControlMeasure
import Hat.PwrControl.LoadChoice
import Hat.PwrControl.Spacing
import Hat.PwrControl.Alignment
import Hat.Core.GrayCode
import Hat.NetDevices.Configurator
import Hat.NetDevices.Automaton
import Hat.Core.ShuntingYard
import Hat.PwrControl.MathExpression
import Hat.PwrControl.ExpressionTree
import Hat.Core.Skipping
import Hat.Manager.EventCounter
import Hat.Core.FirstMarks
import Hat.Core.CircularInterval
import Hat.Manager.TimedWindow
import Hat.Core.Quota
import Hat.Manager.RuleThreshold
import Hat.Manager.RuleEdge
import Hat.Core.CatchUp
import Hat.Manager.CycleBurst
import Hat.Minilibs.SecondText
import Hat.Manager.WindowCalls
import Hat.Manager.WindowStart
import Hat.NetDevices.Component
import Hat.NetDevices.Device
import Hat.Core.Overwrite
import Hat.Minilibs.ObserverThread
import Hat.NetDevices.ThreadRequests
import Hat.Core.Arrangement
import Hat.WSServer.PwrManager
import Hat.WSServer.PwrOrder
import Hat.WSServer.PwrRoundTrip
import Hat.Core.DelayLine
import Hat.Minilibs.DoubleText
import Hat.Manager.DelayQueue
import Hat.Manager.CounterDecay
import Hat.Manager.DelayedMessages
import Hat.Manager.EventIdentity
import Hat.Minilibs.PwrPeriods
import Hat.Minilibs.AttributeHistory
import Hat.Minilibs.ArchiveLatest
import Hat.Minilibs.EventFilter
import Hat.MqttBBDevices.TimerReset
import Hat.MqttBBDevices.TimerRuns
import Hat.MqttBBDevices.OutputViews
import Hat.WSServer.ExternalName
import Hat.Core.FreshName
import Hat.MqttBBDevices.OneWire
import Hat.MqttBBDevices.VirtualDevices
import Hat.WSServer.TransTab
import Hat.Core.WhileLoop
import Hat.Core.Expansion
import Hat.WSServer.LogPrototypes
import Hat.MqttBBDevices.DeviceTemplate
import Hat.Core.Placeholders
import Hat.Core.Filling
import Hat.Core.OwnPlaces
import Hat.Core.ReplaceLoop
import Hat.Minilibs.StrReplace
import Hat.Manager.TemplateFields
import Hat.Minilibs.IndexPages
import Hat.WSServer.AutomatismAnswer
import Hat.WSServer.IndexPieces
import Hat.WSServer.JsonIndex
import Hat.MqttBBDevices.RGBPwm
import Hat.Minilibs.FilterChar
import Hat.Minilibs.HexText
import Hat.Minilibs.NameListInit
import Hat.MqttBBDevices.MqttClient
import Hat.WSServer.AlarmZones
import Hat.WSServer.PushThread
import Hat.Player.ActionSet
import Hat.Player.ActionRuns
import Hat.WSServer.GuiPage
import Hat.WSServer.GuiLists
import Hat.WSServer.GuiPairs
import Hat.WSServer.JsonPieces
import Hat.WSServer.ZoneUpdate
import Hat.WSServer.ZoneRuns
import Hat.PwrControl.LoadShedding
import Hat.MqttBBDevices.ElectricMeter
import Hat.Core.Disk
import Hat.Minilibs.ArchiveStore
import Hat.Player.RuleEngine
import Hat.Minilibs.RemoteDelivery
import Hat.Core.Framed
import Hat.WSServer.EasyWebSocket
import Hat.Core.Expiry
import Hat.Logger.PushService
import Hat.Manager.ActionEngine
import Hat.Manager.TimedRuleEngine
import Hat.Logger.EventLog
import Hat.Logger.DeviceStatus
import Hat.MDetector.MotionFilter
