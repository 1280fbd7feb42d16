import EasyIpc.Acks
import EasyIpc.Activity
import EasyIpc.ApiOffers
import EasyIpc.ApiTable
import EasyIpc.Base
import EasyIpc.Bounds
import EasyIpc.Broadcast
import EasyIpc.CallStages
import EasyIpc.Calls
import EasyIpc.CallsReturn
import EasyIpc.Cat
import EasyIpc.CatFollow
import EasyIpc.CatHistory
import EasyIpc.CatNames
import EasyIpc.CatSelect
import EasyIpc.Cjson
import EasyIpc.CjsonDocument
import EasyIpc.CjsonPrint
import EasyIpc.CjsonSafety
import EasyIpc.CjsonStrings
import EasyIpc.Client
import EasyIpc.Completion
import EasyIpc.Config
import EasyIpc.ConfigComments
import EasyIpc.ConfigDocument
import EasyIpc.ConfigInt
import EasyIpc.ConfigValues
import EasyIpc.Console
import EasyIpc.ConsoleEffects
import EasyIpc.CrossTalk
import EasyIpc.Daemon
import EasyIpc.Delivery
import EasyIpc.Dispatch
import EasyIpc.Dlist
import EasyIpc.DlistLifetime
import EasyIpc.Effects
import EasyIpc.EipcMsg
import EasyIpc.Fidelity
import EasyIpc.Handles
import EasyIpc.Handshake
import EasyIpc.Hops
import EasyIpc.Join
import EasyIpc.Lib.Buffer
import EasyIpc.Lib.Doubles
import EasyIpc.Lib.FirstMatch
import EasyIpc.Lib.Ledger
import EasyIpc.Lib.LinkedChain
import EasyIpc.Lib.Numerals
import EasyIpc.Lib.Printf
import EasyIpc.Lib.Replay
import EasyIpc.Lib.Roster
import EasyIpc.Lib.Scan
import EasyIpc.Lib.SemQueue
import EasyIpc.Lib.Stdio
import EasyIpc.Lib.Trace
import EasyIpc.Lib.Transition
import EasyIpc.Listing
import EasyIpc.Log
import EasyIpc.MemberPorts
import EasyIpc.Membership
import EasyIpc.MemoryLog
import EasyIpc.OneAnswer
import EasyIpc.Packet
import EasyIpc.Pending
import EasyIpc.Plugin
import EasyIpc.PluginEffects
import EasyIpc.PluginFiles
import EasyIpc.PluginHistory
import EasyIpc.PluginRefresh
import EasyIpc.PluginRules
import EasyIpc.Ports
import EasyIpc.Queues
import EasyIpc.Registry
import EasyIpc.RequestTables
import EasyIpc.Resolution
import EasyIpc.RunTime
import EasyIpc.Sockets
import EasyIpc.Subscriptions
import EasyIpc.System
import EasyIpc.Timeouts
import EasyIpc.Wire
