import RedfishProxy.Http.Leak
import RedfishProxy.Http.LeakFree
import RedfishProxy.Http.HidesTarget
import RedfishProxy.Lib.Message
import RedfishProxy.Lib.Precedence
import RedfishProxy.Lib.Whatwg
import RedfishProxy.Config.Routes
import RedfishProxy.Proxy.Handle
import RedfishProxy.Proxy.MethodFilter
import RedfishProxy.Http.Headers
import RedfishProxy.Http.Fault
import RedfishProxy.Http.FaultLeak
import RedfishProxy.Http.Rewrite
import RedfishProxy.Script.Bmc
import RedfishProxy.Script.Credentials
import RedfishProxy.Script.Relay
import RedfishProxy.Proxy.WirePath
import RedfishProxy.Lib.Run
import RedfishProxy.RuneHost.Reload
import RedfishProxy.Lib.KeyMap
import RedfishProxy.Script.Store
import RedfishProxy.Lib.LastWrite
import RedfishProxy.Lib.Json
import RedfishProxy.Http.LeakText
import RedfishProxy.Script.StoreHistory
import RedfishProxy.Lib.Throws
import RedfishProxy.Script.Calls
import RedfishProxy.Script.CallFaults
import RedfishProxy.RuneHost.Failure
import RedfishProxy.Lib.JsonPatch
import RedfishProxy.Script.Patch
import RedfishProxy.Script.PatchRfc
import RedfishProxy.Script.Visible
import RedfishProxy.Lib.JsonFits
import RedfishProxy.Lib.JsonText
import RedfishProxy.Lib.Exec
import RedfishProxy.Lib.Interleave
import RedfishProxy.Script.Log
import RedfishProxy.Script.Response
import RedfishProxy.Script.Util
import RedfishProxy.Shipped.Rune
import RedfishProxy.Shipped.Serve
import RedfishProxy.Shipped.SerdeHost
import RedfishProxy.Shipped.Setting
import RedfishProxy.Shipped.Lockdown
import RedfishProxy.Shipped.LockdownHistory
import RedfishProxy.Script.Exchange
import RedfishProxy.Shipped.Passthrough
import RedfishProxy.Shipped.Frame
import RedfishProxy.Shipped.BootWrite
import RedfishProxy.Shipped.BootStore
import RedfishProxy.Shipped.Dressing
import RedfishProxy.Shipped.Systems
import RedfishProxy.Shipped.RefusedWrite
import RedfishProxy.Shipped.BootHistory
import RedfishProxy.Shipped.Settings
import RedfishProxy.Shipped.BootOrder
import RedfishProxy.Shipped.Recorded
import RedfishProxy.Shipped.SettingsAgree
import RedfishProxy.Lib.Moves
import RedfishProxy.Lib.Alike
import RedfishProxy.Script.Fixed
import RedfishProxy.Shipped.Resources
import RedfishProxy.Shipped.Serial
import RedfishProxy.Http.Cut
import RedfishProxy.Http.HeaderFrame
import RedfishProxy.Http.Idempotent
import RedfishProxy.Script.Shape
import RedfishProxy.Script.DeepWrite
import RedfishProxy.Script.Beside
import RedfishProxy.Script.MergePatch
import RedfishProxy.Script.PerHop
import RedfishProxy.Shipped.Rewritten
import RedfishProxy.Shipped.Successes
import RedfishProxy.Shipped.Answered
import RedfishProxy.Shipped.Services
import RedfishProxy.Lib.WebUrl
import RedfishProxy.Config.Validate
import RedfishProxy.Http.Links
import RedfishProxy.Lib.JsonPointer
import RedfishProxy.Lib.JsonSize
import RedfishProxy.Lib.JsonSame
import RedfishProxy.Lib.JsonNumber
import RedfishProxy.Script.PatchPlaces
import RedfishProxy.Script.PatchUndo
import RedfishProxy.Script.PatchSize
import RedfishProxy.Script.PointerGrammar
import RedfishProxy.Script.PatchTest
import RedfishProxy.Proxy.RouteChoice
import RedfishProxy.Script.Fetch
import RedfishProxy.Script.Shelf
import RedfishProxy.Script.Expand
import RedfishProxy.Script.Probe
import RedfishProxy.Script.Resolution
import RedfishProxy.Lib.FirstUse
import RedfishProxy.Script.IdsRace
import RedfishProxy.Script.BuilderType
import RedfishProxy.Script.ResponseCalls
import RedfishProxy.Script.Framing
import RedfishProxy.Lib.Utf8
import RedfishProxy.Http.Clip
import RedfishProxy.Lib.WebPath
import RedfishProxy.Script.MemberPath
import RedfishProxy.Script.PatchLens
import RedfishProxy.Http.Offsets
import RedfishProxy.Script.ReadsBack
import RedfishProxy.Script.ResponseCookies
import RedfishProxy.Script.HeadLength
import RedfishProxy.Shipped.BootRelay
import RedfishProxy.Shipped.Account
import RedfishProxy.Lib.FileTree
import RedfishProxy.Script.Files
import RedfishProxy.Shipped.Documents
import RedfishProxy.Shipped.Facts
import RedfishProxy.Shipped.Firmware
import RedfishProxy.Shipped.Catalog
import RedfishProxy.Lib.Dialogue
import RedfishProxy.Lib.Threads
import RedfishProxy.Lib.Serialise
import RedfishProxy.Script.Traffic
import RedfishProxy.Script.InFlight
import RedfishProxy.Shipped.Serving
import RedfishProxy.Shipped.Parts
import RedfishProxy.Shipped.Licences
import RedfishProxy.Shipped.Requests
import RedfishProxy.Shipped.AuditTrail
import RedfishProxy.Shipped.Confined
import RedfishProxy.Shipped.Once
import RedfishProxy.Shipped.InTurn
import RedfishProxy.Lib.PathGlob
import RedfishProxy.Shipped.Routing
import RedfishProxy.Shipped.Listings
import RedfishProxy.Shipped.Navigation
import RedfishProxy.Lib.FormData
import RedfishProxy.Script.QueryParam
import RedfishProxy.Proxy.Startup
import RedfishProxy.Shipped.Process
