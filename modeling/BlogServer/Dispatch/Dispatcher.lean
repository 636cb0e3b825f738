/-
`request_dispatcher`: the handlers of a configuration, under their locations, and the one a URI is given to.

The map holds pointers, so an entry is a handler or null (`none`): `operator[]` on a key that is not there adds null.
That makes `get_handler` and `get_status_handler` change the dispatcher. A hash map or set is gone through in the order
of its entries here, whatever that is. An exception of `at` while the handlers are created ends the constructor
(`none`).

- `Reachable`: a dispatcher after any requests.
- `getHandler_entry`: what is returned is an entry of the map, or the 404 handler.
-/
import BlogServer.Dispatch.StaticHandler
import BlogServer.Posts.UploadHandler
import BlogServer.Proxy.ProxyHandler

namespace BlogServer.Dispatch

open BlogServer.Byte BlogServer.Config BlogServer.Http BlogServer.Posts BlogServer.Proxy

/-! ## Handlers -/

/-- `class status_request_handler` -/
structure StatusHandler where
  statusPath : Bytes
  handlerList : Bytes
  receivedRequestList : Bytes
  requestCounter : ℤ

/-- a heading and the locations under it, if there are any -/
def listLocations (heading : Bytes) (locations : List Bytes) : Bytes :=
  if locations = [] then [] else heading ++ locations.flatMap fun location => location ++ CRLF

/-- `status_request_handler::Init` -/
def StatusHandler.init (locationPath : Bytes) (config : NginxConfig) : StatusHandler where
  statusPath := locationPath
  handlerList := listLocations (ascii "EchoHandler(s):\r\n") config.echoLocations ++
    listLocations (ascii "StaticHandler(s):\r\n") config.staticLocations.keys ++
    listLocations (ascii "ProxyHandler(s):\r\n") config.proxyLocations.keys
  receivedRequestList := ascii "Received request(s):\r\n"
  requestCounter := 0

/-- `record_received_request` -/
def StatusHandler.record (h : StatusHandler) (requestUri : Bytes) (responseStatus : ℤ) : StatusHandler :=
  { h with
    receivedRequestList :=
      h.receivedRequestList ++ (requestUri ++ ascii " " ++ Decimal.toString responseStatus ++ CRLF)
    requestCounter := Decimal.int32 (h.requestCounter + 1) }

/-- `class request_handler`: the objects of its subclasses -/
inductive Handler where
  | echo (echoPath : Bytes)
  | static (handler : StaticHandler)
  | status (handler : StatusHandler)
  | proxy (handler : ProxyHandler)
  | redirect (serverUrl : Bytes)
  | health
  | uploadForm
  | blog (handler : BlogUploadHandler) (database : Connection)
  | error404

/-! ## `create_handler_mapping` -/

/-- `dispatcher` -/
abbrev HandlerMap := HashMap (Option Handler)

structure Dispatcher where
  config : NginxConfig
  dispatcher : HandlerMap
  statusHandlerEnabled : Bool

/-- a handler made for each location, and put under it -/
def register (init : Bytes → Option Handler) (dispatcher : HandlerMap) : List Bytes → Option HandlerMap
  | [] => some dispatcher
  | location :: locations =>
    match init location with
    | none => none
    | some handler => register init (dispatcher.insert location (some handler)) locations

/-- the handlers of a type: how one is made, and for which locations -/
def handlersOf (config : NginxConfig) (handlerType : Bytes) : (Bytes → Option Handler) × List Bytes :=
  if handlerType = ascii "EchoHandler" then (fun location => some (.echo location), config.echoLocations)
  else if handlerType = ascii "StaticHandler" then
    (fun location => (StaticHandler.init location config).map .static, config.staticLocations.keys)
  else if handlerType = ascii "StatusHandler" then
    (fun location => some (.status (.init location config)), config.statusLocations)
  else if handlerType = ascii "ProxyHandler" then
    (fun location => (config.proxyLocations.lookup location).map fun entry => .proxy (.init location entry),
      config.proxyLocations.keys)
  else if handlerType = ascii "RedirectHandler" then
    (fun location => (config.redirectLocations.lookup location).map .redirect, config.redirectLocations.keys)
  else if handlerType = ascii "HealthHandler" then (fun _ => some .health, config.healthLocations)
  else if handlerType = ascii "UploadFormHandler" then (fun _ => some .uploadForm, config.uploadFormLocations)
  else if handlerType = ascii "BlogHandler" then
    (fun location => (BlogUploadHandler.init location config).map fun h => .blog h.1 h.2, config.blogIps.keys)
  else (fun _ => none, [])

/-- `create_handler_mapping` -/
def createHandlerMapping (d : Dispatcher) : List Bytes → Option Dispatcher
  | [] => some d
  | handlerType :: handlerTypes =>
    let (init, locations) := handlersOf d.config handlerType
    match register init d.dispatcher locations with
    | none => none
    | some dispatcher =>
      createHandlerMapping
        { d with
          dispatcher := dispatcher
          statusHandlerEnabled :=
            d.statusHandlerEnabled || (handlerType == ascii "StatusHandler" && locations != []) }
        handlerTypes

/-- the constructor of `request_dispatcher` -/
def Dispatcher.init (config : NginxConfig) : Option Dispatcher :=
  createHandlerMapping ⟨config, ∅, false⟩ config.handlerTypes

namespace Dispatcher

/-! ## `get_handler` -/

/-- `dispatcher[key]` -/
def entry (d : Dispatcher) (key : Bytes) : Option Handler × Dispatcher :=
  match d.dispatcher.lookup key with
  | some handler => (handler, d)
  | none => (none, { d with dispatcher := d.dispatcher.insert key none })

/-- the first of the locations that the URI begins with -/
def prefixLocation (locations : List Bytes) (uri : Bytes) : Option Bytes :=
  locations.find? fun location => uri.take location.length == location

/-- `get_handler` -/
def getHandler (d : Dispatcher) (uri : Bytes) : Option Handler × Dispatcher :=
  let uri := decodeSpaces uri
  let staticPath := longestPrefixMatch d.config.staticLocations uri
  if uri ∈ d.config.echoLocations then d.entry uri
  else if staticPath ≠ [] then d.entry staticPath
  else if uri ∈ d.config.statusLocations then d.entry uri
  else if uri ∈ d.config.redirectLocations then d.entry uri
  else if uri ∈ d.config.healthLocations then d.entry uri
  else if uri ∈ d.config.uploadFormLocations then d.entry uri
  else
    match prefixLocation d.config.proxyLocations.keys uri with
    | some location => d.entry location
    | none =>
      match prefixLocation d.config.blogIps.keys uri with
      | some location => d.entry location
      | none => (some .error404, d)

/-- `get_status_handler`, a null pointer when the cast fails -/
def getStatusHandler (d : Dispatcher) : Option StatusHandler × Dispatcher :=
  match d.entry (ascii "/status") with
  | (some (.status handler), d) => (some handler, d)
  | (_, d) => (none, d)

/-- the status handler records a request -/
def record (d : Dispatcher) (handler : StatusHandler) (requestUri : Bytes) (responseStatus : ℤ) : Dispatcher :=
  { d with
    dispatcher := d.dispatcher.insert (ascii "/status") (some (.status (handler.record requestUri responseStatus))) }

/-! ## Dispatchers that are met -/

/-- a dispatcher of the configuration, after any requests -/
inductive Reachable (config : NginxConfig) : Dispatcher → Prop where
  | init {d} (h : Dispatcher.init config = some d) : Reachable config d
  | getHandler {d} (h : Reachable config d) (uri : Bytes) : Reachable config (d.getHandler uri).2
  | record {d handler} (h : Reachable config d) (hstatus : d.getStatusHandler.1 = some handler) (requestUri : Bytes)
      (responseStatus : ℤ) : Reachable config (d.getStatusHandler.2.record handler requestUri responseStatus)

/-- `get_handler` returns an entry of the map, or the 404 handler -/
theorem getHandler_entry (d : Dispatcher) (uri : Bytes) :
    (∃ key, d.getHandler uri = d.entry key) ∨ d.getHandler uri = (some .error404, d) := by
  unfold getHandler
  simp only
  split_ifs
  · exact Or.inl ⟨_, rfl⟩
  · exact Or.inl ⟨_, rfl⟩
  · exact Or.inl ⟨_, rfl⟩
  · exact Or.inl ⟨_, rfl⟩
  · exact Or.inl ⟨_, rfl⟩
  · exact Or.inl ⟨_, rfl⟩
  · split
    · exact Or.inl ⟨_, rfl⟩
    · split
      · exact Or.inl ⟨_, rfl⟩
      · exact Or.inr rfl

end Dispatcher

end BlogServer.Dispatch
