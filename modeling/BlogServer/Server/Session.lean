/-
One session (`include/session.h`, `src/session.cc`): its parser and builder, the asynchronous operations it has started,
and the callbacks that complete them.

`step` runs one completion; it is possible only for an operation that is pending. `deliver` is a read that succeeds on a
client that takes every response: the session gets the bytes if it is reading, and the write it may start completes.
Dispatch and handlers are a parameter (`Dispatcher`): `get_handler` followed by `handle_request`, for handlers that
return, with the state they share. The `method_` that `build_request` leaves unassigned for an unknown method is
`junk k` in the k-th request.

- `deliver_indeterminate`, `deliver_good`, `deliver_bad`: what a read does, by verdict.
- `deliver_stopped`: a session that has stopped reading stays as it is.
-/
import BlogServer.Http.RequestParser
import BlogServer.Http.ResponseHelper

namespace BlogServer.Server

open BlogServer.Http BlogServer.Scan RequestParser

/-! ## The session -/

/-- what `request_dispatcher` is to a session; `σ` is the state of the handlers -/
structure Dispatcher (σ : Type*) where
  /-- `get_handler(req.uri_)->handle_request(req)` -/
  handleRequest : σ → Request → Response × σ
  statusHandlerEnabled : Bool
  /-- `get_status_handler()->record_received_request(uri, code)` -/
  recordReceivedRequest : σ → Bytes → ℤ → σ

/-- the callback an asynchronous operation is bound to -/
inductive Callback where
  | handleRead
  | handleWrite
  | shutdown
deriving DecidableEq, Repr

/-- `class session`; the last four fields are what an observer has seen of it -/
structure Session (σ : Type*) where
  requestBuilder : RequestBuilder
  requestParser : RequestParser
  /-- operations started and not completed -/
  pending : List Callback
  /-- how often `delete this` has run -/
  deleted : ℕ
  /-- `socket_.shutdown` has been called -/
  shut : Bool
  world : σ
  /-- requests passed to handlers -/
  calls : List Request
  /-- responses written -/
  sent : List Response
  /-- bytes the parser has passed -/
  consumed : ℕ

variable {σ : Type*}

/-- a new session after `start` -/
def Session.start (u : Uninit) (world : σ) : Session σ where
  requestBuilder := .fresh u
  requestParser := .fresh
  pending := [.handleRead]
  deleted := 0
  shut := false
  world := world
  calls := []
  sent := []
  consumed := 0

/-! ## The callbacks -/

/-- `session::handle_read`; no data is an error -/
def handleRead (d : Dispatcher σ) (junk : ℕ → MethodEnum) (s : Session σ) : Option Bytes → Session σ
  | none => { s with deleted := s.deleted + 1 }
  | some data =>
    let (result, rest, requestParser, requestBuilder) := parse (s.requestParser, s.requestBuilder) data
    let s := { s with
      requestParser := requestParser
      requestBuilder := requestBuilder
      consumed := s.consumed + (data.length - rest.length) }
    match result with
    | .good =>
      let req := requestBuilder.buildRequest (junk s.calls.length)
      let (response, world) := d.handleRequest s.world req
      let world := if d.statusHandlerEnabled then d.recordReceivedRequest world req.uri response.code else world
      let s := { s with world := world, calls := s.calls ++ [req], sent := s.sent ++ [response] }
      if requestBuilder.keepAlive then
        { s with
          requestParser := requestParser.reset
          requestBuilder := .zero
          pending := s.pending ++ [.handleWrite] }
      else { s with pending := s.pending ++ [.shutdown] }
    | .bad =>
      { s with sent := s.sent ++ [stockResponse StatusCode.bad_request], pending := s.pending ++ [.shutdown] }
    | .indeterminate => { s with pending := s.pending ++ [.handleRead] }

/-- `session::handle_write` -/
def handleWrite (s : Session σ) (error : Bool) : Session σ :=
  if error then { s with deleted := s.deleted + 1 } else { s with pending := s.pending ++ [.handleRead] }

/-- `session::shutdown` -/
def shutdown (s : Session σ) (error : Bool) : Session σ :=
  if error then { s with deleted := s.deleted + 1 } else { s with shut := true }

/-- how an asynchronous operation ends -/
inductive Event where
  | read (data : Option Bytes)
  | write (error : Bool)
  | lastWrite (error : Bool)
deriving DecidableEq, Repr

/-- the operation is over, its callback runs -/
def Session.finish (s : Session σ) (c : Callback) : Session σ := { s with pending := s.pending.erase c }

/-- one completion of a pending operation -/
def step (d : Dispatcher σ) (junk : ℕ → MethodEnum) (s : Session σ) : Event → Option (Session σ)
  | .read data => if .handleRead ∈ s.pending then some (handleRead d junk (s.finish .handleRead) data) else none
  | .write error => if .handleWrite ∈ s.pending then some (handleWrite (s.finish .handleWrite) error) else none
  | .lastWrite error => if .shutdown ∈ s.pending then some (shutdown (s.finish .shutdown) error) else none

/-! ## A client that takes every response -/

/-- a write that has been started succeeds -/
def settle (d : Dispatcher σ) (junk : ℕ → MethodEnum) (s : Session σ) : Session σ :=
  (((step d junk s (.write false)).or (step d junk s (.lastWrite false)))).getD s

/-- a session that reads gets `data`; one that does not leaves it in the socket -/
def deliver (d : Dispatcher σ) (junk : ℕ → MethodEnum) (s : Session σ) (data : Bytes) : Session σ :=
  match step d junk s (.read (some data)) with
  | some s' => settle d junk s'
  | none => s

def deliverAll (d : Dispatcher σ) (junk : ℕ → MethodEnum) (s : Session σ) (reads : List Bytes) : Session σ :=
  reads.foldl (deliver d junk) s

/-- the session waits for data and for nothing else -/
def Session.reading (s : Session σ) : Prop := s.pending = [.handleRead]

/-- the parser has passed `k` more bytes -/
def Session.advance (s : Session σ) (t : St) (k : ℕ) : Session σ :=
  { s with requestParser := t.1, requestBuilder := t.2, consumed := s.consumed + k }

/-- a complete request has been answered and the answer written -/
def Session.served (d : Dispatcher σ) (junk : ℕ → MethodEnum) (s : Session σ) : Session σ :=
  let req := s.requestBuilder.buildRequest (junk s.calls.length)
  let response := (d.handleRequest s.world req).1
  let world := (d.handleRequest s.world req).2
  let s' := { s with
    world := if d.statusHandlerEnabled then d.recordReceivedRequest world req.uri response.code else world
    calls := s.calls ++ [req]
    sent := s.sent ++ [response] }
  if s.requestBuilder.keepAlive then { s' with requestParser := s.requestParser.reset, requestBuilder := .zero }
  else { s' with pending := [], shut := true }

theorem Session.served_calls (d : Dispatcher σ) (junk : ℕ → MethodEnum) (s : Session σ) :
    (s.served d junk).calls = s.calls ++ [s.requestBuilder.buildRequest (junk s.calls.length)] := by
  by_cases hk : s.requestBuilder.keepAlive = true <;> simp [Session.served, hk]

theorem Session.served_consumed (d : Dispatcher σ) (junk : ℕ → MethodEnum) (s : Session σ) :
    (s.served d junk).consumed = s.consumed := by
  by_cases hk : s.requestBuilder.keepAlive = true <;> simp [Session.served, hk]

theorem Session.served_pending (d : Dispatcher σ) (junk : ℕ → MethodEnum) {s : Session σ} (hs : s.reading) :
    (s.served d junk).reading ∨ (s.served d junk).pending = [] := by
  by_cases hk : s.requestBuilder.keepAlive = true
  · left
    simp only [Session.served, hk, if_true]
    exact hs
  · right
    simp [Session.served, hk]

/-- a malformed request has been answered and the answer written -/
def Session.refused (s : Session σ) : Session σ :=
  { s with sent := s.sent ++ [stockResponse StatusCode.bad_request], pending := [], shut := true }

variable {d : Dispatcher σ} {junk : ℕ → MethodEnum} {s : Session σ} {t : St} {data rest : Bytes}

theorem deliver_indeterminate (hs : s.reading)
    (h : parse (s.requestParser, s.requestBuilder) data = (.indeterminate, rest, t)) :
    deliver d junk s data = s.advance t (data.length - rest.length) := by
  unfold Session.reading at hs
  simp [deliver, step, handleRead, settle, Session.finish, Session.advance, hs, h]

theorem deliver_bad (hs : s.reading) (h : parse (s.requestParser, s.requestBuilder) data = (.bad, rest, t)) :
    deliver d junk s data = (s.advance t (data.length - rest.length)).refused := by
  unfold Session.reading at hs
  simp [deliver, step, handleRead, settle, shutdown, Session.finish, Session.advance, Session.refused, hs, h]

theorem deliver_good (hs : s.reading) (h : parse (s.requestParser, s.requestBuilder) data = (.good, rest, t)) :
    deliver d junk s data = (s.advance t (data.length - rest.length)).served d junk := by
  unfold Session.reading at hs
  by_cases hk : t.2.keepAlive = true
  · simp [deliver, step, handleRead, settle, handleWrite, Session.finish, Session.advance, Session.served, hs, h, hk]
  · simp [deliver, step, handleRead, settle, shutdown, Session.finish, Session.advance, Session.served, hs, h, hk]

/-- a session that has stopped reading stays as it is -/
theorem deliver_stopped (hs : s.pending = []) (data : Bytes) : deliver d junk s data = s := by
  simp [deliver, step, hs]

theorem deliverAll_stopped (hs : s.pending = []) (reads : List Bytes) : deliverAll d junk s reads = s := by
  induction reads with
  | nil => rfl
  | cons data reads ih => rw [deliverAll, List.foldl_cons, deliver_stopped hs]; exact ih

end BlogServer.Server
