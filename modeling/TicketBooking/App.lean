import TicketBooking.Cluster
import TicketBooking.Retry
import TicketBooking.Runs
/-!
# App — the application (`dashboard.py`)

`App` is `DistributedTicketWebApp`, and `step` one thing happening to it: an operation, which runs under its lock, or a
timer's delivery.  A client's `book_with_retry` is a call that takes the lock once for each attempt, so anything may
happen between two attempts of it.  What an operation draws from outside is its `Env`.  What a step does to the seat
table, the leases and the replicas is told by `tables_step`, whichever way the routing and the breakers went.
-/
namespace Ticket

/-- What an operation reads from outside: the clock, at the positions it reads it (a position it does not read may
repeat the last it does), the generated id, the random draws, whether the timers it creates start, and the hash. -/
structure Env where
  time : ℕ → Time
  uuid : Uuid
  random : ℚ
  randint : ℕ → ℤ
  starts : ℕ → Bool
  md5 : String → ℕ

structure App where
  tables : Tables
  cluster : Cluster
  successCount : ℕ
  failureCount : ℕ

/-- A call of `book_with_retry`: its failed attempts so far, and what it returned once it has. -/
structure BookCall where
  seatId : ℤ
  requester : String
  failures : ℕ
  response : Option Response
  deriving DecidableEq

/-- The application and its clients' calls, running and done, in the order they were made. -/
structure Site where
  app : App
  calls : List BookCall

namespace App

/-- The manager `book_with_retry` builds. -/
def retryManager : RetryManager := RetryManager.new 3 (1 / 4) 2 1 true

def reserveOnServer (a : App) (env : Env) (seatId : ℤ) (requester : String) (server : ServerId) :
    Except ReserveError Unit × App :=
  if (a.cluster.servers server).online = false then
    let b := (a.cluster.breakers server).recordFailure (fun n => env.time (11 + n))
    (.error (.transient s!"{server} is offline"), { a with cluster := a.cluster.setBreaker server b })
  else if env.random < 1 / 5 then
    (.error (.transient s!"{server} simulated transient booking failure"), a)
  else
    let locked :=
      a.tables.lockSeat seatId requester server env.uuid (env.time 16) (env.time 17) (env.time 18) env.starts
    (locked.1, { a with tables := locked.2 })

/-- How `_book_locked` passes on what `_reserve_on_server` raised. -/
def passOn : ReserveError → BookingError
  | .transient m => .transient m
  | .leaseConflict m => .nonRetryable m
  | .other m => .transient m

/-- `breaker.call` around the reservation, and the end of `_book_locked`. -/
def callBreaker (a : App) (env : Env) (seatId : ℤ) (requester : String) (server : ServerId) :
    Except BookingError Unit × App :=
  let asked := (a.cluster.breakers server).allowRequest (env.time 10)
  let a := { a with cluster := a.cluster.setBreaker server asked.2 }
  if asked.1 = true then
    let reserved := a.reserveOnServer env seatId requester server
    let c := reserved.2.cluster
    match reserved.1 with
    | .error e =>
      let b := (c.breakers server).recordFailure (fun n => env.time (19 + n))
      (.error (passOn e), { reserved.2 with cluster := c.setBreaker server b })
    | .ok () =>
      let b := ((c.breakers server).recordSuccess (fun n => env.time (19 + n))).getState (env.time 24)
      let c := c.setBreaker server b.2
      let counted := { c.servers server with requests := (c.servers server).requests + 1 }
      (.ok (), { reserved.2 with
        cluster := { c with servers := Function.update c.servers server counted }
        successCount := reserved.2.successCount + 1 })
  else (.error (.nonRetryable s!"Circuit is open for {server}"), a)

/-- `_book_locked` after its sweep. -/
def bookSwept (a : App) (env : Env) (seatId : ℤ) (requester : String) : Except BookingError Response × App :=
  match a.tables.seats.get? seatId with
  | none => (.error (.nonRetryable s!"Seat {seatId} does not exist"), a)
  | some seat =>
    if seat.state = .reserved then (.error (.nonRetryable s!"Seat {seatId} is already reserved"), a)
    else if seat.state = .locked then (.error (.nonRetryable s!"Seat {seatId} is currently leased"), a)
    else
      let routingKey := s!"seat-{seatId}"
      let routed := a.cluster.route env.md5 routingKey (fun n => env.time (2 + n))
      let a := { a with cluster := routed.2 }
      match routed.1 with
      | .error e => (.error e, a)
      | .ok server =>
        let called := a.callBreaker env seatId requester server
        (called.1.map (fun _ => .booked seatId server routingKey), called.2)

/-- `_book_locked`, with the seats its sweep returns. -/
def bookLocked (a : App) (env : Env) (seatId : ℤ) (requester : String) :
    List ℤ × Except BookingError Response × App :=
  let swept := a.tables.expireLeasesLocked (env.time 1)
  (swept.1, ({ a with tables := swept.2 } : App).bookSwept env seatId requester)

/-- `_fail`'s count, for the methods that pass their response through it. -/
def count (a : App) (r : Response) : App :=
  match r with
  | .failed _ _ => { a with failureCount := a.failureCount + 1 }
  | _ => a

def confirmSeat (a : App) (env : Env) (seatId : ℤ) : Response × App :=
  let r := a.tables.confirmSeat seatId (env.time 0) (env.time 1) env.starts
  (r.1, ({ a with tables := r.2 } : App).count r.1)

def cancelLock (a : App) (seatId : ℤ) : Response × App :=
  let r := a.tables.cancelLock seatId
  (r.1, ({ a with tables := r.2 } : App).count r.1)

def renewLease (a : App) (env : Env) (seatId : ℤ) : Response × App :=
  let r := a.tables.renewLease seatId (env.time 0) (env.time 1) (env.time 2)
  (r.1, ({ a with tables := r.2 } : App).count r.1)

def setStrategy (a : App) (name : String) : App := { a with cluster := a.cluster.setStrategy name }

/-- `toggle_server`: an unknown server is ignored. -/
def toggleServer (a : App) (env : Env) (serverId : String) : App :=
  match serverIds.find? (fun id => decide (toString id = serverId)) with
  | none => a
  | some id =>
    let c := a.cluster.toggle id (env.time 0)
    if (c.servers id).online = true ∧ id ≠ .server1 then { a with cluster := c, tables := a.tables.pushRecovery id }
    else { a with cluster := c }

/-- `snapshot`, with the seats its sweep returns. -/
def snapshot (a : App) (env : Env) : List ℤ × App :=
  let swept := a.tables.expireLeasesLocked (env.time 0)
  let c := ((a.cluster.refreshServerMetrics env.randint).currentMetrics (fun n => env.time (1 + n))).2
  (swept.1, { a with tables := swept.2, cluster := c.observe (fun n => env.time (7 + n)) })

def reset (a : App) (stamp : ServerId → ℕ → Time) : App :=
  { a with tables := a.tables.reset stamp, successCount := 0, failureCount := 0 }

def deliver (a : App) (timer : ℕ) : App := { a with tables := a.tables.deliver timer }

/-- `__init__`. -/
def init (cpu connections responseTime : ServerId → ℤ) (seen : ServerId → Time) (stamp : ServerId → ℕ → Time) : App :=
  ⟨Tables.init stamp, Cluster.init cpu connections responseTime seen, 0, 0⟩

end App

/-- Something that happens at the site. -/
inductive Event where
  /-- a client calls `book_with_retry` -/
  | book (seatId : ℤ) (requester : String)
  /-- the next attempt of a call still running -/
  | attempt (call : ℕ) (env : Env) (draw : ℚ)
  | confirm (seatId : ℤ) (env : Env)
  | cancel (seatId : ℤ)
  | renew (seatId : ℤ) (env : Env)
  | toggle (serverId : String) (env : Env)
  | setStrategy (name : String)
  | snapshot (env : Env)
  | reset (stamp : ServerId → ℕ → Time)
  /-- a replication timer fires -/
  | deliver (timer : ℕ)

/-- What a step answers: the seats its sweep returned to available, and what the caller got back if anything. -/
structure Answer where
  returned : List ℤ
  response : Option Response
  deriving DecidableEq

/-- What `__init__` draws from outside: the servers' first figures, and the clock. -/
structure Boot where
  cpu : ServerId → ℤ
  connections : ServerId → ℤ
  responseTime : ServerId → ℤ
  seen : ServerId → Time
  stamp : ServerId → ℕ → Time

def Boot.site (b : Boot) : Site := ⟨App.init b.cpu b.connections b.responseTime b.seen b.stamp, []⟩

/-- No operation reads the clock more often. -/
def Env.span : ℕ := 32

def Env.readings (env : Env) : List Time := (List.range Env.span).map env.time

namespace Event

def readings : Event → List Time
  | .attempt _ env _ => env.readings
  | .confirm _ env => env.readings
  | .renew _ env => env.readings
  | .toggle _ env => env.readings
  | .snapshot env => env.readings
  | _ => []

def uuid : Event → Option Uuid
  | .attempt _ env _ => some env.uuid
  | _ => none

end Event

/-- The readings of a run never go back. -/
def Chronological (es : List Event) : Prop := (es.flatMap Event.readings).Pairwise (· ≤ ·)

/-- The generated ids of a run are distinct. -/
def DistinctIds (es : List Event) : Prop := (es.filterMap Event.uuid).Nodup

instance (es : List Event) : Decidable (Chronological es) := inferInstanceAs (Decidable (List.Pairwise _ _))

instance (es : List Event) : Decidable (DistinctIds es) := inferInstanceAs (Decidable (List.Nodup _))

/-- Ids for the runs that are written out. -/
def idA : Uuid := ⟨"a", by decide⟩

def idB : Uuid := ⟨"b", by decide⟩

def idC : Uuid := ⟨"c", by decide⟩

/-- An operation at one instant, to which no failure is injected and whose timers start. -/
def Env.calm (time : Time) (uuid : Uuid) : Env := ⟨fun _ => time, uuid, 1 / 2, fun _ => 0, fun _ => true, fun _ => 0⟩

def Boot.calm : Boot := ⟨fun _ => 20, fun _ => 0, fun _ => 50, fun _ => 0, fun _ _ => 0⟩

namespace Site

/-- The call of an attempt, while it runs. -/
def running (s : Site) (call : ℕ) : Option BookCall := (s.calls[call]?).filter (fun c => c.response.isNone)

/-- One turn of the loop of `RetryManager.call`, and what `book_with_retry` makes of its end. -/
def settle (c : BookCall) (outcome : Except BookingError Response) (draw : ℚ) : BookCall :=
  match outcome with
  | .ok r => { c with response := some r }
  | .error (.nonRetryable m) => { c with response := some (.failed "not_retryable" m) }
  | .error (.transient _) =>
    match App.retryManager.afterFailure c.failures draw with
    | .giveUp m => { c with failures := c.failures + 1, response := some (.failed "retry_failed" m) }
    | .sleep attempt _ => { c with failures := attempt }

def step (s : Site) (e : Event) : Answer × Site :=
  match e with
  | .book seatId requester => (⟨[], none⟩, { s with calls := s.calls ++ [⟨seatId, requester, 0, none⟩] })
  | .attempt call env draw =>
    match s.running call with
    | none => (⟨[], none⟩, s)
    | some c =>
      let r := s.app.bookLocked env c.seatId c.requester
      let c := settle c r.2.1 draw
      (⟨r.1, c.response⟩, { app := r.2.2, calls := s.calls.set call c })
  | .confirm seatId env =>
    let r := s.app.confirmSeat env seatId
    (⟨[], some r.1⟩, { s with app := r.2 })
  | .cancel seatId =>
    let r := s.app.cancelLock seatId
    (⟨[], some r.1⟩, { s with app := r.2 })
  | .renew seatId env =>
    let r := s.app.renewLease env seatId
    (⟨[], some r.1⟩, { s with app := r.2 })
  | .toggle serverId env => (⟨[], none⟩, { s with app := s.app.toggleServer env serverId })
  | .setStrategy name => (⟨[], none⟩, { s with app := s.app.setStrategy name })
  | .snapshot env =>
    let r := s.app.snapshot env
    (⟨r.1, none⟩, { s with app := r.2 })
  | .reset stamp => (⟨[], none⟩, { s with app := s.app.reset stamp })
  | .deliver timer => (⟨[], none⟩, { s with app := s.app.deliver timer })

/-- A lock on seat 1, taken at the instant 0. -/
def oneLock : List Event := [.book 1 "Ann", .attempt 0 (.calm 0 idA) 0]

end Site
end Ticket
