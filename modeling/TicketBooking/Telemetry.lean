import TicketBooking.Servers
import TicketBooking.StateChanges
/-!
# Telemetry — what the application records of itself (`telemetry/metrics_collector.py`, `dashboard.py`)

`MetricsCollector` keeps the latest metrics of each server and a list of events, and `Telemetry` is the site with the
one it writes to: the breakers report their transitions, a booking its route, and `_fail` its message.  A
`book_with_retry` that was refused passes through `_fail` when it holds the lock no more, so that is a step of its own
(`Act.report`).  The events of a circuit chain from its state at the last reset (`circuits_told`), the others are the
answers given since then (`transcript`), and a summary is of the metrics of its own snapshot (`summary_shown`).
-/
namespace Ticket

open Runs

/-! ## The collector -/

/-- An event as `record_event` makes it, its time apart. -/
structure TelemetryEvent where
  eventType : String
  message : String
  serverId : String
  latencyMs : ℚ
  circuitState : String
  deriving DecidableEq

structure TelemetrySummary where
  averageCpu : ℚ
  totalConnections : ℤ
  averageResponseTime : ℚ
  averageErrorRate : ℚ
  totalRequestCount : ℤ
  serverCount : ℕ
  deriving DecidableEq

structure MetricsCollector (ι : Type) where
  metrics : Dict ι (ServerMetrics ι)
  events : List TelemetryEvent

/-- Python's `round(x, digits)`. -/
def roundTo (digits : ℕ) (x : ℚ) : ℚ := pyRound (x * 10 ^ digits) / 10 ^ digits

/-- `statistics.mean` of a list that is not empty. -/
def mean (xs : List ℚ) : ℚ := xs.sum / xs.length

namespace MetricsCollector

variable {ι : Type} [DecidableEq ι]

def new : MetricsCollector ι := ⟨.empty, []⟩

def ingest (c : MetricsCollector ι) (metric : ServerMetrics ι) : MetricsCollector ι :=
  { c with metrics := c.metrics.set metric.serverId metric }

def ingestBatch (c : MetricsCollector ι) (metrics : List (ServerMetrics ι)) : MetricsCollector ι :=
  metrics.foldl ingest c

/-- The summary of these metrics. -/
def summarize (values : List (ServerMetrics ι)) : TelemetrySummary :=
  if values.length = 0 then ⟨0, 0, 0, 0, 0, 0⟩
  else
    { averageCpu := roundTo 2 (mean (values.map ServerMetrics.cpuUsage))
      totalConnections := (values.map ServerMetrics.activeConnections).sum
      averageResponseTime := roundTo 2 (mean (values.map ServerMetrics.responseTime))
      averageErrorRate := roundTo 4 (mean (values.map ServerMetrics.errorRate))
      totalRequestCount := (values.map ServerMetrics.requestCount).sum
      serverCount := values.length }

def summary (c : MetricsCollector ι) : TelemetrySummary := summarize c.metrics.values

/-- `record_event`, one event after another. -/
def record (c : MetricsCollector ι) (events : List TelemetryEvent) : MetricsCollector ι :=
  { c with events := c.events ++ events }

/-- `self._events[-int(limit):]` drops from the front, or keeps from the back: with a limit of 0 it drops nothing. -/
def listEvents (c : MetricsCollector ι) (limit : Option ℤ) : List TelemetryEvent :=
  match limit with
  | none => c.events
  | some k => if 0 < k then c.events.drop (c.events.length - k.toNat) else c.events.drop (-k).toNat

def clear (_ : MetricsCollector ι) : MetricsCollector ι := ⟨.empty, []⟩

end MetricsCollector

/-! ## What an operation records -/

namespace Telemetry

/-- `_breaker_callback`. -/
def circuitEvent (id : ServerId) (n : CircuitState × CircuitState) : TelemetryEvent :=
  ⟨"circuit_state", s!"{id}: {n.1.value} -> {n.2.value}", toString id, 0, n.2.value⟩

/-- What a breaker reports between one moment and a later one. -/
def said (id : ServerId) (b b' : Breaker) : List TelemetryEvent :=
  (b'.cb.notified.drop b.cb.notified.length).map (circuitEvent id)

/-- While `_current_metrics` asks one server after another. -/
def currentMetrics (c : Cluster) (now : ℕ → Time) : List TelemetryEvent :=
  serverIds.flatMap (fun id => said id (c.breakers id) ((c.currentMetrics now).2.breakers id))

def selectCircuitSafeServer (c : Cluster) (selected : ServerId) (metrics : List (ServerMetrics ServerId))
    (now later : Time) : List TelemetryEvent :=
  let asked := (c.breakers selected).allowRequest now
  said selected (c.breakers selected) asked.2 ++
    if asked.1 = true then []
    else
      match c.failover.chooseFailoverTarget metrics with
      | none => []
      | some target =>
        if target = selected then []
        else said target (c.breakers target) ((c.breakers target).allowRequest later).2

def route (c : Cluster) (md5 : String → ℕ) (routingKey : String) (now : ℕ → Time) : List TelemetryEvent :=
  let measured := c.currentMetrics now
  let chosen := measured.2.strategy.select md5 measured.1 (some routingKey)
  currentMetrics c now ++
    match chosen.1 with
    | none => []
    | some selected =>
      selectCircuitSafeServer { measured.2 with strategy := chosen.2 } selected measured.1 (now 6) (now 7)

/-- The route of a booking, at the end of `_book_locked`; `record_event` rounds its latency. -/
def routingEvent (seatId : ℤ) (server : ServerId) (latency : Time) (state : CircuitState) : TelemetryEvent :=
  ⟨"routing", s!"Seat {seatId} routed to {server}", toString server, roundTo 2 (latency * 1000), state.value⟩

/-- The position 23 is that of the reading the latency is taken by. -/
def callBreaker (a : App) (env : Env) (seatId : ℤ) (requester : String) (server : ServerId) : List TelemetryEvent :=
  let asked := (a.cluster.breakers server).allowRequest (env.time 10)
  let admitted := { a with cluster := a.cluster.setBreaker server asked.2 }
  said server (a.cluster.breakers server) asked.2 ++
    if asked.1 = true then
      let reserved := admitted.reserveOnServer env seatId requester server
      let b := reserved.2.cluster.breakers server
      said server asked.2 b ++
        match reserved.1 with
        | .error _ => said server b (b.recordFailure (fun n => env.time (19 + n)))
        | .ok () =>
          let read := (b.recordSuccess (fun n => env.time (19 + n))).getState (env.time 24)
          said server b read.2 ++ [routingEvent seatId server (env.time 23 - env.time 0) read.1]
    else [⟨"circuit_open", "Circuit is OPEN; call short-circuited", toString server, 0, "OPEN"⟩]

/-- `_book_locked` after its sweep. -/
def bookSwept (a : App) (env : Env) (seatId : ℤ) (requester : String) : List TelemetryEvent :=
  match a.tables.seats.get? seatId with
  | none => []
  | some seat =>
    if seat.state = .reserved then []
    else if seat.state = .locked then []
    else
      let routingKey := s!"seat-{seatId}"
      let routed := a.cluster.route env.md5 routingKey (fun n => env.time (2 + n))
      route a.cluster env.md5 routingKey (fun n => env.time (2 + n)) ++
        match routed.1 with
        | .error _ => []
        | .ok server => callBreaker { a with cluster := routed.2 } env seatId requester server

/-- `_fail`, for a response that passes through it. -/
def fail : Response → List TelemetryEvent
  | .failed _ message => [⟨"failure", message, "", 0, ""⟩]
  | _ => []

/-- While `snapshot` asks the breakers once more. -/
def observe (c : Cluster) (now : ℕ → Time) : List TelemetryEvent :=
  serverIds.flatMap (fun id => said id (c.breakers id) ((c.observe now).breakers id))

/-- What a step of the site records. -/
def recorded (s : Site) : Event → List TelemetryEvent
  | .attempt call env _ =>
    match s.running call with
    | none => []
    | some c => bookSwept (s.swept env) env c.seatId c.requester
  | .confirm seatId env => fail (s.app.confirmSeat env seatId).1
  | .cancel seatId => fail (s.app.cancelLock seatId).1
  | .renew seatId env => fail (s.app.renewLease env seatId).1
  | .snapshot env =>
    let c := s.app.cluster.refreshServerMetrics env.randint
    currentMetrics c (fun n => env.time (1 + n)) ++
      observe (c.currentMetrics (fun n => env.time (1 + n))).2 (fun n => env.time (7 + n))
  | _ => []

end Telemetry

/-- The site with its collector, and the calls whose refusal has passed through `_fail`. -/
structure Telemetry where
  site : Site
  collector : MetricsCollector ServerId
  reported : List ℕ

namespace Telemetry

/-- Something that happens at the site, or the end of a call of `book_with_retry` that was refused. -/
inductive Act where
  | site (e : Event)
  | report (call : ℕ)

/-- What a snapshot shows of the telemetry. -/
structure View where
  summary : TelemetrySummary
  telemetry : List TelemetryEvent

/-- What a step answers: the response given or reported, and what a snapshot shows. -/
structure Answer where
  response : Option Response
  view : Option View

def init (b : Boot) : Telemetry := ⟨b.site, .new, []⟩

/-- The refusal of a call that has not been reported. -/
def refusal (t : Telemetry) (call : ℕ) : Option Response :=
  if call ∈ t.reported then none
  else (t.site.calls[call]?).bind (fun c => c.response.filter (fun r => !(fail r).isEmpty))

def measures (s : Site) (e : Event) : List (ServerMetrics ServerId) := ((s.measures e).map Prod.fst).getD []

def step (t : Telemetry) (x : Act) : Answer × Telemetry :=
  match x with
  | .report call =>
    match t.refusal call with
    | none => (⟨none, none⟩, t)
    | some r => (⟨some r, none⟩, { t with collector := t.collector.record (fail r), reported := call :: t.reported })
  | .site (.reset stamp) =>
    (⟨none, none⟩, { t with site := (Site.step t.site (.reset stamp)).2, collector := t.collector.clear })
  | .site e =>
    let after := Site.step t.site e
    let ingested := t.collector.ingestBatch (measures t.site e)
    let collector := ingested.record (recorded t.site e)
    let view := match e with
      | .snapshot _ => some ⟨ingested.summary, collector.listEvents (some 20)⟩
      | _ => none
    (⟨after.1.response, view⟩, { t with site := after.2, collector := collector })

/-! ## The circuits -/

open StateChanges

/-- What is recorded of a server's circuit. -/
def told (id : ServerId) (l : List TelemetryEvent) : List TelemetryEvent :=
  l.filter (fun e => decide (e.eventType = "circuit_state" ∧ e.serverId = toString id))

theorem told_append (id : ServerId) (l l' : List TelemetryEvent) : told id (l ++ l') = told id l ++ told id l' :=
  List.filter_append ..

theorem said_of_moved {id : ServerId} {b b' : Breaker} {l : List (CircuitState × CircuitState)}
    (h : b.cb.Moved b'.cb l) : said id b b' = l.map (circuitEvent id) := by
  unfold said
  rw [h.notified, List.drop_left]

theorem told_said (id : ServerId) (b b' : Breaker) : told id (said id b b') = said id b b' := by
  refine List.filter_eq_self.2 fun e he => ?_
  obtain ⟨n, -, rfl⟩ := List.mem_map.1 he
  exact decide_eq_true ⟨rfl, rfl⟩

theorem told_said_of_ne {id id' : ServerId} (h : id' ≠ id) (b b' : Breaker) : told id (said id' b b') = [] := by
  refine List.filter_eq_nil_iff.2 fun e he => ?_
  obtain ⟨n, -, rfl⟩ := List.mem_map.1 he
  exact fun hn => h (Site.toString_injective (of_decide_eq_true hn).2)

/-- Of what the servers say one after another, only its own is told of a server. -/
theorem told_flatMap (id : ServerId) (before after : ServerId → Breaker) :
    told id (serverIds.flatMap (fun j => said j (before j) (after j))) = said id (before id) (after id) := by
  have hids : serverIds = [.server1, .server2, .server3] := rfl
  simp only [hids, List.flatMap_cons, List.flatMap_nil, List.append_nil, told_append]
  cases id <;> simp [told_said, told_said_of_ne]

/-- **A notification that is no change** says that the circuit is open, at once after the change to it. -/
def Repeats (pre : List (CircuitState × CircuitState)) (n : CircuitState × CircuitState) : Prop :=
  n.1 = n.2 → n = (.opened, .opened) ∧ ∃ m, pre.getLast? = some m ∧ m.1 ≠ m.2 ∧ m.2 = .opened

theorem Repeats.mono {l pre : List (CircuitState × CircuitState)} {n : CircuitState × CircuitState}
    (h : Repeats pre n) : Repeats (l ++ pre) n := by
  intro hn
  obtain ⟨he, m, hm, hne⟩ := h hn
  exact ⟨he, m, by rw [List.getLast?_append, hm, Option.some_or], hne⟩

theorem justified_append {l l' : List (CircuitState × CircuitState)} (h : Justified Repeats l)
    (h' : Justified Repeats l') : Justified Repeats (l ++ l') :=
  h.append fun pre n post he => (h' pre n post he).mono

theorem justified_of_genuine {l : List (CircuitState × CircuitState)} (h : Genuine l) : Justified Repeats l := by
  intro pre n post he hn
  exact absurd hn (h n (by rw [he]; exact List.mem_append_right pre List.mem_cons_self))

/-- A breaker gets from one state to another with notifications that tell its changes. -/
def Tells (b b' : Breaker) (l : List (CircuitState × CircuitState)) : Prop :=
  b.cb.Moved b'.cb l ∧ Justified Repeats l

theorem Tells.trans {b b' b'' : Breaker} {l l' : List (CircuitState × CircuitState)} (h : Tells b b' l)
    (h' : Tells b' b'' l') : Tells b b'' (l ++ l') := ⟨h.1.trans h'.1, justified_append h.2 h'.2⟩

theorem tells_ask (b : Breaker) (now : Time) : ∃ l, Tells b (b.use (.ask now)) l :=
  ⟨_, CircuitBreaker.moved_readState b.cb now, justified_of_genuine (genuine_ite.2 fun _ => by decide)⟩

theorem tells_success (b : Breaker) (now : ℕ → Time) : ∃ l, Tells b (b.use (.success now)) l :=
  ⟨_, CircuitBreaker.moved_recordSuccess b.cb (now 1), justified_of_genuine (genuine_ite.2 fun _ => by decide)⟩

/-- Questions tell their changes. -/
theorem tells_asked {rs : List Time} : ∀ (us : List BreakerUse) (b : Breaker), (∀ u ∈ us, u.AsksAt rs) →
    ∃ l, Tells b (b.uses us) l
  | [], b, _ => ⟨[], CircuitBreaker.moved_of_eq rfl rfl, justified_nil Repeats⟩
  | u :: us, b, hus => by
    obtain ⟨l', h'⟩ := tells_asked us (b.use u) fun v hv => hus v (List.mem_cons_of_mem u hv)
    have hu := hus u List.mem_cons_self
    obtain ⟨l, h⟩ : ∃ l, Tells b (b.use u) l := by
      cases u with
      | ask now => exact tells_ask b now
      | rate now => exact ⟨[], CircuitBreaker.moved_of_eq rfl rfl, justified_nil Repeats⟩
      | success now => cases hu
      | failure now => cases hu
    exact ⟨_, h.trans h'⟩

/-- **A failure of a circuit that is not open** opens it, if it does, by a change, and may then say so once more. -/
theorem tells_failure {b : Breaker} (h : b.circuit ≠ .opened) (now : ℕ → Time) :
    ∃ l, Tells b (b.use (.failure now)) l := by
  have hown := CircuitBreaker.moved_recordFailure b.cb (now 1) (now 2)
  have hcb : (b.use (.failure now)).cb = _ := StateChanges.recordFailure_cb b now
  have hchange : Genuine (if b.cb.state = .halfOpen ∨ b.cb.failureThreshold ≤ (b.cb.failureCount + 1 : ℕ)
      then [(b.cb.state, .opened)] else []) := genuine_ite.2 fun _ => h
  by_cases hrate : b.failureRateThreshold < rate b now
  · rw [if_pos hrate] at hcb
    have hmoved := hown.trans (CircuitBreaker.moved_transition (b.cb.recordFailure (now 1) (now 2)) .opened (now 4))
    rw [← hcb] at hmoved
    refine ⟨_, hmoved, ?_⟩
    by_cases hopens : b.cb.state = .halfOpen ∨ b.cb.failureThreshold ≤ (b.cb.failureCount + 1 : ℕ)
    · rw [if_pos hopens] at hchange ⊢
      have hstate : (b.cb.recordFailure (now 1) (now 2)).state = .opened := by
        rw [CircuitBreaker.recordFailure_state, if_neg]
        rintro ⟨hclosed, hle⟩
        rcases hopens with hhalf | hle'
        · rw [hclosed] at hhalf
          cases hhalf
        · exact hle hle'
      rw [hstate]
      refine (justified_of_genuine hchange).append fun pre n post he _ => ?_
      obtain ⟨rfl, rfl⟩ : pre = [] ∧ n = (.opened, .opened) := by
        cases pre with
        | nil => exact ⟨rfl, (List.cons.inj he).1.symm⟩
        | cons m pre => simp at he
      exact ⟨rfl, _, rfl, h, rfl⟩
    · rw [if_neg hopens, List.nil_append]
      refine justified_of_genuine (genuine_singleton.2 ?_)
      rw [CircuitBreaker.recordFailure_state]
      split
      · decide
      · rename_i hnot
        have hclosed : b.cb.state = .closed := by
          cases hs : b.cb.state with
          | closed => rfl
          | opened => exact absurd hs h
          | halfOpen => exact absurd (Or.inl hs) hopens
        exact absurd ⟨hclosed, fun hle => hopens (Or.inr hle)⟩ hnot
  · rw [if_neg hrate] at hcb
    rw [← hcb] at hown
    exact ⟨_, hown, justified_of_genuine hchange⟩

/-- **What a step makes a breaker say** tells its changes. -/
theorem tells_step (s : Site) (e : Event) (id : ServerId) :
    ∃ l, Tells (s.app.cluster.breakers id) ((Site.step s e).2.app.cluster.breakers id) l := by
  rw [Site.breakers_step]
  rcases s.uses_of_outcome e id with ⟨-, hasks⟩ | ⟨env, r, hreadings, -, huses, hshut⟩
  · exact tells_asked _ _ hasks
  · have hindex : Cluster.index id < 3 := by cases id <;> decide
    have hmeasuring : ∀ u ∈ Site.measuring env id, u.AsksAt env.readings := by
      intro u hu
      rcases List.mem_cons.1 hu with rfl | hu
      · exact Site.mem_readings env (by unfold Env.span; omega)
      · rw [List.mem_singleton.1 hu]
        trivial
    obtain ⟨l, hl⟩ := tells_asked (Site.measuring env id) (s.app.cluster.breakers id) hmeasuring
    rw [huses, Breaker.uses_append]
    generalize (s.app.cluster.breakers id).uses (Site.measuring env id) = b at hl hshut ⊢
    cases r with
    | ok r =>
      obtain ⟨l', hl'⟩ := tells_success b (fun n => env.time (19 + n))
      obtain ⟨l'', hl''⟩ := tells_ask (b.use (.success fun n => env.time (19 + n))) (env.time 24)
      exact ⟨_, hl.trans (hl'.trans hl'')⟩
    | error m =>
      obtain ⟨l', hl'⟩ := tells_failure hshut (fun n => env.time (19 + n))
      exact ⟨_, hl.trans hl'⟩

/-! ## What is recorded -/

theorem said_self (id : ServerId) (b : Breaker) : said id b b = [] := by
  unfold said
  rw [List.drop_length, List.map_nil]

theorem moved_uses : ∀ (us : List BreakerUse) (b : Breaker), ∃ l, b.cb.Moved (b.uses us).cb l
  | [], b => ⟨[], CircuitBreaker.moved_of_eq rfl rfl⟩
  | u :: us, b => by
    obtain ⟨l', h'⟩ := moved_uses us (b.use u)
    obtain ⟨l, h⟩ : ∃ l, b.cb.Moved (b.use u).cb l := by
      cases u with
      | ask now => exact ⟨_, (tells_ask b now).choose_spec.1⟩
      | rate now => exact ⟨[], CircuitBreaker.moved_of_eq rfl rfl⟩
      | success now => exact ⟨_, (tells_success b now).choose_spec.1⟩
      | failure now => exact ⟨_, (moved_step b ⟨.recordFailure, now⟩).choose_spec.1⟩
    exact ⟨_, h.trans h'⟩

/-- What a breaker says in two parts. -/
theorem said_uses (id : ServerId) (b : Breaker) (us vs : List BreakerUse) :
    said id b ((b.uses us).uses vs) = said id b (b.uses us) ++ said id (b.uses us) ((b.uses us).uses vs) := by
  obtain ⟨l, h⟩ := moved_uses us b
  obtain ⟨l', h'⟩ := moved_uses vs (b.uses us)
  rw [said_of_moved h, said_of_moved h', said_of_moved (h.trans h'), List.map_append]

section
variable {a : App} {env : Env} {i : ℤ} {requester : String} {server : ServerId}

theorem bookSwept_unbookable (h : ¬ a.tables.Bookable i) : bookSwept a env i requester = [] := by
  unfold bookSwept
  cases hs : a.tables.seats.get? i with
  | none => rfl
  | some seat =>
    dsimp only
    by_cases hr : seat.state = .reserved
    · rw [if_pos hr]
    · by_cases hl : seat.state = .locked
      · rw [if_neg hr, if_pos hl]
      · exact absurd ⟨seat, hs, hr, hl⟩ h

/-- The branches of an attempt that guard its routing record nothing. -/
theorem bookSwept_bookable (h : a.tables.Bookable i) : bookSwept a env i requester =
    currentMetrics a.cluster (fun n => env.time (2 + n)) ++
      match a.offers env i with
      | none => []
      | some server => callBreaker (a.balanced env i) env i requester server := by
  obtain ⟨seat, hs, hr, hl⟩ := h
  have hrouted := Cluster.route_of_offer a.cluster env.md5 s!"seat-{i}" (fun n => env.time (2 + n))
  have hroute : route a.cluster env.md5 s!"seat-{i}" (fun n => env.time (2 + n)) =
      currentMetrics a.cluster (fun n => env.time (2 + n)) := by
    have hoffer : (a.cluster.offer env.md5 s!"seat-{i}" (fun n => env.time (2 + n))).1 = a.offers env i := rfl
    unfold route
    cases ho : a.offers env i with
    | none =>
      rw [ho] at hoffer
      dsimp only [Cluster.offer] at hoffer
      simp only [hoffer, List.append_nil]
    | some server =>
      have hasked := Breaker.allowRequest_of_not_opened (App.admits_of_offers ho).shut
      rw [ho] at hoffer
      dsimp only [Cluster.offer] at hoffer
      dsimp only [App.balanced, Cluster.offer] at hasked
      simp only [hoffer, selectCircuitSafeServer, hasked, said_self, if_true, List.append_nil]
  unfold bookSwept
  simp only [hs, if_neg hr, if_neg hl, hroute, hrouted]
  unfold App.offers App.balanced
  cases (a.cluster.offer env.md5 s!"seat-{i}" (fun n => env.time (2 + n))).1 <;> rfl

/-- **What is recorded of a call through a breaker that admits it**: what the breaker says, and a booking's route. -/
theorem callBreaker_admitted (h : a.cluster.Admits server) : callBreaker a env i requester server =
    said server (a.cluster.breakers server) ((a.callBreaker env i requester server).2.cluster.breakers server) ++
      match (a.callBreaker env i requester server).1 with
      | .error _ => []
      | .ok () => [routingEvent i server (env.time 23 - env.time 0)
          ((a.callBreaker env i requester server).2.cluster.breakers server).circuit] := by
  have hon : ¬ (a.cluster.servers server).online = false := by rw [h.online]; decide
  have hasked := Breaker.allowRequest_of_not_opened h.shut (env.time 10)
  have hcluster : (a.reserveOnServer env i requester server).2.cluster = a.cluster := by
    unfold App.reserveOnServer
    rw [if_neg hon]
    split <;> rfl
  simp only [callBreaker, App.callBreaker, hasked, if_true, Cluster.setBreaker_self, said_self, List.nil_append]
  cases hres : (a.reserveOnServer env i requester server).1 with
  | error e =>
    simp only [hcluster, said_self, List.nil_append, List.append_nil, Cluster.setBreaker, Function.update_self]
  | ok u =>
    simp only [hcluster, said_self, List.nil_append, Cluster.setBreaker, Function.update_self]
    refine congrArg _ (congrArg (fun state => [routingEvent i server (env.time 23 - env.time 0) state]) ?_)
    exact CircuitBreaker.readState_fst _ _

end

/-- **Of an attempt, a server's circuit is told what its breaker says.** -/
theorem told_bookSwept (a : App) (env : Env) (i : ℤ) (requester : String) (id : ServerId) :
    told id (bookSwept a env i requester) =
      said id (a.cluster.breakers id) ((a.bookSwept env i requester).2.cluster.breakers id) := by
  by_cases hb : a.tables.Bookable i
  · have hmeasured : told id (currentMetrics a.cluster (fun n => env.time (2 + n))) =
        said id (a.cluster.breakers id) ((a.balanced env i).cluster.breakers id) := told_flatMap id _ _
    rw [bookSwept_bookable hb, told_append, hmeasured, App.bookSwept_offered hb]
    cases ho : a.offers env i with
    | none => exact List.append_nil _
    | some server =>
      have hadmits := App.admits_of_offers ho
      have hcluster := App.callBreaker_cluster hadmits env i requester
      dsimp only
      rw [callBreaker_admitted hadmits, told_append]
      have hrest : told id (match ((a.balanced env i).callBreaker env i requester server).1 with
          | .error _ => []
          | .ok () => [routingEvent i server (env.time 23 - env.time 0)
              (((a.balanced env i).callBreaker env i requester server).2.cluster.breakers server).circuit]) = [] := by
        cases ((a.balanced env i).callBreaker env i requester server).1 <;> rfl
      rw [hrest, List.append_nil]
      by_cases hid : server = id
      · subst hid
        rw [told_said]
        have hafter : ((a.balanced env i).callBreaker env i requester server).2.cluster.breakers server =
            ((a.balanced env i).cluster.breakers server).uses (App.outcomeUses env
              (((a.balanced env i).callBreaker env i requester server).1.map (fun _ => .booked i server ""))) := by
          rw [hcluster]
          exact Function.update_self ..
        rw [hafter, App.balanced_breakers]
        exact (said_uses ..).symm
      · rw [told_said_of_ne hid, List.append_nil, hcluster]
        dsimp only
        rw [Function.update_of_ne (Ne.symm hid)]
  · obtain ⟨m, hbook⟩ := App.bookSwept_unbookable hb env requester
    rw [bookSwept_unbookable hb, hbook, said_self]
    rfl

theorem told_fail (id : ServerId) (r : Response) : told id (fail r) = [] := by
  cases r <;> rfl

/-- **Of a step, a server's circuit is told what its breaker says.** -/
theorem told_recorded (s : Site) (e : Event) (id : ServerId) : told id (recorded s e) =
    said id (s.app.cluster.breakers id) ((Site.step s e).2.app.cluster.breakers id) := by
  cases e with
  | attempt call env draw =>
    cases hc : s.running call with
    | none =>
      simp only [recorded, Site.step, hc, said_self]
      rfl
    | some c =>
      simp only [recorded, Site.step, hc]
      exact told_bookSwept (s.swept env) env c.seatId c.requester id
  | snapshot env =>
    have hmetrics := Cluster.currentMetrics_breakers (s.app.cluster.refreshServerMetrics env.randint)
      (fun n => env.time (1 + n)) id
    simp only [recorded, told_append, currentMetrics, observe, told_flatMap, Site.step, App.snapshot, Cluster.observe]
    rw [hmetrics]
    exact (said_uses id _ _ [.ask _, .rate _]).symm
  | confirm seatId env =>
    have hsame : (Site.step s (.confirm seatId env)).2.app.cluster = s.app.cluster := Site.count_cluster _ _
    rw [hsame, said_self]
    exact told_fail id _
  | cancel seatId =>
    have hsame : (Site.step s (.cancel seatId)).2.app.cluster = s.app.cluster := Site.count_cluster _ _
    rw [hsame, said_self]
    exact told_fail id _
  | renew seatId env =>
    have hsame : (Site.step s (.renew seatId env)).2.app.cluster = s.app.cluster := Site.count_cluster _ _
    rw [hsame, said_self]
    exact told_fail id _
  | toggle serverId env =>
    have hsame : (Site.step s (.toggle serverId env)).2.app.cluster.breakers = s.app.cluster.breakers :=
      Site.toggle_breakers s.app env serverId
    rw [hsame, said_self]
    rfl
  | _ => exact (said_self id _).symm

/-! ## The story of a circuit -/

/-- The run since the last reset, or since the start. -/
def SinceReset (es pre mid : List Act) : Prop :=
  es = pre ++ mid ∧ (pre = [] ∨ ∃ before stamp, pre = before ++ [.site (.reset stamp)]) ∧
    ∀ stamp, .site (.reset stamp) ∉ mid

theorem ingestBatch_events {ι : Type} [DecidableEq ι] : ∀ (metrics : List (ServerMetrics ι)) (c : MetricsCollector ι),
    (c.ingestBatch metrics).events = c.events
  | [], _ => rfl
  | m :: metrics, c => ingestBatch_events metrics (c.ingest m)

/-- What a step makes of the site and of the events, unless it is a reset. -/
theorem step_site (t : Telemetry) {e : Event} (h : ∀ stamp, e ≠ .reset stamp) :
    (step t (.site e)).2.site = (Site.step t.site e).2 ∧
      (step t (.site e)).2.collector.events = t.collector.events ++ recorded t.site e := by
  cases e with
  | reset stamp => exact absurd rfl (h stamp)
  | _ => exact ⟨rfl, congrArg (· ++ _) (ingestBatch_events _ _)⟩

theorem step_report (t : Telemetry) (call : ℕ) : (step t (.report call)).2.site = t.site ∧
    (step t (.report call)).2.collector.events =
      t.collector.events ++ ((t.refusal call).map fail).getD [] := by
  unfold step
  dsimp only
  cases t.refusal call with
  | none => exact ⟨rfl, (List.append_nil _).symm⟩
  | some r => exact ⟨rfl, rfl⟩

theorem step_circuits (t : Telemetry) {x : Act} (h : ∀ stamp, x ≠ .site (.reset stamp)) (id : ServerId) :
    told id (step t x).2.collector.events = told id t.collector.events ++
      said id (t.site.app.cluster.breakers id) ((step t x).2.site.app.cluster.breakers id) := by
  cases x with
  | report call =>
    obtain ⟨hsite, hevents⟩ := step_report t call
    rw [hsite, hevents, told_append, said_self]
    cases t.refusal call with
    | none => rfl
    | some r => exact congrArg _ (told_fail id r)
  | site e =>
    obtain ⟨hsite, hevents⟩ := step_site t fun stamp he => h stamp (congrArg Act.site he)
    rw [hsite, hevents, told_append, told_recorded]

theorem tells_act (t : Telemetry) {x : Act} (h : ∀ stamp, x ≠ .site (.reset stamp)) (id : ServerId) :
    ∃ l, Tells (t.site.app.cluster.breakers id) ((step t x).2.site.app.cluster.breakers id) l := by
  cases x with
  | report call =>
    rw [(step_report t call).1]
    exact ⟨[], CircuitBreaker.moved_of_eq rfl rfl, justified_nil Repeats⟩
  | site e =>
    rw [(step_site t fun stamp he => h stamp (congrArg Act.site he)).1]
    exact tells_step t.site e id

/-- A run is split at its last reset. -/
theorem sinceReset_snoc {es pre mid : List Act} (h : SinceReset es pre mid) (x : Act) :
    ∃ pre' mid', SinceReset (es ++ [x]) pre' mid' ∧
      ((mid' = [] ∧ pre' = es ++ [x] ∧ ∃ stamp, x = .site (.reset stamp)) ∨
        (pre' = pre ∧ mid' = mid ++ [x] ∧ ∀ stamp, x ≠ .site (.reset stamp))) := by
  by_cases hx : ∃ stamp, x = .site (.reset stamp)
  · obtain ⟨stamp, rfl⟩ := hx
    refine ⟨es ++ [.site (.reset stamp)], [], ⟨(List.append_nil _).symm, Or.inr ⟨es, stamp, rfl⟩, ?_⟩, ?_⟩
    · exact fun _ hm => nomatch hm
    · exact Or.inl ⟨rfl, rfl, stamp, rfl⟩
  · have hne : ∀ stamp, x ≠ .site (.reset stamp) := fun stamp he => hx ⟨stamp, he⟩
    refine ⟨pre, mid ++ [x], ⟨?_, h.2.1, fun stamp hm => ?_⟩, Or.inr ⟨rfl, rfl, hne⟩⟩
    · rw [h.1, List.append_assoc]
    · rcases List.mem_append.1 hm with hm | hm
      · exact h.2.2 stamp hm
      · exact hne stamp (List.mem_singleton.1 hm).symm

/-- **What is recorded of a circuit chains.**  Since the last reset the events of a server's circuit lead from the state
it had then to the state it has now, and what tells no change says that the circuit is open at once after the event that
opened it. -/
theorem circuits_told (b : Boot) (id : ServerId) (es : List Act) : ∃ pre mid l, SinceReset es pre mid ∧
    told id (run step (init b) es).collector.events = l.map (circuitEvent id) ∧
    Leads ((run step (init b) pre).site.circuit id) l ((run step (init b) es).site.circuit id) ∧
    Justified Repeats l := by
  induction es using List.reverseRecOn with
  | nil => exact ⟨[], [], [], ⟨rfl, Or.inl rfl, fun _ hm => nomatch hm⟩, rfl, rfl, justified_nil Repeats⟩
  | append_singleton es x ih =>
    obtain ⟨pre, mid, l, hsplit, htold, hleads, hjust⟩ := ih
    obtain ⟨pre', mid', hsplit', hcase⟩ := sinceReset_snoc hsplit x
    rcases hcase with ⟨-, rfl, stamp, rfl⟩ | ⟨rfl, -, hx⟩
    · refine ⟨_, mid', [], hsplit', ?_, rfl, justified_nil Repeats⟩
      rw [run_snoc]
      rfl
    · obtain ⟨l', hmoved, hjust'⟩ := tells_act (run step (init b) es) hx id
      refine ⟨pre', mid', l ++ l', hsplit', ?_, ?_, justified_append hjust hjust'⟩
      · rw [run_snoc, step_circuits _ hx, htold, said_of_moved hmoved, List.map_append]
      · rw [run_snoc]
        exact leads_append hleads hmoved.leads

/-! ## The transcript -/

/-- The events that are not a circuit's. -/
def others (l : List TelemetryEvent) : List TelemetryEvent := l.filter (fun e => decide (e.eventType ≠ "circuit_state"))

/-- The type, the message and the server of an event. -/
def brief (e : TelemetryEvent) : String × String × String := (e.eventType, e.message, e.serverId)

/-- What an answer leaves behind: an attempt its booking, anything else its refusal. -/
def entries (x : Act) (response : Option Response) : List (String × String × String) :=
  match x, response with
  | .site (.attempt _ _ _), some (.booked i server _) =>
    [("routing", s!"Seat {i} routed to {server}", toString server)]
  | .site (.attempt _ _ _), _ => []
  | _, some (.failed _ message) => [("failure", message, "")]
  | _, _ => []

theorem others_said (id : ServerId) (b b' : Breaker) : others (said id b b') = [] := by
  refine List.filter_eq_nil_iff.2 fun e he => ?_
  obtain ⟨n, -, rfl⟩ := List.mem_map.1 he
  exact fun hn => of_decide_eq_true hn rfl

theorem others_append (l l' : List TelemetryEvent) : others (l ++ l') = others l ++ others l' := List.filter_append ..

theorem others_flatMap (before after : ServerId → Breaker) :
    others (serverIds.flatMap (fun j => said j (before j) (after j))) = [] := by
  have hids : serverIds = [.server1, .server2, .server3] := rfl
  simp only [hids, List.flatMap_cons, List.flatMap_nil, others_append, others_said, List.append_nil]

/-- A success closes a circuit that one success closes, and it stays closed when it is asked for. -/
theorem closed_of_success {b : Breaker} (h : b.circuit ≠ .opened) (hconfig : b.cb.config = (3, 8, 1)) (env : Env)
    (r : Response) : (b.uses (App.outcomeUses env (.ok r))).circuit = .closed := by
  have hone : b.cb.halfOpenSuccesses = 1 := congrArg (fun c => c.2.2) hconfig
  refine @Breaker.closed_of_asked [env.time 24] [.ask (env.time 24)] _
    (Breaker.success_closes h hone (fun n => env.time (19 + n))) fun u hu => ?_
  rw [List.mem_singleton.1 hu]
  exact List.mem_singleton_self _

/-- **An attempt records its booking**, through a circuit that it leaves closed. -/
theorem others_bookSwept {a : App} (hconfig : ∀ id, (a.cluster.breakers id).cb.config = (3, 8, 1)) (env : Env) (i : ℤ)
    (requester : String) :
    (∃ server key, (a.bookSwept env i requester).1 = .ok (.booked i server key) ∧
      others (bookSwept a env i requester) = [routingEvent i server (env.time 23 - env.time 0) .closed]) ∨
    ∃ m, (a.bookSwept env i requester).1 = .error m ∧ others (bookSwept a env i requester) = [] := by
  by_cases hb : a.tables.Bookable i
  · have hmeasured : others (currentMetrics a.cluster (fun n => env.time (2 + n))) = [] := others_flatMap _ _
    rw [bookSwept_bookable hb, others_append, hmeasured, List.nil_append, App.bookSwept_offered hb]
    cases ho : a.offers env i with
    | none => exact Or.inr ⟨_, rfl, rfl⟩
    | some server =>
      have hadmits := App.admits_of_offers ho
      have hcluster := App.callBreaker_cluster hadmits env i requester
      have hsame : ((a.balanced env i).cluster.breakers server).cb.config = (3, 8, 1) := by
        rw [App.balanced_breakers, Breaker.uses_config]
        exact hconfig server
      dsimp only
      rw [callBreaker_admitted hadmits, others_append, others_said, List.nil_append, hcluster]
      cases hcall : ((a.balanced env i).callBreaker env i requester server).1 with
      | error m => exact Or.inr ⟨_, rfl, rfl⟩
      | ok u =>
        refine Or.inl ⟨server, _, rfl, ?_⟩
        dsimp only
        rw [Function.update_self]
        have hclosed := closed_of_success hadmits.shut hsame env (.booked i server "")
        simp only [Except.map, hclosed]
        rfl
  · obtain ⟨m, hbook⟩ := App.bookSwept_unbookable hb env requester
    rw [bookSwept_unbookable hb, hbook]
    exact Or.inr ⟨_, rfl, rfl⟩

/-- What the events of a part of a run say besides its circuits. -/
structure Accounts (l : List TelemetryEvent) (briefs : List (String × String × String)) (bookings : ℕ) : Prop where
  transcript : (others l).map brief = briefs
  bookings : l.countP (fun e => decide (e.eventType = "routing")) = bookings
  closed : ∀ e ∈ l, e.eventType = "routing" → e.circuitState = "CLOSED"

theorem Accounts.append {l l' : List TelemetryEvent} {bs bs' : List (String × String × String)} {n n' : ℕ}
    (h : Accounts l bs n) (h' : Accounts l' bs' n') : Accounts (l ++ l') (bs ++ bs') (n + n') where
  transcript := by rw [others_append, List.map_append, h.transcript, h'.transcript]
  bookings := by rw [List.countP_append, h.bookings, h'.bookings]
  closed e he := (List.mem_append.1 he).elim (h.closed e) (h'.closed e)

theorem accounts_nil : Accounts [] [] 0 := ⟨rfl, rfl, fun _ he => nomatch he⟩

theorem accounts_others {l : List TelemetryEvent} {bs : List (String × String × String)} {n : ℕ}
    (h : Accounts (others l) bs n) : Accounts l bs n where
  transcript := by
    rw [← h.transcript]
    unfold others
    rw [List.filter_filter]
    simp
  bookings := by
    rw [← h.bookings]
    unfold others
    rw [List.countP_filter]
    refine List.countP_congr fun e _ => ?_
    by_cases hr : e.eventType = "routing" <;> simp [hr]
  closed e he hr := h.closed e (List.mem_filter.2 ⟨he, by simp [hr]⟩) hr

theorem accounts_fail (x : Act) (hx : ∀ call env draw, x ≠ .site (.attempt call env draw)) (r : Response) :
    Accounts (fail r) (entries x (some r)) 0 := by
  have hentries : entries x (some r) = (fail r).map brief := by
    cases x with
    | report call => cases r <;> rfl
    | site e =>
      cases e with
      | attempt call env draw => exact absurd rfl (hx call env draw)
      | _ => cases r <;> rfl
  rw [hentries]
  cases r with
  | failed code message => exact ⟨rfl, rfl, by simp [fail]⟩
  | _ => exact accounts_nil

/-- **What a step records besides circuits is its answer.** -/
theorem accounts_recorded {s : Site} (hconfig : ∀ id, (s.app.cluster.breakers id).cb.config = (3, 8, 1)) {e : Event}
    (hr : ∀ stamp, e ≠ .reset stamp) : ∃ n, Accounts (recorded s e) (entries (.site e) (Site.step s e).1.response) n ∧
      (Site.step s e).2.app.successCount = s.app.successCount + n := by
  have hcount : ∀ (a : App) (r : Response), (a.count r).successCount = a.successCount := by
    intro a r
    unfold App.count
    split <;> rfl
  cases e with
  | attempt call env draw =>
    cases hc : s.running call with
    | none =>
      simp only [recorded, Site.step, hc]
      exact ⟨0, accounts_nil, rfl⟩
    | some c =>
      have hcounts := ((s.swept env).bookSwept_counts env c.seatId c.requester).1
      simp only [recorded, Site.step, hc]
      rcases others_bookSwept (a := s.swept env) hconfig env c.seatId c.requester with
        ⟨server, key, hok, hothers⟩ | ⟨m, herr, hothers⟩
      · rw [hok] at hcounts
        refine ⟨1, accounts_others ?_, hcounts⟩
        have hsettle : (Site.settle c (s.app.bookLocked env c.seatId c.requester).2.1 draw).response =
            some (.booked c.seatId server key) :=
          congrArg (fun o => (Site.settle c o draw).response) hok
        rw [hothers, hsettle]
        exact ⟨rfl, rfl, by simp [routingEvent, CircuitState.value]⟩
      · rw [herr] at hcounts
        refine ⟨0, accounts_others ?_, hcounts⟩
        have hsettle : entries (.site (.attempt call env draw))
            (Site.settle c (s.app.bookLocked env c.seatId c.requester).2.1 draw).response = [] := by
          have hmine : (s.app.bookLocked env c.seatId c.requester).2.1 = .error m := herr
          rw [hmine]
          cases hresp : (Site.settle c (.error m) draw).response with
          | none => rfl
          | some r =>
            cases r with
            | booked i server key => cases Site.settle_booked (Site.running_some hc).2 hresp
            | _ => rfl
        rw [hothers, hsettle]
        exact accounts_nil
  | confirm seatId env => exact ⟨0, accounts_fail _ (by simp) _, hcount _ _⟩
  | cancel seatId => exact ⟨0, accounts_fail _ (by simp) _, hcount _ _⟩
  | renew seatId env => exact ⟨0, accounts_fail _ (by simp) _, hcount _ _⟩
  | toggle serverId env =>
    refine ⟨0, accounts_nil, ?_⟩
    show (s.app.toggleServer env serverId).successCount = s.app.successCount
    unfold App.toggleServer
    split
    · rfl
    · dsimp only
      split <;> rfl
  | snapshot env =>
    refine ⟨0, accounts_others ?_, rfl⟩
    simp only [recorded, others_append, currentMetrics, observe, others_flatMap]
    exact accounts_nil
  | reset stamp => exact absurd rfl (hr stamp)
  | _ => exact ⟨0, accounts_nil, rfl⟩

theorem site_step (t : Telemetry) (e : Event) : (step t (.site e)).2.site = (Site.step t.site e).2 := by
  cases e <;> rfl

theorem response_step (t : Telemetry) {e : Event} (h : ∀ stamp, e ≠ .reset stamp) :
    (step t (.site e)).1.response = (Site.step t.site e).1.response := by
  cases e with
  | reset stamp => exact absurd rfl (h stamp)
  | _ => rfl

/-- What holds of the site holds of it beside the telemetry. -/
theorem site_run {P : Site → Prop} (hs : ∀ s e, P s → P (Site.step s e).2) {t : Telemetry} (h0 : P t.site)
    (es : List Act) : P (run step t es).site := by
  refine invariant (P := fun t : Telemetry => P t.site) h0 (fun t x h => ?_) es
  cases x with
  | report call => exact (step_report t call).1 ▸ h
  | site e => exact site_step t e ▸ hs t.site e h

theorem config_run (b : Boot) (es : List Act) (id : ServerId) :
    ((run step (init b) es).site.app.cluster.breakers id).cb.config = (3, 8, 1) := by
  refine site_run (P := fun s => (s.app.cluster.breakers id).cb.config = (3, 8, 1)) (fun s e h => ?_) rfl es
  rw [Site.breakers_step, Breaker.uses_config]
  exact h

/-- What a report records is the refusal. -/
theorem accounts_report (t : Telemetry) (call : ℕ) : ∃ l,
    (step t (.report call)).2.collector.events = t.collector.events ++ l ∧
      Accounts l (entries (.report call) (step t (.report call)).1.response) 0 := by
  refine ⟨_, (step_report t call).2, ?_⟩
  unfold step
  dsimp only
  cases t.refusal call with
  | none => exact accounts_nil
  | some r => exact accounts_fail (.report call) (by simp) r

/-- **The telemetry is a transcript of the answers.**  Besides the circuits it holds, in order, the bookings and the
refusals answered since the last reset, each refused call at the point where its thread reports it; the bookings are as
many as `success_count`, each through a circuit that it left closed. -/
theorem transcript (b : Boot) (es : List Act) : ∃ pre mid, SinceReset es pre mid ∧
    Accounts (run step (init b) es).collector.events
      ((trace step (run step (init b) pre) mid).flatMap (fun x => entries x.1 x.2.response))
      (run step (init b) es).site.app.successCount := by
  induction es using List.reverseRecOn with
  | nil => exact ⟨[], [], ⟨rfl, Or.inl rfl, fun _ hm => nomatch hm⟩, accounts_nil⟩
  | append_singleton es x ih =>
    obtain ⟨pre, mid, hsplit, hacc⟩ := ih
    obtain ⟨pre', mid', hsplit', hcase⟩ := sinceReset_snoc hsplit x
    refine ⟨pre', mid', hsplit', ?_⟩
    rcases hcase with ⟨rfl, rfl, stamp, rfl⟩ | ⟨rfl, rfl, hx⟩
    · rw [run_snoc]
      exact accounts_nil
    · have hrun : run step (run step (init b) pre') mid = run step (init b) es := by rw [hsplit.1, run_append]
      rw [flatMap_trace_snoc, hrun, run_snoc]
      have hconfig := config_run b es
      generalize run step (init b) es = t at *
      cases x with
      | report call =>
        obtain ⟨l, hevents, hl⟩ := accounts_report t call
        rw [hevents, (step_report t call).1]
        exact hacc.append hl
      | site e =>
        have hr : ∀ stamp, e ≠ .reset stamp := fun stamp he => hx stamp (congrArg Act.site he)
        obtain ⟨n, hn, hcount⟩ := accounts_recorded hconfig hr
        rw [(step_site t hr).1, (step_site t hr).2, hcount, response_step t hr]
        exact hacc.append hn

/-! ## The summary -/

theorem mean_mem {xs : List ℚ} (hne : xs ≠ []) {lo hi : ℚ} (h : ∀ x ∈ xs, lo ≤ x ∧ x ≤ hi) :
    lo ≤ mean xs ∧ mean xs ≤ hi := by
  have hpos : (0 : ℚ) < xs.length := Nat.cast_pos.2 (List.length_pos_iff.2 hne)
  have hlo := List.card_nsmul_le_sum xs lo fun x hx => (h x hx).1
  have hhi := List.sum_le_card_nsmul xs hi fun x hx => (h x hx).2
  rw [nsmul_eq_mul] at hlo hhi
  unfold mean
  exact ⟨(le_div_iff₀ hpos).2 (by linarith), (div_le_iff₀ hpos).2 (by linarith)⟩

theorem roundTo_mem (digits : ℕ) {lo hi : ℤ} {x : ℚ} (h : lo ≤ x ∧ x ≤ hi) :
    lo ≤ roundTo digits x ∧ roundTo digits x ≤ hi := by
  have hpos : (0 : ℚ) < 10 ^ digits := by positivity
  have hlo : lo * 10 ^ digits ≤ pyRound (x * 10 ^ digits) :=
    le_pyRound (by push_cast; exact mul_le_mul_of_nonneg_right h.1 hpos.le)
  have hhi : pyRound (x * 10 ^ digits) ≤ hi * 10 ^ digits :=
    pyRound_le (by push_cast; exact mul_le_mul_of_nonneg_right h.2 hpos.le)
  unfold roundTo
  constructor
  · rw [le_div_iff₀ hpos]
    exact_mod_cast hlo
  · rw [div_le_iff₀ hpos]
    exact_mod_cast hhi

/-- The collector has no metrics, or those of every server. -/
def Covered (c : MetricsCollector ServerId) : Prop := c.metrics.keys = [] ∨ c.metrics.keys = serverIds

/-- **A batch of all servers replaces what was there.** -/
theorem ingestBatch_all {c : MetricsCollector ServerId} (hc : Covered c) {entry : ServerId → ServerMetrics ServerId}
    (hid : ∀ id, (entry id).serverId = id) :
    (c.ingestBatch (serverIds.map entry)).metrics.keys = serverIds ∧
      (c.ingestBatch (serverIds.map entry)).metrics.values = serverIds.map entry := by
  obtain ⟨⟨items, hnodup⟩, events⟩ := c
  have hids : serverIds = [.server1, .server2, .server3] := rfl
  rcases hc with hc | hc
  · obtain rfl : items = [] := List.map_eq_nil_iff.1 hc
    simp [hids, MetricsCollector.ingestBatch, MetricsCollector.ingest, Dict.set, Dict.setItems, Dict.keys, Dict.values,
      hid]
  · obtain ⟨p1, p2, p3, rfl⟩ : ∃ p1 p2 p3, items = [p1, p2, p3] := by
      have hlen : items.length = 3 := by
        rw [← List.length_map Prod.fst]
        exact congrArg List.length hc
      exact List.length_eq_three.1 hlen
    simp only [Dict.keys, hids, List.map_cons, List.map_nil, List.cons.injEq, and_true] at hc
    obtain ⟨h1, h2, h3⟩ := hc
    simp [hids, MetricsCollector.ingestBatch, MetricsCollector.ingest, Dict.set, Dict.setItems, Dict.keys, Dict.values,
      hid, h1, h2, h3]

/-- An entry of `_current_metrics`. -/
def entryOf (c : Cluster) (now : ℕ → Time) (id : ServerId) : ServerMetrics ServerId :=
  (Cluster.metric id (c.servers id) (c.breakers id) (now (2 * Cluster.index id)) (now (2 * Cluster.index id + 1))).1

/-- A step measures every server, or none. -/
theorem measures_entries (s : Site) (e : Event) : measures s e = [] ∨
    ∃ c now, measures s e = serverIds.map (entryOf c now) := by
  cases e with
  | attempt call env draw =>
    cases hc : s.running call with
    | none =>
      have hnone : s.measures (.attempt call env draw) = none := by simp only [Site.measures, hc, Option.bind_none]
      unfold measures
      rw [hnone]
      exact Or.inl rfl
    | some c =>
      by_cases hb : (s.swept env).tables.Bookable c.seatId
      · have hsome : s.measures (.attempt call env draw) =
            some (serverIds.map (entryOf s.app.cluster (fun n => env.time (2 + n))),
              fun id => env.time (2 + 2 * Cluster.index id)) := by
          simp only [Site.measures, hc, Option.bind_some, if_pos hb]
          rfl
        unfold measures
        rw [hsome]
        exact Or.inr ⟨_, _, rfl⟩
      · have hnone : s.measures (.attempt call env draw) = none := by
          simp only [Site.measures, hc, Option.bind_some, if_neg hb]
        unfold measures
        rw [hnone]
        exact Or.inl rfl
  | snapshot env => exact Or.inr ⟨s.app.cluster.refreshServerMetrics env.randint, fun n => env.time (1 + n), rfl⟩
  | _ => exact Or.inl rfl

theorem covered_ingest {c : MetricsCollector ServerId} (hc : Covered c) (s : Site) (e : Event) :
    Covered (c.ingestBatch (measures s e)) := by
  rcases measures_entries s e with h | ⟨c', now, h⟩
  · rw [h]
    exact hc
  · rw [h]
    exact Or.inr (ingestBatch_all hc fun _ => rfl).1

theorem covered_run (b : Boot) (es : List Act) : Covered (run step (init b) es).collector := by
  refine invariant (P := fun t : Telemetry => Covered t.collector) (Or.inl rfl) (fun t x h => ?_) es
  cases x with
  | report call =>
    unfold step
    dsimp only
    cases t.refusal call <;> exact h
  | site e =>
    cases e with
    | reset stamp => exact Or.inl rfl
    | _ => exact covered_ingest h t.site _

/-- The calls that have booked are those that have booked through one of the servers. -/
theorem countP_hasBooked (calls : List BookCall) :
    (serverIds.map (fun id => (calls.countP (Site.bookedThrough id) : ℤ))).sum = calls.countP Site.hasBooked := by
  have hone : ∀ c : BookCall, (serverIds.map (fun id => if Site.bookedThrough id c = true then (1 : ℤ) else 0)).sum =
      if Site.hasBooked c = true then 1 else 0 := by
    intro c
    unfold Site.bookedThrough Site.hasBooked
    cases c.response with
    | none => rfl
    | some r =>
      cases r with
      | booked i server key => cases server <;> rfl
      | _ => rfl
  have hids : serverIds = [.server1, .server2, .server3] := rfl
  induction calls with
  | nil => rfl
  | cons c calls ih =>
    have hc := hone c
    simp only [hids, List.map_cons, List.map_nil, List.sum_cons, List.sum_nil, List.countP_cons] at ih hc ⊢
    push_cast
    linarith

/-- **A summary is of the metrics of its own snapshot**, one for each server and none left over from before, so that its
averages are in the ranges of the figures, and its requests are the calls that have returned a booking. -/
theorem summary_shown (b : Boot) (hb : b.Drawn) (es : List Act) (env : Env) :
    ∃ view, (step (run step (init b) es) (.site (.snapshot env))).1.view = some view ∧
      view.summary = MetricsCollector.summarize (measures (run step (init b) es).site (.snapshot env)) ∧
      view.summary.serverCount = 3 ∧
      view.summary.totalRequestCount = ((run step (init b) es).site.calls.countP Site.hasBooked : ℤ) ∧
      (5 ≤ view.summary.averageCpu ∧ view.summary.averageCpu ≤ 95) ∧
      (0 ≤ view.summary.totalConnections ∧ view.summary.totalConnections ≤ 90) ∧
      (25 ≤ view.summary.averageResponseTime ∧ view.summary.averageResponseTime ≤ 700) ∧
      0 ≤ view.summary.averageErrorRate ∧ view.summary.averageErrorRate ≤ 1 := by
  have hranged : ∀ id, Site.Ranged ((run step (init b) es).site.app.cluster.servers id) :=
    site_run (P := fun s => ∀ id, Site.Ranged (s.app.cluster.servers id)) (fun s e h => Site.ranged_step h e)
      (Site.ranged_run b hb []) es
  have hrequests : ∀ id, ((run step (init b) es).site.app.cluster.servers id).requests =
      ((run step (init b) es).site.calls.countP (Site.bookedThrough id) : ℤ) := by
    intro id
    refine sub_eq_zero.1 (site_run (P := fun s => (s.app.cluster.servers id).requests -
      s.calls.countP (Site.bookedThrough id) = 0) (fun s e h => (Site.requests_step s e id).trans h) rfl es)
  have hcovered := covered_run b es
  generalize run step (init b) es = t at *
  obtain ⟨c, hc⟩ : ∃ c, c = t.site.app.cluster.refreshServerMetrics env.randint := ⟨_, rfl⟩
  have hmeasures : measures t.site (.snapshot env) = serverIds.map (entryOf c (fun n => env.time (1 + n))) := by
    rw [hc]
    rfl
  have hvalues := (@ingestBatch_all _ hcovered (entryOf c (fun n => env.time (1 + n))) fun _ => rfl).2
  have hformed : ∀ m ∈ measures t.site (.snapshot env), Site.WellFormed m := by
    intro m hm
    rw [hmeasures] at hm
    obtain ⟨id, -, rfl⟩ := List.mem_map.1 hm
    refine Site.metric_wellFormed ?_ id _ _ _
    rw [hc]
    exact Site.ranged_step hranged (.snapshot env) id
  have hcounts : (measures t.site (.snapshot env)).map ServerMetrics.requestCount =
      serverIds.map (fun id => (t.site.calls.countP (Site.bookedThrough id) : ℤ)) := by
    rw [hmeasures, List.map_map]
    refine List.map_congr_left fun id _ => ?_
    rw [← hrequests id, hc]
    simp only [Function.comp_apply, entryOf, Cluster.metric, Cluster.refreshServerMetrics]
    split <;> rfl
  have hlen : (measures t.site (.snapshot env)).length = 3 := by
    rw [hmeasures, List.length_map]
    rfl
  have hne : measures t.site (.snapshot env) ≠ [] := fun h => by simp [h] at hlen
  have hsummary : (t.collector.ingestBatch (measures t.site (.snapshot env))).summary =
      MetricsCollector.summarize (measures t.site (.snapshot env)) := by
    unfold MetricsCollector.summary
    rw [hmeasures, hvalues]
  refine ⟨_, rfl, hsummary, ?_⟩
  dsimp only
  rw [hsummary]
  generalize measures t.site (.snapshot env) = ms at *
  have hmean : ∀ (f : ServerMetrics ServerId → ℚ) (lo hi : ℤ) (digits : ℕ), (∀ m ∈ ms, lo ≤ f m ∧ f m ≤ hi) →
      lo ≤ roundTo digits (mean (ms.map f)) ∧ roundTo digits (mean (ms.map f)) ≤ hi := by
    intro f lo hi digits h
    refine roundTo_mem digits (mean_mem (fun hm => hne (List.map_eq_nil_iff.1 hm)) fun x hx => ?_)
    obtain ⟨m, hm, rfl⟩ := List.mem_map.1 hx
    exact h m hm
  have hconnections : ∀ x ∈ ms.map ServerMetrics.activeConnections, 0 ≤ x ∧ x ≤ 30 := by
    intro x hx
    obtain ⟨m, hm, rfl⟩ := List.mem_map.1 hx
    exact (hformed m hm).connections
  have hlo := List.card_nsmul_le_sum (ms.map ServerMetrics.activeConnections) 0 fun x hx => (hconnections x hx).1
  have hhi := List.sum_le_card_nsmul (ms.map ServerMetrics.activeConnections) 30 fun x hx => (hconnections x hx).2
  rw [List.length_map, hlen] at hlo hhi
  unfold MetricsCollector.summarize
  rw [if_neg (by rw [hlen]; decide)]
  refine ⟨hlen, ?_, ?_, ⟨?_, ?_⟩, ?_, ?_⟩
  · dsimp only
    rw [hcounts]
    exact countP_hasBooked t.site.calls
  · exact hmean _ 5 95 2 fun m hm => by simpa using (hformed m hm).cpu
  · simpa using hlo
  · simpa using hhi
  · exact hmean _ 25 700 2 fun m hm => by simpa using (hformed m hm).responseTime
  · exact_mod_cast hmean _ 0 1 4 fun m hm => by simpa using (hformed m hm).errorRate

/-- What a snapshot shows after a booking. -/
theorem summary_shown_oneBooking : ∃ view,
    (step (run step (init .calm) [.site (.book 1 "Ann"), .site (.attempt 0 (.calm 0 idA) 0)])
      (.site (.snapshot (.calm 1 idB)))).1.view = some view ∧ view.summary = ⟨20, 0, 50, 0, 1, 3⟩ := by
  obtain ⟨view, hview, hsummary, -⟩ := summary_shown .calm (fun id => by cases id <;> decide)
    [.site (.book 1 "Ann"), .site (.attempt 0 (.calm 0 idA) 0)] (.calm 1 idB)
  exact ⟨view, hview, hsummary.trans (by decide +kernel)⟩

end Telemetry
end Ticket
