import TicketBooking.Moves
/-!
# Admission — where a booking runs (`dashboard.py`)

`_book_locked` asks a server's breaker three times: for the metrics, before it settles on the server, and in
`breaker.call`.  Every strategy chooses among the servers measured online, and a breaker that was not `OPEN` when it was
measured admits requests at any later reading, until an outcome is recorded.  So the branches that guard against a
breaker that refuses and against an offline server do nothing: whatever stands in them, a run is the same
(`books_where_admitted`).
-/
namespace Ticket

open Runs

/-! ## What the strategies choose -/

namespace Balancer

variable {ι : Type}

theorem mem_online {metrics : List (ServerMetrics ι)} {m : ServerMetrics ι} :
    m ∈ online metrics ↔ m ∈ metrics ∧ m.status = .online := by
  unfold online
  rw [List.mem_filter, decide_eq_true_iff]

/-- The server of an entry measured online. -/
def Measured (metrics : List (ServerMetrics ι)) (id : ι) : Prop :=
  ∃ m ∈ metrics, m.serverId = id ∧ m.status = .online

variable {metrics : List (ServerMetrics ι)} {id : ι}

theorem measured_of_mem_online {m : ServerMetrics ι} (h : m ∈ online metrics) : Measured metrics m.serverId :=
  ⟨m, (mem_online.1 h).1, rfl, (mem_online.1 h).2⟩

theorem RoundRobin.select_measured (s : RoundRobin) (h : (s.select metrics).1 = some id) : Measured metrics id := by
  unfold RoundRobin.select at h
  dsimp only at h
  split at h
  · rename_i idx serverId hnext
    obtain ⟨offset, -, hfound⟩ := List.exists_of_findSome?_eq_some hnext
    obtain ⟨m, hm, hsome⟩ := Option.bind_eq_some_iff.1 hfound
    split at hsome
    · rename_i hon
      obtain ⟨-, rfl⟩ := Prod.mk.inj (Option.some.inj hsome)
      exact ⟨m, List.mem_of_getElem? hm, Option.some.inj h, hon⟩
    · cases hsome
  · cases h

theorem WeightedRoundRobin.select_measured [DecidableEq ι] (s : WeightedRoundRobin ι)
    (h : (s.select metrics).1 = some id) : Measured metrics id := by
  unfold WeightedRoundRobin.select at h
  dsimp only at h
  split at h
  · cases h
  · split at h
    · cases h
    · split at h
      · cases h
      · rename_i chosen hbest
        rw [← Option.some.inj h]
        exact measured_of_mem_online (List.argmax_mem hbest)

theorem ResourceAware.select_measured (s : ResourceAware) (h : s.select metrics = some id) : Measured metrics id := by
  obtain ⟨m, hm, rfl⟩ := Option.map_eq_some_iff.1 h
  exact measured_of_mem_online (List.argmin_mem hm)

theorem selectAdaptive_measured (h : selectAdaptive metrics = some id) : Measured metrics id := by
  obtain ⟨m, hm, rfl⟩ := Option.map_eq_some_iff.1 h
  exact measured_of_mem_online (List.argmax_mem hm)

theorem ConsistentHashing.select_measured [ToString ι] (md5 : String → ℕ) (s : ConsistentHashing ι)
    {key : Option String} (h : (s.select md5 metrics key).1 = some id) : Measured metrics id := by
  obtain ⟨v, hv, rfl⟩ := Option.map_eq_some_iff.1 h
  have hmem : v ∈ s.buildRing md5 metrics := List.mem_of_getElem? hv
  unfold ConsistentHashing.buildRing at hmem
  obtain ⟨m, hm, hvnode⟩ := List.mem_flatMap.1 ((List.mergeSort_perm _ _).mem_iff.1 hmem)
  obtain ⟨n, -, rfl⟩ := List.mem_map.1 hvnode
  exact measured_of_mem_online hm

/-- **Whatever a strategy has been through, it chooses a server measured online.** -/
theorem Strategy.select_measured [DecidableEq ι] [ToString ι] (md5 : String → ℕ) (s : Strategy ι)
    {key : Option String} (h : (s.select md5 metrics key).1 = some id) : Measured metrics id := by
  cases s with
  | roundRobin s => exact s.select_measured h
  | weightedRoundRobin s => exact s.select_measured h
  | resourceAware s => exact s.select_measured h
  | consistentHashing s => exact s.select_measured md5 h
  | adaptiveFeedback => exact selectAdaptive_measured h

end Balancer

/-! ## What the breakers answer -/

namespace Breaker

theorem allowRequest_of_not_opened {b : Breaker} (h : b.cb.state ≠ .opened) (now : Time) :
    b.allowRequest now = (true, b) := by
  unfold allowRequest
  rw [CircuitBreaker.allowRequest_fst, CircuitBreaker.allowRequest_snd, CircuitBreaker.readState_of_not_opened h,
    decide_eq_true h]

end Breaker

namespace Cluster

open Balancer

/-- **The server is online and its breaker, not `OPEN`, admits a request whenever it is asked.** -/
structure Admits (c : Cluster) (id : ServerId) : Prop where
  online : (c.servers id).online = true
  shut : (c.breakers id).cb.state ≠ .opened
  asked : ∀ now, ((c.breakers id).allowRequest now).1 = true

theorem admits_of_shut {c : Cluster} {id : ServerId} (hon : (c.servers id).online = true)
    (hshut : (c.breakers id).cb.state ≠ .opened) : c.Admits id :=
  ⟨hon, hshut, fun now => by rw [Breaker.allowRequest_of_not_opened hshut]⟩

theorem metric_online {id : ServerId} {server : Server} {b : Breaker} {now later : Time}
    (h : (metric id server b now later).1.status = .online) :
    server.online = true ∧ (metric id server b now later).2.cb.state ≠ .opened := by
  unfold metric at h ⊢
  dsimp only at h ⊢
  cases hon : server.online with
  | false =>
    rw [hon] at h
    simp at h
  | true =>
    simp only [hon, if_true] at h ⊢
    refine ⟨trivial, fun hopen => ?_⟩
    have hstate : (b.getState now).1 = .opened := (CircuitBreaker.readState_fst b.cb now).trans hopen
    rw [hstate] at h
    exact absurd h (by decide)

/-- **A server measured online is one, and its breaker is not `OPEN`** after the measurement. -/
theorem admits_of_measured {c : Cluster} {now : ℕ → Time} {id : ServerId}
    (h : Measured (c.currentMetrics now).1 id) : (c.currentMetrics now).2.Admits id := by
  obtain ⟨m, hm, hid, hon⟩ := h
  obtain ⟨id', -, rfl⟩ := List.mem_map.1 hm
  obtain rfl : id' = id := hid
  obtain ⟨honline, hshut⟩ := metric_online hon
  exact admits_of_shut honline hshut

/-- The load balancing of an attempt: the strategy's choice, the metrics it was made on, and the cluster then. -/
def offer (c : Cluster) (md5 : String → ℕ) (routingKey : String) (now : ℕ → Time) :
    Option ServerId × List (ServerMetrics ServerId) × Cluster :=
  let measured := c.currentMetrics now
  let chosen := measured.2.strategy.select md5 measured.1 (some routingKey)
  (chosen.1, measured.1, { measured.2 with strategy := chosen.2 })

theorem admits_of_offer {c : Cluster} {md5 : String → ℕ} {key : String} {now : ℕ → Time} {id : ServerId}
    (h : (c.offer md5 key now).1 = some id) : (c.offer md5 key now).2.2.Admits id := by
  obtain ⟨hon, hshut, hasked⟩ := admits_of_measured (Strategy.select_measured md5 _ h)
  exact ⟨hon, hshut, hasked⟩

theorem setBreaker_self (c : Cluster) (id : ServerId) : c.setBreaker id (c.breakers id) = c := by
  unfold setBreaker
  rw [Function.update_eq_self]

end Cluster

/-! ## The branches that guard the routing -/

/-- What stands in those branches: the rest of `_select_circuit_safe_server` once the breaker has refused the server
chosen, the handler of `CircuitOpenError` in `_book_locked`, and `_reserve_on_server` on an offline server. -/
structure Defences where
  refused : Cluster → ServerId → List (ServerMetrics ServerId) → Time → Except BookingError ServerId × Cluster
  circuitOpen : App → ServerId → Except BookingError Unit × App
  offline : App → Env → ServerId → Except ReserveError Unit × App

/-- The code's own. -/
def Defences.code : Defences where
  refused c selected metrics later :=
    let refused : Except BookingError ServerId := .error (.nonRetryable s!"Circuit is open for {selected}")
    match c.failover.chooseFailoverTarget metrics with
    | none => (refused, c)
    | some target =>
      if target = selected then (refused, c)
      else
        let asked := (c.breakers target).allowRequest later
        (if asked.1 = true then .ok target else refused, c.setBreaker target asked.2)
  circuitOpen a server := (.error (.nonRetryable s!"Circuit is open for {server}"), a)
  offline a env server :=
    let b := (a.cluster.breakers server).recordFailure (fun n => env.time (11 + n))
    (.error (.transient s!"{server} is offline"), { a with cluster := a.cluster.setBreaker server b })

namespace Defences

variable (d : Defences)

/-! An attempt as the code makes it, with the branches left open. -/

def selectCircuitSafeServer (c : Cluster) (selected : ServerId) (metrics : List (ServerMetrics ServerId))
    (now later : Time) : Except BookingError ServerId × Cluster :=
  let asked := (c.breakers selected).allowRequest now
  let c := c.setBreaker selected asked.2
  if asked.1 = true then (.ok selected, c) else d.refused c selected metrics later

def route (c : Cluster) (md5 : String → ℕ) (routingKey : String) (now : ℕ → Time) :
    Except BookingError ServerId × Cluster :=
  let measured := c.currentMetrics now
  let chosen := measured.2.strategy.select md5 measured.1 (some routingKey)
  let c := { measured.2 with strategy := chosen.2 }
  match chosen.1 with
  | none => (.error (.nonRetryable "No online server is available"), c)
  | some selected => d.selectCircuitSafeServer c selected measured.1 (now 6) (now 7)

def reserveOnServer (a : App) (env : Env) (seatId : ℤ) (requester : String) (server : ServerId) :
    Except ReserveError Unit × App :=
  if (a.cluster.servers server).online = false then d.offline a env server
  else if env.random < 1 / 5 then
    (.error (.transient s!"{server} simulated transient booking failure"), a)
  else
    let locked :=
      a.tables.lockSeat seatId requester server env.uuid (env.time 16) (env.time 17) (env.time 18) env.starts
    (locked.1, { a with tables := locked.2 })

def callBreaker (a : App) (env : Env) (seatId : ℤ) (requester : String) (server : ServerId) :
    Except BookingError Unit × App :=
  let asked := (a.cluster.breakers server).allowRequest (env.time 10)
  let a := { a with cluster := a.cluster.setBreaker server asked.2 }
  if asked.1 = true then
    let reserved := d.reserveOnServer a env seatId requester server
    let c := reserved.2.cluster
    match reserved.1 with
    | .error e =>
      let b := (c.breakers server).recordFailure (fun n => env.time (19 + n))
      (.error (App.passOn e), { reserved.2 with cluster := c.setBreaker server b })
    | .ok () =>
      let b := ((c.breakers server).recordSuccess (fun n => env.time (19 + n))).getState (env.time 24)
      let c := c.setBreaker server b.2
      let counted := { c.servers server with requests := (c.servers server).requests + 1 }
      (.ok (), { reserved.2 with
        cluster := { c with servers := Function.update c.servers server counted }
        successCount := reserved.2.successCount + 1 })
  else d.circuitOpen a server

def bookSwept (a : App) (env : Env) (seatId : ℤ) (requester : String) : Except BookingError Response × App :=
  match a.tables.seats.get? seatId with
  | none => (.error (.nonRetryable s!"Seat {seatId} does not exist"), a)
  | some seat =>
    if seat.state = .reserved then (.error (.nonRetryable s!"Seat {seatId} is already reserved"), a)
    else if seat.state = .locked then (.error (.nonRetryable s!"Seat {seatId} is currently leased"), a)
    else
      let routingKey := s!"seat-{seatId}"
      let routed := d.route a.cluster env.md5 routingKey (fun n => env.time (2 + n))
      let a := { a with cluster := routed.2 }
      match routed.1 with
      | .error e => (.error e, a)
      | .ok server =>
        let called := d.callBreaker a env seatId requester server
        (called.1.map (fun _ => .booked seatId server routingKey), called.2)

def bookLocked (a : App) (env : Env) (seatId : ℤ) (requester : String) :
    List ℤ × Except BookingError Response × App :=
  let swept := a.tables.expireLeasesLocked (env.time 1)
  (swept.1, d.bookSwept ({ a with tables := swept.2 } : App) env seatId requester)

/-- A step of the site, its attempts made so. -/
def step (s : Site) (e : Event) : Answer × Site :=
  match e with
  | .attempt call env draw =>
    match s.running call with
    | none => (⟨[], none⟩, s)
    | some c =>
      let r := d.bookLocked s.app env c.seatId c.requester
      let c := Site.settle c r.2.1 draw
      (⟨r.1, c.response⟩, { app := r.2.2, calls := s.calls.set call c })
  | e => s.step e

/-- With the code's own branches this is the code. -/
theorem code_step (s : Site) (e : Event) : code.step s e = s.step e := by
  cases e <;> rfl

/-- **An attempt runs on the server it is offered**, whatever stands in the branches. -/
theorem route_of_offer (c : Cluster) (md5 : String → ℕ) (key : String) (now : ℕ → Time) : d.route c md5 key now =
    match (c.offer md5 key now).1 with
    | none => (.error (.nonRetryable "No online server is available"), (c.offer md5 key now).2.2)
    | some selected => (.ok selected, (c.offer md5 key now).2.2) := by
  cases h : (c.offer md5 key now).1 with
  | none =>
    have hnone : ((c.currentMetrics now).2.strategy.select md5 (c.currentMetrics now).1 (some key)).1 = none := h
    simp only [route, hnone]
    rfl
  | some selected =>
    have hsome : ((c.currentMetrics now).2.strategy.select md5 (c.currentMetrics now).1 (some key)).1 = some selected :=
      h
    have hasked := Breaker.allowRequest_of_not_opened (Cluster.admits_of_offer h).shut (now 6)
    have hroute : d.route c md5 key now =
        d.selectCircuitSafeServer (c.offer md5 key now).2.2 selected (c.offer md5 key now).2.1 (now 6) (now 7) := by
      simp only [route, hsome]
      rfl
    rw [hroute]
    simp only [selectCircuitSafeServer, hasked, if_true, Cluster.setBreaker_self]

theorem route_eq (c : Cluster) (md5 : String → ℕ) (key : String) (now : ℕ → Time) :
    d.route c md5 key now = c.route md5 key now := by
  have hcode : c.route md5 key now = code.route c md5 key now := rfl
  rw [hcode, route_of_offer, route_of_offer]

end Defences

theorem Cluster.route_of_offer (c : Cluster) (md5 : String → ℕ) (key : String) (now : ℕ → Time) : c.route md5 key now =
    match (c.offer md5 key now).1 with
    | none => (.error (.nonRetryable "No online server is available"), (c.offer md5 key now).2.2)
    | some selected => (.ok selected, (c.offer md5 key now).2.2) :=
  Defences.code.route_of_offer c md5 key now

namespace Defences

variable (d : Defences)

theorem reserveOnServer_eq {a : App} {server : ServerId} (h : (a.cluster.servers server).online = true) (env : Env)
    (seatId : ℤ) (requester : String) :
    d.reserveOnServer a env seatId requester server = a.reserveOnServer env seatId requester server := by
  have hon : ¬ (a.cluster.servers server).online = false := by rw [h]; decide
  unfold reserveOnServer App.reserveOnServer
  rw [if_neg hon, if_neg hon]

theorem callBreaker_eq {a : App} {server : ServerId} (h : a.cluster.Admits server) (env : Env) (seatId : ℤ)
    (requester : String) : d.callBreaker a env seatId requester server = a.callBreaker env seatId requester server := by
  have hasked := Breaker.allowRequest_of_not_opened h.shut (env.time 10)
  have hreserve := d.reserveOnServer_eq h.online env seatId requester
  cases hres : (a.reserveOnServer env seatId requester server).1 <;>
    simp only [callBreaker, App.callBreaker, hasked, if_true, Cluster.setBreaker_self, hreserve, hres]

theorem bookSwept_eq (a : App) (env : Env) (seatId : ℤ) (requester : String) :
    d.bookSwept a env seatId requester = a.bookSwept env seatId requester := by
  have hrouted := Cluster.route_of_offer a.cluster env.md5 s!"seat-{seatId}" (fun n => env.time (2 + n))
  unfold bookSwept App.bookSwept
  cases a.tables.seats.get? seatId with
  | none => rfl
  | some seat =>
    simp only [d.route_eq, hrouted]
    cases h : (a.cluster.offer env.md5 s!"seat-{seatId}" (fun n => env.time (2 + n))).1 with
    | none => rfl
    | some server =>
      have hadmits := Cluster.admits_of_offer h
      simp only [d.callBreaker_eq (a := { a with cluster := _ }) hadmits env seatId requester]

theorem step_eq (s : Site) (e : Event) : d.step s e = s.step e := by
  cases e with
  | attempt call env draw =>
    cases hr : s.running call with
    | none => simp only [step, Site.step, hr]
    | some c => simp only [step, Site.step, hr, bookLocked, App.bookLocked, d.bookSwept_eq]
  | _ => rfl

end Defences

namespace Site

/-- The load balancing of an attempt at seat `seatId`, its sweep done. -/
def offered (s : Site) (env : Env) (seatId : ℤ) : Option ServerId × Cluster :=
  let offer := (s.swept env).cluster.offer env.md5 s!"seat-{seatId}" (fun n => env.time (2 + n))
  (offer.1, offer.2.2)

/-- **A booking only runs on a server that is online with a breaker that is not `OPEN`**: in every run, the server that
load balancing selects is one, before and after it is settled on, and it is the one settled on; so the run is the same
whatever the branches that guard against anything else do. -/
theorem books_where_admitted (s : Site) (es : List Event) :
    (∀ pre call env draw post c server, es = pre ++ .attempt call env draw :: post →
      (run step s pre).running call = some c → ((run step s pre).offered env c.seatId).1 = some server →
        ((run step s pre).offered env c.seatId).2.Admits server ∧
        ∃ settled, ((run step s pre).swept env).cluster.route env.md5 s!"seat-{c.seatId}" (fun n => env.time (2 + n)) =
          (.ok server, settled) ∧ settled.Admits server) ∧
    ∀ d : Defences, trace d.step s es = trace step s es ∧ run d.step s es = run step s es := by
  refine ⟨fun pre call env draw post c server _ _ h => ?_, fun d => ?_⟩
  · have hadmits := Cluster.admits_of_offer h
    refine ⟨hadmits, _, ?_, hadmits⟩
    unfold offered at h
    rw [Cluster.route_of_offer, h]
  · have hstep : d.step = step := funext fun s => funext fun e => d.step_eq s e
    rw [hstep]
    exact ⟨rfl, rfl⟩

theorem books_where_admitted_oneLock :
    (run step Boot.calm.site (oneLock.take 1)).running 0 = some ⟨1, "Ann", 0, none⟩ ∧
    ((run step Boot.calm.site (oneLock.take 1)).offered (.calm 0 idA) 1).2.Admits .server1 ∧
    ∀ d : Defences, trace d.step Boot.calm.site oneLock = trace step Boot.calm.site oneLock := by
  have hrunning : (run step Boot.calm.site (oneLock.take 1)).running 0 = some ⟨1, "Ann", 0, none⟩ := by decide
  have hoffered : ((run step Boot.calm.site (oneLock.take 1)).offered (.calm 0 idA) 1).1 = some .server1 := by
    decide +kernel
  obtain ⟨hadmits, hdefences⟩ := books_where_admitted Boot.calm.site oneLock
  have hserver := hadmits (oneLock.take 1) 0 (.calm 0 idA) 0 [] _ _ rfl hrunning hoffered
  exact ⟨hrunning, hserver.1, fun d => (hdefences d).1⟩

end Site
end Ticket
