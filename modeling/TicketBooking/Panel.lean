import TicketBooking.Heartbeat
import TicketBooking.Quarantine
import TicketBooking.Recovery
import TicketBooking.Servers
import TicketBooking.Window
/-!
# Panel — what a snapshot shows (`dashboard.py`)

`DistributedTicketWebApp` keeps more than it decides by: the times of the attempts, the heartbeats of the servers, the
recovery manager, and the last route.  `Panel` is the site with these, and `View` what a snapshot says of them.  The
request rate is that of the attempts themselves, however the snapshots before pruned their times (`rps_shown`); a server
that is on is shown alive and one that is off is shown down once its last heartbeat is old (`heartbeat_shown`); the
members of the cluster are the servers that were turned back on, and the replicas are given what the recovery manager
hands over (`members_shown`); and there is a last route when there is a booking to have taken it (`route_shown`).
-/
namespace Ticket

open Runs

theorem Cluster.index_injective : Function.Injective Cluster.index := by
  intro a b h
  cases a <;> cases b <;> first | rfl | exact absurd h (by decide)

/-- The servers in the order of their names. -/
instance : LinearOrder ServerId := LinearOrder.lift' Cluster.index Cluster.index_injective

/-- What the watchers read from the clock during an operation. -/
structure Watch where
  /-- `record_heartbeat`, for each server -/
  beat : ServerId → Time
  /-- a snapshot's `now`, or the time of a recovery -/
  now : Time
  /-- `get_all_server_status` -/
  status : ℕ → Time

/-- Watchers that read one instant. -/
def Watch.calm (time : Time) : Watch := ⟨fun _ => time, time, fun _ => time⟩

/-- `last_route`, its reason and latency apart. -/
structure LastRoute where
  algorithm : StrategyName
  selectedServer : ServerId
  routingKey : String
  deriving DecidableEq

/-- The route of a booking returned. -/
def LastRoute.of (algorithm : StrategyName) : Response → Option LastRoute
  | .booked _ server routingKey => some ⟨algorithm, server, routingKey⟩
  | _ => none

structure Panel where
  site : Site
  heartbeatMonitor : HeartbeatMonitor ServerId
  recoveryManager : RecoveryManager ServerId Unit
  requestTimestamps : List Time
  lastRoute : Option LastRoute

/-- What a snapshot shows of the watchers. -/
structure View where
  rps : ℚ
  heartbeat : Dict ServerId HeartbeatStatus
  clusterMembers : List ServerId
  lastRoute : Option LastRoute

namespace Site

/-- The server a toggle turns back on. -/
def turnsOn (s : Site) : Event → Option ServerId
  | .toggle serverId _ => (serverIds.find? (fun id => decide (toString id = serverId))).filter
      (fun id => !(s.app.cluster.servers id).online)
  | _ => none

/-- The reading with which an attempt starts. -/
def startedAt (s : Site) : Event → List Time
  | .attempt call env _ => ((s.running call).map (fun _ => env.time 0)).toList
  | _ => []

/-- The route of the booking that an attempt makes. -/
def routed (s : Site) (e : Event) : Option LastRoute :=
  match e with
  | .attempt _ _ _ => (step s e).1.response.bind (LastRoute.of s.app.cluster.strategyName)
  | _ => none

end Site

namespace Panel

/-- `_apply_recovery_sync_update` is the one callback registered. -/
def init (b : Boot) (beat : ServerId → Time) : Panel :=
  { site := b.site
    heartbeatMonitor := serverIds.foldl (fun m id => m.recordHeartbeat id none (beat id)) (.new 5 15)
    recoveryManager := .starting ([], [], [()])
    requestTimestamps := []
    lastRoute := none }

/-- The heartbeats `_current_metrics` records, those of the servers that are on. -/
def recordHeartbeats (c : Cluster) (beat : ServerId → Time) (m : HeartbeatMonitor ServerId) :
    HeartbeatMonitor ServerId :=
  serverIds.foldl (fun m id => if (c.servers id).online = true then m.recordHeartbeat id none (beat id) else m) m

def heartbeatsAfter (s : Site) (e : Event) (w : Watch) (m : HeartbeatMonitor ServerId) : HeartbeatMonitor ServerId :=
  match s.turnsOn e with
  | some id => m.recordHeartbeat id none (w.beat id)
  | none => if (s.measures e).isSome = true then recordHeartbeats s.app.cluster w.beat m else m

/-- What `toggle_server` asks of the recovery manager for a server it turns back on.  The log of the application
returns. -/
def recoveryCalls (s : Site) (e : Event) (w : Watch) : List (RecoveryCall ServerId Unit) :=
  match s.turnsOn e with
  | none => []
  | some id =>
    [.markRecovered id "manual toggle" w.now (fun _ => true),
      .rejoinCluster id (serverIds.filter (fun peer => decide (peer ≠ id))) w.now (fun _ => true)] ++
    if id ≠ .server1 then [.receiveSyncUpdates id s.app.tables.primary.listSeats w.now (fun _ => true)] else []

def timestampsAfter (s : Site) (e : Event) (w : Watch) (timestamps : List Time) : List Time :=
  match e with
  | .snapshot _ => timestamps.filter (fun ts => decide (w.now - ts ≤ 10))
  | .reset _ => []
  | _ => timestamps ++ s.startedAt e

def routeAfter (s : Site) (e : Event) (route : Option LastRoute) : Option LastRoute :=
  match e with
  | .reset _ => none
  | _ => (s.routed e).or route

/-- What a snapshot says of the panel it leaves. -/
def view (p : Panel) (w : Watch) : View :=
  { rps := p.requestTimestamps.length / 10
    heartbeat := (p.heartbeatMonitor.getAllServerStatus w.status).1
    clusterMembers := p.recoveryManager.getClusterMembers
    lastRoute := p.lastRoute }

/-- A step of the site with its watchers; its answer is the callbacks called and what a snapshot shows. -/
def step (p : Panel) (e : Event × Watch) :
    (List (RecoveryNotice ServerId Unit) × Option View) × Panel :=
  let after : Panel :=
    { site := (Site.step p.site e.1).2
      heartbeatMonitor := heartbeatsAfter p.site e.1 e.2 p.heartbeatMonitor
      recoveryManager := run RecoveryManager.step p.recoveryManager (recoveryCalls p.site e.1 e.2)
      requestTimestamps := timestampsAfter p.site e.1 e.2 p.requestTimestamps
      lastRoute := routeAfter p.site e.1 p.lastRoute }
  let told := p.recoveryManager.told (recoveryCalls p.site e.1 e.2)
  match e.1 with
  | .snapshot _ =>
    ((told, some (after.view e.2)),
      { after with heartbeatMonitor := (after.heartbeatMonitor.getAllServerStatus e.2.status).2 })
  | _ => ((told, none), after)

variable {p : Panel} {e : Event} {w : Watch} {id : ServerId}

/-! ## What a step does to each part -/

theorem step_site (p : Panel) (e : Event × Watch) : (step p e).2.site = (Site.step p.site e.1).2 := by
  obtain ⟨e, w⟩ := e
  cases e <;> rfl

theorem step_recovery (p : Panel) (e : Event × Watch) : (step p e).2.recoveryManager =
    run RecoveryManager.step p.recoveryManager (recoveryCalls p.site e.1 e.2) := by
  obtain ⟨e, w⟩ := e
  cases e <;> rfl

theorem step_told (p : Panel) (e : Event × Watch) :
    (step p e).1.1 = p.recoveryManager.told (recoveryCalls p.site e.1 e.2) := by
  obtain ⟨e, w⟩ := e
  cases e <;> rfl

theorem step_timestamps (p : Panel) (e : Event × Watch) :
    (step p e).2.requestTimestamps = timestampsAfter p.site e.1 e.2 p.requestTimestamps := by
  obtain ⟨e, w⟩ := e
  cases e <;> rfl

theorem step_route (p : Panel) (e : Event × Watch) : (step p e).2.lastRoute = routeAfter p.site e.1 p.lastRoute := by
  obtain ⟨e, w⟩ := e
  cases e <;> rfl

theorem step_heartbeats (p : Panel) (e : Event × Watch) :
    (step p e).2.heartbeatMonitor.heartbeats = (heartbeatsAfter p.site e.1 e.2 p.heartbeatMonitor).heartbeats ∧
      (step p e).2.heartbeatMonitor.timeout = (heartbeatsAfter p.site e.1 e.2 p.heartbeatMonitor).timeout := by
  obtain ⟨e, w⟩ := e
  cases e <;> exact ⟨rfl, rfl⟩

/-- **The site runs as it does without its watchers.** -/
theorem run_site (p : Panel) : ∀ es : List (Event × Watch),
    (run step p es).site = run Site.step p.site (es.map Prod.fst) := by
  intro es
  induction es using List.reverseRecOn with
  | nil => rfl
  | append_singleton es e ih => rw [run_snoc, step_site, ih, List.map_append, List.map_singleton, run_snoc]

/-! ## The request rate -/

/-- The reading is at most ten seconds old. -/
def Recent (now ts : Time) : Bool := decide (now - ts ≤ 10)

/-- A log of the attempts that a reset clears. -/
def logAfter (s : Site) (e : Event) (log : List Time) : List Time :=
  match e with
  | .reset _ => []
  | _ => log ++ s.startedAt e

/-- The times of the attempts made since the last reset, after `log`. -/
def attemptTimes (s : Site) (log : List Time) : List Event → List Time
  | [] => log
  | e :: es => attemptTimes (Site.step s e).2 (logAfter s e log) es

/-- A pruning at an earlier time takes nothing that is recent now. -/
theorem filter_recent {now earlier : Time} (h : earlier ≤ now) (ts : List Time) :
    (ts.filter (fun t => decide (earlier - t ≤ 10))).filter (Recent now) = ts.filter (Recent now) := by
  rw [List.filter_filter]
  refine List.filter_congr fun t _ => ?_
  unfold Recent
  rw [← Bool.decide_and, decide_eq_decide]
  exact ⟨fun hc => hc.1, fun hc => ⟨hc, by linarith⟩⟩

/-- **The times kept are those of the attempts, as far as they are recent.** -/
theorem timestamps_run {now : Time} : ∀ (es : List (Event × Watch)) (p : Panel) (log : List Time),
    (∀ x ∈ es, ∀ env, x.1 = .snapshot env → x.2.now ≤ now) →
    p.requestTimestamps.filter (Recent now) = log.filter (Recent now) →
    (run step p es).requestTimestamps.filter (Recent now) =
      (attemptTimes p.site log (es.map Prod.fst)).filter (Recent now)
  | [], _, _, _, h => h
  | x :: es, p, log, hnow, h => by
    rw [run_cons, List.map_cons, attemptTimes, ← step_site]
    refine timestamps_run es _ _ (fun y hy => hnow y (List.mem_cons_of_mem x hy)) ?_
    rw [step_timestamps]
    obtain ⟨e, w⟩ := x
    dsimp only
    have hpush : ∀ times, (p.requestTimestamps ++ times).filter (Recent now) = (log ++ times).filter (Recent now) :=
      fun times => by rw [List.filter_append, List.filter_append, h]
    cases e with
    | snapshot env =>
      refine (filter_recent (hnow _ List.mem_cons_self env rfl) _).trans ?_
      rw [h]
      exact congrArg (List.filter (Recent now)) (List.append_nil log).symm
    | reset stamp => rfl
    | _ => exact hpush _

/-- **The request rate shown is the rate of the attempts**: those started in the last ten seconds and since the last
reset, however the snapshots before, none of which read a later clock, pruned their times. -/
theorem rps_shown (b : Boot) (beat : ServerId → Time) (es : List (Event × Watch)) (env : Env) (w : Watch)
    (hnow : ∀ x ∈ es, ∀ env, x.1 = .snapshot env → x.2.now ≤ w.now) :
    (step (run step (init b beat) es) (.snapshot env, w)).1.2.map View.rps =
      some (((attemptTimes b.site [] (es.map Prod.fst)).countP (Recent w.now) : ℚ) / 10) := by
  have hkept := timestamps_run es (init b beat) [] hnow rfl
  have hlength : ((run step (init b beat) es).requestTimestamps.filter (Recent w.now)).length =
      (attemptTimes b.site [] (es.map Prod.fst)).countP (Recent w.now) := by
    rw [hkept, List.countP_eq_length_filter]
    rfl
  rw [← hlength]
  rfl

/-- Two attempts, of which a snapshot in between forgets the first. -/
def twoAttempts : List (Event × Watch) :=
  [(.book 1 "Ann", .calm 0), (.attempt 0 (.calm 0 idA) 0, .calm 0), (.snapshot (.calm 11 idB), .calm 11),
    (.book 2 "Bob", .calm 12), (.attempt 1 (.calm 12 idC) 0, .calm 12)]

theorem rps_shown_twoAttempts : (∀ x ∈ twoAttempts, ∀ env, x.1 = .snapshot env → x.2.now ≤ (20 : Time)) ∧
    (step (run step (init .calm fun _ => 0) twoAttempts) (.snapshot (.calm 20 idB), .calm 20)).1.2.map View.rps =
      some (((attemptTimes Boot.calm.site [] (twoAttempts.map Prod.fst)).countP (Recent 20) : ℚ) / 10) ∧
    attemptTimes Boot.calm.site [] (twoAttempts.map Prod.fst) = [0, 12] := by
  have hnow : ∀ x ∈ twoAttempts, ∀ env, x.1 = .snapshot env → x.2.now ≤ (20 : Time) := by
    intro x hx env he
    fin_cases hx <;> cases he
    decide
  exact ⟨hnow, rps_shown .calm (fun _ => 0) twoAttempts (.calm 20 idB) (.calm 20) hnow, by decide⟩

/-! ## The heartbeats -/

/-- The last heartbeats of the servers, in their order. -/
def beatTable (last : ServerId → Time) : Dict ServerId Time :=
  ⟨serverIds.map (fun id => (id, last id)), by
    rw [List.map_map]
    exact (by decide : serverIds.Nodup).map Function.injective_id⟩

theorem beatTable_get? (last : ServerId → Time) (id : ServerId) : (beatTable last).get? id = some (last id) := by
  cases id <;> rfl

theorem beatTable_set (last : ServerId → Time) (id : ServerId) (t : Time) :
    (beatTable last).set id t = beatTable (Function.update last id t) := by
  refine Dict.ext ?_
  cases id <;> simp [beatTable, Dict.set, Dict.setItems, serverIds, Function.update]

/-- The servers a step records a heartbeat of. -/
def beats (s : Site) (e : Event) (id : ServerId) : Bool :=
  decide (s.turnsOn e = some id) || ((s.measures e).isSome && (s.app.cluster.servers id).online)

theorem turnsOn_measures {s : Site} {e : Event} (h : s.turnsOn e ≠ none) : s.measures e = none := by
  cases e <;> first | rfl | exact absurd rfl h

theorem recordHeartbeat_table {m : HeartbeatMonitor ServerId} {last : ServerId → Time}
    (h : m.heartbeats = beatTable last) (id : ServerId) (t : Time) :
    (m.recordHeartbeat id none t).heartbeats = beatTable (Function.update last id t) := by
  rw [← beatTable_set, ← h]
  rfl

/-- The heartbeats of the servers listed that are on. -/
theorem foldl_table (c : Cluster) (beat : ServerId → Time) : ∀ (ids : List ServerId) (m : HeartbeatMonitor ServerId)
    (last : ServerId → Time), m.heartbeats = beatTable last →
    (ids.foldl (fun m id => if (c.servers id).online = true then m.recordHeartbeat id none (beat id) else m)
        m).heartbeats =
      beatTable (fun id => if id ∈ ids ∧ (c.servers id).online = true then beat id else last id)
  | [], m, last, h => by simpa using h
  | id :: ids, m, last, h => by
    rw [List.foldl_cons]
    by_cases hon : (c.servers id).online = true
    · rw [if_pos hon, foldl_table c beat ids _ _ (recordHeartbeat_table h id (beat id))]
      refine congrArg beatTable (funext fun j => ?_)
      by_cases hj : j = id
      · subst hj
        simp [hon]
      · simp [hj]
    · rw [if_neg hon, foldl_table c beat ids m last h]
      refine congrArg beatTable (funext fun j => ?_)
      by_cases hj : j = id
      · subst hj
        simp [hon]
      · simp [hj]

/-- **What a step makes of the heartbeats.** -/
theorem heartbeatsAfter_table {s : Site} {e : Event} {m : HeartbeatMonitor ServerId} {last : ServerId → Time}
    (h : m.heartbeats = beatTable last) (w : Watch) :
    (heartbeatsAfter s e w m).heartbeats = beatTable (fun id => if beats s e id = true then w.beat id else last id) := by
  unfold heartbeatsAfter beats
  cases ht : s.turnsOn e with
  | some id =>
    have hm : s.measures e = none := turnsOn_measures (by rw [ht]; exact Option.some_ne_none id)
    dsimp only
    rw [recordHeartbeat_table h id (w.beat id)]
    refine congrArg beatTable (funext fun j => ?_)
    by_cases hj : j = id
    · subst hj
      simp
    · simp [hm, hj, Ne.symm hj]
  | none =>
    dsimp only
    by_cases hm : (s.measures e).isSome = true
    · rw [if_pos hm]
      refine (foldl_table s.app.cluster w.beat serverIds m last h).trans (congrArg beatTable (funext fun j => ?_))
      have hj : j ∈ serverIds := by cases j <;> decide
      simp [hj, hm]
    · rw [if_neg hm, h]
      refine congrArg beatTable (funext fun j => ?_)
      simp [hm]

/-- What the monitor of a panel is like: it has a heartbeat of each server. -/
def Beating (p : Panel) (last : ServerId → Time) : Prop :=
  p.heartbeatMonitor.heartbeats = beatTable last ∧ p.heartbeatMonitor.timeout = 15

theorem foldl_timeout (c : Cluster) (beat : ServerId → Time) : ∀ (ids : List ServerId) (m : HeartbeatMonitor ServerId),
    (ids.foldl (fun m id => if (c.servers id).online = true then m.recordHeartbeat id none (beat id) else m) m).timeout =
      m.timeout
  | [], _ => rfl
  | id :: ids, m => by
    rw [List.foldl_cons, foldl_timeout c beat ids]
    split <;> rfl

theorem beating_step {p : Panel} {last : ServerId → Time} (h : Beating p last) (x : Event × Watch) :
    Beating (step p x).2 (fun id => if beats p.site x.1 id = true then x.2.beat id else last id) := by
  obtain ⟨hbeats, htimeout⟩ := step_heartbeats p x
  refine ⟨hbeats.trans (heartbeatsAfter_table h.1 x.2), htimeout.trans ?_⟩
  unfold heartbeatsAfter
  cases p.site.turnsOn x.1 with
  | some id => exact h.2
  | none =>
    dsimp only
    split
    · exact (foldl_timeout _ _ _ _).trans h.2
    · exact h.2

/-- The last heartbeats of a run. -/
def lastBeats (s : Site) (last : ServerId → Time) : List (Event × Watch) → ServerId → Time
  | [] => last
  | x :: es =>
    lastBeats (Site.step s x.1).2 (fun id => if beats s x.1 id = true then x.2.beat id else last id) es

theorem beating_run : ∀ (es : List (Event × Watch)) (p : Panel) (last : ServerId → Time), Beating p last →
    Beating (run step p es) (lastBeats p.site last es)
  | [], _, _, h => h
  | x :: es, p, last, h => by
    rw [run_cons, lastBeats, ← step_site]
    exact beating_run es _ _ (beating_step h x)

theorem beating_init (b : Boot) (beat : ServerId → Time) : Beating (init b beat) beat := by
  refine ⟨Dict.ext ?_, rfl⟩
  rfl

theorem allServerStatus_table {m : HeartbeatMonitor ServerId} {last : ServerId → Time}
    (h : m.heartbeats = beatTable last) (now : ℕ → Time) (id : ServerId) :
    (m.getAllServerStatus now).1.get? id =
      some (m.statusFromHeartbeat (some (last id)) (now (Cluster.index id + 1))) := by
  have hitems : (m.refreshServerHealthLocked (now 0)).2.heartbeats.items.zipIdx =
      [((.server1, last .server1), 0), ((.server2, last .server2), 1), ((.server3, last .server3), 2)] := by
    show m.heartbeats.items.zipIdx = _
    rw [h]
    rfl
  unfold HeartbeatMonitor.getAllServerStatus
  dsimp only
  rw [hitems]
  simp only [List.foldl_cons, List.foldl_nil, Dict.get?_set]
  cases id <;> rfl

/-- A server that is off has no heartbeat recorded, and is not turned on by another's toggle. -/
theorem beats_of_off {s : Site} {e : Event} (hoff : (s.app.cluster.servers id).online = false)
    (hstill : ∀ env, e ≠ .toggle (toString id) env) : beats s e id = false := by
  unfold beats
  rw [hoff, Bool.and_false, Bool.or_false, decide_eq_false_iff_not]
  intro ht
  cases e with
  | toggle serverId env =>
    obtain ⟨hf, -⟩ := Option.filter_eq_some_iff.1 ht
    have hfound := List.find?_some hf
    exact hstill env (by rw [of_decide_eq_true hfound])
  | _ => cases ht

theorem beats_snapshot (s : Site) (env : Env) (id : ServerId) :
    beats s (.snapshot env) id = (s.app.cluster.servers id).online := by
  simp [beats, Site.turnsOn, Site.measures]

/-- Turning a server off records no heartbeat of it. -/
theorem beats_turnedOff {s : Site} (hon : (s.app.cluster.servers id).online = true) (env : Env) :
    beats s (.toggle (toString id) env) id = false := by
  have ht : s.turnsOn (.toggle (toString id) env) ≠ some id := by
    intro ht
    obtain ⟨-, hoff⟩ := Option.filter_eq_some_iff.1 ht
    rw [hon] at hoff
    cases hoff
  have hm : s.measures (.toggle (toString id) env) = none := rfl
  simp [beats, ht, hm]

theorem online_of_off {s : Site} {e : Event} (hstill : ∀ env, e ≠ .toggle (toString id) env) :
    ((Site.step s e).2.app.cluster.servers id).online = (s.app.cluster.servers id).online := by
  rw [Site.servers_step]
  cases e with
  | toggle serverId env =>
    simp only [Site.serverAfter]
    rw [if_neg fun h => hstill env (by rw [h])]
  | snapshot env =>
    simp only [Site.serverAfter, Cluster.refreshServerMetrics]
    split <;> rfl
  | _ => rfl

theorem lastBeats_of_off : ∀ (es : List (Event × Watch)) (s : Site) (last : ServerId → Time),
    (s.app.cluster.servers id).online = false → (∀ x ∈ es, ∀ env, x.1 ≠ .toggle (toString id) env) →
    lastBeats s last es id = last id ∧ ((run Site.step s (es.map Prod.fst)).app.cluster.servers id).online = false
  | [], _, _, hoff, _ => ⟨rfl, hoff⟩
  | x :: es, s, last, hoff, hstill => by
    have hx := hstill x List.mem_cons_self
    obtain ⟨hlast, hend⟩ := lastBeats_of_off es (Site.step s x.1).2
      (fun id => if beats s x.1 id = true then x.2.beat id else last id) ((online_of_off hx).trans hoff)
      fun y hy => hstill y (List.mem_cons_of_mem x hy)
    refine ⟨?_, hend⟩
    rw [lastBeats, hlast, beats_of_off hoff hx]
    rfl

theorem lastBeats_append : ∀ (es fs : List (Event × Watch)) (s : Site) (last : ServerId → Time),
    lastBeats s last (es ++ fs) = lastBeats (run Site.step s (es.map Prod.fst)) (lastBeats s last es) fs
  | [], _, _, _ => rfl
  | x :: es, fs, s, last => by
    rw [List.cons_append, lastBeats, lastBeats_append es fs, List.map_cons, run_cons]
    rfl

/-- The last heartbeat of a server is one recorded. -/
theorem lastBeats_le {T : Time} : ∀ (es : List (Event × Watch)) (s : Site) (last : ServerId → Time), last id ≤ T →
    (∀ x ∈ es, x.2.beat id ≤ T) → lastBeats s last es id ≤ T
  | [], _, _, h, _ => h
  | x :: es, s, last, h, hes => by
    rw [lastBeats]
    refine lastBeats_le es _ _ ?_ fun y hy => hes y (List.mem_cons_of_mem x hy)
    split
    · exact hes x List.mem_cons_self
    · exact h

/-- The status of a server whose last heartbeat was at `last`, at a reading. -/
def statusAt (reading last : Time) : HeartbeatStatus :=
  ⟨decide ((reading - last) * 1000 ≤ 15 * 1000), some last, some (pyInt ((reading - last) * 1000))⟩

/-- **A server turned off keeps its last heartbeat of before**, as long as it is not toggled again. -/
theorem turnedOff_keeps (b : Boot) (beat : ServerId → Time) (pre : List (Event × Watch)) (x : Env × Watch)
    (post : List (Event × Watch)) (hon : ((run step (init b beat) pre).site.app.cluster.servers id).online = true)
    (hstill : ∀ y ∈ post, ∀ env, y.1 ≠ .toggle (toString id) env) :
    lastBeats b.site beat (pre ++ (.toggle (toString id) x.1, x.2) :: post) id = lastBeats b.site beat pre id ∧
      ((run step (init b beat) (pre ++ (.toggle (toString id) x.1, x.2) :: post)).site.app.cluster.servers id).online =
        false := by
  rw [run_site] at hon ⊢
  have hs0 : (init b beat).site = b.site := rfl
  rw [hs0] at hon ⊢
  -- the toggle turns the server off, and nothing after it touches the server
  have hoff : ((Site.step (run Site.step b.site (pre.map Prod.fst)) (.toggle (toString id) x.1)).2.app.cluster.servers
      id).online = false := by
    rw [Site.servers_step]
    simp only [Site.serverAfter, if_true, hon]
    rfl
  obtain ⟨hkept, hend⟩ := lastBeats_of_off post _ (fun j => if beats (run Site.step b.site (pre.map Prod.fst))
    (.toggle (toString id) x.1) j = true then x.2.beat j else lastBeats b.site beat pre j) hoff hstill
  refine ⟨?_, ?_⟩
  · rw [lastBeats_append, lastBeats, hkept, beats_turnedOff hon x.1]
    rfl
  · rw [List.map_append, List.map_cons, run_append, run_cons]
    exact hend

/-- **What a snapshot shows of a server's heartbeat.**  A server that is on has just had one.  One that was turned off
and not toggled since keeps the last heartbeat of before, whatever came after: it is shown down as soon as fifteen
seconds have passed since the latest reading of before. -/
theorem heartbeat_shown (b : Boot) (beat : ServerId → Time) (es : List (Event × Watch)) (env : Env) (w : Watch)
    (id : ServerId) : ∃ status,
    (step (run step (init b beat) es) (.snapshot env, w)).1.2.map (fun v => v.heartbeat.get? id) =
      some (some status) ∧
    (((run step (init b beat) es).site.app.cluster.servers id).online = true →
      status = statusAt (w.status (Cluster.index id + 1)) (w.beat id)) ∧
    ∀ pre env' w' post, es = pre ++ (.toggle (toString id) env', w') :: post →
      ((run step (init b beat) pre).site.app.cluster.servers id).online = true →
      (∀ x ∈ post, ∀ env'', x.1 ≠ .toggle (toString id) env'') →
      (run step (init b beat) pre).heartbeatMonitor.heartbeats.get? id = some (lastBeats b.site beat pre id) ∧
      status = statusAt (w.status (Cluster.index id + 1)) (lastBeats b.site beat pre id) ∧
      ∀ T, beat id ≤ T → (∀ x ∈ pre, x.2.beat id ≤ T) → T + 15 < w.status (Cluster.index id + 1) →
        status.isAlive = false := by
  have hbeating := beating_run es (init b beat) beat (beating_init b beat)
  have hafter := beating_step hbeating (.snapshot env, w)
  have hstatus : ((step (run step (init b beat) es) (.snapshot env, w)).1.2.map (fun v => v.heartbeat.get? id)) =
      some (some (statusAt (w.status (Cluster.index id + 1))
        (if ((run step (init b beat) es).site.app.cluster.servers id).online = true then w.beat id
          else lastBeats b.site beat es id))) := by
    have htable := allServerStatus_table (heartbeatsAfter_table hbeating.1 w
      (s := (run step (init b beat) es).site) (e := .snapshot env)) w.status id
    have htimeout := (step_heartbeats (run step (init b beat) es) (.snapshot env, w)).2.symm.trans hafter.2
    refine congrArg some (htable.trans ?_)
    rw [beats_snapshot]
    unfold HeartbeatMonitor.statusFromHeartbeat statusAt
    dsimp only at htimeout ⊢
    rw [htimeout]
    rfl
  refine ⟨_, hstatus, fun hon => by rw [if_pos hon], ?_⟩
  rintro pre env' w' post rfl hon hstill
  obtain ⟨hkept, hdown⟩ := turnedOff_keeps b beat pre (env', w') post hon hstill
  rw [if_neg (by rw [hdown]; exact Bool.false_ne_true), hkept]
  refine ⟨?_, rfl, fun T h0 hpre hT => decide_eq_false fun hle => ?_⟩
  · rw [(beating_run pre (init b beat) beat (beating_init b beat)).1, beatTable_get?]
    rfl
  · have hlast : lastBeats b.site beat pre id ≤ T := lastBeats_le pre b.site beat h0 hpre
    linarith

/-- A snapshot, and Server 2 turned off after it. -/
def turnedOff : List (Event × Watch) :=
  [(.snapshot (.calm 3 idA), .calm 3), (.toggle "Server 2" (.calm 4 idB), .calm 4)]

/-- It is shown down, with the heartbeat of that snapshot. -/
theorem heartbeat_shown_turnedOff : ∃ status : HeartbeatStatus,
    (step (run step (init .calm fun _ => 0) turnedOff) (.snapshot (.calm 20 idC), .calm 20)).1.2.map
      (fun v => v.heartbeat.get? .server2) = some (some status) ∧
    status = ⟨false, some 3, some 17000⟩ := by
  obtain ⟨status, hshown, -, hoff⟩ :=
    heartbeat_shown .calm (fun _ => 0) turnedOff (.calm 20 idC) (.calm 20) .server2
  obtain ⟨-, hstatus, -⟩ := hoff (turnedOff.take 1) _ _ [] rfl (by decide +kernel) nofun
  exact ⟨status, hshown, hstatus.trans (by decide +kernel)⟩

/-! ## The members of the cluster -/

/-- The event toggles the server. -/
def isToggle (id : ServerId) (x : Event × Watch) : Bool :=
  match x.1 with
  | .toggle serverId _ => decide (toString id = serverId)
  | _ => false

theorem turnsOn_iff {s : Site} (x : Event × Watch) : s.turnsOn x.1 = some id ↔
    isToggle id x = true ∧ (s.app.cluster.servers id).online = false := by
  obtain ⟨e, w⟩ := x
  cases e with
  | toggle serverId env =>
    simp only [Site.turnsOn, isToggle, decide_eq_true_eq, Option.filter_eq_some_iff, Bool.not_eq_true']
    refine and_congr_left fun _ => ?_
    rcases Site.find_serverIds serverId with ⟨id', hf, rfl⟩ | ⟨hf, hno⟩
    · rw [hf, Option.some_inj]
      exact ⟨fun h => congrArg toString h.symm, fun h => (Site.toString_injective h).symm⟩
    · rw [hf]
      exact iff_of_false (fun h => nomatch h) (hno id)
  | _ => exact iff_of_false (fun h => nomatch h) fun h => nomatch h.1

theorem online_step (s : Site) (x : Event × Watch) : ((Site.step s x.1).2.app.cluster.servers id).online =
    if isToggle id x = true then !(s.app.cluster.servers id).online else (s.app.cluster.servers id).online := by
  by_cases ht : isToggle id x = true
  · obtain ⟨e, w⟩ := x
    cases e with
    | toggle serverId env =>
      have hid := of_decide_eq_true ht
      rw [if_pos ht, Site.servers_step]
      simp only [Site.serverAfter]
      rw [if_pos hid]
    | _ => cases ht
  · rw [if_neg ht]
    refine online_of_off fun env he => ht ?_
    unfold isToggle
    rw [he]
    exact decide_eq_true rfl

/-- A server turned back on is asked to join, and no other is. -/
theorem recoveryCalls_joins (s : Site) (e : Event) (w : Watch) (id : ServerId) :
    ((∃ c ∈ recoveryCalls s e w, (c.joins id).isSome = true) ↔ s.turnsOn e = some id) ∧
      ∀ c ∈ recoveryCalls s e w, ∀ logs, c.joins id = some logs → logs 0 = true := by
  unfold recoveryCalls
  cases s.turnsOn e with
  | none => simp
  | some id' =>
    by_cases hid : id = id'
    · subst hid
      by_cases h1 : id ≠ .server1 <;> simp [h1, RecoveryCall.joins]
    · have hne : id' ≠ id := Ne.symm hid
      by_cases h1 : id' ≠ .server1 <;> simp [h1, hid, hne, RecoveryCall.joins]

/-- **How often a server was toggled** tells whether it is on and whether it is a member. -/
theorem members_run (b : Boot) (beat : ServerId → Time) (es : List (Event × Watch)) :
    (run step (init b beat) es).recoveryManager.Consistent ∧
    (((run step (init b beat) es).site.app.cluster.servers id).online = true ↔ Even (es.countP (isToggle id))) ∧
    (id ∈ (run step (init b beat) es).recoveryManager.clusterMembers ↔ 2 ≤ es.countP (isToggle id)) := by
  induction es using List.reverseRecOn with
  | nil =>
    refine ⟨RecoveryManager.consistent_starting _, iff_of_true rfl (by simp), ?_⟩
    exact iff_of_false (Finset.notMem_empty id) (by simp)
  | append_singleton es x ih =>
    obtain ⟨hconsistent, hon, hmem⟩ := ih
    rw [run_snoc, step_recovery, step_site, online_step, List.countP_append, List.countP_singleton]
    generalize run step (init b beat) es = p at *
    obtain ⟨hjoins, hquiet⟩ := recoveryCalls_joins p.site x.1 x.2 id
    obtain ⟨hlater, hmembers⟩ :=
      RecoveryManager.members_quiet (recoveryCalls p.site x.1 x.2) p.recoveryManager hconsistent hquiet
    refine ⟨hlater, ?_, ?_⟩
    · by_cases ht : isToggle id x = true
      · rw [if_pos ht, if_pos ht, Nat.even_add_one, ← hon]
        cases (p.site.app.cluster.servers id).online <;> simp
      · rw [if_neg ht, if_neg ht]
        exact hon
    · rw [hmembers, hjoins, turnsOn_iff, hmem]
      by_cases ht : isToggle id x = true
      · rw [if_pos ht]
        -- off is an odd number of toggles, so the one that turns it back on is at least the second
        cases ho : (p.site.app.cluster.servers id).online with
        | true =>
          obtain ⟨k, hk⟩ := hon.1 ho
          simp only [ht, Bool.true_eq_false, and_false, or_false]
          omega
        | false =>
          have hodd : ¬ Even (es.countP (isToggle id)) := fun he => by rw [hon.2 he] at ho; cases ho
          have hpos : es.countP (isToggle id) ≠ 0 := fun h0 => hodd (by rw [h0]; exact Even.zero)
          simp only [ht, and_self, or_true, true_iff]
          omega
      · rw [if_neg ht]
        simp [ht]

/-- `_apply_recovery_sync_update`: what the one callback does with a seat handed over. -/
def handOver (r : Replication ServerId) : RecoveryNotice ServerId Unit → Replication ServerId
  | .sync _ server seat => r.apply server seat
  | _ => r

/-- The callbacks of the application: one, for seats. -/
def OneCallback (m : RecoveryManager ServerId Unit) : Prop := m.callbacks = ([], [], [()])

theorem told_cons (m : RecoveryManager ServerId Unit) (c : RecoveryCall ServerId Unit)
    (cs : List (RecoveryCall ServerId Unit)) :
    m.told (c :: cs) = (RecoveryManager.step m c).1.notices ++ (RecoveryManager.step m c).2.told cs := rfl

section

variable {m : RecoveryManager ServerId Unit} (h : OneCallback m)
include h

theorem OneCallback.markRecovered (id : ServerId) (reason : String) (now : Time) :
    OneCallback (RecoveryManager.step m (.markRecovered id reason now (fun _ => true))).2 ∧
      (RecoveryManager.step m (.markRecovered id reason now (fun _ => true))).1.notices = [] :=
  ⟨(RecoveryManager.markRecovered_frame _ _ _).2.trans h, RecoveryManager.markRecovered_silent (by rw [h]) reason⟩

theorem OneCallback.rejoinCluster (id : ServerId) (peerIds : List ServerId) (now : Time) :
    OneCallback (RecoveryManager.step m (.rejoinCluster id peerIds now (fun _ => true))).2 ∧
      (RecoveryManager.step m (.rejoinCluster id peerIds now (fun _ => true))).1.notices = [] :=
  ⟨(RecoveryManager.rejoinCluster_callbacks _ _ _).trans h,
    RecoveryManager.rejoinCluster_silent (by rw [h]) (by rw [h]) peerIds⟩

theorem OneCallback.receiveSyncUpdates (id : ServerId) (updates : List SeatState) (now : Time) :
    OneCallback (RecoveryManager.step m (.receiveSyncUpdates id updates now (fun _ => true))).2 ∧
      (RecoveryManager.step m (.receiveSyncUpdates id updates now (fun _ => true))).1.notices =
        updates.map (RecoveryNotice.sync () id) := by
  have hsync : m.syncCallbacks = [()] := congrArg (fun c => c.2.2) h
  constructor
  · refine Eq.trans ?_ h
    simp only [RecoveryManager.step, RecoveryManager.receiveSyncUpdates_snd]
    exact RecoveryManager.ensureJoined_callbacks
  · refine (RecoveryManager.receiveSyncUpdates_silent (by rw [h]) (by rw [h]) (fun _ => rfl) updates).trans ?_
    rw [hsync]
    exact (List.map_eq_flatMap).symm

/-- **A server turned back on is handed the primary's seats**, the primary itself apart. -/
theorem told_recoveryCalls (s : Site) (e : Event) (w : Watch) :
    OneCallback (run RecoveryManager.step m (recoveryCalls s e w)) ∧
    m.told (recoveryCalls s e w) = match s.turnsOn e with
      | none => []
      | some id =>
        if id ≠ .server1 then s.app.tables.primary.listSeats.map (RecoveryNotice.sync () id) else [] := by
  unfold recoveryCalls
  cases s.turnsOn e with
  | none => exact ⟨h, rfl⟩
  | some id =>
    obtain ⟨hm1, hn1⟩ := h.markRecovered id "manual toggle" w.now
    obtain ⟨hm2, hn2⟩ := hm1.rejoinCluster id (serverIds.filter (fun peer => decide (peer ≠ id))) w.now
    obtain ⟨hm3, hn3⟩ := hm2.receiveSyncUpdates id s.app.tables.primary.listSeats w.now
    dsimp only
    rw [List.cons_append, List.cons_append, List.nil_append, run_cons, run_cons, told_cons, told_cons, hn1, hn2]
    by_cases h1 : id ≠ .server1
    · rw [if_pos h1, if_pos h1, run_cons, told_cons, hn3]
      exact ⟨hm3, List.append_nil _⟩
    · rw [if_neg h1, if_neg h1]
      exact ⟨hm2, rfl⟩

end

theorem oneCallback_run (b : Boot) (beat : ServerId → Time) (es : List (Event × Watch)) :
    OneCallback (run step (init b beat) es).recoveryManager :=
  invariant (P := fun p : Panel => OneCallback p.recoveryManager) (show OneCallback (.starting ([], [], [()])) from rfl)
    (fun p x h => by rw [step_recovery]; exact (told_recoveryCalls h p.site x.1 x.2).1) es

theorem foldl_handOver (id : ServerId) : ∀ (seats : List SeatState) (r : Replication ServerId),
    (seats.map (RecoveryNotice.sync () id)).foldl handOver r = r.receiveSyncUpdates id seats
  | [], _ => rfl
  | seat :: seats, r => foldl_handOver id seats (r.apply id seat)

/-- **A toggle changes the replicas by what the recovery manager hands over.** -/
theorem toggle_replication (s : Site) (serverId : String) (env : Env) :
    (Site.step s (.toggle serverId env)).2.app.tables.replication = match s.turnsOn (.toggle serverId env) with
      | none => s.app.tables.replication
      | some id =>
        if id ≠ .server1 then s.app.tables.replication.receiveSyncUpdates id s.app.tables.primary.listSeats
        else s.app.tables.replication := by
  simp only [Site.step, Site.turnsOn, App.toggleServer]
  rcases Site.find_serverIds serverId with ⟨id, hf, -⟩ | ⟨hf, -⟩
  · rw [hf]
    have honline : ((s.app.cluster.toggle id (env.time 0)).servers id).online =
        !(s.app.cluster.servers id).online := by
      simp only [Cluster.toggle, Function.update_self]
    dsimp only
    rw [honline]
    cases ho : (s.app.cluster.servers id).online with
    | true =>
      rw [Option.filter_some_neg (by simp [ho])]
      rfl
    | false =>
      rw [Option.filter_some_pos (by simp [ho])]
      by_cases h1 : id = .server1
      · rw [if_neg fun hc => hc.2 h1]
        simp [h1]
      · rw [if_pos ⟨rfl, h1⟩]
        simp [h1, Tables.pushRecovery]
  · rw [hf]
    rfl

/-- **The members shown** are the servers toggled at least twice, in order, a server being on after an even number of
toggles; and a toggle changes the replicas exactly by the seats the recovery manager hands over in it. -/
theorem members_shown (b : Boot) (beat : ServerId → Time) (es : List (Event × Watch)) :
    (∀ id, ((run step (init b beat) es).site.app.cluster.servers id).online = true ↔
      Even (es.countP (isToggle id))) ∧
    (∀ env w v, (step (run step (init b beat) es) (.snapshot env, w)).1.2 = some v →
      v.clusterMembers.Pairwise (· < ·) ∧ ∀ id, id ∈ v.clusterMembers ↔ 2 ≤ es.countP (isToggle id)) ∧
    ∀ serverId env w,
      (step (run step (init b beat) es) (.toggle serverId env, w)).2.site.app.tables.replication =
        (step (run step (init b beat) es) (.toggle serverId env, w)).1.1.foldl handOver
          (run step (init b beat) es).site.app.tables.replication := by
  refine ⟨fun id => (members_run b beat es).2.1, fun env w v hv => ?_, fun serverId env w => ?_⟩
  · obtain rfl := Option.some.inj hv
    refine ⟨(Finset.sortedLT_sort _).pairwise, fun id => ?_⟩
    rw [← (members_run b beat es).2.2]
    exact Finset.mem_sort _
  · rw [step_site, step_told, toggle_replication, (told_recoveryCalls (oneCallback_run b beat es) _ _ w).2]
    cases (run step (init b beat) es).site.turnsOn (.toggle serverId env) with
    | none => rfl
    | some id =>
      dsimp only
      by_cases h1 : id ≠ .server1
      · rw [if_pos h1, if_pos h1, foldl_handOver]
      · rw [if_neg h1, if_neg h1]
        rfl

/-! ## The last route -/

/-- The route is there once a booking succeeded, and a call returned the booking it was taken by. -/
def RouteOf (route : Option LastRoute) (s : Site) : Prop :=
  (route.isSome = true ↔ 0 < s.app.successCount) ∧
    ∀ r, route = some r → ∃ (k : ℕ) (c : BookCall) (i : ℤ), s.calls[k]? = some c ∧
      c.response = some (.booked i r.selectedServer r.routingKey)

/-- **The attempt that books takes a route**, and counts a success. -/
theorem routed_cases (s : Site) {e : Event} (hr : ∀ stamp, e ≠ .reset stamp) :
    (s.routed e = none ∧ (Site.step s e).2.app.successCount = s.app.successCount) ∨
    ∃ (r : LastRoute) (k : ℕ) (c : BookCall) (i : ℤ), s.routed e = some r ∧
      (Site.step s e).2.app.successCount = s.app.successCount + 1 ∧ (Site.step s e).2.calls[k]? = some c ∧
      c.response = some (.booked i r.selectedServer r.routingKey) := by
  have hcount := Site.success_step s hr
  have hp : ∀ c : BookCall, c.response = none → Site.hasBooked c = false := by
    intro c hc
    unfold Site.hasBooked
    rw [hc]
  rw [Site.countP_step hp] at hcount
  have hidle : s.routed e = none → (Site.step s e).2.app.successCount + s.calls.countP Site.hasBooked =
      s.app.successCount + s.calls.countP Site.hasBooked →
      s.routed e = none ∧ (Site.step s e).2.app.successCount = s.app.successCount :=
    fun hnone hsame => ⟨hnone, Nat.add_right_cancel hsame⟩
  cases e with
  | attempt call env draw =>
    cases hc : s.running call with
    | none =>
      refine Or.inl (hidle ?_ ?_)
      · simp only [Site.routed, Site.step, hc, Option.bind_none]
      · simpa only [hc, Option.map_none, Option.getD_none, add_zero] using hcount
    | some c =>
      have hcalls := Site.Attempts.calls (s := s) (k := call) (c := c) (e := .attempt call env draw) ⟨rfl, hc⟩
      have hroute : s.routed (.attempt call env draw) =
          (Site.settle c (s.attempted env c).1 draw).response.bind (LastRoute.of s.app.cluster.strategyName) := by
        simp only [Site.routed, Site.step, hc]
        rfl
      simp only [hc, Option.map_some, Option.getD_some] at hcount
      by_cases hb : Site.hasBooked (Site.settle c (s.attempted env c).1 draw) = true
      · obtain ⟨id, hthrough⟩ := Site.hasBooked_iff.1 hb
        obtain ⟨i, key, hres⟩ := Site.bookedThrough_iff.1 hthrough
        rw [if_pos hb] at hcount
        refine Or.inr ⟨⟨s.app.cluster.strategyName, id, key⟩, call, _, i, ?_, by omega, hcalls, hres⟩
        rw [hroute, hres]
        rfl
      · rw [if_neg hb] at hcount
        refine Or.inl (hidle ?_ (by omega))
        rw [hroute]
        cases hres : (Site.settle c (s.attempted env c).1 draw).response with
        | none => rfl
        | some r =>
          cases r with
          | booked i id key =>
            exact absurd (Site.hasBooked_iff.2 ⟨id, Site.bookedThrough_iff.2 ⟨i, key, hres⟩⟩) hb
          | _ => rfl
  | reset stamp => exact absurd rfl (hr stamp)
  | _ => exact Or.inl (hidle rfl (by simpa using hcount))

theorem route_step {p : Panel} (h : RouteOf p.lastRoute p.site) (x : Event × Watch) :
    RouteOf (step p x).2.lastRoute (step p x).2.site := by
  rw [step_route, step_site]
  obtain ⟨e, w⟩ := x
  dsimp only
  have hkeep : (∀ stamp, e ≠ .reset stamp) → RouteOf ((p.site.routed e).or p.lastRoute) (Site.step p.site e).2 := by
    intro hr
    rcases routed_cases p.site hr with ⟨hnone, hsame⟩ | ⟨r, k, c, i, hsome, hmore, hk, hres⟩
    · rw [hnone, Option.none_or]
      refine ⟨by rw [hsame]; exact h.1, fun r hroute => ?_⟩
      obtain ⟨k, c, i, hk, hres⟩ := h.2 r hroute
      exact ⟨k, c, i, Site.answered_run hk hres [e], hres⟩
    · rw [hsome, Option.some_or]
      refine ⟨iff_of_true rfl (by omega), fun r' hr' => ?_⟩
      obtain rfl := Option.some.inj hr'
      exact ⟨k, c, i, hk, hres⟩
  cases e with
  | reset stamp => exact ⟨iff_of_false Bool.false_ne_true (Nat.lt_irrefl 0), fun r hr => nomatch hr⟩
  | _ => exact hkeep fun stamp => nofun

theorem route_run (b : Boot) (beat : ServerId → Time) (es : List (Event × Watch)) :
    RouteOf (run step (init b beat) es).lastRoute (run step (init b beat) es).site := by
  have h0 : RouteOf (init b beat).lastRoute (init b beat).site :=
    ⟨iff_of_false Bool.false_ne_true (Nat.lt_irrefl 0), fun r hr => nomatch hr⟩
  exact invariant (P := fun p : Panel => RouteOf p.lastRoute p.site) h0 (fun p x h => route_step h x) es

/-- **A last route is shown exactly when bookings have succeeded since the last reset**, and it is one that a call
returned. -/
theorem route_shown (b : Boot) (beat : ServerId → Time) (es : List (Event × Watch)) (env : Env) (w : Watch) :
    ∃ v, (step (run step (init b beat) es) (.snapshot env, w)).1.2 = some v ∧
      (v.lastRoute.isSome = true ↔ 0 < (run step (init b beat) es).site.app.successCount) ∧
      ∀ r, v.lastRoute = some r → ∃ c ∈ (run step (init b beat) es).site.calls,
        ∃ i, c.response = some (.booked i r.selectedServer r.routingKey) := by
  have hroute := route_run b beat es
  refine ⟨_, rfl, hroute.1, fun r hr => ?_⟩
  obtain ⟨k, c, i, hk, hres⟩ := hroute.2 r hr
  exact ⟨c, List.mem_of_getElem? hk, i, hres⟩

end Panel
end Ticket
