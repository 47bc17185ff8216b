import TicketBooking.Ownership
import TicketBooking.Quarantine
/-!
# Servers — what a run makes of the servers (`dashboard.py`)

An attempt counts a booking at the server it went through, a toggle turns a server off or on, and a snapshot redraws the
figures of the servers that are on (`serverAfter`).  So a server's `requests` are the bookings answered through it
(`requests_booked`), its figures stay in the ranges they are clamped to (`measures_bounded`), and the failover manager,
which is told nothing but the toggles, never marks a server unhealthy (`failover_idle`).
-/
namespace Ticket

open Runs Balancer

/-! ## Rounding -/

theorem pyRound_le {x : ℚ} {n : ℤ} (h : x ≤ n) : pyRound x ≤ n := by
  have hfloor : x.floor ≤ n := Int.cast_le.1 ((Int.floor_le x).trans h)
  -- above a half, the number is not whole, so its floor is below `n`
  have hup : 0 < x - x.floor → x.floor + 1 ≤ n := by
    intro hpos
    have hlt : ((x.floor : ℤ) : ℚ) < n := by linarith
    exact Int.add_one_le_of_lt (Int.cast_lt.1 hlt)
  unfold pyRound
  split
  · exact hfloor
  · split
    · exact hup (by linarith)
    · split
      · exact hfloor
      · exact hup (by linarith)

theorem le_pyRound {x : ℚ} {n : ℤ} (h : n ≤ x) : n ≤ pyRound x := by
  have hfloor : n ≤ x.floor := Int.le_floor.2 h
  unfold pyRound
  split
  · exact hfloor
  · split
    · omega
    · split <;> omega

theorem FailureTracker.percentage_mem (s f : ℕ) :
    0 ≤ FailureTracker.percentage s f ∧ FailureTracker.percentage s f ≤ 100 := by
  unfold FailureTracker.percentage
  split
  · norm_num
  · rename_i hne
    have hpos : (0 : ℚ) < ((s + f : ℕ) : ℚ) := Nat.cast_pos.2 (Nat.pos_of_ne_zero hne)
    have hle : (f : ℚ) / ((s + f : ℕ) : ℚ) ≤ 1 := (div_le_one hpos).2 (Nat.cast_le.2 (Nat.le_add_left f s))
    have h0 : 0 ≤ (f : ℚ) / ((s + f : ℕ) : ℚ) := div_nonneg (Nat.cast_nonneg f) hpos.le
    constructor <;> linarith

/-- The first figures are drawn in the ranges `__init__` gives `randint`. -/
def Boot.Drawn (b : Boot) : Prop := ∀ id, (15 ≤ b.cpu id ∧ b.cpu id ≤ 55) ∧ (0 ≤ b.connections id ∧ b.connections id ≤ 6) ∧
  45 ≤ b.responseTime id ∧ b.responseTime id ≤ 180

namespace Site

variable {s : Site} {e : Event} {id : ServerId}

/-! ## A server after a step -/

/-- The bookings of an attempt, by what it came to on a server. -/
def bookings : Option Bool → ℕ
  | some true => 1
  | _ => 0

/-- **What a step makes of a server.** -/
def serverAfter (s : Site) (e : Event) (id : ServerId) : Server :=
  let server := s.app.cluster.servers id
  match e with
  | .attempt _ _ _ => { server with requests := server.requests + bookings (s.outcomeOn e id) }
  | .toggle serverId _ => if toString id = serverId then { server with online := !server.online } else server
  | .snapshot env => (s.app.cluster.refreshServerMetrics env.randint).servers id
  | _ => server

theorem toString_injective {id id' : ServerId} (h : toString id = toString id') : id = id' := by
  cases id <;> cases id' <;> first | rfl | exact absurd h (by decide)

/-- The server a name means, if any. -/
theorem find_serverIds (serverId : String) :
    (∃ id, serverIds.find? (fun x => decide (toString x = serverId)) = some id ∧ toString id = serverId) ∨
    (serverIds.find? (fun x => decide (toString x = serverId)) = none ∧ ∀ id : ServerId, toString id ≠ serverId) := by
  cases hf : serverIds.find? (fun x => decide (toString x = serverId)) with
  | some id =>
    have hid := List.find?_some hf
    exact Or.inl ⟨id, rfl, of_decide_eq_true hid⟩
  | none =>
    refine Or.inr ⟨rfl, fun id hid => ?_⟩
    have hmem : id ∈ serverIds := by cases id <;> decide
    exact absurd (decide_eq_true hid) (List.find?_eq_none.1 hf id hmem)

theorem toggle_cluster (a : App) (env : Env) (serverId : String) :
    (∃ id, toString id = serverId ∧ (a.toggleServer env serverId).cluster = a.cluster.toggle id (env.time 0)) ∨
    ((∀ id : ServerId, toString id ≠ serverId) ∧ a.toggleServer env serverId = a) := by
  unfold App.toggleServer
  rcases find_serverIds serverId with ⟨id, hf, hid⟩ | ⟨hf, hno⟩
  · refine Or.inl ⟨id, hid, ?_⟩
    rw [hf]
    dsimp only
    split <;> rfl
  · refine Or.inr ⟨hno, ?_⟩
    rw [hf]

theorem servers_step (s : Site) (e : Event) (id : ServerId) :
    (step s e).2.app.cluster.servers id = s.serverAfter e id := by
  cases e with
  | attempt call env draw =>
    simp only [serverAfter, outcomeOn]
    cases hc : s.running call with
    | none => simp [step, hc, bookings]
    | some c =>
      have hservers := (s.swept env).bookSwept_servers env c.seatId c.requester id
      simp only [step, hc, App.bookLocked]
      refine hservers.trans ?_
      simp only [Option.bind_some, attempted]
      by_cases ho : (s.swept env).tables.Bookable c.seatId ∧ (s.swept env).offers env c.seatId = some id
      · rw [if_pos ho, if_pos ho]
        cases ((s.swept env).bookSwept env c.seatId c.requester).1 <;> rfl
      · rw [if_neg ho, if_neg ho]
        rfl
  | toggle serverId env =>
    simp only [step, serverAfter]
    rcases toggle_cluster s.app env serverId with ⟨id', rfl, hc⟩ | ⟨hno, hc⟩
    · rw [hc]
      by_cases hid : id = id'
      · subst hid
        simp only [Cluster.toggle, Function.update_self, if_true]
      · rw [if_neg fun h => hid (toString_injective h)]
        exact Function.update_of_ne hid _ _
    · rw [hc, if_neg (hno id)]
  | snapshot env => rfl
  | confirm seatId env => exact congrArg (fun c => c.servers id) (count_cluster _ _)
  | cancel seatId => exact congrArg (fun c => c.servers id) (count_cluster _ _)
  | renew seatId env => exact congrArg (fun c => c.servers id) (count_cluster _ _)
  | _ => rfl

/-! ## The failover manager -/

/-- The manager has counted the one update of the server's last toggle, or of its first heartbeat. -/
def Counted (c : Cluster) (id : ServerId) : Prop :=
  ∃ seen reason, c.failover.states.get? id =
    some ⟨true, seen, if (c.servers id).online = true then 0 else 1, if (c.servers id).online = true then 1 else 0, reason⟩

/-- **One update the other way changes nobody's health**: the threshold is two. -/
theorem update_counted (online : Bool) (seen now : Time) (reason reason' : String) :
    ∃ reason'', (⟨true, seen, if online = true then 0 else 1, if online = true then 1 else 0, reason⟩ :
        ServerFailoverState).update 2 2 (!online) now reason' =
      (none, ⟨true, now, if (!online) = true then 0 else 1, if (!online) = true then 1 else 0, reason''⟩) := by
  cases online <;> simp [ServerFailoverState.update]

theorem getState_counted {f : FailoverManager ServerId} (h : (f.states.get? id).isSome = true) :
    (f.getState id).2 = f := by
  obtain ⟨state, hs⟩ := Option.isSome_iff_exists.1 h
  simp only [FailoverManager.getState, hs]

/-- **A step tells the failover manager of a toggle and of nothing else.** -/
theorem counted_step (h : ∀ id, Counted s.app.cluster id) (ht : s.app.cluster.failover.healthyThreshold = 2 ∧
    s.app.cluster.failover.unhealthyThreshold = 2) (e : Event) :
    (∀ id, Counted (step s e).2.app.cluster id) ∧ (step s e).2.app.cluster.failover.healthyThreshold = 2 ∧
      (step s e).2.app.cluster.failover.unhealthyThreshold = 2 := by
  have hsame : (step s e).2.app.cluster.failover = s.app.cluster.failover →
      (∀ id, (s.serverAfter e id).online = (s.app.cluster.servers id).online) →
      (∀ id, Counted (step s e).2.app.cluster id) ∧ (step s e).2.app.cluster.failover.healthyThreshold = 2 ∧
        (step s e).2.app.cluster.failover.unhealthyThreshold = 2 := by
    intro hf hon
    refine ⟨fun id => ?_, hf ▸ ht⟩
    unfold Counted
    rw [hf, servers_step, hon]
    exact h id
  cases e with
  | attempt call env draw =>
    refine hsame ?_ fun id => rfl
    cases hc : s.running call with
    | none => simp only [step, hc]
    | some c =>
      simp only [step, hc]
      exact (s.swept env).bookSwept_failover env c.seatId c.requester
  | toggle serverId env =>
    simp only [step]
    rcases toggle_cluster s.app env serverId with ⟨id', rfl, hc⟩ | ⟨-, hc⟩
    · rw [hc]
      refine ⟨fun id => ?_, ht⟩
      obtain ⟨seen, reason, hget⟩ := h id'
      have hupdate := fun r => update_counted (s.app.cluster.servers id').online seen (env.time 0) reason r
      unfold Counted
      simp only [Cluster.toggle, FailoverManager.updateHealth, hget, Option.getD_some, ht.1, ht.2]
      by_cases hid : id = id'
      · subst hid
        obtain ⟨reason'', hu⟩ :=
          hupdate (if (!(s.app.cluster.servers id).online) = true then "manual recovery" else "manual offline")
        rw [Dict.get?_set_self, hu]
        exact ⟨env.time 0, reason'', by simp only [Function.update_self]⟩
      · rw [Dict.get?_set_of_ne _ _ hid, Function.update_of_ne hid]
        exact h id
    · rw [hc]
      exact ⟨h, ht⟩
  | snapshot env =>
    have hsome : ∀ id, (s.app.cluster.failover.states.get? id).isSome = true := by
      intro id
      obtain ⟨seen, reason, hget⟩ := h id
      rw [hget]
      rfl
    refine hsame ?_ fun id => ?_
    · simp only [step, App.snapshot, Cluster.observe, serverIds, List.foldl_cons, List.foldl_nil]
      have hf : ((s.app.cluster.refreshServerMetrics env.randint).currentMetrics (fun n => env.time (1 + n))).2.failover =
          s.app.cluster.failover := rfl
      rw [hf, getState_counted (hsome _), getState_counted (hsome _), getState_counted (hsome _)]
    · simp only [serverAfter, Cluster.refreshServerMetrics]
      split <;> rfl
  | confirm seatId env => exact hsame (congrArg Cluster.failover (count_cluster _ _)) fun id => rfl
  | cancel seatId => exact hsame (congrArg Cluster.failover (count_cluster _ _)) fun id => rfl
  | renew seatId env => exact hsame (congrArg Cluster.failover (count_cluster _ _)) fun id => rfl
  | _ => exact hsame rfl fun id => rfl

theorem counted_init (b : Boot) : (∀ id, Counted b.site.app.cluster id) ∧
    b.site.app.cluster.failover.healthyThreshold = 2 ∧ b.site.app.cluster.failover.unhealthyThreshold = 2 := by
  refine ⟨fun id => ⟨b.seen id, "initial heartbeat", ?_⟩, rfl, rfl⟩
  cases id <;> rfl

theorem counted_run (b : Boot) (es : List Event) : (∀ id, Counted (run step b.site es).app.cluster id) ∧
    (run step b.site es).app.cluster.failover.healthyThreshold = 2 ∧
      (run step b.site es).app.cluster.failover.unhealthyThreshold = 2 :=
  invariant (P := fun s : Site => (∀ id, Counted s.app.cluster id) ∧ s.app.cluster.failover.healthyThreshold = 2 ∧
    s.app.cluster.failover.unhealthyThreshold = 2) (counted_init b) (fun _ e h => counted_step h.1 h.2 e) es

/-- **The failover manager never acts.**  In every run each server is healthy, with the one update of its last toggle
counted; the update of its next toggle runs no callback; and failover would choose the first server measured online. -/
theorem failover_idle (b : Boot) (es : List Event) :
    (∀ id, Counted (run step b.site es).app.cluster id) ∧
    (∀ id now reason, ((run step b.site es).app.cluster.failover.updateHealth id
      (!((run step b.site es).app.cluster.servers id).online) now reason).1 = none) ∧
    ∀ metrics : List (ServerMetrics ServerId),
      (run step b.site es).app.cluster.failover.getHealthyServers metrics =
          (online metrics).map ServerMetrics.serverId ∧
        (run step b.site es).app.cluster.failover.chooseFailoverTarget metrics =
          ((online metrics).map ServerMetrics.serverId).head? := by
  obtain ⟨hcounted, hh, hu⟩ := counted_run b es
  generalize run step b.site es = s at *
  have hhealthy : ∀ metrics : List (ServerMetrics ServerId),
      s.app.cluster.failover.getHealthyServers metrics = (online metrics).map ServerMetrics.serverId := by
    intro metrics
    unfold FailoverManager.getHealthyServers online
    refine congrArg (List.map ServerMetrics.serverId) (List.filter_congr fun m _ => ?_)
    obtain ⟨seen, reason, hget⟩ := hcounted m.serverId
    rw [hget, Option.map_some, Option.getD_some, Bool.and_true]
  refine ⟨hcounted, fun id now reason => ?_, fun metrics => ⟨hhealthy metrics, ?_⟩⟩
  · obtain ⟨seen, reason', hget⟩ := hcounted id
    obtain ⟨reason'', hupdate⟩ := update_counted (s.app.cluster.servers id).online seen now reason' reason
    simp only [FailoverManager.updateHealth, hget, Option.getD_some, hh, hu, hupdate]
  · unfold FailoverManager.chooseFailoverTarget
    rw [hhealthy]

/-! ## The bookings of a server -/

/-- The call returned a booking through the server. -/
def bookedThrough (id : ServerId) (c : BookCall) : Bool :=
  match c.response with
  | some (.booked _ server _) => decide (server = id)
  | _ => false

/-- The call returned a booking. -/
def hasBooked (c : BookCall) : Bool :=
  match c.response with
  | some (.booked _ _ _) => true
  | _ => false

/-- An attempt succeeds with the booking, through the server it was offered. -/
theorem attempted_ok {env : Env} {c : BookCall} {r : Response} (h : (s.attempted env c).1 = .ok r) :
    ∃ server key, r = .booked c.seatId server key ∧ (s.swept env).tables.Bookable c.seatId ∧
      (s.swept env).offers env c.seatId = some server := by
  unfold attempted at h
  by_cases hb : (s.swept env).tables.Bookable c.seatId
  · rw [App.bookSwept_offered hb] at h
    cases ho : (s.swept env).offers env c.seatId with
    | none =>
      rw [ho] at h
      cases h
    | some server =>
      rw [ho] at h
      dsimp only at h
      cases hcall : (((s.swept env).balanced env c.seatId).callBreaker env c.seatId c.requester server).1 with
      | error m =>
        rw [hcall] at h
        cases h
      | ok u =>
        rw [hcall] at h
        exact ⟨server, _, (Except.ok.inj h).symm, hb, rfl⟩
  · obtain ⟨m, hbook⟩ := App.bookSwept_unbookable hb env c.requester
    rw [hbook] at h
    cases h

theorem bookedThrough_iff {c : BookCall} :
    bookedThrough id c = true ↔ ∃ i key, c.response = some (.booked i id key) := by
  unfold bookedThrough
  split
  · rename_i i server key hr
    rw [decide_eq_true_iff, hr]
    exact ⟨fun h => ⟨i, key, by rw [h]⟩, fun ⟨_, _, h⟩ => by cases h; rfl⟩
  · rename_i hno
    exact ⟨fun h => (nomatch h), fun ⟨i, key, h⟩ => absurd h (hno i id key)⟩

theorem hasBooked_iff {c : BookCall} : hasBooked c = true ↔ ∃ id, bookedThrough id c = true := by
  simp only [bookedThrough_iff]
  unfold hasBooked
  split
  · rename_i i server key hr
    exact ⟨fun _ => ⟨server, i, key, hr⟩, fun _ => rfl⟩
  · rename_i hno
    exact ⟨fun h => (nomatch h), fun ⟨id, i, key, h⟩ => absurd h (hno i id key)⟩

/-- **A call is counted among the booked ones by the attempt that books.** -/
theorem countP_step {p : BookCall → Bool} (hp : ∀ c, c.response = none → p c = false) (s : Site) (e : Event) :
    (step s e).2.calls.countP p = s.calls.countP p +
      match e with
      | .attempt call env draw =>
        ((s.running call).map (fun c => if p (settle c (s.attempted env c).1 draw) = true then 1 else 0)).getD 0
      | _ => 0 := by
  cases e with
  | book seatId requester =>
    have hnew := hp ⟨seatId, requester, 0, none⟩ rfl
    simp only [step, List.countP_append, List.countP_singleton, hnew, Bool.false_eq_true, if_false]
  | attempt call env draw =>
    cases hc : s.running call with
    | none => simp only [step, hc, Option.map_none, Option.getD_none, add_zero]
    | some c =>
      obtain ⟨hget, hnone⟩ := running_some hc
      obtain ⟨hlt, helem⟩ := List.getElem?_eq_some_iff.1 hget
      have hold : p (s.calls[call]) = false := by
        rw [helem]
        exact hp c hnone
      simp only [step, hc, Option.map_some, Option.getD_some]
      rw [List.countP_set hlt, hold]
      rfl
  | _ => rfl

/-- **The attempt that books counts at the server and in the call alike.** -/
theorem bookings_settle {c : BookCall} {call : ℕ} (hc : s.running call = some c) (env : Env) (draw : ℚ)
    (id : ServerId) :
    (if bookedThrough id (settle c (s.attempted env c).1 draw) = true then 1 else 0) =
      bookings (s.outcomeOn (.attempt call env draw) id) := by
  simp only [outcomeOn, hc, Option.bind_some]
  cases ho : (s.attempted env c).1 with
  | ok r =>
    obtain ⟨server, key, rfl, hb, hoff⟩ := attempted_ok ho
    simp only [hb, hoff, Option.some.injEq, true_and, settle, bookedThrough, decide_eq_true_eq]
    by_cases hid : server = id
    · rw [if_pos hid, if_pos hid]
      rfl
    · rw [if_neg hid, if_neg hid]
      rfl
  | error m =>
    have hnot : ¬ bookedThrough id (settle c (.error m) draw) = true := by
      rw [bookedThrough_iff]
      rintro ⟨i, key, hr⟩
      cases settle_booked (running_some hc).2 hr
    rw [if_neg hnot]
    by_cases hoff : (s.swept env).tables.Bookable c.seatId ∧ (s.swept env).offers env c.seatId = some id
    · rw [if_pos hoff]
      rfl
    · rw [if_neg hoff]
      rfl

theorem counted_settle {c : BookCall} {call : ℕ} (hc : s.running call = some c) (env : Env) (draw : ℚ) :
    (if hasBooked (settle c (s.attempted env c).1 draw) = true then 1 else 0) =
      App.counted (s.attempted env c).1 := by
  cases ho : (s.attempted env c).1 with
  | ok r =>
    obtain ⟨server, key, rfl, -⟩ := attempted_ok ho
    rfl
  | error m =>
    have hnot : ¬ hasBooked (settle c (.error m) draw) = true := by
      rw [hasBooked_iff]
      rintro ⟨id, hb⟩
      obtain ⟨i, key, hr⟩ := bookedThrough_iff.1 hb
      cases settle_booked (running_some hc).2 hr
    rw [if_neg hnot]
    rfl

theorem requests_step (s : Site) (e : Event) (id : ServerId) :
    ((step s e).2.app.cluster.servers id).requests - (step s e).2.calls.countP (bookedThrough id) =
      (s.app.cluster.servers id).requests - s.calls.countP (bookedThrough id) := by
  have hp : ∀ c : BookCall, c.response = none → bookedThrough id c = false := by
    intro c hc
    unfold bookedThrough
    rw [hc]
  rw [servers_step, countP_step hp]
  cases e with
  | attempt call env draw =>
    cases hc : s.running call with
    | none =>
      have hnone : s.outcomeOn (.attempt call env draw) id = none := by simp only [outcomeOn, hc, Option.bind_none]
      simp only [hc, serverAfter, hnone, bookings, Option.map_none, Option.getD_none, Nat.cast_zero, add_zero]
    | some c =>
      have hsettle := bookings_settle hc env draw id
      simp only [hc, serverAfter, Option.map_some, Option.getD_some, ← hsettle, Nat.cast_add]
      ring
  | toggle serverId env =>
    simp only [serverAfter]
    split <;> rfl
  | snapshot env =>
    simp only [serverAfter, Cluster.refreshServerMetrics]
    split <;> rfl
  | _ => rfl

theorem success_step (s : Site) {e : Event} (hr : ∀ stamp, e ≠ .reset stamp) :
    (step s e).2.app.successCount + s.calls.countP hasBooked =
      s.app.successCount + (step s e).2.calls.countP hasBooked := by
  have hp : ∀ c : BookCall, c.response = none → hasBooked c = false := by
    intro c hc
    unfold hasBooked
    rw [hc]
  have hcount : ∀ (a : App) (r : Response), (a.count r).successCount = a.successCount := by
    intro a r
    unfold App.count
    split <;> rfl
  rw [countP_step hp]
  cases e with
  | attempt call env draw =>
    cases hc : s.running call with
    | none => simp only [step, hc, Option.map_none, Option.getD_none, add_zero]
    | some c =>
      have hsettle := counted_settle hc env draw
      obtain ⟨hs, -⟩ := (s.swept env).bookSwept_counts env c.seatId c.requester
      have happ : (step s (.attempt call env draw)).2.app = (s.attempted env c).2 := Attempts.app ⟨rfl, hc⟩
      have hold : (s.swept env).successCount = s.app.successCount := rfl
      simp only [hc, happ, Option.map_some, Option.getD_some, hsettle]
      unfold attempted
      rw [hs, hold]
      omega
  | confirm seatId env => exact congrArg (· + s.calls.countP hasBooked) (hcount _ _)
  | cancel seatId => exact congrArg (· + s.calls.countP hasBooked) (hcount _ _)
  | renew seatId env => exact congrArg (· + s.calls.countP hasBooked) (hcount _ _)
  | toggle serverId env =>
    have htoggle : (s.app.toggleServer env serverId).successCount = s.app.successCount := by
      unfold App.toggleServer
      split
      · rfl
      · dsimp only
        split <;> rfl
    exact congrArg (· + s.calls.countP hasBooked) htoggle
  | reset stamp => exact absurd rfl (hr stamp)
  | _ => rfl

theorem requests_run (b : Boot) (es : List Event) (id : ServerId) :
    ((run step b.site es).app.cluster.servers id).requests =
      ((run step b.site es).calls.countP (bookedThrough id) : ℤ) := by
  have hsame : ((run step b.site es).app.cluster.servers id).requests -
      (run step b.site es).calls.countP (bookedThrough id) = 0 :=
    invariant (P := fun s : Site => (s.app.cluster.servers id).requests - s.calls.countP (bookedThrough id) = 0) rfl
      (fun s e h => (requests_step s e id).trans h) es
  exact sub_eq_zero.1 hsame

/-- **Every booking is accounted for.**  A server's `requests` are the calls that returned a booking through it, and
between two resets `success_count` grows by the calls that return a booking. -/
theorem requests_booked (b : Boot) (es : List Event) :
    (∀ id, ((run step b.site es).app.cluster.servers id).requests =
      ((run step b.site es).calls.countP (bookedThrough id) : ℤ)) ∧
    ∀ pre post, es = pre ++ post → (∀ stamp, .reset stamp ∉ post) →
      (run step b.site es).app.successCount + (run step b.site pre).calls.countP hasBooked =
        (run step b.site pre).app.successCount + (run step b.site es).calls.countP hasBooked := by
  refine ⟨requests_run b es, ?_⟩
  rintro pre post rfl hr
  have hpost : Along step (fun _ e => ∀ stamp, e ≠ .reset stamp) (run step b.site pre) post :=
    along_of_mem fun e he _ stamp hst => hr stamp (hst ▸ he)
  rw [run_append]
  refine invariant_along (P := fun s : Site => s.app.successCount + (run step b.site pre).calls.countP hasBooked =
    (run step b.site pre).app.successCount + s.calls.countP hasBooked) rfl (fun s e h hne => ?_) post hpost
  have hstep := success_step s hne
  omega

/-! ## The figures of a server -/

/-- The figures of a server are in the ranges they are clamped to. -/
structure Ranged (server : Server) : Prop where
  cpu : 5 ≤ server.cpu ∧ server.cpu ≤ 95
  connections : 0 ≤ server.connections ∧ server.connections ≤ 30
  responseTime : 25 ≤ server.responseTime ∧ server.responseTime ≤ 700

theorem clamp_mem {lo hi : ℤ} (h : lo ≤ hi) (x : ℤ) : lo ≤ Cluster.clamp lo hi x ∧ Cluster.clamp lo hi x ≤ hi := by
  unfold Cluster.clamp
  omega

theorem ranged_step (h : ∀ id, Ranged (s.app.cluster.servers id)) (e : Event) (id : ServerId) :
    Ranged ((step s e).2.app.cluster.servers id) := by
  rw [servers_step]
  obtain ⟨hcpu, hconnections, hresponse⟩ := h id
  cases e with
  | attempt call env draw => exact ⟨hcpu, hconnections, hresponse⟩
  | toggle serverId env =>
    simp only [serverAfter]
    split <;> exact ⟨hcpu, hconnections, hresponse⟩
  | snapshot env =>
    simp only [serverAfter, Cluster.refreshServerMetrics]
    split
    · exact ⟨clamp_mem (by decide) _, clamp_mem (by decide) _, clamp_mem (by decide) _⟩
    · exact ⟨hcpu, hconnections, hresponse⟩
  | _ => exact ⟨hcpu, hconnections, hresponse⟩

theorem ranged_run (b : Boot) (hb : b.Drawn) (es : List Event) (id : ServerId) :
    Ranged ((run step b.site es).app.cluster.servers id) := by
  refine invariant (P := fun s : Site => ∀ id, Ranged (s.app.cluster.servers id)) (fun id => ?_)
    (fun s e h => ranged_step h e) es id
  obtain ⟨hcpu, hconnections, hresponse⟩ := hb id
  refine ⟨?_, ?_, ?_⟩
  · show 5 ≤ b.cpu id ∧ b.cpu id ≤ 95
    omega
  · show 0 ≤ b.connections id ∧ b.connections id ≤ 30
    omega
  · show 25 ≤ b.responseTime id ∧ b.responseTime id ≤ 700
    omega

/-- **Metrics a strategy may be given**: the figures in their ranges, the error rate a share. -/
structure WellFormed (m : ServerMetrics ServerId) : Prop where
  cpu : 5 ≤ m.cpuUsage ∧ m.cpuUsage ≤ 95
  connections : 0 ≤ m.activeConnections ∧ m.activeConnections ≤ 30
  responseTime : 25 ≤ m.responseTime ∧ m.responseTime ≤ 700
  errorRate : 0 ≤ m.errorRate ∧ m.errorRate ≤ 1

theorem metric_wellFormed {server : Server} (h : Ranged server) (id : ServerId) (b : Breaker) (now later : Time) :
    WellFormed (Cluster.metric id server b now later).1 := by
  obtain ⟨⟨hc1, hc2⟩, hconnections, hr1, hr2⟩ := h
  refine ⟨⟨?_, ?_⟩, hconnections, ⟨?_, ?_⟩, ?_⟩
  · exact (Int.cast_le.2 hc1).trans' (by norm_num)
  · exact (Int.cast_le.2 hc2).trans (by norm_num)
  · exact (Int.cast_le.2 hr1).trans' (by norm_num)
  · exact (Int.cast_le.2 hr2).trans (by norm_num)
  · unfold Cluster.metric
    dsimp only
    generalize (if server.online = true then b.getState now else (.opened, b)).2 = b'
    obtain ⟨hp0, hp100⟩ :=
      FailureTracker.percentage_mem (b'.tracker.getCounts later).1.1 (b'.tracker.getCounts later).1.2
    have hfp : (b'.failurePercentage later).1 =
        FailureTracker.percentage (b'.tracker.getCounts later).1.1 (b'.tracker.getCounts later).1.2 := rfl
    rw [hfp]
    have h0 : 0 ≤ pyRound (FailureTracker.percentage (b'.tracker.getCounts later).1.1
        (b'.tracker.getCounts later).1.2 / 100 * 1000) := le_pyRound (by push_cast; linarith)
    have h1 : pyRound (FailureTracker.percentage (b'.tracker.getCounts later).1.1
        (b'.tracker.getCounts later).1.2 / 100 * 1000) ≤ 1000 := pyRound_le (by push_cast; linarith)
    constructor
    · exact div_nonneg (by exact_mod_cast h0) (by norm_num)
    · rw [div_le_one (by norm_num)]
      exact_mod_cast h1

/-- **Whatever is measured is well formed**: one entry for each server in their order, its figures in their ranges, its
error rate between 0 and 1, and its request count the bookings answered through it. -/
theorem measures_bounded (b : Boot) (hb : b.Drawn) (es : List Event) (e : Event)
    (metrics : List (ServerMetrics ServerId)) (asked : ServerId → Time)
    (hm : (run step b.site es).measures e = some (metrics, asked)) :
    metrics.map ServerMetrics.serverId = serverIds ∧ ∀ m ∈ metrics, WellFormed m ∧
      m.requestCount = ((run step b.site es).calls.countP (bookedThrough m.serverId) : ℤ) := by
  have hranged := ranged_run b hb es
  have hrequests := requests_run b es
  generalize run step b.site es = s at *
  have hcurrent : ∀ (c : Cluster) (now : ℕ → Time), (∀ id, Ranged (c.servers id)) →
      (∀ id, (c.servers id).requests = (s.calls.countP (bookedThrough id) : ℤ)) →
      (c.currentMetrics now).1.map ServerMetrics.serverId = serverIds ∧ ∀ m ∈ (c.currentMetrics now).1,
        WellFormed m ∧ m.requestCount = (s.calls.countP (bookedThrough m.serverId) : ℤ) := by
    intro c now hr hq
    refine ⟨rfl, fun m hm => ?_⟩
    obtain ⟨id, -, rfl⟩ := List.mem_map.1 hm
    exact ⟨metric_wellFormed (hr id) id _ _ _, hq id⟩
  cases e with
  | attempt call env draw =>
    obtain ⟨c, -, hif⟩ := Option.bind_eq_some_iff.1 hm
    split at hif
    · obtain ⟨rfl, -⟩ := Prod.mk.inj (Option.some.inj hif)
      exact hcurrent s.app.cluster _ hranged hrequests
    · cases hif
  | snapshot env =>
    obtain ⟨rfl, -⟩ := Prod.mk.inj (Option.some.inj hm)
    refine hcurrent _ _ (fun id => ?_) fun id => ?_
    · exact ranged_step hranged (.snapshot env) id
    · rw [← hrequests id]
      simp only [Cluster.refreshServerMetrics]
      split <;> rfl
  | _ => cases hm

/-- What a snapshot measures after the booking of `oneLock`. -/
theorem measures_bounded_snapshot : ∃ metrics asked,
    (run step Boot.calm.site oneLock).measures (.snapshot (.calm 1 idB)) = some (metrics, asked) ∧
      (∀ m ∈ metrics, WellFormed m) ∧ metrics.map ServerMetrics.requestCount = [1, 0, 0] := by
  obtain ⟨⟨metrics, asked⟩, hm⟩ := Option.isSome_iff_exists.1
    (show ((run step Boot.calm.site oneLock).measures (.snapshot (.calm 1 idB))).isSome = true from rfl)
  obtain ⟨hids, hformed⟩ :=
    measures_bounded Boot.calm (fun id => by cases id <;> decide) oneLock (.snapshot (.calm 1 idB)) metrics asked hm
  refine ⟨metrics, asked, hm, fun m hmem => (hformed m hmem).1, ?_⟩
  have hcounts : metrics.map ServerMetrics.requestCount = (metrics.map ServerMetrics.serverId).map
      (fun id => ((run step Boot.calm.site oneLock).calls.countP (bookedThrough id) : ℤ)) := by
    rw [List.map_map]
    exact List.map_congr_left fun m hmem => (hformed m hmem).2
  rw [hcounts, hids]
  decide +kernel

end Site
end Ticket
