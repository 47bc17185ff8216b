import TicketBooking.Attempts
/-!
# Circuits — what the site does to its breakers (`dashboard.py`)

A server's breaker is asked for its state and its failure rate when the servers are measured, and told an outcome by an
attempt that was offered the server; nothing else uses it.  `breakerUses` lists what a step asks and tells, and
`breakers_step` says that the breaker of a step is what these leave.  So circuits move by bookings alone: one that is
not closed was last told a failure (`not_closed_run`).
-/
namespace Ticket

open Runs

/-! ## Uses of a breaker -/

/-- What is asked of a breaker or told to it, with the readings it takes. -/
inductive BreakerUse where
  /-- its state, by `get_state` or `allow_request` -/
  | ask (now : Time)
  /-- its failure percentage -/
  | rate (now : Time)
  | success (now : ℕ → Time)
  | failure (now : ℕ → Time)

/-- A question, about the state at one of the readings. -/
def BreakerUse.AsksAt (rs : List Time) : BreakerUse → Prop
  | .ask now => now ∈ rs
  | .rate _ => True
  | _ => False

namespace Breaker

def use (b : Breaker) : BreakerUse → Breaker
  | .ask now => (b.getState now).2
  | .rate now => (b.failurePercentage now).2
  | .success now => b.recordSuccess now
  | .failure now => b.recordFailure now

/-- The state a breaker is in, overdue or not. -/
abbrev circuit (b : Breaker) : CircuitState := b.cb.state

def uses (b : Breaker) (us : List BreakerUse) : Breaker := us.foldl use b

theorem uses_append (b : Breaker) (us vs : List BreakerUse) : b.uses (us ++ vs) = (b.uses us).uses vs :=
  List.foldl_append

theorem use_config (b : Breaker) (u : BreakerUse) : (b.use u).cb.config = b.cb.config := by
  cases u with
  | ask now => exact CircuitBreaker.readState_config b.cb now
  | rate now => rfl
  | success now => exact CircuitBreaker.recordSuccess_config b.cb (now 1)
  | failure now =>
    have hcb := CircuitBreaker.recordFailure_config b.cb (now 1) (now 2)
    unfold use recordFailure
    dsimp only
    split
    · exact (CircuitBreaker.transition_config _ _ _).trans hcb
    · exact hcb

theorem uses_config (b : Breaker) : ∀ us : List BreakerUse, (b.uses us).cb.config = b.cb.config
  | [] => rfl
  | u :: us => (uses_config (b.use u) us).trans (b.use_config u)

/-- A question leaves `OPEN` or stays. -/
theorem ask_cases (b : Breaker) (now : Time) :
    (b.use (.ask now)).cb = b.cb ∨ (b.circuit = .opened ∧ b.cb.recoveryTimeout ≤ now - b.cb.lastFailureTime ∧
      (b.use (.ask now)).circuit = .halfOpen) := by
  by_cases ho : b.circuit = .opened
  · have hread := CircuitBreaker.readState_of_opened ho now
    by_cases hr : b.cb.recoveryTimeout ≤ now - b.cb.lastFailureTime
    · rw [if_pos hr] at hread
      refine Or.inr ⟨ho, hr, ?_⟩
      exact (congrArg CircuitBreaker.state hread).trans (CircuitBreaker.transition_state _ _ _)
    · rw [if_neg hr] at hread
      exact Or.inl hread
  · exact Or.inl (CircuitBreaker.readState_of_not_opened ho now)

/-- Questions do not open a closed circuit. -/
theorem closed_of_asked {rs : List Time} : ∀ (us : List BreakerUse) (b : Breaker), b.circuit = .closed →
    (∀ u ∈ us, u.AsksAt rs) → (b.uses us).circuit = .closed
  | [], _, hb, _ => hb
  | u :: us, b, hb, hus => by
    refine closed_of_asked us (b.use u) ?_ fun v hv => hus v (List.mem_cons_of_mem _ hv)
    have hu := hus u List.mem_cons_self
    cases u with
    | ask now =>
      rcases b.ask_cases now with hcb | ⟨ho, -, -⟩
      · exact (congrArg CircuitBreaker.state hcb).trans hb
      · rw [hb] at ho
        cases ho
    | rate now => exact hb
    | success now => cases hu
    | failure now => cases hu

/-- **A failure told** leaves the circuit open, or closed if it was; an open one is dated by one of its readings. -/
theorem failure_cases (b : Breaker) (now : ℕ → Time) :
    ((b.use (.failure now)).circuit = .opened ∨ (b.use (.failure now)).circuit = .closed) ∧
      ∃ k, 1 ≤ k ∧ k ≤ 4 ∧ (b.use (.failure now)).cb.lastFailureTime = now k := by
  have hstate := CircuitBreaker.recordFailure_state b.cb (now 1) (now 2)
  have htime : ∃ k, 1 ≤ k ∧ k ≤ 4 ∧ (b.cb.recordFailure (now 1) (now 2)).lastFailureTime = now k := by
    unfold CircuitBreaker.recordFailure
    split
    · exact ⟨2, by omega, by omega, rfl⟩
    · dsimp only
      split
      · exact ⟨2, by omega, by omega, rfl⟩
      · exact ⟨1, by omega, by omega, rfl⟩
  unfold use recordFailure
  dsimp only
  split
  · exact ⟨Or.inl (CircuitBreaker.transition_state _ _ _), 4, by omega, by omega, rfl⟩
  · refine ⟨?_, htime⟩
    dsimp only [circuit]
    rw [hstate]
    split
    · exact Or.inr rfl
    · exact Or.inl rfl

/-- A success told a circuit that is not open closes it where one success will do. -/
theorem success_closes {b : Breaker} (h : b.circuit ≠ .opened) (hone : b.cb.halfOpenSuccesses = 1) (now : ℕ → Time) :
    (b.use (.success now)).circuit = .closed := by
  by_cases hh : b.circuit = .halfOpen
  · have hs := CircuitBreaker.recordSuccess_of_halfOpen hh (now 1)
    have hle : b.cb.halfOpenSuccesses ≤ (b.cb.halfOpenSuccessCount + 1 : ℕ) := by omega
    rw [if_pos hle] at hs
    exact (congrArg CircuitBreaker.state hs).trans (CircuitBreaker.transition_state _ _ _)
  · have hs := CircuitBreaker.recordSuccess_of_ne hh (now 1)
    have hc : b.circuit = .closed := by
      cases hc : b.cb.state with
      | closed => exact hc
      | opened => exact absurd hc h
      | halfOpen => exact absurd hc hh
    exact (congrArg CircuitBreaker.state hs).trans hc

end Breaker

namespace App

instance (a : App) (i : ℤ) : Decidable (a.tables.Bookable i) :=
  decidable_of_iff ((a.tables.seats.get? i).any (fun seat =>
    decide (seat.state ≠ .reserved ∧ seat.state ≠ .locked)) = true) <| by
      unfold Tables.Bookable
      simp [Option.any_eq_true]

/-- The metrics an attempt is routed by. -/
def measured (a : App) (env : Env) : List (ServerMetrics ServerId) × Cluster :=
  a.cluster.currentMetrics (fun n => env.time (2 + n))

/-- What a measurement asks: an offline server's state is not asked for. -/
def measureUses (server : Server) (now later : Time) : List BreakerUse :=
  (if server.online = true then [.ask now] else []) ++ [.rate later]

/-- What an attempt that was offered the server tells its breaker. -/
def outcomeUses (env : Env) : Except BookingError Response → List BreakerUse
  | .ok _ => [.success (fun n => env.time (19 + n)), .ask (env.time 24)]
  | .error _ => [.failure (fun n => env.time (19 + n))]

/-- What an attempt asks and tells the breaker of `id`, its sweep done. -/
def attemptUses (a : App) (env : Env) (i : ℤ) (requester : String) (id : ServerId) : List BreakerUse :=
  if a.tables.Bookable i then
    measureUses (a.cluster.servers id) (env.time (2 + 2 * Cluster.index id)) (env.time (2 + (2 * Cluster.index id + 1))) ++
      if a.offers env i = some id then outcomeUses env (a.bookSwept env i requester).1 else []
  else []

end App

theorem Cluster.currentMetrics_breakers (c : Cluster) (now : ℕ → Time) (id : ServerId) :
    (c.currentMetrics now).2.breakers id = (c.breakers id).uses
      (App.measureUses (c.servers id) (now (2 * index id)) (now (2 * index id + 1))) := by
  cases hon : (c.servers id).online <;> simp only [currentMetrics, metric, App.measureUses, hon] <;> rfl

namespace App

variable {a : App} {env : Env} {i : ℤ} {requester : String} {server : ServerId}

/-- **The end of an attempt at a server that admits it**: the outcome is told to the server's breaker, and a booking is
counted by the server. -/
theorem callBreaker_cluster (h : a.cluster.Admits server) (env : Env) (i : ℤ) (requester : String) :
    (a.callBreaker env i requester server).2.cluster =
      { a.cluster with
        breakers := Function.update a.cluster.breakers server ((a.cluster.breakers server).uses
          (outcomeUses env ((a.callBreaker env i requester server).1.map (fun _ => .booked i server ""))))
        servers := Function.update a.cluster.servers server { a.cluster.servers server with
          requests := (a.cluster.servers server).requests + counted (a.callBreaker env i requester server).1 } } := by
  have hon : ¬ (a.cluster.servers server).online = false := by rw [h.online]; decide
  have hasked := Breaker.allowRequest_of_not_opened h.shut (env.time 10)
  have hcluster : (a.reserveOnServer env i requester server).2.cluster = a.cluster := by
    unfold reserveOnServer
    rw [if_neg hon]
    split <;> rfl
  have hself : { a.cluster.servers server with requests := (a.cluster.servers server).requests + (0 : ℕ) } =
      a.cluster.servers server := by simp
  simp only [callBreaker, hasked, if_true, Cluster.setBreaker_self]
  cases hres : (a.reserveOnServer env i requester server).1 with
  | error e =>
    simp only [hcluster, Cluster.setBreaker, Except.map, outcomeUses, counted, hself, Function.update_eq_self]
    rfl
  | ok u =>
    simp only [hcluster, Cluster.setBreaker, Except.map, outcomeUses, counted]
    rfl

/-- The cluster once load balancing has offered a server, or found none. -/
def balanced (a : App) (env : Env) (i : ℤ) : App :=
  { a with cluster := (a.cluster.offer env.md5 s!"seat-{i}" (fun n => env.time (2 + n))).2.2 }

theorem bookSwept_offered (h : a.tables.Bookable i) (env : Env) (requester : String) : a.bookSwept env i requester =
    match a.offers env i with
    | none => (.error (.nonRetryable "No online server is available"), a.balanced env i)
    | some server =>
      (((a.balanced env i).callBreaker env i requester server).1.map (fun _ => .booked i server s!"seat-{i}"),
        ((a.balanced env i).callBreaker env i requester server).2) := by
  obtain ⟨seat, hs, hr, hl⟩ := h
  have hrouted := Cluster.route_of_offer a.cluster env.md5 s!"seat-{i}" (fun n => env.time (2 + n))
  simp only [bookSwept, hs, if_neg hr, if_neg hl, hrouted, offers, balanced]
  cases (a.cluster.offer env.md5 s!"seat-{i}" (fun n => env.time (2 + n))).1 <;> rfl

theorem balanced_breakers (a : App) (env : Env) (i : ℤ) (id : ServerId) :
    (a.balanced env i).cluster.breakers id = (a.cluster.breakers id).uses (measureUses (a.cluster.servers id)
      (env.time (2 + 2 * Cluster.index id)) (env.time (2 + (2 * Cluster.index id + 1)))) :=
  Cluster.currentMetrics_breakers a.cluster (fun n => env.time (2 + n)) id

theorem admits_of_offers (h : a.offers env i = some server) : (a.balanced env i).cluster.Admits server :=
  Cluster.admits_of_offer h

/-- **What an attempt asks and tells a breaker.** -/
theorem bookSwept_breakers (a : App) (env : Env) (i : ℤ) (requester : String) (id : ServerId) :
    (a.bookSwept env i requester).2.cluster.breakers id =
      (a.cluster.breakers id).uses (a.attemptUses env i requester id) := by
  unfold attemptUses
  by_cases hb : a.tables.Bookable i
  · have hmeasured := a.balanced_breakers env i id
    rw [if_pos hb, Breaker.uses_append, ← hmeasured, bookSwept_offered hb]
    cases ho : a.offers env i with
    | none => rfl
    | some server =>
      have hcall := callBreaker_cluster (admits_of_offers ho) env i requester
      simp only [hcall, Option.some.injEq]
      by_cases hid : server = id
      · subst hid
        rw [if_pos rfl, Function.update_self]
        cases ((a.balanced env i).callBreaker env i requester server).1 <;> rfl
      · rw [if_neg hid, Function.update_of_ne (Ne.symm hid)]
        rfl
  · obtain ⟨m, hbook⟩ := bookSwept_unbookable hb env requester
    rw [if_neg hb, hbook]
    rfl

/-- **What an attempt does to the servers**: it counts a booking at the one it was offered. -/
theorem bookSwept_servers (a : App) (env : Env) (i : ℤ) (requester : String) (id : ServerId) :
    (a.bookSwept env i requester).2.cluster.servers id =
      { a.cluster.servers id with
        requests := (a.cluster.servers id).requests +
          if a.tables.Bookable i ∧ a.offers env i = some id then counted (a.bookSwept env i requester).1 else 0 } := by
  by_cases hb : a.tables.Bookable i
  · rw [bookSwept_offered hb]
    cases ho : a.offers env i with
    | none => simp [balanced, Cluster.offer, Cluster.currentMetrics]
    | some server =>
      have hcall := callBreaker_cluster (admits_of_offers ho) env i requester
      have hservers : (a.balanced env i).cluster.servers = a.cluster.servers := rfl
      simp only [hcall, hservers, Option.some.injEq]
      by_cases hid : server = id
      · subst hid
        rw [if_pos ⟨hb, rfl⟩, Function.update_self]
        cases ((a.balanced env i).callBreaker env i requester server).1 <;> simp [counted, Except.map]
      · rw [if_neg fun h => hid h.2, Function.update_of_ne (Ne.symm hid)]
        simp
  · obtain ⟨m, hbook⟩ := bookSwept_unbookable hb env requester
    rw [if_neg fun h => hb h.1, hbook]
    simp

theorem bookSwept_failover (a : App) (env : Env) (i : ℤ) (requester : String) :
    (a.bookSwept env i requester).2.cluster.failover = a.cluster.failover := by
  by_cases hb : a.tables.Bookable i
  · rw [bookSwept_offered hb]
    cases ho : a.offers env i with
    | none => rfl
    | some server =>
      simp only [callBreaker_cluster (admits_of_offers ho) env i requester]
      rfl
  · obtain ⟨m, hbook⟩ := bookSwept_unbookable hb env requester
    rw [hbook]

end App

namespace Site

/-- **What a step asks and tells the breaker of `id`.** -/
def breakerUses (s : Site) (e : Event) (id : ServerId) : List BreakerUse :=
  match e with
  | .attempt call env _ =>
    ((s.running call).map (fun c => (s.swept env).attemptUses env c.seatId c.requester id)).getD []
  | .snapshot env =>
    App.measureUses (s.app.cluster.servers id) (env.time (1 + 2 * Cluster.index id))
        (env.time (1 + (2 * Cluster.index id + 1))) ++
      [.ask (env.time (7 + 2 * Cluster.index id)), .rate (env.time (7 + (2 * Cluster.index id + 1)))]
  | _ => []

theorem toggle_breakers (a : App) (env : Env) (serverId : String) :
    (a.toggleServer env serverId).cluster.breakers = a.cluster.breakers := by
  unfold App.toggleServer
  split
  · rfl
  · dsimp only
    split <;> rfl

theorem count_cluster (a : App) (r : Response) : (a.count r).cluster = a.cluster := by
  unfold App.count
  split <;> rfl

/-- **The breakers of a step are what its uses leave.** -/
theorem breakers_step (s : Site) (e : Event) (id : ServerId) :
    (step s e).2.app.cluster.breakers id = (s.app.cluster.breakers id).uses (s.breakerUses e id) := by
  cases e with
  | attempt call env draw =>
    simp only [breakerUses]
    cases hc : s.running call with
    | none => simp only [step, hc]; rfl
    | some c =>
      simp only [step, hc]
      exact (s.swept env).bookSwept_breakers env c.seatId c.requester id
  | snapshot env =>
    have hmetrics := Cluster.currentMetrics_breakers (s.app.cluster.refreshServerMetrics env.randint)
      (fun n => env.time (1 + n)) id
    have honline : App.measureUses ((s.app.cluster.refreshServerMetrics env.randint).servers id) =
        App.measureUses (s.app.cluster.servers id) := by
      unfold App.measureUses Cluster.refreshServerMetrics
      dsimp only
      split <;> simp_all
    rw [honline] at hmetrics
    simp only [step, App.snapshot, breakerUses, Cluster.observe, Breaker.uses_append]
    rw [hmetrics]
    rfl
  | confirm seatId env => exact congrArg (fun c => c.breakers id) (count_cluster _ _)
  | cancel seatId => exact congrArg (fun c => c.breakers id) (count_cluster _ _)
  | renew seatId env => exact congrArg (fun c => c.breakers id) (count_cluster _ _)
  | toggle serverId env => exact congrFun (toggle_breakers s.app env serverId) id
  | _ => rfl

/-! ## Circuits along a run -/

/-- The circuit of a server's breaker. -/
abbrev circuit (s : Site) (id : ServerId) : CircuitState := (s.app.cluster.breakers id).circuit

/-- What an attempt that is offered the server comes to: whether it books. -/
def outcomeOn (s : Site) (e : Event) (id : ServerId) : Option Bool :=
  match e with
  | .attempt call env _ => (s.running call).bind (fun c =>
    if (s.swept env).tables.Bookable c.seatId ∧ (s.swept env).offers env c.seatId = some id then
      some (match (s.attempted env c).1 with
        | .ok _ => true
        | .error _ => false)
    else none)
  | _ => none

/-- The outcomes of the attempts of a run that were offered the server, in order. -/
def outcomesOn (id : ServerId) (s : Site) : List Event → List Bool
  | [] => []
  | e :: es => (s.outcomeOn e id).toList ++ outcomesOn id (step s e).2 es

theorem outcomesOn_snoc (id : ServerId) (e : Event) : ∀ (es : List Event) (s : Site),
    outcomesOn id s (es ++ [e]) = outcomesOn id s es ++ ((run step s es).outcomeOn e id).toList
  | [], s => by simp [outcomesOn]
  | e' :: es, s => by
    rw [List.cons_append, outcomesOn, outcomesOn, outcomesOn_snoc id e es, run_cons, List.append_assoc]

/-- The measurement of a server found online. -/
def measuring (env : Env) (id : ServerId) : List BreakerUse :=
  [.ask (env.time (2 + 2 * Cluster.index id)), .rate (env.time (2 + (2 * Cluster.index id + 1)))]

theorem mem_readings (env : Env) {k : ℕ} (hk : k < Env.span) : env.time k ∈ env.readings :=
  List.mem_map_of_mem (List.mem_range.2 hk)

theorem measureUses_asksAt (env : Env) (server : Server) {k : ℕ} (hk : k < Env.span) (later : Time) :
    ∀ u ∈ App.measureUses server (env.time k) later, u.AsksAt env.readings := by
  intro u hu
  unfold App.measureUses at hu
  rcases List.mem_append.1 hu with hu | hu
  · split at hu
    · rw [List.mem_singleton.1 hu]
      exact mem_readings env hk
    · cases hu
  · rw [List.mem_singleton.1 hu]
    trivial

/-- **A step only asks about a server, or tells the outcome of an attempt that was offered it**, when it has just found
it online and its circuit not open. -/
theorem uses_of_outcome (s : Site) (e : Event) (id : ServerId) :
    (s.outcomeOn e id = none ∧ ∀ u ∈ s.breakerUses e id, u.AsksAt e.readings) ∨
    ∃ env r, e.readings = env.readings ∧
      s.outcomeOn e id = some (match r with
        | .ok _ => true
        | .error _ => false) ∧
      s.breakerUses e id = measuring env id ++ App.outcomeUses env r ∧
      ((s.app.cluster.breakers id).uses (measuring env id)).circuit ≠ .opened := by
  have hindex : Cluster.index id < 3 := by cases id <;> decide
  cases e with
  | attempt call env draw =>
    simp only [outcomeOn, breakerUses]
    cases hc : s.running call with
    | none => exact Or.inl ⟨rfl, fun u hu => by cases hu⟩
    | some c =>
      simp only [Option.bind_some, Option.map_some, Option.getD_some, App.attemptUses]
      by_cases hb : (s.swept env).tables.Bookable c.seatId
      · rw [if_pos hb]
        by_cases ho : (s.swept env).offers env c.seatId = some id
        · obtain ⟨hon, hshut, -⟩ := App.admits_of_offers ho
          have hmeasuring : App.measureUses ((s.swept env).cluster.servers id) (env.time (2 + 2 * Cluster.index id))
              (env.time (2 + (2 * Cluster.index id + 1))) = measuring env id := by
            have hon' : ((s.swept env).cluster.servers id).online = true := hon
            unfold App.measureUses measuring
            rw [if_pos hon']
            rfl
          rw [App.balanced_breakers, hmeasuring] at hshut
          rw [if_pos ⟨hb, ho⟩, if_pos ho, hmeasuring]
          exact Or.inr ⟨env, (s.attempted env c).1, rfl, rfl, rfl, hshut⟩
        · rw [if_neg fun h => ho h.2, if_neg ho, List.append_nil]
          exact Or.inl ⟨rfl, measureUses_asksAt env _ (by unfold Env.span; omega) _⟩
      · rw [if_neg fun h => hb h.1, if_neg hb]
        exact Or.inl ⟨rfl, fun u hu => by cases hu⟩
  | snapshot env =>
    refine Or.inl ⟨rfl, fun u hu => ?_⟩
    rcases List.mem_append.1 hu with hu | hu
    · exact measureUses_asksAt env _ (by unfold Env.span; omega) _ u hu
    · rcases List.mem_cons.1 hu with rfl | hu
      · exact mem_readings env (by unfold Env.span; omega)
      · rw [List.mem_singleton.1 hu]
        trivial
  | _ => exact Or.inl ⟨rfl, fun u hu => by cases hu⟩

/-- Nothing writes the parameters of the breakers. -/
theorem config_run (b : Boot) (id : ServerId) (es : List Event) :
    ((run step b.site es).app.cluster.breakers id).cb.config = (3, 8, 1) := by
  refine invariant (P := fun s : Site => (s.app.cluster.breakers id).cb.config = (3, 8, 1)) rfl (fun s e h => ?_) es
  rw [breakers_step, Breaker.uses_config]
  exact h

/-- **What a step leaves of a circuit**: an attempt that was offered the server and books closes it, and a step without
an outcome does not open it. -/
theorem closed_step {s : Site} (e : Event) {id : ServerId}
    (hconfig : (s.app.cluster.breakers id).cb.config = (3, 8, 1)) :
    (s.outcomeOn e id = some true → (step s e).2.circuit id = .closed) ∧
      (s.outcomeOn e id = none → s.circuit id = .closed → (step s e).2.circuit id = .closed) := by
  unfold circuit
  rw [breakers_step]
  rcases s.uses_of_outcome e id with ⟨hnone, hasks⟩ | ⟨env, r, -, hsome, huses, hshut⟩
  · rw [hnone]
    exact ⟨nofun, fun _ hc => Breaker.closed_of_asked _ _ hc hasks⟩
  · rw [hsome]
    refine ⟨fun hbooked => ?_, nofun⟩
    cases r with
    | error m => cases hbooked
    | ok resp =>
      have hone : ((s.app.cluster.breakers id).uses (measuring env id)).cb.halfOpenSuccesses = 1 :=
        congrArg (fun c => c.2.2) ((Breaker.uses_config _ (measuring env id)).trans hconfig)
      have hclosed := Breaker.success_closes hshut hone (fun n => env.time (19 + n))
      have hasks : ∀ u ∈ [BreakerUse.ask (env.time 24)], u.AsksAt [env.time 24] := by
        intro u hu
        rw [List.mem_singleton.1 hu]
        exact List.mem_singleton_self _
      have hafter := Breaker.closed_of_asked _ _ hclosed hasks
      rw [huses, Breaker.uses_append]
      exact hafter

/-- **A circuit that is not closed was last told a failure**: after every run, the latest attempt offered the server
failed; and no other step moves a closed circuit. -/
theorem not_closed_run (b : Boot) (id : ServerId) (es : List Event) :
    ((run step b.site es).circuit id ≠ .closed → (outcomesOn id b.site es).getLast? = some false) ∧
    ∀ pre e post, es = pre ++ e :: post → (run step b.site pre).circuit id = .closed →
      (run step b.site (pre ++ [e])).circuit id ≠ .closed → (run step b.site pre).outcomeOn e id = some false := by
  constructor
  · intro h
    induction es using List.reverseRecOn with
    | nil => exact absurd rfl h
    | append_singleton es e ih =>
      obtain ⟨hbooked, hkept⟩ := closed_step e (config_run b id es)
      rw [outcomesOn_snoc]
      rw [run_snoc] at h
      cases hout : (run step b.site es).outcomeOn e id with
      | none =>
        rw [Option.toList_none, List.append_nil]
        exact ih fun hc => h (hkept hout hc)
      | some outcome =>
        cases outcome with
        | false => simp
        | true => exact absurd (hbooked hout) h
  · rintro pre e post - hc h
    obtain ⟨hbooked, hkept⟩ := closed_step e (config_run b id pre)
    rw [run_snoc] at h
    cases hout : (run step b.site pre).outcomeOn e id with
    | none => exact absurd (hkept hout hc) h
    | some outcome =>
      cases outcome with
      | false => rfl
      | true => exact absurd (hbooked hout) h

/-- An attempt at seat 1 at the instant 0, to which a failure is injected. -/
def failedAttempt : Event := .attempt 0 { Env.calm 0 idA with random := 0 } 0

/-- One failure in the window is enough: it is all of its requests. -/
theorem not_closed_run_failedAttempt :
    (outcomesOn .server1 Boot.calm.site [.book 1 "Ann", failedAttempt]).getLast? = some false :=
  (not_closed_run Boot.calm .server1 [.book 1 "Ann", failedAttempt]).1 (by decide +kernel)

end Site
end Ticket
