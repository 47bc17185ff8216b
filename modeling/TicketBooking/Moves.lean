import TicketBooking.App
/-!
# Moves — what happens to the tables

Whatever happens at the site, the tables change by the methods that write them: a booking attempt sweeps and, if the
routing, the breakers and the draws let it, takes a lock; every other operation is one method or none.  `moves` lists
the methods a step runs on the tables, `tables_step` and `tables_run` say that the tables of a step, and of a run, are
those of its moves, so what is proved of the moves holds of the application.
-/
namespace Ticket

open Runs

/-- A method that writes the tables, with what it draws from outside. -/
inductive Move where
  | sweep (now : Time)
  | lock (seatId : ℤ) (requester : String) (server : ServerId) (uuid : Uuid) (now later stamp : Time)
      (starts : ℕ → Bool)
  | confirm (seatId : ℤ) (now stamp : Time) (starts : ℕ → Bool)
  | cancel (seatId : ℤ)
  | renew (seatId : ℤ) (now later last : Time)
  | reset (stamp : ServerId → ℕ → Time)
  | deliver (timer : ℕ)
  | push (server : ServerId)

namespace Tables

def step (t : Tables) (v : Move) : Unit × Tables :=
  ((), match v with
    | .sweep now => (t.expireLeasesLocked now).2
    | .lock seatId requester server uuid now later stamp starts =>
      (t.lockSeat seatId requester server uuid now later stamp starts).2
    | .confirm seatId now stamp starts => (t.confirmSeat seatId now stamp starts).2
    | .cancel seatId => (t.cancelLock seatId).2
    | .renew seatId now later last => (t.renewLease seatId now later last).2
    | .reset stamp => t.reset stamp
    | .deliver timer => t.deliver timer
    | .push server => t.pushRecovery server)

/-- The seat is there and may be booked. -/
def Bookable (t : Tables) (seatId : ℤ) : Prop :=
  ∃ seat, t.seats.get? seatId = some seat ∧ seat.state ≠ .reserved ∧ seat.state ≠ .locked

/-- A lock is only tried on a seat that may be booked, and only a peer is pushed to. -/
def Allowed (t : Tables) (v : Move) : Prop :=
  match v with
  | .lock seatId _ _ _ _ _ _ _ => t.Bookable seatId
  | .push server => server ≠ .server1
  | _ => True

end Tables

namespace App

/-- The server through which an attempt gets as far as taking the lease, its sweep done. -/
def reaches (a : App) (env : Env) (seatId : ℤ) : Option ServerId :=
  match a.tables.seats.get? seatId with
  | none => none
  | some seat =>
    if seat.state = .reserved then none
    else if seat.state = .locked then none
    else
      let routed := a.cluster.route env.md5 s!"seat-{seatId}" (fun n => env.time (2 + n))
      match routed.1 with
      | .error _ => none
      | .ok server =>
        if ((routed.2.breakers server).allowRequest (env.time 10)).1 = true ∧
          (routed.2.servers server).online = true ∧ ¬ env.random < 1 / 5 then some server
        else none

def lockMove (env : Env) (seatId : ℤ) (requester : String) (server : ServerId) : Move :=
  .lock seatId requester server env.uuid (env.time 16) (env.time 17) (env.time 18) env.starts

/-- The lock an attempt takes, as `reserveOnServer` runs it. -/
def takesLock (a : App) (env : Env) (seatId : ℤ) (requester : String) (server : ServerId) :
    Except ReserveError Unit × Tables :=
  a.tables.lockSeat seatId requester server env.uuid (env.time 16) (env.time 17) (env.time 18) env.starts

theorem bookable_of_reaches {a : App} {env : Env} {seatId : ℤ} {server : ServerId}
    (h : a.reaches env seatId = some server) : a.tables.Bookable seatId := by
  unfold reaches at h
  split at h
  · cases h
  · rename_i seat hseat
    split at h
    · cases h
    · rename_i hr
      split at h
      · cases h
      · rename_i hl
        exact ⟨seat, hseat, hr, hl⟩

theorem reserveOnServer_refused {a : App} (env : Env) {server : ServerId} (seatId : ℤ) (requester : String)
    (h : (a.cluster.servers server).online = true → env.random < 1 / 5) :
    ∃ m c, a.reserveOnServer env seatId requester server = (.error (.transient m), { a with cluster := c }) := by
  unfold reserveOnServer
  cases hon : (a.cluster.servers server).online with
  | false => exact ⟨_, _, rfl⟩
  | true =>
    have hdraw := h hon
    simp only [Bool.true_eq_false, if_false, if_pos hdraw]
    exact ⟨_, _, rfl⟩

theorem reserveOnServer_passed {a : App} (env : Env) {server : ServerId} (seatId : ℤ) (requester : String)
    (hon : (a.cluster.servers server).online = true) (hdraw : ¬ env.random < 1 / 5) :
    a.reserveOnServer env seatId requester server =
      ((a.takesLock env seatId requester server).1,
        { a with tables := (a.takesLock env seatId requester server).2 }) := by
  unfold reserveOnServer takesLock
  simp only [hon, Bool.true_eq_false, if_false, if_neg hdraw]

/-- **An attempt that does not get so far changes no table and fails.** -/
theorem bookSwept_of_none {a : App} {env : Env} {seatId : ℤ} (requester : String) (h : a.reaches env seatId = none) :
    (a.bookSwept env seatId requester).2.tables = a.tables ∧
      ∃ e, (a.bookSwept env seatId requester).1 = .error e := by
  unfold reaches at h
  unfold bookSwept
  cases hseat : a.tables.seats.get? seatId with
  | none => exact ⟨rfl, _, rfl⟩
  | some seat =>
    simp only [hseat] at h ⊢
    by_cases hr : seat.state = .reserved
    · rw [if_pos hr]
      exact ⟨rfl, _, rfl⟩
    · rw [if_neg hr] at h ⊢
      by_cases hl : seat.state = .locked
      · rw [if_pos hl]
        exact ⟨rfl, _, rfl⟩
      · rw [if_neg hl] at h ⊢
        generalize a.cluster.route env.md5 s!"seat-{seatId}" (fun n => env.time (2 + n)) = routed at h ⊢
        obtain ⟨choice, c⟩ := routed
        cases choice with
        | error e => exact ⟨rfl, _, rfl⟩
        | ok server =>
          simp only [ite_eq_right_iff, reduceCtorEq, imp_false, not_and] at h
          simp only [callBreaker]
          split
          · rename_i hasked
            obtain ⟨m, c', hres⟩ := reserveOnServer_refused
              (a := { a with cluster := c.setBreaker server ((c.breakers server).allowRequest (env.time 10)).2 })
              env seatId requester (fun hon => not_not.1 (h hasked hon))
            rw [hres]
            exact ⟨rfl, _, rfl⟩
          · exact ⟨rfl, _, rfl⟩

/-- **An attempt that gets so far leaves the tables the lock leaves**, and succeeds when that does. -/
theorem bookSwept_of_some {a : App} {env : Env} {seatId : ℤ} {server : ServerId} (requester : String)
    (h : a.reaches env seatId = some server) :
    (a.bookSwept env seatId requester).2.tables = (a.takesLock env seatId requester server).2 ∧
      (a.bookSwept env seatId requester).1 =
        match (a.takesLock env seatId requester server).1 with
        | .ok () => .ok (.booked seatId server s!"seat-{seatId}")
        | .error e => .error (passOn e) := by
  unfold reaches at h
  unfold bookSwept
  cases hseat : a.tables.seats.get? seatId with
  | none =>
    rw [hseat] at h
    cases h
  | some seat =>
    simp only [hseat] at h ⊢
    by_cases hr : seat.state = .reserved
    · rw [if_pos hr] at h
      cases h
    · rw [if_neg hr] at h ⊢
      by_cases hl : seat.state = .locked
      · rw [if_pos hl] at h
        cases h
      · rw [if_neg hl] at h ⊢
        generalize a.cluster.route env.md5 s!"seat-{seatId}" (fun n => env.time (2 + n)) = routed at h ⊢
        obtain ⟨choice, c⟩ := routed
        cases choice with
        | error e => cases h
        | ok sv =>
          simp only [Option.ite_none_right_eq_some, Option.some.injEq] at h
          obtain ⟨⟨hasked, hon, hrand⟩, rfl⟩ := h
          have hres := reserveOnServer_passed
            (a := { a with cluster := c.setBreaker sv ((c.breakers sv).allowRequest (env.time 10)).2 })
            env seatId requester hon hrand
          simp only [callBreaker, if_pos hasked, hres]
          simp only [takesLock]
          generalize a.tables.lockSeat seatId requester sv env.uuid (env.time 16) (env.time 17) (env.time 18)
            env.starts = locked
          obtain ⟨outcome, t⟩ := locked
          cases outcome with
          | error e => exact ⟨rfl, rfl⟩
          | ok u => exact ⟨rfl, rfl⟩

@[simp] theorem count_tables (a : App) (r : Response) : (a.count r).tables = a.tables := by
  unfold count
  split <;> rfl

end App

namespace Site

/-- The application once an attempt has swept. -/
def swept (s : Site) (env : Env) : App := { s.app with tables := (s.app.tables.expireLeasesLocked (env.time 1)).2 }

def attemptMoves (s : Site) (env : Env) (c : BookCall) : List Move :=
  .sweep (env.time 1) ::
    ((s.swept env).reaches env c.seatId).toList.map (App.lockMove env c.seatId c.requester)

/-- **The methods a step runs on the tables.** -/
def moves (s : Site) (e : Event) : List Move :=
  match e with
  | .book _ _ => []
  | .attempt call env _ => ((s.running call).map (s.attemptMoves env)).getD []
  | .confirm seatId env => [.confirm seatId (env.time 0) (env.time 1) env.starts]
  | .cancel seatId => [.cancel seatId]
  | .renew seatId env => [.renew seatId (env.time 0) (env.time 1) (env.time 2)]
  | .toggle serverId env =>
    match serverIds.find? (fun id => decide (toString id = serverId)) with
    | none => []
    | some id =>
      if ((s.app.cluster.toggle id (env.time 0)).servers id).online = true ∧ id ≠ .server1 then [.push id] else []
  | .setStrategy _ => []
  | .snapshot env => [.sweep (env.time 0)]
  | .reset stamp => [.reset stamp]
  | .deliver timer => [.deliver timer]

theorem running_some {s : Site} {call : ℕ} {c : BookCall} (h : s.running call = some c) :
    s.calls[call]? = some c ∧ c.response = none := by
  unfold running at h
  rw [Option.filter_eq_some_iff] at h
  exact ⟨h.1, by simpa using h.2⟩

/-- **The tables of a step are those of its moves.** -/
theorem tables_step (s : Site) (e : Event) :
    (step s e).2.app.tables = run Tables.step s.app.tables (s.moves e) := by
  cases e with
  | book seatId requester => rfl
  | attempt call env draw =>
    simp only [step, moves]
    cases hc : s.running call with
    | none => rfl
    | some c =>
      simp only [Option.map_some, Option.getD_some, attemptMoves, App.bookLocked, run_cons]
      cases hr : (s.swept env).reaches env c.seatId with
      | none => exact (App.bookSwept_of_none c.requester hr).1
      | some server => exact (App.bookSwept_of_some c.requester hr).1
  | confirm seatId env => exact App.count_tables _ _
  | cancel seatId => exact App.count_tables _ _
  | renew seatId env => exact App.count_tables _ _
  | toggle serverId env =>
    simp only [step, moves, App.toggleServer]
    cases serverIds.find? (fun id => decide (toString id = serverId)) with
    | none => rfl
    | some id =>
      simp only
      split <;> rfl
  | setStrategy name => rfl
  | snapshot env => rfl
  | reset stamp => rfl
  | deliver timer => rfl

/-- **A step locks only a seat that may be booked**, and pushes only to a peer. -/
theorem moves_allowed (s : Site) (e : Event) : Along Tables.step Tables.Allowed s.app.tables (s.moves e) := by
  cases e with
  | attempt call env draw =>
    simp only [moves]
    cases hc : s.running call with
    | none => exact trivial
    | some c =>
      simp only [Option.map_some, Option.getD_some, attemptMoves]
      refine ⟨trivial, ?_⟩
      cases hr : (s.swept env).reaches env c.seatId with
      | none => exact trivial
      | some server => exact ⟨App.bookable_of_reaches hr, trivial⟩
  | toggle serverId env =>
    simp only [moves]
    split
    · exact trivial
    · split
      · rename_i hback
        exact ⟨hback.2, trivial⟩
      · exact trivial
  | book seatId requester => exact trivial
  | setStrategy name => exact trivial
  | _ => exact ⟨trivial, trivial⟩

/-- **Where a move comes from.** -/
theorem mem_moves {s : Site} {e : Event} {v : Move} (h : v ∈ s.moves e) :
    (∃ call env draw c, e = .attempt call env draw ∧ s.running call = some c ∧ (v = .sweep (env.time 1) ∨
      ∃ server, (s.swept env).reaches env c.seatId = some server ∧ v = App.lockMove env c.seatId c.requester server)) ∨
    (∃ i env, e = .confirm i env ∧ v = .confirm i (env.time 0) (env.time 1) env.starts) ∨
    (∃ i, e = .cancel i ∧ v = .cancel i) ∨
    (∃ i env, e = .renew i env ∧ v = .renew i (env.time 0) (env.time 1) (env.time 2)) ∨
    (∃ serverId env id, e = .toggle serverId env ∧ v = .push id) ∨
    (∃ env, e = .snapshot env ∧ v = .sweep (env.time 0)) ∨
    (∃ stamp, e = .reset stamp ∧ v = .reset stamp) ∨ ∃ timer, e = .deliver timer ∧ v = .deliver timer := by
  cases e with
  | book seatId requester => cases h
  | attempt call env draw =>
    simp only [moves] at h
    cases hc : s.running call with
    | none =>
      rw [hc] at h
      cases h
    | some c =>
      rw [hc] at h
      refine Or.inl ⟨call, env, draw, c, rfl, hc, ?_⟩
      rcases List.mem_cons.1 h with h | h
      · exact Or.inl h
      · obtain ⟨server, hr, rfl⟩ := List.mem_map.1 h
        exact Or.inr ⟨server, Option.mem_toList.1 hr, rfl⟩
  | confirm seatId env => exact Or.inr (Or.inl ⟨seatId, env, rfl, List.mem_singleton.1 h⟩)
  | cancel seatId => exact Or.inr (Or.inr (Or.inl ⟨seatId, rfl, List.mem_singleton.1 h⟩))
  | renew seatId env => exact Or.inr (Or.inr (Or.inr (Or.inl ⟨seatId, env, rfl, List.mem_singleton.1 h⟩)))
  | toggle serverId env =>
    simp only [moves] at h
    split at h
    · cases h
    · rename_i id hid
      split at h
      · exact Or.inr (Or.inr (Or.inr (Or.inr (Or.inl ⟨serverId, env, id, rfl, List.mem_singleton.1 h⟩))))
      · cases h
  | setStrategy name => cases h
  | snapshot env => exact Or.inr (Or.inr (Or.inr (Or.inr (Or.inr (Or.inl ⟨env, rfl, List.mem_singleton.1 h⟩)))))
  | reset stamp =>
    exact Or.inr (Or.inr (Or.inr (Or.inr (Or.inr (Or.inr (Or.inl ⟨stamp, rfl, List.mem_singleton.1 h⟩))))))
  | deliver timer =>
    exact Or.inr (Or.inr (Or.inr (Or.inr (Or.inr (Or.inr (Or.inr ⟨timer, rfl, List.mem_singleton.1 h⟩))))))

theorem reset_mem_moves {s : Site} {e : Event} {stamp : ServerId → ℕ → Time} (h : .reset stamp ∈ s.moves e) :
    e = .reset stamp := by
  rcases mem_moves h with ⟨_, _, _, _, -, -, hv | ⟨_, -, hv⟩⟩ | ⟨_, _, -, hv⟩ | ⟨_, -, hv⟩ | ⟨_, _, -, hv⟩ |
    ⟨_, _, _, -, hv⟩ | ⟨_, -, hv⟩ | ⟨_, rfl, hv⟩ | ⟨_, -, hv⟩
  all_goals cases hv
  rfl

def runMoves (s : Site) : List Event → List Move
  | [] => []
  | e :: es => s.moves e ++ runMoves (step s e).2 es

/-- **The tables of a run are those of its moves.** -/
theorem tables_run : ∀ (es : List Event) (s : Site),
    (run step s es).app.tables = run Tables.step s.app.tables (s.runMoves es)
  | [], _ => rfl
  | e :: es, s => by
    rw [run_cons, tables_run es, tables_step, runMoves, run_append]

/-- An invariant of the moves, given what a step allows, is one of the application. -/
theorem invariant_moves {P : Tables → Prop} {s : Site} (h0 : P s.app.tables)
    (hv : ∀ t v, P t → t.Allowed v → P (t.step v).2) (es : List Event) : P (run step s es).app.tables := by
  refine invariant (P := fun s : Site => P s.app.tables) h0 (fun s e h => ?_) es
  rw [tables_step]
  exact invariant_along h (fun t v ht ha => hv t v ht ha) _ (s.moves_allowed e)

end Site
end Ticket
