import TicketBooking.Admission
import TicketBooking.PrimaryMirror
/-!
# Attempts — how an attempt ends, and what becomes of its call

An attempt of `book_with_retry` is refused for good, fails for now, or books the seat (`Outcome`): which it is depends
on the seat, on whether a server is offered, on the injected failure, on a lease the authority still has for the seat,
and on whether the two timers start.  `calls_step` says what a step does to a call: only its own attempt, while it runs,
settles it.
-/
namespace Ticket

open Runs
open LeaseManager (live)

/-- The two timers of a broadcast start. -/
def Env.Sends (env : Env) : Prop := env.starts 0 = true ∧ env.starts 1 = true

instance (env : Env) : Decidable env.Sends := inferInstanceAs (Decidable (_ ∧ _))

namespace Tables

variable {t : Tables} {i : ℤ}

theorem publish_fst (h : (t.primary.getSeat i).isSome = true) (state : SeatStatus) (owner : String) (stamp : Time)
    (starts : ℕ → Bool) :
    (t.publish i state owner stamp starts).1 = decide (starts 0 = true ∧ starts 1 = true) := by
  obtain ⟨own, ho⟩ := Option.isSome_iff_exists.1 h
  have hpeers : peers = [.server2, .server3] := by decide
  unfold publish
  simp only [StateStore.updateSeat_some ho, hpeers, Replication.broadcastWithDelay]
  by_cases h0 : starts 0 = true
  · by_cases h1 : starts 1 = true <;> simp [h0, h1]
  · simp [h0]

section
variable (h : t.Furnished) (requester : String) (server : ServerId) (uuid : Uuid) (now later stamp : Time)
  (starts : ℕ → Bool)
include h

/-- **A seat the authority has a live lease for is refused**, after a purge. -/
theorem lockSeat_taken (hl : live now t.leases.bySeat.get? i ≠ none) :
    (∃ m, (t.lockSeat i requester server uuid now later stamp starts).1 = .error (.leaseConflict m)) ∧
      (t.lockSeat i requester server uuid now later stamp starts).2 =
        { t with leases := (t.leases.expireLocked now).2 } := by
  obtain ⟨e, he⟩ := Option.ne_none_iff_exists'.1 hl
  rw [← h.keyed.expireLocked_bySeat] at he
  simp only [lockSeat, LeaseManager.acquire, he]
  exact ⟨⟨_, rfl⟩, trivial⟩

/-- **A seat it has none for is locked**, whether or not the timers then start. -/
theorem lockSeat_free (hb : t.Bookable i) (hl : live now t.leases.bySeat.get? i = none) :
    (t.lockSeat i requester server uuid now later stamp starts).1 =
        (if starts 0 = true ∧ starts 1 = true then .ok () else .error (.other cannotStart)) ∧
      (t.lockSeat i requester server uuid now later stamp starts).2.IsLocked i := by
  rw [← h.keyed.expireLocked_bySeat] at hl
  obtain ⟨seat, hs, -⟩ := hb
  have hcopy : (t.primary.getSeat i).isSome = true := (h.copies i).2 ((h.seats i).1 (by rw [hs]; rfl))
  rcases lockSeat_cases t i requester server uuid now later stamp starts with ⟨e, he, -⟩ | ⟨l, -, ht⟩
  · simp only [LeaseManager.acquire, hl] at he
    cases he
  · rw [ht _ rfl]
    dsimp only
    refine ⟨?_, ?_⟩
    · rw [publish_fst]
      · simp only [decide_eq_true_eq]
      · exact hcopy
    · unfold IsLocked
      rw [publish_seats, Dict.get?_modify, if_pos rfl, hs]
      exact ⟨_, rfl, rfl⟩

end

end Tables

namespace App

variable {a : App} {env : Env} {i : ℤ} {requester : String} {server : ServerId}

/-- The server load balancing offers an attempt, its sweep done. -/
def offers (a : App) (env : Env) (seatId : ℤ) : Option ServerId :=
  (a.cluster.offer env.md5 s!"seat-{seatId}" (fun n => env.time (2 + n))).1

/-- The authority has a live lease for the seat when an attempt asks for one. -/
def Leased (a : App) (env : Env) (seatId : ℤ) : Prop :=
  live (env.time 16) a.tables.leases.bySeat.get? seatId ≠ none

/-- **How an attempt ends**, its sweep done. -/
inductive Outcome (a : App) (env : Env) (i : ℤ) (r : Except BookingError Response × App) : Prop where
  /-- refused before it reserves anything -/
  | blocked {m : String} (why : ¬ a.tables.Bookable i ∨ a.offers env i = none) (raised : r.1 = .error (.nonRetryable m))
      (kept : r.2.tables = a.tables)
  /-- the injected failure -/
  | injected {m : String} {server : ServerId} (bookable : a.tables.Bookable i) (offered : a.offers env i = some server)
      (draw : env.random < 1 / 5) (raised : r.1 = .error (.transient m)) (kept : r.2.tables = a.tables)
  | conflict {m : String} {server : ServerId} (reached : a.reaches env i = some server) (leased : a.Leased env i)
      (raised : r.1 = .error (.nonRetryable m))
      (purged : r.2.tables = { a.tables with leases := (a.tables.leases.expireLocked (env.time 16)).2 })
  /-- a timer did not start, the seat being locked by then -/
  | notSent {m : String} {server : ServerId} (reached : a.reaches env i = some server) (free : ¬ a.Leased env i)
      (stopped : ¬ env.Sends) (raised : r.1 = .error (.transient m)) (locked : r.2.tables.IsLocked i)
  | booked {server : ServerId} (reached : a.reaches env i = some server) (free : ¬ a.Leased env i) (sent : env.Sends)
      (ok : r.1 = .ok (.booked i server s!"seat-{i}"))

theorem bookSwept_unbookable (h : ¬ a.tables.Bookable i) (env : Env) (requester : String) :
    ∃ m, a.bookSwept env i requester = (.error (.nonRetryable m), a) := by
  unfold bookSwept
  cases hs : a.tables.seats.get? i with
  | none => exact ⟨_, rfl⟩
  | some seat =>
    simp only
    split
    · exact ⟨_, rfl⟩
    · split
      · exact ⟨_, rfl⟩
      · exact absurd ⟨seat, hs, ‹_›, ‹_›⟩ h

/-- An attempt at a seat that may be booked is what load balancing offers, called through the server's breaker. -/
theorem bookSwept_bookable (h : a.tables.Bookable i) (env : Env) (requester : String) :
    ∃ c : Cluster, (∀ server ∈ a.offers env i, c.Admits server) ∧ a.bookSwept env i requester =
      match a.offers env i with
      | none => (.error (.nonRetryable "No online server is available"), { a with cluster := c })
      | some server =>
        let called := ({ a with cluster := c } : App).callBreaker env i requester server
        (called.1.map (fun _ => .booked i server s!"seat-{i}"), called.2) := by
  obtain ⟨seat, hs, hr, hl⟩ := h
  have hrouted := Cluster.route_of_offer a.cluster env.md5 s!"seat-{i}" (fun n => env.time (2 + n))
  refine ⟨(a.cluster.offer env.md5 s!"seat-{i}" (fun n => env.time (2 + n))).2.2, fun server ho => ?_, ?_⟩
  · exact Cluster.admits_of_offer ho
  · simp only [bookSwept, hs, if_neg hr, if_neg hl, hrouted, offers]
    cases (a.cluster.offer env.md5 s!"seat-{i}" (fun n => env.time (2 + n))).1 <;> rfl

/-- The failure injected into a reservation is recorded by the breaker. -/
theorem callBreaker_injected (h : a.cluster.Admits server) (hdraw : env.random < 1 / 5) (i : ℤ) (requester : String) :
    ∃ m c, a.callBreaker env i requester server = (.error (.transient m), { a with cluster := c }) := by
  have hon : ¬ (a.cluster.servers server).online = false := by rw [h.online]; decide
  have hasked := Breaker.allowRequest_of_not_opened h.shut (env.time 10)
  simp only [callBreaker, hasked, if_true, Cluster.setBreaker_self, reserveOnServer, if_neg hon, if_pos hdraw]
  exact ⟨_, _, rfl⟩

/-- **How far an attempt gets**: to the lease, for a seat that may be booked, on the server offered, unless the failure
is injected. -/
theorem reaches_eq_some : a.reaches env i = some server ↔
    a.tables.Bookable i ∧ a.offers env i = some server ∧ ¬ env.random < 1 / 5 := by
  unfold reaches offers Tables.Bookable
  cases hs : a.tables.seats.get? i with
  | none => simp
  | some seat =>
    simp only [Option.some.injEq, exists_eq_left']
    by_cases hr : seat.state = .reserved
    · simp [hr]
    · by_cases hl : seat.state = .locked
      · simp [hl]
      · have hrouted := Cluster.route_of_offer a.cluster env.md5 s!"seat-{i}" (fun n => env.time (2 + n))
        rw [if_neg hr, if_neg hl]
        simp only [hrouted, ne_eq, hr, hl, not_false_eq_true, true_and]
        cases ho : (a.cluster.offer env.md5 s!"seat-{i}" (fun n => env.time (2 + n))).1 with
        | none => simp
        | some offered =>
          obtain ⟨hon, -, hasked⟩ := Cluster.admits_of_offer ho
          simp only [hasked, hon, true_and, Option.ite_none_right_eq_some, Option.some.injEq]
          exact and_comm

/-- **An attempt ends in one of these ways.** -/
theorem bookSwept_outcome (h : a.tables.Furnished) (env : Env) (i : ℤ) (requester : String) :
    Outcome a env i (a.bookSwept env i requester) := by
  by_cases hb : a.tables.Bookable i
  · obtain ⟨c, hadmits, hbook⟩ := bookSwept_bookable hb env requester
    cases ho : a.offers env i with
    | none =>
      rw [ho] at hbook
      rw [hbook]
      exact .blocked (Or.inr ho) rfl rfl
    | some server =>
      by_cases hdraw : env.random < 1 / 5
      · obtain ⟨m, c', hcall⟩ :=
          callBreaker_injected (a := { a with cluster := c }) (hadmits server ho) hdraw i requester
        rw [ho] at hbook
        simp only [hcall] at hbook
        rw [hbook]
        exact .injected hb ho hdraw rfl rfl
      · have hreached := reaches_eq_some.2 ⟨hb, ho, hdraw⟩
        obtain ⟨htables, hres⟩ := bookSwept_of_some requester hreached
        by_cases hl : a.Leased env i
        · obtain ⟨⟨m, hm⟩, ht⟩ := Tables.lockSeat_taken h requester server env.uuid (env.time 16) (env.time 17)
            (env.time 18) env.starts hl
          refine .conflict hreached hl (m := m) ?_ (htables.trans ht)
          rw [hres, takesLock, hm]
          rfl
        · obtain ⟨hm, ht⟩ := Tables.lockSeat_free h requester server env.uuid (env.time 16) (env.time 17)
            (env.time 18) env.starts hb (not_not.1 hl)
          by_cases hsent : env.starts 0 = true ∧ env.starts 1 = true
          · refine .booked hreached hl hsent ?_
            rw [hres, takesLock, hm, if_pos hsent]
          · refine .notSent hreached hl hsent (m := Tables.cannotStart) ?_ ?_
            · rw [hres, takesLock, hm, if_neg hsent]
              rfl
            · rw [htables]
              exact ht
  · obtain ⟨m, hbook⟩ := bookSwept_unbookable hb env requester
    rw [hbook]
    exact .blocked (Or.inl hb) rfl rfl

theorem booked_of_ok (h : a.tables.Furnished) {r : Response} (hr : (a.bookSwept env i requester).1 = .ok r) :
    ∃ server key, r = .booked i server key := by
  cases bookSwept_outcome h env i requester with
  | blocked _ raised => exact absurd (raised.symm.trans hr) nofun
  | injected _ _ _ raised => exact absurd (raised.symm.trans hr) nofun
  | conflict _ _ raised => exact absurd (raised.symm.trans hr) nofun
  | notSent _ _ _ raised => exact absurd (raised.symm.trans hr) nofun
  | booked _ _ _ ok => exact ⟨_, _, Except.ok.inj (hr.symm.trans ok)⟩

/-- What an attempt that ended so adds to `success_count`. -/
def counted {α : Type} : Except BookingError α → ℕ
  | .ok _ => 1
  | .error _ => 0

theorem reserveOnServer_counts (a : App) (env : Env) (i : ℤ) (requester : String) (server : ServerId) :
    (a.reserveOnServer env i requester server).2.successCount = a.successCount ∧
      (a.reserveOnServer env i requester server).2.failureCount = a.failureCount := by
  unfold reserveOnServer
  split
  · exact ⟨rfl, rfl⟩
  · split <;> exact ⟨rfl, rfl⟩

theorem callBreaker_counts (a : App) (env : Env) (i : ℤ) (requester : String) (server : ServerId) :
    (a.callBreaker env i requester server).2.successCount =
        a.successCount + counted (a.callBreaker env i requester server).1 ∧
      (a.callBreaker env i requester server).2.failureCount = a.failureCount := by
  unfold callBreaker
  generalize (a.cluster.breakers server).allowRequest (env.time 10) = asked
  obtain ⟨hs, hf⟩ := reserveOnServer_counts { a with cluster := a.cluster.setBreaker server asked.2 } env i requester
    server
  dsimp only
  split
  · split
    · exact ⟨hs, hf⟩
    · exact ⟨congrArg (· + 1) hs, hf⟩
  · exact ⟨rfl, rfl⟩

/-- **Only a booking is counted** by an attempt. -/
theorem bookSwept_counts (a : App) (env : Env) (i : ℤ) (requester : String) :
    (a.bookSwept env i requester).2.successCount = a.successCount + counted (a.bookSwept env i requester).1 ∧
      (a.bookSwept env i requester).2.failureCount = a.failureCount := by
  by_cases hb : a.tables.Bookable i
  · obtain ⟨c, -, hbook⟩ := bookSwept_bookable hb env requester
    rw [hbook]
    cases a.offers env i with
    | none => exact ⟨rfl, rfl⟩
    | some server =>
      have hcounts := callBreaker_counts { a with cluster := c } env i requester server
      dsimp only
      cases hcall : (({ a with cluster := c } : App).callBreaker env i requester server).1 with
      | error e =>
        rw [hcall] at hcounts
        exact hcounts
      | ok u =>
        rw [hcall] at hcounts
        exact hcounts
  · obtain ⟨m, hbook⟩ := bookSwept_unbookable hb env requester
    rw [hbook]
    exact ⟨rfl, rfl⟩

end App

namespace Site

/-- The step is an attempt of call `k`, which is running. -/
def Attempts (s : Site) (e : Event) (k : ℕ) (env : Env) (draw : ℚ) (c : BookCall) : Prop :=
  e = .attempt k env draw ∧ s.running k = some c

/-- What the attempt of a call comes to. -/
def attempted (s : Site) (env : Env) (c : BookCall) : Except BookingError Response × App :=
  (s.swept env).bookSwept env c.seatId c.requester

theorem Attempts.unique {s : Site} {e : Event} {k k' : ℕ} {env env' : Env} {draw draw' : ℚ} {c c' : BookCall}
    (h : s.Attempts e k env draw c) (h' : s.Attempts e k' env' draw' c') :
    k = k' ∧ env = env' ∧ draw = draw' ∧ c = c' := by
  obtain ⟨rfl, hr⟩ := h
  obtain ⟨he, hr'⟩ := h'
  obtain ⟨rfl, rfl, rfl⟩ := Event.attempt.inj he
  exact ⟨rfl, rfl, rfl, Option.some.inj (hr.symm.trans hr')⟩

theorem Attempts.app {s : Site} {e : Event} {k : ℕ} {env : Env} {draw : ℚ} {c : BookCall}
    (h : s.Attempts e k env draw c) : (step s e).2.app = (s.attempted env c).2 := by
  obtain ⟨rfl, hr⟩ := h
  simp only [step, hr]
  rfl

theorem furnished_swept (b : Boot) (es : List Event) (env : Env) :
    ((run step b.site es).swept env).tables.Furnished :=
  Tables.furnished_step (v := .sweep (env.time 1)) (furnished_run b es) trivial

/-- **What a step does to a call**: its own attempt settles it while it runs, and nothing else touches it. -/
theorem calls_step {s : Site} {k : ℕ} {c : BookCall} (h : s.calls[k]? = some c) (e : Event) :
    (step s e).2.calls[k]? = some c ∧ (∀ env draw c', ¬ s.Attempts e k env draw c') ∨
      ∃ env draw, s.Attempts e k env draw c ∧
        (step s e).2.calls[k]? = some (settle c (s.attempted env c).1 draw) := by
  have hlt : k < s.calls.length := (List.getElem?_eq_some_iff.1 h).1
  cases e with
  | book seatId requester =>
    refine Or.inl ⟨?_, fun env draw c' ha => by cases ha.1⟩
    exact (List.getElem?_append_left hlt).trans h
  | attempt call env draw =>
    cases hr : s.running call with
    | none =>
      refine Or.inl ⟨?_, fun env' draw' c' ha => ?_⟩
      · simp only [step, hr]
        exact h
      · obtain ⟨he, hc'⟩ := ha
        cases he
        rw [hr] at hc'
        cases hc'
    | some c' =>
      have hcalls : (step s (.attempt call env draw)).2.calls =
          s.calls.set call (settle c' (s.attempted env c').1 draw) := by
        simp only [step, hr]
        rfl
      by_cases hk : call = k
      · subst hk
        obtain rfl := Option.some.inj (h.symm.trans (running_some hr).1)
        exact Or.inr ⟨env, draw, ⟨rfl, hr⟩, by rw [hcalls, List.getElem?_set_self hlt]⟩
      · refine Or.inl ⟨by rw [hcalls, List.getElem?_set_ne hk, h], fun env' draw' c'' ha => ?_⟩
        exact hk (Event.attempt.inj ha.1).1
  | _ => exact Or.inl ⟨h, fun env draw c' ha => by cases ha.1⟩

theorem Attempts.calls {s : Site} {e : Event} {k : ℕ} {env : Env} {draw : ℚ} {c : BookCall}
    (h : s.Attempts e k env draw c) :
    (step s e).2.calls[k]? = some (settle c (s.attempted env c).1 draw) := by
  rcases calls_step (running_some h.2).1 e with ⟨-, hnever⟩ | ⟨env', draw', h', hnext⟩
  · exact absurd h (hnever env draw c)
  · obtain ⟨-, rfl, rfl, -⟩ := h.unique h'
    exact hnext

theorem answered_run {s : Site} {k : ℕ} {c : BookCall} {r : Response} (h : s.calls[k]? = some c)
    (hr : c.response = some r) (es : List Event) : (run step s es).calls[k]? = some c := by
  refine invariant (P := fun (s : Site) => s.calls[k]? = some c) h (fun s e hs => ?_) es
  rcases calls_step hs e with ⟨hsame, -⟩ | ⟨env, draw, ⟨-, hrunning⟩, -⟩
  · exact hsame
  · rw [(running_some hrunning).2] at hr
    cases hr

/-- **What an attempt makes of its call**: it returns the booking, or a failure once the attempt was refused for good or
was the third to fail, or runs on with one more failure. -/
theorem settle_response (c : BookCall) (hc : c.response = none) (outcome : Except BookingError Response) (draw : ℚ) :
    (settle c outcome draw).response =
      match outcome with
      | .ok r => some r
      | .error (.nonRetryable m) => some (.failed "not_retryable" m)
      | .error (.transient _) =>
        if 2 ≤ c.failures then some (.failed "retry_failed" s!"Retries exhausted after {c.failures + 1} attempts")
        else none := by
  cases outcome with
  | ok r => rfl
  | error e =>
    cases e with
    | nonRetryable m => rfl
    | transient m =>
      have hmax : App.retryManager.maxAttempts = 3 := by decide
      simp only [settle, RetryManager.afterFailure, hmax]
      by_cases hlast : 2 ≤ c.failures
      · rw [if_pos (show 3 ≤ c.failures + 1 by omega), if_pos hlast]
      · rw [if_neg (show ¬ 3 ≤ c.failures + 1 by omega), if_neg hlast]
        exact hc

end Site
end Ticket
