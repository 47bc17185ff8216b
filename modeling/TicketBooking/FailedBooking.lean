import TicketBooking.Attempts
import TicketBooking.LeaseRuns
/-!
# FailedBooking — what a failed booking leaves behind (`dashboard.py`)

`_reserve_on_server` writes the lease, the seat and the primary's store before it starts the timers of its broadcast,
and undoes none of them when a timer does not start: the attempt raises with the seat locked, and the next one is
refused by the lock.  So a booking that fails leaves nothing behind exactly as long as every attempt that gets as far as
the lease starts both timers (`fails_clean_iff`); a refusal by the authority, which only purges, never happens in a run
whose clock does not go back (`fails_clean_iff_sends`).
-/
namespace Ticket

open Runs

namespace Site

/-- Seats, leases and stores are as the attempt's sweep left them. -/
def LeftAsSwept (s : Site) (env : Env) (t : Tables) : Prop :=
  t.seats = (s.swept env).tables.seats ∧ t.leases = (s.swept env).tables.leases ∧
    t.replication.stores = (s.swept env).tables.replication.stores

/-- **A failed booking leaves nothing behind**: no attempt that raises changes seats, leases or stores after its sweep,
and no attempt of a call that returns a failure does. -/
structure FailsClean (b : Boot) (es : List Event) : Prop where
  attempts : ∀ pre e post k env draw c, es = pre ++ e :: post → (run step b.site pre).Attempts e k env draw c →
    (∀ r, ((run step b.site pre).attempted env c).1 ≠ .ok r) →
      (run step b.site pre).LeftAsSwept env (step (run step b.site pre) e).2.app.tables
  calls : ∀ k c code m, (run step b.site es).calls[k]? = some c → c.response = some (.failed code m) →
    ∀ pre e post env draw c', es = pre ++ e :: post → (run step b.site pre).Attempts e k env draw c' →
      (run step b.site pre).LeftAsSwept env (step (run step b.site pre) e).2.app.tables

/-- **An attempt that asks for the lease starts both timers**; if the authority has one for the seat, and so refuses, it
purges nothing. -/
def Unwinds (s : Site) (e : Event) : Prop :=
  ∀ k env draw c server, s.Attempts e k env draw c → (s.swept env).reaches env c.seatId = some server →
    ((s.swept env).Leased env c.seatId → (s.swept env).tables.leases.overdue (env.time 16) = []) ∧
    (¬ (s.swept env).Leased env c.seatId → env.Sends)

/-- A purge that changes nothing finds nothing overdue. -/
theorem expireLocked_eq_self_iff {m : LeaseManager} (h : m.Keyed) (now : Time) :
    (m.expireLocked now).2 = m ↔ m.overdue now = [] := by
  constructor
  · intro hm
    rw [LeaseManager.overdue_eq_nil_iff, ← h.expireLocked_bySeat, hm]
  · intro hm
    unfold LeaseManager.expireLocked
    rw [hm]
    rfl

/-- **An attempt that unwinds leaves nothing if it raises, and only such an attempt.** -/
theorem left_iff_unwinds {s : Site} {e : Event} {k : ℕ} {env : Env} {draw : ℚ} {c : BookCall}
    (h : s.Attempts e k env draw c) (hf : (s.swept env).tables.Furnished) :
    ((∀ r, (s.attempted env c).1 ≠ .ok r) → s.LeftAsSwept env (step s e).2.app.tables) ↔ s.Unwinds e := by
  have hkeyed := expireLocked_eq_self_iff hf.keyed (env.time 16)
  have hout := App.bookSwept_outcome hf env c.seatId c.requester
  rw [h.app]
  constructor
  · intro hleft k' env' draw' c' server h' hreached
    obtain ⟨rfl, rfl, rfl, rfl⟩ := h.unique h'
    obtain ⟨hb, ho, hdraw⟩ := App.reaches_eq_some.1 hreached
    cases hout with
    | blocked why => exact absurd why (by rw [ho]; simpa using hb)
    | injected _ _ draw => exact absurd draw hdraw
    | conflict reached leased raised purged =>
      refine ⟨fun _ => hkeyed.1 ?_, fun hn => absurd leased hn⟩
      obtain ⟨-, hleases, -⟩ := hleft fun r hok => by
        rw [attempted, raised] at hok
        cases hok
      rw [attempted, purged] at hleases
      exact hleases
    | notSent reached free stopped raised locked =>
      obtain ⟨hseats, -⟩ := hleft fun r hok => by
        rw [attempted, raised] at hok
        cases hok
      obtain ⟨seat, hs, hl⟩ := locked
      rw [attempted] at hseats
      rw [hseats] at hs
      obtain ⟨seat', hs', -, hl'⟩ := hb
      obtain rfl := Option.some.inj (hs.symm.trans hs')
      exact absurd hl hl'
    | booked reached free sent ok => exact ⟨fun hl => absurd hl free, fun _ => sent⟩
  · intro hu hraised
    unfold attempted at hraised ⊢
    cases hout with
    | blocked why raised kept =>
      rw [kept]
      exact ⟨rfl, rfl, rfl⟩
    | injected _ _ draw raised kept =>
      rw [kept]
      exact ⟨rfl, rfl, rfl⟩
    | conflict reached leased raised purged =>
      rw [purged]
      exact ⟨rfl, hkeyed.2 ((hu _ _ _ _ _ h reached).1 leased), rfl⟩
    | notSent reached free stopped => exact absurd ((hu _ _ _ _ _ h reached).2 free) stopped
    | booked reached free sent ok => exact absurd ok (hraised _)

theorem raised_of_failed {b : Boot} {pre post : List Event} {e : Event} {k : ℕ} {env : Env} {draw : ℚ}
    {c c' : BookCall} {code m : String} (h : (run step b.site (pre ++ e :: post)).calls[k]? = some c)
    (hc : c.response = some (.failed code m)) (ha : (run step b.site pre).Attempts e k env draw c') :
    ∀ r, ((run step b.site pre).attempted env c').1 ≠ .ok r := by
  intro r hok
  have hresponse := settle_response c' (running_some ha.2).2 ((run step b.site pre).attempted env c').1 draw
  have hnext := ha.calls
  rw [hok] at hresponse hnext
  have hkept := answered_run hnext hresponse post
  rw [run_append, run_cons, hkept] at h
  obtain ⟨server, key, rfl⟩ := App.booked_of_ok (furnished_swept b pre env) hok
  rw [← Option.some.inj h, hresponse] at hc
  cases hc

/-- **A failed booking leaves nothing behind exactly when no attempt of the run loses a timer** once it has the
lease. -/
theorem fails_clean_iff (b : Boot) (es : List Event) : FailsClean b es ↔ Along step Unwinds b.site es := by
  constructor
  · intro h
    refine (along_iff es).2 fun pre e post he k env draw c server ha hreached => ?_
    exact (left_iff_unwinds ha (furnished_swept b pre env)).1 (h.attempts pre e post k env draw c he ha) _ _ _ _ _ ha
      hreached
  · intro h
    have hattempts : ∀ pre e post k env draw c, es = pre ++ e :: post →
        (run step b.site pre).Attempts e k env draw c →
        (∀ r, ((run step b.site pre).attempted env c).1 ≠ .ok r) →
          (run step b.site pre).LeftAsSwept env (step (run step b.site pre) e).2.app.tables :=
      fun pre e post k env draw c he ha =>
        (left_iff_unwinds ha (furnished_swept b pre env)).2 ((along_iff es).1 h pre e post he)
    refine ⟨hattempts, fun k c code m hc hr pre e post env draw c' he ha => ?_⟩
    subst he
    exact hattempts pre e post k env draw c' rfl ha (raised_of_failed hc hr ha)

/-- In a run whose clock does not go back the authority has no live lease for a seat that may be booked. -/
theorem not_leased_run (b : Boot) {es : List Event} {call : ℕ} {env : Env} {draw : ℚ}
    (hc : Chronological (es ++ [.attempt call env draw])) (hd : DistinctIds (es ++ [.attempt call env draw])) {i : ℤ}
    {server : ServerId} (hreached : ((run step b.site es).swept env).reaches env i = some server) :
    ¬ ((run step b.site es).swept env).Leased env i := by
  intro hl
  obtain ⟨hb, ho, hdraw⟩ := App.reaches_eq_some.1 hreached
  obtain ⟨⟨m, hm⟩, -⟩ := Tables.lockSeat_taken (furnished_swept b es env) "" server env.uuid (env.time 16) (env.time 17)
    (env.time 18) env.starts hl
  generalize hc' : (((run step b.site es).swept env).cluster.offer env.md5 s!"seat-{i}"
    (fun n => env.time (2 + n))).2.2 = c
  have hadmits : c.Admits server := hc' ▸ Cluster.admits_of_offer ho
  have hpassed := App.reserveOnServer_passed (a := { (run step b.site es).swept env with cluster := c }) env i ""
    hadmits.online hdraw
  exact attempt_not_conflict b hc hd hb c "" server m ((congrArg Prod.fst hpassed).trans hm)

/-- **With a clock that does not go back and distinct ids**, all it takes is that the timers start. -/
theorem fails_clean_iff_sends (b : Boot) (es : List Event) (hc : Chronological es) (hd : DistinctIds es) :
    FailsClean b es ↔ ∀ pre post k env draw c server, es = pre ++ .attempt k env draw :: post →
      (run step b.site pre).running k = some c →
        ((run step b.site pre).swept env).reaches env c.seatId = some server → env.Sends := by
  rw [fails_clean_iff, along_iff]
  constructor
  · rintro h pre post k env draw c server rfl hr hreached
    rw [← List.singleton_append, ← List.append_assoc] at hc hd
    have hfree := not_leased_run b (chronological_left hc) (distinctIds_left hd) hreached
    exact (h pre _ post rfl k env draw c server ⟨rfl, hr⟩ hreached).2 hfree
  · rintro h pre e post rfl k env draw c server ⟨rfl, hr⟩ hreached
    rw [← List.singleton_append, ← List.append_assoc] at hc hd
    have hfree := not_leased_run b (chronological_left hc) (distinctIds_left hd) hreached
    exact ⟨fun hl => absurd hl hfree, fun _ => h pre post k env draw c server rfl hr hreached⟩

/-- A booking whose timers do not start, tried once more. -/
def lostTimer : List Event :=
  [.book 1 "Ann", .attempt 0 { Env.calm 0 idA with starts := fun _ => false } 0, .attempt 0 (.calm 1 idB) 0]

/-- **The call returns a failure, and the seat stays locked**, with its lease and a new version. -/
theorem lostTimer_leaves_lock :
    (run step Boot.calm.site lostTimer).calls =
      [⟨1, "Ann", 1, some (.failed "not_retryable" "Seat 1 is currently leased")⟩] ∧
    ((run step Boot.calm.site lostTimer).app.tables.seats.get? 1).map Seat.shown = some (.locked, "Ann") ∧
    ¬ FailsClean Boot.calm lostTimer := by
  have hcalls : (run step Boot.calm.site lostTimer).calls =
      [⟨1, "Ann", 1, some (.failed "not_retryable" "Seat 1 is currently leased")⟩] := by decide +kernel
  have hlocked : ((run step Boot.calm.site lostTimer).app.tables.seats.get? 1).map Seat.shown =
      some (.locked, "Ann") := by decide +kernel
  refine ⟨hcalls, hlocked, fun h => ?_⟩
  have hrunning : (run step Boot.calm.site (lostTimer.take 1)).running 0 = some ⟨1, "Ann", 0, none⟩ := by decide
  have hleft := h.calls 0 ⟨1, "Ann", 1, some (.failed "not_retryable" "Seat 1 is currently leased")⟩ _ _
    (by rw [hcalls]; rfl) rfl (lostTimer.take 1) _ _ _ _ _ rfl ⟨rfl, hrunning⟩
  have hseat := congrArg (fun seats => (seats.get? 1).map Seat.shown) hleft.1
  exact absurd hseat (by decide +kernel)

end Site
end Ticket
