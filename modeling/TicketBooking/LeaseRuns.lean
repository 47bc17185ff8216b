import TicketBooking.Attempts
import TicketBooking.LeaseTable
/-!
# LeaseRuns — the two records of a lock along the runs of the application

A run of the application is a run of moves; its readings and ids are the run's own (`wellTimed`), so in every reachable
state the authority's record lags the seat table's (`tracked_run`).  Seen from outside: every lease is mirrored by one
seat, every lock in force has its lease, and a lock is renewed exactly while it is in force.  It is confirmed exactly
while it is in force and the timers of the confirmation start (`agrees_at`): `confirm_seat` starts them last, with the
lease released and the seat reserved.
-/
namespace Ticket

open Runs Expiry
open LeaseManager (live)

namespace Site

/-- A step purges by readings of its own, in order. -/
theorem moves_readings (s : Site) (e : Event) : ((s.moves e).filterMap Move.reading).Sublist e.readings := by
  have hspan : ∀ (env : Env) (ns : List ℕ), ns.Sublist (List.range Env.span) → (ns.map env.time).Sublist env.readings :=
    fun env ns h => h.map env.time
  cases e with
  | attempt call env draw =>
    simp only [moves]
    cases hc : s.running call with
    | none => exact List.nil_sublist _
    | some c =>
      simp only [Option.map_some, Option.getD_some, attemptMoves]
      cases (s.swept env).reaches env c.seatId with
      | none => exact hspan env [1] (by decide)
      | some server => exact hspan env [1, 16] (by decide)
  | confirm seatId env => exact hspan env [0] (by decide)
  | renew seatId env => exact hspan env [0] (by decide)
  | snapshot env => exact hspan env [0] (by decide)
  | toggle serverId env =>
    simp only [moves]
    split
    · exact List.nil_sublist _
    · split <;> exact List.nil_sublist _
  | _ => exact List.nil_sublist _

theorem moves_uuids (s : Site) (e : Event) : ((s.moves e).filterMap Move.uuid).Sublist e.uuid.toList := by
  cases e with
  | attempt call env draw =>
    simp only [moves]
    cases hc : s.running call with
    | none => exact List.nil_sublist _
    | some c =>
      simp only [Option.map_some, Option.getD_some, attemptMoves]
      cases (s.swept env).reaches env c.seatId with
      | none => exact List.nil_sublist _
      | some server => exact List.Sublist.refl _
  | toggle serverId env =>
    simp only [moves]
    split
    · exact List.nil_sublist _
    · split <;> exact List.nil_sublist _
  | _ => exact List.nil_sublist _

theorem runMoves_readings : ∀ (es : List Event) (s : Site),
    ((s.runMoves es).filterMap Move.reading).Sublist (es.flatMap Event.readings)
  | [], _ => List.Sublist.refl _
  | e :: es, s => by
    rw [runMoves, List.filterMap_append, List.flatMap_cons]
    exact (s.moves_readings e).append (runMoves_readings es _)

theorem runMoves_uuids : ∀ (es : List Event) (s : Site),
    ((s.runMoves es).filterMap Move.uuid).Sublist (es.filterMap Event.uuid)
  | [], _ => List.Sublist.refl _
  | e :: es, s => by
    have hone : (e :: es).filterMap Event.uuid = e.uuid.toList ++ es.filterMap Event.uuid := by
      cases h : e.uuid <;> simp [h]
    rw [runMoves, List.filterMap_append, hone]
    exact (s.moves_uuids e).append (runMoves_uuids es _)

theorem runMoves_allowed : ∀ (es : List Event) (s : Site),
    Along Tables.step Tables.Allowed s.app.tables (s.runMoves es)
  | [], _ => trivial
  | e :: es, s => by
    refine (along_append _ _ _).2 ⟨s.moves_allowed e, ?_⟩
    rw [← tables_step]
    exact runMoves_allowed es _

theorem runMoves_snoc : ∀ (es : List Event) (e : Event) (s : Site),
    s.runMoves (es ++ [e]) = s.runMoves es ++ (run step s es).moves e
  | [], e, s => by simp [runMoves]
  | e' :: es, e, s => by
    rw [List.cons_append, runMoves, runMoves, runMoves_snoc es, run_cons, List.append_assoc]

theorem wellTimed (s : Site) {es : List Event} (hc : Chronological es) (hd : DistinctIds es) :
    Tables.WellTimed (s.runMoves es) :=
  ⟨List.Pairwise.sublist (runMoves_readings es s) hc, List.Sublist.nodup (runMoves_uuids es s) hd⟩

theorem lockedLease_init (b : Boot) (i : ℤ) : b.site.app.tables.lockedLease i = none := by
  show (Tables.initSeats.get? i).bind _ = none
  rw [Tables.initSeats_get?]
  split <;> rfl

theorem tracked_init (b : Boot) : Tables.Tracked [] b.site.app.tables := by
  have hnone := lockedLease_init b
  refine ⟨fun later _ => ⟨LeaseManager.exact_new 30, ⟨fun i l hi => (nomatch hi), fun i l hi => ?_⟩,
    fun i j l l' hi => ?_, fun i l hi => ?_⟩, fun i l hi => ?_⟩
  all_goals
    rw [hnone] at hi
    cases hi

/-- **In every reachable state the records agree.** -/
theorem tracked_run (b : Boot) {es : List Event} (hc : Chronological es) (hd : DistinctIds es) :
    Tables.Tracked (b.site.runMoves es) (run step b.site es).app.tables := by
  rw [tables_run]
  exact Tables.tracked_run (tracked_init b) _ (runMoves_allowed es b.site) (b.site.wellTimed hc hd)

theorem agree_run (b : Boot) {es : List Event} (hc : Chronological es) (hd : DistinctIds es) {now : Time}
    (hn : ∀ r ∈ es.flatMap Event.readings, r ≤ now) : Tables.Agree now (run step b.site es).app.tables :=
  (tracked_run b hc hd).agree now fun r hr => hn r ((runMoves_readings es b.site).subset hr)

end Site

/-- The seat is locked under the lease. -/
def Seat.Carries (seat : Seat) (l : Lease) : Prop :=
  seat.state = .locked ∧ seat.leaseId = l.leaseId ∧ seat.owner = l.owner ∧ seat.server = l.holder ∧
    seat.expiresAt = l.expiresAt

namespace Tables

/-- The seat is locked, and the reading is before the lock's deadline. -/
def InForce (t : Tables) (i : ℤ) (now : Time) : Prop :=
  ∃ seat, t.seats.get? i = some seat ∧ seat.state = .locked ∧ now < seat.expiresAt

/-- **The seat table and the lease authority agree** at the reading `now`. -/
structure Mirrors (t : Tables) (now : Time) : Prop where
  lease : ∀ l, (∃ i, t.leases.bySeat.get? i = some l) ∨ (∃ id, t.leases.byId.get? id = some l) →
    ∃! i, ∃ seat, t.seats.get? i = some seat ∧ seat.Carries l
  lock : ∀ i seat, t.seats.get? i = some seat → seat.state = .locked → now < seat.expiresAt →
    ∃ l, t.leases.bySeat.get? i = some l ∧ t.leases.byId.get? seat.leaseId = some l ∧ seat.Carries l

theorem lockedLease_of_carries {t : Tables} {i : ℤ} {l : Lease} :
    (∃ seat, t.seats.get? i = some seat ∧ seat.Carries l) →
      ∃ l', t.lockedLease i = some l' ∧ l'.leaseId = l.leaseId := by
  rintro ⟨seat, hs, hk, hid, -⟩
  exact ⟨_, lockedLease_of_locked hs hk, hid⟩

theorem Agree.mirrors {t : Tables} {now : Time} (h : Agree now t) : t.Mirrors now := by
  constructor
  · intro l hl
    have hseat : t.leases.bySeat.get? l.seatId = some l := by
      rcases hl with ⟨i, hi⟩ | ⟨id, hid⟩
      · rw [(h.exact.seat i l hi).1]
        exact hi
      · exact (h.exact.id id l hid).2
    have hlock := h.lags.sub _ l hseat
    obtain ⟨seat, hs, hk, he⟩ := lockedLease_eq_some.1 hlock
    refine ⟨l.seatId, ⟨seat, hs, hk, ?_⟩, fun j hj => ?_⟩
    · rw [he]
      exact ⟨rfl, rfl, rfl, rfl⟩
    · obtain ⟨l', hl', hid⟩ := lockedLease_of_carries hj
      exact h.ids _ _ l' l hl' hlock hid
  · intro i seat hs hk hlt
    have hlock := lockedLease_of_locked hs hk
    have hseat : t.leases.bySeat.get? i = some ⟨seat.leaseId, i, seat.server, seat.owner, seat.expiresAt⟩ := by
      cases hb : t.leases.bySeat.get? i with
      | none => exact absurd (h.lags.overdue i _ hlock hb) (not_le.2 hlt)
      | some o => rw [← hlock, h.lags.sub i o hb]
    exact ⟨_, hseat, (h.id_iff_seat hlock).2 hseat, hk, rfl, rfl, rfl, rfl⟩

section
variable {t : Tables} {now later : Time} {i : ℤ} (h : Agree now t) (hl : now ≤ later)
include h hl

/-- **A confirmation is refused exactly when the lock is not in force**; one that is not refused succeeds exactly when
both its timers start. -/
theorem Agree.confirm_answer (hf : t.Furnished) (stamp : Time) (starts : ℕ → Bool) :
    ((∃ c m, (t.confirmSeat i later stamp starts).1 = .failed c m) ↔ ¬ t.InForce i later) ∧
    ((t.confirmSeat i later stamp starts).1 = .ok ↔ t.InForce i later ∧ starts 0 = true ∧ starts 1 = true) := by
  rcases confirmSeat_cases t i later stamp starts with ⟨hn, -, c, m, hr⟩ | ⟨seat, hs, hk, hdead, -, c, m, hr⟩ |
      ⟨seat, l, hs, hk, hok, ht⟩
  · have hnot : ¬ t.InForce i later := fun ⟨seat, hs, hk, _⟩ => hn ⟨seat, hs, hk⟩
    rw [hr]
    exact ⟨iff_of_true ⟨c, m, rfl⟩ hnot, iff_of_false nofun fun h => hnot h.1⟩
  · have hlive := h.live_id (lockedLease_of_locked hs hk) hl
    have hnot : ¬ t.InForce i later := by
      rintro ⟨seat', hs', -, hlt⟩
      obtain rfl := Option.some.inj (hs.symm.trans hs')
      rw [if_pos hlt] at hlive
      refine hdead _ ((LeaseManager.validate_ok_iff h.exact seat.leaseId later (some i) _).2 ⟨hlive, fun z hz => ?_⟩)
      exact Option.some.inj hz
    rw [hr]
    exact ⟨iff_of_true ⟨c, m, rfl⟩ hnot, iff_of_false nofun fun h => hnot h.1⟩
  · have hlive := h.live_id (lockedLease_of_locked hs hk) hl
    have hval := ((LeaseManager.validate_ok_iff h.exact seat.leaseId later (some i) l).1 hok).1
    have hin : t.InForce i later := by
      refine ⟨seat, hs, hk, ?_⟩
      by_contra hlt
      rw [if_neg hlt] at hlive
      exact absurd (hlive.symm.trans hval) (by simp)
    have hcopy : (t.primary.getSeat i).isSome = true := (hf.copies i).2 ((hf.seats i).1 (by rw [hs]; rfl))
    rw [ht _ rfl]
    -- the lease is released and the seat reserved by now: only the timers decide the answer
    simp only
    rw [publish_fst]
    · by_cases hsent : starts 0 = true ∧ starts 1 = true
      · rw [decide_eq_true hsent]
        exact ⟨iff_of_false nofun (not_not.2 hin), iff_of_true rfl ⟨hin, hsent⟩⟩
      · rw [decide_eq_false hsent]
        exact ⟨iff_of_false nofun (not_not.2 hin), iff_of_false nofun fun h => hsent h.2⟩
    · exact hcopy

/-- **A renewal succeeds exactly when the lock is in force.** -/
theorem Agree.renew_ok (renewed last : Time) :
    (∃ n, (t.renewLease i later renewed last).1 = .renewed n) ↔ t.InForce i later := by
  rcases renewLease_cases t i later renewed last with ⟨hn, -, c, m, hr⟩ | ⟨seat, e, hs, hk, -, hdead, -, hr⟩ |
      ⟨seat, l, hs, hk, -, hok, ht⟩
  · rw [hr]
    refine iff_of_false (fun ⟨n, hr⟩ => (nomatch hr)) ?_
    rintro ⟨seat, hs, hk, -⟩
    have hne := h.named i _ (lockedLease_of_locked hs hk)
    exact (hn seat hs).elim (fun hn => hn hk) hne
  · have hlive := h.live_id (lockedLease_of_locked hs hk) hl
    refine iff_of_false (fun ⟨n, hn⟩ => hr n hn) ?_
    rintro ⟨seat', hs', -, hlt⟩
    obtain rfl := Option.some.inj (hs.symm.trans hs')
    rw [if_pos hlt] at hlive
    rw [LeaseManager.renew_live h.exact _ none later renewed hlive] at hdead
    cases hdead
  · have hlive := h.live_id (lockedLease_of_locked hs hk) hl
    rw [ht]
    refine iff_of_true ⟨_, rfl⟩ ⟨seat, hs, hk, ?_⟩
    by_contra hlt
    rw [if_neg hlt] at hlive
    rw [LeaseManager.renew_dead h.exact _ none later renewed hlive] at hok
    cases hok

end

end Tables

namespace Site

theorem chronological_left {pre post : List Event} (h : Chronological (pre ++ post)) : Chronological pre := by
  unfold Chronological at h
  rw [List.flatMap_append] at h
  exact (List.pairwise_append.1 h).1

theorem distinctIds_left {pre post : List Event} (h : DistinctIds (pre ++ post)) : DistinctIds pre := by
  unfold DistinctIds at h
  rw [List.filterMap_append] at h
  exact (List.nodup_append.1 h).1

theorem chronological_snoc {es : List Event} {e : Event} (h : Chronological (es ++ [e])) :
    Chronological es ∧ ∀ r ∈ e.readings, ∀ r' ∈ es.flatMap Event.readings, r' ≤ r := by
  refine ⟨chronological_left h, fun r hr r' hr' => ?_⟩
  unfold Chronological at h
  rw [List.flatMap_append, List.flatMap_singleton] at h
  exact (List.pairwise_append.1 h).2.2 r' hr' r hr

theorem distinctIds_snoc {es : List Event} {e : Event} (h : DistinctIds (es ++ [e])) :
    DistinctIds es ∧ ∀ u ∈ e.uuid, u ∉ es.filterMap Event.uuid := by
  refine ⟨distinctIds_left h, fun u hu hmem => ?_⟩
  unfold DistinctIds at h
  rw [Tables.filterMap_snoc] at h
  exact (List.nodup_append.1 h).2.2 u hmem u (by simpa using hu) rfl

/-- **The authority never refuses an attempt** that finds its seat neither reserved nor locked, whichever server it is
routed to. -/
theorem attempt_not_conflict (b : Boot) {es : List Event} {call : ℕ} {env : Env} {draw : ℚ}
    (hc : Chronological (es ++ [.attempt call env draw])) (hd : DistinctIds (es ++ [.attempt call env draw])) {i : ℤ}
    (hb : ((run step b.site es).swept env).tables.Bookable i) (cluster : Cluster) (requester : String)
    (server : ServerId) (m : String) :
    (({ (run step b.site es).swept env with cluster := cluster } : App).reserveOnServer env i requester server).1 ≠
      .error (.leaseConflict m) := by
  obtain ⟨hces, hread⟩ := chronological_snoc hc
  obtain ⟨hdes, huuid⟩ := distinctIds_snoc hd
  have hsweep : env.time 1 ∈ env.readings := List.mem_map_of_mem (by decide)
  have hagree := agree_run b hces hdes (hread _ hsweep)
  have htracked := tracked_run b hces hdes
  have hids := List.Sublist.subset (runMoves_uuids es b.site)
  generalize run step b.site es = s at *
  obtain ⟨hswept, hfrom⟩ := Tables.agree_step hagree (v := .sweep (env.time 1)) trivial
    (fun u hu => (nomatch hu)) (fun r hr => by rw [← Option.some.inj hr]; exact ⟨le_rfl, le_rfl⟩) le_rfl
  have hfresh : ∀ j l, (s.swept env).tables.lockedLease j = some l → l.leaseId ≠ env.uuid := by
    intro j l hj hid
    rcases hfrom j l hj with ⟨l', hj', hid'⟩ | ⟨u, hu, -⟩
    · obtain ⟨u, hu, hul⟩ := htracked.ids j l' hj'
      have hsame : u = env.uuid := Subtype.ext (hul.trans (hid'.trans hid))
      exact huuid env.uuid rfl (hsame ▸ hids hu)
    · cases hu
  obtain ⟨-, hok⟩ := Tables.lockSeat_writes hswept (env.time 16) hb hfresh requester server (env.time 17) (env.time 18)
    env.starts
  unfold App.reserveOnServer
  split
  · exact nofun
  · split
    · exact nofun
    · exact hok m

/-- **What holds of the two records before a step**, at every reading from the latest on: every lease is mirrored by one
seat and every lock in force has its lease; a confirmation is refused exactly when the lock is not in force and succeeds
exactly when it is and both timers start; a renewal succeeds exactly when the lock is in force; no attempt meets a lease
conflict. -/
theorem agrees_at (b : Boot) (es : List Event) (e : Event) (hc : Chronological (es ++ [e]))
    (hd : DistinctIds (es ++ [e])) :
    (∀ now, (∀ r ∈ es.flatMap Event.readings, r ≤ now) → (run step b.site es).app.tables.Mirrors now) ∧
    (∀ i env, e = .confirm i env →
      ((∃ c m, (step (run step b.site es) e).1.response = some (.failed c m)) ↔
        ¬ (run step b.site es).app.tables.InForce i (env.time 0)) ∧
      ((step (run step b.site es) e).1.response = some .ok ↔
        (run step b.site es).app.tables.InForce i (env.time 0) ∧ env.Sends)) ∧
    (∀ i env, e = .renew i env → ((∃ n, (step (run step b.site es) e).1.response = some (.renewed n)) ↔
      (run step b.site es).app.tables.InForce i (env.time 0))) ∧
    (∀ call env draw i, e = .attempt call env draw → ((run step b.site es).swept env).tables.Bookable i →
      ∀ cluster requester server m,
        (({ (run step b.site es).swept env with cluster := cluster } : App).reserveOnServer env i requester server).1 ≠
          .error (.leaseConflict m)) := by
  obtain ⟨hces, hread⟩ := chronological_snoc hc
  obtain ⟨hdes, -⟩ := distinctIds_snoc hd
  have hfirst : ∀ env : Env, e.readings = env.readings →
      Tables.Agree (env.time 0) (run step b.site es).app.tables := by
    intro env he
    refine agree_run b hces hdes (hread _ ?_)
    rw [he]
    exact List.mem_map_of_mem (by decide)
  refine ⟨fun now hn => (agree_run b hces hdes hn).mirrors, ?_, ?_, ?_⟩
  · rintro i env rfl
    have h := (hfirst env rfl).confirm_answer (i := i) le_rfl (furnished_run b es) (env.time 1) env.starts
    simpa only [step, App.confirmSeat, Option.some.injEq, Env.Sends] using h
  · rintro i env rfl
    have h := (hfirst env rfl).renew_ok (i := i) le_rfl (env.time 1) (env.time 2)
    simpa only [step, App.renewLease, Option.some.injEq] using h
  · rintro call env draw i rfl hb
    exact attempt_not_conflict b hc hd hb

/-- **The seat table and the lease authority agree along a run**: in every state of it, at every reading from the latest
on, each lease is mirrored by one seat and each lock in force has its lease; a confirmation and a renewal succeed
exactly when the lock is in force at the reading they validate with; and no attempt meets a lease conflict. -/
structure TablesAgree (b : Boot) (es : List Event) : Prop where
  mirrors : ∀ pre post, es = pre ++ post → ∀ now, (∀ r ∈ pre.flatMap Event.readings, r ≤ now) →
    (run step b.site pre).app.tables.Mirrors now
  confirms : ∀ pre post i env, es = pre ++ .confirm i env :: post →
    ((step (run step b.site pre) (.confirm i env)).1.response = some .ok ↔
      (run step b.site pre).app.tables.InForce i (env.time 0))
  renews : ∀ pre post i env, es = pre ++ .renew i env :: post →
    ((∃ n, (step (run step b.site pre) (.renew i env)).1.response = some (.renewed n)) ↔
      (run step b.site pre).app.tables.InForce i (env.time 0))
  unrefused : ∀ pre post call env draw i, es = pre ++ .attempt call env draw :: post →
    ((run step b.site pre).swept env).tables.Bookable i → ∀ cluster requester server m,
      (({ (run step b.site pre).swept env with cluster := cluster } : App).reserveOnServer env i requester server).1 ≠
        .error (.leaseConflict m)

/-- A confirmation of a lock in force starts both timers of its broadcast. -/
def ConfirmSends (s : Site) (e : Event) : Prop :=
  ∀ i env, e = .confirm i env → s.app.tables.InForce i (env.time 0) → env.Sends

/-- **The two records agree exactly as long as no confirmation of a lock in force loses a timer.** -/
theorem tables_agree_iff (b : Boot) (es : List Event) (hc : Chronological es) (hd : DistinctIds es) :
    TablesAgree b es ↔ Along step ConfirmSends b.site es := by
  have hat : ∀ pre e post, es = pre ++ e :: post → Chronological (pre ++ [e]) ∧ DistinctIds (pre ++ [e]) := by
    rintro pre e post rfl
    rw [← List.singleton_append, ← List.append_assoc] at hc hd
    exact ⟨chronological_left hc, distinctIds_left hd⟩
  rw [along_iff]
  constructor
  · rintro h pre e post he i env rfl hin
    obtain ⟨hce, hde⟩ := hat pre _ post he
    obtain ⟨-, hconfirm, -⟩ := agrees_at b pre (.confirm i env) hce hde
    exact ((hconfirm i env rfl).2.1 ((h.confirms pre post i env he).2 hin)).2
  · intro h
    refine ⟨?_, fun pre post i env he => ?_, fun pre post i env he => ?_, fun pre post call env draw i he => ?_⟩
    · rintro pre post rfl now hn
      exact (agree_run b (chronological_left hc) (distinctIds_left hd) hn).mirrors
    · obtain ⟨hce, hde⟩ := hat pre _ post he
      obtain ⟨-, hconfirm, -⟩ := agrees_at b pre (.confirm i env) hce hde
      rw [(hconfirm i env rfl).2]
      exact and_iff_left_of_imp (h pre _ post he i env rfl)
    · obtain ⟨hce, hde⟩ := hat pre _ post he
      exact (agrees_at b pre (.renew i env) hce hde).2.2.1 i env rfl
    · obtain ⟨hce, hde⟩ := hat pre _ post he
      exact (agrees_at b pre (.attempt call env draw) hce hde).2.2.2 call env draw i rfl

/-- The lock of `oneLock` is confirmed, and both timers start. -/
theorem tables_agree_iff_oneLock : TablesAgree Boot.calm (oneLock ++ [.confirm 1 (.calm 5 idB)]) := by
  refine (tables_agree_iff Boot.calm _ (by decide +kernel) (by decide +kernel)).2 ((along_snoc _ _).2 ⟨?_, ?_⟩)
  · exact ⟨fun i env he => (nomatch he), fun i env he => (nomatch he), trivial⟩
  · rintro i env he -
    obtain ⟨-, rfl⟩ := Event.confirm.inj he
    exact ⟨rfl, rfl⟩

/-- A confirmation whose timers do not start. -/
def lostConfirm : Event := .confirm 1 { Env.calm 5 idB with starts := fun _ => false }

/-- **The confirmation of a lock in force raises**, with the seat reserved. -/
theorem lostConfirm_raises : Chronological (oneLock ++ [lostConfirm]) ∧ DistinctIds (oneLock ++ [lostConfirm]) ∧
    (run step Boot.calm.site oneLock).app.tables.InForce 1 5 ∧
    (step (run step Boot.calm.site oneLock) lostConfirm).1.response = some (.raised Tables.cannotStart) ∧
    ((step (run step Boot.calm.site oneLock) lostConfirm).2.app.tables.seats.get? 1).map Seat.shown =
      some (.reserved, "Ann") ∧
    ¬ TablesAgree Boot.calm (oneLock ++ [lostConfirm]) := by
  have hin : (run step Boot.calm.site oneLock).app.tables.InForce 1 5 :=
    ⟨⟨.locked, "Ann", idA, 30, "Server 1"⟩, by decide +kernel, rfl, by decide +kernel⟩
  have hraised : (step (run step Boot.calm.site oneLock) lostConfirm).1.response =
      some (.raised Tables.cannotStart) := by decide +kernel
  refine ⟨by decide +kernel, by decide +kernel, hin, hraised, by decide +kernel, fun h => ?_⟩
  have hok := (h.confirms oneLock [] 1 _ rfl).2 hin
  exact absurd (hraised.symm.trans hok) (by decide)

end Site
end Ticket
