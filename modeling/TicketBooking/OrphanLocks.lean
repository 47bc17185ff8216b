import TicketBooking.Attempts
import TicketBooking.SilentExpiry
/-!
# OrphanLocks — the locks whose lease was dropped silently

A lock is orphaned when the authority has no lease for its seat any more (`Orphaned`); `SilentExpiry` says how that
comes.  Such a lock can be neither confirmed nor renewed, no sweep returns its seat and no attempt books it, whatever
else happens: it stays as it is until the very seat is cancelled or everything is reset (`orphaned_iff`), and every
operation on it is refused meanwhile (`orphan_refused`).
-/
namespace Ticket

open Runs Expiry
open LeaseManager (live)

/-- The moves that put an orphaned seat back. -/
def Move.PutsBack (i : ℤ) : Move → Prop
  | .cancel j => j = i
  | .reset _ => True
  | _ => False

namespace Tables

/-- The seat is locked, and the authority has no lease for it. -/
structure Orphaned (t : Tables) (i : ℤ) (seat : Seat) : Prop where
  found : t.seats.get? i = some seat
  locked : seat.state = .locked
  lost : t.leases.bySeat.get? i = none

variable {t t' : Tables} {now : Time} {i j : ℤ} {seat : Seat}

theorem Orphaned.ne_of_bookable (h : t.Orphaned i seat) (hb : t.Bookable j) : i ≠ j := by
  rintro rfl
  obtain ⟨seat', hs, -, hl⟩ := hb
  obtain rfl := Option.some.inj (h.found.symm.trans hs)
  exact hl h.locked

/-! ## A method writes no seat but its own -/

section
variable (hij : i ≠ j)
include hij

theorem lockSeat_other (t : Tables) (requester : String) (server : ServerId) (uuid : Uuid) (r later stamp : Time)
    (starts : ℕ → Bool) :
    (t.lockSeat j requester server uuid r later stamp starts).2.seats.get? i = t.seats.get? i := by
  rcases lockSeat_cases t j requester server uuid r later stamp starts with ⟨_, -, ht⟩ | ⟨l, -, ht⟩
  · rw [ht]
  · rw [ht _ rfl]
    simp only [publish_seats, Dict.get?_modify, if_neg hij]

theorem confirmSeat_other (t : Tables) (r stamp : Time) (starts : ℕ → Bool) :
    (t.confirmSeat j r stamp starts).2.seats.get? i = t.seats.get? i := by
  rcases confirmSeat_cases t j r stamp starts with ⟨-, ht, -⟩ | ⟨_, -, -, -, ht, -⟩ | ⟨_, l, -, -, -, ht⟩
  · rw [ht]
  · rw [ht]
  · rw [ht _ rfl]
    simp only [publish_seats]
    exact Dict.get?_set_of_ne _ _ hij

theorem cancelLock_other (t : Tables) : (t.cancelLock j).2.seats.get? i = t.seats.get? i := by
  rcases cancelLock_cases t j with ⟨-, ht, -⟩ | ⟨_, -, -, ht⟩
  · rw [ht]
  · rw [ht]
    exact Dict.get?_set_of_ne _ _ hij

theorem renewLease_other (t : Tables) (r later last : Time) :
    (t.renewLease j r later last).2.seats.get? i = t.seats.get? i := by
  rcases renewLease_cases t j r later last with ⟨-, ht, -⟩ | ⟨_, _, -, -, -, -, ht, -⟩ | ⟨_, l, -, -, -, -, ht⟩
  · rw [ht]
  · rw [ht]
  · rw [ht]
    exact Dict.get?_set_of_ne _ _ hij

end

/-! ## Orphaned locks -/

/-- The lease of an orphaned lock is overdue. -/
theorem Orphaned.overdue (h : t.Orphaned i seat) (ha : Agree now t) : seat.expiresAt ≤ now :=
  ha.lags.overdue i _ (lockedLease_of_locked h.found h.locked) h.lost

theorem Orphaned.not_inForce (h : t.Orphaned i seat) (ha : Agree now t) : ¬ t.InForce i now := by
  rintro ⟨seat', hs, -, hlt⟩
  obtain rfl := Option.some.inj (h.found.symm.trans hs)
  exact absurd hlt (not_lt.2 (h.overdue ha))

theorem live_of_lost (h : t.leases.bySeat.get? i = none) (now : Time) : live now t.leases.bySeat.get? i = none :=
  liveAt_eq_none.2 fun _ ho => (nomatch h.symm.trans ho)

/-- A purge touches no seat and finds no lease. -/
theorem Orphaned.purge (h : t.Orphaned i seat) (ha : t.leases.Exact) (now : Time) :
    ({ t with leases := (t.leases.expireLocked now).2 } : Tables).Orphaned i seat := by
  refine ⟨h.found, h.locked, ?_⟩
  simp only
  rw [LeaseManager.expireLocked_bySeat ha]
  exact live_of_lost h.lost now

/-- What is written of another seat and its lease leaves an orphaned lock alone. -/
theorem Orphaned.of_writes (h : t.Orphaned i seat) {o : Option Lease} (hw : Writes now t t' j o) (hij : i ≠ j)
    (hs : t'.seats.get? i = t.seats.get? i) : t'.Orphaned i seat := by
  refine ⟨hs.trans h.found, h.locked, ?_⟩
  rw [hw.seats, Function.update_of_ne hij]
  exact live_of_lost h.lost now

theorem Orphaned.sweep (h : t.Orphaned i seat) (ha : Agree now t) (r : Time) :
    i ∉ (t.expireLeasesLocked r).1 ∧ (t.expireLeasesLocked r).2.Orphaned i seat := by
  have hnot : i ∉ (t.expireLeasesLocked r).1 := by
    rw [mem_expireLeasesLocked]
    rintro ⟨⟨l, ho, hl⟩, -⟩
    obtain ⟨⟨s, hs⟩, -⟩ := (LeaseManager.mem_overdue _ _ _).1 ho
    rw [← (ha.exact.seat s l hs).1, hl, h.lost] at hs
    cases hs
  refine ⟨hnot, ?_, h.locked, ?_⟩
  · rw [expireLeasesLocked_seat, if_neg hnot]
    exact h.found
  · rw [(sweep_writes ha r).2.1]
    exact live_of_lost h.lost r

/-- **A move leaves an orphaned lock as it is** unless it puts the seat back. -/
theorem Orphaned.step (h : t.Orphaned i seat) (hagree : Agree now t) {v : Move} (ha : t.Allowed v) (hf : t.Fresh v)
    (hr : ∀ r ∈ v.reading, now ≤ r) (hv : ¬ v.PutsBack i) : (t.step v).2.Orphaned i seat := by
  cases v with
  | sweep r => exact (h.sweep hagree r).2
  | lock j requester server uuid r acquired stamp starts =>
    have hij := h.ne_of_bookable ha
    obtain ⟨hw, -⟩ := lockSeat_writes hagree r ha (hf uuid rfl) requester server acquired stamp starts
    exact h.of_writes hw hij (lockSeat_other hij t requester server uuid r acquired stamp starts)
  | confirm j r stamp starts =>
    by_cases hk : t.IsLocked j
    · obtain ⟨seat', hs, hl⟩ := hk
      obtain ⟨hlive, hdead⟩ := confirmSeat_writes hagree (hr r rfl) hs hl stamp starts
      by_cases hlt : r < seat'.expiresAt
      · have hij : i ≠ j := by
          rintro rfl
          exact h.not_inForce (hagree.mono (hr r rfl)) ⟨seat', hs, hl, hlt⟩
        exact h.of_writes (hlive hlt) hij (confirmSeat_other hij t r stamp starts)
      · simp only [Tables.step]
        rw [hdead hlt]
        exact h.purge hagree.exact r
    · simp only [Tables.step]
      rw [confirmSeat_unlocked hk r stamp starts]
      exact h
  | cancel j =>
    have hij : i ≠ j := fun he => hv he.symm
    by_cases hk : t.IsLocked j
    · obtain ⟨-, hseats, -⟩ := cancelLock_writes hagree hk
      refine ⟨(cancelLock_other hij t).trans h.found, h.locked, ?_⟩
      simp only [Tables.step]
      rw [hseats, Function.update_of_ne hij]
      exact h.lost
    · simp only [Tables.step]
      rw [cancelLock_unlocked hk]
      exact h
  | renew j r renewed last =>
    by_cases hk : t.IsLocked j
    · obtain ⟨seat', hs, hl⟩ := hk
      obtain ⟨hlive, hdead⟩ := renewLease_writes hagree (hr r rfl) hs hl renewed last
      by_cases hlt : r < seat'.expiresAt
      · have hij : i ≠ j := by
          rintro rfl
          exact h.not_inForce (hagree.mono (hr r rfl)) ⟨seat', hs, hl, hlt⟩
        exact h.of_writes (hlive hlt) hij (renewLease_other hij t r renewed last)
      · simp only [Tables.step]
        rw [hdead hlt]
        exact h.purge hagree.exact r
    · simp only [Tables.step]
      rw [renewLease_unlocked hk r renewed last]
      exact h
  | reset stamp => exact absurd trivial hv
  | deliver timer => exact ⟨h.found, h.locked, h.lost⟩
  | push server => exact ⟨h.found, h.locked, h.lost⟩

/-- **A move that puts the seat back ends it.** -/
theorem not_orphaned_of_putsBack {v : Move} (hv : v.PutsBack i) : ¬ (t.step v).2.Orphaned i seat := by
  intro h
  cases v with
  | cancel j =>
    obtain rfl : j = i := hv
    have hfound := h.found
    simp only [Tables.step] at hfound
    rcases cancelLock_cases t j with ⟨hn, ht, -⟩ | ⟨_, -, -, ht⟩
    · rw [ht] at hfound
      exact hn ⟨seat, hfound, h.locked⟩
    · rw [ht] at hfound
      simp only [Dict.get?_set_self, Option.some.injEq] at hfound
      have hl := h.locked
      rw [← hfound] at hl
      cases hl
  | reset stamp =>
    have hnone : (t.step (.reset stamp)).2.lockedLease i = none := lockedLease_reset t stamp i
    rw [lockedLease_of_locked h.found h.locked] at hnone
    cases hnone
  | _ => cases hv

/-- The authority does not know the id of an orphaned lock. -/
theorem Orphaned.live_id (h : t.Orphaned i seat) (ha : Agree now t) :
    live now t.leases.byId.get? seat.leaseId = none := by
  have hid := ha.live_id (lockedLease_of_locked h.found h.locked) le_rfl
  rw [if_neg (not_lt.2 (h.overdue ha))] at hid
  exact hid

theorem Orphaned.confirm (h : t.Orphaned i seat) (ha : Agree now t) (stamp : Time) (starts : ℕ → Bool) :
    (t.confirmSeat i now stamp starts).1 = .failed "lease_expired" s!"Seat {i} lease expired" := by
  have hdead : ∃ m, (t.leases.validate seat.leaseId (some i) now) =
      (.error (.notFound m), (t.leases.expireLocked now).2) := by
    simp only [LeaseManager.validate, LeaseManager.expireLocked_byId ha.exact, h.live_id ha]
    exact ⟨_, rfl⟩
  obtain ⟨m, hm⟩ := hdead
  simp only [confirmSeat, h.found, h.locked, ne_eq, not_true_eq_false, if_false, hm]

theorem Orphaned.renew (h : t.Orphaned i seat) (ha : Agree now t) (later last : Time) :
    (t.renewLease i now later last).1 = .failed "lease_expired" s!"Lease {seat.leaseId} is not active" := by
  have hne := ha.named i _ (lockedLease_of_locked h.found h.locked)
  simp only [renewLease, h.found, h.locked, ne_eq, not_true_eq_false, false_or, if_neg hne,
    LeaseManager.renew_dead ha.exact _ none now later (h.live_id ha)]

/-! ## A run of moves -/

/-- **What every move keeps of tables that agree, a run keeps**: the moves of a run that began well go on. -/
theorem invariant_tracked {P : Tables → Prop} {G : Move → Prop}
    (hs : ∀ (t : Tables) (now : Time) (v : Move), Agree now t → t.Allowed v → t.Fresh v → (∀ r ∈ v.reading, now ≤ r) →
      P t → G v → P (t.step v).2) {t0 : Tables} (h0 : Tracked [] t0) {vs : List Move} (hp : P (run Tables.step t0 vs))
    (ws : List Move) (ha : Along Tables.step Allowed t0 (vs ++ ws)) (hw : WellTimed (vs ++ ws)) (hg : ∀ w ∈ ws, G w) :
    P (run Tables.step t0 (vs ++ ws)) := by
  induction ws using List.reverseRecOn with
  | nil => rwa [List.append_nil]
  | append_singleton ws w ih =>
    rw [← List.append_assoc] at ha hw ⊢
    obtain ⟨hw', hreading, huuid⟩ := hw.init
    obtain ⟨ha', hav⟩ := (along_snoc _ w).1 ha
    have ht := tracked_run h0 _ ha' hw'
    obtain ⟨later, hb⟩ := (List.finite_toSet ((vs ++ ws ++ [w]).filterMap Move.reading)).bddAbove
    obtain ⟨now, hagree, -, hr⟩ := ht.agree_before hreading fun r hr => hb hr
    rw [run_snoc]
    refine hs _ now w hagree hav (ht.fresh huuid) (fun r hv => (hr r hv).1) ?_ (hg w (by simp))
    exact ih ha' hw' fun w' hw' => hg w' (List.mem_append_left _ hw')

end Tables

/-- The events that put an orphaned seat back: its cancellation and a reset. -/
def Event.PutsBack (i : ℤ) : Event → Prop
  | .cancel j => j = i
  | .reset _ => True
  | _ => False

namespace Site

theorem runMoves_append : ∀ (es fs : List Event) (s : Site),
    s.runMoves (es ++ fs) = s.runMoves es ++ (run step s es).runMoves fs
  | [], _, _ => rfl
  | e :: es, fs, s => by
    rw [List.cons_append, runMoves, runMoves, runMoves_append es, run_cons, List.append_assoc]

theorem putsBack_of_moves {s : Site} {e : Event} {i : ℤ} {v : Move} (hv : v ∈ s.moves e) (h : v.PutsBack i) :
    e.PutsBack i := by
  rcases mem_moves hv with ⟨_, _, _, _, -, -, rfl | ⟨_, -, rfl⟩⟩ | ⟨_, _, -, rfl⟩ | ⟨_, rfl, rfl⟩ | ⟨_, _, -, rfl⟩ |
    ⟨_, _, _, -, rfl⟩ | ⟨_, -, rfl⟩ | ⟨_, rfl, rfl⟩ | ⟨_, -, rfl⟩
  all_goals first | exact h | cases h

theorem mem_runMoves {v : Move} : ∀ (es : List Event) (s : Site), v ∈ s.runMoves es →
    ∃ pre e post, es = pre ++ e :: post ∧ v ∈ (run step s pre).moves e
  | [], _, hv => by cases hv
  | e :: es, s, hv => by
    rcases List.mem_append.1 hv with hv | hv
    · exact ⟨[], e, es, rfl, hv⟩
    · obtain ⟨pre, e', post, rfl, hmem⟩ := mem_runMoves es _ hv
      exact ⟨e :: pre, e', post, rfl, hmem⟩

theorem moves_of_putsBack {s : Site} {e : Event} {i : ℤ} (h : e.PutsBack i) :
    ∃ v, s.moves e = [v] ∧ v.PutsBack i := by
  cases e with
  | cancel j => exact ⟨.cancel j, rfl, h⟩
  | reset stamp => exact ⟨.reset stamp, rfl, trivial⟩
  | _ => cases h

theorem orphaned_run (b : Boot) {pre mid : List Event} (hc : Chronological (pre ++ mid)) (hd : DistinctIds (pre ++ mid))
    {i : ℤ} {seat : Seat} (h : (run step b.site pre).app.tables.Orphaned i seat) (hn : ∀ e ∈ mid, ¬ e.PutsBack i) :
    (run step b.site (pre ++ mid)).app.tables.Orphaned i seat := by
  have ha := runMoves_allowed (pre ++ mid) b.site
  have hw := b.site.wellTimed hc hd
  rw [tables_run] at h ⊢
  rw [runMoves_append] at ha hw ⊢
  refine Tables.invariant_tracked (P := fun t => t.Orphaned i seat) (G := fun v => ¬ v.PutsBack i)
    (fun t now v hagree hav hf hr hp hv => hp.step hagree hav hf hr hv) (tracked_init b) h _ ha hw ?_
  intro v hv hp
  obtain ⟨mid₁, e, mid₂, rfl, hmem⟩ := mem_runMoves mid _ hv
  exact hn e (by simp) (putsBack_of_moves hmem hp)

/-- **Every operation on the seat is refused**, and no sweep returns it. -/
def Refuses (s : Site) (e : Event) (i : ℤ) (seat : Seat) : Prop :=
  i ∉ (step s e).1.returned ∧
  match e with
  | .confirm j _ => j = i → (step s e).1.response = some (.failed "lease_expired" s!"Seat {i} lease expired")
  | .renew j _ => j = i → (step s e).1.response = some (.failed "lease_expired" s!"Lease {seat.leaseId} is not active")
  | .attempt k _ _ => ∀ c, s.running k = some c → c.seatId = i →
    (step s e).1.response = some (.failed "not_retryable" s!"Seat {i} is currently leased")
  | _ => True

theorem orphan_refused (b : Boot) {pre : List Event} {e : Event} (hc : Chronological (pre ++ [e]))
    (hd : DistinctIds (pre ++ [e])) {i : ℤ} {seat : Seat} (h : (run step b.site pre).app.tables.Orphaned i seat) :
    (run step b.site pre).Refuses e i seat := by
  obtain ⟨hcp, hread⟩ := chronological_snoc hc
  obtain ⟨hdp, -⟩ := distinctIds_snoc hd
  have hagree : ∀ env : Env, e.readings = env.readings → ∀ k < Env.span,
      Tables.Agree (env.time k) (run step b.site pre).app.tables := by
    intro env he k hk
    refine agree_run b hcp hdp (hread _ ?_)
    rw [he]
    exact List.mem_map_of_mem (List.mem_range.2 hk)
  cases e with
  | attempt call env draw =>
    obtain ⟨hnot, hswept⟩ := h.sweep (hagree env rfl 1 (by decide)) (env.time 1)
    cases hr : (run step b.site pre).running call with
    | none =>
      refine ⟨?_, fun c hc' => by cases hr.symm.trans hc'⟩
      simp only [step, hr]
      exact List.not_mem_nil
    | some c =>
      refine ⟨?_, fun c' hc' hseat => ?_⟩
      · simp only [step, hr]
        exact hnot
      · obtain rfl := Option.some.inj (hr.symm.trans hc')
        obtain rfl := hseat
        have hbook : ((run step b.site pre).app.bookLocked env c.seatId c.requester).2.1 =
            .error (.nonRetryable s!"Seat {c.seatId} is currently leased") := by
          simp only [App.bookLocked, App.bookSwept, hswept.found, hswept.locked, reduceCtorEq, if_false, if_true]
        simp only [step, hr, hbook, settle]
  | confirm j env =>
    refine ⟨List.not_mem_nil, ?_⟩
    rintro rfl
    exact congrArg some (h.confirm (hagree env rfl 0 (by decide)) (env.time 1) env.starts)
  | renew j env =>
    refine ⟨List.not_mem_nil, ?_⟩
    rintro rfl
    exact congrArg some (h.renew (hagree env rfl 0 (by decide)) (env.time 1) (env.time 2))
  | snapshot env => exact ⟨(h.sweep (hagree env rfl 0 (by decide)) (env.time 0)).1, trivial⟩
  | _ => exact ⟨List.not_mem_nil, trivial⟩

/-- **An orphaned lock stays until its seat is cancelled or everything is reset**, exactly; and until then every
operation on it is refused and no sweep returns it. -/
theorem orphaned_iff (b : Boot) (pre post : List Event) (hc : Chronological (pre ++ post))
    (hd : DistinctIds (pre ++ post)) (i : ℤ) (seat : Seat) (h : (run step b.site pre).app.tables.Orphaned i seat) :
    ((∀ mid rest, post = mid ++ rest → (run step b.site (pre ++ mid)).app.tables.Orphaned i seat) ↔
      ∀ e ∈ post, ¬ e.PutsBack i) ∧
    ∀ mid e rest, post = mid ++ e :: rest → (∀ f ∈ mid, ¬ f.PutsBack i) →
      (run step b.site (pre ++ mid)).Refuses e i seat := by
  have hstays : ∀ mid rest, post = mid ++ rest → (∀ f ∈ mid, ¬ f.PutsBack i) →
      (run step b.site (pre ++ mid)).app.tables.Orphaned i seat := by
    rintro mid rest rfl hn
    rw [← List.append_assoc] at hc hd
    exact orphaned_run b (chronological_left hc) (distinctIds_left hd) h hn
  refine ⟨⟨fun hall e he hp => ?_, fun hn mid rest hs => ?_⟩, fun mid e rest hs hn => ?_⟩
  · obtain ⟨mid, rest, rfl⟩ := List.append_of_mem he
    obtain ⟨v, hv, hp⟩ := moves_of_putsBack (s := run step b.site (pre ++ mid)) hp
    have hnext := hall (mid ++ [e]) rest (by rw [List.append_assoc]; rfl)
    rw [← List.append_assoc, run_snoc, tables_step, hv] at hnext
    exact Tables.not_orphaned_of_putsBack hp hnext
  · exact hstays mid rest hs fun f hf => hn f (hs ▸ List.mem_append_left _ hf)
  · have hpre := hstays mid (e :: rest) hs hn
    subst hs
    have hsplit : pre ++ (mid ++ e :: rest) = pre ++ mid ++ [e] ++ rest := by simp
    rw [hsplit] at hc hd
    exact orphan_refused b (chronological_left hc) (distinctIds_left hd) hpre

/-- A lock confirmed too late, which no sweep then returns. -/
theorem orphaned_iff_lateConfirm :
    (run step Boot.calm.site (lateConfirm ++ [.snapshot (.calm 50 idC)])).app.tables.Orphaned 1
      ⟨.locked, "Ann", "a", 30, "Server 1"⟩ :=
  (orphaned_iff Boot.calm lateConfirm [.snapshot (.calm 50 idC)] (by decide +kernel) (by decide +kernel) 1
    ⟨.locked, "Ann", "a", 30, "Server 1"⟩ ⟨by decide +kernel, rfl, by decide +kernel⟩).1.2
      (fun e he => by rw [List.mem_singleton.1 he]; exact id) [.snapshot (.calm 50 idC)] [] rfl

end Site
end Ticket
