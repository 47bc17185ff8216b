import TicketBooking.LeaseRuns
/-!
# SilentExpiry — the expiries the seat table is not told of

A sweep returns a seat by the lease it drops itself.  When another call's purge drops an overdue lease first, the seat
stays locked past its deadline and no sweep returns it.  The two records are in step (`Kept`) exactly when the next
sweep would leave no overdue lock (`Agree.clears_iff`), a move keeps them in step exactly when it drops no lease
silently (`kept_step`), and so the locks of a run are returned in time exactly when none of its steps does
(`returned_iff_noSilentExpiry`).
-/
namespace Ticket

open Runs Expiry
open LeaseManager (live)

namespace Tables

variable {t : Tables} {now later : Time}

/-- A sweep at the reading leaves no lock that is overdue by it. -/
def SweepClears (t : Tables) (now : Time) : Prop :=
  ∀ i seat, (t.expireLeasesLocked now).2.seats.get? i = some seat → seat.state = .locked → now < seat.expiresAt

/-- Every lock has its lease. -/
def Kept (t : Tables) : Prop := t.leases.bySeat.get? = t.lockedLease

/-- The move drops no lease but a sweep's: it does not purge, or finds nothing overdue. -/
def NoSilent (t : Tables) (v : Move) : Prop :=
  match v with
  | .lock _ _ _ _ now _ _ _ => t.leases.overdue now = []
  | .confirm i now _ _ => t.IsLocked i → t.leases.overdue now = []
  | .renew i now _ _ => t.IsLocked i → t.leases.overdue now = []
  | _ => True

instance (t : Tables) : (v : Move) → Decidable (t.NoSilent v)
  | .lock _ _ _ _ now _ _ _ => inferInstanceAs (Decidable (t.leases.overdue now = []))
  | .confirm i now _ _ => inferInstanceAs (Decidable (t.IsLocked i → t.leases.overdue now = []))
  | .renew i now _ _ => inferInstanceAs (Decidable (t.IsLocked i → t.leases.overdue now = []))
  | .sweep _ | .cancel _ | .reset _ | .deliver _ | .push _ => .isTrue trivial

/-- **A sweep clears the overdue locks exactly when every lock has its lease.** -/
theorem Agree.clears_iff (h : Agree now t) (hl : now ≤ later) : t.SweepClears later ↔ t.Kept := by
  obtain ⟨-, -, hlocked⟩ := sweep_writes h later
  constructor
  · refine fun hclear => funext fun i => ?_
    cases hi : t.lockedLease i with
    | none =>
      cases hb : t.leases.bySeat.get? i with
      | none => rfl
      | some o => exact (nomatch hi.symm.trans (h.lags.sub i o hb))
    | some l =>
      cases hb : t.leases.bySeat.get? i with
      | some o => exact (h.lags.sub i o hb).symm.trans hi
      | none =>
        -- the lease is gone, so the sweep leaves the seat locked
        have hstays := hlocked i
        rw [if_neg fun hc => hc.1 hb, hi] at hstays
        obtain ⟨seat, hs, hk, rfl⟩ := lockedLease_eq_some.1 hstays
        have hover := le_trans (h.lags.overdue i _ hi hb) hl
        exact absurd (hclear i seat hs hk) (not_lt.2 hover)
  · intro hkept i seat hs hk
    have hi := hlocked i
    rw [lockedLease_of_locked hs hk] at hi
    split at hi
    · cases hi
    · rename_i hnot
      have hb := (congrFun hkept i).trans hi.symm
      cases hv : live later t.leases.bySeat.get? i with
      | none => exact absurd ⟨by rw [hb]; simp, hv⟩ hnot
      | some o =>
        obtain ⟨ho, hlt⟩ := liveAt_eq_some.1 hv
        obtain rfl := Option.some.inj (hb.symm.trans ho)
        exact hlt

/-- A seat and its lease written together, with a purge: what the purge drops is dropped for good. -/
theorem Writes.kept_iff {t' : Tables} {i : ℤ} {o : Option Lease} (hw : Writes now t t' i o) (hk : t.Kept)
    (hi : live now t.leases.bySeat.get? i = t.leases.bySeat.get? i) : t'.Kept ↔ t.leases.overdue now = [] := by
  rw [Kept, hw.seats, hw.locked, ← hk, LeaseManager.overdue_eq_nil_iff]
  exact update_liveAt_eq_iff hi o

theorem purged_kept_iff (h : t.leases.Exact) (hk : t.Kept) :
    ({ t with leases := (t.leases.expireLocked now).2 } : Tables).Kept ↔ t.leases.overdue now = [] := by
  rw [LeaseManager.overdue_eq_nil_iff, Kept, LeaseManager.expireLocked_bySeat h]
  exact ⟨fun hp => hp.trans hk.symm, fun hp => hp.trans hk⟩

theorem Kept.live_of_inForce (hk : t.Kept) {i : ℤ} {seat : Seat} (hs : t.seats.get? i = some seat)
    (hl : seat.state = .locked) (hlt : now < seat.expiresAt) :
    live now t.leases.bySeat.get? i = t.leases.bySeat.get? i := by
  have hb := (congrFun hk i).trans (lockedLease_of_locked hs hl)
  rw [hb]
  exact liveAt_eq_some.2 ⟨hb, hlt⟩

/-- **A move on a lock**, in force or overdue, keeps every lock its lease exactly when the purge drops nothing. -/
theorem Kept.locked_iff (hk : t.Kept) (h : t.leases.Exact) {i : ℤ} {seat : Seat} (hs : t.seats.get? i = some seat)
    (hl : seat.state = .locked) {t' : Tables} {o : Option Lease} (hlive : now < seat.expiresAt → Writes now t t' i o)
    (hdead : ¬ now < seat.expiresAt → t' = { t with leases := (t.leases.expireLocked now).2 }) :
    t'.Kept ↔ t.leases.overdue now = [] := by
  by_cases hlt : now < seat.expiresAt
  · exact (hlive hlt).kept_iff hk (hk.live_of_inForce hs hl hlt)
  · rw [hdead hlt]
    exact purged_kept_iff h hk

/-- **A sweep drops no lease without its lock.** -/
theorem Kept.sweep (hk : t.Kept) (h : Agree now t) (r : Time) : (t.step (.sweep r)).2.Kept := by
  refine funext fun i => ?_
  obtain ⟨-, hseats, hlocked⟩ := sweep_writes h r
  simp only [step]
  rw [hseats, hlocked, ← hk]
  split
  · rename_i hc
    exact hc.2
  · rename_i hc
    by_cases hb : t.leases.bySeat.get? i = none
    · rw [hb]
      refine liveAt_eq_none.2 fun o ho => ?_
      rw [hb] at ho
      cases ho
    · obtain ⟨o, ho⟩ := Option.ne_none_iff_exists'.1 fun hn => hc ⟨hb, hn⟩
      rw [ho, (liveAt_eq_some.1 ho).1]

/-- **A move keeps every lock its lease exactly when it drops none silently.** -/
theorem kept_step (h : Agree now t) (hk : t.Kept) {v : Move} (ha : t.Allowed v) (hf : t.Fresh v)
    (hr : ∀ r ∈ v.reading, now ≤ r) : (t.step v).2.Kept ↔ t.NoSilent v := by
  cases v with
  | sweep r => exact iff_of_true (hk.sweep h r) trivial
  | lock i requester server uuid r acquired stamp starts =>
    obtain ⟨hw, -⟩ := lockSeat_writes h r ha (hf uuid rfl) requester server acquired stamp starts
    refine hw.kept_iff hk ?_
    have hb := (congrFun hk i).trans (lockedLease_of_bookable ha)
    rw [hb]
    refine liveAt_eq_none.2 fun o ho => ?_
    rw [hb] at ho
    cases ho
  | confirm i r stamp starts =>
    by_cases hi : t.IsLocked i
    · obtain ⟨seat, hs, hl⟩ := hi
      obtain ⟨hlive, hdead⟩ := confirmSeat_writes h (hr r rfl) hs hl stamp starts
      have hgoal : t.NoSilent (.confirm i r stamp starts) ↔ t.leases.overdue r = [] :=
        ⟨fun hn => hn ⟨seat, hs, hl⟩, fun hn _ => hn⟩
      rw [hgoal]
      exact hk.locked_iff h.exact hs hl hlive hdead
    · have ht : (t.step (.confirm i r stamp starts)).2 = t := confirmSeat_unlocked hi r stamp starts
      rw [ht]
      exact iff_of_true hk fun hc => absurd hc hi
  | cancel i =>
    refine iff_of_true ?_ trivial
    by_cases hi : t.IsLocked i
    · obtain ⟨-, hseats, hlocked⟩ := cancelLock_writes h hi
      simp only [Kept, step]
      rw [hseats, hlocked, ← hk]
    · have ht : (t.step (.cancel i)).2 = t := cancelLock_unlocked hi
      rw [ht]
      exact hk
  | renew i r renewed last =>
    by_cases hi : t.IsLocked i
    · obtain ⟨seat, hs, hl⟩ := hi
      obtain ⟨hlive, hdead⟩ := renewLease_writes h (hr r rfl) hs hl renewed last
      have hgoal : t.NoSilent (.renew i r renewed last) ↔ t.leases.overdue r = [] :=
        ⟨fun hn => hn ⟨seat, hs, hl⟩, fun hn _ => hn⟩
      rw [hgoal]
      exact hk.locked_iff h.exact hs hl hlive hdead
    · have ht : (t.step (.renew i r renewed last)).2 = t := renewLease_unlocked hi r renewed last
      rw [ht]
      exact iff_of_true hk fun hc => absurd hc hi
  | reset stamp =>
    exact iff_of_true (funext fun i => (lockedLease_reset t stamp i).symm) trivial
  | deliver timer => exact iff_of_true (hk.trans (lockedLease_congr rfl).symm) trivial
  | push server => exact iff_of_true (hk.trans (lockedLease_congr rfl).symm) trivial

theorem kept_next {t0 : Tables} (h0 : Tracked [] t0) {vs : List Move} {v : Move}
    (ha : Along step Allowed t0 (vs ++ [v])) (hw : WellTimed (vs ++ [v])) (hk : (run step t0 vs).Kept) :
    (run step t0 (vs ++ [v])).Kept ↔ (run step t0 vs).NoSilent v := by
  obtain ⟨hw', hreading, huuid⟩ := hw.init
  obtain ⟨ha', hav⟩ := (along_snoc vs v).1 ha
  have ht := tracked_run h0 vs ha' hw'
  obtain ⟨later, hb⟩ := (List.finite_toSet ((vs ++ [v]).filterMap Move.reading)).bddAbove
  obtain ⟨now, hagree, -, hr⟩ := ht.agree_before hreading fun r hr => hb hr
  rw [run_snoc]
  exact kept_step hagree hk hav (ht.fresh huuid) fun r hv => (hr r hv).1

end Tables

namespace Site

/-- The step's calls drop no lease but in a sweep. -/
def NoSilentExpiry (s : Site) (e : Event) : Prop := Along Tables.step Tables.NoSilent s.app.tables (s.moves e)

instance (s : Site) (e : Event) : Decidable (NoSilentExpiry s e) :=
  inferInstanceAs (Decidable (Along Tables.step Tables.NoSilent s.app.tables (s.moves e)))

/-- A step makes at most one move, but for the sweep an attempt begins with. -/
theorem moves_shape (s : Site) (e : Event) :
    s.moves e = [] ∨ (∃ v, s.moves e = [v]) ∨ ∃ now v, s.moves e = [.sweep now, v] := by
  cases e with
  | attempt call env draw =>
    simp only [moves]
    cases s.running call with
    | none => exact Or.inl rfl
    | some c =>
      simp only [Option.map_some, Option.getD_some, attemptMoves]
      cases (s.swept env).reaches env c.seatId with
      | none => exact Or.inr (Or.inl ⟨_, rfl⟩)
      | some server => exact Or.inr (Or.inr ⟨_, _, rfl⟩)
  | toggle serverId env =>
    simp only [moves]
    split
    · exact Or.inl rfl
    · split
      · exact Or.inr (Or.inl ⟨_, rfl⟩)
      · exact Or.inl rfl
  | book seatId requester => exact Or.inl rfl
  | setStrategy name => exact Or.inl rfl
  | _ => exact Or.inr (Or.inl ⟨_, rfl⟩)

/-- **A step keeps every lock its lease exactly when it drops none silently.** -/
theorem kept_next (b : Boot) {pre : List Event} {e : Event} (hc : Chronological (pre ++ [e]))
    (hd : DistinctIds (pre ++ [e])) (hk : (run step b.site pre).app.tables.Kept) :
    (step (run step b.site pre) e).2.app.tables.Kept ↔ NoSilentExpiry (run step b.site pre) e := by
  have hw := b.site.wellTimed hc hd
  have ha := runMoves_allowed (pre ++ [e]) b.site
  rw [runMoves_snoc] at hw ha
  rw [tables_step, NoSilentExpiry]
  rw [tables_run] at hk
  rw [tables_run pre b.site]
  rcases moves_shape (run step b.site pre) e with hm | ⟨v, hm⟩ | ⟨now, v, hm⟩
  · rw [hm]
    exact iff_of_true hk trivial
  · rw [hm] at hw ha ⊢
    rw [← run_append, Tables.kept_next (tracked_init b) ha hw hk, Along, Along, and_true]
  · rw [hm] at hw ha ⊢
    have hsplit : b.site.runMoves pre ++ [.sweep now, v] = b.site.runMoves pre ++ [.sweep now] ++ [v] := by
      rw [List.append_assoc]
      rfl
    rw [hsplit] at hw ha
    have hswept := (Tables.kept_next (tracked_init b) ((along_snoc _ _).1 ha).1 hw.init.1 hk).2 trivial
    rw [← run_append, hsplit, Tables.kept_next (tracked_init b) ha hw hswept, run_snoc, Along, Along, Along, and_true]
    exact ⟨fun hn => ⟨trivial, hn⟩, fun hn => hn.2⟩

/-- **The locks of a run are returned in time exactly when none of its steps expires a lease silently**: after every
prefix of the run, whatever the reading of the sweep that comes next. -/
theorem returned_iff_noSilentExpiry (b : Boot) (es : List Event) (hc : Chronological es) (hd : DistinctIds es) :
    (∀ pre post, es = pre ++ post → ∀ now, (∀ r ∈ pre.flatMap Event.readings, r ≤ now) →
      (run step b.site pre).app.tables.SweepClears now) ↔
    Along step NoSilentExpiry b.site es := by
  have hprefix : ∀ pre post, es = pre ++ post → Chronological pre ∧ DistinctIds pre := by
    rintro pre post rfl
    exact ⟨chronological_left hc, distinctIds_left hd⟩
  rw [← always_iff_along (P := fun s : Site => s.app.tables.Kept) (G := NoSilentExpiry) (s := b.site)]
  · refine forall_congr' fun pre => forall_congr' fun post => forall_congr' fun he => ?_
    obtain ⟨hcp, hdp⟩ := hprefix pre post he
    constructor
    · intro h
      obtain ⟨now, hb⟩ := (List.finite_toSet (pre.flatMap Event.readings)).bddAbove
      have hn : ∀ r ∈ pre.flatMap Event.readings, r ≤ now := fun r hr => hb hr
      exact ((agree_run b hcp hdp hn).clears_iff le_rfl).1 (h now hn)
    · exact fun hk now hn => ((agree_run b hcp hdp hn).clears_iff le_rfl).2 hk
  · exact funext fun i => (lockedLease_init b i).symm
  · intro pre e post he hk
    obtain ⟨hcp, hdp⟩ := hprefix (pre ++ [e]) post (by rw [he, List.append_assoc]; rfl)
    exact kept_next b hcp hdp hk

theorem returned_iff_noSilentExpiry_oneLock : (run step Boot.calm.site oneLock).app.tables.SweepClears 50 :=
  (returned_iff_noSilentExpiry .calm oneLock (by decide +kernel) (by decide +kernel)).2 (by decide +kernel) oneLock []
    rfl 50 (by decide +kernel)

/-- The lock of `oneLock`, confirmed too late: the refusal drops its lease. -/
def lateConfirm : List Event := oneLock ++ [.confirm 1 (.calm 40 idB)]

/-- **A sweep at 50 leaves the lock that expired at 30.** -/
theorem lateConfirm_overdue : Chronological (lateConfirm ++ [.snapshot (.calm 50 idC)]) ∧
    DistinctIds (lateConfirm ++ [.snapshot (.calm 50 idC)]) ∧
    (run step Boot.calm.site (lateConfirm ++ [.snapshot (.calm 50 idC)])).app.tables.seats.get? 1 =
      some ⟨.locked, "Ann", "a", 30, "Server 1"⟩ ∧
    ¬ (run step Boot.calm.site lateConfirm).app.tables.SweepClears 50 := by
  have hswept : ((run step Boot.calm.site lateConfirm).app.tables.expireLeasesLocked 50).2.seats.get? 1 =
      some ⟨.locked, "Ann", "a", 30, "Server 1"⟩ := by decide +kernel
  refine ⟨by decide +kernel, by decide +kernel, by decide +kernel, fun h => ?_⟩
  exact absurd (h 1 _ hswept rfl) (by decide +kernel)

end Site
end Ticket
