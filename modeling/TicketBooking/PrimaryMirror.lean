import TicketBooking.Moves
/-!
# PrimaryMirror — the primary's store against the seat table

A booking and a confirmation write the primary's store with the seat, and a reset starts both over; a cancelled lock and
a sweep write the seat alone.  So the store shows every seat as the table does (`Mirrored`) up to the first cancelled
lock, and the first seat that a sweep returns for longer than the attempt it is part of (`primary_mirrors_iff`).
-/
namespace Ticket

open Runs

/-- What the seat table says of a seat. -/
def Seat.shown (seat : Seat) : SeatStatus × String := (seat.state, seat.owner)

/-- The moves that write the primary's store with the table. -/
def Move.Publishes : Move → Prop
  | .sweep _ => False
  | .cancel _ => False
  | _ => True

namespace Tables

variable {t t' : Tables}

/-- The primary's copy of the seat says what the table does. -/
def MirrorsAt (t : Tables) (i : ℤ) : Prop :=
  (t.primary.getSeat i).map SeatState.content = (t.seats.get? i).map Seat.shown

def Mirrored (t : Tables) : Prop := ∀ i, t.MirrorsAt i

/-- Neither record of the seat says anything new. -/
def Same (t t' : Tables) (i : ℤ) : Prop :=
  (t'.primary.getSeat i).map SeatState.content = (t.primary.getSeat i).map SeatState.content ∧
    (t'.seats.get? i).map Seat.shown = (t.seats.get? i).map Seat.shown

theorem Same.mirrorsAt {i : ℤ} (h : Same t t' i) : t'.MirrorsAt i ↔ t.MirrorsAt i := by
  unfold MirrorsAt
  rw [h.1, h.2]

/-- What holds of every reachable state: both records have the seats `1` to `20`, the authority's seat index is keyed,
and the timers are for the peers. -/
structure Furnished (t : Tables) : Prop where
  seats : ∀ i, (t.seats.get? i).isSome = true ↔ 1 ≤ i ∧ i ≤ (seatCount : ℤ)
  copies : ∀ i, (t.primary.getSeat i).isSome = true ↔ 1 ≤ i ∧ i ≤ (seatCount : ℤ)
  keyed : t.leases.Keyed
  addressed : ∀ timer d, t.replication.timers.get? timer = some d → d.peer ≠ .server1

section
variable (t : Tables) (i : ℤ) (state : SeatStatus) (owner : String) (stamp : Time) (starts : ℕ → Bool)

/-- **A publication writes the primary's copy**, of a seat it has. -/
theorem publish_copy (j : ℤ) :
    ((t.publish i state owner stamp starts).2.primary.getSeat j).map SeatState.content =
      if j = i ∧ (t.primary.getSeat i).isSome = true then some (state, owner)
      else (t.primary.getSeat j).map SeatState.content := by
  unfold primary
  rw [publish_stores, Function.update_self]
  cases ho : t.primary.getSeat i with
  | none =>
    rw [StateStore.updateSeat_none ho]
    simp
  | some own =>
    rw [StateStore.updateSeat_some ho]
    simp only [StateStore.getSeat, Dict.get?_set]
    by_cases hj : j = i
    · simp [hj, SeatState.content]
    · simp [hj]

theorem publish_copies (j : ℤ) : ((t.publish i state owner stamp starts).2.primary.getSeat j).isSome =
    (t.primary.getSeat j).isSome := by
  have h := publish_copy t i state owner stamp starts j
  split at h
  · rename_i hj
    obtain ⟨rfl, hs⟩ := hj
    rw [hs]
    have hsome := congrArg Option.isSome h
    simpa using hsome
  · have hsome := congrArg Option.isSome h
    simpa using hsome

theorem publish_addressed (h : ∀ timer d, t.replication.timers.get? timer = some d → d.peer ≠ .server1) :
    ∀ timer d, (t.publish i state owner stamp starts).2.replication.timers.get? timer = some d → d.peer ≠ .server1 := by
  cases ho : t.primary.getSeat i with
  | none =>
    rw [publish_none t i state owner stamp starts ho]
    exact h
  | some own =>
    rw [publish_some t i state owner stamp starts ho]
    intro timer d hd
    rcases Replication.broadcastWithDelay_timers _ peers starts _ hd with hp | hd
    · rintro he
      rw [he] at hp
      exact absurd hp (by decide)
    · exact h timer d hd

end

/-- Neither a delivery nor a full copy writes the primary's store. -/
theorem deliver_primary (h : t.Furnished) (timer : ℕ) : (t.deliver timer).primary = t.primary := by
  show (t.replication.fire timer).stores .server1 = t.replication.stores .server1
  cases hd : t.replication.timers.get? timer with
  | none => rw [Replication.fire_of_none hd]
  | some d =>
    rw [(Replication.fire_of_some hd).1]
    exact Function.update_of_ne (h.addressed timer d hd).symm _ _

theorem pushRecovery_primary {server : ServerId} (h : server ≠ .server1) :
    (t.pushRecovery server).primary = t.primary :=
  Replication.receiveSyncUpdates_of_ne h.symm _ _

theorem copies_initialize (r : Replication ServerId) (stamp : ServerId → ℕ → Time) (i : ℤ) :
    (((initializeSynchronization r stamp).stores .server1).getSeat i).isSome = true ↔ 1 ≤ i ∧ i ≤ (seatCount : ℤ) := by
  have hget := (StateStore.initializeSeats_new (toString ServerId.server1) (stamp .server1) seatCount).2 i
  simp only [initializeSynchronization, hget]
  split <;> simp [*]

theorem mirrorsAt_reset (h : t.Furnished) (stamp : ServerId → ℕ → Time) (i : ℤ) : (t.reset stamp).MirrorsAt i := by
  have hget := (StateStore.initializeSeats_new (toString ServerId.server1) (stamp .server1) seatCount).2 i
  have hseat := h.seats i
  simp only [MirrorsAt, primary, reset, initializeSynchronization, hget, Dict.get?_mapValues]
  cases hs : t.seats.get? i with
  | none =>
    rw [hs] at hseat
    rw [if_neg fun hi => Bool.false_ne_true (hseat.2 hi)]
    rfl
  | some seat =>
    rw [hs] at hseat
    rw [if_pos (hseat.1 rfl)]
    rfl

theorem isSome_set {i : ℤ} {own : Seat} (h : t.seats.get? i = some own) (seat : Seat) (j : ℤ) :
    ((t.seats.set i seat).get? j).isSome = (t.seats.get? j).isSome := by
  rw [Dict.get?_set]
  split
  · rename_i hj
    rw [hj, h]
    rfl
  · rfl

/-- Seats rewritten under the keys they have, and leases that are still keyed. -/
theorem Furnished.write (h : t.Furnished) {seats : Dict ℤ Seat} {leases : LeaseManager}
    (hs : ∀ i, (seats.get? i).isSome = (t.seats.get? i).isSome) (hk : leases.Keyed) :
    ({ t with seats := seats, leases := leases } : Tables).Furnished := by
  refine ⟨fun i => ?_, h.copies, hk, h.addressed⟩
  rw [hs]
  exact h.seats i

theorem Furnished.publish (h : t.Furnished) (i : ℤ) (state : SeatStatus) (owner : String) (stamp : Time)
    (starts : ℕ → Bool) : (t.publish i state owner stamp starts).2.Furnished := by
  refine ⟨fun j => ?_, fun j => ?_, ?_, publish_addressed _ _ _ _ _ _ h.addressed⟩
  · rw [publish_seats]
    exact h.seats j
  · rw [publish_copies]
    exact h.copies j
  · rw [publish_leases]
    exact h.keyed

theorem Furnished.sweep (h : t.Furnished) (now : Time) : (t.expireLeasesLocked now).2.Furnished := by
  refine ⟨fun i => ?_, h.copies, h.keyed.expireLocked now, h.addressed⟩
  rw [expireLeasesLocked_seat, ← h.seats]
  split
  · rename_i hi
    obtain ⟨-, seat, hs, -⟩ := (mem_expireLeasesLocked t now i).1 hi
    rw [hs]
    exact iff_of_true rfl rfl
  · rfl

theorem Furnished.deliver (h : t.Furnished) (timer : ℕ) : (t.deliver timer).Furnished := by
  refine ⟨h.seats, fun j => ?_, h.keyed, fun timer' d hd => ?_⟩
  · rw [deliver_primary h]
    exact h.copies j
  · simp only [Tables.deliver] at hd
    cases hf : t.replication.timers.get? timer with
    | none =>
      rw [Replication.fire_of_none hf] at hd
      exact h.addressed timer' d hd
    | some d' =>
      rw [(Replication.fire_of_some hf).2.1, Dict.get?_erase] at hd
      split at hd
      · cases hd
      · exact h.addressed timer' d hd

theorem Furnished.pushRecovery (h : t.Furnished) {server : ServerId} (hs : server ≠ .server1) :
    (t.pushRecovery server).Furnished := by
  refine ⟨h.seats, fun j => ?_, h.keyed, fun timer d hd => h.addressed timer d ?_⟩
  · rw [pushRecovery_primary hs]
    exact h.copies j
  · simp only [Tables.pushRecovery] at hd
    rwa [Replication.receiveSyncUpdates_timers] at hd

theorem furnished_step (h : t.Furnished) {v : Move} (ha : t.Allowed v) : (t.step v).2.Furnished := by
  cases v with
  | sweep now => exact h.sweep now
  | lock i requester server uuid now later stamp starts =>
    have hk := h.keyed.acquire i (toString server) requester (some 30) uuid now later
    simp only [step]
    rcases lockSeat_cases t i requester server uuid now later stamp starts with ⟨e, -, ht⟩ | ⟨l, -, ht⟩
    · rw [ht]
      exact h.write (fun _ => rfl) hk
    · rw [ht _ rfl]
      exact (h.write (Dict.isSome_modify _ i _) hk).publish _ _ _ _ _
  | confirm i now stamp starts =>
    have hk := h.keyed.expireLocked now
    simp only [step]
    rcases confirmSeat_cases t i now stamp starts with ⟨-, ht, -⟩ | ⟨seat, -, -, -, ht, -⟩ | ⟨seat, l, hs, -, -, ht⟩
    · rw [ht]
      exact h
    · rw [ht]
      exact h.write (fun _ => rfl) hk
    · rw [ht _ rfl]
      exact (h.write (isSome_set hs _) (hk.release _)).publish _ _ _ _ _
  | cancel i =>
    simp only [step]
    rcases cancelLock_cases t i with ⟨-, ht, -⟩ | ⟨seat, hs, -, ht⟩
    · rw [ht]
      exact h
    · rw [ht]
      refine h.write (isSome_set hs _) ?_
      split
      · exact h.keyed
      · exact h.keyed.release _
  | renew i now later last =>
    simp only [step]
    rcases renewLease_cases t i now later last with ⟨-, ht, -⟩ | ⟨seat, e, -, -, -, -, ht, -⟩ |
        ⟨seat, l, hs, -, -, -, ht⟩
    · rw [ht]
      exact h
    · rw [ht]
      exact h.write (fun _ => rfl) (h.keyed.renew _ _ _ _)
    · rw [ht]
      exact h.write (isSome_set hs _) (h.keyed.renew _ _ _ _)
  | reset stamp =>
    refine ⟨fun j => ?_, copies_initialize _ _, LeaseManager.keyed_new 30, h.addressed⟩
    simp only [step, reset, Dict.get?_mapValues, Option.isSome_map]
    exact h.seats j
  | deliver timer => exact h.deliver timer
  | push server => exact h.pushRecovery ha

/-! ## What each move does to the mirror -/

theorem lock_mirrors (h : t.Furnished) (i : ℤ) (requester : String) (server : ServerId) (uuid : Uuid)
    (now later stamp : Time) (starts : ℕ → Bool) :
    (∀ j, j ≠ i → Same t (t.lockSeat i requester server uuid now later stamp starts).2 j) ∧
    ((t.lockSeat i requester server uuid now later stamp starts).2.MirrorsAt i ∨
      (t.leases.bySeat.get? i ≠ none ∧ Same t (t.lockSeat i requester server uuid now later stamp starts).2 i)) := by
  rcases lockSeat_cases t i requester server uuid now later stamp starts with ⟨e, he, ht⟩ | ⟨l, -, ht⟩
  · rw [ht]
    refine ⟨fun j _ => ⟨rfl, rfl⟩, Or.inr ⟨fun hn => ?_, rfl, rfl⟩⟩
    obtain ⟨l, hl⟩ := h.keyed.acquire_ok hn (toString server) requester (some 30) uuid now later
    exact absurd (he.symm.trans hl) nofun
  · rw [ht _ rfl]
    refine ⟨fun j hj => ⟨?_, ?_⟩, Or.inl ?_⟩
    · rw [publish_copy, if_neg fun hc => hj hc.1]
    · rw [publish_seats, Dict.get?_modify, if_neg hj]
    · unfold MirrorsAt
      rw [publish_copy, publish_seats, Dict.get?_modify, if_pos rfl]
      have hboth : (t.primary.getSeat i).isSome = (t.seats.get? i).isSome :=
        Bool.eq_iff_iff.2 ((h.copies i).trans (h.seats i).symm)
      simp only [true_and]
      cases hs : t.seats.get? i with
      | none =>
        rw [hs] at hboth
        rw [Option.isSome_eq_false_iff.1 hboth |> Option.isNone_iff_eq_none.1]
        rfl
      | some seat =>
        rw [hs] at hboth
        rw [if_pos (by rw [hboth]; rfl)]
        rfl

/-- **Every move but a sweep and a cancellation keeps the mirror.** -/
theorem mirrorsAt_step (h : t.Furnished) {v : Move} (ha : t.Allowed v) (hv : v.Publishes) {j : ℤ} (hm : t.MirrorsAt j) :
    (t.step v).2.MirrorsAt j := by
  cases v with
  | sweep now => exact hv.elim
  | cancel i => exact hv.elim
  | lock i requester server uuid now later stamp starts =>
    obtain ⟨hother, hat⟩ := lock_mirrors h i requester server uuid now later stamp starts
    by_cases hj : j = i
    · rw [hj] at hm ⊢
      rcases hat with hat | ⟨-, hsame⟩
      · exact hat
      · exact hsame.mirrorsAt.2 hm
    · exact (hother j hj).mirrorsAt.2 hm
  | confirm i now stamp starts =>
    simp only [step]
    rcases confirmSeat_cases t i now stamp starts with ⟨-, ht, -⟩ | ⟨seat, -, -, -, ht, -⟩ | ⟨seat, l, hseat, -, -, ht⟩
    · rw [ht]
      exact hm
    · rw [ht]
      exact hm
    · rw [ht _ rfl]
      unfold MirrorsAt at hm ⊢
      rw [publish_copy, publish_seats, Dict.get?_set]
      by_cases hj : j = i
      · have hcopy : (t.primary.getSeat i).isSome = true := (h.copies i).2 ((h.seats i).1 (by rw [hseat]; rfl))
        rw [if_pos ⟨hj, hcopy⟩, if_pos hj]
        rfl
      · rw [if_neg fun hc => hj hc.1, if_neg hj]
        exact hm
  | renew i now later last =>
    simp only [step]
    rcases renewLease_cases t i now later last with ⟨-, ht, -⟩ | ⟨seat, e, -, -, -, -, ht, -⟩ |
        ⟨seat, l, hseat, -, -, -, ht⟩
    · rw [ht]
      exact hm
    · rw [ht]
      exact hm
    · rw [ht]
      unfold MirrorsAt at hm ⊢
      rw [Dict.get?_set]
      split
      · rename_i hj
        rw [hj, hseat] at hm
        rw [hj]
        exact hm
      · exact hm
  | reset stamp => exact mirrorsAt_reset h stamp j
  | deliver timer =>
    unfold MirrorsAt at hm ⊢
    rw [step, deliver_primary h]
    exact hm
  | push server =>
    unfold MirrorsAt at hm ⊢
    rw [step, pushRecovery_primary ha]
    exact hm

/-- **A cancelled lock is not written to the primary's store.** -/
theorem cancel_mirrored_iff (hm : t.Mirrored) (i : ℤ) : (t.step (.cancel i)).2.Mirrored ↔ ¬ t.IsLocked i := by
  constructor
  · rintro h ⟨seat, hs, hk⟩
    rcases cancelLock_cases t i with ⟨hn, -⟩ | ⟨seat', -, -, ht⟩
    · exact hn ⟨seat, hs, hk⟩
    · have hi := h i
      simp only [MirrorsAt, step, ht, Dict.get?_set_self] at hi
      have hbefore := (hm i).symm.trans hi
      rw [hs] at hbefore
      have hstate := congrArg Prod.fst (Option.some.inj hbefore)
      exact absurd (hk.symm.trans hstate) nofun
  · intro hn
    have ht : (t.step (.cancel i)).2 = t := cancelLock_unlocked hn
    rw [ht]
    exact hm

/-- **A seat that a sweep returns is not written either.** -/
theorem sweep_mirrorsAt_iff {i : ℤ} (hm : t.MirrorsAt i) (now : Time) :
    (t.expireLeasesLocked now).2.MirrorsAt i ↔ i ∉ (t.expireLeasesLocked now).1 := by
  have hsame : (t.expireLeasesLocked now).2.primary = t.primary := rfl
  unfold MirrorsAt at hm ⊢
  rw [expireLeasesLocked_seat, hsame]
  by_cases hi : i ∈ (t.expireLeasesLocked now).1
  · rw [if_pos hi]
    refine iff_of_false (fun h => ?_) (not_not.2 hi)
    obtain ⟨-, seat, hs, hk⟩ := (mem_expireLeasesLocked t now i).1 hi
    have hbefore := hm.symm.trans h
    rw [hs] at hbefore
    have hstate := congrArg Prod.fst (Option.some.inj hbefore)
    exact absurd (hk.symm.trans hstate) nofun
  · rw [if_neg hi]
    exact iff_of_true hm hi

/-- A sweep at the reading finds the seat locked under an overdue lease. -/
def Expires (t : Tables) (now : Time) (i : ℤ) : Prop := (∃ l ∈ t.leases.overdue now, l.seatId = i) ∧ t.IsLocked i

theorem Expires.bySeat {now : Time} {i : ℤ} (hi : t.Expires now i) (h : t.Furnished) :
    (t.expireLeasesLocked now).2.leases.bySeat.get? i = none := by
  obtain ⟨⟨l, hl, rfl⟩, -⟩ := hi
  obtain ⟨⟨s, hs⟩, ho⟩ := (LeaseManager.mem_overdue _ _ _).1 hl
  have hseat := h.keyed s l hs
  rw [expireLeasesLocked_leases, h.keyed.expireLocked_bySeat, hseat]
  refine Expiry.liveAt_eq_none.2 fun v hv => ?_
  rw [← Option.some.inj (hs.symm.trans hv)]
  exact ho

end Tables

namespace Site

/-- What the step does to the seat table it does to the primary's store: it cancels no lock, and returns no seat but one
that the same attempt goes on to lock again. -/
def Published (s : Site) (e : Event) : Prop :=
  match e with
  | .attempt call env _ => ∀ c, s.running call = some c → ∀ i, s.app.tables.Expires (env.time 1) i →
      i = c.seatId ∧ ((s.swept env).reaches env i).isSome = true
  | .cancel i => ¬ s.app.tables.IsLocked i
  | .snapshot env => ∀ i, ¬ s.app.tables.Expires (env.time 0) i
  | _ => True

theorem furnished_init (b : Boot) : b.site.app.tables.Furnished := by
  refine ⟨fun i => ?_, fun i => ?_, LeaseManager.keyed_new 30, fun timer d => nofun⟩
  · show (Tables.initSeats.get? i).isSome = true ↔ _
    rw [Tables.initSeats_get?]
    split <;> simp [*]
  · exact Tables.copies_initialize _ _ i

theorem furnished_run (b : Boot) (es : List Event) : (run step b.site es).app.tables.Furnished :=
  invariant_moves (furnished_init b) (fun _ _ h ha => Tables.furnished_step h ha) es

/-- A step whose moves neither sweep nor cancel. -/
theorem mirrored_of_moves {s : Site} {e : Event} (h : s.app.tables.Furnished) (hm : s.app.tables.Mirrored)
    (hs : ∀ v ∈ s.moves e, v.Publishes) : (step s e).2.app.tables.Mirrored := by
  rw [tables_step]
  have hal := along_and (s.moves_allowed e) (along_of_mem (G := fun _ v => Move.Publishes v) fun v hv _ => hs v hv)
  refine (invariant_along (P := fun t => t.Furnished ∧ t.Mirrored) ⟨h, hm⟩ (fun t v ht hg => ?_) _ hal).2
  exact ⟨Tables.furnished_step ht.1 hg.1, fun j => Tables.mirrorsAt_step ht.1 hg.1 hg.2 (ht.2 j)⟩

/-- **An attempt keeps the mirror exactly when it locks again whatever its sweep returns.** -/
theorem mirrored_attempt {s : Site} {call : ℕ} {env : Env} {draw : ℚ} (h : s.app.tables.Furnished)
    (hm : s.app.tables.Mirrored) :
    (step s (.attempt call env draw)).2.app.tables.Mirrored ↔ Published s (.attempt call env draw) := by
  rw [tables_step]
  simp only [moves, Published]
  cases hc : s.running call with
  | none => exact iff_of_true hm (by simp)
  | some c =>
    simp only [Option.map_some, Option.getD_some, attemptMoves, run_cons, Option.some.injEq, forall_eq']
    have hsweep := fun i => Tables.sweep_mirrorsAt_iff (hm i) (env.time 1)
    simp only [Tables.mem_expireLeasesLocked] at hsweep
    cases hr : (s.swept env).reaches env c.seatId with
    | none =>
      constructor
      · exact fun hfinal i hi => absurd hi ((hsweep i).1 (hfinal i))
      · intro hpub i
        refine (hsweep i).2 fun hi => ?_
        obtain ⟨rfl, hsome⟩ := hpub i hi
        rw [hr] at hsome
        cases hsome
    | some server =>
      have hfurnished : (s.swept env).tables.Furnished := Tables.furnished_step (v := .sweep (env.time 1)) h trivial
      obtain ⟨hother, hat⟩ := Tables.lock_mirrors hfurnished c.seatId c.requester server env.uuid (env.time 16)
        (env.time 17) (env.time 18) env.starts
      constructor
      · intro hfinal i hi
        have hseat : i = c.seatId := by
          by_contra hne
          exact (hsweep i).1 ((hother i hne).mirrorsAt.1 (hfinal i)) hi
        rw [hseat, hr]
        exact ⟨rfl, rfl⟩
      · intro hpub i
        by_cases hseat : i = c.seatId
        · subst hseat
          rcases hat with hat | ⟨hlease, hsame⟩
          · exact hat
          · refine hsame.mirrorsAt.2 ((hsweep _).2 fun hi => ?_)
            exact hlease (Tables.Expires.bySeat hi h)
        · exact (hother i hseat).mirrorsAt.2 ((hsweep i).2 fun hi => hseat (hpub i hi).1)

/-- **A step keeps the mirror exactly when it publishes what it does.** -/
theorem mirrored_step_iff {s : Site} (e : Event) (h : s.app.tables.Furnished) (hm : s.app.tables.Mirrored) :
    (step s e).2.app.tables.Mirrored ↔ Published s e := by
  cases e with
  | attempt call env draw => exact mirrored_attempt h hm
  | cancel i =>
    rw [tables_step]
    exact Tables.cancel_mirrored_iff hm i
  | snapshot env =>
    rw [tables_step]
    have hsweep := fun i => Tables.sweep_mirrorsAt_iff (hm i) (env.time 0)
    simp only [Tables.mem_expireLeasesLocked] at hsweep
    exact forall_congr' hsweep
  | toggle serverId env =>
    refine iff_of_true (mirrored_of_moves h hm fun v hv => ?_) trivial
    simp only [moves] at hv
    split at hv
    · cases hv
    · split at hv
      · rw [List.mem_singleton.1 hv]
        exact trivial
      · cases hv
  | book seatId requester => exact iff_of_true hm trivial
  | setStrategy name => exact iff_of_true hm trivial
  | _ =>
    refine iff_of_true (mirrored_of_moves h hm fun v hv => ?_) trivial
    rw [List.mem_singleton.1 hv]
    exact trivial

theorem mirrored_init (b : Boot) : b.site.app.tables.Mirrored := by
  intro i
  have hget := (StateStore.initializeSeats_new (toString ServerId.server1) (b.stamp .server1) seatCount).2 i
  show (((StateStore.new (toString ServerId.server1)).initializeSeats seatCount (b.stamp .server1)).getSeat i).map _ =
    (Tables.initSeats.get? i).map _
  rw [hget, Tables.initSeats_get?]
  split <;> rfl

/-- **The primary's store shows every seat as the table does**, throughout a run, exactly when every step publishes what
it does. -/
theorem primary_mirrors_iff (b : Boot) (es : List Event) :
    (∀ pre post, es = pre ++ post → (run step b.site pre).app.tables.Mirrored) ↔ Along step Published b.site es :=
  always_iff_along (P := fun s : Site => s.app.tables.Mirrored) (mirrored_init b) es
    fun pre e _ _ hm => mirrored_step_iff e (furnished_run b pre) hm

/-- The lock of `oneLock`, cancelled. -/
def cancelled : List Event := oneLock ++ [.cancel 1]

/-- **The primary's store still has the lock.** -/
theorem cancelled_not_mirrored :
    ((run step Boot.calm.site cancelled).app.tables.primary.getSeat 1).map SeatState.content = some (.locked, "Ann") ∧
    ((run step Boot.calm.site cancelled).app.tables.seats.get? 1).map Seat.shown = some (.available, "") ∧
    ¬ (run step Boot.calm.site cancelled).app.tables.Mirrored := by
  have hcopy : ((run step Boot.calm.site cancelled).app.tables.primary.getSeat 1).map SeatState.content =
      some (.locked, "Ann") := by decide +kernel
  have hseat : ((run step Boot.calm.site cancelled).app.tables.seats.get? 1).map Seat.shown =
      some (.available, "") := by decide +kernel
  refine ⟨hcopy, hseat, fun hm => ?_⟩
  exact absurd (hcopy.symm.trans ((hm 1).trans hseat)) (by decide)

end Site
end Ticket
