import TicketBooking.Heartbeat
import TicketBooking.OrphanLocks
import TicketBooking.Ownership
/-!
# Deadlines — how long a lock is promised, and how long it is shown to last

Every seat of the table is free, locked for at most thirty seconds from the latest reading, or reserved
(`seats_formed`), so the seconds `snapshot` shows are between 0 and 30.  And the thirty seconds are kept: a seat an
attempt has booked can be confirmed and renewed by its owner until they have passed, and no sweep returns it before,
whatever else happens to the other seats, the servers and the replicas (`held_till_deadline`).
-/
namespace Ticket

open Runs Expiry
open LeaseManager (live)

/-- The seconds `snapshot` shows for a seat. -/
def Seat.remaining (seat : Seat) (now : Time) : ℤ := max 0 (pyInt (seat.expiresAt - now))

/-- **A seat as the application leaves it**: free, locked under an id by one of the servers, or reserved. -/
inductive Seat.Formed (now : Time) : Seat → Prop where
  | free : Formed now .free
  | locked (owner : String) (uuid : Uuid) (expiresAt : Time) (server : ServerId) (h : expiresAt ≤ now + 30) :
    Formed now ⟨.locked, owner, uuid, expiresAt, toString server⟩
  | reserved (owner : String) (server : ServerId) : Formed now ⟨.reserved, owner, "", 0, toString server⟩

theorem pyInt_le {x : ℚ} {n : ℤ} (h : x ≤ n) : pyInt x ≤ n := by
  unfold pyInt
  split
  · exact Int.cast_le.1 ((Int.floor_le x).trans h)
  · exact Rat.ceil_le_iff.2 h

theorem Seat.Formed.remaining_le {now : Time} {seat : Seat} (h : seat.Formed now) (h0 : 0 ≤ now) :
    seat.remaining now ≤ 30 := by
  have hle : seat.expiresAt - now ≤ ((30 : ℤ) : ℚ) := by
    cases h with
    | free => exact (sub_le_self 0 h0).trans (by norm_num)
    | locked owner uuid expiresAt server hx =>
      push_cast
      linarith
    | reserved owner server => exact (sub_le_self 0 h0).trans (by norm_num)
  exact max_le (by norm_num) (pyInt_le hle)

namespace LeaseManager

variable {m : LeaseManager} {ttl : Option Time} {now later : Time} {l : Lease}

theorem acquire_expiresAt {seatId : ℤ} {holder owner uuid : String}
    (h : (m.acquire seatId holder owner ttl uuid now later).1 = .ok l) :
    l.expiresAt = later + ttl.getD m.defaultTtlSeconds := by
  unfold acquire at h
  dsimp only at h
  split at h
  · cases h
  · obtain rfl := Except.ok.inj h
    rw [expireLocked_ttl]

theorem renew_expiresAt {leaseId : String} (h : (m.renew leaseId ttl now later).1 = .ok l) :
    l.expiresAt = later + ttl.getD m.defaultTtlSeconds := by
  unfold renew at h
  dsimp only at h
  split at h
  · cases h
  · obtain rfl := Except.ok.inj h
    rw [expireLocked_ttl]

theorem acquire_ttl (m : LeaseManager) (seatId : ℤ) (holder owner : String) (ttl : Option Time) (uuid : String)
    (now later : Time) :
    (m.acquire seatId holder owner ttl uuid now later).2.defaultTtlSeconds = m.defaultTtlSeconds := by
  have hp := expireLocked_ttl m now
  unfold acquire
  dsimp only
  split <;> exact hp

theorem renew_ttl (m : LeaseManager) (leaseId : String) (ttl : Option Time) (now later : Time) :
    (m.renew leaseId ttl now later).2.defaultTtlSeconds = m.defaultTtlSeconds := by
  have hp := expireLocked_ttl m now
  unfold renew
  dsimp only
  split <;> exact hp

theorem release_ttl (m : LeaseManager) (leaseId : String) :
    (m.release leaseId).defaultTtlSeconds = m.defaultTtlSeconds := by
  unfold release
  split
  · rfl
  · dsimp only
    split <;> rfl

end LeaseManager

/-- The reading from which a move computes a deadline. -/
def Move.deadlineFrom : Move → Option Time
  | .lock _ _ _ _ _ later _ _ => some later
  | .renew _ _ later _ => some later
  | _ => none

namespace Tables

variable {t : Tables} {now : Time} {i j : ℤ}

/-- Every lease is granted for the default thirty seconds. -/
theorem ttl_step (h : t.leases.defaultTtlSeconds = 30) (v : Move) : (t.step v).2.leases.defaultTtlSeconds = 30 := by
  have hpurged : ∀ now, (t.leases.expireLocked now).2.defaultTtlSeconds = 30 := fun now => by
    rw [LeaseManager.expireLocked_ttl, h]
  cases v with
  | sweep now => exact hpurged now
  | lock i requester server uuid now later stamp starts =>
    simp only [step]
    rcases lockSeat_cases t i requester server uuid now later stamp starts with ⟨e, -, ht⟩ | ⟨l, -, ht⟩
    · rw [ht]
      exact (LeaseManager.acquire_ttl _ _ _ _ _ _ _ _).trans h
    · rw [ht _ rfl, publish_leases]
      exact (LeaseManager.acquire_ttl _ _ _ _ _ _ _ _).trans h
  | confirm i now stamp starts =>
    simp only [step]
    rcases confirmSeat_cases t i now stamp starts with ⟨-, ht, -⟩ | ⟨_, -, -, -, ht, -⟩ | ⟨_, _, -, -, -, ht⟩
    · rw [ht]
      exact h
    · rw [ht]
      exact hpurged now
    · rw [ht _ rfl, publish_leases]
      exact (LeaseManager.release_ttl _ _).trans (hpurged now)
  | cancel i =>
    simp only [step]
    rcases cancelLock_cases t i with ⟨-, ht, -⟩ | ⟨seat, -, -, ht⟩
    · rw [ht]
      exact h
    · rw [ht]
      by_cases hid : seat.leaseId = ""
      · simp only [if_pos hid, h]
      · simp only [if_neg hid]
        exact (LeaseManager.release_ttl _ _).trans h
  | renew i now later last =>
    simp only [step]
    rcases renewLease_cases t i now later last with ⟨-, ht, -⟩ | ⟨_, _, -, -, -, -, ht, -⟩ | ⟨_, _, -, -, -, -, ht⟩
    · rw [ht]
      exact h
    · rw [ht]
      exact (LeaseManager.renew_ttl _ _ _ _ _).trans h
    · rw [ht]
      exact (LeaseManager.renew_ttl _ _ _ _ _).trans h
  | reset stamp => rfl
  | deliver timer => exact h
  | push server => exact h

/-! ## The seats of the table -/

/-- Every seat is formed at the reading. -/
def Formed (t : Tables) (now : Time) : Prop := ∀ i seat, t.seats.get? i = some seat → seat.Formed now

theorem Formed.set (h : t.Formed now) {t' : Tables} {seat : Seat} (hs : seat.Formed now)
    (ht : t'.seats = t.seats.set i seat) : t'.Formed now := by
  intro j s hj
  rw [ht, Dict.get?_set] at hj
  split at hj
  · exact Option.some.inj hj ▸ hs
  · exact h j s hj

theorem Formed.congr (h : t.Formed now) {t' : Tables} (ht : t'.seats = t.seats) : t'.Formed now := by
  intro i seat hs
  rw [ht] at hs
  exact h i seat hs

/-- **A move leaves every seat formed**, at every reading from the one its deadline is computed from. -/
theorem formed_step (h : t.Formed now) (httl : t.leases.defaultTtlSeconds = 30) {v : Move}
    (hv : ∀ r ∈ v.deadlineFrom, r ≤ now) : (t.step v).2.Formed now := by
  cases v with
  | sweep r =>
    intro i seat hs
    simp only [step, expireLeasesLocked_seat] at hs
    split at hs
    · exact Option.some.inj hs ▸ .free
    · exact h i seat hs
  | lock i requester server uuid r later stamp starts =>
    simp only [step]
    rcases lockSeat_cases t i requester server uuid r later stamp starts with ⟨e, -, ht⟩ | ⟨l, hl, ht⟩
    · exact h.congr (by rw [ht])
    · have hdeadline : l.expiresAt = later + 30 := LeaseManager.acquire_expiresAt hl
      have hid : l.leaseId = uuid := (LeaseManager.acquire_ok hl).1
      rw [ht _ rfl]
      intro j seat hj
      rw [publish_seats, Dict.get?_modify] at hj
      split at hj
      · obtain ⟨_, -, rfl⟩ := Option.map_eq_some_iff.1 hj
        rw [hid, hdeadline]
        exact .locked requester uuid (later + 30) server (by linarith [hv later rfl])
      · exact h j seat hj
  | confirm i r stamp starts =>
    simp only [step]
    rcases confirmSeat_cases t i r stamp starts with ⟨-, ht, -⟩ | ⟨_, -, -, -, ht, -⟩ | ⟨seat, l, hs, hk, -, ht⟩
    · exact h.congr (by rw [ht])
    · exact h.congr (by rw [ht])
    · have hreserved : Seat.Formed now { seat with state := .reserved, leaseId := "", expiresAt := 0 } := by
        cases h i seat hs with
        | locked owner uuid expiresAt server _ => exact .reserved owner server
        | free => cases hk
        | reserved => cases hk
      rw [ht _ rfl]
      exact h.set hreserved (publish_seats _ _ _ _ _ _)
  | cancel i =>
    simp only [step]
    rcases cancelLock_cases t i with ⟨-, ht, -⟩ | ⟨seat, -, -, ht⟩
    · rw [ht]
      exact h
    · rw [ht]
      exact h.set .free rfl
  | renew i r later last =>
    simp only [step]
    rcases renewLease_cases t i r later last with ⟨-, ht, -⟩ | ⟨_, _, -, -, -, -, ht, -⟩ | ⟨seat, l, hs, hk, -, hl, ht⟩
    · rw [ht]
      exact h
    · exact h.congr (by rw [ht])
    · have hdeadline : l.expiresAt = later + 30 := (LeaseManager.renew_expiresAt hl).trans (by rw [httl]; rfl)
      have hrenewed : Seat.Formed now { seat with expiresAt := l.expiresAt } := by
        rw [hdeadline]
        cases h i seat hs with
        | locked owner uuid expiresAt server _ =>
          exact .locked owner uuid (later + 30) server (by linarith [hv later rfl])
        | free => cases hk
        | reserved => cases hk
      rw [ht]
      exact h.set hrenewed rfl
  | reset stamp =>
    intro i seat hs
    simp only [step, reset, Dict.get?_mapValues] at hs
    obtain ⟨_, -, rfl⟩ := Option.map_eq_some_iff.1 hs
    exact .free
  | deliver timer => exact h
  | push server => exact h

/-! ## A promised seat -/

/-- The seat is locked for `r`, till `deadline` at least. -/
def Promised (t : Tables) (i : ℤ) (r : String) (deadline : Time) : Prop :=
  ∃ seat, t.seats.get? i = some seat ∧ seat.state = .locked ∧ seat.owner = r ∧ deadline ≤ seat.expiresAt


theorem Promised.inForce {r : String} {deadline : Time} (h : t.Promised i r deadline) (hlt : now < deadline) :
    t.InForce i now := by
  obtain ⟨seat, hs, hk, -, hle⟩ := h
  exact ⟨seat, hs, hk, lt_of_lt_of_le hlt hle⟩

theorem Promised.of_seat {r : String} {deadline : Time} (h : t.Promised i r deadline) {t' : Tables}
    (hs : t'.seats.get? i = t.seats.get? i) : t'.Promised i r deadline := by
  obtain ⟨seat, hseat, hrest⟩ := h
  exact ⟨seat, hs.trans hseat, hrest⟩

/-- **No sweep before the deadline returns the seat**: the lease it would drop is the lock's. -/
theorem Promised.not_returned {r : String} {deadline : Time} (h : t.Promised i r deadline) (ha : Agree now t)
    {swept : Time} (hlt : swept < deadline) : i ∉ (t.expireLeasesLocked swept).1 := by
  obtain ⟨seat, hs, hk, -, hle⟩ := h
  rw [mem_expireLeasesLocked]
  rintro ⟨⟨l, hl, rfl⟩, -⟩
  obtain ⟨⟨j, hj⟩, hover⟩ := (LeaseManager.mem_overdue _ _ _).1 hl
  rw [← (ha.exact.seat j l hj).1] at hj
  have hlock := (ha.lags.sub _ l hj).symm.trans (lockedLease_of_locked hs hk)
  rw [Option.some.inj hlock] at hover
  exact absurd (lt_of_lt_of_le hlt hle) (not_lt.2 hover)

end Tables

/-- The move does not end the lock of seat `i`, not even as a sweep at or after the deadline, and a renewal of it counts
from no earlier than thirty seconds before that. -/
def Move.Spares (i : ℤ) (deadline : Time) : Move → Prop
  | .sweep now => now < deadline
  | .confirm j _ _ _ => j ≠ i
  | .cancel j => j ≠ i
  | .renew j _ later _ => j = i → deadline ≤ later + 30
  | .reset _ => False
  | _ => True

namespace Tables

variable {t : Tables} {now : Time} {i : ℤ}

/-- **A move that spares the lock keeps the promise.** -/
theorem Promised.step {r : String} {deadline : Time} (h : t.Promised i r deadline) (ha : Agree now t)
    (httl : t.leases.defaultTtlSeconds = 30) {v : Move} (hal : t.Allowed v) (hv : v.Spares i deadline) :
    (t.step v).2.Promised i r deadline := by
  cases v with
  | sweep swept =>
    refine h.of_seat ?_
    simp only [Tables.step, expireLeasesLocked_seat, if_neg (h.not_returned ha hv)]
  | lock j requester server uuid now later stamp starts =>
    have hij : i ≠ j := by
      rintro rfl
      obtain ⟨seat, hs, hk, -⟩ := h
      obtain ⟨seat', hs', -, hl⟩ := hal
      obtain rfl := Option.some.inj (hs.symm.trans hs')
      exact hl hk
    exact h.of_seat (lockSeat_other hij t requester server uuid now later stamp starts)
  | confirm j now stamp starts => exact h.of_seat (confirmSeat_other (Ne.symm hv) t now stamp starts)
  | cancel j => exact h.of_seat (cancelLock_other (Ne.symm hv) t)
  | renew j now later last =>
    by_cases hij : i = j
    · subst hij
      simp only [Tables.step]
      rcases renewLease_cases t i now later last with ⟨-, ht, -⟩ | ⟨_, _, -, -, -, -, ht, -⟩ |
        ⟨seat', l, hs', -, -, hl, ht⟩
      · rw [ht]
        exact h
      · rw [ht]
        exact h
      · obtain ⟨seat, hs, hk, ho, -⟩ := h
        obtain rfl := Option.some.inj (hs.symm.trans hs')
        rw [ht]
        refine ⟨_, Dict.get?_set_self _ _ _, hk, ho, ?_⟩
        have hdeadline := LeaseManager.renew_expiresAt hl
        rw [httl] at hdeadline
        exact (hv rfl).trans (le_of_eq hdeadline.symm)
    · exact h.of_seat (renewLease_other hij t now later last)
  | reset stamp => exact absurd hv id
  | deliver timer => exact h
  | push server => exact h

end Tables

/-- The events that may end a lock of seat `i` before its deadline. -/
def Event.Ends (i : ℤ) : Event → Prop
  | .confirm j _ => j = i
  | .cancel j => j = i
  | .reset _ => True
  | _ => False

namespace Site

variable {s : Site} {e : Event} {i : ℤ} {r : String}

theorem ttl_run (b : Boot) (es : List Event) : (run step b.site es).app.tables.leases.defaultTtlSeconds = 30 :=
  invariant_moves (P := fun t => t.leases.defaultTtlSeconds = 30) rfl (fun _ v h _ => Tables.ttl_step h v) es

/-- A deadline is computed from a reading of the step. -/
theorem deadlineFrom_mem {v : Move} (hv : v ∈ s.moves e) {now : Time} (hn : ∀ r ∈ e.readings, r ≤ now) :
    ∀ r ∈ v.deadlineFrom, r ≤ now := by
  intro r hr
  rcases mem_moves hv with ⟨_, env, _, _, rfl, -, rfl | ⟨_, -, rfl⟩⟩ | ⟨_, _, -, rfl⟩ | ⟨_, -, rfl⟩ |
    ⟨_, env, rfl, rfl⟩ | ⟨_, _, _, -, rfl⟩ | ⟨_, -, rfl⟩ | ⟨_, -, rfl⟩ | ⟨_, -, rfl⟩
  case inl.inr =>
    obtain rfl := Option.some.inj hr
    exact hn _ (List.mem_map_of_mem (by decide))
  case inr.inr.inr.inl =>
    obtain rfl := Option.some.inj hr
    exact hn _ (List.mem_map_of_mem (by decide))
  all_goals cases hr

theorem formed_run (b : Boot) (es : List Event) {now : Time} (hn : ∀ r ∈ es.flatMap Event.readings, r ≤ now) :
    (run step b.site es).app.tables.Formed now := by
  induction es using List.reverseRecOn with
  | nil =>
    intro i seat hs
    have hinit := (Tables.initSeats_get? i).symm.trans hs
    split at hinit
    · exact Option.some.inj hinit ▸ .free
    · cases hinit
  | append_singleton es e ih =>
    rw [List.flatMap_append, List.flatMap_singleton] at hn
    have hold := ih fun r hr => hn r (List.mem_append_left _ hr)
    have hmoves : Along Tables.step (fun _ v => ∀ r ∈ v.deadlineFrom, r ≤ now) (run step b.site es).app.tables
        ((run step b.site es).moves e) :=
      along_of_mem fun v hv _ => deadlineFrom_mem hv fun r hr => hn r (List.mem_append_right _ hr)
    rw [run_snoc, tables_step]
    refine (invariant_along (P := fun t => t.Formed now ∧ t.leases.defaultTtlSeconds = 30) ⟨hold, ttl_run b es⟩
      (fun t v ht hv => ?_) _ hmoves).1
    exact ⟨Tables.formed_step ht.1 ht.2 hv, Tables.ttl_step ht.2 v⟩

/-- **The table has the seats 1 to 20, each free, locked for thirty seconds at most, or reserved**, at every reading from
the latest on; so the seconds shown for it are between 0 and 30, and 0 unless it is locked. -/
theorem seats_formed (b : Boot) (es : List Event) (now : Time) (hn : ∀ r ∈ es.flatMap Event.readings, r ≤ now) (i : ℤ) :
    ((∃ seat, (run step b.site es).app.tables.seats.get? i = some seat) ↔ 1 ≤ i ∧ i ≤ (seatCount : ℤ)) ∧
    ∀ seat, (run step b.site es).app.tables.seats.get? i = some seat →
      seat.Formed now ∧ 0 ≤ seat.remaining now ∧ (0 ≤ now → seat.remaining now ≤ 30) := by
  have hseats := (furnished_run b es).seats i
  rw [Option.isSome_iff_exists] at hseats
  refine ⟨hseats, fun seat hs => ?_⟩
  have hformed := formed_run b es hn i seat hs
  exact ⟨hformed, le_max_left _ _, hformed.remaining_le⟩

/-- Five seconds into the lock of `oneLock`. -/
theorem seats_formed_oneLock : ∃ seat, (run step Boot.calm.site oneLock).app.tables.seats.get? 1 = some seat ∧
    seat.Formed 5 ∧ seat.remaining 5 = 25 := by
  have hseat : (run step Boot.calm.site oneLock).app.tables.seats.get? 1 = some ⟨.locked, "Ann", "a", 30, "Server 1"⟩ := by
    decide +kernel
  exact ⟨_, hseat, ((seats_formed Boot.calm oneLock 5 (by decide +kernel) 1).2 _ hseat).1, by decide +kernel⟩

/-- The moves of an event spare the lock. -/
theorem spares_of_moves {v : Move} (hv : v ∈ s.moves e) {taken : Time} (hn : ¬ e.Ends i)
    (hr : ∀ r ∈ e.readings, taken ≤ r ∧ r < taken + 30) : v.Spares i (taken + 30) := by
  rcases mem_moves hv with ⟨_, env, _, _, rfl, -, rfl | ⟨_, -, rfl⟩⟩ | ⟨_, _, rfl, rfl⟩ | ⟨_, rfl, rfl⟩ |
    ⟨_, env, rfl, rfl⟩ | ⟨_, _, _, -, rfl⟩ | ⟨env, rfl, rfl⟩ | ⟨_, rfl, rfl⟩ | ⟨_, -, rfl⟩
  · exact (hr _ (List.mem_map_of_mem (by decide))).2
  · trivial
  · exact hn
  · exact hn
  · intro _
    have hlater := (hr (env.time 1) (List.mem_map_of_mem (by decide))).1
    linarith
  · trivial
  · exact (hr _ (List.mem_map_of_mem (by decide))).2
  · exact hn trivial
  · trivial

/-- **An attempt that books a seat promises it for thirty seconds** from the reading its lease is granted at. -/
theorem promised_of_books {call : ℕ} {env : Env} {draw : ℚ} (h : Books s (.attempt call env draw) i r) :
    (step s (.attempt call env draw)).2.app.tables.Promised i r (env.time 17 + 30) := by
  obtain ⟨call', env', draw', server, he, hr, hok, htab⟩ := lock_of_books h
  obtain ⟨rfl, rfl, rfl⟩ := Event.attempt.inj he
  obtain ⟨seat, hseat, -⟩ := App.bookable_of_reaches hr
  rw [htab]
  unfold App.takesLock at hok ⊢
  rcases Tables.lockSeat_cases (s.swept env).tables i r server env.uuid (env.time 16) (env.time 17) (env.time 18)
    env.starts with ⟨e, -, hl⟩ | ⟨l, hacq, hl⟩
  · rw [hl] at hok
    cases hok
  · have hdeadline : l.expiresAt = env.time 17 + 30 := LeaseManager.acquire_expiresAt hacq
    rw [hl _ rfl]
    simp only [Tables.Promised, Tables.publish_seats, Dict.get?_modify, if_true, hseat, Option.map_some]
    exact ⟨_, rfl, rfl, rfl, le_of_eq hdeadline.symm⟩

theorem promised_run (b : Boot) {pre mid : List Event} (hc : Chronological (pre ++ mid)) (hd : DistinctIds (pre ++ mid))
    {taken : Time} (h : (run step b.site pre).app.tables.Promised i r (taken + 30)) (hn : ∀ e ∈ mid, ¬ e.Ends i)
    (hr : ∀ rd ∈ mid.flatMap Event.readings, taken ≤ rd ∧ rd < taken + 30) :
    (run step b.site (pre ++ mid)).app.tables.Promised i r (taken + 30) := by
  have ha := runMoves_allowed (pre ++ mid) b.site
  have hw := b.site.wellTimed hc hd
  have httl := ttl_run b pre
  rw [tables_run] at h httl ⊢
  rw [runMoves_append] at ha hw ⊢
  refine (Tables.invariant_tracked
    (P := fun t => t.Promised i r (taken + 30) ∧ t.leases.defaultTtlSeconds = 30)
    (G := fun v => v.Spares i (taken + 30))
    (fun t now v hagree hav _ _ hp hv => ⟨hp.1.step hagree hp.2 hav hv, Tables.ttl_step hp.2 v⟩)
    (tracked_init b) ⟨h, httl⟩ _ ha hw ?_).1
  intro v hv
  obtain ⟨mid₁, e, mid₂, rfl, hmem⟩ := mem_runMoves mid _ hv
  refine spares_of_moves hmem (hn e (by simp)) fun rd hrd => hr rd ?_
  exact List.mem_flatMap.2 ⟨e, by simp, hrd⟩

/-- **A booked seat is held for thirty seconds**: until they have passed since its lease was granted, and unless it is
confirmed, cancelled or reset before, it stays locked for the requester, whose confirmation reserves it, whose renewal
promises it thirty seconds more, and no sweep returns it. -/
theorem held_till_deadline (b : Boot) (pre mid : List Event) (call : ℕ) (env : Env) (draw : ℚ) (f : Event) (i : ℤ)
    (r : String) (hc : Chronological (pre ++ [Event.attempt call env draw] ++ mid ++ [f]))
    (hd : DistinctIds (pre ++ [Event.attempt call env draw] ++ mid ++ [f]))
    (hb : Books (run step b.site pre) (.attempt call env draw) i r) (hn : ∀ e ∈ mid, ¬ e.Ends i)
    (hbefore : ∀ rd ∈ mid.flatMap Event.readings, rd < env.time 17 + 30) :
    (run step b.site (pre ++ [Event.attempt call env draw] ++ mid)).app.tables.Promised i r (env.time 17 + 30) ∧
    (∀ env', f = .confirm i env' → env'.time 0 < env.time 17 + 30 → env'.Sends →
      (step (run step b.site (pre ++ [Event.attempt call env draw] ++ mid)) f).1.response = some .ok ∧
      (step (run step b.site (pre ++ [Event.attempt call env draw] ++ mid)) f).2.app.tables.Reserved i r) ∧
    (∀ env', f = .renew i env' → env'.time 0 < env.time 17 + 30 →
      (∃ n, (step (run step b.site (pre ++ [Event.attempt call env draw] ++ mid)) f).1.response = some (.renewed n)) ∧
      (step (run step b.site (pre ++ [Event.attempt call env draw] ++ mid)) f).2.app.tables.Promised i r (env'.time 1 + 30)) ∧
    ((∀ rd ∈ f.readings, rd < env.time 17 + 30) →
      i ∉ (step (run step b.site (pre ++ [Event.attempt call env draw] ++ mid)) f).1.returned) := by
  obtain ⟨hcm, hread⟩ := chronological_snoc hc
  obtain ⟨hdm, -⟩ := distinctIds_snoc hd
  have htaken : env.time 17 ∈ Event.readings (.attempt call env draw) := List.mem_map_of_mem (by decide)
  have hafter : ∀ rd ∈ mid.flatMap Event.readings, env.time 17 ≤ rd := by
    intro rd hrd
    unfold Chronological at hcm
    rw [List.flatMap_append, List.flatMap_append, List.flatMap_singleton] at hcm
    exact (List.pairwise_append.1 hcm).2.2 _ (List.mem_append_right _ htaken) rd hrd
  have hbooked := promised_of_books hb
  rw [← run_snoc] at hbooked
  have hpromised := promised_run b hcm hdm hbooked hn fun rd hrd => ⟨hafter rd hrd, hbefore rd hrd⟩
  have hagree : ∀ env' : Env, f.readings = env'.readings → ∀ k < Env.span, Tables.Agree (env'.time k)
      (run step b.site (pre ++ [Event.attempt call env draw] ++ mid)).app.tables := by
    intro env' he k hk
    refine agree_run b hcm hdm (hread _ ?_)
    rw [he]
    exact List.mem_map_of_mem (List.mem_range.2 hk)
  have httl := ttl_run b (pre ++ [Event.attempt call env draw] ++ mid)
  have hfurnished := furnished_run b (pre ++ [Event.attempt call env draw] ++ mid)
  generalize run step b.site (pre ++ [Event.attempt call env draw] ++ mid) = s at *
  refine ⟨hpromised, ?_, ?_, ?_⟩
  · rintro env' rfl hlt hs
    have hanswer := (hagree env' rfl 0 (by decide)).confirm_answer (i := i) le_rfl hfurnished (env'.time 1) env'.starts
    have hok := hanswer.2.2 ⟨hpromised.inForce hlt, hs⟩
    have hresponse : (step s (.confirm i env')).1.response = some .ok := congrArg some hok
    obtain ⟨r', ⟨seat', hs', -, ho'⟩, hreserved⟩ := reserved_of_confirms ⟨⟨env', rfl⟩, hresponse⟩
    obtain ⟨seat, hs, -, ho, -⟩ := hpromised
    obtain rfl := Option.some.inj (hs.symm.trans hs')
    exact ⟨hresponse, (ho'.symm.trans ho) ▸ hreserved⟩
  · rintro env' rfl hlt
    obtain ⟨n, hn⟩ := ((hagree env' rfl 0 (by decide)).renew_ok (i := i) le_rfl (env'.time 1) (env'.time 2)).2
      (hpromised.inForce hlt)
    refine ⟨⟨n, congrArg some hn⟩, ?_⟩
    rw [tables_step]
    have hrenewed : s.app.tables.Promised i r (env.time 17 + 30) := hpromised
    obtain ⟨seat, hs, hk, ho, -⟩ := hrenewed
    rcases Tables.renewLease_cases s.app.tables i (env'.time 0) (env'.time 1) (env'.time 2) with
      ⟨-, -, c, m, hr⟩ | ⟨_, _, -, -, -, -, -, hr⟩ | ⟨seat', l, hs', -, -, hl, ht⟩
    · rw [hr] at hn
      cases hn
    · exact absurd hn (hr n)
    · obtain rfl := Option.some.inj (hs.symm.trans hs')
      have hdeadline := LeaseManager.renew_expiresAt hl
      rw [httl] at hdeadline
      simp only [moves, run_cons, run_nil, Tables.step]
      rw [ht]
      exact ⟨_, Dict.get?_set_self _ _ _, hk, ho, le_of_eq hdeadline.symm⟩
  · intro hlt
    cases f with
    | attempt call' env' draw' =>
      have hnot := hpromised.not_returned (hagree env' rfl 1 (by decide))
        (hlt (env'.time 1) (List.mem_map_of_mem (by decide)))
      cases hrun : s.running call' with
      | none =>
        simp only [step, hrun]
        exact List.not_mem_nil
      | some c =>
        simp only [step, hrun]
        exact hnot
    | snapshot env' =>
      exact hpromised.not_returned (hagree env' rfl 0 (by decide)) (hlt (env'.time 0) (List.mem_map_of_mem (by decide)))
    | _ => exact List.not_mem_nil

/-- The lock of `oneLock` is confirmed a second before its deadline. -/
theorem held_till_deadline_oneLock :
    (step (run step Boot.calm.site ([.book 1 "Ann"] ++ [.attempt 0 (.calm 0 idA) 0] ++ []))
      (.confirm 1 (.calm 29 idB))).1.response = some .ok := by
  have hbooks : Books (run step Boot.calm.site [.book 1 "Ann"]) (.attempt 0 (.calm 0 idA) 0) 1 "Ann" :=
    ⟨0, .calm 0 idA, 0, ⟨1, "Ann", 0, none⟩, .server1, "seat-1", rfl, by decide +kernel, rfl, rfl, by decide +kernel⟩
  have h := held_till_deadline Boot.calm [.book 1 "Ann"] [] 0 (.calm 0 idA) 0 (.confirm 1 (.calm 29 idB)) 1 "Ann"
    (by decide +kernel) (by decide +kernel) hbooks nofun nofun
  exact (h.2.1 (.calm 29 idB) rfl (by decide +kernel) ⟨rfl, rfl⟩).1

end Site
end Ticket
