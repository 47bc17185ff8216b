import TicketBooking.Moves
/-!
# LeaseTable — the seat table against the lease authority

A lock is recorded twice.  Read as leases, the locked seats (`lockedLease`) are the full record, and the authority's
seat index lags it: it holds nothing else, and what it lacks is overdue by the latest reading (`Agree`).  Every move
keeps that (`agree_step`), so it holds along every run of moves whose readings never go back and whose ids are distinct
(`tracked_run`).
-/
namespace Ticket

open Runs Expiry
open LeaseManager (live)

namespace Tables

/-- A locked seat, as the lease it should be. -/
def lockedLease (t : Tables) (i : ℤ) : Option Lease :=
  (t.seats.get? i).bind (fun seat =>
    if seat.state = .locked then some ⟨seat.leaseId, i, seat.server, seat.owner, seat.expiresAt⟩ else none)

/-- **The authority's record lags the seat table's** at the reading `now`, and locks are told apart by their ids. -/
structure Agree (now : Time) (t : Tables) : Prop where
  exact : t.leases.Exact
  lags : Lags Lease.expiresAt now t.leases.bySeat.get? t.lockedLease
  ids : ∀ i j l l', t.lockedLease i = some l → t.lockedLease j = some l' → l.leaseId = l'.leaseId → i = j
  named : ∀ i l, t.lockedLease i = some l → l.leaseId ≠ ""

variable {t : Tables} {now later : Time} {i : ℤ} {l : Lease}

theorem lockedLease_eq_some : t.lockedLease i = some l ↔ ∃ seat, t.seats.get? i = some seat ∧ seat.state = .locked ∧
    l = ⟨seat.leaseId, i, seat.server, seat.owner, seat.expiresAt⟩ := by
  unfold lockedLease
  rw [Option.bind_eq_some_iff]
  refine exists_congr fun seat => and_congr_right fun _ => ?_
  rw [Option.ite_none_right_eq_some, Option.some.injEq]
  exact and_congr_right fun _ => eq_comm

theorem lockedLease_of_locked {seat : Seat} (hs : t.seats.get? i = some seat) (hl : seat.state = .locked) :
    t.lockedLease i = some ⟨seat.leaseId, i, seat.server, seat.owner, seat.expiresAt⟩ :=
  lockedLease_eq_some.2 ⟨seat, hs, hl, rfl⟩

theorem lockedLease_isSome : (∃ l, t.lockedLease i = some l) ↔ t.IsLocked i := by
  constructor
  · rintro ⟨l, hl⟩
    obtain ⟨seat, hs, hk, -⟩ := lockedLease_eq_some.1 hl
    exact ⟨seat, hs, hk⟩
  · rintro ⟨seat, hs, hk⟩
    exact ⟨_, lockedLease_of_locked hs hk⟩

theorem lockedLease_seatId (h : t.lockedLease i = some l) : l.seatId = i := by
  obtain ⟨seat, -, -, rfl⟩ := lockedLease_eq_some.1 h
  rfl

theorem lockedLease_of_bookable (h : t.Bookable i) : t.lockedLease i = none := by
  obtain ⟨seat, hs, -, hk⟩ := h
  cases hl : t.lockedLease i with
  | none => rfl
  | some l =>
    obtain ⟨seat', hs', hk', -⟩ := lockedLease_eq_some.1 hl
    obtain rfl := Option.some.inj (hs.symm.trans hs')
    exact absurd hk' hk

theorem lockedLease_congr {t' : Tables} (h : t'.seats = t.seats) : t'.lockedLease = t.lockedLease := by
  unfold lockedLease
  rw [h]

theorem lockedLease_set {t' : Tables} (seat : Seat) (h : t'.seats = t.seats.set i seat) :
    t'.lockedLease = Function.update t.lockedLease i
      (if seat.state = .locked then some ⟨seat.leaseId, i, seat.server, seat.owner, seat.expiresAt⟩ else none) := by
  funext j
  unfold lockedLease
  rw [h, Dict.get?_set, Function.update_apply]
  by_cases hj : j = i
  · subst hj
    simp
  · simp [hj]

theorem lockedLease_set_of_ne {t' : Tables} (seat : Seat) (hk : seat.state ≠ .locked)
    (h : t'.seats = t.seats.set i seat) : t'.lockedLease = Function.update t.lockedLease i none := by
  rw [lockedLease_set seat h, if_neg hk]

theorem lockedLease_expireLeasesLocked (t : Tables) (now : Time) (i : ℤ) :
    (t.expireLeasesLocked now).2.lockedLease i =
      if i ∈ (t.expireLeasesLocked now).1 then none else t.lockedLease i := by
  unfold lockedLease
  rw [expireLeasesLocked_seat]
  split
  · rfl
  · rfl

theorem lockedLease_reset (t : Tables) (stamp : ServerId → ℕ → Time) (i : ℤ) :
    (t.reset stamp).lockedLease i = none := by
  simp only [reset, lockedLease, Dict.get?_mapValues]
  cases t.seats.get? i <;> rfl

section
variable (h : Agree now t)
include h

theorem Agree.mono (hl : now ≤ later) : Agree later t := ⟨h.exact, h.lags.mono hl, h.ids, h.named⟩

theorem Agree.congr {t' : Tables} (hs : t'.seats = t.seats) (hl : t'.leases = t.leases) : Agree now t' := by
  have hk := lockedLease_congr hs
  exact ⟨by rw [hl]; exact h.exact, by rw [hl, hk]; exact h.lags, by rw [hk]; exact h.ids, by rw [hk]; exact h.named⟩

theorem Agree.lease_of_id (hi : t.lockedLease i = some l) {o : Lease} (ho : t.leases.byId.get? l.leaseId = some o) :
    o = l := by
  obtain ⟨hid, hseat⟩ := h.exact.id _ o ho
  have hsub := h.lags.sub _ o hseat
  have hij := h.ids _ _ o l hsub hi hid
  rw [hij, hi] at hsub
  exact (Option.some.inj hsub).symm

theorem Agree.id_iff_seat (hi : t.lockedLease i = some l) :
    t.leases.byId.get? l.leaseId = some l ↔ t.leases.bySeat.get? i = some l := by
  constructor
  · intro hb
    have hseat := (h.exact.id _ l hb).2
    rwa [lockedLease_seatId hi] at hseat
  · exact fun hs => (h.exact.seat i l hs).2

theorem Agree.live_id (hi : t.lockedLease i = some l) (hl : now ≤ later) :
    live later t.leases.byId.get? l.leaseId = if later < l.expiresAt then some l else none := by
  by_cases hlt : later < l.expiresAt
  · rw [if_pos hlt]
    refine liveAt_eq_some.2 ⟨(h.id_iff_seat hi).2 ?_, hlt⟩
    cases hs : t.leases.bySeat.get? i with
    | none => exact absurd (le_trans (h.lags.overdue i l hi hs) hl) (not_le.2 hlt)
    | some o =>
      have ho := h.lags.sub i o hs
      rw [hi] at ho
      rw [Option.some.inj ho]
  · rw [if_neg hlt]
    refine liveAt_eq_none.2 fun o ho => ?_
    rw [h.lease_of_id hi ho]
    exact not_lt.1 hlt

/-- **Purging the authority alone** keeps the lag. -/
theorem Agree.purge (hl : now ≤ later) : Agree later { t with leases := (t.leases.expireLocked later).2 } := by
  refine ⟨LeaseManager.exact_expireLocked h.exact later, ?_, h.ids, h.named⟩
  simp only
  rw [LeaseManager.expireLocked_bySeat h.exact]
  exact h.lags.purge hl

/-- **Writing a seat and its lease together** keeps the lag. -/
theorem Agree.write {t' : Tables} {o : Option Lease} (hex : t'.leases.Exact)
    (hb : t'.leases.bySeat.get? = Function.update t.leases.bySeat.get? i o)
    (hk : t'.lockedLease = Function.update t.lockedLease i o)
    (ho : ∀ l ∈ o, l.leaseId ≠ "" ∧ ∀ j l', j ≠ i → t.lockedLease j = some l' → l'.leaseId ≠ l.leaseId) :
    Agree now t' := by
  have hcase : ∀ j l, t'.lockedLease j = some l → (j = i ∧ o = some l) ∨ (j ≠ i ∧ t.lockedLease j = some l) := by
    intro j l hj
    rw [hk, Function.update_apply] at hj
    split at hj
    · exact Or.inl ⟨‹_›, hj⟩
    · exact Or.inr ⟨‹_›, hj⟩
  refine ⟨hex, ?_, ?_, ?_⟩
  · rw [hb, hk]
    exact h.lags.write i o
  · intro j k l l' hj hk' hid
    rcases hcase j l hj with ⟨rfl, hj⟩ | ⟨hne, hj⟩
    · rcases hcase k l' hk' with ⟨rfl, -⟩ | ⟨hne', hk'⟩
      · rfl
      · exact absurd hid.symm ((ho l hj).2 k l' hne' hk')
    · rcases hcase k l' hk' with ⟨rfl, hk'⟩ | ⟨-, hk'⟩
      · exact absurd hid ((ho l' hk').2 j l hne hj)
      · exact h.ids j k l l' hj hk' hid
  · intro j l hj
    rcases hcase j l hj with ⟨-, hj⟩ | ⟨-, hj⟩
    · exact (ho l hj).1
    · exact h.named j l hj

/-- Releasing a lock's id takes its lease off the seat index, if it was there. -/
theorem Agree.release (hi : t.lockedLease i = some l) :
    (t.leases.release l.leaseId).bySeat.get? = Function.update t.leases.bySeat.get? i none := by
  cases hb : t.leases.byId.get? l.leaseId with
  | none =>
    rw [LeaseManager.release_of_none hb]
    have hs : t.leases.bySeat.get? i = none := by
      cases hs : t.leases.bySeat.get? i with
      | none => rfl
      | some o =>
        have ho := h.lags.sub i o hs
        rw [hi] at ho
        obtain rfl := Option.some.inj ho
        exact absurd (hb.symm.trans ((h.id_iff_seat hi).2 hs)) (by simp)
    rw [← hs, Function.update_eq_self]
  | some o =>
    obtain rfl := h.lease_of_id hi hb
    rw [LeaseManager.release_of_some h.exact hb, lockedLease_seatId hi, Dict.get?_erase_eq]

end

/-! ## What each move writes -/

/-- The move purges the authority at `now` and writes seat `i` and its lease together. -/
structure Writes (now : Time) (t t' : Tables) (i : ℤ) (o : Option Lease) : Prop where
  exact : t'.leases.Exact
  seats : t'.leases.bySeat.get? = Function.update (live now t.leases.bySeat.get?) i o
  locked : t'.lockedLease = Function.update t.lockedLease i o

theorem Writes.agree {t' : Tables} {o : Option Lease} (hw : Writes later t t' i o) (h : Agree now t)
    (hl : now ≤ later)
    (ho : ∀ l ∈ o, l.leaseId ≠ "" ∧ ∀ j l', j ≠ i → t.lockedLease j = some l' → l'.leaseId ≠ l.leaseId) :
    Agree later t' := by
  refine (h.purge hl).write hw.exact ?_ hw.locked ho
  rw [hw.seats, ← LeaseManager.expireLocked_bySeat h.exact]

section
variable (h : Agree now t)
include h

/-- **A lock on a seat that may be booked is never refused by the authority**, and is recorded twice. -/
theorem lockSeat_writes (later : Time) (hb : t.Bookable i) {uuid : Uuid}
    (hf : ∀ j l, t.lockedLease j = some l → l.leaseId ≠ uuid)
    (requester : String) (server : ServerId) (acquired stamp : Time) (starts : ℕ → Bool) :
    Writes later t (t.lockSeat i requester server uuid later acquired stamp starts).2 i
      (some ⟨uuid, i, toString server, requester, acquired + 30⟩) ∧
    ∀ m, (t.lockSeat i requester server uuid later acquired stamp starts).1 ≠ .error (.leaseConflict m) := by
  have hnone : t.leases.bySeat.get? i = none := by
    cases hs : t.leases.bySeat.get? i with
    | none => rfl
    | some o => exact absurd ((lockedLease_of_bookable hb).symm.trans (h.lags.sub i o hs)) (by simp)
  have hfree : live later t.leases.bySeat.get? i = none := liveAt_eq_none.2 fun v hv => by
    rw [hnone] at hv
    cases hv
  have hacq := LeaseManager.acquire_free h.exact i (toString server) requester uuid (some 30) later acquired hfree
  have hp := LeaseManager.exact_expireLocked h.exact later
  have hid : (t.leases.expireLocked later).2.byId.get? uuid = none := by
    rw [LeaseManager.expireLocked_byId h.exact]
    refine liveAt_eq_none.2 fun o ho => ?_
    obtain ⟨hou, hos⟩ := h.exact.id _ o ho
    exact absurd hou (hf _ o (h.lags.sub _ o hos))
  rcases lockSeat_cases t i requester server uuid later acquired stamp starts with ⟨e, he, -⟩ | ⟨l, hl, ht⟩
  · rw [hacq] at he
    cases he
  · rw [hacq] at hl
    obtain rfl := Except.ok.inj hl
    rw [ht _ rfl]
    refine ⟨⟨?_, ?_, ?_⟩, ?_⟩
    · rw [publish_leases, hacq]
      refine LeaseManager.exact_put hp _ (fun o ho => ?_) (fun o ho => ?_)
      · rw [LeaseManager.expireLocked_bySeat h.exact] at ho
        exact absurd (hfree.symm.trans ho) (by simp)
      · exact absurd (hid.symm.trans ho) (by simp)
    · rw [publish_leases, hacq]
      simp only [LeaseManager.put]
      rw [Dict.get?_set_eq, LeaseManager.expireLocked_bySeat h.exact]
      rfl
    · obtain ⟨seat, hs, -⟩ := hb
      rw [lockedLease_congr (publish_seats _ _ _ _ _ _)]
      refine lockedLease_set ⟨.locked, requester, uuid, acquired + 30, toString server⟩ ?_
      simp only [Dict.modify, hs, Option.getD_some]
    · intro m hm
      split at hm <;> cases hm

variable (hl : now ≤ later)
include hl

/-- **A confirmation of a lock**: in force, the lock and its lease go; overdue, the authority is purged. -/
theorem confirmSeat_writes {seat : Seat} (hs : t.seats.get? i = some seat) (hk : seat.state = .locked) (stamp : Time)
    (starts : ℕ → Bool) :
    (later < seat.expiresAt → Writes later t (t.confirmSeat i later stamp starts).2 i none) ∧
    (¬ later < seat.expiresAt →
      (t.confirmSeat i later stamp starts).2 = { t with leases := (t.leases.expireLocked later).2 }) := by
  have hi := lockedLease_of_locked hs hk
  have hlive := h.live_id hi hl
  have hval := LeaseManager.validate_ok_iff h.exact seat.leaseId later (some i)
  rw [hlive] at hval
  rcases confirmSeat_cases t i later stamp starts with ⟨hn, -⟩ | ⟨seat', hs', -, hdead, ht, -⟩ |
      ⟨seat', l, hs', -, hok, ht⟩
  · exact absurd ⟨seat, hs, hk⟩ hn
  · obtain rfl := Option.some.inj (hs.symm.trans hs')
    refine ⟨fun hlt => ?_, fun _ => ht⟩
    rw [if_pos hlt] at hval
    exact absurd ((hval _).2 ⟨rfl, fun z hz => Option.some.inj hz⟩) (hdead _)
  · obtain rfl := Option.some.inj (hs.symm.trans hs')
    have hlt : later < seat.expiresAt := by
      by_contra hlt
      have hl' := ((hval l).1 hok).1
      rw [if_neg hlt] at hl'
      cases hl'
    refine ⟨fun _ => ?_, fun hn => absurd hlt hn⟩
    rw [ht _ rfl]
    have hpurged := h.purge hl
    refine ⟨?_, ?_, ?_⟩
    · rw [publish_leases]
      exact LeaseManager.exact_release hpurged.exact _
    · rw [publish_leases, ← LeaseManager.expireLocked_bySeat h.exact]
      exact hpurged.release (i := i) hi
    · rw [lockedLease_congr (publish_seats _ _ _ _ _ _)]
      exact lockedLease_set_of_ne { seat with state := .reserved, leaseId := "", expiresAt := 0 } (by simp) rfl

/-- **A renewal of a lock**: in force, both records get the new deadline; overdue, the authority is purged. -/
theorem renewLease_writes {seat : Seat} (hs : t.seats.get? i = some seat) (hk : seat.state = .locked)
    (renewed last : Time) :
    (later < seat.expiresAt → Writes later t (t.renewLease i later renewed last).2 i
      (some ⟨seat.leaseId, i, seat.server, seat.owner, renewed + t.leases.defaultTtlSeconds⟩)) ∧
    (¬ later < seat.expiresAt →
      (t.renewLease i later renewed last).2 = { t with leases := (t.leases.expireLocked later).2 }) := by
  have hi := lockedLease_of_locked hs hk
  have hlive := h.live_id hi hl
  have hne := h.named i _ hi
  rcases renewLease_cases t i later renewed last with ⟨hn, -⟩ | ⟨seat', e, hs', -, -, hdead, ht, -⟩ |
      ⟨seat', l, hs', -, -, hok, ht⟩
  · exact absurd hk (by rcases hn seat hs with hn | hn; exacts [hn, absurd hn hne])
  · obtain rfl := Option.some.inj (hs.symm.trans hs')
    have hlt : ¬ later < seat.expiresAt := by
      intro hlt
      rw [if_pos hlt] at hlive
      rw [LeaseManager.renew_live h.exact _ none later renewed hlive] at hdead
      cases hdead
    rw [if_neg hlt] at hlive
    refine ⟨fun hc => absurd hc hlt, fun _ => ?_⟩
    rw [ht, LeaseManager.renew_dead h.exact _ none later renewed hlive]
  · obtain rfl := Option.some.inj (hs.symm.trans hs')
    have hlt : later < seat.expiresAt := by
      by_contra hlt
      rw [if_neg hlt] at hlive
      rw [LeaseManager.renew_dead h.exact _ none later renewed hlive] at hok
      cases hok
    rw [if_pos hlt] at hlive
    have hren := LeaseManager.renew_live h.exact _ none later renewed hlive
    rw [hren] at hok
    obtain rfl := Except.ok.inj hok
    refine ⟨fun _ => ?_, fun hn => absurd hlt hn⟩
    rw [ht, hren]
    have hp := LeaseManager.exact_expireLocked h.exact later
    rw [← LeaseManager.expireLocked_byId h.exact] at hlive
    obtain ⟨-, hseat⟩ := hp.id _ _ hlive
    refine ⟨?_, ?_, ?_⟩
    · refine LeaseManager.exact_put hp _ (fun o ho => ?_) (fun o ho => ?_)
      · rw [Option.some.inj (hseat.symm.trans ho)]
      · rw [Option.some.inj (hlive.symm.trans ho)]
    · simp only [LeaseManager.put]
      rw [Dict.get?_set_eq, LeaseManager.expireLocked_bySeat h.exact]
      rfl
    · rw [lockedLease_set (t := t) (i := i) { seat with expiresAt := renewed + t.leases.defaultTtlSeconds } rfl,
        if_pos hk]

end

theorem cancelLock_writes (h : Agree now t) (hs : t.IsLocked i) :
    (t.cancelLock i).2.leases.Exact ∧
    (t.cancelLock i).2.leases.bySeat.get? = Function.update t.leases.bySeat.get? i none ∧
    (t.cancelLock i).2.lockedLease = Function.update t.lockedLease i none := by
  rcases cancelLock_cases t i with ⟨hn, -⟩ | ⟨seat, hs', hk, ht⟩
  · exact absurd hs hn
  · have hi := lockedLease_of_locked hs' hk
    have hne := h.named i _ hi
    rw [ht, if_neg hne]
    exact ⟨LeaseManager.exact_release h.exact _, h.release hi, lockedLease_set_of_ne .free (by simp [Seat.free]) rfl⟩

/-- **The sweep** purges the authority and returns the seats whose leases that drops. -/
theorem sweep_writes (h : Agree now t) (later : Time) :
    (t.expireLeasesLocked later).2.leases.Exact ∧
    (t.expireLeasesLocked later).2.leases.bySeat.get? = live later t.leases.bySeat.get? ∧
    ∀ i, (t.expireLeasesLocked later).2.lockedLease i =
      if t.leases.bySeat.get? i ≠ none ∧ live later t.leases.bySeat.get? i = none then none else t.lockedLease i := by
  refine ⟨LeaseManager.exact_expireLocked h.exact later, LeaseManager.expireLocked_bySeat h.exact later, fun i => ?_⟩
  rw [lockedLease_expireLeasesLocked]
  have hiff : i ∈ (t.expireLeasesLocked later).1 ↔
      t.leases.bySeat.get? i ≠ none ∧ live later t.leases.bySeat.get? i = none := by
    rw [mem_expireLeasesLocked]
    constructor
    · rintro ⟨⟨l, ho, rfl⟩, -⟩
      obtain ⟨⟨s, hs⟩, hle⟩ := (LeaseManager.mem_overdue _ _ _).1 ho
      have hls := (h.exact.seat s l hs).1
      subst hls
      refine ⟨by rw [hs]; simp, liveAt_eq_none.2 fun v hv => ?_⟩
      rw [hs] at hv
      exact Option.some.inj hv ▸ hle
    · rintro ⟨hne, hnone⟩
      obtain ⟨l, hs⟩ := Option.ne_none_iff_exists'.1 hne
      have hover := (LeaseManager.mem_overdue _ _ _).2 ⟨⟨i, hs⟩, liveAt_eq_none.1 hnone l hs⟩
      refine ⟨⟨l, hover, (h.exact.seat i l hs).1⟩, ?_⟩
      exact lockedLease_isSome.1 ⟨l, h.lags.sub i l hs⟩
  by_cases hi : i ∈ (t.expireLeasesLocked later).1
  · rw [if_pos hi, if_pos (hiff.1 hi)]
  · rw [if_neg hi, if_neg fun hc => hi (hiff.2 hc)]

end Tables

/-! ## Every move -/

/-- The reading by which a move purges the authority. -/
def Move.reading : Move → Option Time
  | .sweep now => some now
  | .lock _ _ _ _ now _ _ _ => some now
  | .confirm _ now _ _ => some now
  | .renew _ now _ _ => some now
  | _ => none

def Move.uuid : Move → Option Uuid
  | .lock _ _ _ uuid _ _ _ _ => some uuid
  | _ => none

namespace Tables

variable {t : Tables} {now later : Time}

/-- The id a move issues is on no lock yet. -/
def Fresh (t : Tables) (v : Move) : Prop := ∀ u ∈ v.uuid, ∀ j l, t.lockedLease j = some l → l.leaseId ≠ u

/-- A lock's id was on the seat before the move, or the move issues it. -/
def IdsFrom (t : Tables) (v : Move) : Prop :=
  ∀ j l, (t.step v).2.lockedLease j = some l →
    (∃ l', t.lockedLease j = some l' ∧ l'.leaseId = l.leaseId) ∨ ∃ u ∈ v.uuid, u = l.leaseId

theorem idsFrom_of_same {v : Move} (h : (t.step v).2.lockedLease = t.lockedLease) : t.IdsFrom v := by
  intro j l hj
  rw [h] at hj
  exact Or.inl ⟨l, hj, rfl⟩

theorem idsFrom_of_update {v : Move} {i : ℤ} {o : Option Lease}
    (h : (t.step v).2.lockedLease = Function.update t.lockedLease i o)
    (ho : ∀ l ∈ o, (∃ l', t.lockedLease i = some l' ∧ l'.leaseId = l.leaseId) ∨ ∃ u ∈ v.uuid, u = l.leaseId) :
    t.IdsFrom v := by
  intro j l hj
  rw [h, Function.update_apply] at hj
  split at hj
  · rename_i hji
    rw [hji]
    exact ho l hj
  · exact Or.inl ⟨l, hj, rfl⟩

/-- A move that leaves the tables as they are. -/
theorem agree_of_same (h : Agree now t) (hl : now ≤ later) {v : Move} (ht : (t.step v).2 = t) :
    Agree later (t.step v).2 ∧ t.IdsFrom v := by
  refine ⟨?_, idsFrom_of_same (by rw [ht])⟩
  rw [ht]
  exact h.mono hl

/-- A move of which the purge of the authority is all. -/
theorem agree_of_purged (h : Agree now t) {r : Time} (hnr : now ≤ r) (hrl : r ≤ later) {v : Move}
    (ht : (t.step v).2 = { t with leases := (t.leases.expireLocked r).2 }) :
    Agree later (t.step v).2 ∧ t.IdsFrom v := by
  refine ⟨?_, idsFrom_of_same ?_⟩
  · rw [ht]
    exact (h.purge hnr).mono hrl
  · rw [ht]
    rfl

theorem agree_sweep (h : Agree now t) {r : Time} (hnr : now ≤ r) (hrl : r ≤ later) :
    Agree later (t.step (.sweep r)).2 ∧ t.IdsFrom (.sweep r) := by
  obtain ⟨hex, hseats, hlocked⟩ := sweep_writes h r
  have hsub : ∀ i l, (t.expireLeasesLocked r).2.lockedLease i = some l → t.lockedLease i = some l := by
    intro i l hi
    rw [hlocked] at hi
    split at hi
    · cases hi
    · exact hi
  refine ⟨Agree.mono ⟨hex, ⟨?_, ?_⟩, ?_, ?_⟩ hrl, fun j l hj => Or.inl ⟨l, hsub j l hj, rfl⟩⟩
  · intro i l hi
    simp only [step] at hi ⊢
    rw [hseats] at hi
    rw [hlocked, if_neg fun hc => absurd (hc.2.symm.trans hi) (by simp)]
    exact h.lags.sub i l (liveAt_eq_some.1 hi).1
  · intro i l hi hn
    simp only [step] at hi hn
    rw [hseats] at hn
    exact (h.lags.purge hnr).overdue i l (hsub i l hi) hn
  · exact fun i j l l' hi hj => h.ids i j l l' (hsub i l hi) (hsub j l' hj)
  · exact fun i l hi => h.named i l (hsub i l hi)

/-- **Every move keeps the authority's record lagging the seat table's**, up to the reading it purges by. -/
theorem agree_step (h : Agree now t) {v : Move} (ha : t.Allowed v) (hf : t.Fresh v)
    (hr : ∀ r ∈ v.reading, now ≤ r ∧ r ≤ later) (hl : now ≤ later) :
    Agree later (t.step v).2 ∧ t.IdsFrom v := by
  cases v with
  | sweep r =>
    obtain ⟨hnr, hrl⟩ := hr r rfl
    exact agree_sweep h hnr hrl
  | lock i requester server uuid r acquired stamp starts =>
    obtain ⟨hnr, hrl⟩ := hr r rfl
    obtain ⟨hw, -⟩ := lockSeat_writes h r ha (hf uuid rfl) requester server acquired stamp starts
    refine ⟨(hw.agree h hnr fun l ho => ?_).mono hrl, idsFrom_of_update hw.locked fun l ho => ?_⟩
    · obtain rfl := Option.some.inj ho
      exact ⟨uuid.2, fun j l' _ hj => hf uuid rfl j l' hj⟩
    · obtain rfl := Option.some.inj ho
      exact Or.inr ⟨uuid, rfl, rfl⟩
  | confirm i r stamp starts =>
    obtain ⟨hnr, hrl⟩ := hr r rfl
    by_cases hk : t.IsLocked i
    · obtain ⟨seat, hs, hk⟩ := hk
      obtain ⟨hlive, hdead⟩ := confirmSeat_writes h hnr hs hk stamp starts
      by_cases hlt : r < seat.expiresAt
      · have hw := hlive hlt
        exact ⟨(hw.agree h hnr fun l ho => (nomatch ho)).mono hrl, idsFrom_of_update hw.locked fun l ho => (nomatch ho)⟩
      · exact agree_of_purged h hnr hrl (hdead hlt)
    · exact agree_of_same h hl (confirmSeat_unlocked hk r stamp starts)
  | cancel i =>
    by_cases hk : t.IsLocked i
    · obtain ⟨hex, hseats, hlocked⟩ := cancelLock_writes h hk
      refine ⟨(h.write hex hseats hlocked fun l ho => (nomatch ho)).mono hl,
        idsFrom_of_update hlocked fun l ho => (nomatch ho)⟩
    · exact agree_of_same h hl (cancelLock_unlocked hk)
  | renew i r renewed last =>
    obtain ⟨hnr, hrl⟩ := hr r rfl
    by_cases hk : t.IsLocked i
    · obtain ⟨seat, hs, hk⟩ := hk
      obtain ⟨hlive, hdead⟩ := renewLease_writes h hnr hs hk renewed last
      have hi := lockedLease_of_locked hs hk
      by_cases hlt : r < seat.expiresAt
      · have hw := hlive hlt
        refine ⟨(hw.agree h hnr fun l ho => ?_).mono hrl, idsFrom_of_update hw.locked fun l ho => ?_⟩
        · have hne := h.named i _ hi
          obtain rfl := Option.some.inj ho
          exact ⟨hne, fun j l' hji hj hid => hji (h.ids j i l' _ hj hi hid)⟩
        · obtain rfl := Option.some.inj ho
          exact Or.inl ⟨_, hi, rfl⟩
      · exact agree_of_purged h hnr hrl (hdead hlt)
    · exact agree_of_same h hl (renewLease_unlocked hk r renewed last)
  | reset stamp =>
    have hlocked : ∀ i, (t.step (.reset stamp)).2.lockedLease i = none := lockedLease_reset t stamp
    refine ⟨⟨LeaseManager.exact_new 30, ⟨fun i l hi => (nomatch hi), fun i l hi => ?_⟩, fun i j l l' hi => ?_,
      fun i l hi => ?_⟩, fun i l hi => ?_⟩
    all_goals
      rw [hlocked] at hi
      cases hi
  | deliver timer =>
    have h' : Agree now (t.step (.deliver timer)).2 := h.congr rfl rfl
    exact ⟨h'.mono hl, idsFrom_of_same rfl⟩
  | push server =>
    have h' : Agree now (t.step (.push server)).2 := h.congr rfl rfl
    exact ⟨h'.mono hl, idsFrom_of_same rfl⟩

/-! ## A run of moves -/

/-- What a run gives: the record lags up to any reading not before the run's, and the locks' ids are the run's. -/
structure Tracked (vs : List Move) (t : Tables) : Prop where
  agree : ∀ later, (∀ r ∈ vs.filterMap Move.reading, r ≤ later) → Agree later t
  ids : ∀ j l, t.lockedLease j = some l → ∃ u ∈ vs.filterMap Move.uuid, u = l.leaseId

/-- The readings of the moves never go back, and the ids they issue are distinct. -/
structure WellTimed (vs : List Move) : Prop where
  readings : (vs.filterMap Move.reading).Pairwise (· ≤ ·)
  uuids : (vs.filterMap Move.uuid).Nodup

theorem filterMap_snoc {α β : Type} (f : α → Option β) (l : List α) (a : α) :
    (l ++ [a]).filterMap f = l.filterMap f ++ (f a).toList := by
  rw [List.filterMap_append]
  cases h : f a <;> simp [h]

/-- The parts of well-timed moves, and what the first give the last. -/
theorem WellTimed.init {vs : List Move} {v : Move} (h : WellTimed (vs ++ [v])) : WellTimed vs ∧
    (∀ r ∈ v.reading, ∀ r' ∈ vs.filterMap Move.reading, r' ≤ r) ∧ ∀ u ∈ v.uuid, u ∉ vs.filterMap Move.uuid := by
  obtain ⟨hr, hu⟩ := h
  rw [filterMap_snoc] at hr hu
  obtain ⟨hr1, -, hr2⟩ := List.pairwise_append.1 hr
  obtain ⟨hu1, -, hu2⟩ := List.nodup_append.1 hu
  refine ⟨⟨hr1, hu1⟩, fun r hv r' hr' => hr2 r' hr' r (by simpa using hv), fun u hv hmem => ?_⟩
  exact hu2 u hmem u (by simpa using hv) rfl

theorem Tracked.fresh {vs : List Move} {v : Move} (h : Tracked vs t) (hu : ∀ u ∈ v.uuid, u ∉ vs.filterMap Move.uuid) :
    t.Fresh v := by
  intro u hv j l hj hid
  obtain ⟨u', hu', hid'⟩ := h.ids j l hj
  have hsame : u' = u := Subtype.ext (hid'.trans hid)
  exact hu u hv (hsame ▸ hu')

/-- The lag before a move: up to its own reading if it takes one, else up to any reading not before the run's. -/
theorem Tracked.agree_before {vs : List Move} {v : Move} (h : Tracked vs t)
    (hr : ∀ r ∈ v.reading, ∀ r' ∈ vs.filterMap Move.reading, r' ≤ r)
    (hl : ∀ r ∈ (vs ++ [v]).filterMap Move.reading, r ≤ later) :
    ∃ now, Agree now t ∧ now ≤ later ∧ ∀ r ∈ v.reading, now ≤ r ∧ r ≤ later := by
  rw [filterMap_snoc] at hl
  cases hv : v.reading with
  | none =>
    exact ⟨later, h.agree later fun r hr => hl r (List.mem_append_left _ hr), le_rfl, fun r hr => (nomatch hr)⟩
  | some r =>
    have hrl : r ≤ later := hl r (by rw [hv]; simp)
    refine ⟨r, h.agree r (hr r hv), hrl, fun r' hr' => ?_⟩
    obtain rfl := Option.some.inj hr'
    exact ⟨le_rfl, hrl⟩

/-- **Along every run of well-timed moves the records agree.** -/
theorem tracked_run {t0 : Tables} (h0 : Tracked [] t0) (vs : List Move) (ha : Along step Allowed t0 vs)
    (hw : WellTimed vs) : Tracked vs (run step t0 vs) := by
  induction vs using List.reverseRecOn with
  | nil => exact h0
  | append_singleton vs v ih =>
    obtain ⟨hw', hreading, huuid⟩ := hw.init
    obtain ⟨ha', hav⟩ := (along_snoc vs v).1 ha
    have ht := ih ha' hw'
    have hfresh := ht.fresh huuid
    rw [run_snoc]
    constructor
    · intro later hl
      obtain ⟨now, hagree, hle, hr⟩ := ht.agree_before hreading hl
      exact (agree_step hagree hav hfresh hr hle).1
    · intro j l hj
      obtain ⟨later, hb⟩ := (List.finite_toSet ((vs ++ [v]).filterMap Move.reading)).bddAbove
      obtain ⟨now, hagree, hle, hr⟩ := ht.agree_before hreading fun r hr => hb hr
      rw [filterMap_snoc]
      rcases (agree_step hagree hav hfresh hr hle).2 j l hj with ⟨l', hj', hid⟩ | ⟨u, hu, hid⟩
      · obtain ⟨u, hu, hid'⟩ := ht.ids j l' hj'
        exact ⟨u, List.mem_append_left _ hu, hid'.trans hid⟩
      · exact ⟨u, List.mem_append_right _ (by simpa using hu), hid⟩

end Tables
end Ticket
