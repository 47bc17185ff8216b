import Mathlib
import TicketBooking.Replicas
/-!
# Tables — the seat table, its leases and its replicas (`dashboard.py`)

The part of `DistributedTicketWebApp` that says who has which seat: the seat table, the lease authority and the
replicated stores, with the methods that write them.  Two records of a lock are kept, the seat and the lease, and the
authority drops an overdue lease at whatever call it gets next; only `expireLeasesLocked` tells the seat table.  Clock
readings, generated ids and whether a timer starts are arguments.
-/
namespace Ticket

inductive ServerId where
  | server1
  | server2
  | server3
  deriving DecidableEq, Repr

instance : ToString ServerId where
  toString
    | .server1 => "Server 1"
    | .server2 => "Server 2"
    | .server3 => "Server 3"

def serverIds : List ServerId := [.server1, .server2, .server3]

def seatCount : ℕ := 20

/-- The peers of the primary's replicator. -/
def peers : List ServerId := serverIds.filter (fun id => decide (id ≠ .server1))

structure Seat where
  state : SeatStatus
  owner : String
  leaseId : String
  expiresAt : Time
  server : String
  deriving DecidableEq

/-- A seat as `__init__`, `cancel_lock`, `reset` and the sweep leave it. -/
def Seat.free : Seat := ⟨.available, "", "", 0, ""⟩

/-- A generated lease id: `str(uuid4())` is never empty. -/
abbrev Uuid := {id : String // id ≠ ""}

/-- What the web methods return: `{"ok": True, …}`, `_fail`'s dictionary, or an exception they let through. -/
inductive Response where
  | ok
  | renewed (remaining : ℤ)
  | booked (seatId : ℤ) (server : ServerId) (routingKey : String)
  | failed (code message : String)
  | raised (message : String)
  deriving DecidableEq

/-- What `_reserve_on_server` may raise: `TransientBookingError`, `LeaseConflictError`, or something else. -/
inductive ReserveError where
  | transient (message : String)
  | leaseConflict (message : String)
  | other (message : String)
  deriving DecidableEq

structure Tables where
  seats : Dict ℤ Seat
  leases : LeaseManager
  replication : Replication ServerId

namespace Tables

abbrev primary (t : Tables) : StateStore := t.replication.stores .server1

/-- The text of the error of a thread that does not start. -/
def cannotStart : String := "can't start new thread"

/-- One turn of the sweep's loop: the seats returned so far (as it logs them) and the table. -/
def returnSeat (acc : List ℤ × Dict ℤ Seat) (lease : Lease) : List ℤ × Dict ℤ Seat :=
  match acc.2.get? lease.seatId with
  | none => acc
  | some seat => if seat.state = .locked then (acc.1 ++ [lease.seatId], acc.2.set lease.seatId .free) else acc

/-- `_expire_leases_locked`: the seats it returns to available, and the tables. -/
def expireLeasesLocked (t : Tables) (now : Time) : List ℤ × Tables :=
  let expired := t.leases.expireLeases now
  let swept := expired.1.foldl returnSeat ([], t.seats)
  (swept.1, { t with seats := swept.2, leases := expired.2 })

/-- The update of the primary's store and its broadcast, with which a booking and a confirmation end. -/
def publish (t : Tables) (seatId : ℤ) (state : SeatStatus) (owner : String) (stamp : Time) (starts : ℕ → Bool) :
    Bool × Tables :=
  let r := t.replication
  let up := (r.stores .server1).updateSeat seatId state owner stamp
  let r := { r with stores := Function.update r.stores .server1 up.2 }
  match up.1 with
  | none => (true, { t with replication := r })
  | some seat =>
    let sent := r.broadcastWithDelay seat peers starts
    (sent.1, { t with replication := sent.2 })

/-- The end of `_reserve_on_server`, once the server is found online and no failure was injected. -/
def lockSeat (t : Tables) (seatId : ℤ) (requester : String) (server : ServerId) (uuid : Uuid) (now later stamp : Time)
    (starts : ℕ → Bool) : Except ReserveError Unit × Tables :=
  match t.leases.acquire seatId (toString server) requester (some 30) uuid now later with
  | (.error (.conflict m), leases) => (.error (.leaseConflict m), { t with leases := leases })
  | (.error (.notFound m), leases) => (.error (.other m), { t with leases := leases })
  | (.ok lease, leases) =>
    let seats := t.seats.modify seatId (fun _ =>
      ⟨.locked, requester, lease.leaseId, lease.expiresAt, toString server⟩)
    let sent := ({ t with seats := seats, leases := leases } : Tables).publish seatId .locked requester stamp starts
    (if sent.1 = true then .ok () else .error (.other cannotStart), sent.2)

def confirmSeat (t : Tables) (seatId : ℤ) (now stamp : Time) (starts : ℕ → Bool) : Response × Tables :=
  match t.seats.get? seatId with
  | none => (.failed "not_locked" s!"Seat {seatId} is not locked", t)
  | some seat =>
    if seat.state ≠ .locked then (.failed "not_locked" s!"Seat {seatId} is not locked", t)
    else
      match t.leases.validate seat.leaseId (some seatId) now with
      | (.error (.notFound _), leases) =>
        (.failed "lease_expired" s!"Seat {seatId} lease expired", { t with leases := leases })
      | (.error (.conflict m), leases) => (.raised m, { t with leases := leases })
      | (.ok _, leases) =>
        let reserved : Seat := { seat with state := .reserved, leaseId := "", expiresAt := 0 }
        let t := { t with seats := t.seats.set seatId reserved, leases := leases.release seat.leaseId }
        let sent := t.publish seatId .reserved seat.owner stamp starts
        (if sent.1 = true then .ok else .raised cannotStart, sent.2)

def cancelLock (t : Tables) (seatId : ℤ) : Response × Tables :=
  match t.seats.get? seatId with
  | none => (.failed "not_locked" s!"Seat {seatId} is not locked", t)
  | some seat =>
    if seat.state ≠ .locked then (.failed "not_locked" s!"Seat {seatId} is not locked", t)
    else
      let leases := if seat.leaseId = "" then t.leases else t.leases.release seat.leaseId
      (.ok, { t with seats := t.seats.set seatId .free, leases := leases })

def renewLease (t : Tables) (seatId : ℤ) (now later last : Time) : Response × Tables :=
  match t.seats.get? seatId with
  | none => (.failed "not_locked" s!"Seat {seatId} has no active lease", t)
  | some seat =>
    if seat.state ≠ .locked ∨ seat.leaseId = "" then (.failed "not_locked" s!"Seat {seatId} has no active lease", t)
    else
      match t.leases.renew seat.leaseId none now later with
      | (.error (.notFound m), leases) => (.failed "lease_expired" m, { t with leases := leases })
      | (.error (.conflict m), leases) => (.raised m, { t with leases := leases })
      | (.ok renewed, leases) =>
        (.renewed (renewed.remainingSeconds last),
          { t with seats := t.seats.set seatId { seat with expiresAt := renewed.expiresAt }, leases := leases })

/-- `_initialize_synchronization`: new stores, and a new simulator in place of the old, whose timers run on. -/
def initializeSynchronization (r : Replication ServerId) (stamp : ServerId → ℕ → Time) : Replication ServerId :=
  { r with
    stores := fun id => (StateStore.new (toString id)).initializeSeats seatCount (stamp id)
    generation := r.generation + 1
    pending := Dict.empty }

def reset (t : Tables) (stamp : ServerId → ℕ → Time) : Tables :=
  { seats := t.seats.mapValues (fun _ => .free)
    leases := LeaseManager.new 30
    replication := initializeSynchronization t.replication stamp }

def deliver (t : Tables) (timer : ℕ) : Tables := { t with replication := t.replication.fire timer }

/-- The full copy of the primary's seats that `toggle_server` pushes to a peer back online. -/
def pushRecovery (t : Tables) (server : ServerId) : Tables :=
  { t with replication := t.replication.receiveSyncUpdates server t.primary.listSeats }

def initSeats : Dict ℤ Seat :=
  (List.range seatCount).foldl (fun d (k : ℕ) => d.set ((k : ℤ) + 1) .free) Dict.empty

/-- The tables of `__init__`. -/
def init (stamp : ServerId → ℕ → Time) : Tables :=
  ⟨initSeats, LeaseManager.new 30,
    initializeSynchronization ⟨fun id => StateStore.new (toString id), 0, Dict.empty, Dict.empty, 0⟩ stamp⟩

/-! ## What each method does to the seats and the leases -/

theorem foldl_free_get? (n : ℕ) (i : ℤ) :
    ((List.range n).foldl (fun d (k : ℕ) => d.set ((k : ℤ) + 1) .free) (Dict.empty : Dict ℤ Seat)).get? i =
      if 1 ≤ i ∧ i ≤ n then some .free else none := by
  induction n with
  | zero =>
    rw [if_neg (by omega)]
    rfl
  | succ n ih =>
    rw [List.range_succ, List.foldl_append]
    simp only [List.foldl_cons, List.foldl_nil, Dict.get?_set, ih]
    by_cases hi : i = (n : ℤ) + 1
    · rw [if_pos hi, if_pos (by omega)]
    · by_cases hle : 1 ≤ i ∧ i ≤ n
      · rw [if_neg hi, if_pos hle, if_pos (by omega)]
      · rw [if_neg hi, if_neg hle, if_neg (by omega)]

theorem initSeats_get? (i : ℤ) : initSeats.get? i = if 1 ≤ i ∧ i ≤ (seatCount : ℤ) then some .free else none :=
  foldl_free_get? seatCount i

def IsLocked (t : Tables) (i : ℤ) : Prop := ∃ seat, t.seats.get? i = some seat ∧ seat.state = .locked

instance (t : Tables) (i : ℤ) : Decidable (t.IsLocked i) :=
  decidable_of_iff ((t.seats.get? i).any (fun seat => decide (seat.state = .locked)) = true) <| by
    unfold IsLocked
    simp [Option.any_eq_true]

theorem returnSeat_get? (acc : List ℤ × Dict ℤ Seat) (l : Lease) (i : ℤ) :
    (returnSeat acc l).2.get? i =
      if l.seatId = i ∧ ∃ seat, acc.2.get? i = some seat ∧ seat.state = .locked then some .free else acc.2.get? i := by
  unfold returnSeat
  by_cases hi : l.seatId = i
  · subst hi
    cases hg : acc.2.get? l.seatId with
    | none => simp [hg]
    | some seat => by_cases hl : seat.state = .locked <;> simp [hl, hg]
  · rw [if_neg fun h => hi h.1]
    split
    · rfl
    · split
      · exact Dict.get?_set_of_ne _ _ (Ne.symm hi)
      · rfl

theorem returnSeat_fst (acc : List ℤ × Dict ℤ Seat) (l : Lease) (i : ℤ) :
    i ∈ (returnSeat acc l).1 ↔
      i ∈ acc.1 ∨ (l.seatId = i ∧ ∃ seat, acc.2.get? i = some seat ∧ seat.state = .locked) := by
  unfold returnSeat
  cases hg : acc.2.get? l.seatId with
  | none =>
    simp only [iff_self_or, and_imp]
    rintro rfl ⟨seat, hs, -⟩
    exact absurd (hg.symm.trans hs) (by simp)
  | some seat =>
    by_cases hl : seat.state = .locked
    · simp only [if_pos hl, List.mem_append, List.mem_singleton]
      refine or_congr_right ⟨?_, fun h => h.1.symm⟩
      rintro rfl
      exact ⟨rfl, seat, hg, hl⟩
    · simp only [if_neg hl, iff_self_or, and_imp]
      rintro rfl ⟨seat', hs, hl'⟩
      obtain rfl := Option.some.inj (hg.symm.trans hs)
      exact absurd hl' hl

/-- The loop of the sweep: the locked seats of the leases are returned, each once. -/
theorem foldl_returnSeat (i : ℤ) : ∀ (ls : List Lease) (acc : List ℤ × Dict ℤ Seat),
    ((ls.foldl returnSeat acc).2.get? i =
      if (∃ l ∈ ls, l.seatId = i) ∧ ∃ seat, acc.2.get? i = some seat ∧ seat.state = .locked then some .free
      else acc.2.get? i) ∧
    (i ∈ (ls.foldl returnSeat acc).1 ↔
      i ∈ acc.1 ∨ ((∃ l ∈ ls, l.seatId = i) ∧ ∃ seat, acc.2.get? i = some seat ∧ seat.state = .locked))
  | [], acc => by simp
  | l :: ls, acc => by
    obtain ⟨ih1, ih2⟩ := foldl_returnSeat i ls (returnSeat acc l)
    rw [List.foldl_cons, ih1, ih2, returnSeat_get?, returnSeat_fst]
    by_cases hl : l.seatId = i ∧ ∃ seat, acc.2.get? i = some seat ∧ seat.state = .locked
    · have hnot : ¬ ∃ seat : Seat, some Seat.free = some seat ∧ seat.state = .locked := by
        rintro ⟨seat, hs, hst⟩
        obtain rfl := Option.some.inj hs
        cases hst
      have hmem : ∃ l' ∈ l :: ls, l'.seatId = i := ⟨l, List.mem_cons_self, hl.1⟩
      rw [if_pos hl, if_neg fun h => hnot h.2, if_pos ⟨hmem, hl.2⟩]
      refine ⟨rfl, ?_⟩
      constructor
      · intro _
        exact Or.inr ⟨hmem, hl.2⟩
      · intro _
        exact Or.inl (Or.inr hl)
    · rw [if_neg hl]
      by_cases hlock : ∃ seat, acc.2.get? i = some seat ∧ seat.state = .locked
      · have hne : l.seatId ≠ i := fun he => hl ⟨he, hlock⟩
        simp [hlock, hne]
      · simp [hlock]

/-- **The sweep returns the locked seats that have an overdue lease.** -/
theorem mem_expireLeasesLocked (t : Tables) (now : Time) (i : ℤ) :
    i ∈ (t.expireLeasesLocked now).1 ↔ (∃ l ∈ t.leases.overdue now, l.seatId = i) ∧ t.IsLocked i := by
  have h := (foldl_returnSeat i (t.leases.overdue now) ([], t.seats)).2
  rwa [or_iff_right (List.not_mem_nil)] at h

theorem expireLeasesLocked_seat (t : Tables) (now : Time) (i : ℤ) :
    (t.expireLeasesLocked now).2.seats.get? i =
      if i ∈ (t.expireLeasesLocked now).1 then some .free else t.seats.get? i := by
  have h := (foldl_returnSeat i (t.leases.overdue now) ([], t.seats)).1
  by_cases hi : i ∈ (t.expireLeasesLocked now).1
  · rw [if_pos hi]
    rw [mem_expireLeasesLocked] at hi
    exact h.trans (if_pos hi)
  · rw [if_neg hi]
    rw [mem_expireLeasesLocked] at hi
    exact h.trans (if_neg hi)

theorem expireLeasesLocked_leases (t : Tables) (now : Time) :
    (t.expireLeasesLocked now).2.leases = (t.leases.expireLocked now).2 := rfl

section
variable (t : Tables) (i : ℤ) (state : SeatStatus) (owner : String) (stamp : Time) (starts : ℕ → Bool)

@[simp] theorem publish_seats : (t.publish i state owner stamp starts).2.seats = t.seats := by
  unfold publish
  dsimp only
  split <;> rfl

@[simp] theorem publish_leases : (t.publish i state owner stamp starts).2.leases = t.leases := by
  unfold publish
  dsimp only
  split <;> rfl

theorem publish_none (h : t.primary.getSeat i = none) : (t.publish i state owner stamp starts).2 = t := by
  unfold publish
  simp only [StateStore.updateSeat_none h, Function.update_eq_self]

theorem publish_some {own : SeatState} (h : t.primary.getSeat i = some own) :
    (t.publish i state owner stamp starts).2.replication =
      (({ t.replication with
          stores := Function.update t.replication.stores .server1 (t.primary.updateSeat i state owner stamp).2 } :
        Replication ServerId).broadcastWithDelay ⟨i, state, stamp, owner, t.primary.versionClock + 1⟩ peers
          starts).2 := by
  unfold publish
  simp only [StateStore.updateSeat_some h]

theorem publish_stores : (t.publish i state owner stamp starts).2.replication.stores =
    Function.update t.replication.stores .server1 (t.primary.updateSeat i state owner stamp).2 := by
  unfold publish
  dsimp only
  split
  · rfl
  · rw [Replication.broadcastWithDelay_stores]

end

theorem publish_started (t : Tables) (i : ℤ) (state : SeatStatus) (owner : String) (stamp : Time) {starts : ℕ → Bool}
    (h : ∀ n, starts n = true) : (t.publish i state owner stamp starts).1 = true := by
  unfold publish
  dsimp only
  split
  · rfl
  · exact Replication.broadcastWithDelay_started _ _ _ _ h

/-- **What taking a lock comes to**: the authority refuses and only its purge is left, or the seat gets the lease and
is published. -/
theorem lockSeat_cases (t : Tables) (i : ℤ) (requester : String) (server : ServerId) (uuid : Uuid)
    (now later stamp : Time) (starts : ℕ → Bool) :
    (∃ e, (t.leases.acquire i (toString server) requester (some 30) uuid now later).1 = .error e ∧
      t.lockSeat i requester server uuid now later stamp starts =
        (.error (match e with | .conflict m => .leaseConflict m | .notFound m => .other m),
          { t with leases := (t.leases.acquire i (toString server) requester (some 30) uuid now later).2 })) ∨
    (∃ l, (t.leases.acquire i (toString server) requester (some 30) uuid now later).1 = .ok l ∧
      ∀ sent, sent = ({ t with
          seats := t.seats.modify i (fun _ => ⟨.locked, requester, l.leaseId, l.expiresAt, toString server⟩)
          leases := (t.leases.acquire i (toString server) requester (some 30) uuid now later).2 } : Tables).publish i
            .locked requester stamp starts →
        t.lockSeat i requester server uuid now later stamp starts =
          (if sent.1 = true then .ok () else .error (.other cannotStart), sent.2)) := by
  unfold lockSeat
  generalize t.leases.acquire i (toString server) requester (some 30) uuid now later = q
  obtain ⟨r, leases⟩ := q
  cases r with
  | error e => cases e <;> exact Or.inl ⟨_, rfl, rfl⟩
  | ok l =>
    refine Or.inr ⟨l, rfl, ?_⟩
    rintro sent rfl
    rfl

/-- **What a confirmation comes to**: a refusal, after which only a purge may have changed anything, or a lease that
validates, which is released while the seat is reserved and published. -/
theorem confirmSeat_cases (t : Tables) (i : ℤ) (now stamp : Time) (starts : ℕ → Bool) :
    (¬ t.IsLocked i ∧ (t.confirmSeat i now stamp starts).2 = t ∧
      ∃ c m, (t.confirmSeat i now stamp starts).1 = .failed c m) ∨
    (∃ seat, t.seats.get? i = some seat ∧ seat.state = .locked ∧
      (∀ l, (t.leases.validate seat.leaseId (some i) now).1 ≠ .ok l) ∧
      (t.confirmSeat i now stamp starts).2 = { t with leases := (t.leases.expireLocked now).2 } ∧
      ∃ c m, (t.confirmSeat i now stamp starts).1 = .failed c m) ∨
    (∃ seat l, t.seats.get? i = some seat ∧ seat.state = .locked ∧
      (t.leases.validate seat.leaseId (some i) now).1 = .ok l ∧
      ∀ sent, sent = ({ t with
          seats := t.seats.set i { seat with state := .reserved, leaseId := "", expiresAt := 0 }
          leases := (t.leases.expireLocked now).2.release seat.leaseId } : Tables).publish i .reserved seat.owner
            stamp starts →
        t.confirmSeat i now stamp starts = (if sent.1 = true then .ok else .raised cannotStart, sent.2)) := by
  unfold confirmSeat
  cases hg : t.seats.get? i with
  | none =>
    refine Or.inl ⟨?_, rfl, _, _, rfl⟩
    rintro ⟨seat, hs, -⟩
    exact absurd (hg.symm.trans hs) (by simp)
  | some seat =>
    by_cases hl : seat.state = .locked
    · have hstate := LeaseManager.validate_state t.leases seat.leaseId (some i) now
      simp only [ne_eq, hl, not_true_eq_false, if_false]
      rcases hq : t.leases.validate seat.leaseId (some i) now with ⟨r, leases⟩
      rw [hq] at hstate
      subst hstate
      cases r with
      | error e =>
        refine Or.inr (Or.inl ⟨seat, rfl, hl, ?_, ?_⟩)
        · rw [hq]
          exact fun l hc => (nomatch hc)
        · obtain ⟨text, rfl⟩ := LeaseManager.validate_error (congrArg Prod.fst hq)
          exact ⟨rfl, _, _, rfl⟩
      | ok l =>
        refine Or.inr (Or.inr ⟨seat, l, rfl, hl, by rw [hq], ?_⟩)
        rintro sent rfl
        rfl
    · refine Or.inl ⟨?_, ?_⟩
      · rintro ⟨seat', hs, hl'⟩
        obtain rfl := Option.some.inj (hg.symm.trans hs)
        exact hl hl'
      · simp only [ne_eq, hl, not_false_eq_true, if_true]
        exact ⟨trivial, _, _, rfl⟩

/-- A cancelled lock is a free seat, and its lease released; nothing else is ever cancelled. -/
theorem cancelLock_cases (t : Tables) (i : ℤ) :
    (¬ t.IsLocked i ∧ (t.cancelLock i).2 = t ∧ (t.cancelLock i).1 ≠ .ok) ∨
    (∃ seat, t.seats.get? i = some seat ∧ seat.state = .locked ∧
      t.cancelLock i = (.ok, { t with
        seats := t.seats.set i .free
        leases := if seat.leaseId = "" then t.leases else t.leases.release seat.leaseId })) := by
  unfold cancelLock
  cases hg : t.seats.get? i with
  | none =>
    refine Or.inl ⟨?_, rfl, nofun⟩
    rintro ⟨seat, hs, -⟩
    exact absurd (hg.symm.trans hs) (by simp)
  | some seat =>
    by_cases hl : seat.state = .locked
    · refine Or.inr ⟨seat, rfl, hl, ?_⟩
      simp only [ne_eq, hl, not_true_eq_false, if_false]
    · refine Or.inl ⟨?_, ?_⟩
      · rintro ⟨seat', hs, hl'⟩
        obtain rfl := Option.some.inj (hg.symm.trans hs)
        exact hl hl'
      · simp only [ne_eq, hl, not_false_eq_true, if_true]
        exact ⟨trivial, nofun⟩

/-- **What a renewal comes to**: a refusal without a look at the authority, a refusal by it, or a later deadline for
the seat. -/
theorem renewLease_cases (t : Tables) (i : ℤ) (now later last : Time) :
    ((∀ seat, t.seats.get? i = some seat → seat.state ≠ .locked ∨ seat.leaseId = "") ∧
      (t.renewLease i now later last).2 = t ∧ ∃ c m, (t.renewLease i now later last).1 = .failed c m) ∨
    (∃ seat e, t.seats.get? i = some seat ∧ seat.state = .locked ∧ seat.leaseId ≠ "" ∧
      (t.leases.renew seat.leaseId none now later).1 = .error e ∧
      (t.renewLease i now later last).2 = { t with leases := (t.leases.renew seat.leaseId none now later).2 } ∧
      ∀ n, (t.renewLease i now later last).1 ≠ .renewed n) ∨
    (∃ seat l, t.seats.get? i = some seat ∧ seat.state = .locked ∧ seat.leaseId ≠ "" ∧
      (t.leases.renew seat.leaseId none now later).1 = .ok l ∧
      t.renewLease i now later last = (.renewed (l.remainingSeconds last), { t with
        seats := t.seats.set i { seat with expiresAt := l.expiresAt }
        leases := (t.leases.renew seat.leaseId none now later).2 })) := by
  unfold renewLease
  cases hg : t.seats.get? i with
  | none => exact Or.inl ⟨fun seat hs => (nomatch hs), rfl, _, _, rfl⟩
  | some seat =>
    by_cases hl : seat.state ≠ .locked ∨ seat.leaseId = ""
    · refine Or.inl ⟨?_, ?_⟩
      · intro seat' hs
        obtain rfl := Option.some.inj hs
        exact hl
      · simp only [if_pos hl]
        exact ⟨trivial, _, _, rfl⟩
    · simp only [if_neg hl]
      obtain ⟨hst, hid⟩ := not_or.1 hl
      rcases hq : t.leases.renew seat.leaseId none now later with ⟨r, leases⟩
      cases r with
      | error e =>
        refine Or.inr (Or.inl ⟨seat, e, rfl, not_not.1 hst, hid, by rw [hq], ?_⟩)
        cases e with
        | conflict m => exact ⟨by rw [hq], nofun⟩
        | notFound m => exact ⟨by rw [hq], nofun⟩
      | ok l =>
        refine Or.inr (Or.inr ⟨seat, l, rfl, not_not.1 hst, hid, by rw [hq], ?_⟩)
        rw [hq]

/-- Only a locked seat is confirmed, cancelled or renewed, and otherwise the authority is not asked. -/
theorem confirmSeat_unlocked {t : Tables} {i : ℤ} (h : ¬ t.IsLocked i) (now stamp : Time) (starts : ℕ → Bool) :
    (t.confirmSeat i now stamp starts).2 = t := by
  rcases confirmSeat_cases t i now stamp starts with ⟨-, ht, -⟩ | ⟨seat, hs, hl, -⟩ | ⟨seat, l, hs, hl, -⟩
  · exact ht
  · exact absurd ⟨seat, hs, hl⟩ h
  · exact absurd ⟨seat, hs, hl⟩ h

theorem cancelLock_unlocked {t : Tables} {i : ℤ} (h : ¬ t.IsLocked i) : (t.cancelLock i).2 = t := by
  rcases cancelLock_cases t i with ⟨-, ht, -⟩ | ⟨seat, hs, hl, -⟩
  · exact ht
  · exact absurd ⟨seat, hs, hl⟩ h

theorem renewLease_unlocked {t : Tables} {i : ℤ} (h : ¬ t.IsLocked i) (now later last : Time) :
    (t.renewLease i now later last).2 = t := by
  rcases renewLease_cases t i now later last with ⟨-, ht, -⟩ | ⟨seat, e, hs, hl, -⟩ | ⟨seat, l, hs, hl, -⟩
  · exact ht
  · exact absurd ⟨seat, hs, hl⟩ h
  · exact absurd ⟨seat, hs, hl⟩ h

end Tables
end Ticket
