import Mathlib.Data.List.Induction
import TicketBooking.Lease
import TicketBooking.Versioned
/-!
# Replicas — seat stores and delayed replication (`synchronization/`)

`StateStore` is a server's copy of every seat, `applyRemoteUpdate` what `StateReplicator` does with a copy received, and
`Replication` the stores of all servers together with the simulator of delays: `broadcastWithDelay` starts one timer for
each peer, and a timer that fires hands its copy to the peer.  A timer is a message in flight; it outlives the
simulator that started it (`generation`).
-/
namespace Ticket

inductive SeatStatus where
  | available
  | locked
  | reserved
  | failed
  deriving DecidableEq, Repr

structure SeatState where
  seatId : ℤ
  state : SeatStatus
  /-- the time whose ISO text the code keeps -/
  lastUpdated : Time
  owner : String
  version : ℤ
  deriving DecidableEq

/-- What a copy says of its seat. -/
def SeatState.content (s : SeatState) : SeatStatus × String := (s.state, s.owner)

structure StateStore where
  serverId : String
  seats : Dict ℤ SeatState
  versionClock : ℤ

namespace StateStore

def new (serverId : String) : StateStore := ⟨serverId, Dict.empty, 0⟩

/-- `initialize_seats`: seat `k + 1` is stamped at the reading `now k`. -/
def initializeSeats (st : StateStore) (seatCount : ℕ) (now : ℕ → Time) : StateStore :=
  (List.range seatCount).foldl (fun st (k : ℕ) =>
    { st with
      seats := st.seats.set ((k : ℤ) + 1) ⟨(k : ℤ) + 1, .available, now k, "", st.versionClock + 1⟩
      versionClock := st.versionClock + 1 }) st

def getSeat (st : StateStore) (seatId : ℤ) : Option SeatState := st.seats.get? seatId

def updateSeat (st : StateStore) (seatId : ℤ) (newState : SeatStatus) (owner : String) (now : Time) :
    Option SeatState × StateStore :=
  match st.seats.get? seatId with
  | none => (none, st)
  | some _ =>
    let updated : SeatState := ⟨seatId, newState, now, owner, st.versionClock + 1⟩
    (some updated, { st with seats := st.seats.set seatId updated, versionClock := st.versionClock + 1 })

def listSeats (st : StateStore) : List SeatState := st.seats.values

/-- `StateReplicator.apply_remote_update`. -/
def applyRemoteUpdate (st : StateStore) (seat : SeatState) : StateStore :=
  match st.seats.get? seat.seatId with
  | none => { st with seats := st.seats.set seat.seatId seat }
  | some own => if own.version < seat.version then { st with seats := st.seats.set seat.seatId seat } else st

/-! ## What each operation does to a seat's copy -/

/-- **An initialisation stamps the seats one after another.** -/
theorem initializeSeats_getSeat (st : StateStore) (now : ℕ → Time) (n : ℕ) :
    (st.initializeSeats n now).versionClock = st.versionClock + n ∧
      ∀ i, (st.initializeSeats n now).getSeat i =
        if 1 ≤ i ∧ i ≤ n then some ⟨i, .available, now (i - 1).toNat, "", st.versionClock + i⟩ else st.getSeat i := by
  unfold getSeat
  induction n with
  | zero =>
    refine ⟨(add_zero _).symm, fun i => ?_⟩
    rw [if_neg (by omega)]
    rfl
  | succ n ih =>
    obtain ⟨hclock, hseats⟩ := ih
    unfold initializeSeats at hclock hseats ⊢
    rw [List.range_succ, List.foldl_append]
    simp only [List.foldl_cons, List.foldl_nil, hclock]
    refine ⟨by push_cast; ring, fun i => ?_⟩
    rw [Dict.get?_set, hseats]
    by_cases hi : i = (n : ℤ) + 1
    · subst hi
      rw [if_pos rfl, if_pos (by omega)]
      simp [add_assoc]
    · rw [if_neg hi]
      by_cases hle : 1 ≤ i ∧ i ≤ n
      · rw [if_pos hle, if_pos (by omega)]
      · rw [if_neg hle, if_neg (by omega)]

theorem initializeSeats_serverId (st : StateStore) (now : ℕ → Time) (n : ℕ) :
    (st.initializeSeats n now).serverId = st.serverId := by
  unfold initializeSeats
  induction n with
  | zero => rfl
  | succ n ih =>
    rw [List.range_succ, List.foldl_append]
    exact ih

theorem initializeSeats_new (serverId : String) (now : ℕ → Time) (n : ℕ) :
    ((new serverId).initializeSeats n now).versionClock = n ∧
      ∀ i, ((new serverId).initializeSeats n now).getSeat i =
        if 1 ≤ i ∧ i ≤ n then some ⟨i, .available, now (i - 1).toNat, "", i⟩ else none := by
  obtain ⟨hclock, hseats⟩ := initializeSeats_getSeat (new serverId) now n
  refine ⟨hclock.trans (zero_add _), fun i => (hseats i).trans ?_⟩
  rw [show (new serverId).versionClock + i = i from zero_add i]
  rfl

theorem updateSeat_some {st : StateStore} {i : ℤ} {own : SeatState} (h : st.getSeat i = some own) (s : SeatStatus)
    (owner : String) (now : Time) : st.updateSeat i s owner now =
      (some ⟨i, s, now, owner, st.versionClock + 1⟩,
        { st with
          seats := st.seats.set i ⟨i, s, now, owner, st.versionClock + 1⟩, versionClock := st.versionClock + 1 }) := by
  unfold getSeat at h
  simp only [updateSeat, h]

theorem updateSeat_none {st : StateStore} {i : ℤ} (h : st.getSeat i = none) (s : SeatStatus) (owner : String)
    (now : Time) : st.updateSeat i s owner now = (none, st) := by
  unfold getSeat at h
  simp only [updateSeat, h]

theorem updateSeat_serverId (st : StateStore) (i : ℤ) (s : SeatStatus) (owner : String) (now : Time) :
    (st.updateSeat i s owner now).2.serverId = st.serverId := by
  unfold updateSeat
  split <;> rfl

theorem updateSeat_getSeat {st : StateStore} {i : ℤ} {own : SeatState} (h : st.getSeat i = some own) (s : SeatStatus)
    (owner : String) (now : Time) (j : ℤ) : (st.updateSeat i s owner now).2.getSeat j =
      if j = i then some ⟨i, s, now, owner, st.versionClock + 1⟩ else st.getSeat j := by
  rw [updateSeat_some h]
  exact Dict.get?_set _ _ _ _

@[simp] theorem applyRemoteUpdate_serverId (st : StateStore) (seat : SeatState) :
    (st.applyRemoteUpdate seat).serverId = st.serverId := by
  unfold applyRemoteUpdate
  split
  · rfl
  · split <;> rfl

@[simp] theorem applyRemoteUpdate_clock (st : StateStore) (seat : SeatState) :
    (st.applyRemoteUpdate seat).versionClock = st.versionClock := by
  unfold applyRemoteUpdate
  split
  · rfl
  · split <;> rfl

/-- **A remote copy is merged by version**, and creates a seat the store does not have. -/
theorem getSeat_applyRemoteUpdate (st : StateStore) (seat : SeatState) (i : ℤ) :
    (st.applyRemoteUpdate seat).getSeat i =
      if i = seat.seatId then
        some (((st.getSeat i).map (fun own => Versioned.merge SeatState.version own seat)).getD seat)
      else st.getSeat i := by
  unfold applyRemoteUpdate getSeat
  by_cases hi : i = seat.seatId
  · subst hi
    rw [if_pos rfl]
    cases ho : st.seats.get? seat.seatId with
    | none => simp
    | some own =>
      by_cases hlt : own.version < seat.version <;> simp [Versioned.merge, hlt, ho]
  · rw [if_neg hi]
    split
    · exact Dict.get?_set_of_ne _ _ hi
    · split
      · exact Dict.get?_set_of_ne _ _ hi
      · rfl

theorem applyRemoteUpdate_eq_self_iff {st : StateStore} {seat own : SeatState} (h : st.getSeat seat.seatId = some own) :
    st.applyRemoteUpdate seat = st ↔ seat.version ≤ own.version := by
  constructor
  · intro he
    have hg := getSeat_applyRemoteUpdate st seat seat.seatId
    rw [he, if_pos rfl, h] at hg
    exact Versioned.merge_eq_self_iff.1 (Option.some.inj hg).symm
  · intro hle
    unfold getSeat at h
    simp only [applyRemoteUpdate, h]
    exact if_neg (not_lt.2 hle)

end StateStore

/-! ## Delayed replication -/

variable {ι : Type} [DecidableEq ι]

/-- A timer that has been started and has not fired: the copy it will hand over, and which of the simulators in turn
started it. -/
structure Delivery (ι : Type) where
  peer : ι
  seat : SeatState
  generation : ℕ
  deriving DecidableEq

/-- The stores, the current simulator's pending lists and the timers of every simulator so far. -/
structure Replication (ι : Type) where
  stores : ι → StateStore
  generation : ℕ
  pending : Dict ℤ (List ℕ)
  timers : Dict ℕ (Delivery ι)
  started : ℕ

namespace Replication

def addPending (pending : Dict ℤ (List ℕ)) (seatId : ℤ) (timer : ℕ) : Dict ℤ (List ℕ) :=
  pending.set seatId ((pending.get? seatId).getD [] ++ [timer])

/-- One turn of the loop of `broadcast_with_delay`, its timer having started. -/
def schedule (r : Replication ι) (peer : ι) (seat : SeatState) : Replication ι :=
  { r with
    timers := r.timers.set r.started ⟨peer, seat, r.generation⟩
    started := r.started + 1
    pending := addPending r.pending seat.seatId r.started }

/-- `broadcast_with_delay`: `starts k` says whether the `k`-th timer starts; the first that does not raises. -/
def broadcastWithDelay (r : Replication ι) (seat : SeatState) : List ι → (ℕ → Bool) → Bool × Replication ι
  | [], _ => (true, r)
  | peer :: peers, starts =>
    if starts 0 = true then (r.schedule peer seat).broadcastWithDelay seat peers (fun k => starts (k + 1))
    else (false, r)

/-- The callback `_on_sync_delivered` and `_apply_recovery_sync_update`: the peer's replicator is looked up by name. -/
def apply (r : Replication ι) (peer : ι) (seat : SeatState) : Replication ι :=
  { r with stores := Function.update r.stores peer ((r.stores peer).applyRemoteUpdate seat) }

/-- The end of `_deliver_update`: timers no longer alive leave the seat's pending list.  The firing timer is still
alive; the lists of a simulator that has been replaced are read by nobody. -/
def prunePending (r : Replication ι) (d : Delivery ι) : Replication ι :=
  if d.generation = r.generation then
    match r.pending.get? d.seat.seatId with
    | none => r
    | some ids =>
      { r with pending := r.pending.set d.seat.seatId (ids.filter (fun id => (r.timers.get? id).isSome)) }
  else r

/-- A timer fires: `_deliver_update`, and its thread ends. -/
def fire (r : Replication ι) (timer : ℕ) : Replication ι :=
  match r.timers.get? timer with
  | none => r
  | some d =>
    let r := (r.apply d.peer d.seat).prunePending d
    { r with timers := r.timers.erase timer }

/-- `cancel_pending_replication`: a timer cancelled before it fires never does. -/
def cancelPendingReplication (r : Replication ι) (seatId : ℤ) : Replication ι :=
  match r.pending.get? seatId with
  | none => r
  | some ids => { r with timers := ids.foldl Dict.erase r.timers, pending := r.pending.erase seatId }

def getPendingCount (r : Replication ι) : ℕ := (r.pending.values.map List.length).sum

omit [DecidableEq ι] in
@[simp] theorem broadcastWithDelay_stores (seat : SeatState) : ∀ (peers : List ι) (starts : ℕ → Bool)
    (r : Replication ι),
    (r.broadcastWithDelay seat peers starts).2.stores = r.stores
  | [], _, _ => rfl
  | peer :: peers, starts, r => by
    unfold broadcastWithDelay
    split
    · exact broadcastWithDelay_stores seat peers _ _
    · rfl

omit [DecidableEq ι] in
theorem broadcastWithDelay_started (seat : SeatState) : ∀ (peers : List ι) (starts : ℕ → Bool) (r : Replication ι),
    (∀ n, starts n = true) → (r.broadcastWithDelay seat peers starts).1 = true
  | [], _, _, _ => rfl
  | peer :: peers, starts, r, h => by
    unfold broadcastWithDelay
    rw [if_pos (h 0)]
    exact broadcastWithDelay_started seat peers _ _ fun n => h (n + 1)

/-- `receive_sync_updates`: the copies are applied one after another. -/
def receiveSyncUpdates (r : Replication ι) (server : ι) (updates : List SeatState) : Replication ι :=
  updates.foldl (fun r seat => r.apply server seat) r

theorem receiveSyncUpdates_timers (server : ι) : ∀ (updates : List SeatState) (r : Replication ι),
    (r.receiveSyncUpdates server updates).timers = r.timers
  | [], _ => rfl
  | seat :: updates, r => receiveSyncUpdates_timers server updates (r.apply server seat)

theorem receiveSyncUpdates_of_ne {server k : ι} (hne : k ≠ server) : ∀ (updates : List SeatState) (r : Replication ι),
    (r.receiveSyncUpdates server updates).stores k = r.stores k
  | [], _ => rfl
  | seat :: updates, r =>
    (receiveSyncUpdates_of_ne hne updates (r.apply server seat)).trans (Function.update_of_ne hne _ _)

omit [DecidableEq ι] in
theorem broadcastWithDelay_timers (seat : SeatState) {timer : ℕ} {d : Delivery ι} : ∀ (peers : List ι)
    (starts : ℕ → Bool) (r : Replication ι), (r.broadcastWithDelay seat peers starts).2.timers.get? timer = some d →
    d.peer ∈ peers ∨ r.timers.get? timer = some d
  | [], _, _, h => Or.inr h
  | peer :: peers, starts, r, h => by
    unfold broadcastWithDelay at h
    split at h
    · rcases broadcastWithDelay_timers seat peers _ _ h with hm | h
      · exact Or.inl (List.mem_cons_of_mem peer hm)
      · simp only [schedule, Dict.get?_set] at h
        split at h
        · obtain rfl := Option.some.inj h
          exact Or.inl List.mem_cons_self
        · exact Or.inr h
    · exact Or.inr h

/-! ## What a firing timer does -/

variable {r : Replication ι}

omit [DecidableEq ι] in
@[simp] theorem prunePending_stores (r : Replication ι) (d : Delivery ι) : (r.prunePending d).stores = r.stores := by
  unfold prunePending
  split
  · split <;> rfl
  · rfl

omit [DecidableEq ι] in
@[simp] theorem prunePending_timers (r : Replication ι) (d : Delivery ι) : (r.prunePending d).timers = r.timers := by
  unfold prunePending
  split
  · split <;> rfl
  · rfl

omit [DecidableEq ι] in
@[simp] theorem prunePending_started (r : Replication ι) (d : Delivery ι) : (r.prunePending d).started = r.started := by
  unfold prunePending
  split
  · split <;> rfl
  · rfl

theorem fire_of_some {timer : ℕ} {d : Delivery ι} (hd : r.timers.get? timer = some d) :
    (r.fire timer).stores = (r.apply d.peer d.seat).stores ∧ (r.fire timer).timers = r.timers.erase timer ∧
      (r.fire timer).started = r.started := by
  unfold fire
  simp only [hd]
  refine ⟨prunePending_stores _ _, ?_, prunePending_started _ _⟩
  rw [prunePending_timers]
  rfl

theorem fire_of_none {timer : ℕ} (hd : r.timers.get? timer = none) : r.fire timer = r := by
  unfold fire
  simp only [hd]

end Replication
end Ticket
