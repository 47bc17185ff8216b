import TicketBooking.Ownership
import TicketBooking.PendingCount
import TicketBooking.PrimaryMirror
import TicketBooking.ReplicaReads
import TicketBooking.StoreVersions
/-!
# VersionLag — the versions and the pending count a snapshot shows (`dashboard.py`)

Beside each server a snapshot shows the greatest version in its store, and beside them the count of pending deliveries.
The primary's is its clock: the versions of a new store and one for each booking and each confirmation answered since
the last reset (`clock_run`).  A version that a peer does not show yet is in the pending list of its seat, with a timer
of the simulator in use (`Awaited`), so what the peers lack together is never more than the count beside it
(`versions_shown`), whatever the order of the deliveries and whatever the simulators before left in flight.
-/
namespace Ticket

open Runs

namespace StateStore

variable {st st' : StateStore} {v : ℤ}

/-- `max((seat.version for seat in store.list_seats()), default=0)`. -/
def topVersion (st : StateStore) : ℤ := ((st.listSeats.map SeatState.version).max?).getD 0

/-- The store has a copy in version `v`, or in a later one. -/
def Reaches (st : StateStore) (v : ℤ) : Prop := ∃ i c, st.getSeat i = some c ∧ v ≤ c.version

theorem Reaches.keeps (h : st.Reaches v) (hk : st.Keeps st') : st'.Reaches v := by
  obtain ⟨i, c, hc, hv⟩ := h
  obtain ⟨c', hc', hle⟩ := hk i c hc
  exact ⟨i, c', hc', hv.trans hle⟩

/-- **The greatest version is at least `v` when some copy's is.** -/
theorem le_topVersion_iff (hv : 0 < v) : v ≤ st.topVersion ↔ st.Reaches v := by
  have hmem : ∀ c, c ∈ st.listSeats ↔ ∃ i, st.getSeat i = some c := fun c => Dict.mem_values_iff _ _
  unfold topVersion Reaches
  cases hm : (st.listSeats.map SeatState.version).max? with
  | none =>
    have hnil := List.map_eq_nil_iff.1 (List.max?_eq_none_iff.1 hm)
    rw [hnil] at hmem
    refine iff_of_false (not_le.2 hv) ?_
    rintro ⟨i, c, hc, -⟩
    exact List.not_mem_nil ((hmem c).2 ⟨i, hc⟩)
  | some top =>
    obtain ⟨htop, hle⟩ := List.max?_eq_some_iff.1 hm
    obtain ⟨c, hc, rfl⟩ := List.mem_map.1 htop
    constructor
    · intro hvc
      obtain ⟨i, hi⟩ := (hmem c).1 hc
      exact ⟨i, c, hi, hvc⟩
    · rintro ⟨i, c', hi, hvc⟩
      exact hvc.trans (hle _ (List.mem_map_of_mem ((hmem c').2 ⟨i, hi⟩)))

theorem topVersion_le (hv : 0 ≤ v) (h : ∀ i c, st.getSeat i = some c → c.version ≤ v) : st.topVersion ≤ v := by
  by_contra hlt
  obtain ⟨i, c, hc, hle⟩ := (le_topVersion_iff (hv.trans_lt (not_le.1 hlt))).1 le_rfl
  exact hlt (hle.trans (h i c hc))

/-- **The clock is the greatest version of the store.** -/
structure Clocked (st : StateStore) : Prop where
  counted : ∀ i c, st.getSeat i = some c → c.version ≤ st.versionClock
  reached : st.Reaches st.versionClock
  positive : 0 < st.versionClock

theorem Clocked.topVersion (h : st.Clocked) : st.topVersion = st.versionClock :=
  le_antisymm (topVersion_le h.positive.le h.counted) ((le_topVersion_iff h.positive).2 h.reached)

theorem Clocked.update (h : st.Clocked) {i : ℤ} {own : SeatState} (ho : st.getSeat i = some own) (state : SeatStatus)
    (owner : String) (now : Time) : (st.updateSeat i state owner now).2.Clocked ∧
      (st.updateSeat i state owner now).2.versionClock = st.versionClock + 1 := by
  have hclock : (st.updateSeat i state owner now).2.versionClock = st.versionClock + 1 := by
    rw [updateSeat_some ho]
  have hpos := h.positive
  refine ⟨⟨fun j c hc => ?_, ?_, ?_⟩, hclock⟩
  · rw [hclock]
    rw [updateSeat_getSeat ho] at hc
    split at hc
    · obtain rfl := Option.some.inj hc
      exact le_rfl
    · exact (h.counted j c hc).trans (Int.le_add_one le_rfl)
  · refine ⟨i, ⟨i, state, now, owner, st.versionClock + 1⟩, ?_, le_of_eq hclock⟩
    rw [updateSeat_getSeat ho, if_pos rfl]
  · omega

/-- A store of the twenty seats. -/
theorem clocked_new (serverId : String) (now : ℕ → Time) :
    ((new serverId).initializeSeats seatCount now).Clocked ∧
      ((new serverId).initializeSeats seatCount now).versionClock = seatCount := by
  obtain ⟨hclock, hget⟩ := initializeSeats_new serverId now seatCount
  have hpos : (0 : ℤ) < seatCount := by decide
  refine ⟨⟨fun i c hc => ?_, ⟨seatCount, ⟨seatCount, .available, now ((seatCount : ℤ) - 1).toNat, "", seatCount⟩, ?_,
    le_of_eq hclock⟩, hclock ▸ hpos⟩, hclock⟩
  · rw [hget] at hc
    split at hc
    · rename_i hi
      obtain rfl := Option.some.inj hc
      exact hi.2.trans (le_of_eq hclock.symm)
    · cases hc
  · rw [hget, if_pos ⟨hpos, le_rfl⟩]

end StateStore

namespace Replication

variable {ι : Type} {r r' : Replication ι} {k : ι} {v floor : ℤ}

/-- A pending timer of the simulator in use is to bring version `v` to `k`. -/
def Brings (r : Replication ι) (timer : ℕ) (k : ι) (v : ℤ) : Prop :=
  ∃ d, r.timers.get? timer = some d ∧ d.peer = k ∧ d.seat.version = v ∧ d.generation = r.generation ∧
    r.Pending d.seat.seatId timer

/-- Store `k` has reached version `v`, or it is pending. -/
def Awaited (r : Replication ι) (k : ι) (v : ℤ) : Prop := (r.stores k).Reaches v ∨ ∃ timer, r.Brings timer k v

/-- The timers are numbered in the order they were started. -/
def Numbered (r : Replication ι) : Prop := ∀ timer d, r.timers.get? timer = some d → timer < r.started

/-! ## Broadcasts -/

theorem Numbered.schedule (h : r.Numbered) (peer : ι) (seat : SeatState) : (r.schedule peer seat).Numbered := by
  intro timer d hd
  rw [schedule_timers] at hd
  split at hd
  · rename_i ht
    rw [ht]
    exact Nat.lt_succ_self _
  · exact Nat.lt_succ_of_lt (h timer d hd)

theorem Brings.schedule {timer : ℕ} (h : r.Brings timer k v) (hn : r.Numbered) (peer : ι) (seat : SeatState) :
    (r.schedule peer seat).Brings timer k v := by
  obtain ⟨d, hd, hk, hv, hg, hp⟩ := h
  refine ⟨d, ?_, hk, hv, hg, (pending_schedule r peer seat _ _).2 (Or.inl hp)⟩
  rw [schedule_timers, if_neg (ne_of_lt (hn timer d hd))]
  exact hd

/-- **A broadcast whose timers start makes its version pending for every peer**, and takes nothing from the lists. -/
theorem brings_broadcast (seat : SeatState) : ∀ (peers : List ι) (starts : ℕ → Bool) (r : Replication ι), r.Numbered →
    (∀ n, starts n = true) → (r.broadcastWithDelay seat peers starts).2.Numbered ∧
      (∀ timer k v, r.Brings timer k v → (r.broadcastWithDelay seat peers starts).2.Brings timer k v) ∧
      ∀ k ∈ peers, ∃ timer, (r.broadcastWithDelay seat peers starts).2.Brings timer k seat.version
  | [], _, _, h, _ => ⟨h, fun _ _ _ hb => hb, fun _ hk => absurd hk List.not_mem_nil⟩
  | peer :: peers, starts, r, h, hs => by
    obtain ⟨h1, h2, h3⟩ := brings_broadcast seat peers (fun n => starts (n + 1)) (r.schedule peer seat)
      (h.schedule peer seat) fun n => hs (n + 1)
    unfold broadcastWithDelay
    rw [if_pos (hs 0)]
    refine ⟨h1, fun timer k v hb => h2 _ _ _ (hb.schedule h peer seat), fun k hk => ?_⟩
    rcases List.mem_cons.1 hk with rfl | hk
    · refine ⟨r.started, h2 _ _ _ ⟨⟨k, seat, r.generation⟩, ?_, rfl, rfl, rfl, ?_⟩⟩
      · rw [schedule_timers, if_pos rfl]
      · exact (pending_schedule r k seat _ _).2 (Or.inr ⟨rfl, rfl⟩)
    · exact h3 k hk

/-! ## Deliveries and full copies -/

/-- What neither the clocks nor the simulator in use notice: the copies grow, and the timers are the ones there were. -/
structure Follows (r r' : Replication ι) : Prop where
  keeps : ∀ k, (r.stores k).Keeps (r'.stores k)
  clocks : ∀ k, (r'.stores k).versionClock = (r.stores k).versionClock
  started : r'.started = r.started
  generation : r'.generation = r.generation

variable [DecidableEq ι]

theorem follows_apply (r : Replication ι) (peer : ι) (seat : SeatState) : Follows r (r.apply peer seat) ∧
    ((r.apply peer seat).stores peer).Reaches seat.version := by
  obtain ⟨hkeeps, own, hown, hle⟩ := StateStore.remote_keeps (r.stores peer) seat
  refine ⟨⟨fun k => ?_, fun k => ?_, rfl, rfl⟩, ?_⟩
  · by_cases hk : k = peer
    · subst hk
      simp only [apply, Function.update_self]
      exact hkeeps
    · simp only [apply, Function.update_of_ne hk]
      exact fun i c hc => ⟨c, hc, le_rfl⟩
  · by_cases hk : k = peer
    · subst hk
      simp only [apply, Function.update_self, StateStore.applyRemoteUpdate_clock]
    · simp only [apply, Function.update_of_ne hk]
  · simp only [apply, Function.update_self]
    exact ⟨seat.seatId, own, hown, hle⟩

omit [DecidableEq ι] in
theorem Follows.trans {r'' : Replication ι} (h : Follows r r') (h' : Follows r' r'') : Follows r r'' where
  keeps := fun k i c hc => by
    obtain ⟨c', hc', hle⟩ := h.keeps k i c hc
    obtain ⟨c'', hc'', hle'⟩ := h'.keeps k i c' hc'
    exact ⟨c'', hc'', hle.trans hle'⟩
  clocks := fun k => (h'.clocks k).trans (h.clocks k)
  started := h'.started.trans h.started
  generation := h'.generation.trans h.generation

theorem follows_receive (server : ι) : ∀ (seats : List SeatState) (r : Replication ι),
    Follows r (r.receiveSyncUpdates server seats) ∧ (r.receiveSyncUpdates server seats).pending = r.pending
  | [], _ => ⟨⟨fun _ _ c hc => ⟨c, hc, le_rfl⟩, fun _ => rfl, rfl, rfl⟩, rfl⟩
  | seat :: seats, r => by
    obtain ⟨h, hp⟩ := follows_receive server seats (r.apply server seat)
    exact ⟨(follows_apply r server seat).1.trans h, hp⟩

theorem Awaited.receive (h : r.Awaited k v) (server : ι) (seats : List SeatState) :
    (r.receiveSyncUpdates server seats).Awaited k v := by
  obtain ⟨hf, hp⟩ := follows_receive server seats r
  refine h.imp (fun hr => hr.keeps (hf.keeps k)) ?_
  rintro ⟨timer, d, hd, hk, hv, hg, hpend⟩
  refine ⟨timer, d, ?_, hk, hv, hg.trans hf.generation.symm, ?_⟩
  · rw [receiveSyncUpdates_timers]
    exact hd
  · unfold Pending
    rw [hp]
    exact hpend

omit [DecidableEq ι] in
/-- The end of a delivery takes no running timer from the lists. -/
theorem pending_prune {d : Delivery ι} {i : ℤ} {timer : ℕ} (h : r.Pending i timer)
    (ht : (r.timers.get? timer).isSome = true) : (r.prunePending d).Pending i timer := by
  obtain ⟨ids, hids, hmem⟩ := h
  unfold prunePending
  split
  · split
    · exact ⟨ids, hids, hmem⟩
    · rename_i ids' hids'
      unfold Pending
      rw [Dict.get?_set]
      by_cases hi : i = d.seat.seatId
      · subst hi
        obtain rfl := Option.some.inj (hids.symm.trans hids')
        exact ⟨_, if_pos rfl, List.mem_filter.2 ⟨hmem, ht⟩⟩
      · exact ⟨ids, (if_neg hi).trans hids, hmem⟩
  · exact ⟨ids, hids, hmem⟩

theorem follows_fire {timer : ℕ} {d : Delivery ι} (hd : r.timers.get? timer = some d) :
    Follows r (r.fire timer) ∧ ((r.fire timer).stores d.peer).Reaches d.seat.version ∧
      ∀ i t, r.Pending i t → (r.timers.get? t).isSome = true → (r.fire timer).Pending i t := by
  obtain ⟨hs, -, hst⟩ := fire_of_some hd
  obtain ⟨hf, hr⟩ := follows_apply r d.peer d.seat
  refine ⟨⟨?_, ?_, hst, ?_⟩, ?_, fun i t hp ht => ?_⟩
  · rw [hs]
    exact hf.keeps
  · rw [hs]
    exact hf.clocks
  · unfold fire prunePending
    simp only [hd]
    split
    · split <;> rfl
    · rfl
  · rw [hs]
    exact hr
  · unfold fire
    simp only [hd]
    exact pending_prune (r := r.apply d.peer d.seat) hp ht

/-- **A timer that fires has brought its version**, and leaves the others pending. -/
theorem Awaited.fire (h : r.Awaited k v) (timer : ℕ) : (r.fire timer).Awaited k v := by
  cases hd : r.timers.get? timer with
  | none =>
    rw [fire_of_none hd]
    exact h
  | some d =>
    obtain ⟨hf, hreach, hpend⟩ := follows_fire hd
    rcases h with hr | ⟨timer', d', hd', rfl, rfl, hg, hp⟩
    · exact Or.inl (hr.keeps (hf.keeps k))
    · by_cases ht : timer' = timer
      · subst ht
        obtain rfl := Option.some.inj (hd.symm.trans hd')
        exact Or.inl hreach
      · refine Or.inr ⟨timer', d', ?_, rfl, rfl, hg.trans hf.generation.symm, hpend _ _ hp (by rw [hd']; rfl)⟩
        rw [(fire_of_some hd).2.1, Dict.get?_erase_of_ne _ ht]
        exact hd'

/-! ## What is pending for the peers -/

/-- **What a peer lacks is pending**: the hub's clock is its greatest version, and each version after the first `floor`
has reached each peer, or is pending for it. -/
structure Awaiting (hub : ι) (floor : ℤ) (r : Replication ι) : Prop where
  clocked : (r.stores hub).Clocked
  numbered : r.Numbered
  old : ∀ k, k ≠ hub → (r.stores k).Reaches floor
  awaited : ∀ k, k ≠ hub → ∀ v, floor < v → v ≤ (r.stores hub).versionClock → r.Awaited k v

variable {hub : ι}

omit [DecidableEq ι] in
theorem Awaiting.follows (h : r.Awaiting hub floor) (hf : Follows r r') (hh : r'.stores hub = r.stores hub)
    (hn : r'.Numbered) (ha : ∀ k v, r.Awaited k v → r'.Awaited k v) : r'.Awaiting hub floor := by
  refine ⟨hh ▸ h.clocked, hn, fun k hk => (h.old k hk).keeps (hf.keeps k), fun k hk v hlow hv => ?_⟩
  rw [hh] at hv
  exact ha k v (h.awaited k hk v hlow hv)

theorem Awaiting.fire (h : r.Awaiting hub floor) (hp : ∀ timer d, r.timers.get? timer = some d → d.peer ≠ hub)
    (timer : ℕ) : (r.fire timer).Awaiting hub floor := by
  cases hd : r.timers.get? timer with
  | none =>
    rw [fire_of_none hd]
    exact h
  | some d =>
    obtain ⟨hstores, htimers, hstarted⟩ := fire_of_some hd
    have hhub : (r.fire timer).stores hub = r.stores hub := by
      rw [hstores]
      exact Function.update_of_ne (hp timer d hd).symm _ _
    refine h.follows (follows_fire hd).1 hhub (fun timer' d' hd' => ?_) fun k v ha => ha.fire timer
    rw [htimers, Dict.get?_erase] at hd'
    split at hd'
    · cases hd'
    · exact hstarted ▸ h.numbered timer' d' hd'

theorem Awaiting.receive (h : r.Awaiting hub floor) {server : ι} (hne : server ≠ hub) (seats : List SeatState) :
    (r.receiveSyncUpdates server seats).Awaiting hub floor := by
  refine h.follows (follows_receive server seats r).1 (receiveSyncUpdates_of_ne hne.symm seats r) (fun timer d hd => ?_)
    fun k v ha => ha.receive server seats
  rw [receiveSyncUpdates_timers] at hd
  rw [receiveSyncUpdates_started]
  exact h.numbered timer d hd

/-! ## The count -/

/-- **What the peers lack is counted as pending.** -/
theorem lag_le_pending {clock : ℤ} {peers : List ι} (hp : peers.Nodup) (hf : 0 < floor)
    (hfloor : ∀ k ∈ peers, (r.stores k).Reaches floor)
    (h : ∀ k ∈ peers, ∀ v, floor < v → v ≤ clock → r.Awaited k v) :
    (peers.map (fun k => (clock - (r.stores k).topVersion).toNat)).sum ≤ r.getPendingCount := by
  -- the versions lacking, each with its peer, and what a timer is to bring
  let lacking : Finset (Σ _ : ι, ℤ) := peers.toFinset.sigma fun k => Finset.Ioc (r.stores k).topVersion clock
  let brought (timer : ℕ) : Option (Σ _ : ι, ℤ) := (r.timers.get? timer).map fun d => ⟨d.peer, d.seat.version⟩
  have hcard : lacking.card = (peers.map (fun k => (clock - (r.stores k).topVersion).toNat)).sum := by
    rw [Finset.card_sigma, ← List.sum_toFinset _ hp]
    exact Finset.sum_congr rfl fun k _ => Int.card_Ioc _ _
  have hsurj : Set.SurjOn brought r.pending.values.flatten.toFinset (lacking.image some) := by
    intro o ho
    obtain ⟨⟨k, v⟩, hkv, rfl⟩ := Finset.mem_image.1 (Finset.mem_coe.1 ho)
    obtain ⟨hk, hv⟩ := Finset.mem_sigma.1 hkv
    obtain ⟨htop, hclock⟩ := Finset.mem_Ioc.1 hv
    have hk' : k ∈ peers := List.mem_toFinset.1 hk
    have hlow : floor < v := ((StateStore.le_topVersion_iff hf).2 (hfloor k hk')).trans_lt htop
    rcases h k hk' v hlow hclock with hr | ⟨timer, d, hd, hdk, hdv, -, hpend⟩
    · exact absurd ((StateStore.le_topVersion_iff (hf.trans hlow)).2 hr) (not_le.2 htop)
    · refine ⟨timer, ?_, ?_⟩
      · exact Finset.mem_coe.2 (List.mem_toFinset.2 ((mem_flatten_values r timer).2 ⟨_, hpend⟩))
      · simp only [brought, hd, Option.map_some, hdk, hdv]
  calc (peers.map (fun k => (clock - (r.stores k).topVersion).toNat)).sum
      = (lacking.image some).card := by
        rw [Finset.card_image_of_injective _ (Option.some_injective _), hcard]
    _ ≤ r.pending.values.flatten.toFinset.card := Finset.card_le_card_of_surjOn brought hsurj
    _ ≤ r.pending.values.flatten.length := List.toFinset_card_le _
    _ = r.getPendingCount := List.length_flatten

end Replication

/-- The moves that do not write the primary's store: all but a lock, a confirmation and a reset. -/
def Move.Quiet : Move → Prop
  | .lock _ _ _ _ _ _ _ _ => False
  | .confirm _ _ _ _ => False
  | .reset _ => False
  | _ => True

namespace Tables

open Replication

variable {t : Tables}

/-- **A publication is pending for every peer**, its timers started. -/
theorem awaiting_publish (h : t.replication.Awaiting .server1 seatCount) (i : ℤ) (state : SeatStatus) (owner : String)
    (stamp : Time) {starts : ℕ → Bool} (hs : ∀ n, starts n = true) :
    (t.publish i state owner stamp starts).2.replication.Awaiting .server1 seatCount := by
  cases ho : t.primary.getSeat i with
  | none =>
    rw [publish_none t i state owner stamp starts ho]
    exact h
  | some own =>
    obtain ⟨hclocked, hclock⟩ := h.clocked.update ho state owner stamp
    have hstores := publish_stores t i state owner stamp starts
    have hother : ∀ k, k ≠ .server1 →
        (t.publish i state owner stamp starts).2.replication.stores k = t.replication.stores k := fun k hk => by
      rw [hstores, Function.update_of_ne hk]
    have hhub : (t.publish i state owner stamp starts).2.replication.stores .server1 =
        (t.primary.updateSeat i state owner stamp).2 := by
      rw [hstores, Function.update_self]
    -- the broadcast starts from the timers and the lists there were
    obtain ⟨hnumbered, hkept, hnew⟩ := brings_broadcast ⟨i, state, stamp, owner, t.primary.versionClock + 1⟩ peers
      starts { t.replication with
        stores := Function.update t.replication.stores .server1 (t.primary.updateSeat i state owner stamp).2 }
      h.numbered hs
    rw [← publish_some t i state owner stamp starts ho] at hnumbered hkept hnew
    refine ⟨hhub ▸ hclocked, hnumbered, fun k hk => ?_, fun k hk v hlow hv => ?_⟩
    · rw [hother k hk]
      exact h.old k hk
    · rw [hhub, hclock] at hv
      unfold Awaited
      rw [hother k hk]
      rcases Int.le_add_one_iff.1 hv with hv | rfl
      · exact (h.awaited k hk v hlow hv).imp_right fun ⟨timer, hb⟩ => ⟨timer, hkept timer k v hb⟩
      · exact Or.inr (hnew k ((mem_peers k).2 hk))

/-- New stores lack nothing, whatever timers there are. -/
theorem awaiting_initialize {r : Replication ServerId} (hn : r.Numbered) (stamp : ServerId → ℕ → Time) :
    (initializeSynchronization r stamp).Awaiting .server1 seatCount := by
  have hnew := fun id : ServerId => StateStore.clocked_new (toString id) (stamp id)
  refine ⟨(hnew .server1).1, hn, fun k _ => ?_, fun k _ v hlow hv => ?_⟩
  · have hreached := (hnew k).1.reached
    rw [(hnew k).2] at hreached
    exact hreached
  · exact absurd (hv.trans (le_of_eq (hnew .server1).2)) (not_le.2 hlow)

/-- **Every move whose timers start keeps what a peer lacks pending**, a reset among them. -/
theorem awaiting_step (h : t.replication.Awaiting .server1 seatCount) (hf : t.Furnished) {v : Move} (ha : t.Allowed v)
    (hs : ∀ n, v.starts n = true) : (t.step v).2.replication.Awaiting .server1 seatCount := by
  rcases replication_step t v with ht | ⟨t', ht', i, state, owner, stamp, ht⟩ | ⟨timer, ht⟩ | ⟨server, rfl⟩ |
    ⟨stamp, rfl⟩
  · rw [ht]
    exact h
  · rw [ht]
    exact awaiting_publish (ht' ▸ h) i state owner stamp hs
  · rw [ht]
    exact h.fire hf.addressed timer
  · exact h.receive ha _
  · exact awaiting_initialize h.numbered stamp

/-! ## The primary's clock -/

theorem publish_clock (hf : t.Furnished) {i : ℤ} (hi : (t.seats.get? i).isSome = true) (state : SeatStatus)
    (owner : String) (stamp : Time) (starts : ℕ → Bool) :
    (t.publish i state owner stamp starts).2.primary.versionClock = t.primary.versionClock + 1 := by
  obtain ⟨own, ho⟩ := Option.isSome_iff_exists.1 ((hf.copies i).2 ((hf.seats i).1 hi))
  unfold primary
  rw [publish_stores, Function.update_self, StateStore.updateSeat_some ho]

/-- **A lock that is taken draws a version**, and a lock refused none. -/
theorem lock_clock (hf : t.Furnished) {i : ℤ} (hi : (t.seats.get? i).isSome = true) (requester : String)
    (server : ServerId) (uuid : Uuid) (now later stamp : Time) {starts : ℕ → Bool} (hs : ∀ n, starts n = true) :
    (t.lockSeat i requester server uuid now later stamp starts).2.primary.versionClock =
      t.primary.versionClock + (t.lockSeat i requester server uuid now later stamp starts).1.isOk.toNat := by
  rcases lockSeat_cases t i requester server uuid now later stamp starts with ⟨e, -, ht⟩ | ⟨l, -, ht⟩
  · rw [ht]
    exact (add_zero _).symm
  · rw [ht _ rfl]
    have hk := hf.keyed.acquire i (toString server) requester (some 30) uuid now later
    have hlocked := hf.write (Dict.isSome_modify _ i
      (fun _ => (⟨.locked, requester, l.leaseId, l.expiresAt, toString server⟩ : Seat))) hk
    rw [if_pos (publish_started _ i .locked requester stamp hs)]
    refine (publish_clock hlocked ?_ _ _ _ _).trans ?_
    · dsimp only
      rw [Dict.isSome_modify]
      exact hi
    · rfl

/-- **A confirmation draws a version**, and a confirmation refused none. -/
theorem confirm_clock (hf : t.Furnished) (i : ℤ) (now stamp : Time) {starts : ℕ → Bool} (hs : ∀ n, starts n = true) :
    (t.confirmSeat i now stamp starts).2.primary.versionClock =
      t.primary.versionClock + (decide ((t.confirmSeat i now stamp starts).1 = .ok)).toNat := by
  rcases confirmSeat_cases t i now stamp starts with ⟨-, ht, c, m, hr⟩ | ⟨seat, -, -, -, ht, c, m, hr⟩ |
    ⟨seat, l, hseat, -, -, ht⟩
  · rw [ht, hr]
    exact (add_zero _).symm
  · rw [ht, hr]
    exact (add_zero _).symm
  · rw [ht _ rfl]
    have hk := (hf.keyed.expireLocked now).release seat.leaseId
    have hreserved := hf.write (isSome_set hseat { seat with state := .reserved, leaseId := "", expiresAt := 0 }) hk
    rw [if_pos (publish_started _ i .reserved seat.owner stamp hs)]
    refine publish_clock hreserved ?_ _ _ _ _
    dsimp only
    rw [Dict.get?_set_self]
    rfl

theorem primary_step (hf : t.Furnished) {v : Move} (ha : t.Allowed v) (hv : v.Quiet) :
    (t.step v).2.primary = t.primary := by
  cases v with
  | sweep now => rfl
  | lock i requester server uuid now later stamp starts => exact hv.elim
  | confirm i now stamp starts => exact hv.elim
  | cancel i =>
    simp only [step]
    rcases cancelLock_cases t i with ⟨-, ht, -⟩ | ⟨seat, -, -, ht⟩
    · rw [ht]
    · rw [ht]
  | renew i now later last =>
    simp only [step]
    rcases renewLease_cases t i now later last with ⟨-, ht, -⟩ | ⟨seat, e, -, -, -, -, ht, -⟩ |
      ⟨seat, l, -, -, -, -, ht⟩
    · rw [ht]
    · rw [ht]
    · rw [ht]
  | reset stamp => exact hv.elim
  | deliver timer => exact deliver_primary hf timer
  | push server => exact pushRecovery_primary ha

end Tables

/-- What a snapshot shows of the replicas. -/
structure SyncView where
  pending : ℕ
  versions : ServerId → ℤ

namespace Site

open Replication

variable {s : Site} {e : Event}

/-- `snapshot` reads the stores and the simulator after its sweep. -/
def syncView (s : Site) (env : Env) : SyncView :=
  let r := (step s (.snapshot env)).2.replication
  ⟨r.getPendingCount, fun id => (r.stores id).topVersion⟩

/-- The step writes the primary's store: it answers a booking, or a confirmation. -/
def writes (s : Site) (e : Event) : Bool :=
  match e, (step s e).1.response with
  | .attempt _ _ _, some (.booked _ _ _) => true
  | .confirm _ _, some .ok => true
  | _, _ => false

def writesAfter (s : Site) (e : Event) (n : ℕ) : ℕ :=
  match e with
  | .reset _ => 0
  | _ => n + (s.writes e).toNat

/-- The bookings and confirmations answered since the last reset, after `n` before. -/
def writesSince (s : Site) (n : ℕ) : List Event → ℕ
  | [] => n
  | e :: es => writesSince (step s e).2 (s.writesAfter e n) es

/-- An attempt answers a booking when it gets as far as the lock, and takes it. -/
theorem writes_attempt {call : ℕ} {c : BookCall} (hc : s.running call = some c) (env : Env) (draw : ℚ) :
    s.writes (.attempt call env draw) = match (s.swept env).reaches env c.seatId with
      | none => false
      | some server => ((s.swept env).takesLock env c.seatId c.requester server).1.isOk := by
  have hnone := (running_some hc).2
  have hanswer : (step s (.attempt call env draw)).1.response =
      (settle c ((s.swept env).bookSwept env c.seatId c.requester).1 draw).response := by
    simp only [step, hc]
    rfl
  have hrefused : ∀ err, ((s.swept env).bookSwept env c.seatId c.requester).1 = .error err →
      s.writes (.attempt call env draw) = false := by
    intro err herr
    unfold writes
    rw [hanswer]
    split
    · rename_i hbooked
      have hok := settle_booked hnone hbooked
      rw [herr] at hok
      cases hok
    · rename_i he _
      cases he
    · rfl
  cases hr : (s.swept env).reaches env c.seatId with
  | none =>
    obtain ⟨-, err, herr⟩ := App.bookSwept_of_none c.requester hr
    exact hrefused err herr
  | some server =>
    obtain ⟨-, hout⟩ := App.bookSwept_of_some c.requester hr
    dsimp only
    cases htakes : ((s.swept env).takesLock env c.seatId c.requester server).1 with
    | error err =>
      rw [htakes] at hout
      exact hrefused _ hout
    | ok u =>
      rw [htakes] at hout
      unfold writes
      rw [hanswer, hout]
      rfl

theorem primary_quiet (hf : s.app.tables.Furnished) (hq : ∀ v ∈ s.moves e, v.Quiet) :
    (step s e).2.app.tables.primary = s.app.tables.primary := by
  rw [tables_step]
  have hal := along_and (s.moves_allowed e) (along_of_mem (G := fun _ v => Move.Quiet v) fun v hv _ => hq v hv)
  refine (invariant_along (P := fun t => t.Furnished ∧ t.primary = s.app.tables.primary) ⟨hf, rfl⟩ (fun t v ht hg => ?_)
    _ hal).2
  exact ⟨Tables.furnished_step ht.1 hg.1, (Tables.primary_step ht.1 hg.1 hg.2).trans ht.2⟩

theorem writesSince_snoc (e : Event) : ∀ (es : List Event) (s : Site) (n : ℕ),
    s.writesSince n (es ++ [e]) = (run step s es).writesAfter e (s.writesSince n es)
  | [], _, _ => rfl
  | e' :: es, s, n => by
    rw [List.cons_append, writesSince, writesSince, writesSince_snoc e es, run_cons]

theorem awaiting_step (h : s.replication.Awaiting .server1 seatCount) (hf : s.app.tables.Furnished)
    (hs : e.TimersStart) : (step s e).2.replication.Awaiting .server1 seatCount := by
  unfold replication
  rw [tables_step]
  have hal := along_and (s.moves_allowed e) (along_of_mem (G := fun _ v => ∀ n, Move.starts v n = true)
    fun v hv _ => starts_moves hs hv)
  refine (invariant_along (P := fun t => t.Furnished ∧ t.replication.Awaiting .server1 seatCount) ⟨hf, h⟩
    (fun t v ht hg => ?_) _ hal).2
  exact ⟨Tables.furnished_step ht.1 hg.1, Tables.awaiting_step ht.2 ht.1 hg.1 hg.2⟩

/-- **What a step makes of the primary's clock**, its timers started. -/
theorem clock_step (hf : s.app.tables.Furnished) (hs : e.TimersStart) {n : ℕ}
    (h : s.app.tables.primary.versionClock = seatCount + n) :
    (step s e).2.app.tables.primary.versionClock = seatCount + s.writesAfter e n := by
  have hquiet : s.writesAfter e n = n → (∀ v ∈ s.moves e, v.Quiet) →
      (step s e).2.app.tables.primary.versionClock = seatCount + s.writesAfter e n := by
    intro hn hq
    rw [hn, primary_quiet hf hq, h]
  cases e with
  | attempt call env draw =>
    cases hc : s.running call with
    | none =>
      have hstay : step s (.attempt call env draw) = (⟨[], none⟩, s) := by simp only [step, hc]
      refine hquiet ?_ fun v hv => ?_
      · simp only [writesAfter, writes, hstay]
        rfl
      · simp [moves, hc] at hv
    | some c =>
      have htables := tables_step s (.attempt call env draw)
      have hwrites := writes_attempt hc env draw
      simp only [moves, hc, Option.map_some, Option.getD_some, attemptMoves, run_cons] at htables
      simp only [writesAfter, hwrites]
      cases hr : (s.swept env).reaches env c.seatId with
      | none =>
        rw [hr] at htables
        rw [htables]
        exact h
      | some server =>
        rw [hr] at htables
        obtain ⟨seat, hseat, -⟩ := App.bookable_of_reaches hr
        have hlock := Tables.lock_clock (t := (s.swept env).tables) (hf.sweep (env.time 1))
          (Option.isSome_iff_exists.2 ⟨seat, hseat⟩) c.requester server env.uuid (env.time 16) (env.time 17)
          (env.time 18) hs
        rw [htables]
        refine hlock.trans ?_
        have hclock : (s.swept env).tables.primary.versionClock = seatCount + n := h
        rw [hclock, add_assoc, ← Nat.cast_add]
        rfl
  | confirm seatId env =>
    have hconfirm := Tables.confirm_clock hf seatId (env.time 0) (env.time 1) hs
    have htables : (step s (.confirm seatId env)).2.app.tables =
        (s.app.tables.confirmSeat seatId (env.time 0) (env.time 1) env.starts).2 := tables_step s _
    have hwrites : s.writes (.confirm seatId env) =
        decide ((s.app.tables.confirmSeat seatId (env.time 0) (env.time 1) env.starts).1 = .ok) := by
      simp only [writes, step, App.confirmSeat]
      cases (s.app.tables.confirmSeat seatId (env.time 0) (env.time 1) env.starts).1 <;> rfl
    rw [htables, hconfirm, h, add_assoc, ← Nat.cast_add, ← hwrites]
    rfl
  | toggle serverId env =>
    refine hquiet rfl fun v hv => ?_
    rcases mem_moves hv with ⟨_, _, _, _, he, -⟩ | ⟨_, _, he, -⟩ | ⟨_, he, -⟩ | ⟨_, _, he, -⟩ | ⟨_, _, _, -, rfl⟩ |
      ⟨_, he, -⟩ | ⟨_, he, -⟩ | ⟨_, he, -⟩
    case inr.inr.inr.inr.inl => trivial
    all_goals cases he
  | reset stamp => exact (StateStore.clocked_new _ _).2
  | book seatId requester => exact hquiet rfl fun v hv => absurd hv List.not_mem_nil
  | setStrategy name => exact hquiet rfl fun v hv => absurd hv List.not_mem_nil
  | cancel seatId => exact hquiet rfl fun v hv => List.mem_singleton.1 hv ▸ trivial
  | renew seatId env => exact hquiet rfl fun v hv => List.mem_singleton.1 hv ▸ trivial
  | snapshot env => exact hquiet rfl fun v hv => List.mem_singleton.1 hv ▸ trivial
  | deliver timer => exact hquiet rfl fun v hv => List.mem_singleton.1 hv ▸ trivial

/-- **The primary's clock counts the bookings and confirmations since the last reset**, and what the peers lack of them
is pending. -/
theorem clock_run (b : Boot) {es : List Event} (hs : ∀ e ∈ es, e.TimersStart) :
    (run step b.site es).replication.Awaiting .server1 seatCount ∧
      (run step b.site es).app.tables.primary.versionClock = seatCount + b.site.writesSince 0 es := by
  induction es using List.reverseRecOn with
  | nil =>
    have hinit : b.site.replication.Awaiting .server1 seatCount := by
      refine Tables.awaiting_initialize (fun timer d hd => ?_) b.stamp
      cases hd
    exact ⟨hinit, (StateStore.clocked_new _ _).2⟩
  | append_singleton es e ih =>
    obtain ⟨hawaiting, hclock⟩ := ih fun e' he' => hs e' (List.mem_append_left _ he')
    have hstarts : e.TimersStart := hs e (List.mem_append_right _ List.mem_cons_self)
    have hf := furnished_run b es
    rw [run_snoc, writesSince_snoc]
    exact ⟨awaiting_step hawaiting hf hstarts, clock_step hf hstarts hclock⟩

/-- **The versions a snapshot shows**, in every run whose timers start: the primary's is that of a new store and the
bookings and confirmations answered since the last reset, what the peers' fall short of it is together at most the
pending count beside them, and until a reset none is above it. -/
theorem versions_shown (b : Boot) (es : List Event) (hs : ∀ e ∈ es, e.TimersStart) (env : Env) :
    ((run step b.site es).syncView env).versions .server1 = seatCount + b.site.writesSince 0 es ∧
    (peers.map (fun id => (((run step b.site es).syncView env).versions .server1 -
      ((run step b.site es).syncView env).versions id).toNat)).sum ≤ ((run step b.site es).syncView env).pending ∧
    ((∀ stamp, .reset stamp ∉ es) → ∀ id, ((run step b.site es).syncView env).versions id ≤
      ((run step b.site es).syncView env).versions .server1) := by
  obtain ⟨hawaiting, hclock⟩ := clock_run b hs
  have hpos : (0 : ℤ) < seatCount := by decide
  have htop : ((run step b.site es).syncView env).versions .server1 =
      (run step b.site es).app.tables.primary.versionClock := hawaiting.clocked.topVersion
  refine ⟨htop.trans hclock, ?_, fun hr id => ?_⟩
  · rw [htop]
    refine lag_le_pending (by decide) hpos (fun k hk => ?_) fun k hk v hlow hv => ?_
    · exact hawaiting.old k ((Tables.mem_peers k).1 hk)
    · exact hawaiting.awaited k ((Tables.mem_peers k).1 hk) v hlow hv
  · obtain ⟨htrails, -⟩ := trails_run (trails_init b) hr
    rw [htop]
    refine StateStore.topVersion_le hawaiting.clocked.positive.le fun i c hc => ?_
    have hbehind := htrails.stored id i
    have hc' : ((run step b.site es).replication.stores id).getSeat i = some c := hc
    rw [hc'] at hbehind
    cases hp : ((run step b.site es).replication.stores .server1).getSeat i with
    | none =>
      rw [hp] at hbehind
      cases hbehind
    | some p =>
      rw [hp] at hbehind
      cases hbehind with
      | some hb => exact hb.1.trans (htrails.counted i p hp).2

/-- A lock whose deliveries are pending: the bound is met. -/
theorem versions_shown_oneLock : (∀ e ∈ oneLock, e.TimersStart) ∧
    (peers.map (fun id => (((run step Boot.calm.site oneLock).syncView (.calm 0 idB)).versions .server1 -
      ((run step Boot.calm.site oneLock).syncView (.calm 0 idB)).versions id).toNat)).sum ≤
        ((run step Boot.calm.site oneLock).syncView (.calm 0 idB)).pending ∧
    ((run step Boot.calm.site oneLock).syncView (.calm 0 idB)).pending = 2 ∧
    ∀ id, ((run step Boot.calm.site oneLock).syncView (.calm 0 idB)).versions id =
      if id = .server1 then 21 else 20 := by
  have hs : ∀ e ∈ oneLock, e.TimersStart := by simp [oneLock, Event.TimersStart, Env.calm]
  refine ⟨hs, (versions_shown .calm oneLock hs (.calm 0 idB)).2.1, by decide +kernel, fun id => ?_⟩
  cases id <;> decide +kernel

end Site
end Ticket
