import TicketBooking.Replicas
import TicketBooking.Runs
/-!
# PendingCount — the count of pending deliveries (`synchronization/eventual_consistency.py`)

Every timer that is running is in its seat's pending list, and no timer is in two places (`Listed`), so the count is
exact as long as only running timers are listed.  A timer that fires removes from its seat's list the timers that have
ended, and is itself still alive: it stays behind, for a later delivery of the seat to remove and to replace, until the
seat is cancelled (`left_run`).
-/
namespace Ticket

open Runs

/-- An operation of the simulator. -/
inductive SimulatorEvent where
  /-- `starts k` says whether the `k`-th timer starts -/
  | broadcastWithDelay (seat : SeatState) (starts : ℕ → Bool)
  | deliverUpdate (timer : ℕ)
  | cancelPendingReplication (seatId : ℤ)

namespace Replication

variable {ι : Type}

/-- A simulator that was just made. -/
def idle (stores : ι → StateStore) : Replication ι := ⟨stores, 0, Dict.empty, Dict.empty, 0⟩

/-! ## The pending lists -/

/-- The timer is in the pending list of the seat. -/
def Pending (r : Replication ι) (seatId : ℤ) (timer : ℕ) : Prop :=
  ∃ ids, r.pending.get? seatId = some ids ∧ timer ∈ ids

/-- **The running timers are listed under their seats**, and no timer is listed twice. -/
structure Listed (r : Replication ι) : Prop where
  ours : ∀ timer d, r.timers.get? timer = some d → d.generation = r.generation
  running : ∀ timer d, r.timers.get? timer = some d → r.Pending d.seat.seatId timer
  old : ∀ seatId timer, r.Pending seatId timer → timer < r.started
  once : ∀ seatId seatId' timer, r.Pending seatId timer → r.Pending seatId' timer → seatId = seatId'
  nodup : ∀ seatId ids, r.pending.get? seatId = some ids → ids.Nodup

/-- A timer that has ended is still in the list of the seat. -/
def Left (r : Replication ι) (seatId : ℤ) : Prop := ∃ timer, r.Pending seatId timer ∧ r.timers.get? timer = none

variable {r : Replication ι} {seatId : ℤ}

theorem listed_idle (stores : ι → StateStore) : (idle stores).Listed where
  ours := fun _ _ h => nomatch h
  running := fun _ _ h => nomatch h
  old := fun _ _ h => nomatch h.choose_spec.1
  once := fun _ _ _ h => nomatch h.choose_spec.1
  nodup := fun _ _ h => nomatch h

theorem pending_schedule (r : Replication ι) (peer : ι) (seat : SeatState) (seatId : ℤ) (timer : ℕ) :
    (r.schedule peer seat).Pending seatId timer ↔
      r.Pending seatId timer ∨ seatId = seat.seatId ∧ timer = r.started := by
  unfold Pending schedule addPending
  dsimp only
  rw [Dict.get?_set]
  by_cases hs : seatId = seat.seatId
  · subst hs
    cases hp : r.pending.get? seat.seatId with
    | none => simp
    | some ids => simp
  · simp [hs]

theorem Listed.schedule (h : r.Listed) (peer : ι) (seat : SeatState) : (r.schedule peer seat).Listed where
  ours := fun timer d hd => by
    simp only [Replication.schedule, Dict.get?_set] at hd
    split at hd
    · obtain rfl := Option.some.inj hd
      rfl
    · exact h.ours timer d hd
  running := fun timer d hd => by
    simp only [Replication.schedule, Dict.get?_set] at hd
    rw [pending_schedule]
    split at hd
    · rename_i ht
      obtain rfl := Option.some.inj hd
      exact Or.inr ⟨rfl, ht⟩
    · exact Or.inl (h.running timer d hd)
  old := fun seatId timer hp => by
    rcases (pending_schedule r peer seat seatId timer).1 hp with hp | ⟨-, rfl⟩
    · exact Nat.lt_succ_of_lt (h.old seatId timer hp)
    · exact Nat.lt_succ_self _
  once := fun i j timer hi hj => by
    rw [pending_schedule] at hi hj
    rcases hi with hi | ⟨rfl, rfl⟩
    · rcases hj with hj | ⟨-, rfl⟩
      · exact h.once i j timer hi hj
      · exact absurd (h.old i _ hi) (lt_irrefl _)
    · rcases hj with hj | ⟨rfl, -⟩
      · exact absurd (h.old j _ hj) (lt_irrefl _)
      · rfl
  nodup := fun i ids hi => by
    simp only [Replication.schedule, addPending, Dict.get?_set] at hi
    split at hi
    · obtain rfl := Option.some.inj hi
      cases hp : r.pending.get? seat.seatId with
      | none => simp
      | some ids =>
        refine List.nodup_append.2 ⟨h.nodup _ ids hp, List.nodup_singleton _, fun a ha b hb => ?_⟩
        rw [List.mem_singleton] at hb
        exact fun he => absurd (h.old _ a ⟨ids, hp, ha⟩) (by omega)
    · exact h.nodup i ids hi

theorem left_schedule (h : r.Listed) (peer : ι) (seat : SeatState) (i : ℤ) :
    (r.schedule peer seat).Left i ↔ r.Left i := by
  unfold Left
  simp only [pending_schedule]
  have htimer (timer : ℕ) : (r.schedule peer seat).timers.get? timer = none ↔
      timer ≠ r.started ∧ r.timers.get? timer = none := by
    simp only [Replication.schedule, Dict.get?_set]
    by_cases ht : timer = r.started <;> simp [ht]
  simp only [htimer]
  constructor
  · rintro ⟨timer, hp | ⟨-, rfl⟩, hne, hnone⟩
    · exact ⟨timer, hp, hnone⟩
    · exact absurd rfl hne
  · rintro ⟨timer, hp, hnone⟩
    exact ⟨timer, Or.inl hp, (h.old i timer hp).ne, hnone⟩

/-- **A broadcast lists the timers it starts** and leaves none behind. -/
theorem listed_broadcast (seat : SeatState) : ∀ (peers : List ι) (starts : ℕ → Bool) (r : Replication ι), r.Listed →
    (r.broadcastWithDelay seat peers starts).2.Listed ∧
      ∀ i, (r.broadcastWithDelay seat peers starts).2.Left i ↔ r.Left i
  | [], _, _, h => ⟨h, fun _ => Iff.rfl⟩
  | peer :: peers, starts, r, h => by
    unfold broadcastWithDelay
    split
    · obtain ⟨hlisted, hleft⟩ := listed_broadcast seat peers _ _ (h.schedule peer seat)
      exact ⟨hlisted, fun i => (hleft i).trans (left_schedule h peer seat i)⟩
    · exact ⟨h, fun _ => Iff.rfl⟩

/-! ## A firing timer and a cancellation -/

/-- What is taken from the lists was not running any more. -/
theorem Listed.shrink {r' : Replication ι} (h : r.Listed) (hgen : r'.generation = r.generation)
    (hstarted : r'.started = r.started)
    (htimers : ∀ t d, r'.timers.get? t = some d → r.timers.get? t = some d ∧ r'.Pending d.seat.seatId t)
    (hpending : ∀ i t, r'.Pending i t → r.Pending i t)
    (hnodup : ∀ i ids, r'.pending.get? i = some ids → ids.Nodup) : r'.Listed where
  ours := fun t d ht => (h.ours t d (htimers t d ht).1).trans hgen.symm
  running := fun t d ht => (htimers t d ht).2
  old := fun i t hp => hstarted ▸ h.old i t (hpending i t hp)
  once := fun i j t hi hj => h.once i j t (hpending i t hi) (hpending j t hj)
  nodup := hnodup

variable [DecidableEq ι]

/-- The end of a delivery leaves in its seat's list the timers that are still alive, its own among them. -/
theorem fire_pending (h : r.Listed) {timer : ℕ} {d : Delivery ι} (hd : r.timers.get? timer = some d) :
    ∃ ids, r.pending.get? d.seat.seatId = some ids ∧ (r.fire timer).generation = r.generation ∧
      (r.fire timer).pending = r.pending.set d.seat.seatId (ids.filter fun t => (r.timers.get? t).isSome) := by
  have hgen : d.generation = (r.apply d.peer d.seat).generation := h.ours timer d hd
  obtain ⟨ids, hids, -⟩ := h.running timer d hd
  have hids' : (r.apply d.peer d.seat).pending.get? d.seat.seatId = some ids := hids
  unfold Replication.fire prunePending
  simp only [hd, if_pos hgen, hids']
  exact ⟨ids, hids, rfl, rfl⟩

theorem pending_fire (h : r.Listed) {timer : ℕ} {d : Delivery ι} (hd : r.timers.get? timer = some d) (i : ℤ) (t : ℕ) :
    (r.fire timer).Pending i t ↔ r.Pending i t ∧ (i = d.seat.seatId → (r.timers.get? t).isSome) := by
  obtain ⟨ids, hids, -, hpending⟩ := fire_pending h hd
  unfold Pending
  rw [hpending, Dict.get?_set]
  by_cases hi : i = d.seat.seatId
  · subst hi
    simp [hids]
  · simp [hi]

theorem Listed.fire (h : r.Listed) {timer : ℕ} {d : Delivery ι} (hd : r.timers.get? timer = some d) :
    (r.fire timer).Listed := by
  obtain ⟨ids, hids, hgen, hpending⟩ := fire_pending h hd
  obtain ⟨-, htimers, hstarted⟩ := fire_of_some hd
  refine h.shrink hgen hstarted (fun t d' ht => ?_) (fun i t hp => ((pending_fire h hd i t).1 hp).1) fun i l hl => ?_
  · rw [htimers, Dict.get?_erase] at ht
    split at ht
    · cases ht
    · exact ⟨ht, (pending_fire h hd _ t).2 ⟨h.running t d' ht, fun _ => by rw [ht]; rfl⟩⟩
  · rw [hpending, Dict.get?_set] at hl
    split at hl
    · obtain rfl := Option.some.inj hl
      exact (h.nodup _ ids hids).filter _
    · exact h.nodup i l hl

theorem left_fire (h : r.Listed) {timer : ℕ} {d : Delivery ι} (hd : r.timers.get? timer = some d) (i : ℤ) :
    (r.fire timer).Left i ↔ i = d.seat.seatId ∨ r.Left i := by
  obtain ⟨-, htimers, -⟩ := fire_of_some hd
  have hlisted := h.running timer d hd
  unfold Left
  simp only [pending_fire h hd, htimers, Dict.get?_erase]
  constructor
  · rintro ⟨t, ⟨hp, -⟩, hnone⟩
    split at hnone
    · rename_i ht
      exact Or.inl (h.once i _ t hp (ht ▸ hlisted))
    · exact Or.inr ⟨t, hp, hnone⟩
  · rintro (rfl | ⟨t, hp, hnone⟩)
    · exact ⟨timer, ⟨hlisted, fun _ => by rw [hd]; rfl⟩, if_pos rfl⟩
    · by_cases hi : i = d.seat.seatId
      · exact ⟨timer, ⟨hi ▸ hlisted, fun _ => by rw [hd]; rfl⟩, if_pos rfl⟩
      · exact ⟨t, ⟨hp, fun he => absurd he hi⟩, by rw [hnone, ite_self]⟩

omit [DecidableEq ι] in
theorem pending_cancel (r : Replication ι) (s i : ℤ) (t : ℕ) :
    (r.cancelPendingReplication s).Pending i t ↔ i ≠ s ∧ r.Pending i t := by
  unfold Pending cancelPendingReplication
  by_cases hi : i = s
  · subst hi
    cases hp : r.pending.get? i with
    | none => simp [hp]
    | some ids => simp
  · cases hp : r.pending.get? s with
    | none => simp [hi]
    | some ids => simp [Dict.get?_erase, hi]

omit [DecidableEq ι] in
theorem timers_cancel (r : Replication ι) (s : ℤ) (t : ℕ) : (r.Pending s t →
      (r.cancelPendingReplication s).timers.get? t = none) ∧
    (¬ r.Pending s t → (r.cancelPendingReplication s).timers.get? t = r.timers.get? t) := by
  unfold Pending cancelPendingReplication
  cases hp : r.pending.get? s with
  | none => simp
  | some ids =>
    have herase : (ids.foldl Dict.erase r.timers).get? t = if t ∈ ids then none else r.timers.get? t :=
      Dict.get?_foldl_erase t ids r.timers
    refine ⟨?_, fun hno => herase.trans (if_neg fun ht => hno ⟨ids, rfl, ht⟩)⟩
    rintro ⟨l, hl, ht⟩
    obtain rfl := Option.some.inj hl
    exact herase.trans (if_pos ht)

omit [DecidableEq ι] in
theorem Listed.cancel (h : r.Listed) (s : ℤ) : (r.cancelPendingReplication s).Listed := by
  refine h.shrink ?_ ?_ (fun t d ht => ?_) (fun i t hp => ((pending_cancel r s i t).1 hp).2) fun i ids hi => ?_
  · unfold cancelPendingReplication
    split <;> rfl
  · unfold cancelPendingReplication
    split <;> rfl
  · by_cases hp : r.Pending s t
    · rw [(timers_cancel r s t).1 hp] at ht
      cases ht
    · rw [(timers_cancel r s t).2 hp] at ht
      have hrunning := h.running t d ht
      exact ⟨ht, (pending_cancel r s _ t).2 ⟨fun he => hp (he ▸ hrunning), hrunning⟩⟩
  · unfold cancelPendingReplication at hi
    split at hi
    · exact h.nodup i ids hi
    · rw [Dict.get?_erase] at hi
      split at hi
      · cases hi
      · exact h.nodup i ids hi

omit [DecidableEq ι] in
theorem left_cancel (h : r.Listed) (s i : ℤ) : (r.cancelPendingReplication s).Left i ↔ i ≠ s ∧ r.Left i := by
  unfold Left
  simp only [pending_cancel]
  constructor
  · rintro ⟨t, ⟨hi, hp⟩, hnone⟩
    have hother : ¬ r.Pending s t := fun hs => hi (h.once i s t hp hs)
    exact ⟨hi, t, hp, ((timers_cancel r s t).2 hother).symm.trans hnone⟩
  · rintro ⟨hi, t, hp, hnone⟩
    have hother : ¬ r.Pending s t := fun hs => hi (h.once i s t hp hs)
    exact ⟨t, ⟨hi, hp⟩, ((timers_cancel r s t).2 hother).trans hnone⟩

/-! ## Runs -/

def step (peers : List ι) (r : Replication ι) (e : SimulatorEvent) : Unit × Replication ι :=
  ((), match e with
    | .broadcastWithDelay seat starts => (r.broadcastWithDelay seat peers starts).2
    | .deliverUpdate timer => r.fire timer
    | .cancelPendingReplication seatId => r.cancelPendingReplication seatId)

/-- The deliveries scheduled that have been neither completed nor cancelled. -/
def outstanding (r : Replication ι) : ℕ := r.timers.keys.length

/-- The event completes a delivery of the seat. -/
def Completes (r : Replication ι) (e : SimulatorEvent) (seatId : ℤ) : Prop :=
  ∃ timer d, e = .deliverUpdate timer ∧ r.timers.get? timer = some d ∧ d.seat.seatId = seatId

/-- A delivery of the seat is completed in the run, and the seat is not cancelled any more. -/
def Uncancelled (peers : List ι) (r : Replication ι) (es : List SimulatorEvent) (seatId : ℤ) : Prop :=
  ∃ pre e post, es = pre ++ e :: post ∧ Completes (run (step peers) r pre) e seatId ∧
    .cancelPendingReplication seatId ∉ post

/-- **What is left in a seat's list by a step**: a completed delivery leaves its timer, a cancellation nothing. -/
theorem listed_step (peers : List ι) (h : r.Listed) (e : SimulatorEvent) : (step peers r e).2.Listed ∧
    ∀ i, (step peers r e).2.Left i ↔ Completes r e i ∨ r.Left i ∧ e ≠ .cancelPendingReplication i := by
  cases e with
  | broadcastWithDelay seat starts =>
    obtain ⟨hlisted, hleft⟩ := listed_broadcast seat peers starts r h
    refine ⟨hlisted, fun i => (hleft i).trans ?_⟩
    simp [Completes]
  | deliverUpdate timer =>
    cases hd : r.timers.get? timer with
    | none =>
      have hsame : (step peers r (.deliverUpdate timer)).2 = r := fire_of_none hd
      rw [hsame]
      refine ⟨h, fun i => ?_⟩
      simp [Completes, hd]
    | some d =>
      refine ⟨h.fire hd, fun i => (left_fire h hd i).trans ?_⟩
      simp [Completes, hd, eq_comm]
  | cancelPendingReplication seatId =>
    refine ⟨h.cancel seatId, fun i => (left_cancel h seatId i).trans ?_⟩
    simp [Completes, and_comm, eq_comm]

theorem listed_run (peers : List ι) (stores : ι → StateStore) (es : List SimulatorEvent) :
    (run (step peers) (idle stores) es).Listed :=
  invariant (P := Listed) (listed_idle stores) (fun _ e h => (listed_step peers h e).1) es

theorem uncancelled_snoc {peers : List ι} {es : List SimulatorEvent} {e : SimulatorEvent} {i : ℤ} :
    Uncancelled peers r (es ++ [e]) i ↔
      Completes (run (step peers) r es) e i ∨ Uncancelled peers r es i ∧ e ≠ .cancelPendingReplication i := by
  constructor
  · rintro ⟨pre, f, post, he, hc, hpost⟩
    rcases snoc_eq_append_cons he with ⟨rfl, rfl, -⟩ | ⟨mid, rfl, hes⟩
    · exact Or.inl hc
    · refine Or.inr ⟨⟨pre, f, mid, hes, hc, fun hm => hpost (List.mem_append_left _ hm)⟩, fun hg => hpost ?_⟩
      rw [hg]
      exact List.mem_append_right _ List.mem_cons_self
  · rintro (hc | ⟨⟨pre, f, post, rfl, hc, hpost⟩, hne⟩)
    · exact ⟨es, e, [], rfl, hc, List.not_mem_nil⟩
    · refine ⟨pre, f, post ++ [e], by simp, hc, fun hm => ?_⟩
      rcases List.mem_append.1 hm with hm | hm
      · exact hpost hm
      · exact hne (List.mem_singleton.1 hm).symm

/-- **A seat has a timer left in its list exactly when a delivery of it was completed and it was not cancelled since.** -/
theorem left_run (peers : List ι) (stores : ι → StateStore) (es : List SimulatorEvent) (i : ℤ) :
    (run (step peers) (idle stores) es).Left i ↔ Uncancelled peers (idle stores) es i := by
  induction es using List.reverseRecOn with
  | nil =>
    refine iff_of_false ?_ ?_
    · rintro ⟨t, ⟨ids, hids, -⟩, -⟩
      cases hids
    · rintro ⟨pre, e, post, he, -⟩
      simp at he
  | append_singleton es e ih =>
    rw [run_snoc, (listed_step peers (listed_run peers stores es) e).2 i, uncancelled_snoc, ih]

/-! ## The count -/

omit [DecidableEq ι] in
theorem mem_flatten_values (r : Replication ι) (t : ℕ) : t ∈ r.pending.values.flatten ↔ ∃ i, r.Pending i t := by
  unfold Pending
  rw [List.mem_flatten]
  constructor
  · rintro ⟨ids, hids, ht⟩
    obtain ⟨i, hi⟩ := (Dict.mem_values_iff _ _).1 hids
    exact ⟨i, ids, hi, ht⟩
  · rintro ⟨i, ids, hi, ht⟩
    exact ⟨ids, (Dict.mem_values_iff _ _).2 ⟨i, hi⟩, ht⟩

omit [DecidableEq ι] in
theorem Listed.nodup_flatten (h : r.Listed) : r.pending.values.flatten.Nodup := by
  refine List.nodup_flatten.2 ⟨fun ids hids => ?_, ?_⟩
  · obtain ⟨i, hi⟩ := (Dict.mem_values_iff _ _).1 hids
    exact h.nodup i ids hi
  · refine List.pairwise_map.2 ((List.pairwise_map.1 r.pending.nodup).imp_of_mem fun {a b} ha hb hne => ?_)
    exact fun t hta htb => hne (h.once a.1 b.1 t ⟨a.2, (Dict.get?_eq_some_iff _ _ _).2 ha, hta⟩
      ⟨b.2, (Dict.get?_eq_some_iff _ _ _).2 hb, htb⟩)

omit [DecidableEq ι] in
/-- **The count is exact when no list has a timer left that has ended.** -/
theorem count_iff (h : r.Listed) : r.getPendingCount = r.outstanding ↔ ∀ i, ¬ r.Left i := by
  have hcount : r.getPendingCount = r.pending.values.flatten.length := List.length_flatten.symm
  have hsub : r.timers.keys ⊆ r.pending.values.flatten := fun t ht => by
    obtain ⟨d, hd⟩ := Option.isSome_iff_exists.1 ((Dict.mem_keys_iff _ _).1 ht)
    exact (mem_flatten_values r t).2 ⟨_, h.running t d hd⟩
  have hleft : (∀ i, ¬ r.Left i) ↔ r.pending.values.flatten ⊆ r.timers.keys := by
    constructor
    · intro hno t ht
      obtain ⟨i, hp⟩ := (mem_flatten_values r t).1 ht
      rw [Dict.mem_keys_iff, Option.isSome_iff_ne_none]
      exact fun hnone => hno i ⟨t, hp, hnone⟩
    · rintro hall i ⟨t, hp, hnone⟩
      have hmem := hall ((mem_flatten_values r t).2 ⟨i, hp⟩)
      rw [Dict.mem_keys_iff, hnone] at hmem
      cases hmem
  rw [hcount, hleft]
  unfold outstanding
  constructor
  · intro hlen
    exact ((List.subperm_of_subset r.timers.nodup hsub).perm_of_length_le hlen.le).symm.subset
  · exact fun hall => ((List.perm_ext_iff_of_nodup h.nodup_flatten r.timers.nodup).2
      fun t => ⟨fun ht => hall ht, fun ht => hsub ht⟩).length_eq

/-- **The pending count is exact**, whatever the order of broadcasts, deliveries and cancellations, exactly when every
delivery completed so far has been followed by a cancellation of its seat. -/
theorem pending_count_iff (peers : List ι) (stores : ι → StateStore) (es : List SimulatorEvent) :
    (run (step peers) (idle stores) es).getPendingCount = (run (step peers) (idle stores) es).outstanding ↔
      ∀ i, ¬ Uncancelled peers (idle stores) es i := by
  rw [count_iff (listed_run peers stores es)]
  exact forall_congr' fun i => not_congr (left_run peers stores es i)

/-- A broadcast to one peer, and its delivery. -/
def oneDelivery : List SimulatorEvent :=
  [.broadcastWithDelay ⟨1, .reserved, 0, "alice", 1⟩ (fun _ => true), .deliverUpdate 0]

/-- **The one delivery is completed and still counted.** -/
theorem oneDelivery_counted :
    (run (step [2]) (idle fun _ : ℕ => StateStore.new "S2") oneDelivery).outstanding = 0 ∧
    (run (step [2]) (idle fun _ : ℕ => StateStore.new "S2") oneDelivery).getPendingCount = 1 ∧
    ¬ ∀ es, (run (step [2]) (idle fun _ : ℕ => StateStore.new "S2") es).getPendingCount =
      (run (step [2]) (idle fun _ : ℕ => StateStore.new "S2") es).outstanding := by
  have hout : (run (step [2]) (idle fun _ : ℕ => StateStore.new "S2") oneDelivery).outstanding = 0 := by
    decide +kernel
  have hcount : (run (step [2]) (idle fun _ : ℕ => StateStore.new "S2") oneDelivery).getPendingCount = 1 := by
    decide +kernel
  refine ⟨hout, hcount, fun h => ?_⟩
  have hsame := h oneDelivery
  rw [hout, hcount] at hsame
  cases hsame

end Replication
end Ticket
