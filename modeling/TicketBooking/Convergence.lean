import TicketBooking.Moves
/-!
# Convergence — the peers trail the primary and catch up with it

Every copy of a seat, in a store or in flight, is behind the primary's (`Trails`), whatever order the deliveries arrive
in; no store's copy ever goes back (`Grows`); and a peer that is not in step with the primary has a delivery coming that
will bring it there (`Covered`), so with nothing in flight all stores agree.  The full copy pushed to a server back
online brings it in step at once, and nothing in flight takes it back (`replicas_converge`).
-/
namespace Ticket

open Runs

namespace SeatState

abbrev Behind : SeatState → SeatState → Prop := Versioned.Behind version content

abbrev Agrees : SeatState → SeatState → Prop := Versioned.Agrees version content

end SeatState

namespace Replication

variable {ι : Type} [DecidableEq ι] {hub : ι} {r r' : Replication ι}

/-- **Every copy trails the hub's**, in a store or in flight, and the hub's clock counts its versions. -/
structure Trails (hub : ι) (r : Replication ι) : Prop where
  counted : ∀ i p, (r.stores hub).getSeat i = some p → p.seatId = i ∧ p.version ≤ (r.stores hub).versionClock
  stored : ∀ k i, Option.Rel SeatState.Behind ((r.stores k).getSeat i) ((r.stores hub).getSeat i)
  flying : ∀ timer d, r.timers.get? timer = some d →
    d.peer ≠ hub ∧ ∃ p, (r.stores hub).getSeat d.seat.seatId = some p ∧ d.seat.Behind p
  numbered : ∀ timer d, r.timers.get? timer = some d → timer < r.started

/-- Store `k` has the hub's copy of seat `i`. -/
def InStep (hub : ι) (r : Replication ι) (k : ι) (i : ℤ) : Prop :=
  Option.Rel SeatState.Agrees ((r.stores k).getSeat i) ((r.stores hub).getSeat i)

/-- A delivery is on its way that has the hub's copy of seat `i` for `k`. -/
def Coming (hub : ι) (r : Replication ι) (k : ι) (i : ℤ) : Prop :=
  ∃ timer d p, r.timers.get? timer = some d ∧ d.peer = k ∧ d.seat.seatId = i ∧ (r.stores hub).getSeat i = some p ∧
    d.seat.Agrees p

/-- **Whoever is not in step will be.** -/
def Covered (hub : ι) (r : Replication ι) : Prop := ∀ k i, r.InStep hub k i ∨ r.Coming hub k i

/-- No store's copy goes back. -/
def Grows (r r' : Replication ι) : Prop :=
  ∀ k i c, (r.stores k).getSeat i = some c → ∃ c', (r'.stores k).getSeat i = some c' ∧ c.version ≤ c'.version

omit [DecidableEq ι] in
theorem Grows.of_stores (h : r'.stores = r.stores) : Grows r r' := by
  intro k i c hc
  rw [h]
  exact ⟨c, hc, le_rfl⟩

omit [DecidableEq ι] in
theorem Grows.trans {r'' : Replication ι} (h : Grows r r') (h' : Grows r' r'') : Grows r r'' := by
  intro k i c hc
  obtain ⟨c', hc', hle⟩ := h k i c hc
  obtain ⟨c'', hc'', hle'⟩ := h' k i c' hc'
  exact ⟨c'', hc'', le_trans hle hle'⟩

omit [DecidableEq ι] in
theorem Trails.own (h : r.Trails hub) {i : ℤ} {p : SeatState} (hp : (r.stores hub).getSeat i = some p) (k : ι) :
    ∃ own, (r.stores k).getSeat i = some own ∧ own.Behind p := by
  have hk := h.stored k i
  rw [hp] at hk
  cases ho : (r.stores k).getSeat i with
  | none =>
    rw [ho] at hk
    cases hk
  | some own =>
    rw [ho] at hk
    cases hk with
    | some hb => exact ⟨own, rfl, hb⟩

omit [DecidableEq ι] in
theorem Trails.none_of_hub (h : r.Trails hub) {i : ℤ} (hi : (r.stores hub).getSeat i = none) (k : ι) :
    (r.stores k).getSeat i = none := by
  have hk := h.stored k i
  rw [hi] at hk
  cases ho : (r.stores k).getSeat i with
  | none => rfl
  | some own =>
    rw [ho] at hk
    cases hk

omit [DecidableEq ι] in
theorem Trails.congr (h : r.Trails hub) (hs : r'.stores = r.stores) (hst : r'.started = r.started)
    (ht : ∀ timer d, r'.timers.get? timer = some d → r.timers.get? timer = some d) : r'.Trails hub := by
  refine ⟨?_, ?_, fun timer d hd => ?_, fun timer d hd => ?_⟩
  · rw [hs]
    exact h.counted
  · rw [hs]
    exact h.stored
  · rw [hs]
    exact h.flying timer d (ht timer d hd)
  · rw [hst]
    exact h.numbered timer d (ht timer d hd)

/-! ## A copy arrives -/

section
variable (h : r.Trails hub) {peer : ι} (hne : peer ≠ hub) {seat p : SeatState}
  (hp : (r.stores hub).getSeat seat.seatId = some p) (hb : seat.Behind p)
include h hne hp

/-- **What an arriving copy changes**: one seat of one peer, which keeps the newer of the two. -/
theorem Trails.apply_shape : (r.apply peer seat).stores hub = r.stores hub ∧
    ∃ own, (r.stores peer).getSeat seat.seatId = some own ∧ own.Behind p ∧
      ∀ k i, ((r.apply peer seat).stores k).getSeat i =
        if k = peer ∧ i = seat.seatId then some (Versioned.merge SeatState.version own seat)
        else (r.stores k).getSeat i := by
  obtain ⟨own, ho, hbo⟩ := h.own hp peer
  refine ⟨Function.update_of_ne hne.symm _ _, own, ho, hbo, fun k i => ?_⟩
  unfold apply
  by_cases hk : k = peer
  · subst hk
    simp only [Function.update_self, StateStore.getSeat_applyRemoteUpdate, true_and]
    by_cases hi : i = seat.seatId
    · subst hi
      simp [ho]
    · simp [hi]
  · simp [hk]

theorem Trails.apply_grows : Grows r (r.apply peer seat) := by
  obtain ⟨-, own, ho, -, hget⟩ := h.apply_shape hne hp
  intro k i c hc
  rw [hget]
  by_cases hki : k = peer ∧ i = seat.seatId
  · obtain ⟨rfl, rfl⟩ := hki
    rw [if_pos ⟨rfl, rfl⟩]
    obtain rfl := Option.some.inj (ho.symm.trans hc)
    exact ⟨_, rfl, Versioned.le_merge own seat⟩
  · rw [if_neg hki]
    exact ⟨c, hc, le_rfl⟩

theorem Trails.apply_inStep (ha : seat.Agrees p) : (r.apply peer seat).InStep hub peer seat.seatId := by
  obtain ⟨hhub, own, -, hbo, hget⟩ := h.apply_shape hne hp
  unfold InStep
  rw [hget, if_pos ⟨rfl, rfl⟩, hhub, hp]
  exact .some (hbo.merge_agrees ha)

include hb

theorem Trails.apply : (r.apply peer seat).Trails hub := by
  obtain ⟨hhub, own, -, hbo, hget⟩ := h.apply_shape hne hp
  refine ⟨?_, fun k i => ?_, ?_, h.numbered⟩
  · rw [hhub]
    exact h.counted
  · rw [hget, hhub]
    split
    · rename_i hki
      rw [hki.2, hp]
      exact .some (hbo.merge hb)
    · exact h.stored k i
  · intro timer d hd
    rw [hhub]
    exact h.flying timer d hd

theorem Trails.apply_keeps {k : ι} {i : ℤ} (hs : r.InStep hub k i) : (r.apply peer seat).InStep hub k i := by
  obtain ⟨hhub, own, ho, -, hget⟩ := h.apply_shape hne hp
  unfold InStep at hs ⊢
  rw [hget, hhub]
  split
  · rename_i hki
    obtain ⟨rfl, rfl⟩ := hki
    rw [ho, hp] at hs
    rw [hp]
    cases hs with
    | some ha =>
      rw [Versioned.Agrees.merge ha hb]
      exact .some ha
  · exact hs

end

/-! ## A timer fires -/

theorem Trails.fire (h : r.Trails hub) (timer : ℕ) : (r.fire timer).Trails hub ∧ Grows r (r.fire timer) := by
  cases hd : r.timers.get? timer with
  | none =>
    rw [fire_of_none hd]
    exact ⟨h, .of_stores rfl⟩
  | some d =>
    obtain ⟨hne, p, hp, hb⟩ := h.flying timer d hd
    obtain ⟨hs, ht, hst⟩ := fire_of_some hd
    refine ⟨(h.apply hne hp hb).congr hs hst fun j d' hd' => ?_, (h.apply_grows hne hp).trans (.of_stores hs)⟩
    rw [ht, Dict.get?_erase] at hd'
    split at hd'
    · cases hd'
    · exact hd'

/-- **The delivery that was coming has brought its peer in step.** -/
theorem Covered.fire (hc : r.Covered hub) (h : r.Trails hub) (timer : ℕ) : (r.fire timer).Covered hub := by
  cases hd : r.timers.get? timer with
  | none =>
    rw [fire_of_none hd]
    exact hc
  | some d =>
    obtain ⟨hne, p, hp, hb⟩ := h.flying timer d hd
    obtain ⟨hs, ht, -⟩ := fire_of_some hd
    obtain ⟨hhub, -⟩ := h.apply_shape hne hp
    unfold Covered InStep Coming
    rw [hs, ht]
    intro k i
    rcases hc k i with hin | ⟨timer', d', p', hd', rfl, rfl, hp', ha⟩
    · exact Or.inl (h.apply_keeps hne hp hb hin)
    · by_cases htt : timer' = timer
      · subst htt
        obtain rfl := Option.some.inj (hd.symm.trans hd')
        obtain rfl := Option.some.inj (hp.symm.trans hp')
        exact Or.inl (h.apply_inStep hne hp ha)
      · refine Or.inr ⟨timer', d', p', ?_, rfl, rfl, ?_, ha⟩
        · rw [Dict.get?_erase_of_ne _ htt]
          exact hd'
        · rw [hhub]
          exact hp'

/-! ## A recovered server receives a full copy -/

/-- The copies of a list that the hub holds are received one after another. -/
theorem Trails.receive {server : ι} (hne : server ≠ hub) : ∀ (seats : List SeatState) (r : Replication ι),
    r.Trails hub →
    (∀ c ∈ seats, (r.stores hub).getSeat c.seatId = some c) →
    (r.receiveSyncUpdates server seats).Trails hub ∧ Grows r (r.receiveSyncUpdates server seats) ∧
      (∀ k i, r.InStep hub k i → (r.receiveSyncUpdates server seats).InStep hub k i) ∧
      ∀ c ∈ seats, (r.receiveSyncUpdates server seats).InStep hub server c.seatId
  | [], r, h, _ => ⟨h, .of_stores rfl, fun _ _ hs => hs, fun _ hc => (nomatch hc)⟩
  | c :: seats, r, h, hl => by
    have hp := hl c List.mem_cons_self
    have hb : c.Behind c := Versioned.behind_refl c
    obtain ⟨hhub, -⟩ := h.apply_shape hne hp
    obtain ⟨h1, h2, h3, h4⟩ := Trails.receive hne seats (r.apply server c) (h.apply hne hp hb) fun c' hc' => by
      rw [hhub]
      exact hl c' (List.mem_cons_of_mem c hc')
    refine ⟨h1, (h.apply_grows hne hp).trans h2, fun k i hs => h3 k i (h.apply_keeps hne hp hb hs), ?_⟩
    intro c' hc'
    rcases List.mem_cons.1 hc' with rfl | hc'
    · exact h3 _ _ (h.apply_inStep hne hp ⟨rfl, rfl⟩)
    · exact h4 c' hc'

/-! ## The hub writes a seat and tells its peers -/

omit [DecidableEq ι] in
theorem schedule_timers (r : Replication ι) (peer : ι) (seat : SeatState) (timer : ℕ) :
    (r.schedule peer seat).timers.get? timer =
      if timer = r.started then some ⟨peer, seat, r.generation⟩ else r.timers.get? timer := Dict.get?_set _ _ _ _

omit [DecidableEq ι] in
theorem Trails.schedule (h : r.Trails hub) {peer : ι} (hne : peer ≠ hub) {seat p : SeatState}
    (hp : (r.stores hub).getSeat seat.seatId = some p) (hb : seat.Behind p) : (r.schedule peer seat).Trails hub := by
  refine ⟨h.counted, h.stored, fun timer d hd => ?_, fun timer d hd => ?_⟩
  · rw [schedule_timers] at hd
    split at hd
    · obtain rfl := Option.some.inj hd
      exact ⟨hne, p, hp, hb⟩
    · exact h.flying timer d hd
  · rw [schedule_timers] at hd
    split at hd
    · rename_i he
      rw [he]
      exact Nat.lt_succ_self _
    · exact Nat.lt_succ_of_lt (h.numbered timer d hd)

omit [DecidableEq ι] in
theorem Coming.schedule (h : r.Trails hub) {k : ι} {i : ℤ} (hc : r.Coming hub k i) (peer : ι) (seat : SeatState) :
    (r.schedule peer seat).Coming hub k i := by
  obtain ⟨timer, d, p, hd, hk, hi, hp, ha⟩ := hc
  refine ⟨timer, d, p, ?_, hk, hi, hp, ha⟩
  rw [schedule_timers, if_neg (ne_of_lt (h.numbered timer d hd))]
  exact hd

omit [DecidableEq ι] in
/-- **A broadcast** starts a delivery for every peer, as long as the timers start. -/
theorem Trails.broadcast {seat p : SeatState} (hb : seat.Behind p) : ∀ (peers : List ι) (starts : ℕ → Bool)
    (r : Replication ι), (∀ k ∈ peers, k ≠ hub) → r.Trails hub → (r.stores hub).getSeat seat.seatId = some p →
    (r.broadcastWithDelay seat peers starts).2.Trails hub ∧
      (∀ k i, r.Coming hub k i → (r.broadcastWithDelay seat peers starts).2.Coming hub k i) ∧
      ((∀ n, starts n = true) → seat.Agrees p →
        ∀ k ∈ peers, (r.broadcastWithDelay seat peers starts).2.Coming hub k seat.seatId)
  | [], _, r, _, h, _ => ⟨h, fun _ _ hc => hc, fun _ _ _ hk => (nomatch hk)⟩
  | peer :: peers, starts, r, hne, h, hp => by
    obtain ⟨h1, h2, h3⟩ := Trails.broadcast hb peers (fun n => starts (n + 1)) (r.schedule peer seat)
      (fun k hk => hne k (List.mem_cons_of_mem peer hk)) (h.schedule (hne peer List.mem_cons_self) hp hb) hp
    unfold broadcastWithDelay
    by_cases h0 : starts 0 = true
    · rw [if_pos h0]
      refine ⟨h1, fun k i hc => h2 k i (hc.schedule h peer seat), fun hs ha k hk => ?_⟩
      rcases List.mem_cons.1 hk with rfl | hk
      · refine h2 _ _ ⟨r.started, ⟨k, seat, r.generation⟩, p, ?_, rfl, rfl, hp, ha⟩
        rw [schedule_timers, if_pos rfl]
      · exact h3 (fun n => hs (n + 1)) ha k hk
    · rw [if_neg h0]
      exact ⟨h, fun _ _ hc => hc, fun hs => absurd (hs 0) h0⟩

/-- **The hub's next version is newer than any copy**, so they still trail it. -/
theorem Trails.write (h : r.Trails hub) {i : ℤ} {own : SeatState} (ho : (r.stores hub).getSeat i = some own)
    (state : SeatStatus) (owner : String) (now : Time)
    (hs : r'.stores = Function.update r.stores hub ((r.stores hub).updateSeat i state owner now).2)
    (ht : r'.timers = r.timers) (hst : r'.started = r.started) : r'.Trails hub ∧ Grows r r' := by
  rw [StateStore.updateSeat_some ho] at hs
  generalize hnew : (⟨i, state, now, owner, (r.stores hub).versionClock + 1⟩ : SeatState) = new at hs
  have hid : new.seatId = i := by rw [← hnew]
  have hversion : new.version = (r.stores hub).versionClock + 1 := by rw [← hnew]
  have hlt : own.version < new.version := by
    rw [hversion]
    exact Int.lt_add_one_of_le (h.counted i own ho).2
  have hclock : (r'.stores hub).versionClock = (r.stores hub).versionClock + 1 := by rw [hs, Function.update_self]
  have hhub : ∀ j, (r'.stores hub).getSeat j = if j = i then some new else (r.stores hub).getSeat j := by
    intro j
    rw [hs, Function.update_self]
    exact Dict.get?_set _ _ _ _
  have hpeer : ∀ k, k ≠ hub → r'.stores k = r.stores k := by
    intro k hk
    rw [hs, Function.update_of_ne hk]
  refine ⟨⟨fun j p hp => ?_, fun k j => ?_, fun timer d hd => ?_, ?_⟩, fun k j c hc => ?_⟩
  · rw [hclock]
    rw [hhub] at hp
    split at hp
    · rename_i hj
      obtain rfl := Option.some.inj hp
      exact ⟨hid.trans hj.symm, le_of_eq hversion⟩
    · obtain ⟨hseat, hle⟩ := h.counted j p hp
      exact ⟨hseat, by omega⟩
  · by_cases hk : k = hub
    · subst hk
      cases (r'.stores k).getSeat j with
      | none => exact .none
      | some p => exact .some (Versioned.behind_refl p)
    · rw [hpeer k hk, hhub]
      split
      · rename_i hj
        subst hj
        obtain ⟨c, hc, hb⟩ := h.own ho k
        rw [hc]
        exact .some (hb.newer hlt)
      · exact h.stored k j
  · rw [ht] at hd
    obtain ⟨hne, p, hp, hb⟩ := h.flying timer d hd
    refine ⟨hne, ?_⟩
    rw [hhub]
    split
    · rename_i hj
      rw [hj, ho] at hp
      obtain rfl := Option.some.inj hp
      exact ⟨_, rfl, hb.newer hlt⟩
    · exact ⟨p, hp, hb⟩
  · rw [ht, hst]
    exact h.numbered
  · by_cases hk : k = hub
    · subst hk
      rw [hhub]
      split
      · rename_i hj
        subst hj
        obtain rfl := Option.some.inj (ho.symm.trans hc)
        exact ⟨_, rfl, le_of_lt hlt⟩
      · exact ⟨c, hc, le_rfl⟩
    · rw [hpeer k hk]
      exact ⟨c, hc, le_rfl⟩

omit [DecidableEq ι] in
theorem inStep_hub (hub : ι) (r : Replication ι) (i : ℤ) : r.InStep hub hub i := by
  unfold InStep
  cases (r.stores hub).getSeat i with
  | none => exact .none
  | some p => exact .some ⟨rfl, rfl⟩

omit [DecidableEq ι] in
theorem InStep.behind {k : ι} {i : ℤ} (h : r.InStep hub k i) :
    Option.Rel SeatState.Behind ((r.stores k).getSeat i) ((r.stores hub).getSeat i) := by
  unfold InStep at h
  generalize (r.stores k).getSeat i = c at h ⊢
  generalize (r.stores hub).getSeat i = p at h ⊢
  cases h with
  | some ha => exact .some ha.behind
  | none => exact .none

omit [DecidableEq ι] in
/-- **A copy between the one that agreed and the hub's, which has not moved, agrees.** -/
theorem InStep.of_grows {k : ι} {i : ℤ} (h : r.InStep hub k i) (hg : Grows r r') (ht : r'.Trails hub)
    (hs : (r'.stores hub).getSeat i = (r.stores hub).getSeat i) : r'.InStep hub k i := by
  have hstored := ht.stored k i
  have hgrow := hg k i
  unfold InStep at h ⊢
  rw [hs] at hstored ⊢
  generalize (r.stores k).getSeat i = c at h hgrow
  generalize (r.stores hub).getSeat i = p at h hstored ⊢
  generalize (r'.stores k).getSeat i = c' at hgrow hstored ⊢
  cases h with
  | none =>
    cases hstored with
    | none => exact .none
  | some ha =>
    obtain ⟨own, rfl, hle⟩ := hgrow _ rfl
    cases hstored with
    | some hb =>
      have he := le_antisymm hb.1 (ha.1 ▸ hle)
      exact .some ⟨he, hb.2 he⟩

end Replication

/-- Whether the timers of a move start. -/
def Move.starts : Move → ℕ → Bool
  | .lock _ _ _ _ _ _ _ starts => starts
  | .confirm _ _ _ starts => starts
  | _ => fun _ => true

namespace Tables

open Replication

variable {t : Tables}

theorem mem_peers (k : ServerId) : k ∈ peers ↔ k ≠ .server1 := by
  cases k <;> decide

/-- **A publication keeps every copy trailing the primary's**, and if its timers start every peer will have it. -/
theorem publish_trails (h : t.replication.Trails .server1) (i : ℤ) (state : SeatStatus) (owner : String) (stamp : Time)
    (starts : ℕ → Bool) : (t.publish i state owner stamp starts).2.replication.Trails .server1 ∧
      Grows t.replication (t.publish i state owner stamp starts).2.replication ∧
      ((∀ n, starts n = true) → t.replication.Covered .server1 →
        (t.publish i state owner stamp starts).2.replication.Covered .server1) := by
  cases ho : t.primary.getSeat i with
  | none =>
    rw [publish_none t i state owner stamp starts ho]
    exact ⟨h, .of_stores rfl, fun _ hc => hc⟩
  | some own =>
    rw [publish_some t i state owner stamp starts ho]
    generalize hr : ({ t.replication with
      stores := Function.update t.replication.stores .server1 (t.primary.updateSeat i state owner stamp).2 } :
        Replication ServerId) = r
    have hrs : r.stores =
        Function.update t.replication.stores .server1 (t.primary.updateSeat i state owner stamp).2 := by rw [← hr]
    have hrt : r.timers = t.replication.timers := by rw [← hr]
    obtain ⟨htr, hgr⟩ := h.write ho state owner stamp hrs hrt (by rw [← hr])
    rw [StateStore.updateSeat_some ho] at hrs
    generalize hnew : (⟨i, state, stamp, owner, t.primary.versionClock + 1⟩ : SeatState) = new at hrs ⊢
    have hid : new.seatId = i := by rw [← hnew]
    have hhub : ∀ j, (r.stores .server1).getSeat j = if j = i then some new else t.primary.getSeat j := by
      intro j
      rw [hrs, Function.update_self]
      exact Dict.get?_set _ _ _ _
    have hp : (r.stores .server1).getSeat new.seatId = some new := by rw [hhub, if_pos hid]
    obtain ⟨h1, h2, h3⟩ := Trails.broadcast (Versioned.behind_refl new) peers starts r (fun k hk => (mem_peers k).1 hk)
      htr hp
    have hsent := broadcastWithDelay_stores new peers starts r
    refine ⟨h1, hgr.trans (.of_stores hsent), fun hs hc k j => ?_⟩
    by_cases hk : k = .server1
    · subst hk
      exact Or.inl (inStep_hub _ _ _)
    · by_cases hj : j = i
      · rw [hj]
        exact Or.inr (hid ▸ h3 hs ⟨rfl, rfl⟩ k ((mem_peers k).2 hk))
      · rcases hc k j with hin | ⟨timer, d, p, hd, hdk, hdj, hdp, ha⟩
        · refine Or.inl ?_
          unfold InStep at hin ⊢
          rw [hsent, hhub, if_neg hj, hrs, Function.update_of_ne hk]
          exact hin
        · refine Or.inr (h2 k j ⟨timer, d, p, by rw [hrt]; exact hd, hdk, hdj, ?_, ha⟩)
          rw [hhub, if_neg hj]
          exact hdp

/-- **A recovered server is in step at every seat** once it has the primary's full copy. -/
theorem pushRecovery_trails (h : t.replication.Trails .server1) {server : ServerId} (hne : server ≠ .server1) :
    (t.pushRecovery server).replication.Trails .server1 ∧ Grows t.replication (t.pushRecovery server).replication ∧
      (t.replication.Covered .server1 → (t.pushRecovery server).replication.Covered .server1) ∧
      ∀ i, (t.pushRecovery server).replication.InStep .server1 server i := by
  have hlist : ∀ c ∈ t.primary.listSeats, t.primary.getSeat c.seatId = some c := by
    intro c hc
    obtain ⟨i, hi⟩ := (Dict.mem_values_iff _ _).1 hc
    rw [(h.counted i c hi).1]
    exact hi
  obtain ⟨h1, h2, h5, h6⟩ := Trails.receive hne t.primary.listSeats t.replication h hlist
  have h3 := receiveSyncUpdates_of_ne (Ne.symm hne) t.primary.listSeats t.replication
  have h4 := receiveSyncUpdates_timers server t.primary.listSeats t.replication
  refine ⟨h1, h2, fun hc k i => ?_, fun i => ?_⟩
  · rcases hc k i with hin | ⟨timer, d, p, hd, hk, hi, hp, ha⟩
    · exact Or.inl (h5 k i hin)
    · exact Or.inr ⟨timer, d, p, h4 ▸ hd, hk, hi, h3 ▸ hp, ha⟩
  · cases hi : t.primary.getSeat i with
    | some p =>
      have hp : p ∈ t.primary.listSeats := (Dict.mem_values_iff _ _).2 ⟨i, hi⟩
      exact (h.counted i p hi).1 ▸ h6 p hp
    | none =>
      have hhub : ((t.pushRecovery server).replication.stores .server1).getSeat i = none :=
        (congrArg (fun st => st.getSeat i) h3).trans hi
      have hown : ((t.pushRecovery server).replication.stores server).getSeat i = none :=
        Trails.none_of_hub h1 hhub server
      unfold InStep
      rw [hhub, hown]
      exact .none

/-- **What a move does to the replicas**: nothing, a publication, a delivery, a full copy, or a reset. -/
theorem replication_step (t : Tables) (v : Move) :
    (t.step v).2.replication = t.replication ∨
    (∃ t' : Tables, t'.replication = t.replication ∧ ∃ i state owner stamp,
      (t.step v).2.replication = (t'.publish i state owner stamp v.starts).2.replication) ∨
    (∃ timer, (t.step v).2.replication = t.replication.fire timer) ∨
    (∃ server, v = .push server) ∨ ∃ stamp, v = .reset stamp := by
  cases v with
  | sweep now => exact Or.inl rfl
  | lock i requester server uuid now later stamp starts =>
    simp only [step]
    rcases lockSeat_cases t i requester server uuid now later stamp starts with ⟨e, -, ht⟩ | ⟨l, -, ht⟩
    · rw [ht]
      exact Or.inl rfl
    · refine Or.inr (Or.inl ⟨_, ?_, i, .locked, requester, stamp, congrArg (fun q => q.2.replication) (ht _ rfl)⟩)
      rfl
  | confirm i now stamp starts =>
    simp only [step]
    rcases confirmSeat_cases t i now stamp starts with ⟨-, ht, -⟩ | ⟨seat, -, -, -, ht, -⟩ | ⟨seat, l, -, -, -, ht⟩
    · rw [ht]
      exact Or.inl rfl
    · rw [ht]
      exact Or.inl rfl
    · refine Or.inr (Or.inl ⟨_, ?_, i, .reserved, seat.owner, stamp, congrArg (fun q => q.2.replication) (ht _ rfl)⟩)
      rfl
  | cancel i =>
    simp only [step]
    rcases cancelLock_cases t i with ⟨-, ht, -⟩ | ⟨seat, -, -, ht⟩
    · rw [ht]
      exact Or.inl rfl
    · rw [ht]
      exact Or.inl rfl
  | renew i now later last =>
    simp only [step]
    rcases renewLease_cases t i now later last with ⟨-, ht, -⟩ | ⟨seat, e, -, -, -, -, ht, -⟩ |
        ⟨seat, l, -, -, -, -, ht⟩
    · rw [ht]
      exact Or.inl rfl
    · rw [ht]
      exact Or.inl rfl
    · rw [ht]
      exact Or.inl rfl
  | reset stamp => exact Or.inr (Or.inr (Or.inr (Or.inr ⟨stamp, rfl⟩)))
  | deliver timer => exact Or.inr (Or.inr (Or.inl ⟨timer, rfl⟩))
  | push server => exact Or.inr (Or.inr (Or.inr (Or.inl ⟨server, rfl⟩)))

/-- **Every move but a reset** keeps the copies trailing, takes none back, and, its timers started, leaves nobody
behind for good. -/
theorem trails_step (h : t.replication.Trails .server1) {v : Move} (ha : t.Allowed v) (hr : ∀ stamp, v ≠ .reset stamp) :
    (t.step v).2.replication.Trails .server1 ∧ Grows t.replication (t.step v).2.replication ∧
      ((∀ n, v.starts n = true) → t.replication.Covered .server1 → (t.step v).2.replication.Covered .server1) := by
  rcases replication_step t v with ht | ⟨t', ht', i, state, owner, stamp, ht⟩ | ⟨timer, ht⟩ | ⟨server, rfl⟩ |
      ⟨stamp, rfl⟩
  · rw [ht]
    exact ⟨h, .of_stores rfl, fun _ hc => hc⟩
  · rw [ht, ← ht']
    rw [← ht'] at h
    exact publish_trails h i state owner stamp _
  · rw [ht]
    exact ⟨(h.fire timer).1, (h.fire timer).2, fun _ hc => hc.fire h timer⟩
  · obtain ⟨h1, h2, h3, -⟩ := pushRecovery_trails h ha
    exact ⟨h1, h2, fun _ => h3⟩
  · exact absurd rfl (hr stamp)

end Tables

def Event.TimersStart : Event → Prop
  | .attempt _ env _ => ∀ n, env.starts n = true
  | .confirm _ env => ∀ n, env.starts n = true
  | _ => True

namespace Site

open Replication

abbrev replication (s : Site) : Replication ServerId := s.app.tables.replication

theorem starts_moves {s : Site} {e : Event} (h : e.TimersStart) {v : Move} (hv : v ∈ s.moves e) (n : ℕ) :
    v.starts n = true := by
  rcases mem_moves hv with ⟨_, _, _, _, rfl, -, rfl | ⟨_, -, rfl⟩⟩ | ⟨_, _, rfl, rfl⟩ | ⟨_, -, rfl⟩ | ⟨_, _, -, rfl⟩ |
    ⟨_, _, _, -, rfl⟩ | ⟨_, -, rfl⟩ | ⟨_, -, rfl⟩ | ⟨_, -, rfl⟩
  case inl.inr => exact h n
  case inr.inl => exact h n
  all_goals rfl

theorem trails_step {s : Site} {e : Event} (h : s.replication.Trails .server1) (hr : ∀ stamp, e ≠ .reset stamp) :
    (step s e).2.replication.Trails .server1 ∧ Grows s.replication (step s e).2.replication ∧
      (e.TimersStart → s.replication.Covered .server1 → (step s e).2.replication.Covered .server1) := by
  have hmoves : ∀ v ∈ s.moves e, ∀ t : Tables, ∀ stamp, v ≠ .reset stamp := by
    rintro v hv - stamp rfl
    exact hr stamp (reset_mem_moves hv)
  have hal := along_and (s.moves_allowed e) (along_of_mem hmoves)
  unfold replication
  rw [tables_step]
  obtain ⟨htrails, hgrows⟩ :=
    invariant_along (P := fun t => t.replication.Trails .server1 ∧ Grows s.replication t.replication)
      ⟨h, .of_stores rfl⟩ (fun t v ht hg => by
        obtain ⟨h1, h2, -⟩ := Tables.trails_step ht.1 hg.1 hg.2
        exact ⟨h1, ht.2.trans h2⟩) _ hal
  refine ⟨htrails, hgrows, fun hs hc => ?_⟩
  have hstart := along_and hal (along_of_mem (G := fun _ v => ∀ n, Move.starts v n = true)
    fun v hv _ => starts_moves hs hv)
  refine (invariant_along (P := fun t => t.replication.Trails .server1 ∧ t.replication.Covered .server1) ⟨h, hc⟩
    (fun t v ht hg => ?_) _ hstart).2
  obtain ⟨h1, -, h3⟩ := Tables.trails_step ht.1 hg.1.1 hg.1.2
  exact ⟨h1, h3 hg.2 ht.2⟩

theorem inStep_init (b : Boot) (k : ServerId) (i : ℤ) : b.site.replication.InStep .server1 k i := by
  have hget := fun k => (StateStore.initializeSeats_new (toString k) (b.stamp k) seatCount).2 i
  show Option.Rel _ (((StateStore.new (toString k)).initializeSeats seatCount (b.stamp k)).getSeat i)
    (((StateStore.new (toString ServerId.server1)).initializeSeats seatCount (b.stamp .server1)).getSeat i)
  rw [hget, hget]
  split
  · exact .some ⟨rfl, rfl⟩
  · exact .none

theorem trails_init (b : Boot) : b.site.replication.Trails .server1 := by
  obtain ⟨hclock, hget⟩ := StateStore.initializeSeats_new (toString ServerId.server1) (b.stamp .server1) seatCount
  have hnone : ∀ timer d, b.site.replication.timers.get? timer ≠ some d := fun _ _ => nofun
  refine ⟨fun i p hp => ?_, fun k i => ?_, fun timer d hd => absurd hd (hnone timer d), fun timer d hd =>
    absurd hd (hnone timer d)⟩
  · have hp' := (hget i).symm.trans hp
    split at hp'
    · rename_i hi
      obtain rfl := Option.some.inj hp'
      exact ⟨rfl, le_trans hi.2 (le_of_eq hclock.symm)⟩
    · cases hp'
  · exact (inStep_init b k i).behind

theorem trails_run {s : Site} (h : s.replication.Trails .server1) {es : List Event} (hr : ∀ stamp, .reset stamp ∉ es) :
    (run step s es).replication.Trails .server1 ∧ Grows s.replication (run step s es).replication ∧
      ((∀ e ∈ es, e.TimersStart) → s.replication.Covered .server1 → (run step s es).replication.Covered .server1) := by
  induction es using List.reverseRecOn with
  | nil => exact ⟨h, .of_stores rfl, fun _ hc => hc⟩
  | append_singleton es e ih =>
    obtain ⟨h1, h2, h3⟩ := ih fun stamp hm => hr stamp (List.mem_append_left _ hm)
    obtain ⟨h4, h5, h6⟩ := trails_step (e := e) h1 fun stamp he => hr stamp (by simp [he])
    rw [run_snoc]
    refine ⟨h4, h2.trans h5, fun hs hc => h6 (hs e (by simp)) (h3 (fun e' he' => hs e' ?_) hc)⟩
    exact List.mem_append_left _ he'

/-- **Bringing a server back online pushes it a full copy.** -/
theorem moves_toggle {s : Site} {id : ServerId} (hne : id ≠ .server1) (hoff : (s.app.cluster.servers id).online = false)
    (env : Env) : s.moves (.toggle (toString id) env) = [.push id] := by
  have hfind : serverIds.find? (fun x => decide (toString x = toString id)) = some id := by
    cases id <;> decide
  have hon : ((s.app.cluster.toggle id (env.time 0)).servers id).online = true := by
    simp only [Cluster.toggle, Function.update_self, hoff, Bool.not_false]
  simp only [moves, hfind]
  rw [if_pos ⟨hon, hne⟩]

/-- **Replica convergence with one primary.**  Along every run without a reset each copy trails the primary's; with the
timers started and none outstanding all stores agree; and a server brought back online agrees with the primary at every
seat, after which none of its copies goes back, and it agrees on every seat the primary has not written since. -/
theorem replicas_converge (b : Boot) (es : List Event) (hr : ∀ stamp, .reset stamp ∉ es) :
    (∀ k i, Option.Rel SeatState.Behind (((run step b.site es).replication.stores k).getSeat i)
      (((run step b.site es).replication.stores .server1).getSeat i)) ∧
    ((∀ e ∈ es, e.TimersStart) → (∀ timer, (run step b.site es).replication.timers.get? timer = none) →
      ∀ k i, (run step b.site es).replication.InStep .server1 k i) ∧
    ∀ id env, id ≠ .server1 → ((run step b.site es).app.cluster.servers id).online = false →
      (∀ i, (step (run step b.site es) (.toggle (toString id) env)).2.replication.InStep .server1 id i) ∧
      ∀ mid, (∀ stamp, .reset stamp ∉ mid) → ∀ back,
        back = (step (run step b.site es) (.toggle (toString id) env)).2 →
        ∀ i c, (back.replication.stores id).getSeat i = some c →
          ∃ c', ((run step back mid).replication.stores id).getSeat i = some c' ∧ c.version ≤ c'.version ∧
            (((run step back mid).replication.stores .server1).getSeat i =
                (back.replication.stores .server1).getSeat i →
              (run step back mid).replication.InStep .server1 id i) := by
  obtain ⟨h, -, hcov⟩ := trails_run (trails_init b) hr
  refine ⟨h.stored, fun hs ht k i => ?_, fun id env hne hoff => ?_⟩
  · rcases hcov hs (fun k i => Or.inl (inStep_init b k i)) k i with hin | ⟨timer, d, -, hd, -⟩
    · exact hin
    · exact absurd ((ht timer).symm.trans hd) nofun
  · have hstep : (step (run step b.site es) (.toggle (toString id) env)).2.replication =
        ((run step b.site es).app.tables.pushRecovery id).replication := by
      unfold replication
      rw [tables_step, moves_toggle hne hoff]
      rfl
    obtain ⟨h1, -, -, h4⟩ := Tables.pushRecovery_trails h hne
    rw [hstep]
    refine ⟨h4, ?_⟩
    rintro mid hmid back hback i c hc
    have hrep : back.replication = ((run step b.site es).app.tables.pushRecovery id).replication := by
      rw [hback, hstep]
    have htr : back.replication.Trails .server1 := by rw [hrep]; exact h1
    have hin : back.replication.InStep .server1 id i := by rw [hrep]; exact h4 i
    obtain ⟨hlast, hgrows, -⟩ := trails_run htr hmid
    obtain ⟨c', hc', hle⟩ := hgrows id i c hc
    exact ⟨c', hc', hle, hin.of_grows hgrows hlast⟩

/-- The lock of `oneLock`, and both its deliveries. -/
def delivered : List Event := oneLock ++ [.deliver 1, .deliver 0]

theorem replicas_converge_delivered : (run step Boot.calm.site delivered).replication.InStep .server1 .server2 1 := by
  have hitems : (run step Boot.calm.site delivered).replication.timers.items = [] := by decide +kernel
  have hstart : ∀ e ∈ delivered, e.TimersStart := by simp [delivered, oneLock, Event.TimersStart, Env.calm]
  have hnone : ∀ timer, (run step Boot.calm.site delivered).replication.timers.get? timer = none := by
    intro timer
    rw [Dict.get?, hitems]
    rfl
  obtain ⟨-, hagree, -⟩ := replicas_converge .calm delivered (by simp [delivered, oneLock])
  exact hagree hstart hnone .server2 1

end Site
end Ticket
