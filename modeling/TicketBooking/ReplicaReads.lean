import TicketBooking.Convergence
import TicketBooking.SilentExpiry
/-!
# ReplicaReads — what a replica may show

Copies are only ever taken from the primary, so in every run, with resets and deliveries left over from before them, a
replica shows for each seat what the primary has shown for it at some point (`reads_history`).  Without a reset it never
shows less than it has, and how far back that point can lie is told by the timers: once those started before a point
have fired, every replica shows what the primary showed at that point or after it (`caught_up`).
-/
namespace Ticket

open Runs

namespace Replication

variable {ι : Type} [DecidableEq ι] {r r' : Replication ι} {H : SeatState → Prop}

/-- Every copy, in a store or in flight, is one of `H`, and the stores file it under its seat. -/
structure Drawn (H : SeatState → Prop) (r : Replication ι) : Prop where
  stored : ∀ k i c, (r.stores k).getSeat i = some c → c.seatId = i ∧ H c
  flying : ∀ timer d, r.timers.get? timer = some d → H d.seat

omit [DecidableEq ι] in
theorem Drawn.mono {H' : SeatState → Prop} (h : r.Drawn H) (hH : ∀ c, H c → H' c) : r.Drawn H' := by
  refine ⟨fun k i c hc => ?_, fun timer d hd => hH _ (h.flying timer d hd)⟩
  obtain ⟨hid, hc⟩ := h.stored k i c hc
  exact ⟨hid, hH c hc⟩

/-- **A store keeps one of the two copies** when one arrives. -/
theorem Drawn.apply (h : r.Drawn H) (peer : ι) {seat : SeatState} (hs : H seat) : (r.apply peer seat).Drawn H := by
  refine ⟨fun k i c hc => ?_, h.flying⟩
  unfold Replication.apply at hc
  by_cases hk : k = peer
  · subst hk
    simp only [Function.update_self, StateStore.getSeat_applyRemoteUpdate] at hc
    split at hc
    · rename_i hi
      subst hi
      rw [← Option.some.inj hc]
      cases ho : (r.stores k).getSeat seat.seatId with
      | none => exact ⟨rfl, hs⟩
      | some own =>
        rw [Option.map_some, Option.getD_some]
        rcases Versioned.merge_choice SeatState.version own seat with hm | hm
        · rw [hm]
          exact h.stored k _ own ho
        · rw [hm]
          exact ⟨rfl, hs⟩
    · exact h.stored k i c hc
  · simp only [Function.update_of_ne hk] at hc
    exact h.stored k i c hc

theorem Drawn.fire (h : r.Drawn H) (timer : ℕ) : (r.fire timer).Drawn H := by
  cases hd : r.timers.get? timer with
  | none =>
    rw [fire_of_none hd]
    exact h
  | some d =>
    obtain ⟨hs, ht, -⟩ := fire_of_some hd
    refine ⟨?_, fun j d' hd' => ?_⟩
    · rw [hs]
      exact (h.apply d.peer (h.flying timer d hd)).stored
    · rw [ht, Dict.get?_erase] at hd'
      split at hd'
      · cases hd'
      · exact h.flying j d' hd'

theorem Drawn.receive (server : ι) : ∀ (seats : List SeatState) (r : Replication ι), r.Drawn H → (∀ c ∈ seats, H c) →
    (r.receiveSyncUpdates server seats).Drawn H
  | [], _, h, _ => h
  | c :: seats, r, h, hs =>
    Drawn.receive server seats (r.apply server c) (h.apply server (hs c List.mem_cons_self))
      fun c' hc' => hs c' (List.mem_cons_of_mem c hc')

theorem receiveSyncUpdates_started (server : ι) : ∀ (seats : List SeatState) (r : Replication ι),
    (r.receiveSyncUpdates server seats).started = r.started
  | [], _ => rfl
  | c :: seats, r => receiveSyncUpdates_started server seats (r.apply server c)

omit [DecidableEq ι] in
theorem Drawn.broadcast {seat : SeatState} (hs : H seat) : ∀ (peers : List ι) (starts : ℕ → Bool) (r : Replication ι),
    r.Drawn H → (r.broadcastWithDelay seat peers starts).2.Drawn H
  | [], _, _, h => h
  | peer :: peers, starts, r, h => by
    unfold broadcastWithDelay
    split
    · refine Drawn.broadcast hs peers _ _ ⟨h.stored, fun timer d hd => ?_⟩
      rw [schedule_timers] at hd
      split at hd
      · rw [← Option.some.inj hd]
        exact hs
      · exact h.flying timer d hd
    · exact h

/-! ## Deliveries that are due -/

/-- Store `k` has seat `i` in version `v` at least, or one of the first `n` timers will bring it. -/
def Due (n : ℕ) (k : ι) (i v : ℤ) (r : Replication ι) : Prop :=
  (∃ c, (r.stores k).getSeat i = some c ∧ v ≤ c.version) ∨
    ∃ timer < n, ∃ d, r.timers.get? timer = some d ∧ d.peer = k ∧ d.seat.seatId = i ∧ v ≤ d.seat.version

/-- No timer so far is lost. -/
structure Retains (r r' : Replication ι) : Prop where
  timers : ∀ timer d, timer < r.started → r.timers.get? timer = some d → r'.timers.get? timer = some d
  started : r.started ≤ r'.started

omit [DecidableEq ι] in
theorem Retains.refl (r : Replication ι) : Retains r r := ⟨fun _ _ _ hd => hd, le_rfl⟩

omit [DecidableEq ι] in
theorem Retains.trans {r'' : Replication ι} (h : Retains r r') (h' : Retains r' r'') : Retains r r'' :=
  ⟨fun timer d hlt hd => h'.timers timer d (lt_of_lt_of_le hlt h.started) (h.timers timer d hlt hd),
    le_trans h.started h'.started⟩

omit [DecidableEq ι] in
theorem Retains.broadcast (seat : SeatState) : ∀ (peers : List ι) (starts : ℕ → Bool) (r : Replication ι),
    Retains r (r.broadcastWithDelay seat peers starts).2
  | [], _, r => .refl r
  | peer :: peers, starts, r => by
    unfold broadcastWithDelay
    split
    · have hfirst : Retains r (r.schedule peer seat) := by
        refine ⟨fun timer d hlt hd => ?_, Nat.le_succ _⟩
        rw [schedule_timers, if_neg (ne_of_lt hlt)]
        exact hd
      exact hfirst.trans (Retains.broadcast seat peers _ _)
    · exact .refl r

variable {n : ℕ} {k : ι} {i v : ℤ}

omit [DecidableEq ι] in
theorem Due.of_retains (h : r.Due n k i v) (hn : n ≤ r.started) (hg : Grows r r') (hr : Retains r r') :
    r'.Due n k i v := by
  rcases h with ⟨c, hc, hv⟩ | ⟨timer, hlt, d, hd, hrest⟩
  · obtain ⟨c', hc', hle⟩ := hg k i c hc
    exact Or.inl ⟨c', hc', hv.trans hle⟩
  · exact Or.inr ⟨timer, hlt, d, hr.timers timer d (lt_of_lt_of_le hlt hn) hd, hrest⟩

/-- **The timer that fires has brought what was due from it.** -/
theorem Due.fire (h : r.Due n k i v) (timer : ℕ) (hg : Grows r (r.fire timer)) : (r.fire timer).Due n k i v := by
  rcases h with ⟨c, hc, hv⟩ | ⟨timer', hlt, d, hd, rfl, rfl, hv⟩
  · obtain ⟨c', hc', hle⟩ := hg k i c hc
    exact Or.inl ⟨c', hc', hv.trans hle⟩
  · cases hf : r.timers.get? timer with
    | none =>
      rw [fire_of_none hf]
      exact Or.inr ⟨timer', hlt, d, hd, rfl, rfl, hv⟩
    | some f =>
      obtain ⟨hs, ht, -⟩ := fire_of_some hf
      by_cases htt : timer' = timer
      · subst htt
        obtain rfl := Option.some.inj (hf.symm.trans hd)
        have hstore : (r.fire timer').stores f.peer = (r.stores f.peer).applyRemoteUpdate f.seat := by
          rw [hs]
          exact Function.update_self _ _ _
        refine Or.inl ?_
        rw [hstore, StateStore.getSeat_applyRemoteUpdate, if_pos rfl]
        cases (r.stores f.peer).getSeat f.seat.seatId with
        | none => exact ⟨_, rfl, hv⟩
        | some own => exact ⟨_, rfl, hv.trans (Versioned.remote_le_merge own f.seat)⟩
      · refine Or.inr ⟨timer', hlt, d, ?_, rfl, rfl, hv⟩
        rw [ht, Dict.get?_erase_of_ne _ htt]
        exact hd

end Replication

namespace Site

open Replication

variable {s : Site} {e : Event}

/-- **What a step does to the replicas**: nothing, a publication, a delivery, a full copy to a peer, or a reset. -/
theorem replication_step (s : Site) (e : Event) :
    (step s e).2.replication = s.replication ∨
    (∃ t : Tables, t.replication = s.replication ∧ ∃ i state owner stamp starts,
      (step s e).2.replication = (t.publish i state owner stamp starts).2.replication) ∨
    (∃ timer, (step s e).2.replication = s.replication.fire timer) ∨
    (∃ server, server ≠ .server1 ∧
      (step s e).2.replication = s.replication.receiveSyncUpdates server s.app.tables.primary.listSeats) ∨
    ∃ stamp, e = .reset stamp := by
  have hone : ∀ (t : Tables) (v : Move), t.replication = s.replication → t.Allowed v → v ∈ s.moves e →
      (step s e).2.replication = (t.step v).2.replication →
      (step s e).2.replication = s.replication ∨
      (∃ t : Tables, t.replication = s.replication ∧ ∃ i state owner stamp starts,
        (step s e).2.replication = (t.publish i state owner stamp starts).2.replication) ∨
      (∃ timer, (step s e).2.replication = s.replication.fire timer) ∨
      (∃ server, server ≠ .server1 ∧
        (step s e).2.replication = s.replication.receiveSyncUpdates server s.app.tables.primary.listSeats) ∨
      ∃ stamp, e = .reset stamp := by
    intro t v ht ha hv hstep
    rw [hstep]
    rcases Tables.replication_step t v with h | ⟨t', ht', i, state, owner, stamp, h⟩ | ⟨timer, h⟩ | ⟨server, rfl⟩ |
      ⟨stamp, rfl⟩
    · exact Or.inl (h.trans ht)
    · exact Or.inr (Or.inl ⟨t', ht'.trans ht, i, state, owner, stamp, v.starts, h⟩)
    · exact Or.inr (Or.inr (Or.inl ⟨timer, ht ▸ h⟩))
    · refine Or.inr (Or.inr (Or.inr (Or.inl ⟨server, ha, ?_⟩)))
      show t.replication.receiveSyncUpdates server (t.replication.stores .server1).listSeats = _
      rw [ht]
    · exact Or.inr (Or.inr (Or.inr (Or.inr ⟨stamp, reset_mem_moves hv⟩)))
  have htables := tables_step s e
  have hallowed := s.moves_allowed e
  rcases moves_shape s e with hm | ⟨v, hm⟩ | ⟨now, v, hm⟩
  · rw [hm] at htables
    exact Or.inl (congrArg Tables.replication htables)
  · rw [hm] at htables hallowed
    exact hone s.app.tables v rfl hallowed.1 (by rw [hm]; exact List.mem_singleton_self v)
      (congrArg Tables.replication htables)
  · rw [hm] at htables hallowed
    exact hone (s.app.tables.step (.sweep now)).2 v rfl hallowed.2.1 (by rw [hm]; simp)
      (congrArg Tables.replication htables)

theorem reset_stores (s : Site) (stamp : ServerId → ℕ → Time) (k : ServerId) (i : ℤ) :
    ((step s (.reset stamp)).2.replication.stores k).getSeat i =
      if 1 ≤ i ∧ i ≤ (seatCount : ℤ) then some ⟨i, .available, stamp k (i - 1).toNat, "", i⟩ else none :=
  (StateStore.initializeSeats_new (toString k) (stamp k) seatCount).2 i

/-- **A step hands on copies it found**, or ones that agree with what it leaves the primary. -/
theorem drawn_step {H : SeatState → Prop} (h : s.replication.Drawn H) (e : Event)
    (hH : ∀ c p, ((step s e).2.replication.stores .server1).getSeat c.seatId = some p → c.Agrees p → H c) :
    (step s e).2.replication.Drawn H := by
  rcases replication_step s e with hr | ⟨t, ht, i, state, owner, stamp, starts, hr⟩ | ⟨timer, hr⟩ | ⟨server, -, hr⟩ |
    ⟨stamp, rfl⟩
  · rw [hr]
    exact h
  · rw [hr] at hH ⊢
    cases ho : t.primary.getSeat i with
    | none =>
      rw [Tables.publish_none t i state owner stamp starts ho, ht]
      exact h
    | some own =>
      rw [Tables.publish_stores, Function.update_self] at hH
      have hget := StateStore.updateSeat_getSeat ho state owner stamp
      have hnew : H ⟨i, state, stamp, owner, t.primary.versionClock + 1⟩ := by
        refine hH _ _ ?_ ⟨rfl, rfl⟩
        rw [hget, if_pos rfl]
      rw [Tables.publish_some t i state owner stamp starts ho]
      refine Drawn.broadcast hnew _ _ _ ⟨fun k j c hc => ?_, ?_⟩
      · by_cases hk : k = .server1
        · subst hk
          simp only [Function.update_self, hget] at hc
          split at hc
          · rename_i hj
            obtain rfl := Option.some.inj hc
            exact ⟨hj.symm, hnew⟩
          · exact (ht ▸ h).stored _ j c hc
        · simp only [Function.update_of_ne hk] at hc
          exact (ht ▸ h).stored k j c hc
      · exact (ht ▸ h).flying
  · rw [hr]
    exact h.fire timer
  · rw [hr]
    refine Drawn.receive server _ _ h fun c hc => ?_
    obtain ⟨i, hi⟩ := (Dict.mem_values_iff _ _).1 hc
    exact (h.stored .server1 i c hi).2
  · refine ⟨fun k i c hc => ?_, h.flying⟩
    rw [reset_stores] at hc
    split at hc
    · rename_i hi
      obtain rfl := Option.some.inj hc
      refine ⟨rfl, hH _ ⟨i, .available, stamp .server1 (i - 1).toNat, "", i⟩ ?_ ⟨rfl, rfl⟩⟩
      rw [reset_stores]
      exact if_pos hi
    · cases hc

/-- The primary showed the copy's version and content for its seat, at some point of the run from `s`. -/
def Shown (s : Site) (es : List Event) (c : SeatState) : Prop :=
  ∃ pre post, es = pre ++ post ∧ ∃ p, ((run step s pre).replication.stores .server1).getSeat c.seatId = some p ∧
    c.Agrees p

theorem Shown.snoc {es : List Event} {c : SeatState} (h : s.Shown es c) (e : Event) : s.Shown (es ++ [e]) c := by
  obtain ⟨pre, post, rfl, hp⟩ := h
  exact ⟨pre, post ++ [e], List.append_assoc _ _ _, hp⟩

/-- **Along a run, a copy is an old one or was shown by the primary in the meantime.** -/
theorem drawn_run {H : SeatState → Prop} (h : s.replication.Drawn (fun c => H c ∨ s.Shown [] c)) (es : List Event) :
    (run step s es).replication.Drawn (fun c => H c ∨ s.Shown es c) := by
  induction es using List.reverseRecOn with
  | nil => exact h
  | append_singleton es e ih =>
    rw [run_snoc]
    have hold : (run step s es).replication.Drawn (fun c => H c ∨ s.Shown (es ++ [e]) c) :=
      ih.mono fun c hc => hc.imp_right fun hs => hs.snoc e
    refine drawn_step hold e fun c p hp ha => Or.inr ⟨es ++ [e], [], (List.append_nil _).symm, p, ?_, ha⟩
    rw [run_snoc]
    exact hp

theorem drawn_init (b : Boot) : b.site.replication.Drawn (b.site.Shown []) := by
  have hget := fun k => (StateStore.initializeSeats_new (toString k) (b.stamp k) seatCount).2
  refine ⟨fun k i c hc => ?_, fun timer d hd => absurd hd nofun⟩
  have hc' := (hget k i).symm.trans hc
  split at hc'
  · rename_i hi
    obtain rfl := Option.some.inj hc'
    refine ⟨rfl, [], [], rfl, ⟨i, .available, b.stamp .server1 (i - 1).toNat, "", i⟩, ?_, ⟨rfl, rfl⟩⟩
    exact (hget .server1 i).trans (if_pos hi)
  · cases hc'

/-- **A replica shows only what the primary has shown**, in every run: the version, state and owner of each copy are the
ones the primary had for that seat at some earlier point.  Without a reset a replica never goes back among them. -/
theorem reads_history (b : Boot) (es : List Event) (k : ServerId) (i : ℤ) (c : SeatState)
    (hc : ((run step b.site es).replication.stores k).getSeat i = some c) :
    (∃ pre post p, es = pre ++ post ∧ ((run step b.site pre).replication.stores .server1).getSeat i = some p ∧
      c.Agrees p) ∧
    ((∀ stamp, .reset stamp ∉ es) → ∀ pre post c', es = pre ++ post →
      ((run step b.site pre).replication.stores k).getSeat i = some c' → c'.version ≤ c.version) := by
  refine ⟨?_, ?_⟩
  · have hdrawn := drawn_run (H := fun _ => False) ((drawn_init b).mono fun c hs => Or.inr hs) es
    obtain ⟨hid, hshown⟩ := hdrawn.stored k i c hc
    obtain ⟨pre, post, he, p, hp, ha⟩ := hshown.resolve_left id
    exact ⟨pre, post, p, he, hid ▸ hp, ha⟩
  · rintro hr pre post c' rfl hc'
    obtain ⟨htrails, -, -⟩ := trails_run (trails_init b) fun stamp hm => hr stamp (List.mem_append_left _ hm)
    obtain ⟨-, hgrows, -⟩ := trails_run htrails fun stamp hm => hr stamp (List.mem_append_right _ hm)
    rw [run_append] at hc
    obtain ⟨c'', hc'', hle⟩ := hgrows k i c' hc'
    obtain rfl := Option.some.inj (hc.symm.trans hc'')
    exact hle

/-- Server 2 has the lock of `delivered`, which the primary had first. -/
theorem reads_history_delivered : ∃ pre post p, delivered = pre ++ post ∧
    ((run step Boot.calm.site pre).replication.stores .server1).getSeat 1 = some p ∧
      SeatState.Agrees ⟨1, .locked, 0, "Ann", 21⟩ p :=
  (reads_history Boot.calm delivered .server2 1 ⟨1, .locked, 0, "Ann", 21⟩ (by decide +kernel)).1

/-! ## Catching up -/

/-- **A step takes away nothing that is due.** -/
theorem due_step {n : ℕ} {k : ServerId} {i v : ℤ} (ht : s.replication.Trails .server1)
    (hr : ∀ stamp, e ≠ .reset stamp) (h : n ≤ s.replication.started ∧ s.replication.Due n k i v) :
    n ≤ (step s e).2.replication.started ∧ (step s e).2.replication.Due n k i v := by
  obtain ⟨hn, hdue⟩ := h
  have hgrows := (trails_step ht hr).2.1
  have hretains : Retains s.replication (step s e).2.replication →
      n ≤ (step s e).2.replication.started ∧ (step s e).2.replication.Due n k i v :=
    fun hret => ⟨hn.trans hret.started, hdue.of_retains hn hgrows hret⟩
  rcases replication_step s e with hs | ⟨t, hts, j, state, owner, stamp, starts, hs⟩ | ⟨timer, hs⟩ |
    ⟨server, -, hs⟩ | ⟨stamp, rfl⟩
  · exact hretains (hs ▸ .refl _)
  · refine hretains ?_
    rw [hs, ← hts]
    cases ho : t.primary.getSeat j with
    | none =>
      rw [Tables.publish_none t j state owner stamp starts ho]
      exact .refl _
    | some own =>
      rw [Tables.publish_some t j state owner stamp starts ho]
      have hsent := Retains.broadcast (ι := ServerId) ⟨j, state, stamp, owner, t.primary.versionClock + 1⟩ peers starts
        { t.replication with
          stores := Function.update t.replication.stores .server1 (t.primary.updateSeat j state owner stamp).2 }
      exact ⟨hsent.timers, hsent.started⟩
  · rw [hs] at hgrows ⊢
    refine ⟨?_, hdue.fire timer hgrows⟩
    cases hd : s.replication.timers.get? timer with
    | none =>
      rw [fire_of_none hd]
      exact hn
    | some d =>
      rw [(fire_of_some hd).2.2]
      exact hn
  · refine hretains ?_
    rw [hs]
    refine ⟨fun j d _ hd => ?_, ?_⟩
    · rw [receiveSyncUpdates_timers]
      exact hd
    · rw [receiveSyncUpdates_started]
  · exact absurd rfl (hr stamp)

theorem due_run {n : ℕ} {k : ServerId} {i v : ℤ} (ht : s.replication.Trails .server1) {es : List Event}
    (hr : ∀ stamp, .reset stamp ∉ es) (hn : n ≤ s.replication.started) (h : s.replication.Due n k i v) :
    (run step s es).replication.Due n k i v := by
  have hes : Along step (fun _ e => ∀ stamp, e ≠ .reset stamp) s es :=
    along_of_mem fun e he _ stamp hst => hr stamp (hst ▸ he)
  refine (invariant_along (P := fun s : Site => s.replication.Trails .server1 ∧ n ≤ s.replication.started ∧
    s.replication.Due n k i v) ⟨ht, hn, h⟩ (fun s e hp hne => ?_) es hes).2.2
  exact ⟨(trails_step hp.1 hne).1, due_step hp.1 hne hp.2⟩

/-- **Replicas catch up**: along a run without a reset whose timers start, once every timer started before a point has
fired, each replica's copy of each seat is one the primary had at that point or later. -/
theorem caught_up (b : Boot) (pre post : List Event) (hr : ∀ stamp, .reset stamp ∉ pre ++ post)
    (hs : ∀ e ∈ pre, e.TimersStart)
    (ho : ∀ timer < (run step b.site pre).replication.started,
      (run step b.site (pre ++ post)).replication.timers.get? timer = none)
    (k : ServerId) (i : ℤ) (p : SeatState)
    (hp : ((run step b.site pre).replication.stores .server1).getSeat i = some p) :
    ∃ c mid rest q, ((run step b.site (pre ++ post)).replication.stores k).getSeat i = some c ∧ post = mid ++ rest ∧
      ((run step b.site (pre ++ mid)).replication.stores .server1).getSeat i = some q ∧ c.Agrees q := by
  have hpre : ∀ stamp, .reset stamp ∉ pre := fun stamp hm => hr stamp (List.mem_append_left _ hm)
  have hpost : ∀ stamp, .reset stamp ∉ post := fun stamp hm => hr stamp (List.mem_append_right _ hm)
  obtain ⟨htrails, -, hcov⟩ := trails_run (trails_init b) hpre
  have hcovered := hcov hs fun k i => Or.inl (inStep_init b k i)
  have hdrawn := drawn_run (H := fun _ => False) ((drawn_init b).mono fun c hs => Or.inr hs) pre
  simp only [run_append] at ho ⊢
  generalize run step b.site pre = s at *
  -- what store `k` is to have, it has or a timer started by then will bring
  have hdue : s.replication.Due s.replication.started k i p.version := by
    rcases hcovered k i with hin | ⟨timer, d, q, hd, hk, hi, hq, ha⟩
    · unfold InStep at hin
      rw [hp] at hin
      cases hc : (s.replication.stores k).getSeat i with
      | none =>
        rw [hc] at hin
        cases hin
      | some c =>
        rw [hc] at hin
        cases hin with
        | some ha => exact Or.inl ⟨c, hc, le_of_eq ha.1.symm⟩
    · obtain rfl := Option.some.inj (hp.symm.trans hq)
      exact Or.inr ⟨timer, htrails.numbered timer d hd, d, hd, hk, hi, le_of_eq ha.1.symm⟩
  obtain ⟨c, hc, hle⟩ : ∃ c, ((run step s post).replication.stores k).getSeat i = some c ∧ p.version ≤ c.version := by
    rcases due_run htrails hpost le_rfl hdue with hc | ⟨timer, hlt, d, hd, -⟩
    · exact hc
    · exact absurd ((ho timer hlt).symm.trans hd) nofun
  -- a copy from before the point is an older version, or the one the primary had then
  have hold : s.replication.Drawn (fun c => (c.seatId = i → c.version < p.version) ∨ s.Shown [] c) := by
    have hbehind : ∀ c q, (s.replication.stores .server1).getSeat c.seatId = some q → c.Behind q →
        (c.seatId = i → c.version < p.version) ∨ s.Shown [] c := by
      intro c q hq hb
      by_cases hv : c.version = q.version
      · exact Or.inr ⟨[], [], rfl, q, hq, hv, hb.2 hv⟩
      · refine Or.inl fun hi => ?_
        rw [hi] at hq
        obtain rfl := Option.some.inj (hp.symm.trans hq)
        exact lt_of_le_of_ne hb.1 hv
    refine ⟨fun k j c hc => ?_, fun timer d hd => ?_⟩
    · have hid := (hdrawn.stored k j c hc).1
      have hk := htrails.stored k j
      rw [hc] at hk
      refine ⟨hid, ?_⟩
      cases hq : (s.replication.stores .server1).getSeat j with
      | none =>
        rw [hq] at hk
        cases hk
      | some q =>
        rw [hq] at hk
        cases hk with
        | some hb => exact hbehind c q (hid ▸ hq) hb
    · obtain ⟨-, q, hq, hb⟩ := htrails.flying timer d hd
      exact hbehind d.seat q hq hb
  obtain ⟨hid, hcase⟩ := (drawn_run hold post).stored k i c hc
  obtain ⟨mid, rest, he, q, hq, ha⟩ := hcase.resolve_left fun hlt => absurd (hlt hid) (not_lt.2 hle)
  exact ⟨c, mid, rest, q, hc, he, hid ▸ hq, ha⟩

/-- Both deliveries of `oneLock` have fired, the later first. -/
theorem caught_up_delivered : ∃ c mid rest q,
    ((run step Boot.calm.site (oneLock ++ [.deliver 1, .deliver 0])).replication.stores .server3).getSeat 1 = some c ∧
      [.deliver 1, .deliver 0] = mid ++ rest ∧
      ((run step Boot.calm.site (oneLock ++ mid)).replication.stores .server1).getSeat 1 = some q ∧ c.Agrees q :=
  caught_up Boot.calm oneLock [.deliver 1, .deliver 0] (by simp [oneLock])
    (by simp [oneLock, Event.TimersStart, Env.calm]) (by decide +kernel) .server3 1 ⟨1, .locked, 0, "Ann", 21⟩
    (by decide +kernel)

end Site
end Ticket
