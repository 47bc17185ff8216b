import TicketBooking.Replicas
import TicketBooking.Runs
/-!
# MultiWriter — stores that all write (`synchronization/`)

`Mesh` is any number of stores, each with a replicator that sends every local write to all the others; a message in
flight may be applied at any later step.  The stores draw versions from clocks of their own, so two writes of a seat may
draw one version and keep their own content, and a write may draw a version below the copy it overwrites, which nobody
then accepts.  Once nothing is in flight the stores agree exactly when neither has been the last word on a seat
(`agree_iff_resolved`).
-/
namespace Ticket

open Runs

/-- The peers of a store's `StateReplicator`. -/
def StateStore.replicatorPeers (st : StateStore) (peers : List String) : List String :=
  peers.filter (fun p => decide (p ≠ st.serverId))

structure Mesh where
  servers : List String
  stores : String → StateStore
  /-- the updates sent and not applied, each with the peer it is for -/
  inFlight : List (String × SeatState)

inductive MeshEvent where
  /-- a server calls `update_seat`, and broadcasts the state it returns -/
  | update (server : String) (seatId : ℤ) (newState : SeatStatus) (owner : String) (now : Time)
  /-- a peer applies one of the updates in flight -/
  | deliver (message : ℕ)

namespace Mesh

/-- Stores initialised with the same seats. -/
def new (servers : List String) (seatCount : ℕ) (stamp : String → ℕ → Time) : Mesh :=
  ⟨servers, fun id => (StateStore.new id).initializeSeats seatCount (stamp id), []⟩

/-- `broadcast_update`: the callback of each peer puts the update in flight. -/
def broadcastUpdate (m : Mesh) (server : String) (seat : SeatState) : Mesh :=
  { m with inFlight := m.inFlight ++ ((m.stores server).replicatorPeers m.servers).map (fun p => (p, seat)) }

def step (m : Mesh) (e : MeshEvent) : Option SeatState × Mesh :=
  match e with
  | .update server seatId newState owner now =>
    if server ∈ m.servers then
      let r := (m.stores server).updateSeat seatId newState owner now
      let m := { m with stores := Function.update m.stores server r.2 }
      match r.1 with
      | none => (none, m)
      | some seat => (some seat, m.broadcastUpdate server seat)
    else (none, m)
  | .deliver message =>
    match m.inFlight[message]? with
    | none => (none, m)
    | some (peer, seat) =>
      (none, { m with
        stores := Function.update m.stores peer ((m.stores peer).applyRemoteUpdate seat)
        inFlight := m.inFlight.eraseIdx message })

/-- What a copy says, with its version. -/
def told (s : SeatState) : SeatStatus × String × ℤ := (s.state, s.owner, s.version)

/-- **All stores hold the same state, owner and version of every seat.** -/
def Agree (m : Mesh) : Prop :=
  ∀ a ∈ m.servers, ∀ b ∈ m.servers, ∀ i, ((m.stores a).getSeat i).map told = ((m.stores b).getSeat i).map told

/-- An update of the seat at version `v` is in flight to the server. -/
def OnItsWay (m : Mesh) (k : String) (i v : ℤ) : Prop :=
  ∃ seat, (k, seat) ∈ m.inFlight ∧ seat.seatId = i ∧ seat.version = v

/-! ## The writes of a run -/

section
variable (servers : List String) (seatCount : ℕ)

/-- The event is a write of `k`, of a seat there is. -/
def writtenBy (k : String) : MeshEvent → Bool
  | .update server seatId _ _ _ => decide (server = k ∧ server ∈ servers ∧ 1 ≤ seatId ∧ seatId ≤ seatCount)
  | .deliver _ => false

/-- The version the next write of `k` draws: its store has drawn one for every seat and every write so far. -/
def nextVersion (pre : List MeshEvent) (k : String) : ℤ := seatCount + pre.countP (writtenBy servers seatCount k) + 1

/-- After `pre`, the event writes content `c` to seat `i` at server `k` with version `v`. -/
def Draws (pre : List MeshEvent) (e : MeshEvent) (k : String) (i : ℤ) (c : SeatStatus × String) (v : ℤ) : Prop :=
  (∃ now, e = .update k i c.1 c.2 now) ∧ k ∈ servers ∧ (1 ≤ i ∧ i ≤ seatCount) ∧ v = nextVersion servers seatCount pre k

/-- Some event of `es`, after `before`, draws version `v` for seat `i`. -/
def DrawnIn (before es : List MeshEvent) (i v : ℤ) : Prop :=
  ∃ pre e post k c, es = pre ++ e :: post ∧ Draws servers seatCount (before ++ pre) e k i c v

/-- **The greatest version drawn for a seat in a run.** -/
def Top (es : List MeshEvent) (i v : ℤ) : Prop :=
  DrawnIn servers seatCount [] es i v ∧ ∀ w, DrawnIn servers seatCount [] es i w → w ≤ v

/-- **The conflicts of a run are resolved**: of each seat, the writes that draw the greatest version have one content,
and every write below it is made before some write that draws it, or while an update at it is on its way to the
writer. -/
def Resolved (stamp : String → ℕ → Time) (es : List MeshEvent) : Prop :=
  ∀ i v, Top servers seatCount es i v →
    (∀ pre e post k c pre' e' post' k' c', es = pre ++ e :: post → Draws servers seatCount pre e k i c v →
      es = pre' ++ e' :: post' → Draws servers seatCount pre' e' k' i c' v → c = c') ∧
    ∀ pre e post k c w, es = pre ++ e :: post → Draws servers seatCount pre e k i c w → w < v →
      OnItsWay (run step (new servers seatCount stamp) pre) k i v ∨ DrawnIn servers seatCount (pre ++ [e]) post i v

variable {servers seatCount} {pre es : List MeshEvent} {m : Mesh}

/-! ## What a step does -/

/-- What holds of every mesh after `pre`: the stores have the seats they were given and clocks that count their writes,
and what is in flight is of such a seat, for some server. -/
structure Formed (servers : List String) (seatCount : ℕ) (pre : List MeshEvent) (m : Mesh) : Prop where
  same : m.servers = servers
  ids : ∀ k, (m.stores k).serverId = k
  clock : ∀ k, (m.stores k).versionClock + 1 = nextVersion servers seatCount pre k
  seats : ∀ k i, ((m.stores k).getSeat i).isSome = true ↔ 1 ≤ i ∧ i ≤ (seatCount : ℤ)
  flights : ∀ d ∈ m.inFlight, d.1 ∈ servers ∧ 1 ≤ d.2.seatId ∧ d.2.seatId ≤ (seatCount : ℤ)

theorem nextVersion_snoc (pre : List MeshEvent) (e : MeshEvent) (k : String) :
    nextVersion servers seatCount (pre ++ [e]) k =
      nextVersion servers seatCount pre k + if writtenBy servers seatCount k e = true then 1 else 0 := by
  unfold nextVersion
  rw [List.countP_append, List.countP_singleton]
  split
  · push_cast
    ring
  · simp

/-- **What a step does to the copies and to what is in flight**: a write gives the writer's copy the next version and
sends it to everyone else; a delivery is merged by version; anything else does nothing. -/
inductive Change (servers : List String) (seatCount : ℕ) (pre : List MeshEvent) (e : MeshEvent) (m m' : Mesh) :
    Prop where
  | wrote {k : String} {i : ℤ} {c : SeatStatus × String} {v : ℤ} {seat : SeatState}
      (draws : Draws servers seatCount pre e k i c v) (id : seat.seatId = i) (content : seat.content = c)
      (version : seat.version = v)
      (copies : ∀ k' j, (m'.stores k').getSeat j = if k' = k ∧ j = i then some seat else (m.stores k').getSeat j)
      (sent : m'.inFlight = m.inFlight ++ (servers.filter (fun p => decide (p ≠ k))).map (fun p => (p, seat)))
  | applied {message : ℕ} {peer : String} {seat own : SeatState}
      (none : ∀ k i c v, ¬ Draws servers seatCount pre e k i c v)
      (taken : m.inFlight[message]? = some (peer, seat)) (own_eq : (m.stores peer).getSeat seat.seatId = some own)
      (copies : ∀ k j, (m'.stores k).getSeat j =
        if k = peer ∧ j = seat.seatId then some (Versioned.merge SeatState.version own seat)
        else (m.stores k).getSeat j)
      (left : m'.inFlight = m.inFlight.eraseIdx message)
  | idle (none : ∀ k i c v, ¬ Draws servers seatCount pre e k i c v)
      (copies : ∀ k j, (m'.stores k).getSeat j = (m.stores k).getSeat j) (left : m'.inFlight = m.inFlight)

theorem draws_update {server k : String} {i j : ℤ} {st : SeatStatus} {owner : String} {now : Time}
    {c : SeatStatus × String} {v : ℤ} (h : Draws servers seatCount pre (.update server j st owner now) k i c v) :
    k = server ∧ i = j ∧ c = (st, owner) ∧ server ∈ servers ∧ 1 ≤ j ∧ j ≤ (seatCount : ℤ) := by
  obtain ⟨⟨now', he⟩, hk, hrange, -⟩ := h
  cases he
  exact ⟨rfl, rfl, rfl, hk, hrange⟩

/-- An event that is no write of a seat there is changes nothing a store would draw from. -/
theorem Formed.snoc {e : MeshEvent} (h : Formed servers seatCount pre m)
    (hnone : ∀ k, writtenBy servers seatCount k e = false) : Formed servers seatCount (pre ++ [e]) m := by
  refine ⟨h.same, h.ids, fun k => ?_, h.seats, h.flights⟩
  rw [nextVersion_snoc, hnone, h.clock]
  simp

theorem change_update {server : String} {i : ℤ} {st : SeatStatus} {owner : String} {now : Time}
    (h : Formed servers seatCount pre m) :
    Change servers seatCount pre (.update server i st owner now) m (m.step (.update server i st owner now)).2 ∧
      Formed servers seatCount (pre ++ [.update server i st owner now]) (m.step (.update server i st owner now)).2 := by
  by_cases hw : server ∈ servers ∧ 1 ≤ i ∧ i ≤ (seatCount : ℤ)
  · obtain ⟨hs, hrange⟩ := hw
    obtain ⟨own, ho⟩ := Option.isSome_iff_exists.1 ((h.seats server i).2 hrange)
    have hclock := h.clock server
    set seat : SeatState := ⟨i, st, now, owner, (m.stores server).versionClock + 1⟩ with hseat
    obtain ⟨hservers, hstores, hsent⟩ : (m.step (.update server i st owner now)).2.servers = servers ∧
        (m.step (.update server i st owner now)).2.stores =
          Function.update m.stores server ((m.stores server).updateSeat i st owner now).2 ∧
        (m.step (.update server i st owner now)).2.inFlight =
          m.inFlight ++ (servers.filter (fun p => decide (p ≠ server))).map (fun p => (p, seat)) := by
      simp only [step, h.same, if_pos hs, StateStore.updateSeat_some ho, broadcastUpdate, Function.update_self,
        StateStore.replicatorPeers, h.ids server, hseat, and_self]
    have hcopies : ∀ k j, ((m.step (.update server i st owner now)).2.stores k).getSeat j =
        if k = server ∧ j = i then some seat else (m.stores k).getSeat j := by
      intro k j
      rw [hstores]
      by_cases hk : k = server
      · subst hk
        simp only [Function.update_self, StateStore.updateSeat_getSeat ho, true_and, hseat]
      · simp only [Function.update_of_ne hk, hk, false_and, if_false]
    refine ⟨.wrote ⟨⟨now, rfl⟩, hs, hrange, hclock⟩ rfl rfl rfl hcopies hsent, ?_⟩
    refine ⟨hservers, fun k => ?_, fun k => ?_, fun k j => ?_, fun d hd => ?_⟩
    · rw [hstores]
      by_cases hk : k = server
      · subst hk
        rw [Function.update_self, StateStore.updateSeat_serverId, h.ids]
      · rw [Function.update_of_ne hk, h.ids]
    · rw [hstores, nextVersion_snoc]
      by_cases hk : k = server
      · subst hk
        rw [Function.update_self, StateStore.updateSeat_some ho, if_pos (by simp [writtenBy, hs, hrange]), ← hclock]
      · rw [Function.update_of_ne hk, if_neg (by simp [writtenBy, Ne.symm hk]), h.clock k, add_zero]
    · rw [hcopies]
      split
      · rename_i hkj
        rw [hkj.2]
        exact iff_of_true rfl hrange
      · exact h.seats k j
    · rw [hsent] at hd
      rcases List.mem_append.1 hd with hd | hd
      · exact h.flights d hd
      · obtain ⟨p, hp, rfl⟩ := List.mem_map.1 hd
        exact ⟨(List.mem_filter.1 hp).1, hrange⟩
  · have hsame : (m.step (.update server i st owner now)).2 = m := by
      by_cases hs : server ∈ servers
      · have ho : (m.stores server).getSeat i = none := by
          rw [← Option.not_isSome_iff_eq_none, h.seats]
          exact fun hrange => hw ⟨hs, hrange⟩
        simp only [step, if_pos (h.same.symm ▸ hs : server ∈ m.servers), StateStore.updateSeat_none ho,
          Function.update_eq_self]
      · simp only [step, h.same, if_neg hs]
    rw [hsame]
    refine ⟨.idle (fun k j c v hd => ?_) (fun _ _ => rfl) rfl, h.snoc fun k => ?_⟩
    · obtain ⟨rfl, rfl, rfl, hs, hrange⟩ := draws_update hd
      exact hw ⟨hs, hrange⟩
    · simp only [writtenBy, decide_eq_false_iff_not, not_and]
      rintro rfl hs h1 hn
      exact hw ⟨hs, h1, hn⟩

theorem change_deliver {message : ℕ} (h : Formed servers seatCount pre m) :
    Change servers seatCount pre (.deliver message) m (m.step (.deliver message)).2 ∧
      Formed servers seatCount (pre ++ [.deliver message]) (m.step (.deliver message)).2 := by
  have hnone : ∀ k i c v, ¬ Draws servers seatCount pre (.deliver message) k i c v := fun k i c v hd => by
    obtain ⟨⟨now, he⟩, -⟩ := hd
    cases he
  cases ht : m.inFlight[message]? with
  | none =>
    have hsame : m.step (.deliver message) = (none, m) := by simp only [step, ht]
    rw [hsame]
    exact ⟨.idle hnone (fun _ _ => rfl) rfl, h.snoc fun _ => rfl⟩
  | some d =>
    obtain ⟨peer, seat⟩ := d
    have hstep : m.step (.deliver message) = (none, { m with
        stores := Function.update m.stores peer ((m.stores peer).applyRemoteUpdate seat)
        inFlight := m.inFlight.eraseIdx message }) := by simp only [step, ht]
    have hrange : 1 ≤ seat.seatId ∧ seat.seatId ≤ (seatCount : ℤ) := (h.flights _ (List.mem_of_getElem? ht)).2
    obtain ⟨own, ho⟩ := Option.isSome_iff_exists.1 ((h.seats peer seat.seatId).2 hrange)
    have hcopies : ∀ k j, ((Function.update m.stores peer ((m.stores peer).applyRemoteUpdate seat)) k).getSeat j =
        if k = peer ∧ j = seat.seatId then some (Versioned.merge SeatState.version own seat)
        else (m.stores k).getSeat j := by
      intro k j
      by_cases hk : k = peer
      · subst hk
        rw [Function.update_self, StateStore.getSeat_applyRemoteUpdate]
        by_cases hj : j = seat.seatId
        · subst hj
          rw [if_pos rfl, if_pos ⟨rfl, rfl⟩, ho, Option.map_some, Option.getD_some]
        · rw [if_neg hj, if_neg (fun hkj => hj hkj.2)]
      · rw [Function.update_of_ne hk, if_neg (fun hkj => hk hkj.1)]
    rw [hstep]
    refine ⟨.applied hnone ht ho hcopies rfl, ?_⟩
    refine Formed.snoc ⟨h.same, fun k => ?_, fun k => ?_, fun k j => ?_, fun d hd => ?_⟩ fun _ => rfl
    · by_cases hk : k = peer
      · subst hk
        simp only [Function.update_self, StateStore.applyRemoteUpdate_serverId, h.ids]
      · simp only [Function.update_of_ne hk, h.ids]
    · by_cases hk : k = peer
      · subst hk
        simp only [Function.update_self, StateStore.applyRemoteUpdate_clock, h.clock]
      · simp only [Function.update_of_ne hk, h.clock]
    · simp only [hcopies]
      split
      · rename_i hkj
        rw [hkj.2]
        exact iff_of_true rfl hrange
      · exact h.seats k j
    · exact h.flights d (List.mem_of_mem_eraseIdx hd)

/-! ## Along a run -/

variable {stamp : String → ℕ → Time}

theorem formed_new (servers : List String) (seatCount : ℕ) (stamp : String → ℕ → Time) :
    Formed servers seatCount [] (new servers seatCount stamp) := by
  have hnew := fun k => StateStore.initializeSeats_new k (stamp k) seatCount
  refine ⟨rfl, fun k => StateStore.initializeSeats_serverId _ _ _, fun k => ?_, fun k i => ?_, fun d hd => ?_⟩
  · simp only [new, (hnew k).1, nextVersion, List.countP_nil, Nat.cast_zero, add_zero]
  · simp only [new, (hnew k).2]
    split
    · exact iff_of_true rfl ‹_›
    · exact iff_of_false Bool.false_ne_true ‹_›
  · cases hd

theorem formed_run (es : List MeshEvent) : Formed servers seatCount es (run step (new servers seatCount stamp) es) := by
  induction es using List.reverseRecOn with
  | nil => exact formed_new servers seatCount stamp
  | append_singleton es e ih =>
    rw [run_snoc]
    cases e with
    | update server i st owner now => exact (change_update ih).2
    | deliver message => exact (change_deliver ih).2

variable (servers seatCount stamp) in
theorem change_run (es : List MeshEvent) (e : MeshEvent) :
    Change servers seatCount es e (run step (new servers seatCount stamp) es)
      (run step (new servers seatCount stamp) (es ++ [e])) := by
  rw [run_snoc]
  cases e with
  | update server i st owner now => exact (change_update (formed_run es)).1
  | deliver message => exact (change_deliver (formed_run es)).1

/-- Every copy of the seat at the servers `K`, and every update of it in flight to them, satisfies `P`. -/
def HoldsAt (K : String → Prop) (P : SeatState → Prop) (i : ℤ) (m : Mesh) : Prop :=
  (∀ k, K k → ∀ own, (m.stores k).getSeat i = some own → P own) ∧
    ∀ d ∈ m.inFlight, K d.1 → d.2.seatId = i → P d.2

theorem Change.holdsAt {K : String → Prop} {P : SeatState → Prop} {i : ℤ} {e : MeshEvent} {m' : Mesh}
    (hc : Change servers seatCount pre e m m') (h : HoldsAt K P i m)
    (hdraws : ∀ k c v seat, Draws servers seatCount pre e k i c v → seat.content = c → seat.version = v → P seat) :
    HoldsAt K P i m' := by
  obtain ⟨hcopies, hflights⟩ := h
  cases hc with
  | @wrote k j c v seat draws id content version copies sent =>
    refine ⟨fun k' hk' own ho => ?_, fun d hd hK hi => ?_⟩
    · rw [copies] at ho
      split at ho
      · rename_i hk
        obtain ⟨rfl, rfl⟩ := hk
        rw [← Option.some.inj ho]
        exact hdraws _ c v seat draws content version
      · exact hcopies k' hk' own ho
    · rw [sent] at hd
      rcases List.mem_append.1 hd with hd | hd
      · exact hflights d hd hK hi
      · obtain ⟨p, -, rfl⟩ := List.mem_map.1 hd
        obtain rfl : j = i := id.symm.trans hi
        exact hdraws _ c v seat draws content version
  | @applied message peer seat own _ taken own_eq copies left =>
    refine ⟨fun k' hk' own' ho => ?_, fun d hd => ?_⟩
    · rw [copies] at ho
      split at ho
      · rename_i hk
        obtain ⟨rfl, rfl⟩ := hk
        rw [← Option.some.inj ho]
        -- the copy kept is the server's own or the one delivered to it
        rcases Versioned.merge_choice SeatState.version own seat with hm | hm
        · rw [hm]
          exact hcopies _ hk' own own_eq
        · rw [hm]
          exact hflights _ (List.mem_of_getElem? taken) hk' rfl
      · exact hcopies k' hk' own' ho
    · rw [left] at hd
      exact hflights d (List.mem_of_mem_eraseIdx hd)
  | idle _ copies left => exact ⟨fun k hk own ho => hcopies k hk own (by rwa [copies] at ho), by rwa [left]⟩

/-- Every copy of the seat and every update of it in flight satisfies `P`. -/
abbrev Everywhere (P : SeatState → Prop) (i : ℤ) (m : Mesh) : Prop := HoldsAt (fun _ => True) P i m

/-- **What the initial copies and all writes of a seat satisfy, every copy and every update in flight does.** -/
theorem everywhere_run {P : SeatState → Prop} {i : ℤ} {es : List MeshEvent}
    (hnew : ∀ k own, ((new servers seatCount stamp).stores k).getSeat i = some own → P own)
    (hdraws : ∀ pre e post k c v seat, es = pre ++ e :: post → Draws servers seatCount pre e k i c v →
      seat.content = c → seat.version = v → P seat) {pre post : List MeshEvent} (he : es = pre ++ post) :
    Everywhere P i (run step (new servers seatCount stamp) pre) := by
  have h0 : Everywhere P i (new servers seatCount stamp) := ⟨fun k _ => hnew k, fun d hd => by cases hd⟩
  refine invariant_within (P := fun _ m => Everywhere P i m) h0 (fun pre e post he ih => ?_) pre post he
  rw [← run_snoc]
  exact (change_run servers seatCount stamp pre e).holdsAt ih fun k c v seat hd => hdraws pre e post k c v seat he hd

theorem new_copy {k : String} {i : ℤ} {own : SeatState}
    (h : ((new servers seatCount stamp).stores k).getSeat i = some own) :
    own.version = i ∧ own.content = (.available, "") ∧ i ≤ seatCount := by
  simp only [new, (StateStore.initializeSeats_new k (stamp k) seatCount).2] at h
  split at h
  · rw [← Option.some.inj h]
    exact ⟨rfl, rfl, by rename_i hi; exact hi.2⟩
  · cases h

theorem seatCount_lt_of_draws {e : MeshEvent} {k : String} {i v : ℤ} {c : SeatStatus × String}
    (h : Draws servers seatCount pre e k i c v) : seatCount < v := by
  obtain ⟨-, -, -, rfl⟩ := h
  unfold nextVersion
  omega

theorem Draws.unique {e : MeshEvent} {k k' : String} {i i' v v' : ℤ} {c c' : SeatStatus × String}
    (h : Draws servers seatCount pre e k i c v) (h' : Draws servers seatCount pre e k' i' c' v') :
    k = k' ∧ i = i' ∧ c = c' ∧ v = v' := by
  obtain ⟨⟨now, rfl⟩, -, -, rfl⟩ := h
  obtain ⟨⟨now', he⟩, -, -, rfl⟩ := h'
  obtain ⟨rfl, rfl, hst, howner, -⟩ := MeshEvent.update.inj he
  exact ⟨rfl, rfl, Prod.ext hst howner, rfl⟩

/-! ## What every store hears -/

/-- The server has heard of a version of the seat: its copy has it, or an update at it is on its way. -/
def Heard (m : Mesh) (k : String) (i v : ℤ) : Prop :=
  (∃ own, (m.stores k).getSeat i = some own ∧ own.version = v) ∨ OnItsWay m k i v

/-- **A server that has heard of the greatest version does not lose it** but by writing over it, and all servers hear of
it when it is drawn. -/
theorem Change.heard {e : MeshEvent} {m' : Mesh} {k : String} {i v : ℤ} (hc : Change servers seatCount pre e m m')
    (hk : k ∈ servers) (hle : Everywhere (fun seat => seat.version ≤ v) i m)
    (hover : ∀ c w, Draws servers seatCount pre e k i c w → w = v ∨ OnItsWay m k i v)
    (h : Heard m k i v ∨ ∃ k' c, Draws servers seatCount pre e k' i c v) : Heard m' k i v := by
  cases hc with
  | @wrote k' j c w seat draws id content version copies sent =>
    have hkept : OnItsWay m k i v → OnItsWay m' k i v := fun ⟨seat', hm, hs⟩ =>
      ⟨seat', by rw [sent]; exact List.mem_append_left _ hm, hs⟩
    by_cases hji : k = k' ∧ i = j
    · obtain ⟨rfl, rfl⟩ := hji
      rcases hover c w draws with rfl | hway
      · exact Or.inl ⟨seat, by rw [copies, if_pos ⟨rfl, rfl⟩], version⟩
      · exact Or.inr (hkept hway)
    · rcases h with (⟨own, ho, hv⟩ | hway) | ⟨k'', c', hd⟩
      · exact Or.inl ⟨own, by rw [copies, if_neg hji, ho], hv⟩
      · exact Or.inr (hkept hway)
      · obtain ⟨rfl, rfl, rfl, rfl⟩ := draws.unique hd
        have hpeer : k ∈ servers.filter (fun p => decide (p ≠ k')) :=
          List.mem_filter.2 ⟨hk, decide_eq_true fun hkk => hji ⟨hkk, rfl⟩⟩
        exact Or.inr ⟨seat, by rw [sent]; exact List.mem_append_right _ (List.mem_map.2 ⟨k, hpeer, rfl⟩), id, version⟩
  | @applied message peer seat own none taken own_eq copies left =>
    have hmem := List.mem_of_getElem? taken
    rcases h with (⟨own', ho, hv⟩ | ⟨seat', hm, hi, hv⟩) | ⟨k', c, hd⟩
    · by_cases hkp : k = peer ∧ i = seat.seatId
      · obtain ⟨rfl, rfl⟩ := hkp
        rw [own_eq] at ho
        obtain rfl := Option.some.inj ho
        have hle' : seat.version ≤ own.version := hv ▸ hle.2 _ hmem trivial rfl
        exact Or.inl ⟨own, by rw [copies, if_pos ⟨rfl, rfl⟩, Versioned.merge_of_le hle'], hv⟩
      · exact Or.inl ⟨own', by rw [copies, if_neg hkp, ho], hv⟩
    · obtain ⟨n, hn⟩ := List.mem_iff_getElem?.1 hm
      by_cases hnm : n = message
      · rw [hnm, taken] at hn
        obtain ⟨rfl, rfl⟩ := Prod.mk.inj (Option.some.inj hn)
        subst hi
        refine Or.inl ⟨_, by rw [copies, if_pos ⟨rfl, rfl⟩], ?_⟩
        have hlow : seat.version ≤ (Versioned.merge SeatState.version own seat).version :=
          Versioned.remote_le_merge own seat
        have hown : own.version ≤ v := hle.1 _ trivial own own_eq
        rcases Versioned.merge_choice SeatState.version own seat with hmerge | hmerge
        · rw [hmerge] at hlow ⊢
          exact le_antisymm hown (hv ▸ hlow)
        · rw [hmerge, hv]
      · exact Or.inr ⟨seat', by rw [left]; exact List.mem_eraseIdx_iff_getElem?.2 ⟨n, hnm, hn⟩, hi, hv⟩
    · exact absurd hd (none k' i c v)
  | idle none copies left =>
    rcases h with (⟨own, ho, hv⟩ | ⟨seat, hm, hs⟩) | ⟨k', c, hd⟩
    · exact Or.inl ⟨own, by rw [copies, ho], hv⟩
    · exact Or.inr ⟨seat, by rwa [left], hs⟩
    · exact absurd hd (none k' i c v)

theorem drawnIn_cons {e : MeshEvent} {post : List MeshEvent} {i v : ℤ} :
    DrawnIn servers seatCount pre (e :: post) i v ↔
      (∃ k c, Draws servers seatCount pre e k i c v) ∨ DrawnIn servers seatCount (pre ++ [e]) post i v := by
  constructor
  · rintro ⟨mid, f, rest, k, c, he, hd⟩
    cases mid with
    | nil =>
      obtain ⟨rfl, rfl⟩ := List.cons.inj he
      exact Or.inl ⟨k, c, by rwa [List.append_nil] at hd⟩
    | cons g mid =>
      obtain ⟨rfl, rfl⟩ := List.cons.inj he
      exact Or.inr ⟨mid, f, rest, k, c, rfl, by rwa [List.append_assoc, List.singleton_append]⟩
  · rintro (⟨k, c, hd⟩ | ⟨mid, f, rest, k, c, rfl, hd⟩)
    · exact ⟨[], e, post, k, c, rfl, by rwa [List.append_nil]⟩
    · exact ⟨e :: mid, f, rest, k, c, rfl, by rwa [List.append_assoc, List.singleton_append] at hd⟩

theorem drawnIn_of_split {e : MeshEvent} {post : List MeshEvent} {k : String} {i v : ℤ} {c : SeatStatus × String}
    (he : es = pre ++ e :: post) (hd : Draws servers seatCount pre e k i c v) : DrawnIn servers seatCount [] es i v :=
  ⟨pre, e, post, k, c, he, hd⟩

/-- **A seat drawn has a greatest version drawn.** -/
theorem exists_top {i w : ℤ} (h : DrawnIn servers seatCount [] es i w) : ∃ v, Top servers seatCount es i v := by
  refine Int.exists_greatest_of_bdd ⟨seatCount + es.length + 1, fun z hz => ?_⟩ ⟨w, h⟩
  obtain ⟨pre, e, post, k, c, rfl, -, -, -, rfl⟩ := hz
  have hcount : pre.countP (writtenBy servers seatCount k) ≤ pre.length := List.countP_le_length
  rw [nextVersion, List.nil_append, List.length_append]
  omega

/-- **All stores come to hold version `v` and content `c` of a seat** when that is its greatest version anywhere, with
that content, and is not written over for good. -/
theorem settled_run {i v : ℤ} {c : SeatStatus × String} (hi : 1 ≤ i ∧ i ≤ (seatCount : ℤ))
    (hfirst : (v = i ∧ c = (.available, "")) ∨ DrawnIn servers seatCount [] es i v)
    (hdraws : ∀ pre e post k c' w, es = pre ++ e :: post → Draws servers seatCount pre e k i c' w →
      w ≤ v ∧ (w = v → c' = c) ∧ (w < v → OnItsWay (run step (new servers seatCount stamp) pre) k i v ∨
        DrawnIn servers seatCount (pre ++ [e]) post i v))
    (hquiet : (run step (new servers seatCount stamp) es).inFlight = []) {k : String} (hk : k ∈ servers) :
    (((run step (new servers seatCount stamp) es).stores k).getSeat i).map told = some (c.1, c.2, v) := by
  have hbound : ∀ pre post, es = pre ++ post →
      Everywhere (fun seat => seat.version ≤ v ∧ (seat.version = v → seat.content = c)) i
        (run step (new servers seatCount stamp) pre) := by
    intro pre post he
    refine everywhere_run (fun k own ho => ?_) (fun pre e post k c' w seat he hd hcon hver => ?_) he
    · obtain ⟨hver, hcon, hin⟩ := new_copy ho
      rcases hfirst with ⟨rfl, rfl⟩ | ⟨pre, e, post, k, c', he, hd⟩
      · exact ⟨le_of_eq hver, fun _ => hcon⟩
      · have hlt := seatCount_lt_of_draws hd
        exact ⟨by omega, fun hv => by omega⟩
    · obtain ⟨hle, heq, -⟩ := hdraws pre e post k c' w he hd
      exact ⟨hver ▸ hle, fun hv => hcon.trans (heq (hver.symm.trans hv))⟩
  have hheard : ∀ pre post, es = pre ++ post → Heard (run step (new servers seatCount stamp) pre) k i v ∨
      DrawnIn servers seatCount pre post i v := by
    intro pre
    induction pre using List.reverseRecOn with
    | nil =>
      rintro post rfl
      have hcopy := ((StateStore.initializeSeats_new k (stamp k) seatCount).2 i).trans (if_pos hi)
      exact hfirst.imp_left fun hv => Or.inl ⟨_, hcopy, hv.1.symm⟩
    | append_singleton pre e ih =>
      intro post he
      have hsplit : es = pre ++ e :: post := by rw [he, List.append_assoc, List.singleton_append]
      by_cases hlater : DrawnIn servers seatCount (pre ++ [e]) post i v
      · exact Or.inr hlater
      · refine Or.inl ((change_run servers seatCount stamp pre e).heard hk ?_ (fun c' w hd => ?_) ?_)
        · have hb := hbound pre (e :: post) hsplit
          exact ⟨fun k _ own ho => (hb.1 k trivial own ho).1, fun d hd _ hs => (hb.2 d hd trivial hs).1⟩
        · obtain ⟨hle, -, hover⟩ := hdraws pre e post k c' w hsplit hd
          rcases eq_or_lt_of_le hle with hw | hw
          · exact Or.inl hw
          · exact Or.inr ((hover hw).resolve_right hlater)
        · exact (ih (e :: post) hsplit).imp_right fun hd => (drawnIn_cons.1 hd).resolve_right hlater
  rcases hheard es [] (List.append_nil es).symm with (⟨own, ho, hv⟩ | ⟨seat, hm, -⟩) | ⟨pre, e, post, k', c', he, -⟩
  · have hcon := ((hbound es [] (List.append_nil es).symm).1 k trivial own ho).2 hv
    rw [ho, Option.map_some, told, hv, ← hcon]
    rfl
  · rw [hquiet] at hm
    cases hm
  · simp at he

theorem agree_of_resolved (hresolved : Resolved servers seatCount stamp es)
    (hquiet : (run step (new servers seatCount stamp) es).inFlight = []) :
    Agree (run step (new servers seatCount stamp) es) := by
  have hformed : Formed servers seatCount es (run step (new servers seatCount stamp) es) := formed_run es
  intro a ha b hb i
  rw [hformed.same] at ha hb
  by_cases hi : 1 ≤ i ∧ i ≤ (seatCount : ℤ)
  · by_cases hw : ∃ w, DrawnIn servers seatCount [] es i w
    · obtain ⟨w, hw⟩ := hw
      obtain ⟨v, hv⟩ := exists_top hw
      obtain ⟨pre, e, post, k, c, he, hd⟩ := hv.1
      obtain ⟨hsame, hover⟩ := hresolved i v hv
      have hdraws : ∀ pre' e' post' k' c' w', es = pre' ++ e' :: post' →
          Draws servers seatCount pre' e' k' i c' w' → w' ≤ v ∧ (w' = v → c' = c) ∧
            (w' < v → OnItsWay (run step (new servers seatCount stamp) pre') k' i v ∨
              DrawnIn servers seatCount (pre' ++ [e']) post' i v) :=
        fun pre' e' post' k' c' w' he' hd' => ⟨hv.2 w' (drawnIn_of_split he' hd'),
          fun hw' => hsame pre' e' post' k' c' pre e post k c he' (hw' ▸ hd') he hd,
          hover pre' e' post' k' c' w' he' hd'⟩
      rw [settled_run hi (Or.inr hv.1) hdraws hquiet ha, settled_run hi (Or.inr hv.1) hdraws hquiet hb]
    · have hdraws : ∀ pre e post k c w, es = pre ++ e :: post → Draws servers seatCount pre e k i c w →
          w ≤ i ∧ (w = i → c = (.available, "")) ∧
            (w < i → OnItsWay (run step (new servers seatCount stamp) pre) k i i ∨
              DrawnIn servers seatCount (pre ++ [e]) post i i) :=
        fun pre e post k c w he hd => absurd ⟨w, drawnIn_of_split he hd⟩ hw
      rw [settled_run hi (Or.inl ⟨rfl, rfl⟩) hdraws hquiet ha, settled_run hi (Or.inl ⟨rfl, rfl⟩) hdraws hquiet hb]
  · have hnone : ∀ k, ((run step (new servers seatCount stamp) es).stores k).getSeat i = none := fun k => by
      rw [← Option.not_isSome_iff_eq_none, hformed.seats]
      exact hi
    rw [hnone a, hnone b]

/-! ## What a store keeps for good -/

variable (stamp) in
/-- No copy and no update has a version above the greatest one drawn. -/
theorem below_top {i v : ℤ} (hv : Top servers seatCount es i v) {pre post : List MeshEvent} (he : es = pre ++ post) :
    Everywhere (fun seat => seat.version ≤ v) i (run step (new servers seatCount stamp) pre) := by
  obtain ⟨pre', e', post', k', c', he', hd'⟩ := hv.1
  refine everywhere_run (fun k own ho => ?_) (fun pre e post k c w seat he hd _ hver => ?_) he
  · obtain ⟨hver, -, hin⟩ := new_copy ho
    have hlt := seatCount_lt_of_draws hd'
    omega
  · exact hver ▸ hv.2 w (drawnIn_of_split he hd)

theorem nextVersion_mono (k : String) : ∀ mid : List MeshEvent,
    nextVersion servers seatCount pre k ≤ nextVersion servers seatCount (pre ++ mid) k := by
  intro mid
  rw [nextVersion, nextVersion, List.countP_append]
  omega

theorem draws_lt {e f : MeshEvent} {mid : List MeshEvent} {k : String} {i j v w : ℤ} {c c' : SeatStatus × String}
    (h : Draws servers seatCount pre e k i c v) (h' : Draws servers seatCount (pre ++ e :: mid) f k j c' w) :
    v < w := by
  obtain ⟨⟨now, rfl⟩, hk, hi, rfl⟩ := h
  obtain ⟨-, -, -, rfl⟩ := h'
  have hmono : nextVersion servers seatCount (pre ++ [.update k i c.1 c.2 now]) k ≤
      nextVersion servers seatCount (pre ++ .update k i c.1 c.2 now :: mid) k := by
    have happend : pre ++ .update k i c.1 c.2 now :: mid = pre ++ [.update k i c.1 c.2 now] ++ mid := by
      rw [List.append_assoc, List.singleton_append]
    rw [happend]
    exact nextVersion_mono k mid
  rw [nextVersion_snoc, if_pos (by simp [writtenBy, hk, hi])] at hmono
  omega

variable (stamp) in
/-- **A server that draws the greatest version keeps its own write.** -/
theorem kept_run {e : MeshEvent} {post : List MeshEvent} {k : String} {i v : ℤ} {c : SeatStatus × String}
    (hv : Top servers seatCount es i v) (he : es = pre ++ e :: post) (hd : Draws servers seatCount pre e k i c v) :
    ∃ own, ((run step (new servers seatCount stamp) es).stores k).getSeat i = some own ∧ own.version = v ∧
      own.content = c := by
  subst he
  refine invariant_since
    (P := fun (m : Mesh) => ∃ own, (m.stores k).getSeat i = some own ∧ own.version = v ∧ own.content = c) ?_ post
    fun mid f rest hpost hown => ?_
  · cases change_run servers seatCount stamp pre e with
    | @wrote k' j c' w seat draws id content version copies sent =>
      obtain ⟨rfl, rfl, rfl, rfl⟩ := draws.unique hd
      exact ⟨seat, by rw [copies, if_pos ⟨rfl, rfl⟩], version, content⟩
    | applied none => exact absurd hd (none k i c v)
    | idle none => exact absurd hd (none k i c v)
  · obtain ⟨own, ho, hver, hcon⟩ := hown
    have hsplit : pre ++ e :: post = (pre ++ e :: mid) ++ f :: rest := by
      rw [hpost, List.append_assoc, List.cons_append]
    have hle := below_top stamp hv hsplit
    cases change_run servers seatCount stamp (pre ++ e :: mid) f with
    | @wrote k' j c' w seat draws id content version copies sent =>
      refine ⟨own, ?_, hver, hcon⟩
      rw [copies, if_neg fun hkj => ?_, ho]
      obtain ⟨rfl, rfl⟩ := hkj
      exact absurd (hv.2 w (drawnIn_of_split hsplit draws)) (not_le.2 (draws_lt hd draws))
    | @applied message peer seat own' none taken own_eq copies left =>
      refine ⟨own, ?_, hver, hcon⟩
      rw [copies]
      split
      · rename_i hkp
        obtain ⟨rfl, rfl⟩ := hkp
        rw [own_eq] at ho
        obtain rfl := Option.some.inj ho
        rw [Versioned.merge_of_le]
        exact hver.symm ▸ hle.2 _ (List.mem_of_getElem? taken) trivial rfl
      · exact ho
    | idle none copies left => exact ⟨own, by rw [copies, ho], hver, hcon⟩

theorem not_heard_iff {k : String} {i v : ℤ} :
    ¬ Heard m k i v ↔ HoldsAt (fun k' => k' = k) (fun seat => seat.version ≠ v) i m := by
  constructor
  · intro h
    refine ⟨?_, ?_⟩
    · rintro _ rfl own ho hv
      exact h (Or.inl ⟨own, ho, hv⟩)
    · rintro ⟨_, seat⟩ hd rfl hi hv
      exact h (Or.inr ⟨seat, hd, hi, hv⟩)
  · rintro ⟨hcopies, hflights⟩ (⟨own, ho, hv⟩ | ⟨seat, hm, hi, hv⟩)
    · exact hcopies k rfl own ho hv
    · exact hflights _ hm rfl hi hv

/-- **A server that writes below the greatest version, hears of it neither before nor after.** -/
theorem unheard_run {e : MeshEvent} {post : List MeshEvent} {k : String} {i v w : ℤ} {c : SeatStatus × String}
    (he : es = pre ++ e :: post) (hd : Draws servers seatCount pre e k i c w) (hw : w ≠ v)
    (hway : ¬ OnItsWay (run step (new servers seatCount stamp) pre) k i v)
    (hlater : ¬ DrawnIn servers seatCount (pre ++ [e]) post i v) :
    ¬ Heard (run step (new servers seatCount stamp) es) k i v := by
  subst he
  refine invariant_since (P := fun m => ¬ Heard m k i v) ?_ post fun mid f rest hpost hun => ?_
  · cases change_run servers seatCount stamp pre e with
    | @wrote k' j c' w' seat draws id content version copies sent =>
      obtain ⟨rfl, rfl, rfl, rfl⟩ := draws.unique hd
      rintro (⟨own, ho, hv⟩ | ⟨seat', hm, hs, hv⟩)
      · rw [copies, if_pos ⟨rfl, rfl⟩] at ho
        rw [← Option.some.inj ho] at hv
        exact hw (version.symm.trans hv)
      · rw [sent] at hm
        rcases List.mem_append.1 hm with hm | hm
        · exact hway ⟨seat', hm, hs, hv⟩
        · obtain ⟨p, hp, hpe⟩ := List.mem_map.1 hm
          exact of_decide_eq_true (List.mem_filter.1 hp).2 (congrArg Prod.fst hpe)
    | applied none => exact absurd hd (none k i c w)
    | idle none => exact absurd hd (none k i c w)
  · refine not_heard_iff.2 ((change_run servers seatCount stamp (pre ++ e :: mid) f).holdsAt (not_heard_iff.1 hun) ?_)
    rintro k' c' w' seat hd' - hver hv
    refine hlater ⟨mid, f, rest, k', c', hpost, ?_⟩
    rw [List.append_assoc, List.singleton_append, ← hv, hver]
    exact hd'

theorem resolved_of_agree (hagree : Agree (run step (new servers seatCount stamp) es)) :
    Resolved servers seatCount stamp es := by
  have hformed : Formed servers seatCount es (run step (new servers seatCount stamp) es) := formed_run es
  unfold Agree at hagree
  rw [hformed.same] at hagree
  intro i v hv
  refine ⟨fun pre e post k c pre' e' post' k' c' he hd he' hd' => ?_, fun pre e post k c w he hd hlt => ?_⟩
  · obtain ⟨own, ho, -, rfl⟩ := kept_run stamp hv he hd
    obtain ⟨own', ho', -, rfl⟩ := kept_run stamp hv he' hd'
    have htold := hagree k hd.2.1 k' hd'.2.1 i
    rw [ho, ho', Option.map_some, Option.map_some] at htold
    obtain ⟨hstate, howner⟩ := Prod.mk.inj (Option.some.inj htold)
    exact Prod.ext hstate (congrArg Prod.fst howner)
  · by_contra hnever
    obtain ⟨hway, hlater⟩ := not_or.1 hnever
    obtain ⟨pre', e', post', k', c', he', hd'⟩ := hv.1
    obtain ⟨own, ho, hver, -⟩ := kept_run stamp hv he' hd'
    have htold := hagree k hd.2.1 k' hd'.2.1 i
    rw [ho, Option.map_some, Option.map_eq_some_iff] at htold
    obtain ⟨own', ho', hsame⟩ := htold
    have hver' : own'.version = v := (congrArg (fun t => t.2.2) hsame).trans hver
    exact unheard_run he hd (ne_of_lt hlt) hway hlater (Or.inl ⟨own', ho', hver'⟩)

/-- **Once every update is delivered, the stores agree exactly when the run's conflicts are resolved.** -/
theorem agree_iff_resolved (servers : List String) (seatCount : ℕ) (stamp : String → ℕ → Time) (es : List MeshEvent)
    (hquiet : (run step (new servers seatCount stamp) es).inFlight = []) :
    Agree (run step (new servers seatCount stamp) es) ↔ Resolved servers seatCount stamp es :=
  ⟨resolved_of_agree, fun h => agree_of_resolved h hquiet⟩

end

/-- A server writes a seat, and another writes it too once it has the first one's write. -/
def takeover : List MeshEvent :=
  [.update "Server 1" 1 .locked "Ann" 0, .deliver 0, .update "Server 2" 1 .locked "Bob" 1, .deliver 0]

/-- **Both draw version 2**, so the first server keeps its own write. -/
theorem takeover_disagrees :
    (run step (new ["Server 1", "Server 2"] 1 (fun _ _ => 0)) takeover).inFlight = [] ∧
    ¬ Agree (run step (new ["Server 1", "Server 2"] 1 (fun _ _ => 0)) takeover) := by
  refine ⟨by decide, fun h => ?_⟩
  have hseat := h "Server 1" (by decide) "Server 2" (by decide) 1
  exact absurd hseat (by decide)

theorem agree_iff_resolved_oneWrite :
    (run step (new ["Server 1", "Server 2"] 1 (fun _ _ => 0)) (takeover.take 2)).inFlight = [] ∧
    (Agree (run step (new ["Server 1", "Server 2"] 1 (fun _ _ => 0)) (takeover.take 2)) ↔
      Resolved ["Server 1", "Server 2"] 1 (fun _ _ => 0) (takeover.take 2)) :=
  ⟨by decide, agree_iff_resolved _ 1 _ (takeover.take 2) (by decide)⟩

end Mesh
end Ticket
