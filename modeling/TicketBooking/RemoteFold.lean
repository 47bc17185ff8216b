import Mathlib.Data.Int.ConditionallyCompleteOrder
import TicketBooking.Replicas
/-!
# RemoteFold — what a list of remote updates leaves of each seat

Copies from the peers reach a store late, more than once and in any order, and `applyRemoteUpdate` takes them one by
one.  Seat by seat the outcome is a fold of `Versioned.arrive` over the updates that name the seat: the store's own copy
if no update is newer, and otherwise the first update of the greatest version.
-/
namespace Ticket
namespace StateStore

/-- The updates are applied in the order of the list. -/
def applyRemoteUpdates (st : StateStore) (updates : List SeatState) : StateStore := updates.foldl applyRemoteUpdate st

/-- The updates that name seat `i`, in the order of the list. -/
def updatesFor (i : ℤ) (updates : List SeatState) : List SeatState :=
  updates.filter (fun u => decide (u.seatId = i))

/-- Different updates to one seat have different versions. -/
def Distinguished (updates : List SeatState) : Prop :=
  ∀ u ∈ updates, ∀ v ∈ updates, u.seatId = v.seatId → u.version = v.version → u = v

instance instDecidableDistinguished (updates : List SeatState) : Decidable (Distinguished updates) :=
  inferInstanceAs (Decidable (∀ u ∈ updates, ∀ v ∈ updates, u.seatId = v.seatId → u.version = v.version → u = v))

/-- Two stores of one server with one clock and the same copy of every seat: equal as the dictionaries of the code are,
whose order does not count. -/
def Same (st st' : StateStore) : Prop :=
  st.serverId = st'.serverId ∧ st.versionClock = st'.versionClock ∧ ∀ i, st.getSeat i = st'.getSeat i

theorem mem_updatesFor {i : ℤ} {updates : List SeatState} {u : SeatState} :
    u ∈ updatesFor i updates ↔ u ∈ updates ∧ u.seatId = i := by
  rw [updatesFor, List.mem_filter, decide_eq_true_eq]

theorem applyRemoteUpdates_snoc (st : StateStore) (updates : List SeatState) (u : SeatState) :
    st.applyRemoteUpdates (updates ++ [u]) = (st.applyRemoteUpdates updates).applyRemoteUpdate u :=
  List.foldl_append

/-- **Only the seats' copies change.** -/
theorem applyRemoteUpdates_frame (st : StateStore) (updates : List SeatState) :
    (st.applyRemoteUpdates updates).serverId = st.serverId ∧
      (st.applyRemoteUpdates updates).versionClock = st.versionClock := by
  induction updates using List.reverseRecOn with
  | nil => exact ⟨rfl, rfl⟩
  | append_singleton updates u ih => rwa [applyRemoteUpdates_snoc, applyRemoteUpdate_serverId, applyRemoteUpdate_clock]

/-- **Seat by seat, the updates are a fold of arrivals.** -/
theorem getSeat_applyRemoteUpdates (st : StateStore) (updates : List SeatState) (i : ℤ) :
    (st.applyRemoteUpdates updates).getSeat i =
      (updatesFor i updates).foldl (Versioned.arrive SeatState.version) (st.getSeat i) := by
  induction updates using List.reverseRecOn with
  | nil => rfl
  | append_singleton updates u ih =>
    rw [applyRemoteUpdates_snoc, getSeat_applyRemoteUpdate, ih, updatesFor, updatesFor, List.filter_append,
      List.foldl_append]
    by_cases hu : u.seatId = i
    · subst hu
      simp [Versioned.arrive]
    · simp [hu, Ne.symm hu]

theorem getSeat_applyRemoteUpdates_own {st : StateStore} {i : ℤ} {own : SeatState} (h : st.getSeat i = some own)
    (updates : List SeatState) : (st.applyRemoteUpdates updates).getSeat i =
      if ∀ u ∈ updatesFor i updates, u.version ≤ own.version then some own
      else (updatesFor i updates).argmax SeatState.version := by
  rw [getSeat_applyRemoteUpdates, Versioned.foldl_arrive, h]
  exact Versioned.argmax_cons_eq_ite own _

theorem getSeat_applyRemoteUpdates_missing {st : StateStore} {i : ℤ} (h : st.getSeat i = none)
    (updates : List SeatState) :
    (st.applyRemoteUpdates updates).getSeat i = (updatesFor i updates).argmax SeatState.version := by
  rw [getSeat_applyRemoteUpdates, Versioned.foldl_arrive, h]
  rfl

theorem getSeat_applyRemoteUpdates_unmentioned {i : ℤ} {updates : List SeatState} (h : ∀ u ∈ updates, u.seatId ≠ i)
    (st : StateStore) : (st.applyRemoteUpdates updates).getSeat i = st.getSeat i := by
  have hnil : updatesFor i updates = [] :=
    List.eq_nil_iff_forall_not_mem.2 fun u hu => h u (mem_updatesFor.1 hu).1 (mem_updatesFor.1 hu).2
  rw [getSeat_applyRemoteUpdates, hnil]
  rfl

/-- **Distinguished updates leave one store**, in whatever order and however often each arrives. -/
theorem applyRemoteUpdates_same {updates updates' : List SeatState} (hd : Distinguished updates)
    (hmem : ∀ u, u ∈ updates' ↔ u ∈ updates) (st : StateStore) :
    Same (st.applyRemoteUpdates updates') (st.applyRemoteUpdates updates) := by
  obtain ⟨hs, hc⟩ := applyRemoteUpdates_frame st updates
  obtain ⟨hs', hc'⟩ := applyRemoteUpdates_frame st updates'
  refine ⟨hs'.trans hs.symm, hc'.trans hc.symm, fun i => ?_⟩
  have hfor : ∀ u, u ∈ updatesFor i updates' ↔ u ∈ updatesFor i updates := fun u => by
    rw [mem_updatesFor, mem_updatesFor, hmem]
  have hmax : (updatesFor i updates').argmax SeatState.version = (updatesFor i updates).argmax SeatState.version := by
    refine Versioned.argmax_congr (fun u hu v hv => ?_) hfor
    obtain ⟨hmu, hiu⟩ := mem_updatesFor.1 hu
    obtain ⟨hmv, hiv⟩ := mem_updatesFor.1 hv
    exact hd u hmu v hmv (hiu.trans hiv.symm)
  cases h : st.getSeat i with
  | none => rw [getSeat_applyRemoteUpdates_missing h, getSeat_applyRemoteUpdates_missing h, hmax]
  | some own =>
    rw [getSeat_applyRemoteUpdates_own h, getSeat_applyRemoteUpdates_own h, hmax]
    simp only [hfor]

/-- **Remote updates are a fold of the first maximum.**  A seat's copy ends as the store's own if no update to the seat
is newer, and otherwise as the first of the updates of the greatest version (`List.argmax` takes the first); so updates
that are distinguished leave the same store in every order and with every repetition.  A tie with the store's own copy
does no harm, since the store keeps its own. -/
theorem applyRemoteUpdates_firstMaximum (st : StateStore) (updates : List SeatState) :
    (∀ i own, st.getSeat i = some own → (st.applyRemoteUpdates updates).getSeat i =
      if ∀ u ∈ updatesFor i updates, u.version ≤ own.version then some own
      else (updatesFor i updates).argmax SeatState.version) ∧
    (∀ i, st.getSeat i = none →
      (st.applyRemoteUpdates updates).getSeat i = (updatesFor i updates).argmax SeatState.version) ∧
    (∀ i, (∀ u ∈ updates, u.seatId ≠ i) → (st.applyRemoteUpdates updates).getSeat i = st.getSeat i) ∧
    (Distinguished updates → ∀ updates', (∀ u, u ∈ updates' ↔ u ∈ updates) →
      Same (st.applyRemoteUpdates updates') (st.applyRemoteUpdates updates)) :=
  ⟨fun _ _ h => getSeat_applyRemoteUpdates_own h updates, fun _ h => getSeat_applyRemoteUpdates_missing h updates,
    fun _ h => getSeat_applyRemoteUpdates_unmentioned h st, fun hd _ hmem => applyRemoteUpdates_same hd hmem st⟩

/-- Three updates to two seats, delivered late and one of them twice. -/
theorem applyRemoteUpdates_firstMaximum_two :
    Same ((⟨"B", Dict.empty.set 1 ⟨1, .available, 0, "", 3⟩, 7⟩ : StateStore).applyRemoteUpdates
        [⟨2, .locked, 5, "bob", 1⟩, ⟨1, .reserved, 4, "ann", 5⟩, ⟨1, .locked, 3, "ann", 4⟩, ⟨1, .reserved, 4, "ann", 5⟩])
      ((⟨"B", Dict.empty.set 1 ⟨1, .available, 0, "", 3⟩, 7⟩ : StateStore).applyRemoteUpdates
        [⟨1, .locked, 3, "ann", 4⟩, ⟨1, .reserved, 4, "ann", 5⟩, ⟨2, .locked, 5, "bob", 1⟩]) ∧
    ((⟨"B", Dict.empty.set 1 ⟨1, .available, 0, "", 3⟩, 7⟩ : StateStore).applyRemoteUpdates
        [⟨1, .locked, 3, "ann", 4⟩, ⟨1, .reserved, 4, "ann", 5⟩, ⟨2, .locked, 5, "bob", 1⟩]).getSeat 1 =
      some ⟨1, .reserved, 4, "ann", 5⟩ := by
  have h := applyRemoteUpdates_firstMaximum ⟨"B", Dict.empty.set 1 ⟨1, .available, 0, "", 3⟩, 7⟩
    [⟨1, .locked, 3, "ann", 4⟩, ⟨1, .reserved, 4, "ann", 5⟩, ⟨2, .locked, 5, "bob", 1⟩]
  refine ⟨h.2.2.2 (by decide) _ fun u => ?_, (h.1 1 ⟨1, .available, 0, "", 3⟩ (by decide)).trans (by decide)⟩
  simp only [List.mem_cons, List.not_mem_nil, or_false]
  tauto

end StateStore
end Ticket
