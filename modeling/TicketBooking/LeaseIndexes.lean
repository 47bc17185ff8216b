import TicketBooking.FreshNames
import TicketBooking.LeaseTrace
/-!
# LeaseIndexes — the two indexes of the lease authority, under any clock

A lease is recorded twice, by seat and by id.  Here nothing is asked of the clock: it may go back between two calls and
between the readings of one.  As long as no generated id is repeated, the two indexes hold the same leases after every
call, whether it returned or raised, and an id that has left them does not come back (`indexes_inverse`).
-/
namespace Ticket

/-- A call with its first and last clock readings, whatever they are. -/
structure ClockedCall where
  call : LeaseCall
  now : Time
  later : Time

namespace LeaseManager

/-- **The two indexes are inverse to each other**: a seat's lease is the one that names the seat and stands under its own
id, and an id's lease the one that has the id and stands under its own seat. -/
structure Inverse (m : LeaseManager) : Prop where
  seat : ∀ s l, m.bySeat.get? s = some l ↔ l.seatId = s ∧ m.byId.get? l.leaseId = some l
  id : ∀ i l, m.byId.get? i = some l ↔ l.leaseId = i ∧ m.bySeat.get? l.seatId = some l

/-- The id is in an index: as a key, or on a seat's lease. -/
def Has (m : LeaseManager) (i : String) : Prop := i ∈ m.byId.keys ∨ i ∈ m.bySeat.values.map Lease.leaseId

instance (m : LeaseManager) (i : String) : Decidable (m.Has i) :=
  inferInstanceAs (Decidable (i ∈ m.byId.keys ∨ i ∈ m.bySeat.values.map Lease.leaseId))

variable {m : LeaseManager}

theorem Exact.inverse (h : m.Exact) : m.Inverse := by
  refine ⟨fun s l => ⟨h.seat s l, ?_⟩, fun i l => ⟨h.id i l, ?_⟩⟩
  · rintro ⟨rfl, hi⟩
    exact (h.id _ l hi).2
  · rintro ⟨rfl, hs⟩
    exact (h.seat _ l hs).2

theorem Exact.has_iff (h : m.Exact) {i : String} : m.Has i ↔ ∃ l, m.byId.get? i = some l := by
  unfold Has
  rw [Dict.mem_keys_iff, Option.isSome_iff_exists, or_iff_left_of_imp]
  intro hi
  obtain ⟨l, hl, rfl⟩ := List.mem_map.1 hi
  obtain ⟨s, hs⟩ := (Dict.mem_values_iff _ _).1 hl
  exact ⟨l, (h.seat s l hs).2⟩

/-- One seat has one lease. -/
theorem Exact.seat_unique (h : m.Exact) {i j : String} {l l' : Lease} (hi : m.byId.get? i = some l)
    (hj : m.byId.get? j = some l') (hs : l.seatId = l'.seatId) : i = j := by
  obtain ⟨rfl, hl⟩ := h.id i l hi
  obtain ⟨rfl, hl'⟩ := h.id j l' hj
  rw [hs, hl', Option.some.injEq] at hl
  rw [hl]

end LeaseManager

namespace LeaseIndexes

open Runs FreshNames

def step (m : LeaseManager) (c : ClockedCall) : LeaseAnswer × LeaseManager :=
  match c.call with
  | .acquire s holder owner ttl uuid =>
    (.lease (m.acquire s holder owner ttl uuid c.now c.later).1, (m.acquire s holder owner ttl uuid c.now c.later).2)
  | .renew i ttl => (.lease (m.renew i ttl c.now c.later).1, (m.renew i ttl c.now c.later).2)
  | .release i => (.released, m.release i)
  | .validate i s => (.lease (m.validate i s c.now).1, (m.validate i s c.now).2)
  | .getActiveLease s => (.active (m.getActiveLease s c.now).1, (m.getActiveLease s c.now).2)
  | .expireLeases => (.expired (m.expireLeases c.now).1, (m.expireLeases c.now).2)

/-- The id a call has generated: an acquisition that is refused generates none. -/
def generates (e : ClockedCall × LeaseAnswer) : Option String :=
  match e.1.call, e.2 with
  | .acquire _ _ _ _ _, .lease (.ok l) => some l.leaseId
  | _, _ => none

abbrev after (ttl : Time) (cs : List ClockedCall) : LeaseManager := run step (LeaseManager.new ttl) cs

/-- The ids generated by a run, in order. -/
abbrev generated (ttl : Time) (cs : List ClockedCall) : List String := given step generates (LeaseManager.new ttl) cs

/-- The id has a record. -/
def Recorded (m : LeaseManager) (i : String) : Prop := ∃ l, m.byId.get? i = some l

open LeaseManager in
/-- **A call keeps the indexes exact** if the id it generates has no record, and no id gets a record but that one. -/
theorem keeps_exact : Keeps step Recorded generates LeaseManager.Exact := by
  rintro m ⟨call, now, later⟩ h hf
  have hp : (m.expireLocked now).2.Exact := exact_expireLocked h now
  have hpurged : ∀ i, Recorded (m.expireLocked now).2 i → Recorded m i :=
    fun i ⟨l, hl⟩ => ⟨l, expireLocked_byId_sub hl⟩
  cases call with
  | acquire s holder owner ttl uuid =>
    simp only [step] at hf ⊢
    obtain ⟨hex, hwrites⟩ := exact_acquire h s holder owner ttl uuid now later fun l hl => by
      rw [hl] at hf
      exact Option.eq_none_iff_forall_not_mem.2 fun o ho => hf l.leaseId rfl ⟨o, ho⟩
    refine ⟨hex, fun i ⟨l, hl⟩ => ?_⟩
    rcases hwrites i l hl with hl | ⟨hok, rfl⟩
    · exact Or.inl ⟨l, hl⟩
    · rw [hok]
      exact Or.inr rfl
  | renew j ttl =>
    obtain ⟨hex, hwrites⟩ := exact_renew h j ttl now later
    refine ⟨hex, fun i ⟨l, hl⟩ => Or.inl ?_⟩
    obtain ⟨l', hl', -⟩ := hwrites i l hl
    exact ⟨l', hl'⟩
  | release j =>
    refine ⟨exact_release h j, fun i ⟨l, hl⟩ => Or.inl ⟨l, ?_⟩⟩
    simp only [step] at hl
    rw [release_byId] at hl
    split at hl
    · cases hl
    · exact hl
  | validate j s =>
    simp only [step]
    rw [validate_state]
    exact ⟨hp, fun i hi => Or.inl (hpurged i hi)⟩
  | getActiveLease s => exact ⟨hp, fun i hi => Or.inl (hpurged i hi)⟩
  | expireLeases => exact ⟨hp, fun i hi => Or.inl (hpurged i hi)⟩

theorem not_recorded_new (ttl : Time) (i : String) : ¬ Recorded (LeaseManager.new ttl) i := fun ⟨_, hl⟩ => (nomatch hl)

theorem exact_after (ttl : Time) (cs : List ClockedCall) (hd : (generated ttl cs).Nodup) : (after ttl cs).Exact :=
  (kept_run keeps_exact (LeaseManager.exact_new ttl) (not_recorded_new ttl) cs hd).1

/-- **The two indexes stay inverse to each other under any clock**: after every run of calls whose generated ids are
never repeated, they are; no seat has two leases; and an id that was in the indexes and is not after some call is not
after any later one. -/
theorem indexes_inverse (ttl : Time) (cs : List ClockedCall) (hd : (generated ttl cs).Nodup) :
    (after ttl cs).Inverse ∧
    (∀ i j l l', (after ttl cs).byId.get? i = some l → (after ttl cs).byId.get? j = some l' →
      l.seatId = l'.seatId → i = j) ∧
    ∀ pre mid post i, cs = pre ++ mid ++ post → (after ttl pre).Has i → ¬ (after ttl (pre ++ mid)).Has i →
      ¬ (after ttl cs).Has i := by
  have hex := exact_after ttl cs hd
  refine ⟨hex.inverse, fun i j l l' hi hj hs => hex.seat_unique hi hj hs, ?_⟩
  rintro pre mid post i rfl hpre hmid
  have hdmid := nodup_init hd
  rw [(exact_after ttl pre (nodup_init hdmid)).has_iff] at hpre
  rw [(exact_after ttl (pre ++ mid) hdmid).has_iff] at hmid
  rw [hex.has_iff]
  exact not_back keeps_exact (LeaseManager.exact_new ttl) (not_recorded_new ttl) post hd hpre hmid

/-- A lease whose deadline passes, a sweep, a clock that goes back before the deadline, a renewal, and the seat's next
lease. -/
def clockBack : List ClockedCall :=
  [⟨.acquire 1 "Server 1" "ann" (some 5) "a", 0, 0⟩, ⟨.expireLeases, 10, 10⟩, ⟨.renew "a" none, 2, 1⟩,
    ⟨.acquire 1 "Server 2" "bob" (some (-1)) "b", 2, 1⟩]

theorem indexes_inverse_clockBack :
    (after 30 clockBack).Inverse ∧ (after 30 clockBack).Has "b" ∧ ¬ (after 30 clockBack).Has "a" := by
  have h := indexes_inverse 30 clockBack (by decide +kernel)
  refine ⟨h.1, by decide +kernel, ?_⟩
  exact h.2.2 (clockBack.take 1) [⟨.expireLeases, 10, 10⟩] (clockBack.drop 2) "a" rfl (by decide +kernel)
    (by decide +kernel)

end LeaseIndexes
end Ticket
