import Mathlib.Algebra.Order.Ring.Rat
import Mathlib.Data.Rat.Floor
import TicketBooking.Dict
import TicketBooking.Expiry
/-!
# Lease — the lease authority (`locking/lease_manager.py`)

`LeaseManager` is `DistributedLeaseManager`: one record per active lease, indexed twice, by seat and by id.  Every
operation but `release` first drops the overdue leases of **every** seat (`expireLocked`), and only `expireLeases`
reports which.  The clock readings an operation takes are its arguments, in the order it takes them, and `uuid` is the
id `uuid4` would generate.  `Exact` says that the two indexes hold the same leases; on exact indexes a purge is
`Expiry.liveAt` on both (`expireLocked_bySeat`, `expireLocked_byId`).
-/
namespace Ticket

/-- Seconds since the epoch, and durations, taken exactly. -/
abbrev Time := ℚ

/-- Python's `round` to an integer: to nearest, ties to even. -/
def pyRound (x : ℚ) : ℤ :=
  if x - x.floor < 1 / 2 then x.floor
  else if 1 / 2 < x - x.floor then x.floor + 1
  else if x.floor % 2 = 0 then x.floor else x.floor + 1

structure Lease where
  leaseId : String
  seatId : ℤ
  holder : String
  owner : String
  expiresAt : Time
  deriving DecidableEq

def Lease.remainingSeconds (l : Lease) (now : Time) : ℤ := max 0 (pyRound (l.expiresAt - now))

inductive LeaseError where
  /-- `LeaseConflictError` -/
  | conflict (message : String)
  /-- `LeaseNotFoundError` -/
  | notFound (message : String)
  deriving DecidableEq

structure LeaseManager where
  defaultTtlSeconds : Time
  bySeat : Dict ℤ Lease
  byId : Dict String Lease

namespace LeaseManager

open Expiry (liveAt)

def new (defaultTtlSeconds : Time) : LeaseManager := ⟨defaultTtlSeconds, Dict.empty, Dict.empty⟩

/-- One turn of the loop of `_expire_locked`. -/
def drop (m : LeaseManager) (l : Lease) : LeaseManager :=
  { m with bySeat := m.bySeat.erase l.seatId, byId := m.byId.erase l.leaseId }

def overdue (m : LeaseManager) (now : Time) : List Lease :=
  m.bySeat.values.filter (fun l => decide (l.expiresAt ≤ now))

/-- `_expire_locked`: the leases dropped, and what is left. -/
def expireLocked (m : LeaseManager) (now : Time) : List Lease × LeaseManager :=
  (m.overdue now, (m.overdue now).foldl drop m)

/-- The two writes with which `acquire` and `renew` record a lease. -/
def put (m : LeaseManager) (l : Lease) : LeaseManager :=
  { m with bySeat := m.bySeat.set l.seatId l, byId := m.byId.set l.leaseId l }

/-- `acquire`: `now` is the purge's reading, `later` the one the deadline or the refusal's text is computed from. -/
def acquire (m : LeaseManager) (seatId : ℤ) (holder owner : String) (ttlSeconds : Option Time) (uuid : String)
    (now later : Time) : Except LeaseError Lease × LeaseManager :=
  let m := (m.expireLocked now).2
  match m.bySeat.get? seatId with
  | some existing =>
    (.error (.conflict s!"Seat {seatId} is leased by {existing.holder} until {existing.remainingSeconds later}s"), m)
  | none =>
    let lease : Lease := ⟨uuid, seatId, holder, owner, later + ttlSeconds.getD m.defaultTtlSeconds⟩
    (.ok lease, m.put lease)

def renew (m : LeaseManager) (leaseId : String) (ttlSeconds : Option Time) (now later : Time) :
    Except LeaseError Lease × LeaseManager :=
  let m := (m.expireLocked now).2
  match m.byId.get? leaseId with
  | none => (.error (.notFound s!"Lease {leaseId} is not active"), m)
  | some lease =>
    let renewed : Lease := { lease with expiresAt := later + ttlSeconds.getD m.defaultTtlSeconds }
    (.ok renewed, m.put renewed)

/-- `release`: the one operation that reads no clock. -/
def release (m : LeaseManager) (leaseId : String) : LeaseManager :=
  match m.byId.get? leaseId with
  | none => m
  | some lease =>
    let m := { m with byId := m.byId.erase leaseId }
    if m.bySeat.get? lease.seatId = some lease then { m with bySeat := m.bySeat.erase lease.seatId } else m

def validate (m : LeaseManager) (leaseId : String) (seatId : Option ℤ) (now : Time) :
    Except LeaseError Lease × LeaseManager :=
  let m := (m.expireLocked now).2
  match m.byId.get? leaseId with
  | none => (.error (.notFound s!"Lease {leaseId} is not active"), m)
  | some lease =>
    match seatId with
    | none => (.ok lease, m)
    | some s =>
      if lease.seatId ≠ s then (.error (.notFound s!"Lease {leaseId} does not belong to Seat {s}"), m)
      else (.ok lease, m)

def getActiveLease (m : LeaseManager) (seatId : ℤ) (now : Time) : Option Lease × LeaseManager :=
  let m := (m.expireLocked now).2
  (m.bySeat.get? seatId, m)

def expireLeases (m : LeaseManager) (now : Time) : List Lease × LeaseManager := m.expireLocked now

/-! ## The two indexes -/

/-- **The two indexes hold the same leases**, each under its own seat and its own id. -/
structure Exact (m : LeaseManager) : Prop where
  seat : ∀ s l, m.bySeat.get? s = some l → l.seatId = s ∧ m.byId.get? l.leaseId = some l
  id : ∀ i l, m.byId.get? i = some l → l.leaseId = i ∧ m.bySeat.get? l.seatId = some l

abbrev live (now : Time) {κ : Type} (h : κ → Option Lease) : κ → Option Lease := liveAt Lease.expiresAt now h

theorem exact_new (ttl : Time) : (new ttl).Exact :=
  ⟨fun _ _ h => (nomatch h), fun _ _ h => (nomatch h)⟩

theorem foldl_drop_bySeat : ∀ (ls : List Lease) (m : LeaseManager),
    (ls.foldl drop m).bySeat = (ls.map Lease.seatId).foldl Dict.erase m.bySeat
  | [], _ => rfl
  | l :: ls, m => by
    rw [List.foldl_cons, foldl_drop_bySeat ls, List.map_cons, List.foldl_cons]
    rfl

theorem foldl_drop_byId : ∀ (ls : List Lease) (m : LeaseManager),
    (ls.foldl drop m).byId = (ls.map Lease.leaseId).foldl Dict.erase m.byId
  | [], _ => rfl
  | l :: ls, m => by
    rw [List.foldl_cons, foldl_drop_byId ls, List.map_cons, List.foldl_cons]
    rfl

theorem foldl_drop_ttl : ∀ (ls : List Lease) (m : LeaseManager),
    (ls.foldl drop m).defaultTtlSeconds = m.defaultTtlSeconds
  | [], _ => rfl
  | l :: ls, m => by
    rw [List.foldl_cons, foldl_drop_ttl ls]
    rfl

@[simp] theorem expireLocked_ttl (m : LeaseManager) (now : Time) :
    (m.expireLocked now).2.defaultTtlSeconds = m.defaultTtlSeconds := foldl_drop_ttl _ _

theorem mem_overdue (m : LeaseManager) (now : Time) (l : Lease) :
    l ∈ m.overdue now ↔ (∃ s, m.bySeat.get? s = some l) ∧ l.expiresAt ≤ now := by
  unfold overdue
  rw [List.mem_filter, Dict.mem_values_iff, decide_eq_true_eq]

variable {m : LeaseManager}

theorem overdue_eq_nil_iff (m : LeaseManager) (now : Time) :
    m.overdue now = [] ↔ live now m.bySeat.get? = m.bySeat.get? := by
  constructor
  · refine fun h => funext fun s => ?_
    cases hs : m.bySeat.get? s with
    | none => exact Expiry.liveAt_eq_none.2 fun v hv => (nomatch hs.symm.trans hv)
    | some l =>
      refine Expiry.liveAt_eq_some.2 ⟨hs, lt_of_not_ge fun ho => ?_⟩
      exact List.not_mem_nil (h ▸ (mem_overdue m now l).2 ⟨⟨s, hs⟩, ho⟩)
  · refine fun h => List.eq_nil_iff_forall_not_mem.2 fun l hl => ?_
    obtain ⟨⟨s, hs⟩, ho⟩ := (mem_overdue m now l).1 hl
    exact absurd (Expiry.liveAt_eq_some.1 ((congrFun h s).trans hs)).2 (not_lt.2 ho)

/-- Each lease of the seat index stands under its own seat, whatever the ids. -/
def Keyed (m : LeaseManager) : Prop := ∀ s l, m.bySeat.get? s = some l → l.seatId = s

theorem Exact.keyed (h : m.Exact) : m.Keyed := fun s l hl => (h.seat s l hl).1

/-- **A purge leaves the live part of the seat index.** -/
theorem Keyed.expireLocked_bySeat (h : m.Keyed) (now : Time) :
    (m.expireLocked now).2.bySeat.get? = live now m.bySeat.get? := by
  funext s
  unfold expireLocked
  rw [foldl_drop_bySeat, Dict.get?_foldl_erase]
  split
  · rename_i hs
    obtain ⟨l, hl, hls⟩ := List.mem_map.1 hs
    obtain ⟨⟨s', hs'⟩, ho⟩ := (mem_overdue m now l).1 hl
    refine (Expiry.liveAt_eq_none.2 fun v hv => ?_).symm
    rw [← hls, h s' l hs', hs', Option.some.injEq] at hv
    exact hv ▸ ho
  · rename_i hs
    cases hg : m.bySeat.get? s with
    | none => exact (Expiry.liveAt_eq_none.2 fun v hv => by rw [hg] at hv; cases hv).symm
    | some l =>
      refine (Expiry.liveAt_eq_some.2 ⟨hg, lt_of_not_ge fun ho => hs ?_⟩).symm
      exact List.mem_map.2 ⟨l, (mem_overdue m now l).2 ⟨⟨s, hg⟩, ho⟩, h s l hg⟩

theorem expireLocked_bySeat (h : m.Exact) (now : Time) :
    (m.expireLocked now).2.bySeat.get? = live now m.bySeat.get? := h.keyed.expireLocked_bySeat now

/-- **A purge leaves the live part of the id index.** -/
theorem expireLocked_byId (h : m.Exact) (now : Time) :
    (m.expireLocked now).2.byId.get? = live now m.byId.get? := by
  funext i
  unfold expireLocked
  rw [foldl_drop_byId, Dict.get?_foldl_erase]
  split
  · rename_i hi
    obtain ⟨l, hl, hli⟩ := List.mem_map.1 hi
    obtain ⟨⟨s, hs⟩, ho⟩ := (mem_overdue m now l).1 hl
    refine (Expiry.liveAt_eq_none.2 fun v hv => ?_).symm
    rw [← hli, (h.seat s l hs).2, Option.some.injEq] at hv
    exact hv ▸ ho
  · rename_i hi
    cases hg : m.byId.get? i with
    | none => exact (Expiry.liveAt_eq_none.2 fun v hv => by rw [hg] at hv; cases hv).symm
    | some l =>
      refine (Expiry.liveAt_eq_some.2 ⟨hg, lt_of_not_ge fun ho => hi ?_⟩).symm
      exact List.mem_map.2 ⟨l, (mem_overdue m now l).2 ⟨⟨_, (h.id i l hg).2⟩, ho⟩, (h.id i l hg).1⟩

theorem exact_of_live {m' : LeaseManager} (h : m.Exact) (now : Time)
    (hs : m'.bySeat.get? = live now m.bySeat.get?) (hi : m'.byId.get? = live now m.byId.get?) : m'.Exact := by
  constructor
  · intro s l hl
    rw [hs] at hl
    obtain ⟨hg, hlt⟩ := Expiry.liveAt_eq_some.1 hl
    obtain ⟨hls, hid⟩ := h.seat s l hg
    exact ⟨hls, by rw [hi]; exact Expiry.liveAt_eq_some.2 ⟨hid, hlt⟩⟩
  · intro i l hl
    rw [hi] at hl
    obtain ⟨hg, hlt⟩ := Expiry.liveAt_eq_some.1 hl
    obtain ⟨hli, hse⟩ := h.id i l hg
    exact ⟨hli, by rw [hs]; exact Expiry.liveAt_eq_some.2 ⟨hse, hlt⟩⟩

theorem exact_expireLocked (h : m.Exact) (now : Time) : (m.expireLocked now).2.Exact :=
  exact_of_live h now (expireLocked_bySeat h now) (expireLocked_byId h now)

/-! ## Each operation, on the live part -/

theorem live_seat_iff (h : m.Exact) (now : Time) (s : ℤ) (l : Lease) :
    live now m.bySeat.get? s = some l ↔ l.seatId = s ∧ live now m.byId.get? l.leaseId = some l := by
  rw [Expiry.liveAt_eq_some, Expiry.liveAt_eq_some]
  constructor
  · rintro ⟨hs, hl⟩
    exact ⟨(h.seat s l hs).1, (h.seat s l hs).2, hl⟩
  · rintro ⟨rfl, hi, hl⟩
    exact ⟨(h.id _ l hi).2, hl⟩

section
variable (h : m.Exact) (seatId : ℤ) (holder owner leaseId uuid : String) (ttl : Option Time) (now later : Time)
include h

theorem acquire_free (hs : live now m.bySeat.get? seatId = none) :
    m.acquire seatId holder owner ttl uuid now later =
      (.ok ⟨uuid, seatId, holder, owner, later + ttl.getD m.defaultTtlSeconds⟩,
        (m.expireLocked now).2.put ⟨uuid, seatId, holder, owner, later + ttl.getD m.defaultTtlSeconds⟩) := by
  simp only [acquire, expireLocked_bySeat h, hs, expireLocked_ttl]

theorem acquire_taken {e : Lease} (hs : live now m.bySeat.get? seatId = some e) :
    m.acquire seatId holder owner ttl uuid now later =
      (.error (.conflict s!"Seat {seatId} is leased by {e.holder} until {e.remainingSeconds later}s"),
        (m.expireLocked now).2) := by
  simp only [acquire, expireLocked_bySeat h, hs]

theorem renew_live {l : Lease} (hi : live now m.byId.get? leaseId = some l) :
    m.renew leaseId ttl now later =
      (.ok { l with expiresAt := later + ttl.getD m.defaultTtlSeconds },
        (m.expireLocked now).2.put { l with expiresAt := later + ttl.getD m.defaultTtlSeconds }) := by
  simp only [renew, expireLocked_byId h, hi, expireLocked_ttl]

theorem renew_dead (hi : live now m.byId.get? leaseId = none) :
    m.renew leaseId ttl now later =
      (.error (.notFound s!"Lease {leaseId} is not active"), (m.expireLocked now).2) := by
  simp only [renew, expireLocked_byId h, hi]

theorem validate_ok_iff (s : Option ℤ) (l : Lease) :
    (m.validate leaseId s now).1 = .ok l ↔ live now m.byId.get? leaseId = some l ∧ ∀ z ∈ s, l.seatId = z := by
  simp only [validate, expireLocked_byId h]
  cases hi : live now m.byId.get? leaseId with
  | none => simp
  | some l' =>
    cases s with
    | none => simp
    | some z =>
      simp only [Option.mem_some_iff, forall_eq', Option.some.injEq]
      by_cases hz : l'.seatId = z
      · simp only [hz, ne_eq, not_true_eq_false, if_false, Except.ok.injEq]
        exact ⟨fun he => ⟨he, he ▸ hz⟩, fun he => he.1⟩
      · simp only [hz, ne_eq, not_false_eq_true, if_true, reduceCtorEq, false_iff, not_and]
        rintro rfl
        exact hz

end

/-- A validation is only ever refused as not found. -/
theorem validate_error {m : LeaseManager} {leaseId : String} {s : Option ℤ} {now : Time} {e : LeaseError}
    (he : (m.validate leaseId s now).1 = .error e) : ∃ text, e = .notFound text := by
  simp only [validate] at he
  cases hi : (m.expireLocked now).2.byId.get? leaseId with
  | none =>
    simp only [hi] at he
    exact ⟨_, (Except.error.inj he).symm⟩
  | some l =>
    simp only [hi] at he
    cases s with
    | none => cases he
    | some z =>
      simp only at he
      split at he
      · exact ⟨_, (Except.error.inj he).symm⟩
      · cases he

theorem validate_state (m : LeaseManager) (leaseId : String) (s : Option ℤ) (now : Time) :
    (m.validate leaseId s now).2 = (m.expireLocked now).2 := by
  simp only [validate]
  cases (m.expireLocked now).2.byId.get? leaseId with
  | none => rfl
  | some l =>
    cases s with
    | none => rfl
    | some s =>
      simp only
      split <;> rfl

/-! ## The operations keep the indexes exact -/

/-- Recording a lease: its seat is free or its own, its id is unused or its own. -/
theorem exact_put (h : m.Exact) (l : Lease) (hs : ∀ o, m.bySeat.get? l.seatId = some o → o.leaseId = l.leaseId)
    (hi : ∀ o, m.byId.get? l.leaseId = some o → o.seatId = l.seatId) : (m.put l).Exact := by
  constructor
  · intro s o ho
    simp only [put, Dict.get?_set] at ho ⊢
    split at ho
    · rename_i hsl
      obtain rfl := Option.some.inj ho
      exact ⟨hsl.symm, if_pos rfl⟩
    · rename_i hsl
      obtain ⟨hos, hoi⟩ := h.seat s o ho
      have hne : o.leaseId ≠ l.leaseId := fun he => hsl (by rw [← hos]; exact hi o (he ▸ hoi))
      exact ⟨hos, by rw [if_neg hne]; exact hoi⟩
  · intro i o ho
    simp only [put, Dict.get?_set] at ho ⊢
    split at ho
    · rename_i hil
      obtain rfl := Option.some.inj ho
      exact ⟨hil.symm, if_pos rfl⟩
    · rename_i hil
      obtain ⟨hoi, hos⟩ := h.id i o ho
      have hne : o.seatId ≠ l.seatId := fun he => hil (by rw [← hoi]; exact hs o (he ▸ hos))
      exact ⟨hoi, by rw [if_neg hne]; exact hos⟩

theorem release_of_some (h : m.Exact) {i : String} {l : Lease} (hl : m.byId.get? i = some l) :
    m.release i = { m with bySeat := m.bySeat.erase l.seatId, byId := m.byId.erase i } := by
  unfold release
  rw [hl]
  exact if_pos (h.id i l hl).2

theorem release_of_none {i : String} (hi : m.byId.get? i = none) : m.release i = m := by
  unfold release
  rw [hi]

theorem exact_release (h : m.Exact) (i : String) : (m.release i).Exact := by
  cases hi : m.byId.get? i with
  | none => rwa [release_of_none hi]
  | some l =>
    rw [release_of_some h hi]
    obtain ⟨hli, hls⟩ := h.id i l hi
    constructor
    · intro s o ho
      simp only [Dict.get?_erase] at ho ⊢
      split at ho
      · cases ho
      · rename_i hs
        obtain ⟨hos, hoi⟩ := h.seat s o ho
        have hne : o.leaseId ≠ i := by
          intro he
          rw [he, hi] at hoi
          exact hs (by rw [← hos, Option.some.inj hoi])
        exact ⟨hos, by rw [if_neg hne]; exact hoi⟩
    · intro j o ho
      simp only [Dict.get?_erase] at ho ⊢
      split at ho
      · cases ho
      · rename_i hj
        obtain ⟨hoj, hos⟩ := h.id j o ho
        have hne : o.seatId ≠ l.seatId := by
          intro he
          rw [he, hls] at hos
          exact hj (by rw [← hoj, ← Option.some.inj hos, hli])
        exact ⟨hoj, by rw [if_neg hne]; exact hos⟩

/-! ## What each operation leaves under an id -/

/-- A purge takes records away and writes none. -/
theorem expireLocked_byId_sub {now : Time} {i : String} {l : Lease} (hl : (m.expireLocked now).2.byId.get? i = some l) :
    m.byId.get? i = some l := by
  unfold expireLocked at hl
  rw [foldl_drop_byId, Dict.get?_foldl_erase] at hl
  split at hl
  · cases hl
  · exact hl

theorem release_byId (m : LeaseManager) (leaseId i : String) :
    (m.release leaseId).byId.get? i = if i = leaseId then none else m.byId.get? i := by
  cases hi : m.byId.get? leaseId with
  | none =>
    rw [release_of_none hi]
    split
    · rename_i he
      rw [he, hi]
    · rfl
  | some l =>
    have hbyId : (m.release leaseId).byId = m.byId.erase leaseId := by
      unfold release
      rw [hi]
      dsimp only
      split <;> rfl
    rw [hbyId, Dict.get?_erase]

/-- A lease that is granted has the id that was generated, and is for the seat. -/
theorem acquire_ok {seatId : ℤ} {holder owner uuid : String} {ttl : Option Time} {now later : Time} {l : Lease}
    (ha : (m.acquire seatId holder owner ttl uuid now later).1 = .ok l) : l.leaseId = uuid ∧ l.seatId = seatId := by
  unfold acquire at ha
  dsimp only at ha
  split at ha
  · cases ha
  · obtain rfl := Except.ok.inj ha
    exact ⟨rfl, rfl⟩

/-- **An acquisition keeps the indexes exact**, if the id of the lease it grants is on no other, and writes under no
other id. -/
theorem exact_acquire (h : m.Exact) (seatId : ℤ) (holder owner : String) (ttl : Option Time) (uuid : String)
    (now later : Time) (hf : ∀ l, (m.acquire seatId holder owner ttl uuid now later).1 = .ok l →
      m.byId.get? l.leaseId = none) :
    (m.acquire seatId holder owner ttl uuid now later).2.Exact ∧
      ∀ i l, (m.acquire seatId holder owner ttl uuid now later).2.byId.get? i = some l →
        m.byId.get? i = some l ∨ ((m.acquire seatId holder owner ttl uuid now later).1 = .ok l ∧ l.leaseId = i) := by
  have hp : (m.expireLocked now).2.Exact := exact_expireLocked h now
  cases hs : live now m.bySeat.get? seatId with
  | none =>
    rw [acquire_free h seatId holder owner uuid ttl now later hs] at hf ⊢
    have hfree : (m.expireLocked now).2.byId.get? uuid = none := by
      cases hu : (m.expireLocked now).2.byId.get? uuid with
      | none => rfl
      | some o => exact absurd ((hf _ rfl).symm.trans (expireLocked_byId_sub hu)) (by simp)
    refine ⟨exact_put hp _ (fun o ho => ?_) (fun o ho => ?_), fun i l hl => ?_⟩
    · rw [expireLocked_bySeat h] at ho
      exact absurd (hs.symm.trans ho) (by simp)
    · exact absurd (hfree.symm.trans ho) (by simp)
    · simp only [put, Dict.get?_set] at hl
      split at hl
      · rename_i hi
        obtain rfl := Option.some.inj hl
        exact Or.inr ⟨rfl, hi.symm⟩
      · exact Or.inl (expireLocked_byId_sub hl)
  | some e =>
    rw [acquire_taken h seatId holder owner uuid ttl now later hs]
    exact ⟨hp, fun i l hl => Or.inl (expireLocked_byId_sub hl)⟩

/-- **A renewal keeps the indexes exact**, and every id on its seat. -/
theorem exact_renew (h : m.Exact) (leaseId : String) (ttl : Option Time) (now later : Time) :
    (m.renew leaseId ttl now later).2.Exact ∧ ∀ i l, (m.renew leaseId ttl now later).2.byId.get? i = some l →
      ∃ l', m.byId.get? i = some l' ∧ l'.seatId = l.seatId := by
  have hp : (m.expireLocked now).2.Exact := exact_expireLocked h now
  cases hi : live now m.byId.get? leaseId with
  | none =>
    rw [renew_dead h leaseId ttl now later hi]
    exact ⟨hp, fun i l hl => ⟨l, expireLocked_byId_sub hl, rfl⟩⟩
  | some l =>
    rw [renew_live h leaseId ttl now later hi]
    rw [← expireLocked_byId h] at hi
    obtain ⟨hli, hls⟩ := hp.id leaseId l hi
    refine ⟨exact_put hp _ (fun o ho => ?_) (fun o ho => ?_), fun j o ho => ?_⟩
    · rw [Option.some.inj (hls.symm.trans ho)]
    · simp only [hli, hi] at ho
      rw [Option.some.inj ho]
    · simp only [put, Dict.get?_set] at ho
      split at ho
      · rename_i hj
        obtain rfl := Option.some.inj ho
        exact ⟨l, expireLocked_byId_sub (by rw [hj, hli]; exact hi), rfl⟩
      · exact ⟨o, expireLocked_byId_sub ho, rfl⟩

/-! ## The operations keep the seat index keyed, whatever the ids -/

theorem keyed_new (ttl : Time) : (new ttl).Keyed := (exact_new ttl).keyed

theorem Keyed.expireLocked (h : m.Keyed) (now : Time) : (m.expireLocked now).2.Keyed := by
  intro s l hl
  rw [h.expireLocked_bySeat] at hl
  exact h s l (Expiry.liveAt_eq_some.1 hl).1

theorem Keyed.put (h : m.Keyed) (l : Lease) : (m.put l).Keyed := by
  intro s o ho
  simp only [LeaseManager.put, Dict.get?_set] at ho
  split at ho
  · rename_i hs
    obtain rfl := Option.some.inj ho
    exact hs.symm
  · exact h s o ho

theorem Keyed.release (h : m.Keyed) (leaseId : String) : (m.release leaseId).Keyed := by
  unfold LeaseManager.release
  split
  · exact h
  · dsimp only
    split
    · intro s o ho
      simp only [Dict.get?_erase] at ho
      split at ho
      · cases ho
      · exact h s o ho
    · exact h

theorem Keyed.acquire (h : m.Keyed) (seatId : ℤ) (holder owner : String) (ttl : Option Time) (uuid : String)
    (now later : Time) : (m.acquire seatId holder owner ttl uuid now later).2.Keyed := by
  unfold LeaseManager.acquire
  dsimp only
  split
  · exact h.expireLocked now
  · exact (h.expireLocked now).put _

theorem Keyed.renew (h : m.Keyed) (leaseId : String) (ttl : Option Time) (now later : Time) :
    (m.renew leaseId ttl now later).2.Keyed := by
  unfold LeaseManager.renew
  dsimp only
  split
  · exact h.expireLocked now
  · exact (h.expireLocked now).put _

/-- **A seat without a lease is granted.** -/
theorem Keyed.acquire_ok (h : m.Keyed) {seatId : ℤ} (hs : m.bySeat.get? seatId = none) (holder owner : String)
    (ttl : Option Time) (uuid : String) (now later : Time) :
    ∃ l, (m.acquire seatId holder owner ttl uuid now later).1 = .ok l := by
  have hnone : (m.expireLocked now).2.bySeat.get? seatId = none := by
    rw [h.expireLocked_bySeat]
    exact Expiry.liveAt_eq_none.2 fun v hv => (nomatch hs.symm.trans hv)
  exact ⟨_, by simp only [LeaseManager.acquire, hnone]; rfl⟩

end LeaseManager
end Ticket
