import Mathlib
import TicketBooking.Lease
import TicketBooking.Runs
/-!
# LeaseTrace — the lease authority against its history

What a client may rely on is read off the history of calls and answers: `held` is the latest record of each id that was
acquired and not released since, and an id is `Live` while the clock is before that record's deadline.  The two indexes
drop records whenever some call happens to purge them, but along every run the id index lags `held`
(`Expiry.Lags`, `tracks_run`), so each answer is the history's: `refines_trace`.  From the same fact follow that
releasing a dead id disturbs nobody (`release_dead_quiet`) and that seats do not interfere (`answer_onSeat`).
-/
namespace Ticket

inductive LeaseCall where
  | acquire (seatId : ℤ) (holder owner : String) (ttlSeconds : Option Time) (uuid : String)
  | renew (leaseId : String) (ttlSeconds : Option Time)
  | release (leaseId : String)
  | validate (leaseId : String) (seatId : Option ℤ)
  | getActiveLease (seatId : ℤ)
  | expireLeases

/-- A call with its first and last clock readings.  `release` takes none: its times say when it is made. -/
structure TimedCall where
  call : LeaseCall
  now : Time
  later : Time
  le : now ≤ later

inductive LeaseAnswer where
  | lease (result : Except LeaseError Lease)
  | active (lease : Option Lease)
  | expired (leases : List Lease)
  | released

namespace LeaseTrace

open Runs Expiry LeaseManager

def step (m : LeaseManager) (c : TimedCall) : LeaseAnswer × LeaseManager :=
  match c.call with
  | .acquire s holder owner ttl uuid =>
    (.lease (m.acquire s holder owner ttl uuid c.now c.later).1, (m.acquire s holder owner ttl uuid c.now c.later).2)
  | .renew i ttl => (.lease (m.renew i ttl c.now c.later).1, (m.renew i ttl c.now c.later).2)
  | .release i => (.released, m.release i)
  | .validate i s => (.lease (m.validate i s c.now).1, (m.validate i s c.now).2)
  | .getActiveLease s => (.active (m.getActiveLease s c.now).1, (m.getActiveLease s c.now).2)
  | .expireLeases => (.expired (m.expireLeases c.now).1, (m.expireLeases c.now).2)

def Chronological (cs : List TimedCall) : Prop := cs.Pairwise (fun a b => a.later ≤ b.now)

/-- The id an acquisition would issue, and for which seat. -/
def issues : LeaseCall → Option (String × ℤ)
  | .acquire s _ _ _ uuid => some (uuid, s)
  | _ => none

def issued (cs : List TimedCall) : List (String × ℤ) := cs.filterMap (fun c => issues c.call)

def DistinctIds (cs : List TimedCall) : Prop := ((issued cs).map Prod.fst).Nodup

/-! ## What the history says -/

abbrev History := List (TimedCall × LeaseAnswer)

/-- An acquisition or renewal that returned writes the id's record; a release takes it away. -/
def note (h : String → Option Lease) (e : TimedCall × LeaseAnswer) : String → Option Lease :=
  match e.1.call, e.2 with
  | .acquire _ _ _ _ _, .lease (.ok l) => Function.update h l.leaseId (some l)
  | .renew _ _, .lease (.ok l) => Function.update h l.leaseId (some l)
  | .release i, _ => Function.update h i none
  | _, _ => h

/-- **The record of each id acquired and not released since**, as last acquired or renewed. -/
def held (tr : History) : String → Option Lease := tr.foldl note (fun _ => none)

/-- **An id is live at `t`**: acquired, not released since, and `t` is before its last deadline. -/
def Live (tr : History) (t : Time) (i : String) : Prop := ∃ l, held tr i = some l ∧ t < l.expiresAt

/-- Some acquisition for seat `s` returned the id. -/
def AcquiredFor (tr : History) (i : String) (s : ℤ) : Prop :=
  ∃ c holder owner ttl uuid l, c.call = .acquire s holder owner ttl uuid ∧ (c, .lease (.ok l)) ∈ tr ∧ l.leaseId = i

/-- **What the trace specification asks of the answer to a call.** -/
def Meets (tr : History) (c : TimedCall) (a : LeaseAnswer) : Prop :=
  match c.call with
  | .acquire s _ _ _ _ =>
    (∃ text, a = .lease (.error (.conflict text))) ↔ ∃ i, Live tr c.now i ∧ AcquiredFor tr i s
  | .renew i _ => (∃ l, a = .lease (.ok l)) ↔ Live tr c.now i
  | .release _ => a = .released
  | .validate i s =>
    (∃ l, a = .lease (.ok l)) ↔ Live tr c.now i ∧ (s = none ∨ ∃ z, s = some z ∧ AcquiredFor tr i z)
  | .getActiveLease s =>
    (∀ i j, Live tr c.now i → AcquiredFor tr i s → Live tr c.now j → AcquiredFor tr j s → i = j) ∧
    ∃ o, a = .active o ∧
      ∀ l, o = some l ↔ held tr l.leaseId = some l ∧ c.now < l.expiresAt ∧ AcquiredFor tr l.leaseId s
  | .expireLeases => ∃ ls, a = .expired ls

theorem held_snoc (tr : History) (e : TimedCall × LeaseAnswer) : held (tr ++ [e]) = note (held tr) e := by
  unfold held
  rw [List.foldl_append]
  rfl

theorem lags_note {t : Time} {d h : String → Option Lease} (hl : Lags Lease.expiresAt t d h)
    (e : TimedCall × LeaseAnswer) : Lags Lease.expiresAt t (note d e) (note h e) := by
  unfold note
  split
  · exact hl.write _ _
  · exact hl.write _ _
  · exact hl.write _ _
  · exact hl

/-- **Where a record of the history comes from**: it was there before, or the call returned it. -/
theorem note_eq_some {h : String → Option Lease} {c : TimedCall} {a : LeaseAnswer} {i : String} {l : Lease}
    (hl : note h (c, a) i = some l) : h i = some l ∨ (a = .lease (.ok l) ∧ l.leaseId = i ∧
      ((∃ s holder owner ttl uuid, c.call = .acquire s holder owner ttl uuid) ∨ ∃ j ttl, c.call = .renew j ttl)) := by
  obtain ⟨call, now, later, hle⟩ := c
  have hwrite : ∀ o : Lease, Function.update h o.leaseId (some o) i = some l →
      h i = some l ∨ o = l ∧ l.leaseId = i := by
    intro o ho
    rw [Function.update_apply] at ho
    split at ho
    · rename_i hi
      obtain rfl := Option.some.inj ho
      exact Or.inr ⟨rfl, hi.symm⟩
    · exact Or.inl ho
  rcases call with ⟨s, holder, owner, ttl, uuid⟩ | ⟨j, ttl⟩ | j | ⟨j, s⟩ | s | _
  · rcases a with (e | o) | _ | _ | _
    · exact Or.inl hl
    · rcases hwrite o hl with hl | ⟨rfl, hi⟩
      · exact Or.inl hl
      · exact Or.inr ⟨rfl, hi, Or.inl ⟨s, holder, owner, ttl, uuid, rfl⟩⟩
    all_goals exact Or.inl hl
  · rcases a with (e | o) | _ | _ | _
    · exact Or.inl hl
    · rcases hwrite o hl with hl | ⟨rfl, hi⟩
      · exact Or.inl hl
      · exact Or.inr ⟨rfl, hi, Or.inr ⟨j, ttl, rfl⟩⟩
    all_goals exact Or.inl hl
  · simp only [note] at hl
    rw [Function.update_apply] at hl
    split at hl
    · cases hl
    · exact Or.inl hl
  all_goals exact Or.inl hl

theorem acquiredFor_mono {tr : History} {i : String} {s : ℤ} (h : AcquiredFor tr i s) (tr' : History) :
    AcquiredFor (tr ++ tr') i s := by
  obtain ⟨c, holder, owner, ttl, uuid, l, hc, hm, hl⟩ := h
  exact ⟨c, holder, owner, ttl, uuid, l, hc, List.mem_append_left _ hm, hl⟩

/-! ## One call -/

/-- The id index a call reads: purged first, except by `release`. -/
def seen (m : LeaseManager) (c : TimedCall) : String → Option Lease :=
  match c.call with
  | .release _ => m.byId.get?
  | _ => live c.now m.byId.get?

/-- **A call changes the id index as its answer changes the history.** -/
theorem step_byId {m : LeaseManager} (h : m.Exact) (c : TimedCall) :
    (step m c).2.byId.get? = note (seen m c) (c, (step m c).1) := by
  obtain ⟨call, now, later, hle⟩ := c
  cases call with
  | acquire s holder owner ttl uuid =>
    simp only [step, seen, note]
    cases hs : live now m.bySeat.get? s with
    | none =>
      rw [acquire_free h s holder owner uuid ttl now later hs]
      simp only [put]
      rw [Dict.get?_set_eq, expireLocked_byId h]
    | some e =>
      rw [acquire_taken h s holder owner uuid ttl now later hs]
      exact expireLocked_byId h now
  | renew i ttl =>
    simp only [step, seen, note]
    cases hi : live now m.byId.get? i with
    | none =>
      rw [renew_dead h i ttl now later hi]
      exact expireLocked_byId h now
    | some l =>
      rw [renew_live h i ttl now later hi]
      simp only [put]
      rw [Dict.get?_set_eq, expireLocked_byId h]
  | release i =>
    simp only [step, seen, note]
    cases hi : m.byId.get? i with
    | none => rw [release_of_none hi, ← hi, Function.update_eq_self]
    | some l => rw [release_of_some h hi, Dict.get?_erase_eq]
  | validate i s =>
    simp only [step, seen, note]
    rw [validate_state, expireLocked_byId h]
  | getActiveLease s => exact expireLocked_byId h now
  | expireLeases => exact expireLocked_byId h now

/-- The id a call issues is not in the index. -/
def Fresh (m : LeaseManager) (c : TimedCall) : Prop := ∀ p ∈ issues c.call, m.byId.get? p.1 = none

/-- **A call with a fresh id keeps the indexes exact**, and each lease in them was there before, for the same seat, or
is the one issued. -/
theorem exact_step {m : LeaseManager} (h : m.Exact) (c : TimedCall) (hf : Fresh m c) :
    (step m c).2.Exact ∧ ∀ i l, (step m c).2.byId.get? i = some l →
      (∃ l', m.byId.get? i = some l' ∧ l'.seatId = l.seatId) ∨ issues c.call = some (i, l.seatId) := by
  obtain ⟨call, now, later, hle⟩ := c
  have hp : (m.expireLocked now).2.Exact := exact_expireLocked h now
  cases call with
  | acquire s holder owner ttl uuid =>
    simp only [step]
    obtain ⟨hex, hwrites⟩ := exact_acquire h s holder owner ttl uuid now later fun l hl => by
      rw [(acquire_ok hl).1]
      exact hf (uuid, s) rfl
    refine ⟨hex, fun i l hl => ?_⟩
    rcases hwrites i l hl with hl | ⟨hok, rfl⟩
    · exact Or.inl ⟨l, hl, rfl⟩
    · obtain ⟨hid, hseat⟩ := acquire_ok hok
      exact Or.inr (by rw [hid, hseat]; rfl)
  | renew i ttl =>
    obtain ⟨hex, hwrites⟩ := exact_renew h i ttl now later
    exact ⟨hex, fun j l hl => Or.inl (hwrites j l hl)⟩
  | release i =>
    refine ⟨exact_release h i, fun j l hl => Or.inl ⟨l, ?_, rfl⟩⟩
    simp only [step] at hl
    rw [release_byId] at hl
    split at hl
    · cases hl
    · exact hl
  | validate i s =>
    simp only [step]
    rw [validate_state]
    exact ⟨hp, fun j l hl => Or.inl ⟨l, expireLocked_byId_sub hl, rfl⟩⟩
  | getActiveLease s => exact ⟨hp, fun j l hl => Or.inl ⟨l, expireLocked_byId_sub hl, rfl⟩⟩
  | expireLeases => exact ⟨hp, fun j l hl => Or.inl ⟨l, expireLocked_byId_sub hl, rfl⟩⟩

/-! ## A run of calls -/

theorem issued_snoc (cs : List TimedCall) (c : TimedCall) :
    issued (cs ++ [c]) = issued cs ++ (issues c.call).toList := by
  unfold issued
  rw [List.filterMap_append]
  cases h : issues c.call <;> simp [h]

theorem DistinctIds.init {cs : List TimedCall} {c : TimedCall} (hd : DistinctIds (cs ++ [c])) : DistinctIds cs := by
  unfold DistinctIds at hd ⊢
  rw [issued_snoc, List.map_append] at hd
  exact (List.nodup_append.1 hd).1

theorem DistinctIds.not_mem {cs : List TimedCall} {c : TimedCall} (hd : DistinctIds (cs ++ [c])) {p : String × ℤ}
    (hp : p ∈ issues c.call) (s : ℤ) : (p.1, s) ∉ issued cs := by
  unfold DistinctIds at hd
  rw [issued_snoc, List.map_append] at hd
  intro hm
  have hp' : p.1 ∈ (issues c.call).toList.map Prod.fst := List.mem_map.2 ⟨p, by simpa using hp, rfl⟩
  exact (List.nodup_append.1 hd).2.2 p.1 (List.mem_map.2 ⟨_, hm, rfl⟩) p.1 hp' rfl

/-- **The indexes are exact after every run with distinct ids, whatever the clock did**, and hold issued ids only. -/
theorem exact_run (ttl : Time) (cs : List TimedCall) (hd : DistinctIds cs) :
    (run step (LeaseManager.new ttl) cs).Exact ∧
      ∀ i l, (run step (LeaseManager.new ttl) cs).byId.get? i = some l → (i, l.seatId) ∈ issued cs := by
  induction cs using List.reverseRecOn with
  | nil => exact ⟨exact_new ttl, fun _ _ h => (nomatch h)⟩
  | append_singleton cs c ih =>
    obtain ⟨hex, hid⟩ := ih hd.init
    have hf : Fresh (run step (LeaseManager.new ttl) cs) c := by
      intro p hp
      cases hg : (run step (LeaseManager.new ttl) cs).byId.get? p.1 with
      | none => rfl
      | some l => exact absurd (hid p.1 l hg) (hd.not_mem hp l.seatId)
    obtain ⟨hex', hid'⟩ := exact_step hex c hf
    rw [run_snoc, issued_snoc]
    refine ⟨hex', fun i l hl => ?_⟩
    rcases hid' i l hl with ⟨l', hl', hs⟩ | hi
    · exact List.mem_append_left _ (hs ▸ hid i l' hl')
    · exact List.mem_append_right _ (by rw [hi]; simp)

abbrev history (ttl : Time) (cs : List TimedCall) : History := trace step (LeaseManager.new ttl) cs

abbrev after (ttl : Time) (cs : List TimedCall) : LeaseManager := run step (LeaseManager.new ttl) cs

theorem chronological_snoc {cs : List TimedCall} {c : TimedCall} (hc : Chronological (cs ++ [c])) :
    Chronological cs ∧ ∀ b ∈ cs, b.later ≤ c.now := by
  obtain ⟨h1, -, h3⟩ := List.pairwise_append.1 hc
  exact ⟨h1, fun b hb => h3 b hb c (by simp)⟩

/-- **The id index lags the history along every run**: what it lacks was overdue by the latest reading. -/
theorem lags_run (ttl : Time) (cs : List TimedCall) (hc : Chronological cs) (hd : DistinctIds cs) (t : Time)
    (ht : ∀ c ∈ cs, c.later ≤ t) : Lags Lease.expiresAt t (after ttl cs).byId.get? (held (history ttl cs)) := by
  induction cs using List.reverseRecOn generalizing t with
  | nil => exact Lags.refl t _
  | append_singleton cs c ih =>
    obtain ⟨hc', hnow⟩ := chronological_snoc hc
    have hl := ih hc' hd.init c.now hnow
    have hex := (exact_run ttl cs hd.init).1
    have hseen : Lags Lease.expiresAt c.now (seen (after ttl cs) c) (held (history ttl cs)) := by
      unfold seen
      split
      · exact hl
      · exact hl.purge le_rfl
    have hct : c.now ≤ t := le_trans c.le (ht c (by simp))
    have hnote := lags_note hseen (c, (step (after ttl cs) c).1)
    rw [← step_byId hex c] at hnote
    unfold after history
    rw [run_snoc, trace_snoc, held_snoc]
    exact hnote.mono hct

theorem ok_of_renew {m : LeaseManager} (h : m.Exact) {i : String} {ttl : Option Time} {now later : Time} {l : Lease}
    (ha : (m.renew i ttl now later).1 = .ok l) :
    ∃ o, live now m.byId.get? i = some o ∧ l.leaseId = o.leaseId ∧ l.seatId = o.seatId := by
  cases hi : live now m.byId.get? i with
  | none =>
    rw [renew_dead h i ttl now later hi] at ha
    cases ha
  | some o =>
    rw [renew_live h i ttl now later hi] at ha
    obtain rfl := Except.ok.inj ha
    exact ⟨o, rfl, rfl, rfl⟩

/-- **A record of the history carries its own id and the seat some acquisition of it named.** -/
theorem held_acquired (ttl : Time) (cs : List TimedCall) (hc : Chronological cs) (hd : DistinctIds cs) (i : String)
    (l : Lease) (hl : held (history ttl cs) i = some l) :
    l.leaseId = i ∧ AcquiredFor (history ttl cs) i l.seatId := by
  induction cs using List.reverseRecOn generalizing i l with
  | nil => cases hl
  | append_singleton cs c ih =>
    obtain ⟨hc', hnow⟩ := chronological_snoc hc
    have ih := ih hc' hd.init
    have hex := (exact_run ttl cs hd.init).1
    have hlag := lags_run ttl cs hc' hd.init c.now hnow
    unfold history at hl ⊢
    rw [trace_snoc] at hl ⊢
    rw [held_snoc] at hl
    rcases note_eq_some hl with hl | ⟨ha, hi, ⟨s, holder, owner, ttl', uuid, hcall⟩ | ⟨j, ttl', hcall⟩⟩
    · exact ⟨(ih i l hl).1, acquiredFor_mono (ih i l hl).2 _⟩
    · have hok := ha
      simp only [step, hcall, LeaseAnswer.lease.injEq] at hok
      obtain ⟨-, hs⟩ := acquire_ok hok
      refine ⟨hi, c, holder, owner, ttl', uuid, l, by rw [hs]; exact hcall, ?_, hi⟩
      exact List.mem_append_right _ (by rw [ha]; simp)
    · simp only [step, hcall, LeaseAnswer.lease.injEq] at ha
      obtain ⟨o, ho, hid, hs⟩ := ok_of_renew hex ha
      have hheld : held (history ttl cs) j = some o := hlag.sub j o (liveAt_eq_some.1 ho).1
      have hji : j = i := by rw [← (ih j o hheld).1, ← hid, hi]
      subst hji
      exact ⟨hi, hs ▸ acquiredFor_mono (ih j o hheld).2 _⟩

theorem mem_issued_of_acquiredFor {ttl : Time} {cs : List TimedCall} {i : String} {s : ℤ}
    (h : AcquiredFor (history ttl cs) i s) : (i, s) ∈ issued cs := by
  induction cs using List.reverseRecOn with
  | nil =>
    obtain ⟨c, holder, owner, ttl', uuid, l, -, hm, -⟩ := h
    cases hm
  | append_singleton cs c ih =>
    obtain ⟨c', holder, owner, ttl', uuid, l, hcall, hm, hl⟩ := h
    unfold history at hm
    rw [trace_snoc] at hm
    rw [issued_snoc]
    rcases List.mem_append.1 hm with hm | hm
    · exact List.mem_append_left _ (ih ⟨c', holder, owner, ttl', uuid, l, hcall, hm, hl⟩)
    · obtain ⟨rfl, ha⟩ := Prod.mk.inj (List.mem_singleton.1 hm)
      simp only [step, hcall, LeaseAnswer.lease.injEq] at ha
      obtain ⟨hid, -⟩ := acquire_ok ha.symm
      exact List.mem_append_right _ (by rw [hcall, ← hl, hid]; simp [issues])

theorem seat_unique_of_nodup : ∀ {ps : List (String × ℤ)}, (ps.map Prod.fst).Nodup → ∀ {i : String} {s z : ℤ},
    (i, s) ∈ ps → (i, z) ∈ ps → s = z
  | [], _, _, _, _, h, _ => by cases h
  | p :: ps, hn, i, s, z, h1, h2 => by
    rw [List.map_cons, List.nodup_cons] at hn
    rcases List.mem_cons.1 h1 with rfl | t1
    · rcases List.mem_cons.1 h2 with h2 | t2
      · exact (Prod.mk.inj h2).2.symm
      · exact absurd (List.mem_map.2 ⟨(i, z), t2, rfl⟩) hn.1
    · rcases List.mem_cons.1 h2 with rfl | t2
      · exact absurd (List.mem_map.2 ⟨(i, s), t1, rfl⟩) hn.1
      · exact seat_unique_of_nodup hn.2 t1 t2

/-- **An id belongs to one seat.** -/
theorem acquiredFor_unique {ttl : Time} {cs : List TimedCall} (hd : DistinctIds cs) {i : String} {s z : ℤ}
    (hs : AcquiredFor (history ttl cs) i s) (hz : AcquiredFor (history ttl cs) i z) : s = z :=
  seat_unique_of_nodup hd (mem_issued_of_acquiredFor hs) (mem_issued_of_acquiredFor hz)

/-! ## The answers are the history's -/

/-- What the invariants of a run give the next call: the live part of the index is the live part of the history. -/
structure Tracks (tr : History) (m : LeaseManager) (now : Time) : Prop where
  exact : m.Exact
  live_eq : live now m.byId.get? = live now (held tr)
  acquired : ∀ i l, held tr i = some l → l.leaseId = i ∧ AcquiredFor tr i l.seatId
  unique : ∀ i s z, AcquiredFor tr i s → AcquiredFor tr i z → s = z

theorem tracks_run (ttl : Time) (cs : List TimedCall) (c : TimedCall) (hc : Chronological (cs ++ [c]))
    (hd : DistinctIds cs) : Tracks (history ttl cs) (after ttl cs) c.now := by
  obtain ⟨hc', hnow⟩ := chronological_snoc hc
  have hlag := lags_run ttl cs hc' hd c.now hnow
  exact ⟨(exact_run ttl cs hd).1, hlag.liveAt_eq le_rfl, held_acquired ttl cs hc' hd,
    fun _ _ _ => acquiredFor_unique hd⟩

section
variable {tr : History} {m : LeaseManager} {now : Time} (h : Tracks tr m now)
include h

theorem Tracks.live_iff (i : String) : Live tr now i ↔ ∃ l, live now m.byId.get? i = some l := by
  rw [h.live_eq]
  exact exists_congr fun l => liveAt_eq_some.symm

theorem Tracks.seat_iff (s : ℤ) (l : Lease) : live now m.bySeat.get? s = some l ↔
    held tr l.leaseId = some l ∧ now < l.expiresAt ∧ AcquiredFor tr l.leaseId s := by
  rw [live_seat_iff h.exact, h.live_eq, liveAt_eq_some]
  constructor
  · rintro ⟨rfl, hl, hlt⟩
    exact ⟨hl, hlt, (h.acquired _ l hl).2⟩
  · rintro ⟨hl, hlt, hs⟩
    exact ⟨h.unique _ _ _ (h.acquired _ l hl).2 hs, hl, hlt⟩

theorem Tracks.seat_live (s : ℤ) :
    (∃ l, live now m.bySeat.get? s = some l) ↔ ∃ i, Live tr now i ∧ AcquiredFor tr i s := by
  constructor
  · rintro ⟨l, hl⟩
    obtain ⟨hh, hlt, hs⟩ := (h.seat_iff s l).1 hl
    exact ⟨l.leaseId, ⟨l, hh, hlt⟩, hs⟩
  · rintro ⟨i, ⟨l, hl, hlt⟩, hs⟩
    obtain ⟨rfl, -⟩ := h.acquired i l hl
    exact ⟨l, (h.seat_iff s l).2 ⟨hl, hlt, hs⟩⟩

theorem Tracks.seat_one (s : ℤ) (i j : String) (hi : Live tr now i) (his : AcquiredFor tr i s) (hj : Live tr now j)
    (hjs : AcquiredFor tr j s) : i = j := by
  obtain ⟨l, hl, hlt⟩ := hi
  obtain ⟨o, ho, hot⟩ := hj
  obtain ⟨rfl, -⟩ := h.acquired i l hl
  obtain ⟨rfl, -⟩ := h.acquired j o ho
  have h1 := (h.seat_iff s l).2 ⟨hl, hlt, his⟩
  have h2 := (h.seat_iff s o).2 ⟨ho, hot, hjs⟩
  rw [Option.some.inj (h1.symm.trans h2)]

end

/-- **Every answer is the one the history calls for.** -/
theorem meets_run (ttl : Time) (cs : List TimedCall) (c : TimedCall) (hc : Chronological (cs ++ [c]))
    (hd : DistinctIds cs) : Meets (history ttl cs) c (step (after ttl cs) c).1 := by
  have ht := tracks_run ttl cs c hc hd
  generalize history ttl cs = tr at ht ⊢
  generalize after ttl cs = m at ht ⊢
  obtain ⟨call, now, later, hle⟩ := c
  rcases call with ⟨s, holder, owner, ttl', uuid⟩ | ⟨i, ttl'⟩ | i | ⟨i, s⟩ | s | _
  · show (∃ text, _) ↔ ∃ i, Live tr now i ∧ AcquiredFor tr i s
    rw [← ht.seat_live s]
    simp only [step, LeaseAnswer.lease.injEq]
    cases hs : live now m.bySeat.get? s with
    | none =>
      rw [acquire_free ht.exact s holder owner uuid ttl' now later hs]
      simp
    | some e =>
      rw [acquire_taken ht.exact s holder owner uuid ttl' now later hs]
      simp
  · show (∃ l, _) ↔ Live tr now i
    rw [ht.live_iff i]
    simp only [step, LeaseAnswer.lease.injEq]
    cases hi : live now m.byId.get? i with
    | none =>
      rw [renew_dead ht.exact i ttl' now later hi]
      simp
    | some l =>
      rw [renew_live ht.exact i ttl' now later hi]
      simp
  · rfl
  · show (∃ l, _) ↔ Live tr now i ∧ _
    rw [ht.live_iff i]
    simp only [step, LeaseAnswer.lease.injEq, validate_ok_iff ht.exact]
    constructor
    · rintro ⟨l, hl, hs⟩
      refine ⟨⟨l, hl⟩, ?_⟩
      cases s with
      | none => exact Or.inl rfl
      | some z =>
        rw [ht.live_eq] at hl
        have hz : l.seatId = z := hs z rfl
        exact Or.inr ⟨z, rfl, hz ▸ (ht.acquired i l (liveAt_eq_some.1 hl).1).2⟩
    · rintro ⟨⟨l, hl⟩, hs⟩
      refine ⟨l, hl, fun z hz => ?_⟩
      rcases hs with rfl | ⟨z', rfl, hz'⟩
      · cases hz
      · obtain rfl := Option.some.inj hz
        rw [ht.live_eq] at hl
        exact ht.unique i _ _ (ht.acquired i l (liveAt_eq_some.1 hl).1).2 hz'
  · refine ⟨fun i j hi his hj hjs => ht.seat_one s i j hi his hj hjs, live now m.bySeat.get? s, ?_, ht.seat_iff s⟩
    simp only [step, getActiveLease, expireLocked_bySeat ht.exact]
  · exact ⟨_, rfl⟩

/-! ## Releasing a dead id -/

/-- `m'` is `m`, or `m` without one lease of id `i` that was overdue at `t`. -/
def Shadow (t : Time) (i : String) (m m' : LeaseManager) : Prop :=
  m' = m ∨ ∃ l, m.byId.get? i = some l ∧ l.expiresAt ≤ t ∧ m' = m.drop l

theorem overdue_drop {m : LeaseManager} (h : m.Exact) {i : String} {l : Lease} (hl : m.byId.get? i = some l)
    (now : Time) : (m.drop l).overdue now = (m.overdue now).filter (fun o => decide (o.leaseId ≠ i)) := by
  obtain ⟨hi, hs⟩ := h.id i l hl
  have hkey : ∀ p ∈ m.bySeat.items, (decide (p.1 ≠ l.seatId)) = decide (p.2.leaseId ≠ i) := by
    intro p hp
    have hget : m.bySeat.get? p.1 = some p.2 := (Dict.get?_eq_some_iff _ _ _).2 hp
    apply decide_eq_decide.2
    apply not_congr
    constructor
    · intro hps
      rw [hps, hs] at hget
      rw [← Option.some.inj hget, hi]
    · intro hpi
      obtain ⟨hseat, hid⟩ := h.seat _ _ hget
      rw [hpi, hl] at hid
      rw [← hseat, Option.some.inj hid]
  show ((m.bySeat.items.filter (fun p => decide (p.1 ≠ l.seatId))).map Prod.snd).filter _ =
    ((m.bySeat.items.map Prod.snd).filter _).filter _
  rw [List.filter_congr hkey, List.filter_map, List.filter_map, List.filter_map, List.filter_filter, List.filter_filter]
  congr 1
  apply List.filter_congr
  intro p _
  exact Bool.and_comm _ _

/-- **A purge forgets that an overdue lease had been released.** -/
theorem expireLocked_drop {m : LeaseManager} (h : m.Exact) {i : String} {l : Lease} (hl : m.byId.get? i = some l)
    {now : Time} (ho : l.expiresAt ≤ now) : ((m.drop l).expireLocked now).2 = (m.expireLocked now).2 := by
  obtain ⟨hi, hs⟩ := h.id i l hl
  have hmem : l ∈ m.overdue now := (mem_overdue m now l).2 ⟨⟨_, hs⟩, ho⟩
  have hone : ∀ o ∈ m.overdue now, o.leaseId = i → o = l := by
    intro o hom hoi
    obtain ⟨⟨s, hos⟩, -⟩ := (mem_overdue m now o).1 hom
    have hid := (h.seat s o hos).2
    rw [hoi, hl] at hid
    exact (Option.some.inj hid).symm
  have hkeys : ∀ {κ : Type} [DecidableEq κ] (f : Lease → κ) (k : κ),
      (k ≠ f l ∧ k ∉ ((m.overdue now).filter (fun o => decide (o.leaseId ≠ i))).map f) ↔
        k ∉ (m.overdue now).map f := by
    intro κ _ f k
    simp only [List.mem_map, List.mem_filter, decide_eq_true_eq]
    constructor
    · rintro ⟨hk, hn⟩ ⟨o, hom, rfl⟩
      by_cases hoi : o.leaseId = i
      · exact hk (by rw [hone o hom hoi])
      · exact hn ⟨o, ⟨hom, hoi⟩, rfl⟩
    · intro hn
      exact ⟨fun hk => hn ⟨l, hmem, hk.symm⟩, fun ⟨o, ⟨hom, _⟩, hof⟩ => hn ⟨o, hom, hof⟩⟩
  unfold expireLocked
  rw [overdue_drop h hl]
  have hmgr : ∀ a b : LeaseManager, a.defaultTtlSeconds = b.defaultTtlSeconds → a.bySeat = b.bySeat →
      a.byId = b.byId → a = b := by
    rintro ⟨⟩ ⟨⟩ rfl rfl rfl
    rfl
  refine hmgr _ _ (by rw [foldl_drop_ttl, foldl_drop_ttl]; rfl) (Dict.ext ?_) (Dict.ext ?_)
  · rw [foldl_drop_bySeat, foldl_drop_bySeat, Dict.items_foldl_erase, Dict.items_foldl_erase]
    unfold drop Dict.erase
    rw [List.filter_filter]
    apply List.filter_congr
    intro p _
    rw [← Bool.decide_and, decide_eq_decide, and_comm]
    exact hkeys Lease.seatId p.1
  · rw [foldl_drop_byId, foldl_drop_byId, Dict.items_foldl_erase, Dict.items_foldl_erase]
    unfold drop Dict.erase
    rw [List.filter_filter]
    apply List.filter_congr
    intro p _
    rw [← Bool.decide_and, decide_eq_decide, and_comm]
    exact hkeys Lease.leaseId p.1

/-- All but `release` and the list `expireLeases` returns is read off the purged indexes. -/
theorem step_of_purge {m m' : LeaseManager} {c : TimedCall} (hp : (m'.expireLocked c.now).2 = (m.expireLocked c.now).2)
    (hr : ∀ i, c.call ≠ .release i) :
    (step m' c).2 = (step m c).2 ∧ (c.call ≠ .expireLeases → (step m' c).1 = (step m c).1) := by
  obtain ⟨call, now, later, hle⟩ := c
  simp only at hp hr
  rcases call with ⟨s, holder, owner, ttl, uuid⟩ | ⟨i, ttl⟩ | i | ⟨i, s⟩ | s | _
  · simp only [step, acquire, hp, true_and, implies_true]
  · simp only [step, renew, hp, true_and, implies_true]
  · exact absurd rfl (hr i)
  · simp only [step, validate, hp, true_and, implies_true]
  · simp only [step, getActiveLease, hp, true_and, implies_true]
  · exact ⟨hp, fun hne => absurd rfl hne⟩

/-- How the answer to a call may differ once an overdue lease of id `i` has been released early: `expireLeases` no
longer lists it. -/
def SameUpTo (i : String) (c : TimedCall) (a a' : LeaseAnswer) : Prop :=
  a' = a ∨ (c.call = .expireLeases ∧
    ∃ ls, a = .expired ls ∧ a' = .expired (ls.filter (fun l => decide (l.leaseId ≠ i))))

/-- **Releasing one id and dropping the lease of another** may be done in either order. -/
theorem release_drop {m : LeaseManager} (h : m.Exact) {i j : String} {l : Lease} (hl : m.byId.get? i = some l)
    (hji : j ≠ i) : (m.drop l).release j = (m.release j).drop l := by
  obtain ⟨hli, hls⟩ := h.id i l hl
  have hget : (m.drop l).byId.get? j = m.byId.get? j := by
    unfold drop
    rw [hli]
    exact Dict.get?_erase_of_ne _ hji
  cases hm : m.byId.get? j with
  | none => rw [release_of_none hm, release_of_none (hget.trans hm)]
  | some o =>
    obtain ⟨hoj, hseat⟩ := h.id j o hm
    have hne : o.seatId ≠ l.seatId := by
      intro he
      rw [he, hls] at hseat
      exact hji (by rw [← hoj, ← Option.some.inj hseat, hli])
    have hdrop : (m.drop l).release j =
        { m.drop l with bySeat := (m.drop l).bySeat.erase o.seatId, byId := (m.drop l).byId.erase j } := by
      unfold release
      rw [hget, hm]
      refine if_pos ?_
      unfold drop
      exact (Dict.get?_erase_of_ne _ hne).trans hseat
    rw [hdrop, release_of_some h hm]
    unfold drop
    simp only [Dict.erase_comm _ l.seatId, Dict.erase_comm _ l.leaseId]

theorem shadow_step {m m' : LeaseManager} (h : m.Exact) {t : Time} {i : String} (hs : Shadow t i m m')
    (c : TimedCall) (ht : t ≤ c.now) :
    Shadow t i (step m c).2 (step m' c).2 ∧ SameUpTo i c (step m c).1 (step m' c).1 := by
  rcases hs with rfl | ⟨l, hl, ho, rfl⟩
  · exact ⟨Or.inl rfl, Or.inl rfl⟩
  · have hli := (h.id i l hl).1
    by_cases hr : ∃ j, c.call = .release j
    · obtain ⟨j, hj⟩ := hr
      simp only [step, hj]
      refine ⟨?_, Or.inl rfl⟩
      by_cases hji : j = i
      · subst hji
        rw [release_of_some h hl, release_of_none (by unfold drop; rw [hli]; exact Dict.get?_erase_self _ _)]
        exact Or.inl (by unfold drop; rw [hli])
      · rw [release_drop h hl hji]
        refine Or.inr ⟨l, ?_, ho, rfl⟩
        rw [release_byId, if_neg (Ne.symm hji)]
        exact hl
    · have hp := expireLocked_drop h hl (le_trans ho ht)
      obtain ⟨h2, h1⟩ := step_of_purge hp fun j hj => hr ⟨j, hj⟩
      refine ⟨Or.inl h2, ?_⟩
      by_cases he : c.call = .expireLeases
      · refine Or.inr ⟨he, m.overdue c.now, ?_, ?_⟩
        · simp only [step, he, expireLeases, expireLocked]
        · simp only [step, he, expireLeases, expireLocked, overdue_drop h hl]
      · exact Or.inl (h1 he)

theorem issued_release {pre ds : List TimedCall} {r : TimedCall} {i : String} (hr : r.call = .release i) :
    issued (pre ++ r :: ds) = issued (pre ++ ds) := by
  unfold issued
  rw [List.filterMap_append, List.filterMap_append, List.filterMap_cons, hr]
  rfl

/-- **Releasing an id that is not live changes no later answer**, but for the list `expireLeases` returns. -/
theorem release_dead_quiet (ttl : Time) (pre ds : List TimedCall) (r c : TimedCall) (i : String)
    (hr : r.call = .release i) (hc : Chronological (pre ++ r :: ds ++ [c])) (hd : DistinctIds (pre ++ r :: ds ++ [c]))
    (hn : ¬ Live (history ttl pre) r.now i) :
    SameUpTo i c (step (after ttl (pre ++ ds)) c).1 (step (after ttl (pre ++ r :: ds)) c).1 := by
  have hd' : DistinctIds (pre ++ ds) := by
    have := hd.init
    unfold DistinctIds at this ⊢
    rwa [issued_release hr] at this
  suffices h : Shadow r.now i (after ttl (pre ++ ds)) (after ttl (pre ++ r :: ds)) by
    have hrc : r.now ≤ c.now :=
      le_trans r.le ((chronological_snoc hc).2 r (by simp))
    exact (shadow_step (exact_run ttl _ hd').1 h c hrc).2
  have hc' := (chronological_snoc hc).1
  clear hc hd
  induction ds using List.reverseRecOn with
  | nil =>
    rw [List.append_nil] at hd' ⊢
    have hpre : Chronological (pre ++ [r]) := hc'
    have ht := tracks_run ttl pre r hpre hd'
    unfold after
    rw [run_snoc]
    simp only [step, hr]
    cases hi : (after ttl pre).byId.get? i with
    | none => exact Or.inl (release_of_none hi)
    | some l =>
      refine Or.inr ⟨l, hi, ?_, ?_⟩
      · refine le_of_not_gt fun hlt => hn ((ht.live_iff i).2 ⟨l, ?_⟩)
        exact liveAt_eq_some.2 ⟨hi, hlt⟩
      · rw [release_of_some ht.exact hi]
        unfold drop
        rw [(ht.exact.id i l hi).1]
  | append_singleton ds e ih =>
    rw [← List.append_assoc] at hd'
    rw [← List.cons_append, ← List.append_assoc] at hc'
    obtain ⟨hch, hnow⟩ := chronological_snoc hc'
    have hre : r.now ≤ e.now := le_trans r.le (hnow r (by simp))
    have hstep := shadow_step (exact_run ttl _ hd'.init).1 (ih hd'.init hch) e hre
    unfold after at hstep ⊢
    rw [← List.append_assoc, run_snoc, ← List.cons_append, ← List.append_assoc, run_snoc]
    exact hstep.1

/-! ## Seats do not interfere -/

/-- A call is about seat `s`: it names the seat, or an id issued for it. -/
def about (ids : List (String × ℤ)) (s : ℤ) : LeaseCall → Bool
  | .acquire z _ _ _ _ => decide (z = s)
  | .renew i _ => decide ((i, s) ∈ ids)
  | .release i => decide ((i, s) ∈ ids)
  | .validate i _ => decide ((i, s) ∈ ids)
  | .getActiveLease z => decide (z = s)
  | .expireLeases => false

def onSeat (ids : List (String × ℤ)) (s : ℤ) (cs : List TimedCall) : List TimedCall :=
  cs.filter (fun c => about ids s c.call)

theorem onSeat_snoc (ids : List (String × ℤ)) (s : ℤ) (cs : List TimedCall) (c : TimedCall) :
    onSeat ids s (cs ++ [c]) = onSeat ids s cs ++ (if about ids s c.call = true then [c] else []) := by
  unfold onSeat
  rw [List.filter_append]
  by_cases hs : about ids s c.call = true <;> simp [hs]

/-- Each lease of the index is of an id issued for its seat. -/
def Known (ids : List (String × ℤ)) (m : LeaseManager) : Prop :=
  ∀ i l, m.byId.get? i = some l → (i, l.seatId) ∈ ids

/-- The lease of an id issued for `s` is the seat's lease, if that carries the id. -/
theorem live_id_of_seat {m : LeaseManager} (h : m.Exact) {ids : List (String × ℤ)} (hn : (ids.map Prod.fst).Nodup)
    (hk : Known ids m) {i : String} {s : ℤ} (hi : (i, s) ∈ ids) (now : Time) :
    live now m.byId.get? i = (live now m.bySeat.get? s).filter (fun l => decide (l.leaseId = i)) := by
  apply Option.ext
  intro l
  rw [Option.filter_eq_some_iff, decide_eq_true_eq, live_seat_iff h, liveAt_eq_some]
  constructor
  · rintro ⟨hl, hlt⟩
    have hli := (h.id i l hl).1
    have hls : l.seatId = s := seat_unique_of_nodup hn (hk i l hl) hi
    exact ⟨⟨hls, liveAt_eq_some.2 ⟨hli.symm ▸ hl, hlt⟩⟩, hli⟩
  · rintro ⟨⟨-, hl⟩, rfl⟩
    exact liveAt_eq_some.1 hl

theorem release_bySeat {m : LeaseManager} (h : m.Exact) (i : String) (s : ℤ) (l : Lease) :
    (m.release i).bySeat.get? s = some l ↔ m.bySeat.get? s = some l ∧ l.leaseId ≠ i := by
  cases hi : m.byId.get? i with
  | none =>
    rw [release_of_none hi]
    refine ⟨fun hl => ⟨hl, fun hli => ?_⟩, fun hl => hl.1⟩
    have hid := (h.seat s l hl).2
    rw [hli, hi] at hid
    cases hid
  | some o =>
    obtain ⟨hoi, hos⟩ := h.id i o hi
    rw [release_of_some h hi]
    simp only [Dict.get?_erase]
    split
    · rename_i hs
      constructor
      · intro hl
        cases hl
      · rintro ⟨hl, hli⟩
        rw [hs, hos] at hl
        rw [← Option.some.inj hl] at hli
        exact absurd hoi hli
    · rename_i hs
      refine ⟨fun hl => ⟨hl, fun hli => hs ?_⟩, fun hl => hl.1⟩
      obtain ⟨hls, hid⟩ := h.seat s l hl
      rw [hli, hi] at hid
      rw [← hls, Option.some.inj hid]

theorem release_live {m : LeaseManager} (h : m.Exact) (i : String) (s : ℤ) (t : Time) (l : Lease) :
    live t (m.release i).bySeat.get? s = some l ↔ live t m.bySeat.get? s = some l ∧ l.leaseId ≠ i := by
  rw [liveAt_eq_some, liveAt_eq_some, release_bySeat h]
  exact and_right_comm

theorem live_live {κ : Type} {t t' : Time} (ht : t ≤ t') (h : κ → Option Lease) : live t' (live t h) = live t' h :=
  liveAt_liveAt ht

/-- **A call about another seat leaves this seat's live lease alone.** -/
theorem step_other {m : LeaseManager} (h : m.Exact) {ids : List (String × ℤ)} (hk : Known ids m) {s : ℤ}
    {c : TimedCall} (hs : about ids s c.call = false) {t : Time} (ht : c.now ≤ t) :
    live t (step m c).2.bySeat.get? s = live t m.bySeat.get? s := by
  obtain ⟨call, now, later, hle⟩ := c
  simp only at hs ht
  have hpurge : live t (m.expireLocked now).2.bySeat.get? s = live t m.bySeat.get? s := by
    rw [expireLocked_bySeat h, live_live ht]
  rcases call with ⟨z, holder, owner, ttl, uuid⟩ | ⟨i, ttl⟩ | i | ⟨i, z⟩ | z | _
  · simp only [about, decide_eq_false_iff_not] at hs
    simp only [step]
    cases hz : live now m.bySeat.get? z with
    | none =>
      rw [acquire_free h z holder owner uuid ttl now later hz]
      exact (liveAt_congr (Dict.get?_set_of_ne _ _ (Ne.symm hs))).trans hpurge
    | some e =>
      rw [acquire_taken h z holder owner uuid ttl now later hz]
      exact hpurge
  · simp only [about, decide_eq_false_iff_not] at hs
    simp only [step]
    cases hi : live now m.byId.get? i with
    | none =>
      rw [renew_dead h i ttl now later hi]
      exact hpurge
    | some l =>
      rw [renew_live h i ttl now later hi]
      have hne : s ≠ l.seatId := fun he => hs (he ▸ hk i l (liveAt_eq_some.1 hi).1)
      exact (liveAt_congr (Dict.get?_set_of_ne _ _ hne)).trans hpurge
  · simp only [about, decide_eq_false_iff_not] at hs
    apply Option.ext
    intro l
    rw [step, release_live h]
    refine ⟨fun hl => hl.1, fun hl => ⟨hl, fun hli => hs ?_⟩⟩
    obtain ⟨hls, hid⟩ := h.seat s l (liveAt_eq_some.1 hl).1
    rw [← hls, ← hli]
    exact hk _ l hid
  · simp only [step]
    rw [validate_state]
    exact hpurge
  · exact hpurge
  · exact hpurge

/-- Two authorities that agree on seat `s` from the reading `t` on. -/
structure AgreeOn (ids : List (String × ℤ)) (s : ℤ) (t : Time) (m m' : LeaseManager) : Prop where
  exact : m.Exact
  exact' : m'.Exact
  known : Known ids m
  known' : Known ids m'
  ttl : m'.defaultTtlSeconds = m.defaultTtlSeconds
  seat : live t m'.bySeat.get? s = live t m.bySeat.get? s

/-- **A call about the seat is answered alike and leaves the same lease.** -/
theorem step_agree {ids : List (String × ℤ)} (hn : (ids.map Prod.fst).Nodup) {s : ℤ} {m m' : LeaseManager}
    {c : TimedCall} (h : AgreeOn ids s c.now m m') (hs : about ids s c.call = true) :
    (step m' c).1 = (step m c).1 ∧ ∀ t, c.now ≤ t →
      live t (step m' c).2.bySeat.get? s = live t (step m c).2.bySeat.get? s := by
  obtain ⟨call, now, later, hle⟩ := c
  have hpurge : ∀ t, now ≤ t →
      live t (m'.expireLocked now).2.bySeat.get? s = live t (m.expireLocked now).2.bySeat.get? s := by
    intro t ht
    rw [expireLocked_bySeat h.exact, expireLocked_bySeat h.exact', live_live ht, live_live ht]
    exact liveAt_mono ht h.seat
  have hid : ∀ i, (i, s) ∈ ids → live now m'.byId.get? i = live now m.byId.get? i := by
    intro i hi
    rw [live_id_of_seat h.exact hn h.known hi, live_id_of_seat h.exact' hn h.known' hi, h.seat]
  rcases call with ⟨z, holder, owner, ttl, uuid⟩ | ⟨i, ttl⟩ | i | ⟨i, z⟩ | z | _
  · simp only [about, decide_eq_true_eq] at hs
    subst hs
    simp only [step]
    cases hz : live now m.bySeat.get? z with
    | none =>
      rw [acquire_free h.exact z holder owner uuid ttl now later hz,
        acquire_free h.exact' z holder owner uuid ttl now later (h.seat.trans hz), h.ttl]
      refine ⟨rfl, fun t ht => liveAt_congr ?_⟩
      exact (Dict.get?_set_self _ _ _).trans (Dict.get?_set_self _ _ _).symm
    | some e =>
      rw [acquire_taken h.exact z holder owner uuid ttl now later hz,
        acquire_taken h.exact' z holder owner uuid ttl now later (h.seat.trans hz)]
      exact ⟨rfl, hpurge⟩
  · simp only [about, decide_eq_true_eq] at hs
    simp only [step]
    cases hi : live now m.byId.get? i with
    | none =>
      rw [renew_dead h.exact i ttl now later hi, renew_dead h.exact' i ttl now later ((hid i hs).trans hi)]
      exact ⟨rfl, hpurge⟩
    | some l =>
      rw [renew_live h.exact i ttl now later hi, renew_live h.exact' i ttl now later ((hid i hs).trans hi), h.ttl]
      have hls : l.seatId = s := seat_unique_of_nodup hn (h.known i l (liveAt_eq_some.1 hi).1) hs
      refine ⟨rfl, fun t ht => liveAt_congr ?_⟩
      subst hls
      exact (Dict.get?_set_self _ _ _).trans (Dict.get?_set_self _ _ _).symm
  · refine ⟨rfl, fun t ht => ?_⟩
    have hseat : live t m'.bySeat.get? s = live t m.bySeat.get? s := liveAt_mono ht h.seat
    apply Option.ext
    intro l
    rw [step, step, release_live h.exact, release_live h.exact', hseat]
  · simp only [about, decide_eq_true_eq] at hs
    simp only [step]
    rw [validate_state, validate_state]
    refine ⟨?_, hpurge⟩
    simp only [validate, expireLocked_byId h.exact, expireLocked_byId h.exact', hid i hs, LeaseAnswer.lease.injEq]
    cases live now m.byId.get? i with
    | none => rfl
    | some l =>
      cases z with
      | none => rfl
      | some z => by_cases hz : l.seatId = z <;> simp [hz]
  · simp only [about, decide_eq_true_eq] at hs
    subst hs
    refine ⟨?_, hpurge⟩
    simp only [step, getActiveLease, expireLocked_bySeat h.exact, expireLocked_bySeat h.exact', h.seat]
  · cases hs

theorem step_ttl (m : LeaseManager) (c : TimedCall) : (step m c).2.defaultTtlSeconds = m.defaultTtlSeconds := by
  obtain ⟨call, now, later, hle⟩ := c
  have hp := expireLocked_ttl m now
  rcases call with ⟨s, holder, owner, ttl, uuid⟩ | ⟨i, ttl⟩ | i | ⟨i, s⟩ | s | _
  · simp only [step, acquire]
    split <;> exact hp
  · simp only [step, renew]
    split <;> exact hp
  · simp only [step, release]
    split
    · rfl
    · split <;> rfl
  · simp only [step]
    rw [validate_state]
    exact hp
  · exact hp
  · exact hp

theorem run_ttl (ttl : Time) (cs : List TimedCall) : (after ttl cs).defaultTtlSeconds = ttl :=
  invariant (P := fun m => m.defaultTtlSeconds = ttl) rfl (fun m c h => (step_ttl m c).trans h) cs

theorem issued_onSeat_sublist (ids : List (String × ℤ)) (s : ℤ) (cs : List TimedCall) :
    (issued (onSeat ids s cs)).Sublist (issued cs) := List.filter_sublist.filterMap _

/-- The state after a run and after its calls about one seat agree on that seat. -/
theorem agree_run (ttl : Time) {ids : List (String × ℤ)} (hn : (ids.map Prod.fst).Nodup) (s : ℤ) (cs : List TimedCall)
    (hsub : (issued cs).Sublist ids) (hc : Chronological cs) (t : Time) (ht : ∀ c ∈ cs, c.later ≤ t) :
    AgreeOn ids s t (after ttl cs) (after ttl (onSeat ids s cs)) := by
  have hsub' := (issued_onSeat_sublist ids s cs).trans hsub
  obtain ⟨hex, hid⟩ := exact_run ttl cs ((hsub.map Prod.fst).nodup hn)
  obtain ⟨hex', hid'⟩ := exact_run ttl (onSeat ids s cs) ((hsub'.map Prod.fst).nodup hn)
  refine ⟨hex, hex', fun i l hl => hsub.subset (hid i l hl), fun i l hl => hsub'.subset (hid' i l hl),
    (run_ttl ttl _).trans (run_ttl ttl _).symm, ?_⟩
  clear hex hid hex' hid' hsub'
  induction cs using List.reverseRecOn generalizing t with
  | nil => rfl
  | append_singleton cs c ih =>
    rw [issued_snoc] at hsub
    have hsub := (List.sublist_append_left _ _).trans hsub
    obtain ⟨hc', hnow⟩ := chronological_snoc hc
    have hct : c.now ≤ t := le_trans c.le (ht c (by simp))
    have hseat := ih hsub hc' c.now hnow
    have hsub' := (issued_onSeat_sublist ids s cs).trans hsub
    obtain ⟨hex, hid⟩ := exact_run ttl cs ((hsub.map Prod.fst).nodup hn)
    obtain ⟨hex', hid'⟩ := exact_run ttl (onSeat ids s cs) ((hsub'.map Prod.fst).nodup hn)
    have hk : Known ids (after ttl cs) := fun i l hl => hsub.subset (hid i l hl)
    rw [onSeat_snoc]
    unfold after at hseat hk ⊢
    cases hs : about ids s c.call with
    | true =>
      rw [if_pos rfl, run_snoc, run_snoc]
      have h : AgreeOn ids s c.now _ _ := ⟨hex, hex', hk, fun i l hl => hsub'.subset (hid' i l hl),
        (run_ttl ttl _).trans (run_ttl ttl _).symm, hseat⟩
      exact (step_agree hn h hs).2 t hct
    | false =>
      rw [if_neg (by decide), List.append_nil, run_snoc]
      exact (liveAt_mono hct hseat).trans (step_other hex hk hs hct).symm

/-- **Answers about one seat do not depend on the calls made on others**: leaving these out changes none. -/
theorem answer_onSeat (ttl : Time) (cs : List TimedCall) (c : TimedCall) (s : ℤ) (hc : Chronological (cs ++ [c]))
    (hd : DistinctIds cs) (hs : about (issued cs) s c.call = true) :
    (step (after ttl (onSeat (issued cs) s cs)) c).1 = (step (after ttl cs) c).1 := by
  obtain ⟨hc', hnow⟩ := chronological_snoc hc
  exact (step_agree hd (agree_run ttl hd s cs (List.Sublist.refl _) hc' c.now hnow) hs).1

/-! ## The specification -/

/-- **`DistributedLeaseManager` refines its trace specification.**  After any run of calls with readings that never go
back and distinct generated ids, the next answer is the one the history calls for; it is the same, up to what
`expireLeases` lists, had a release of an id that was not live been left out; and if it is about one seat, it is the
same had the calls about the others been left out. -/
theorem refines_trace (ttl : Time) (cs : List TimedCall) (c : TimedCall) (hc : Chronological (cs ++ [c]))
    (hd : DistinctIds (cs ++ [c])) :
    Meets (history ttl cs) c (step (after ttl cs) c).1 ∧
    (∀ pre r ds i, cs = pre ++ r :: ds → r.call = .release i → ¬ Live (history ttl pre) r.now i →
      SameUpTo i c (step (after ttl (pre ++ ds)) c).1 (step (after ttl cs) c).1) ∧
    (∀ s, about (issued cs) s c.call = true →
      (step (after ttl (onSeat (issued cs) s cs)) c).1 = (step (after ttl cs) c).1) := by
  refine ⟨meets_run ttl cs c hc hd.init, ?_, fun s hs => answer_onSeat ttl cs c s hc hd.init hs⟩
  rintro pre r ds i rfl hr hn
  exact release_dead_quiet ttl pre ds r c i hr hc hd hn

/-- A lease of ten seconds, acquired at 0. -/
def oneLease : List TimedCall := [⟨.acquire 1 "Server 1" "ann" (some 10) "a", 0, 0, le_rfl⟩]

/-- At 5 the seat is refused to another client and the lease shown; at 12 it is not refused. -/
theorem refines_trace_oneLease :
    (∃ text, (step (after 30 oneLease) ⟨.acquire 1 "Server 2" "bob" none "b", 5, 5, le_rfl⟩).1 =
      .lease (.error (.conflict text))) ∧
    (step (after 30 oneLease) ⟨.getActiveLease 1, 5, 5, le_rfl⟩).1 = .active (some ⟨"a", 1, "Server 1", "ann", 10⟩) ∧
    ¬ ∃ text, (step (after 30 oneLease) ⟨.acquire 1 "Server 2" "bob" none "b", 12, 12, le_rfl⟩).1 =
      .lease (.error (.conflict text)) := by
  have hheld : held (history 30 oneLease) "a" = some ⟨"a", 1, "Server 1", "ann", 10⟩ := by decide +kernel
  have hfor : AcquiredFor (history 30 oneLease) "a" 1 := ⟨_, _, _, _, _, _, rfl, List.mem_singleton_self _, rfl⟩
  have hother : ∀ i, i ≠ "a" → held (history 30 oneLease) i = none := by
    intro i hi
    change Function.update (fun _ => none) "a" _ i = none
    rw [Function.update_of_ne hi]
  have hmeets : ∀ c : TimedCall, Chronological (oneLease ++ [c]) → DistinctIds (oneLease ++ [c]) →
      Meets (history 30 oneLease) c (step (after 30 oneLease) c).1 :=
    fun c hc hd => (refines_trace 30 oneLease c hc hd).1
  refine ⟨?_, ?_, ?_⟩
  · have hacquire := hmeets ⟨.acquire 1 "Server 2" "bob" none "b", 5, 5, le_rfl⟩ (by simp [Chronological, oneLease])
      (by simp [DistinctIds, issued, issues, oneLease])
    exact hacquire.2 ⟨"a", ⟨_, hheld, by decide +kernel⟩, hfor⟩
  · obtain ⟨-, o, ho, hshown⟩ := hmeets ⟨.getActiveLease 1, 5, 5, le_rfl⟩ (by simp [Chronological, oneLease])
      (by simp [DistinctIds, issued, issues, oneLease])
    rw [ho, (hshown ⟨"a", 1, "Server 1", "ann", 10⟩).2 ⟨hheld, by decide +kernel, hfor⟩]
  · have hacquire := hmeets ⟨.acquire 1 "Server 2" "bob" none "b", 12, 12, le_rfl⟩ (by simp [Chronological, oneLease])
      (by simp [DistinctIds, issued, issues, oneLease])
    intro hrefused
    obtain ⟨i, ⟨l, hl, hlt⟩, -⟩ := hacquire.1 hrefused
    by_cases hi : i = "a"
    · subst hi
      obtain rfl := Option.some.inj (hheld.symm.trans hl)
      exact absurd hlt (by decide +kernel)
    · rw [hother i hi] at hl
      cases hl

/-- An acquisition, a release after its deadline, and a sweep. -/
def lateRelease : List TimedCall :=
  [⟨.acquire 1 "Server 1" "ann" (some 0) "a", 0, 0, le_rfl⟩, ⟨.release "a", 0, 0, le_rfl⟩]

/-- **`expireLeases` sees the release of a dead id**: the lease it would have listed is gone. -/
theorem release_seen_by_expireLeases :
    ¬ Live (history 30 (lateRelease.take 1)) 0 "a" ∧
    (step (after 30 lateRelease) ⟨.expireLeases, 1, 1, le_rfl⟩).1 ≠
      (step (after 30 (lateRelease.take 1)) ⟨.expireLeases, 1, 1, le_rfl⟩).1 := by
  have hheld : held (history 30 (lateRelease.take 1)) "a" = some ⟨"a", 1, "Server 1", "ann", 0⟩ := by decide +kernel
  have hwith : (after 30 lateRelease).overdue 1 = [] := by decide +kernel
  have hwithout : (after 30 (lateRelease.take 1)).overdue 1 ≠ [] := by decide +kernel
  refine ⟨?_, fun he => hwithout ?_⟩
  · rintro ⟨l, hl, hlt⟩
    rw [hheld] at hl
    obtain rfl := Option.some.inj hl
    exact lt_irrefl _ hlt
  · rw [← hwith]
    exact (LeaseAnswer.expired.inj he).symm

end LeaseTrace
end Ticket
