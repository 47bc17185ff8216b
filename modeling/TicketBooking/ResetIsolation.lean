import TicketBooking.App
/-!
# ResetIsolation — deliveries that outlive a reset

A reset replaces the stores and the simulator, and starts their versions over, but the timers the old simulator started
run on and find the new stores by their servers' names.  Compared with a site at which such a delivery is dropped
(`isolatedStep`), the stores stay the same exactly as long as every delivery from before a reset finds at its peer a
copy no older than its own (`reset_isolated_iff`).
-/
namespace Ticket

open Runs

namespace Replication

variable {ι : Type} [DecidableEq ι] {r : Replication ι} {timer : ℕ} {d : Delivery ι}

/-- The timer was started by a simulator since replaced. -/
def stale (r : Replication ι) (timer : ℕ) : Bool :=
  (r.timers.get? timer).any (fun d => decide (d.generation < r.generation))

def dropTimer (r : Replication ι) (timer : ℕ) : Replication ι := { r with timers := r.timers.erase timer }

/-- The timer is stale, and its copy newer than the one it would find. -/
def Leaks (r : Replication ι) (timer : ℕ) : Prop :=
  ∃ d, r.timers.get? timer = some d ∧ d.generation < r.generation ∧
    ∀ own, (r.stores d.peer).getSeat d.seat.seatId = some own → own.version < d.seat.version

omit [DecidableEq ι] in
theorem stale_iff : r.stale timer = true ↔ ∃ d, r.timers.get? timer = some d ∧ d.generation < r.generation := by
  unfold stale
  simp [Option.any_eq_true]

theorem fire_stale (hd : r.timers.get? timer = some d) (hg : d.generation < r.generation) :
    r.fire timer = (r.apply d.peer d.seat).dropTimer timer := by
  have hpending : (r.apply d.peer d.seat).prunePending d = r.apply d.peer d.seat := if_neg (ne_of_lt hg)
  unfold fire dropTimer
  simp only [hd, hpending]

theorem apply_eq_self (h : (r.stores d.peer).applyRemoteUpdate d.seat = r.stores d.peer) :
    r.apply d.peer d.seat = r := by
  unfold apply
  rw [h, Function.update_eq_self]

/-- **A delivery that does not leak might as well be dropped.** -/
theorem fire_of_not_leaks (hs : r.stale timer = true) (hl : ¬ r.Leaks timer) : r.fire timer = r.dropTimer timer := by
  obtain ⟨d, hd, hg⟩ := stale_iff.1 hs
  have hfound : ∃ own, (r.stores d.peer).getSeat d.seat.seatId = some own ∧ ¬ own.version < d.seat.version := by
    by_contra hn
    refine hl ⟨d, hd, hg, fun own ho => ?_⟩
    by_contra hv
    exact hn ⟨own, ho, hv⟩
  obtain ⟨own, ho, hv⟩ := hfound
  rw [fire_stale hd hg, apply_eq_self ((StateStore.applyRemoteUpdate_eq_self_iff ho).2 (not_lt.1 hv))]

/-- **A delivery that leaks changes its peer's store.** -/
theorem fire_of_leaks (hl : r.Leaks timer) : (r.fire timer).stores ≠ r.stores := by
  obtain ⟨d, hd, hg, hv⟩ := hl
  rw [fire_stale hd hg]
  intro he
  have hstore : (r.stores d.peer).applyRemoteUpdate d.seat = r.stores d.peer := by
    have hpeer := congrFun he d.peer
    simp only [dropTimer, apply, Function.update_self] at hpeer
    exact hpeer
  cases ho : (r.stores d.peer).getSeat d.seat.seatId with
  | none =>
    have hseat := StateStore.getSeat_applyRemoteUpdate (r.stores d.peer) d.seat d.seat.seatId
    rw [hstore, ho, if_pos rfl] at hseat
    cases hseat
  | some own => exact absurd ((StateStore.applyRemoteUpdate_eq_self_iff ho).1 hstore) (not_le.2 (hv own ho))

end Replication

namespace Site

/-- A step of a site at which the deliveries scheduled before a reset are dropped. -/
def isolatedStep (s : Site) (e : Event) : Answer × Site :=
  match e with
  | .deliver timer =>
    let r := s.app.tables.replication
    if r.stale timer = true then
      (⟨[], none⟩, { s with app := { s.app with tables := { s.app.tables with replication := r.dropTimer timer } } })
    else step s e
  | _ => step s e

/-- The step delivers an update from before a reset to a store that then takes it. -/
def Leaks (s : Site) (e : Event) : Prop := ∃ timer, e = .deliver timer ∧ s.app.tables.replication.Leaks timer

theorem isolatedStep_of_not_leaks {s : Site} {e : Event} (h : ¬ Leaks s e) : (isolatedStep s e).2 = (step s e).2 := by
  cases e with
  | deliver timer =>
    unfold isolatedStep
    simp only
    split
    · rename_i hs
      have hfire := Replication.fire_of_not_leaks hs fun hl => h ⟨timer, rfl, hl⟩
      simp only [step, App.deliver, Tables.deliver, hfire]
    · rfl
  | _ => rfl

theorem isolatedStep_of_leaks {s : Site} {e : Event} (h : Leaks s e) :
    (isolatedStep s e).2.app.tables.replication.stores ≠ (step s e).2.app.tables.replication.stores := by
  obtain ⟨timer, rfl, hl⟩ := h
  have hs : s.app.tables.replication.stale timer = true := by
    obtain ⟨d, hd, hg, -⟩ := hl
    exact Replication.stale_iff.2 ⟨d, hd, hg⟩
  simp only [isolatedStep, hs, if_true]
  exact fun he => Replication.fire_of_leaks hl he.symm

/-- **The stores of a run are those of the run with the stale deliveries dropped**, after every prefix, exactly when no
step leaks. -/
theorem reset_isolated_iff (s : Site) (es : List Event) :
    (∀ pre post, es = pre ++ post →
      (run isolatedStep s pre).app.tables.replication.stores = (run step s pre).app.tables.replication.stores) ↔
    Along step (fun s e => ¬ Leaks s e) s es :=
  same_iff_along (fun s : Site => s.app.tables.replication.stores) (fun _ _ => isolatedStep_of_not_leaks)
    (fun _ _ h => isolatedStep_of_leaks (not_not.1 h)) es s

/-- Seat 1 is locked and confirmed, everything is reset, and the confirmation reaches Server 2 only then; the seat is
booked again, and Server 2 is told. -/
def lateDelivery : List Event :=
  oneLock ++ [.confirm 1 (.calm 5 idB), .reset (fun _ _ => 10), .deliver 2, .book 1 "Bob",
    .attempt 1 (.calm 20 idC) 0, .deliver 4]

/-- **Server 2 keeps the confirmation from before the reset**, and ignores the booking made after it. -/
theorem lateDelivery_leaks :
    (((run step Boot.calm.site lateDelivery).app.tables.replication.stores .server2).getSeat 1).map SeatState.content =
      some (.reserved, "Ann") ∧
    (((run isolatedStep Boot.calm.site lateDelivery).app.tables.replication.stores .server2).getSeat 1).map
      SeatState.content = some (.locked, "Bob") ∧
    (run isolatedStep Boot.calm.site lateDelivery).app.tables.replication.stores ≠
      (run step Boot.calm.site lateDelivery).app.tables.replication.stores := by
  have hreal : (((run step Boot.calm.site lateDelivery).app.tables.replication.stores .server2).getSeat 1).map
      SeatState.content = some (.reserved, "Ann") := by decide +kernel
  have hisolated : (((run isolatedStep Boot.calm.site lateDelivery).app.tables.replication.stores .server2).getSeat
      1).map SeatState.content = some (.locked, "Bob") := by decide +kernel
  refine ⟨hreal, hisolated, fun he => ?_⟩
  rw [he] at hisolated
  exact absurd (hreal.symm.trans hisolated) (by decide)

end Site
end Ticket
