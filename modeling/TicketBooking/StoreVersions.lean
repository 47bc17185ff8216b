import TicketBooking.Replicas
import TicketBooking.Runs
/-!
# StoreVersions — the versions of one store

A store stamps its own writes from its clock and takes remote copies with the versions they have, and the clock is not
moved by them.  So a copy's version is one the clock has drawn or that of a copy that was brought in (`drawn_run`), and
a local write supersedes what it overwrites exactly as long as no copy of the seat has been brought in with a version
the clock has not reached (`advances_iff`).
-/
namespace Ticket

open Runs

/-- An operation on a store.  The server a remote copy comes from is only logged. -/
inductive StoreOp where
  | initializeSeats (seatCount : ℕ) (now : ℕ → Time)
  | updateSeat (seatId : ℤ) (newState : SeatStatus) (owner : String) (now : Time)
  | remote (seat : SeatState)

namespace StateStore

def step (st : StateStore) (op : StoreOp) : Option SeatState × StateStore :=
  match op with
  | .initializeSeats seatCount now => (none, st.initializeSeats seatCount now)
  | .updateSeat seatId newState owner now => st.updateSeat seatId newState owner now
  | .remote seat => (none, st.applyRemoteUpdate seat)

/-- No copy goes back. -/
def Keeps (st st' : StateStore) : Prop :=
  ∀ i own, st.getSeat i = some own → ∃ own', st'.getSeat i = some own' ∧ own.version ≤ own'.version

/-- The update has a greater version than the copy it overwrites, and a peer that holds that copy accepts it. -/
def Supersedes (st : StateStore) (op : StoreOp) : Prop :=
  match op with
  | .updateSeat i newState owner now => ∀ own updated, st.getSeat i = some own →
      (st.updateSeat i newState owner now).1 = some updated →
        own.version < updated.version ∧
          ∀ peer : StateStore, peer.getSeat i = some own → (peer.applyRemoteUpdate updated).getSeat i = some updated
  | _ => True

/-- **The operation only moves versions forward.** -/
def Advances (st : StateStore) (op : StoreOp) : Prop := st.Keeps (st.step op).2 ∧ st.Supersedes op

/-- A version of seat `i` that was brought in, not drawn: that of the store's first copy, or of a remote one. -/
def BroughtIn (st : StateStore) (ops : List StoreOp) (i : ℤ) (version : ℤ) : Prop :=
  (∃ own, st.getSeat i = some own ∧ own.version = version) ∨
    ∃ seat, .remote seat ∈ ops ∧ seat.seatId = i ∧ seat.version = version

/-- **The clock is ahead of what was brought in**, where the operation writes: at every seat it initialises, which draws
its version after those before it, and at the seat it updates, if the store has it. -/
def Ahead (st : StateStore) (ops : List StoreOp) (op : StoreOp) : Prop :=
  match op with
  | .initializeSeats seatCount _ => ∀ i version : ℤ, 1 ≤ i → i ≤ seatCount → st.BroughtIn ops i version →
      version ≤ (run step st ops).versionClock + i
  | .updateSeat i _ _ _ => (run step st ops).getSeat i ≠ none → ∀ version, st.BroughtIn ops i version →
      version ≤ (run step st ops).versionClock
  | .remote _ => True

variable {st : StateStore} {ops : List StoreOp}

theorem BroughtIn.mono {i version : ℤ} (h : st.BroughtIn ops i version) (op : StoreOp) :
    st.BroughtIn (ops ++ [op]) i version :=
  h.imp_right fun ⟨seat, hseat, hi⟩ => ⟨seat, List.mem_append_left _ hseat, hi⟩

/-- **A copy's version was drawn, or brought in with the copy.** -/
theorem drawn_run (st : StateStore) (ops : List StoreOp) : ∀ i own, (run step st ops).getSeat i = some own →
    own.version ≤ (run step st ops).versionClock ∨ st.BroughtIn ops i own.version := by
  induction ops using List.reverseRecOn with
  | nil => exact fun i own h => Or.inr (Or.inl ⟨own, h, rfl⟩)
  | append_singleton ops op ih =>
    intro i own h
    rw [run_snoc] at h ⊢
    generalize hs : run step st ops = s at ih h ⊢
    cases op with
    | initializeSeats n now =>
      obtain ⟨hclock, hget⟩ := initializeSeats_getSeat s now n
      simp only [step, hget, hclock] at h ⊢
      split at h
      · rename_i hi
        rw [← Option.some.inj h]
        exact Or.inl (by simpa using hi.2)
      · exact (ih i own h).imp (by omega) fun hb => hb.mono _
    | updateSeat j newState owner now =>
      cases hj : s.getSeat j with
      | none =>
        simp only [step, updateSeat_none hj] at h ⊢
        exact (ih i own h).imp_right fun hb => hb.mono _
      | some own' =>
        have hclock : (s.updateSeat j newState owner now).2.versionClock = s.versionClock + 1 := by
          rw [updateSeat_some hj]
        simp only [step, updateSeat_getSeat hj, hclock] at h ⊢
        split at h
        · rw [← Option.some.inj h]
          exact Or.inl le_rfl
        · exact (ih i own h).imp (by omega) fun hb => hb.mono _
    | remote seat =>
      have hclock : (s.applyRemoteUpdate seat).versionClock = s.versionClock := applyRemoteUpdate_clock s seat
      simp only [step, getSeat_applyRemoteUpdate, hclock] at h ⊢
      have hbrought : st.BroughtIn (ops ++ [.remote seat]) seat.seatId seat.version :=
        Or.inr ⟨seat, List.mem_append_right _ List.mem_cons_self, rfl, rfl⟩
      split at h
      · rename_i hi
        subst hi
        cases ho : s.getSeat seat.seatId with
        | none =>
          rw [ho] at h
          rw [← Option.some.inj h]
          exact Or.inr hbrought
        | some own' =>
          rw [ho] at h
          rcases Versioned.merge_choice SeatState.version own' seat with hm | hm
          · rw [← Option.some.inj h, Option.map_some, Option.getD_some, hm]
            exact (ih _ own' ho).imp_right fun hb => hb.mono _
          · rw [← Option.some.inj h, Option.map_some, Option.getD_some, hm]
            exact Or.inr hbrought
      · exact (ih i own h).imp_right fun hb => hb.mono _

/-- A remote copy leaves every version at least what it was, and its seat at its own at least. -/
theorem remote_keeps (st : StateStore) (seat : SeatState) : st.Keeps (st.applyRemoteUpdate seat) ∧
    ∃ own', (st.applyRemoteUpdate seat).getSeat seat.seatId = some own' ∧ seat.version ≤ own'.version := by
  refine ⟨fun i own h => ?_, ?_⟩
  · rw [getSeat_applyRemoteUpdate]
    split
    · rename_i hi
      rw [h]
      exact ⟨_, rfl, Versioned.le_merge own seat⟩
    · exact ⟨own, h, le_rfl⟩
  · rw [getSeat_applyRemoteUpdate, if_pos rfl]
    refine ⟨_, rfl, ?_⟩
    cases st.getSeat seat.seatId with
    | none => exact le_rfl
    | some own => exact Versioned.remote_le_merge own seat

/-- **While versions only move forward, what was brought in stays reached.** -/
theorem reached_run : ∀ {ops : List StoreOp}, Along step Advances st ops → ∀ {i version : ℤ},
    st.BroughtIn ops i version → ∃ own, (run step st ops).getSeat i = some own ∧ version ≤ own.version := by
  intro ops
  induction ops using List.reverseRecOn with
  | nil =>
    rintro - i version (⟨own, h, rfl⟩ | ⟨seat, hseat, -⟩)
    · exact ⟨own, h, le_rfl⟩
    · cases hseat
  | append_singleton ops op ih =>
    intro h i version hb
    obtain ⟨hops, hkeeps, -⟩ := (along_snoc ops op).1 h
    rw [run_snoc]
    have hbefore : st.BroughtIn ops i version ∨
        ∃ seat, op = .remote seat ∧ seat.seatId = i ∧ seat.version = version := by
      rcases hb with hfirst | ⟨seat, hseat, hi⟩
      · exact Or.inl (Or.inl hfirst)
      · rcases List.mem_append.1 hseat with hm | hm
        · exact Or.inl (Or.inr ⟨seat, hm, hi⟩)
        · exact Or.inr ⟨seat, (List.mem_singleton.1 hm).symm, hi⟩
    rcases hbefore with hbefore | ⟨seat, rfl, rfl, rfl⟩
    · obtain ⟨own, ho, hle⟩ := ih hops hbefore
      obtain ⟨own', ho', hle'⟩ := hkeeps i own ho
      exact ⟨own', ho', le_trans hle hle'⟩
    · exact (remote_keeps _ seat).2

/-- **An operation that finds the clock ahead moves versions forward.** -/
theorem advances_of_ahead {op : StoreOp} (h : st.Ahead ops op) : (run step st ops).Advances op := by
  have hdrawn := drawn_run st ops
  unfold Ahead at h
  generalize run step st ops = s at h hdrawn ⊢
  cases op with
  | initializeSeats n now =>
    refine ⟨fun i own ho => ?_, trivial⟩
    simp only [step, (initializeSeats_getSeat s now n).2]
    split
    · rename_i hi
      refine ⟨_, rfl, ?_⟩
      rcases hdrawn i own ho with hd | hb
      · exact le_trans hd (by simpa using le_trans zero_le_one hi.1)
      · exact h i own.version hi.1 hi.2 hb
    · exact ⟨own, ho, le_rfl⟩
  | updateSeat i newState owner now =>
    cases hi : s.getSeat i with
    | none =>
      simp only [Advances, Keeps, Supersedes, step, updateSeat_none hi, hi]
      exact ⟨fun j own ho => ⟨own, ho, le_rfl⟩, fun own updated ho => nomatch ho⟩
    | some own =>
      have hle : own.version ≤ s.versionClock :=
        (hdrawn i own hi).elim id fun hb => h (by rw [hi]; exact Option.some_ne_none own) own.version hb
      constructor
      · intro j own' ho
        simp only [step, updateSeat_getSeat hi]
        split
        · rename_i hj
          rw [hj, hi] at ho
          rw [← Option.some.inj ho]
          exact ⟨_, rfl, le_trans hle (by simp)⟩
        · exact ⟨own', ho, le_rfl⟩
      · intro own' updated ho hu
        rw [updateSeat_some hi] at hu
        rw [hi] at ho
        rw [← Option.some.inj ho, ← Option.some.inj hu]
        have hlt : own.version < s.versionClock + 1 := Int.lt_add_one_of_le hle
        refine ⟨hlt, fun peer hpeer => ?_⟩
        rw [getSeat_applyRemoteUpdate, if_pos rfl, hpeer]
        exact congrArg some (if_pos hlt)
  | remote seat => exact ⟨(remote_keeps s seat).1, trivial⟩

theorem ahead_of_advances {op : StoreOp} (hops : Along step Advances st ops) (h : (run step st ops).Advances op) :
    st.Ahead ops op := by
  have hreached := fun i version (hb : st.BroughtIn ops i version) => reached_run hops hb
  unfold Ahead
  generalize run step st ops = s at h hreached ⊢
  cases op with
  | initializeSeats n now =>
    intro i version h1 hn hb
    obtain ⟨own, ho, hle⟩ := hreached i version hb
    obtain ⟨own', ho', hle'⟩ := h.1 i own ho
    simp only [step, (initializeSeats_getSeat s now n).2, if_pos (And.intro h1 hn)] at ho'
    rw [← Option.some.inj ho'] at hle'
    exact le_trans hle hle'
  | updateSeat i newState owner now =>
    intro _ version hb
    obtain ⟨own, ho, hle⟩ := hreached i version hb
    have hlt := (h.2 own _ ho (by rw [updateSeat_some ho])).1
    exact le_trans hle (Int.lt_add_one_iff.1 hlt)
  | remote seat => exact trivial

/-- **Versions only move forward exactly when the clock is ahead of what was brought in**, wherever the store writes a
seat itself. -/
theorem advances_iff (st : StateStore) (ops : List StoreOp) :
    Along step Advances st ops ↔ ∀ pre op post, ops = pre ++ op :: post → st.Ahead pre op := by
  constructor
  · rintro h pre op post rfl
    obtain ⟨hpre, hop, -⟩ := (along_append pre (op :: post) st).1 h
    exact ahead_of_advances hpre hop
  · exact fun h => (along_iff ops).2 fun pre op post he => advances_of_ahead (h pre op post he)

/-- A store of one seat takes a remote copy at version 100 and writes the seat. -/
def staleWrite : List StoreOp :=
  [.initializeSeats 1 (fun _ => 0), .remote ⟨1, .locked, 0, "Ann", 100⟩, .updateSeat 1 .available "" 0]

/-- **The write goes back to version 2**, and a peer with the copy it overwrote ignores it. -/
theorem staleWrite_goes_back :
    ((run step (new "Server 2") (staleWrite.take 2)).getSeat 1).map SeatState.version = some 100 ∧
    ((run step (new "Server 2") staleWrite).getSeat 1).map SeatState.version = some 2 ∧
    ¬ Along step Advances (new "Server 2") staleWrite := by
  refine ⟨by decide, by decide, fun h => ?_⟩
  obtain ⟨-, hkeeps, -⟩ := (along_snoc (staleWrite.take 2) _).1 h
  obtain ⟨own', ho, hle⟩ := hkeeps 1 ⟨1, .locked, 0, "Ann", 100⟩ (by decide)
  have hback : own' = ⟨1, .available, 0, "", 2⟩ := Option.some.inj (ho.symm.trans (by decide))
  rw [hback] at hle
  exact absurd hle (by decide)

end StateStore
end Ticket
