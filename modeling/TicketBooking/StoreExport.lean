import TicketBooking.Decimal
import TicketBooking.Replicas
import TicketBooking.Runs
/-!
# StoreExport — stores written to a dictionary and read back (`to_dict`, `from_dict`)

`StateStore.toDict` writes a store as the code does, under the code's keys, the seats under the text of their ids, and
`StateStore.fromDict` loads such a dictionary, taking a field's default where its key is missing and raising where the
key of a seat is no integer.  A store that is written and loaded is the same store, whatever the receiver held.
-/
namespace Ticket

/-- What a key of an exported seat maps to. -/
inductive Value where
  | number (n : ℤ)
  | text (s : String)
  /-- the ISO text of a time -/
  | time (t : Time)
  deriving DecidableEq

namespace Value

def number? : Value → Option ℤ
  | .number n => some n
  | _ => none

def text? : Value → Option String
  | .text s => some s
  | _ => none

def time? : Value → Option Time
  | .time t => some t
  | _ => none

end Value

def SeatStatus.text : SeatStatus → String
  | .available => "available"
  | .locked => "locked"
  | .reserved => "reserved"
  | .failed => "failed"

def SeatStatus.ofText (s : String) : Option SeatStatus :=
  [SeatStatus.available, .locked, .reserved, .failed].find? (fun status => decide (status.text = s))

abbrev SeatData := Dict String Value

namespace SeatState

/-- What a copy says, but for the time. -/
def untimed (s : SeatState) : ℤ × SeatStatus × String × ℤ := (s.seatId, s.state, s.owner, s.version)

def toDict (s : SeatState) : SeatData :=
  ((((Dict.empty.set "seat_id" (.number s.seatId)).set "state" (.text s.state.text)).set "last_updated"
    (.time s.lastUpdated)).set "owner" (.text s.owner)).set "version" (.number s.version)

/-- `SeatState.from_dict`: `now` is the reading behind the default of `last_updated`.  There is a result where every
field has a value of its type; the code checks no types. -/
def fromDict (data : SeatData) (now : Time) : Option SeatState := do
  let seatId ← ((data.get? "seat_id").getD (.number 0)).number?
  let state ← ((data.get? "state").getD (.text "available")).text?.bind SeatStatus.ofText
  let lastUpdated ← ((data.get? "last_updated").getD (.time now)).time?
  let owner ← ((data.get? "owner").getD (.text "")).text?
  let version ← ((data.get? "version").getD (.number 0)).number?
  return ⟨seatId, state, lastUpdated, owner, version⟩

theorem ofText_text (status : SeatStatus) : SeatStatus.ofText status.text = some status := by
  cases status <;> decide

/-- **A seat that was written is read back**, whatever the clock says by then. -/
theorem fromDict_toDict (s : SeatState) (now : Time) : fromDict s.toDict now = some s := by
  simp [fromDict, toDict, Dict.get?_set, Value.number?, Value.text?, Value.time?, ofText_text]

end SeatState

/-- What a key of an exported store maps to. -/
inductive StoreValue where
  | number (n : ℤ)
  | text (s : String)
  | seats (seats : Dict String SeatData)

namespace StoreValue

def number? : StoreValue → Option ℤ
  | .number n => some n
  | _ => none

def text? : StoreValue → Option String
  | .text s => some s
  | _ => none

def seats? : StoreValue → Option (Dict String SeatData)
  | .seats d => some d
  | _ => none

end StoreValue

abbrev StoreData := Dict String StoreValue

namespace StateStore

def seatsToDict (seats : Dict ℤ SeatState) : Dict String SeatData :=
  seats.items.foldl (fun d p => d.set (Int.repr p.1) p.2.toDict) Dict.empty

def toDict (st : StateStore) : StoreData :=
  ((Dict.empty.set "server_id" (.text st.serverId)).set "version_clock" (.number st.versionClock)).set "seats"
    (.seats (seatsToDict st.seats))

/-- The loop of `from_dict`, one reading a seat.  The first component is `false` when the key of a seat raised
`ValueError`, with the seats before it loaded. -/
def loadSeats (st : StateStore) : List (String × SeatData) → (ℕ → Time) → Option (Bool × StateStore)
  | [], _ => some (true, st)
  | (seatIdStr, seatData) :: rest, now =>
    match Decimal.parse seatIdStr with
    | none => some (false, st)
    | some seatId => do
      let seat ← SeatState.fromDict seatData (now 0)
      loadSeats { st with seats := st.seats.set seatId seat } rest (fun k => now (k + 1))

/-- `StateStore.from_dict`, into the store `st`. -/
def fromDict (st : StateStore) (data : StoreData) (now : ℕ → Time) : Option (Bool × StateStore) := do
  let serverId ← ((data.get? "server_id").getD (.text st.serverId)).text?
  let versionClock ← ((data.get? "version_clock").getD (.number 0)).number?
  let seats ← ((data.get? "seats").getD (.seats Dict.empty)).seats?
  loadSeats ⟨serverId, Dict.empty, versionClock⟩ seats.items now

/-- **Every id keeps a key of its own**, in the order of the store. -/
theorem items_seatsToDict (seats : Dict ℤ SeatState) :
    (seatsToDict seats).items = seats.items.map (fun p => (Int.repr p.1, p.2.toDict)) := by
  have hn : (seats.items.map (fun p => Int.repr p.1)).Nodup := by
    rw [show (fun p : ℤ × SeatState => Int.repr p.1) = Int.repr ∘ Prod.fst from rfl, ← List.map_map]
    exact seats.nodup.map Decimal.repr_injective
  exact Dict.items_foldl_set (fun p : ℤ × SeatState => Int.repr p.1) (fun p => p.2.toDict) seats.items Dict.empty hn
    fun _ _ hm => List.not_mem_nil hm

/-- **Loading written seats assigns them one after another.** -/
theorem loadSeats_map : ∀ (l : List (ℤ × SeatState)) (st : StateStore) (now : ℕ → Time),
    loadSeats st (l.map (fun p => (Int.repr p.1, p.2.toDict))) now =
      some (true, { st with seats := l.foldl (fun d p => d.set p.1 p.2) st.seats })
  | [], _, _ => rfl
  | p :: l, st, now => by
    rw [List.map_cons, loadSeats]
    simp only [Decimal.parse_repr, SeatState.fromDict_toDict, Option.bind_eq_bind, Option.bind_some]
    exact loadSeats_map l _ _

theorem foldl_set_items (seats : Dict ℤ SeatState) :
    seats.items.foldl (fun d p => d.set p.1 p.2) Dict.empty = seats := by
  apply Dict.ext
  rw [Dict.items_foldl_set (fun p : ℤ × SeatState => p.1) (fun p => p.2) seats.items Dict.empty seats.nodup
    fun _ _ hm => List.not_mem_nil hm]
  exact List.map_id _

/-- **A store that was written is loaded as it was**: its server, its clock and its seats, and none of the receiver's. -/
theorem fromDict_toDict (st receiver : StateStore) (now : ℕ → Time) :
    receiver.fromDict st.toDict now = some (true, st) := by
  have hload : loadSeats ⟨st.serverId, Dict.empty, st.versionClock⟩ (seatsToDict st.seats).items now =
      some (true, st) := by
    rw [items_seatsToDict, loadSeats_map, foldl_set_items]
  simpa [fromDict, toDict, Dict.get?_set, StoreValue.text?, StoreValue.number?, StoreValue.seats?] using hload

/-! ## Updates after the import -/

structure UpdateRequest where
  seatId : ℤ
  newState : SeatStatus
  owner : String

/-- `update_seat`, called at a reading of the clock. -/
def updateStep (st : StateStore) (e : UpdateRequest × Time) : Option SeatState × StateStore :=
  st.updateSeat e.1.seatId e.1.newState e.1.owner e.2

/-- The answers of a list of calls, without their timestamps. -/
def updateAnswers (st : StateStore) (calls : List (UpdateRequest × Time)) : List (Option (ℤ × SeatStatus × String × ℤ)) :=
  (Runs.trace updateStep st calls).map (fun p => p.2.map SeatState.untimed)

/-- Two stores that differ in the timestamps of their copies alone. -/
def SameUntimed (st st' : StateStore) : Prop :=
  st.versionClock = st'.versionClock ∧ ∀ i, (st.getSeat i).map SeatState.untimed = (st'.getSeat i).map SeatState.untimed

/-- **An update answers alike in stores that differ in timestamps alone**, and leaves them so. -/
theorem updateStep_untimed {st st' : StateStore} (h : SameUntimed st st') (q : UpdateRequest) (t t' : Time) :
    (updateStep st (q, t)).1.map SeatState.untimed = (updateStep st' (q, t')).1.map SeatState.untimed ∧
      SameUntimed (updateStep st (q, t)).2 (updateStep st' (q, t')).2 := by
  obtain ⟨hclock, hseats⟩ := h
  have hown := hseats q.seatId
  unfold updateStep
  cases hq : st.getSeat q.seatId with
  | none =>
    rw [hq] at hown
    have hq' : st'.getSeat q.seatId = none := Option.map_eq_none_iff.1 hown.symm
    rw [updateSeat_none hq, updateSeat_none hq']
    exact ⟨rfl, hclock, hseats⟩
  | some own =>
    rw [hq] at hown
    obtain ⟨own', hq', -⟩ := Option.map_eq_some_iff.1 hown.symm
    refine ⟨?_, ?_, fun i => ?_⟩
    · rw [updateSeat_some hq, updateSeat_some hq', hclock]
      rfl
    · rw [updateSeat_some hq, updateSeat_some hq']
      exact congrArg (· + 1) hclock
    · rw [updateSeat_getSeat hq, updateSeat_getSeat hq', hclock]
      by_cases hi : i = q.seatId
      · rw [if_pos hi, if_pos hi]
        rfl
      · rw [if_neg hi, if_neg hi]
        exact hseats i

/-- A list of requests, each with the reading it is made at in one store and in the other. -/
theorem updateAnswers_untimed : ∀ (calls : List (UpdateRequest × Time × Time)) {st st' : StateStore},
    SameUntimed st st' →
    st.updateAnswers (calls.map (fun c => (c.1, c.2.1))) = st'.updateAnswers (calls.map (fun c => (c.1, c.2.2)))
  | [], _, _, _ => rfl
  | c :: calls, st, st', h => by
    obtain ⟨hanswer, hnext⟩ := updateStep_untimed h c.1 c.2.1 c.2.2
    have ih := updateAnswers_untimed calls hnext
    unfold updateAnswers at ih ⊢
    rw [List.map_cons, List.map_cons, Runs.trace, Runs.trace, List.map_cons, List.map_cons, hanswer, ih]

/-- **A store survives export and import.**  The receiver becomes the exported store, and from then on any requests,
made to the two at whatever readings, are answered with the same versions, states and owners. -/
theorem export_import (st receiver : StateStore) (now : ℕ → Time) : ∃ loaded,
    receiver.fromDict st.toDict now = some (true, loaded) ∧
    loaded.serverId = st.serverId ∧ loaded.versionClock = st.versionClock ∧ loaded.seats = st.seats ∧
    ∀ calls : List (UpdateRequest × Time × Time),
      loaded.updateAnswers (calls.map (fun c => (c.1, c.2.1))) = st.updateAnswers (calls.map (fun c => (c.1, c.2.2))) :=
  ⟨st, fromDict_toDict st receiver now, rfl, rfl, rfl, fun calls => updateAnswers_untimed calls ⟨rfl, fun _ => rfl⟩⟩

end StateStore
end Ticket
