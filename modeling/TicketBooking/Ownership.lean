import TicketBooking.Moves
/-!
# Ownership — a booked seat keeps its owner

A seat that an attempt has booked is locked or reserved for the requester until something returns it to available: a
cancelled lock, a sweep, a reset.  No other move touches its owner (`seat_step`), and no attempt books it meanwhile; a
confirmed seat is not even returned by a cancellation or a sweep.  Neither the clock nor the timers matter here.
-/
namespace Ticket

open Runs

namespace Tables

/-- The seat is locked or reserved for `r`. -/
def Held (t : Tables) (i : ℤ) (r : String) : Prop :=
  ∃ seat, t.seats.get? i = some seat ∧ (seat.state = .locked ∨ seat.state = .reserved) ∧ seat.owner = r

def Reserved (t : Tables) (i : ℤ) (r : String) : Prop :=
  ∃ seat, t.seats.get? i = some seat ∧ seat.state = .reserved ∧ seat.owner = r

/-- The move returns the seat to available. -/
def Frees (t : Tables) (v : Move) (i : ℤ) : Prop :=
  match v with
  | .sweep now => i ∈ (t.expireLeasesLocked now).1
  | .cancel j => j = i ∧ (t.cancelLock j).1 = .ok
  | .reset _ => True
  | _ => False

/-- A seat after one is set is what it was, or the one that was set. -/
theorem seat_set {t : Tables} {i j : ℤ} {seat s : Seat} (h : t.seats.get? i = some seat)
    (hs : t.seats.get? j = some s) (new : Seat) :
    ∃ seat', (t.seats.set j new).get? i = some seat' ∧ (seat' = seat ∨ (s = seat ∧ seat' = new)) := by
  by_cases hij : i = j
  · subst hij
    refine ⟨new, Dict.get?_set_self _ _ _, Or.inr ⟨?_, rfl⟩⟩
    exact Option.some.inj (hs.symm.trans h)
  · exact ⟨seat, (Dict.get?_set_of_ne _ _ hij).trans h, Or.inl rfl⟩

/-- **What a move that does not return a seat does to it**: nothing, or it books the seat, which is not taken, or it
leaves a locked seat locked or reserved for its owner. -/
theorem seat_step {t : Tables} {v : Move} {i : ℤ} {seat : Seat} (h : t.seats.get? i = some seat) (ha : t.Allowed v)
    (hf : ¬ t.Frees v i) : ∃ seat', (t.step v).2.seats.get? i = some seat' ∧
      (seat' = seat ∨ (seat.state ≠ .locked ∧ seat.state ≠ .reserved) ∨
        (seat.state = .locked ∧ (seat'.state = .locked ∨ seat'.state = .reserved) ∧ seat'.owner = seat.owner)) := by
  cases v with
  | sweep now =>
    refine ⟨seat, ?_, Or.inl rfl⟩
    simp only [step]
    have hnot : i ∉ (t.expireLeasesLocked now).1 := hf
    rw [expireLeasesLocked_seat, if_neg hnot, h]
  | lock j requester server uuid now later stamp starts =>
    simp only [step]
    rcases lockSeat_cases t j requester server uuid now later stamp starts with ⟨e, -, hl⟩ | ⟨l, -, hl⟩
    · rw [hl]
      exact ⟨seat, h, Or.inl rfl⟩
    · rw [hl _ rfl]
      simp only [publish_seats, Dict.get?_modify]
      by_cases hij : i = j
      · obtain ⟨seat', hs, hr, hk⟩ := ha
        subst hij
        obtain rfl := Option.some.inj (h.symm.trans hs)
        rw [if_pos rfl, h]
        exact ⟨_, rfl, Or.inr (Or.inl ⟨hk, hr⟩)⟩
      · rw [if_neg hij, h]
        exact ⟨seat, rfl, Or.inl rfl⟩
  | confirm j now stamp starts =>
    simp only [step]
    rcases confirmSeat_cases t j now stamp starts with ⟨-, ht, -⟩ | ⟨s, -, -, -, ht, -⟩ | ⟨s, l, hs, hk, -, ht⟩
    · rw [ht]
      exact ⟨seat, h, Or.inl rfl⟩
    · rw [ht]
      exact ⟨seat, h, Or.inl rfl⟩
    · rw [ht _ rfl]
      simp only [publish_seats]
      obtain ⟨seat', hget, hsame | ⟨rfl, rfl⟩⟩ := seat_set h hs { s with state := .reserved, leaseId := "", expiresAt := 0 }
      · exact ⟨seat', hget, Or.inl hsame⟩
      · exact ⟨_, hget, Or.inr (Or.inr ⟨hk, Or.inr rfl, rfl⟩)⟩
  | cancel j =>
    simp only [step]
    rcases cancelLock_cases t j with ⟨-, ht, -⟩ | ⟨s, -, -, ht⟩
    · rw [ht]
      exact ⟨seat, h, Or.inl rfl⟩
    · have hij : i ≠ j := fun hij => hf ⟨hij.symm, by rw [ht]⟩
      rw [ht]
      simp only [Dict.get?_set, if_neg hij, h]
      exact ⟨seat, rfl, Or.inl rfl⟩
  | renew j now later last =>
    simp only [step]
    rcases renewLease_cases t j now later last with ⟨-, ht, -⟩ | ⟨s, e, -, -, -, -, ht, -⟩ | ⟨s, l, hs, hk, -, -, ht⟩
    · rw [ht]
      exact ⟨seat, h, Or.inl rfl⟩
    · rw [ht]
      exact ⟨seat, h, Or.inl rfl⟩
    · rw [ht]
      obtain ⟨seat', hget, hsame | ⟨rfl, rfl⟩⟩ := seat_set h hs { s with expiresAt := l.expiresAt }
      · exact ⟨seat', hget, Or.inl hsame⟩
      · exact ⟨_, hget, Or.inr (Or.inr ⟨hk, Or.inl hk, rfl⟩)⟩
  | reset stamp => exact absurd trivial hf
  | deliver timer => exact ⟨seat, h, Or.inl rfl⟩
  | push server => exact ⟨seat, h, Or.inl rfl⟩

theorem held_step {t : Tables} {v : Move} {i : ℤ} {r : String} (h : t.Held i r) (ha : t.Allowed v)
    (hf : ¬ t.Frees v i) : (t.step v).2.Held i r := by
  obtain ⟨seat, hs, hk, rfl⟩ := h
  obtain ⟨seat', hs', rfl | hfree | ⟨-, hk', ho⟩⟩ := seat_step hs ha hf
  · exact ⟨seat', hs', hk, rfl⟩
  · rcases hk with hk | hk
    · exact absurd hk hfree.1
    · exact absurd hk hfree.2
  · exact ⟨seat', hs', hk', ho⟩

/-- **A reserved seat stays reserved for its owner** until a reset. -/
theorem reserved_step {t : Tables} {v : Move} {i : ℤ} {r : String} (h : t.Reserved i r) (ha : t.Allowed v)
    (hf : ∀ stamp, v ≠ .reset stamp) : (t.step v).2.Reserved i r := by
  obtain ⟨seat, hs, hk, rfl⟩ := h
  have hnot : ¬ t.IsLocked i := by
    rintro ⟨seat', hs', hl⟩
    obtain rfl := Option.some.inj (hs.symm.trans hs')
    exact absurd (hk.symm.trans hl) (by simp)
  have hfree : ¬ t.Frees v i := by
    intro hf'
    cases v with
    | sweep now => exact hnot ((mem_expireLeasesLocked t now i).1 hf').2
    | cancel j =>
      obtain ⟨rfl, hok⟩ := hf'
      rcases cancelLock_cases t j with ⟨-, -, hne⟩ | ⟨s, hs', hl, -⟩
      · exact hne hok
      · exact hnot ⟨s, hs', hl⟩
    | reset stamp => exact hf stamp rfl
    | _ => exact hf'
  obtain ⟨seat', hs', rfl | hn | ⟨hl, -⟩⟩ := seat_step hs ha hfree
  · exact ⟨seat', hs', hk, rfl⟩
  · exact absurd hk hn.2
  · exact absurd (hk.symm.trans hl) (by simp)

end Tables

namespace Site

/-- The step returns the seat to available: its sweep does, or it cancels the seat's lock, or it resets. -/
def Returns (s : Site) (e : Event) (i : ℤ) : Prop :=
  i ∈ (step s e).1.returned ∨ (e = .cancel i ∧ (step s e).1.response = some .ok) ∨ ∃ stamp, e = .reset stamp

/-- The step is an attempt that succeeds in booking the seat for `r`, so that its `book_with_retry` returns. -/
def Books (s : Site) (e : Event) (i : ℤ) (r : String) : Prop :=
  ∃ call env draw c server key, e = .attempt call env draw ∧ s.running call = some c ∧ c.seatId = i ∧
    c.requester = r ∧ (step s e).1.response = some (.booked i server key)

def Confirms (s : Site) (e : Event) (i : ℤ) : Prop :=
  (∃ env, e = .confirm i env) ∧ (step s e).1.response = some .ok

theorem moves_keep {s : Site} {e : Event} {i : ℤ} (h : ¬ Returns s e i) :
    Along Tables.step (fun t v => t.Allowed v ∧ ¬ t.Frees v i) s.app.tables (s.moves e) := by
  refine along_and (s.moves_allowed e) ?_
  cases e with
  | attempt call env draw =>
    simp only [moves]
    cases hc : s.running call with
    | none => exact trivial
    | some c =>
      have hsweep : ¬ s.app.tables.Frees (.sweep (env.time 1)) i := by
        intro hf
        refine h (Or.inl ?_)
        simp only [step, hc]
        exact hf
      simp only [Option.map_some, Option.getD_some, attemptMoves]
      refine ⟨hsweep, ?_⟩
      cases (s.swept env).reaches env c.seatId with
      | none => exact trivial
      | some server => exact ⟨not_false, trivial⟩
  | cancel j =>
    refine ⟨?_, trivial⟩
    rintro ⟨rfl, hok⟩
    exact h (Or.inr (Or.inl ⟨rfl, by simp only [step, App.cancelLock, hok]⟩))
  | snapshot env => exact ⟨fun hf => h (Or.inl hf), trivial⟩
  | reset stamp => exact absurd (Or.inr (Or.inr ⟨stamp, rfl⟩)) h
  | toggle serverId env =>
    simp only [moves]
    split
    · exact trivial
    · split
      · exact ⟨not_false, trivial⟩
      · exact trivial
  | book seatId requester => exact trivial
  | setStrategy name => exact trivial
  | _ => exact ⟨not_false, trivial⟩

theorem held_of_not_returns {s : Site} {e : Event} {i : ℤ} {r : String} (h : s.app.tables.Held i r)
    (hn : ¬ Returns s e i) : (step s e).2.app.tables.Held i r := by
  rw [tables_step]
  exact invariant_along (P := fun t => t.Held i r) h (fun t v ht hg => Tables.held_step ht hg.1 hg.2) _ (moves_keep hn)

theorem reserved_of_not_reset {s : Site} {e : Event} {i : ℤ} {r : String} (h : s.app.tables.Reserved i r)
    (hn : ∀ stamp, e ≠ .reset stamp) : (step s e).2.app.tables.Reserved i r := by
  have hmoves : ∀ v ∈ s.moves e, ∀ stamp, v ≠ .reset stamp := by
    rintro v hv stamp rfl
    exact hn stamp (reset_mem_moves hv)
  rw [tables_step]
  have hal : Along Tables.step (fun t v => t.Allowed v ∧ ∀ stamp, v ≠ .reset stamp) s.app.tables (s.moves e) :=
    along_and (s.moves_allowed e) (along_of_mem fun v hv _ => hmoves v hv)
  exact invariant_along (P := fun t => t.Reserved i r) h (fun t v ht hg => Tables.reserved_step ht hg.1 hg.2) _ hal

/-- Only the outcome of a booking is answered with one. -/
theorem settle_booked {c : BookCall} (hc : c.response = none) {outcome : Except BookingError Response} {draw : ℚ}
    {i : ℤ} {server : ServerId} {key : String} (h : (settle c outcome draw).response = some (.booked i server key)) :
    outcome = .ok (.booked i server key) := by
  unfold settle at h
  split at h
  · rw [Option.some.inj h]
  · cases h
  · split at h
    · cases h
    · exact absurd (hc.symm.trans h) (by simp)

/-- **A successful attempt got as far as the lock, and took it.** -/
theorem lock_of_books {s : Site} {e : Event} {i : ℤ} {r : String} (h : Books s e i r) :
    ∃ call env draw server, e = .attempt call env draw ∧ (s.swept env).reaches env i = some server ∧
      ((s.swept env).takesLock env i r server).1 = .ok () ∧
      (step s e).2.app.tables = ((s.swept env).takesLock env i r server).2 := by
  obtain ⟨call, env, draw, c, server, key, rfl, hc, rfl, rfl, hres⟩ := h
  simp only [step, hc] at hres ⊢
  have hok := settle_booked (running_some hc).2 hres
  refine ⟨call, env, draw, ?_⟩
  cases hr : (s.swept env).reaches env c.seatId with
  | none =>
    obtain ⟨-, e, he⟩ := App.bookSwept_of_none c.requester hr
    exact absurd (he.symm.trans hok) (by simp)
  | some sv =>
    obtain ⟨htab, hout⟩ := App.bookSwept_of_some c.requester hr
    refine ⟨sv, rfl, rfl, ?_, htab⟩
    have hsame := hout.symm.trans hok
    split at hsame
    · assumption
    · cases hsame

theorem held_of_books {s : Site} {e : Event} {i : ℤ} {r : String} (h : Books s e i r) :
    (step s e).2.app.tables.Held i r := by
  obtain ⟨call, env, draw, server, rfl, hr, hok, htab⟩ := lock_of_books h
  obtain ⟨seat, hseat, -⟩ := App.bookable_of_reaches hr
  rw [htab]
  unfold App.takesLock at hok ⊢
  rcases Tables.lockSeat_cases (s.swept env).tables i r server env.uuid (env.time 16) (env.time 17) (env.time 18)
    env.starts with ⟨e, -, hl⟩ | ⟨l, -, hl⟩
  · rw [hl] at hok
    cases hok
  · rw [hl _ rfl]
    simp only [Tables.Held, Tables.publish_seats, Dict.get?_modify, if_true, hseat, Option.map_some]
    exact ⟨_, rfl, Or.inl rfl, rfl⟩

/-- A held seat is booked only by an attempt whose own sweep has returned it. -/
theorem returns_of_books {s : Site} {e : Event} {i : ℤ} {r r' : String} (h : s.app.tables.Held i r)
    (hb : Books s e i r') : Returns s e i := by
  obtain ⟨call, env, draw, server, rfl, hr, -⟩ := lock_of_books hb
  obtain ⟨call', env', draw', c, -, -, he, hc, -⟩ := hb
  cases he
  by_contra hn
  have hkeep := moves_keep hn
  simp only [moves, hc, Option.map_some, Option.getD_some, attemptMoves] at hkeep
  obtain ⟨seat, hs, hk, -⟩ := Tables.held_step h hkeep.1.1 hkeep.1.2
  obtain ⟨seat', hs', hnr, hnl⟩ := App.bookable_of_reaches hr
  obtain rfl := Option.some.inj (hs.symm.trans hs')
  exact hk.elim hnl hnr

theorem reserved_of_confirms {s : Site} {e : Event} {i : ℤ} (h : Confirms s e i) :
    ∃ r, s.app.tables.Held i r ∧ (step s e).2.app.tables.Reserved i r := by
  obtain ⟨⟨env, rfl⟩, hok⟩ := h
  have hok' : (s.app.tables.confirmSeat i (env.time 0) (env.time 1) env.starts).1 = .ok := Option.some.inj hok
  rw [tables_step]
  simp only [moves, run_cons, run_nil, Tables.step]
  rcases Tables.confirmSeat_cases s.app.tables i (env.time 0) (env.time 1) env.starts with
    ⟨-, -, c, m, hr⟩ | ⟨seat, -, -, -, -, c, m, hr⟩ | ⟨seat, l, hs, hk, -, ht⟩
  · exact absurd (hok'.symm.trans hr) (by simp)
  · exact absurd (hok'.symm.trans hr) (by simp)
  · refine ⟨seat.owner, ⟨seat, hs, Or.inl hk, rfl⟩, ?_⟩
    rw [ht _ rfl]
    simp only [Tables.Reserved, Tables.publish_seats, Dict.get?_set_self]
    exact ⟨_, rfl, rfl, rfl⟩

/-- **No double booking.**  After an attempt has booked a seat, and until a step returns the seat to available, the
seat's owner is the requester and no attempt books it again; and a confirmed seat stays reserved for its owner until a
reset. -/
theorem no_double_booking (s : Site) (e : Event) (mid : List Event) (i : ℤ) :
    (∀ r, Books s e i r → Along step (fun s e => ¬ Returns s e i) (step s e).2 mid →
      (run step (step s e).2 mid).app.tables.Held i r ∧
      ∀ e' r', Books (run step (step s e).2 mid) e' i r' → Returns (run step (step s e).2 mid) e' i) ∧
    (Confirms s e i → Along step (fun _ e => ∀ stamp, e ≠ .reset stamp) (step s e).2 mid →
      ∃ r, s.app.tables.Held i r ∧ (run step (step s e).2 mid).app.tables.Reserved i r) := by
  constructor
  · intro r hb hmid
    have hheld : (run step (step s e).2 mid).app.tables.Held i r :=
      invariant_along (P := fun s => s.app.tables.Held i r) (held_of_books hb)
        (fun s e h hn => held_of_not_returns h hn) mid hmid
    exact ⟨hheld, fun e' r' hb' => returns_of_books hheld hb'⟩
  · intro hc hmid
    obtain ⟨r, hr, hres⟩ := reserved_of_confirms hc
    exact ⟨r, hr, invariant_along (P := fun s => s.app.tables.Reserved i r) hres
      (fun s e h hn => reserved_of_not_reset h hn) mid hmid⟩

end Site
end Ticket
