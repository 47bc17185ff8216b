import Mathlib.Order.Lattice
import Mathlib.Logic.Function.Basic
import Mathlib.Data.Option.Basic
/-!
# Expiry — tables that forget overdue records lazily

A record carries a deadline and is in force at `t` while `t` is before it (`liveAt`).  A table that drops overdue
records only now and then *lags* the full history (`Lags`): it holds nothing the history does not, and whatever it has
dropped was overdue by the latest clock reading.  Purging it at a later reading leaves exactly the live part of the
history (`Lags.liveAt_eq`), so its answers are the history's, whenever the earlier purges ran.
-/
namespace Expiry

variable {κ ν τ : Type} [LinearOrder τ] (deadline : ν → τ)

/-- The records of `h` in force at `t`. -/
def liveAt (t : τ) (h : κ → Option ν) (k : κ) : Option ν := (h k).filter (fun v => decide (t < deadline v))

/-- **`d` lags `h` at `t`**: a part of `h`, from which only records overdue at `t` are missing. -/
structure Lags (t : τ) (d h : κ → Option ν) : Prop where
  sub : ∀ k v, d k = some v → h k = some v
  overdue : ∀ k v, h k = some v → d k = none → deadline v ≤ t

variable {deadline} {t t' : τ} {d h : κ → Option ν} {k : κ} {v : ν}

theorem liveAt_eq_some : liveAt deadline t h k = some v ↔ h k = some v ∧ t < deadline v := by
  unfold liveAt
  rw [Option.filter_eq_some_iff, decide_eq_true_eq]

theorem liveAt_eq_none : liveAt deadline t h k = none ↔ ∀ v, h k = some v → deadline v ≤ t := by
  unfold liveAt
  rw [Option.filter_eq_none_iff]
  simp only [decide_eq_true_eq, not_lt]

theorem liveAt_congr (hk : d k = h k) : liveAt deadline t d k = liveAt deadline t h k := by
  unfold liveAt
  rw [hk]

theorem liveAt_liveAt (htt : t ≤ t') : liveAt deadline t' (liveAt deadline t h) = liveAt deadline t' h := by
  funext k
  apply Option.ext
  intro v
  rw [liveAt_eq_some, liveAt_eq_some, liveAt_eq_some]
  exact ⟨fun ⟨⟨hv, _⟩, hl⟩ => ⟨hv, hl⟩, fun ⟨hv, hl⟩ => ⟨⟨hv, lt_of_le_of_lt htt hl⟩, hl⟩⟩

/-- Two tables with one live part at `t` have one live part ever after. -/
theorem liveAt_mono (htt : t ≤ t') (hk : liveAt deadline t d k = liveAt deadline t h k) :
    liveAt deadline t' d k = liveAt deadline t' h k := by
  rw [← liveAt_liveAt htt (h := d), ← liveAt_liveAt htt (h := h)]
  exact liveAt_congr hk

theorem Lags.refl (t : τ) (h : κ → Option ν) : Lags deadline t h h :=
  ⟨fun _ _ hv => hv, fun _ _ hv hn => by rw [hv] at hn; cases hn⟩

theorem Lags.mono (hl : Lags deadline t d h) (htt : t ≤ t') : Lags deadline t' d h :=
  ⟨hl.sub, fun k v hv hn => le_trans (hl.overdue k v hv hn) htt⟩

/-- **A lagging table and its history have the same live records** from the reading on at which it lags. -/
theorem Lags.liveAt_eq (hl : Lags deadline t d h) (htt : t ≤ t') : liveAt deadline t' d = liveAt deadline t' h := by
  funext k
  apply Option.ext
  intro v
  rw [liveAt_eq_some, liveAt_eq_some]
  refine ⟨fun ⟨hv, hlt⟩ => ⟨hl.sub k v hv, hlt⟩, fun ⟨hv, hlt⟩ => ⟨?_, hlt⟩⟩
  cases hd : d k with
  | none => exact absurd hlt (not_lt.2 (le_trans (hl.overdue k v hv hd) htt))
  | some w => rw [← hv, hl.sub k w hd]

/-- **Purging keeps the lag**, at the reading it purges by. -/
theorem Lags.purge (hl : Lags deadline t d h) (htt : t ≤ t') : Lags deadline t' (liveAt deadline t' d) h := by
  refine ⟨fun k v hv => hl.sub k v (liveAt_eq_some.1 hv).1, fun k v hv hn => ?_⟩
  cases hd : d k with
  | none => exact le_trans (hl.overdue k v hv hd) htt
  | some w =>
    have hw : some w = some v := (hl.sub k w hd).symm.trans hv
    exact liveAt_eq_none.1 hn v (hd.trans hw)

variable [DecidableEq κ]

theorem Lags.write (hl : Lags deadline t d h) (k : κ) (o : Option ν) :
    Lags deadline t (Function.update d k o) (Function.update h k o) := by
  constructor
  · intro j v hv
    by_cases hj : j = k
    · subst hj
      rwa [Function.update_self] at hv ⊢
    · rw [Function.update_of_ne hj] at hv ⊢
      exact hl.sub j v hv
  · intro j v hv hn
    by_cases hj : j = k
    · subst hj
      rw [Function.update_self] at hv hn
      rw [hv] at hn
      cases hn
    · rw [Function.update_of_ne hj] at hv hn
      exact hl.overdue j v hv hn

/-- Writing one key whose record is not overdue hides no other purge. -/
theorem update_liveAt_eq_iff (hk : liveAt deadline t d k = d k) (o : Option ν) :
    Function.update (liveAt deadline t d) k o = Function.update d k o ↔ liveAt deadline t d = d := by
  refine ⟨fun h => funext fun j => ?_, fun h => by rw [h]⟩
  by_cases hj : j = k
  · rw [hj, hk]
  · have hjk := congrFun h j
    rwa [Function.update_of_ne hj, Function.update_of_ne hj] at hjk

end Expiry
