import Mathlib.Data.List.Chain
import TicketBooking.HealthChecker
import TicketBooking.Streak
/-!
# HealthOrder — the last notification and the order of delivery

What a callback has received about a server, and what is in flight for it, are together its changes in the order they
were decided as long as no delivery overtakes an older one about the same server (`Recounted`).  Then nothing in flight
means that the last notification received is the state recorded.  A delivery that does overtake leaves an older
notification that says otherwise to arrive after it (`latest_wins`).
-/
namespace Ticket

open Runs

namespace HealthSystem

variable {ι : Type} [DecidableEq ι]

/-- The changes of a server's state: each is one, and the last is the state. -/
def Recounts (h : HealthChecker ι) (l : List (ι × ServerState)) (i : ι) : Prop :=
  (about i l).IsChain (· ≠ ·) ∧ (about i l).getLast? = h.states.get? i

/-- **What was received and what is in flight recount every server's changes.** -/
def Recounted (s : HealthSystem ι) : Prop := ∀ i, Recounts s.checker (s.received ++ s.inFlight) i

/-- A delivery overtakes no older notification about the same server. -/
def InOrder (s : HealthSystem ι) (e : HealthEvent ι) : Prop :=
  match e with
  | .deliver message => ∀ n, s.inFlight[message]? = some n → ∀ older ∈ s.inFlight.take message, older.1 ≠ n.1
  | _ => True

theorem about_append (i : ι) (l l' : List (ι × ServerState)) : about i (l ++ l') = about i l ++ about i l' := by
  unfold about
  rw [List.filter_append, List.map_append]

/-- **A change is noted as the state is set**, and what is no change is not. -/
theorem Recounts.note {h : HealthChecker ι} {l : List (ι × ServerState)} {i : ι} (hr : Recounts h l i) (j : ι)
    (st : ServerState) (h' : HealthChecker ι) (hset : h'.states = h.states.set j st) :
    Recounts h' (l ++ if h.states.get? j ≠ some st then [(j, st)] else []) i := by
  unfold Recounts
  rw [about_append, hset, Dict.get?_set]
  by_cases hi : i = j
  · subst hi
    rw [if_pos rfl]
    by_cases hsame : h.states.get? i = some st
    · rw [if_neg (not_not.2 hsame), ← hsame]
      show (about i l ++ []).IsChain (· ≠ ·) ∧ (about i l ++ []).getLast? = _
      rw [List.append_nil]
      exact hr
    · have hone : about i [(i, st)] = [st] := by simp [about]
      rw [if_pos hsame, hone]
      refine ⟨Streak.isChain_snoc.2 ⟨hr.1, fun before hbefore => ?_⟩, List.getLast?_concat⟩
      rw [hr.2] at hbefore
      rintro rfl
      exact hsame hbefore
  · rw [if_neg hi]
    have hnone : about i (if h.states.get? j ≠ some st then [(j, st)] else []) = [] := by
      split <;> simp [about, Ne.symm hi]
    rw [hnone, List.append_nil]
    exact hr

theorem recounts_foldl (base : List (ι × ServerState)) {i : ι} (now : Time) : ∀ (known : List ι)
    (acc : List (ι × ServerState) × HealthChecker ι), Recounts acc.2 (base ++ acc.1) i →
    Recounts (known.foldl (HealthChecker.updateOne now) acc).2
      (base ++ (known.foldl (HealthChecker.updateOne now) acc).1) i
  | [], _, h => h
  | j :: known, acc, h => by
    have hnote := h.note j (acc.2.stateFor j now) (HealthChecker.updateOne now acc j).2 rfl
    rw [List.append_assoc] at hnote
    exact recounts_foldl base now known (HealthChecker.updateOne now acc j) hnote

variable {s : HealthSystem ι}

omit [DecidableEq ι] in
theorem split_at {l : List (ι × ServerState)} {k : ℕ} {n : ι × ServerState} (h : l[k]? = some n) :
    l = l.take k ++ [n] ++ l.drop (k + 1) ∧ l.eraseIdx k = l.take k ++ l.drop (k + 1) := by
  obtain ⟨hlt, hget⟩ := List.getElem?_eq_some_iff.1 h
  refine ⟨?_, List.eraseIdx_eq_take_drop_succ _ _⟩
  rw [List.append_assoc, List.singleton_append, ← hget, List.getElem_cons_drop, List.take_append_drop]

theorem about_eq_nil_iff (i : ι) (l : List (ι × ServerState)) : about i l = [] ↔ ∀ n ∈ l, n.1 ≠ i := by
  unfold about
  rw [List.map_eq_nil_iff, List.filter_eq_nil_iff]
  simp only [decide_eq_true_eq, ne_eq]

/-- **A delivery in order changes nothing about what is recounted.** -/
theorem about_deliver {message : ℕ} {n : ι × ServerState} (hn : s.inFlight[message]? = some n)
    (ho : s.InOrder (.deliver message)) (i : ι) :
    about i (s.received ++ [n] ++ s.inFlight.eraseIdx message) = about i (s.received ++ s.inFlight) := by
  obtain ⟨hsplit, herase⟩ := split_at hn
  rw [herase]
  conv_rhs => rw [hsplit]
  simp only [about_append, List.append_assoc]
  by_cases hi : n.1 = i
  · have hnone : about i (s.inFlight.take message) = [] :=
      (about_eq_nil_iff i _).2 fun m hm => hi ▸ ho n hn m hm
    rw [hnone, List.nil_append, List.nil_append]
  · have hone : about i [n] = [] := (about_eq_nil_iff i _).2 fun m hm => List.mem_singleton.1 hm ▸ hi
    rw [hone, List.nil_append, List.nil_append]

theorem recounted_step {e : HealthEvent ι} (h : s.Recounted) (ho : s.InOrder e) : (s.step e).2.Recounted := by
  intro i
  cases e with
  | heartbeat serverId now =>
    have hnote := (h i).note serverId .online (s.checker.recordHeartbeat serverId now).2 rfl
    rwa [List.append_assoc] at hnote
  | read now => exact h i
  | enter call =>
    simp only [step]
    cases hw : s.waiting[call]? with
    | none => exact h i
    | some now =>
      have hfold := recounts_foldl (s.received ++ s.inFlight) now s.checker.knownServers ([], s.checker)
        (by rw [List.append_nil]; exact h i)
      rwa [List.append_assoc] at hfold
  | deliver message =>
    simp only [step]
    cases hn : s.inFlight[message]? with
    | none => exact h i
    | some n =>
      unfold Recounts
      simp only [about_deliver hn ho]
      exact h i

theorem recounted_new (degradedAfterSec offlineAfterSec checkIntervalSec : Time) :
    Recounted (new (.fresh degradedAfterSec offlineAfterSec checkIntervalSec) : HealthSystem ι) :=
  fun _ => ⟨List.isChain_nil, rfl⟩

theorem Recounted.latestWins (h : s.Recounted) (hq : s.Quiet) (i : ι) : s.LatestWins i := by
  have hlast := (h i).2
  rw [hq.2, List.append_nil] at hlast
  exact hlast

/-- **A delivery that overtakes leaves an older notification in flight that says otherwise.** -/
theorem Recounted.overtaken (h : s.Recounted) {message : ℕ} (ho : ¬ s.InOrder (.deliver message)) :
    ∃ n older, s.inFlight[message]? = some n ∧ older ∈ s.inFlight.take message ∧ older.1 = n.1 ∧ older.2 ≠ n.2 := by
  simp only [InOrder, not_forall, ne_eq, not_not] at ho
  obtain ⟨n, hn, m, hm, hmn⟩ := ho
  have hne : about n.1 (s.inFlight.take message) ≠ [] := fun hnil => (about_eq_nil_iff _ _).1 hnil m hm hmn
  -- the changes about the server that were decided before this one and have not arrived: the last of them is another
  obtain ⟨st, hst⟩ := Option.isSome_iff_exists.1 (List.getLast?_isSome.2 hne)
  obtain ⟨older, holder, rfl⟩ := List.mem_map.1 (List.mem_of_getLast? hst)
  obtain ⟨hmem, habout⟩ := List.mem_filter.1 holder
  refine ⟨n, older, hn, hmem, of_decide_eq_true habout, ?_⟩
  have hchain := (h n.1).1
  have hone : about n.1 [n] = [n.2] := by simp [about]
  rw [(split_at hn).1] at hchain
  simp only [about_append, hone] at hchain
  have hflight := (List.isChain_append.1 (List.isChain_append.1 hchain).2.1).1
  exact (List.isChain_append.1 hflight).2.2 older.2 hst n.2 rfl

/-- **The last notification wins as long as none overtakes an older one about its server.**  Along every run whose
deliveries are in order, whenever no call is in progress, the notification received last about a server is the state
recorded for it; and the first delivery out of order leaves an older notification about its server in flight, which
says otherwise. -/
theorem latest_wins (degradedAfterSec offlineAfterSec checkIntervalSec : Time) (es : List (HealthEvent ι)) :
    (Along step InOrder (new (.fresh degradedAfterSec offlineAfterSec checkIntervalSec)) es →
      ∀ pre post, es = pre ++ post →
        (run step (new (.fresh degradedAfterSec offlineAfterSec checkIntervalSec)) pre).Quiet →
        ∀ i, (run step (new (.fresh degradedAfterSec offlineAfterSec checkIntervalSec)) pre).LatestWins i) ∧
    (∀ s message, Along step InOrder (new (.fresh degradedAfterSec offlineAfterSec checkIntervalSec)) es →
      s = run step (new (.fresh degradedAfterSec offlineAfterSec checkIntervalSec)) es →
      ¬ s.InOrder (.deliver message) →
        ∃ n older, s.inFlight[message]? = some n ∧ older ∈ s.inFlight.take message ∧ older.1 = n.1 ∧
          older.2 ≠ n.2) := by
  have hrecounted := fun es (hes : Along step InOrder _ es) => invariant_along
    (P := fun s : HealthSystem ι => s.Recounted)
    (recounted_new degradedAfterSec offlineAfterSec checkIntervalSec) (fun s e h ho => recounted_step h ho) es hes
  constructor
  · rintro hes pre post rfl hq i
    exact (hrecounted pre ((along_append pre post _).1 hes).1).latestWins hq i
  · rintro s message hes rfl ho
    exact (hrecounted es hes).overtaken ho

/-- A check finds the server late and decides to say so; a heartbeat comes and is reported; then the check's
notification arrives. -/
def lateNews : List (HealthEvent ℕ) :=
  [.heartbeat 1 0, .deliver 0, .read 20, .enter 0, .heartbeat 1 20, .deliver 1, .deliver 0]

/-- **The server is online and the last notification says degraded.** -/
theorem lateNews_degraded : (run step (new (.fresh 10 30 1)) lateNews).Quiet ∧
    (about 1 (run step (new (.fresh 10 30 1)) lateNews).received).getLast? = some .degraded ∧
    (run step (new (.fresh 10 30 1)) lateNews).checker.states.get? 1 = some .online ∧
    ¬ (run step (new (.fresh 10 30 1)) lateNews).LatestWins 1 := by
  have hlast : (about 1 (run step (new (.fresh 10 30 1)) lateNews).received).getLast? = some .degraded := by
    decide +kernel
  have hstate : (run step (new (.fresh 10 30 1)) lateNews).checker.states.get? 1 = some .online := by decide +kernel
  refine ⟨⟨by decide +kernel, by decide +kernel⟩, hlast, hstate, fun h => ?_⟩
  exact absurd (hlast.symm.trans (h.trans hstate)) (by decide)

end HealthSystem
end Ticket
