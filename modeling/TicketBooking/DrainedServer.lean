import TicketBooking.WeightedRotation
/-!
# DrainedServer — when a server of weight zero gets traffic (`load_balancer/weighted_round_robin.py`)

A server of weight zero earns nothing, so it keeps the level zero for as long as it is not selected.  It is selected when
nobody online of positive weight gets above zero: a server that has just been selected is far below, and nothing makes
up for it when the others go offline.  So the drained servers get no traffic exactly as long as every call that has both
kinds online finds somebody of positive weight who is carried above zero by its weight, or to zero and is listed first
(`drained_iff`).
-/
namespace Ticket

open Runs

namespace Balancer
namespace WeightedRoundRobin

variable {ι : Type} [DecidableEq ι]

/-- No server of weight zero has been selected. -/
def Untouched (s : WeightedRoundRobin ι) : Prop := ∀ i, s.weightFor i = 0 → s.level i = 0

/-- Somebody online of positive weight gets above zero with its weight, or to zero and is listed before those of weight
zero; unless there are no online servers of one of the two kinds. -/
def Carried (s : WeightedRoundRobin ι) (metrics : List (ServerMetrics ι)) : Prop :=
  (∃ d ∈ online metrics, s.weightFor d.serverId = 0) → (∃ m ∈ online metrics, 0 < s.weightFor m.serverId) →
    ∃ m ∈ online metrics, 0 < s.weightFor m.serverId ∧ (0 < s.earned metrics m.serverId ∨
      s.earned metrics m.serverId = 0 ∧
        ∀ d ∈ online metrics, s.weightFor d.serverId = 0 → (online metrics).idxOf m < (online metrics).idxOf d)

variable {s : WeightedRoundRobin ι} {metrics : List (ServerMetrics ι)}

theorem weightFor_nonneg (s : WeightedRoundRobin ι) (i : ι) : 0 ≤ s.weightFor i := le_max_left _ _

theorem totalWeight_pos {m : ServerMetrics ι} (hm : m ∈ online metrics) (hw : 0 < s.weightFor m.serverId) :
    0 < s.totalWeight metrics := by
  refine lt_of_lt_of_le hw (List.single_le_sum (fun w hmem => ?_) _ (List.mem_map_of_mem hm))
  obtain ⟨m', -, rfl⟩ := List.mem_map.1 hmem
  exact s.weightFor_nonneg _

theorem exists_of_totalWeight (h : 0 < s.totalWeight metrics) : ∃ m ∈ online metrics, 0 < s.weightFor m.serverId := by
  by_contra hnone
  have hzero : s.totalWeight metrics = 0 := List.sum_eq_zero fun w hw => by
    obtain ⟨m, hm, rfl⟩ := List.mem_map.1 hw
    exact le_antisymm (not_lt.1 fun hpos => hnone ⟨m, hm, hpos⟩) (s.weightFor_nonneg _)
  rw [hzero] at h
  exact absurd h (lt_irrefl _)

/-- Without weight online a call selects nobody and moves no level. -/
theorem select_of_not_pos (h : ¬ 0 < s.totalWeight metrics) : (s.select metrics).1 = none ∧
    (s.select metrics).2.weights = s.weights ∧ ∀ i, (s.select metrics).2.level i = s.level i := by
  unfold totalWeight at h
  by_cases hnil : online metrics = []
  · have hsel : s.select metrics = (none, s) := by simp only [select, if_pos hnil]
    rw [hsel]
    exact ⟨rfl, rfl, fun _ => rfl⟩
  · simp only [select, if_neg hnil, if_pos (not_lt.1 h)]
    exact ⟨trivial, trivial, fun i => present_get? i _ _⟩

theorem earned_of_drained (hs : s.Untouched) {i : ι} (hi : s.weightFor i = 0) : s.earned metrics i = 0 := by
  unfold earned
  rw [hs i hi, hi, mul_zero, add_zero]

/-- **A call passes over the drained servers exactly when somebody is carried.** -/
theorem select_drained_iff (hs : s.Untouched) :
    (∀ i, s.weightFor i = 0 → (s.select metrics).1 ≠ some i) ↔ s.Carried metrics := by
  by_cases hpos : 0 < s.totalWeight metrics
  · obtain ⟨chosen, hmem, hsel, hmax, hfirst, -, -⟩ := s.select_of_pos hpos
    rw [hsel]
    constructor
    · rintro h ⟨d, hd, hdrained⟩ -
      have hne : s.weightFor chosen.serverId ≠ 0 := fun hzero => h _ hzero rfl
      refine ⟨chosen, hmem, lt_of_le_of_ne (s.weightFor_nonneg _) (Ne.symm hne), ?_⟩
      have hge := hmax d hd
      rw [earned_of_drained hs hdrained] at hge
      rcases lt_or_eq_of_le hge with hgt | hzero
      · exact Or.inl hgt
      · refine Or.inr ⟨hzero.symm, fun d' hd' hdrained' => lt_of_le_of_ne (hfirst d' hd' ?_) fun he => ?_⟩
        · rw [earned_of_drained hs hdrained', ← hzero]
        · rw [(List.idxOf_inj hmem).1 he] at hne
          exact hne hdrained'
    · rintro h i hi hchosen
      obtain rfl := Option.some.inj hchosen
      obtain ⟨m, hm, -, hcarried⟩ := h ⟨chosen, hmem, hi⟩ (exists_of_totalWeight hpos)
      have hle := hmax m hm
      rw [earned_of_drained hs hi] at hle
      rcases hcarried with hgt | ⟨hzero, hbefore⟩
      · exact absurd hgt (not_lt.2 hle)
      · have hfirst' := hfirst m hm (by rw [earned_of_drained hs hi, hzero])
        exact absurd (hbefore chosen hmem hi) (not_lt.2 hfirst')
  · rw [(select_of_not_pos hpos).1]
    refine iff_of_true (fun i _ h => (nomatch h)) fun _ hweight => ?_
    obtain ⟨m, hm, hw⟩ := hweight
    exact absurd (totalWeight_pos hm hw) hpos

theorem weights_select (s : WeightedRoundRobin ι) (metrics : List (ServerMetrics ι)) :
    (s.select metrics).2.weights = s.weights := by
  by_cases hpos : 0 < s.totalWeight metrics
  · obtain ⟨-, -, -, -, -, hweights, -⟩ := s.select_of_pos hpos
    exact hweights
  · exact (select_of_not_pos hpos).2.1

theorem untouched_select (hs : s.Untouched) (hc : s.Carried metrics) : (s.select metrics).2.Untouched := by
  intro i hi
  rw [weightFor_congr (s.weights_select metrics)] at hi
  by_cases hpos : 0 < s.totalWeight metrics
  · obtain ⟨chosen, -, hsel, -, -, -, hlevel⟩ := s.select_of_pos hpos
    have hne : i ≠ chosen.serverId := by
      rintro rfl
      exact (select_drained_iff hs).2 hc _ hi hsel
    rw [hlevel, if_neg hne, earned_of_drained hs hi, sub_zero]
  · rw [(select_of_not_pos hpos).2.2, hs i hi]

/-- **A drained server gets no traffic** throughout a run exactly when every call of it finds somebody carried. -/
theorem drained_iff (weights : Dict ι ℤ) (calls : List (List (ServerMetrics ι))) :
    (∀ i, (new weights).weightFor i = 0 → some i ∉ choices (new weights) calls) ↔
      Along select Carried (new weights) calls := by
  induction calls using List.reverseRecOn with
  | nil => exact iff_of_true (fun i _ h => (nomatch h)) trivial
  | append_singleton calls metrics ih =>
    have hweights : (run select (new weights) calls).weights = (new weights).weights :=
      invariant (P := fun s : WeightedRoundRobin ι => s.weights = (new weights).weights) rfl
        (fun s metrics h => (s.weights_select metrics).trans h) calls
    have hfor := weightFor_congr hweights
    rw [along_snoc, ← ih]
    simp only [choices_snoc, List.mem_append, List.mem_singleton, not_or]
    constructor
    · intro h
      have hcalls : ∀ i, (new weights).weightFor i = 0 → some i ∉ choices (new weights) calls :=
        fun i hi => (h i hi).1
      have hs : (run select (new weights) calls).Untouched :=
        invariant_along (fun _ _ => rfl) (fun s metrics hs hc => untouched_select hs hc) calls (ih.1 hcalls)
      exact ⟨hcalls, (select_drained_iff hs).1 fun i hi he => (h i ((hfor i).symm.trans hi)).2 he.symm⟩
    · rintro ⟨hcalls, hc⟩ i hi
      have hs : (run select (new weights) calls).Untouched :=
        invariant_along (fun _ _ => rfl) (fun s metrics hs hc => untouched_select hs hc) calls (ih.1 hcalls)
      exact ⟨hcalls i hi, fun he => (select_drained_iff hs).2 hc i ((hfor i).trans hi) he.symm⟩

/-- Server 0 is drained and listed first; server 2 goes offline after the first call. -/
def partnerOffline : List (List (ServerMetrics ℕ)) :=
  [[.idle 0 .online, .idle 1 .online, .idle 2 .online], [.idle 0 .online, .idle 1 .online, .idle 2 .offline]]

/-- **The drained server is selected.** -/
theorem partnerOffline_selects : (new (Dict.empty.set 0 0)).weightFor 0 = 0 ∧
    choices (new (Dict.empty.set 0 0)) partnerOffline = [some 1, some 0] ∧
    ¬ ∀ i, (new (Dict.empty.set 0 0)).weightFor i = 0 →
      some i ∉ choices (new (Dict.empty.set 0 0)) partnerOffline := by
  have hweight : (new (Dict.empty.set 0 0)).weightFor 0 = 0 := by decide
  have hchoices : choices (new (Dict.empty.set 0 0)) partnerOffline = [some 1, some 0] := by decide +kernel
  refine ⟨hweight, hchoices, fun h => h 0 hweight ?_⟩
  rw [hchoices]
  exact List.mem_cons_of_mem _ List.mem_cons_self

end WeightedRoundRobin
end Balancer
end Ticket
