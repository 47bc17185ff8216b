import Mathlib.Data.List.Count
import TicketBooking.Balancer
import TicketBooking.Rotation
import TicketBooking.Runs
/-!
# Overtaking — round robin lets nobody overtake a server that waits

A call of the round robin is one turn of `Rotation` over the positions of the list: the position chosen last is the one
before the cursor, and the online positions are ready (`select_turn`).  So over calls with one list of servers the
positions chosen are turns in a row (`turns_run`), and what holds of turns holds of the servers (`no_overtaking`).
-/
namespace Ticket

open Runs Rotation

namespace Balancer
namespace RoundRobin

variable {ι : Type}

/-- The position is that of an online entry. -/
def OnlineAt (metrics : List (ServerMetrics ι)) (k : ℕ) : Prop := (metrics[k]?).map ServerMetrics.status = some .online

instance (metrics : List (ServerMetrics ι)) (k : ℕ) : Decidable (OnlineAt metrics k) :=
  inferInstanceAs (Decidable (_ = _))

theorem findSome?_range {α : Type} {f : ℕ → Option α} {n : ℕ} {a : α} (h : (List.range n).findSome? f = some a) :
    ∃ o < n, f o = some a ∧ ∀ o' < o, f o' = none := by
  obtain ⟨l₁, o, l₂, hl, ho, hbefore⟩ := List.findSome?_eq_some_iff.1 h
  have hmem : o ∈ List.range n := by rw [hl]; exact List.mem_append_right _ List.mem_cons_self
  have hsorted := List.pairwise_lt_range (n := n)
  rw [hl] at hsorted
  refine ⟨o, List.mem_range.1 hmem, ho, fun o' ho' => hbefore o' ?_⟩
  have hmem' : o' ∈ List.range n := List.mem_range.2 (lt_trans ho' (List.mem_range.1 hmem))
  rw [hl] at hmem'
  rcases List.mem_append.1 hmem' with h₁ | h₂
  · exact h₁
  · rcases List.mem_cons.1 h₂ with rfl | h₂
    · exact absurd ho' (lt_irrefl _)
    · have hlt := (List.pairwise_cons.1 (List.pairwise_append.1 hsorted).2.1).1 o' h₂
      exact absurd ho' (lt_asymm hlt)

/-- What a call finds at the position it tries after `offset` others. -/
def tried (s : RoundRobin) (metrics : List (ServerMetrics ι)) (offset : ℕ) : Option (ℕ × ι) :=
  let idx := residue metrics.length (s.rrIndex + 1 + offset)
  (metrics[idx]?).bind (fun m => if m.status = .online then some (idx, m.serverId) else none)

theorem select_eq (s : RoundRobin) (metrics : List (ServerMetrics ι)) : s.select metrics =
    match (List.range metrics.length).findSome? (s.tried metrics) with
    | some (idx, serverId) => (some serverId, ⟨idx⟩)
    | none => (none, s) := by
  -- the offsets are cast to integers before they are tried
  have hcast : (List.range metrics.length >>= fun o => pure (o : ℤ)) = (List.range metrics.length).map (↑) := by
    rw [List.map_eq_flatMap]
    rfl
  unfold select
  rw [hcast, List.findSome?_map]
  rfl

variable {s : RoundRobin} {metrics : List (ServerMetrics ι)}

theorem tried_eq_some {o k : ℕ} {i : ι} (h : s.tried metrics o = some (k, i)) :
    residue metrics.length (s.rrIndex + 1 + o) = k ∧ OnlineAt metrics k ∧
      (metrics[k]?).map ServerMetrics.serverId = some i := by
  unfold tried at h
  obtain ⟨m, hm, hif⟩ := Option.bind_eq_some_iff.1 h
  split at hif
  · rename_i hon
    obtain ⟨rfl, rfl⟩ := Prod.mk.inj (Option.some.inj hif)
    exact ⟨rfl, by rw [OnlineAt, hm, Option.map_some, hon], by rw [hm, Option.map_some]⟩
  · cases hif

theorem tried_eq_none {j : ℕ} (hj : j < metrics.length) (hon : OnlineAt metrics j) :
    s.tried metrics (ahead metrics.length (s.rrIndex + 1) j) ≠ none := by
  have hidx := (residue_add_eq_iff hj (ahead_lt (c := s.rrIndex + 1) (k := j) (by omega))).2 rfl
  unfold tried
  obtain ⟨m, hm, hst⟩ := Option.map_eq_some_iff.1 hon
  simp [hidx, hm, hst]

/-- **A call is one turn** over the positions, and the position chosen is remembered; without an online entry there is
no turn. -/
theorem select_turn (s : RoundRobin) (metrics : List (ServerMetrics ι)) :
    (∃ (k : ℕ) (i : ι), s.select metrics = (some i, ⟨k⟩) ∧ (metrics[k]?).map ServerMetrics.serverId = some i ∧
      Turn metrics.length (OnlineAt metrics) (s.rrIndex + 1) k) ∨
    (s.select metrics = (none, s) ∧ ∀ k, ¬ OnlineAt metrics k) := by
  rw [select_eq]
  cases hf : (List.range metrics.length).findSome? (s.tried metrics) with
  | none =>
    refine Or.inr ⟨rfl, fun k hk => ?_⟩
    have hlt : k < metrics.length := by
      by_contra hge
      rw [OnlineAt, List.getElem?_eq_none (not_lt.1 hge)] at hk
      cases hk
    refine tried_eq_none (s := s) hlt hk (List.findSome?_eq_none_iff.1 hf _ (List.mem_range.2 ?_))
    exact ahead_lt (by omega)
  | some r =>
    obtain ⟨k, i⟩ := r
    obtain ⟨o, ho, htried, hbefore⟩ := findSome?_range hf
    obtain ⟨hk, hon, hid⟩ := tried_eq_some htried
    have hlt : k < metrics.length := by
      by_contra hge
      rw [OnlineAt, List.getElem?_eq_none (not_lt.1 hge)] at hon
      cases hon
    have hahead : ahead metrics.length (s.rrIndex + 1) k = o := (residue_add_eq_iff hlt ho).1 hk
    refine Or.inl ⟨k, i, rfl, hid, hlt, hon, fun j hj hjon => ?_⟩
    rw [hahead]
    by_contra hfirst
    exact tried_eq_none hj hjon (hbefore _ (not_le.1 hfirst))

/-! ## A stretch of calls -/

def choices (s : RoundRobin) (calls : List (List (ServerMetrics ι))) : List (Option ι) :=
  (trace select s calls).map Prod.snd

/-- **Calls with one list of servers are turns in a row**, as long as each finds someone online. -/
theorem turns_run {ids : List ι} : ∀ (calls : List (List (ServerMetrics ι))) (s : RoundRobin),
    (∀ metrics ∈ calls, metrics.map ServerMetrics.serverId = ids) → (∀ metrics ∈ calls, ∃ k, OnlineAt metrics k) →
    ∃ l : List ((ℕ → Prop) × ℕ), Turns ids.length (s.rrIndex + 1) l ∧ l.map Prod.fst = calls.map OnlineAt ∧
      choices s calls = (l.map Prod.snd).map (fun k => ids[k]?)
  | [], _, _, _ => ⟨[], trivial, rfl, rfl⟩
  | metrics :: calls, s, hids, hon => by
    have hown : metrics.map ServerMetrics.serverId = ids := hids metrics List.mem_cons_self
    rcases select_turn s metrics with ⟨k, i, hsel, hid, hturn⟩ | ⟨-, hnone⟩
    · obtain ⟨l, hturns, hready, hchoices⟩ := turns_run calls ⟨k⟩ (fun m hm => hids m (List.mem_cons_of_mem _ hm))
        (fun m hm => hon m (List.mem_cons_of_mem _ hm))
      have hlen : metrics.length = ids.length := by rw [← hown, List.length_map]
      rw [hlen] at hturn
      refine ⟨(OnlineAt metrics, k) :: l, ⟨hturn, hturns⟩, congrArg (OnlineAt metrics :: ·) hready, ?_⟩
      have hk : ids[k]? = some i := by rw [← hown, List.getElem?_map, hid]
      unfold choices at hchoices ⊢
      rw [trace, List.map_cons, List.map_cons, List.map_cons, hk, hsel, hchoices]
    · obtain ⟨k, hk⟩ := hon metrics List.mem_cons_self
      exact absurd hk (hnone k)

theorem mem_ready {calls : List (List (ServerMetrics ι))} {l : List ((ℕ → Prop) × ℕ)}
    (hready : l.map Prod.fst = calls.map OnlineAt) {t : (ℕ → Prop) × ℕ} (ht : t ∈ l) :
    ∃ metrics ∈ calls, OnlineAt metrics = t.1 := by
  have hmem : t.1 ∈ l.map Prod.fst := List.mem_map_of_mem ht
  rw [hready] at hmem
  exact List.mem_map.1 hmem

theorem map_getElem?_range {α : Type} (l : List α) : (List.range l.length).map (fun k => l[k]?) = l.map some := by
  refine List.ext_getElem? fun k => ?_
  by_cases hk : k < l.length
  · simp [hk]
  · simp [not_lt.1 hk]

/-- Positions taken once each take a server no more often than it is listed. -/
theorem count_le_of_nodup [DecidableEq ι] {ids : List ι} {ks : List ℕ} (hnodup : ks.Nodup) (hlt : ∀ k ∈ ks, k < ids.length)
    (j : ι) : (ks.map (fun k => ids[k]?)).count (some j) ≤ ids.count j := by
  obtain ⟨ks', hperm, hsub⟩ := hnodup.subperm fun k hk => List.mem_range.2 (hlt k hk)
  have hle := (hsub.map fun k => ids[k]?).count_le (some j)
  rwa [map_getElem?_range, List.count_map_of_injective ids some (Option.some_injective ι),
    (hperm.map fun k => ids[k]?).count_eq] at hle

/-- The online positions of a list whose entries are online as said. -/
def places (entries : List (ι × Bool)) : List ℕ :=
  (List.range entries.length).filter (fun k => ((entries[k]?).map Prod.snd).getD false)

theorem map_places (entries : List (ι × Bool)) : (places entries).map (fun k => (entries[k]?).map Prod.fst) =
    (entries.filter Prod.snd).map (fun e => some e.1) := by
  have hall := congrArg (fun l => (l.filter (fun e => (e.map Prod.snd).getD false)).map (Option.map Prod.fst))
    (map_getElem?_range entries)
  simpa [places, List.filter_map, Function.comp_def] using hall

theorem length_places (entries : List (ι × Bool)) : (places entries).length = (entries.filter Prod.snd).length := by
  have hmap := congrArg List.length (map_places entries)
  rwa [List.length_map, List.length_map] at hmap

theorem mem_places {metrics : List (ServerMetrics ι)} {entries : List (ι × Bool)}
    (h : metrics.map (fun m => (m.serverId, decide (m.status = .online))) = entries) (k : ℕ) :
    OnlineAt metrics k ↔ k ∈ places entries := by
  subst h
  unfold places OnlineAt
  rw [List.mem_filter, List.mem_range, List.getElem?_map, List.length_map]
  by_cases hk : k < metrics.length
  · simp [hk]
  · simp [not_lt.1 hk]

/-- While the server at a position waits, nobody is selected more often than it is listed: no position is chosen
twice. -/
theorem count_le_of_waiting [DecidableEq ι] {s : RoundRobin} {ids : List ι} {calls : List (List (ServerMetrics ι))}
    (hids : ∀ metrics ∈ calls, metrics.map ServerMetrics.serverId = ids) {k : ℕ} {p : ι} (hk : ids[k]? = some p)
    (hon : ∀ metrics ∈ calls, OnlineAt metrics k) (hnot : some p ∉ choices s calls) (j : ι) :
    (choices s calls).count (some j) ≤ ids.count j := by
  obtain ⟨l, hturns, hready, hchoices⟩ := turns_run calls s hids fun metrics hm => ⟨k, hon metrics hm⟩
  have hlt : k < ids.length := (List.getElem?_eq_some_iff.1 hk).1
  have hwait : ∀ t ∈ l, t.1 k ∧ t.2 ≠ k := by
    intro t ht
    constructor
    · obtain ⟨metrics, hm, he⟩ := mem_ready hready ht
      exact he ▸ hon metrics hm
    · rintro rfl
      refine hnot ?_
      rw [hchoices, ← hk]
      exact List.mem_map_of_mem (List.mem_map_of_mem ht)
  rw [hchoices]
  refine count_le_of_nodup (served_once hlt l _ hturns hwait).1 (fun q hq => ?_) j
  obtain ⟨t, ht, rfl⟩ := List.mem_map.1 hq
  exact (turns_ready hturns t ht).1

/-- As many calls as there are online entries choose each online position once. -/
theorem choices_perm {s : RoundRobin} {entries : List (ι × Bool)}
    {calls : List (List (ServerMetrics ι))}
    (hentries : ∀ metrics ∈ calls, metrics.map (fun m => (m.serverId, decide (m.status = .online))) = entries)
    (hlen : calls.length = (entries.filter Prod.snd).length) :
    (choices s calls).Perm ((entries.filter Prod.snd).map (fun e => some e.1)) := by
  have hids : ∀ metrics ∈ calls, metrics.map ServerMetrics.serverId = entries.map Prod.fst := by
    intro metrics hm
    rw [← hentries metrics hm, List.map_map]
    rfl
  have hon : ∀ metrics ∈ calls, ∃ k, OnlineAt metrics k := by
    intro metrics hm
    have hpos : 0 < (places entries).length := by
      rw [length_places, ← hlen]
      exact List.length_pos_of_mem hm
    obtain ⟨k, hk⟩ := List.exists_mem_of_length_pos hpos
    exact ⟨k, (mem_places (hentries metrics hm) k).2 hk⟩
  obtain ⟨l, hturns, hready, hchoices⟩ := turns_run calls s hids hon
  have hnodup : (places entries).Nodup := List.nodup_range.filter _
  have hserved : (l.map Prod.snd).Perm (places entries) := by
    refine served_all hnodup hturns (fun t ht j _ => ?_) (fun j hj => ?_) ?_
    · obtain ⟨metrics, hm, he⟩ := mem_ready hready ht
      exact he ▸ mem_places (hentries metrics hm) j
    · rw [List.length_map]
      exact List.mem_range.1 (List.mem_of_mem_filter hj)
    · have hl := congrArg List.length hready
      rw [List.length_map, List.length_map] at hl
      rw [hl, hlen, length_places]
  rw [hchoices, ← map_places]
  simp only [List.getElem?_map]
  exact hserved.map _

/-- **Round robin never lets one server overtake another that is waiting.**  Over calls with one list of servers, from
any state: while the server at position `k` is online and not selected, nobody is selected more often than it is listed;
and with one set of online entries, as many calls as there are select each of them once. -/
theorem no_overtaking [DecidableEq ι] (s : RoundRobin) (ids : List ι) (calls : List (List (ServerMetrics ι)))
    (hids : ∀ metrics ∈ calls, metrics.map ServerMetrics.serverId = ids) :
    (∀ k p, ids[k]? = some p → (∀ metrics ∈ calls, OnlineAt metrics k) → some p ∉ choices s calls →
      ∀ j, (choices s calls).count (some j) ≤ ids.count j) ∧
    ∀ entries : List (ι × Bool),
      (∀ metrics ∈ calls, metrics.map (fun m => (m.serverId, decide (m.status = .online))) = entries) →
      calls.length = (entries.filter Prod.snd).length →
        (choices s calls).Perm ((entries.filter Prod.snd).map (fun e => some e.1)) := by
  constructor
  · intro k p hk hon hnot j
    exact count_le_of_waiting hids hk hon hnot j
  · intro entries hentries hlen
    exact choices_perm hentries hlen

/-- Two calls while server 3 waits. -/
theorem no_overtaking_twoCalls :
    (choices new [[.idle 1 .online, .idle 2 .online, .idle 3 .online],
      [.idle 1 .online, .idle 2 .online, .idle 3 .online]]).count (some 1) ≤ [1, 2, 3].count 1 :=
  (no_overtaking new [1, 2, 3] [[.idle 1 .online, .idle 2 .online, .idle 3 .online],
    [.idle 1 .online, .idle 2 .online, .idle 3 .online]] (by decide)).1 2 3 (by decide)
      (fun _ hm => by
        rcases List.mem_cons.1 hm with rfl | hm
        · decide
        · rw [List.mem_singleton.1 hm]
          decide) (by decide) 1

end RoundRobin
end Balancer
end Ticket
