import TicketBooking.Balancer
import TicketBooking.Clockwise
/-!
# Remapping — consistent hashing moves no more keys than it must

A key goes to the server of the next vnode clockwise from its hash (`select_eq`).  When the entries of one server go
offline or away, the ring loses that server's vnodes and nothing else changes, hashes that collide included
(`ring_without`), so only that server's keys move; and when they come back, only to it (`remaps_minimally`).
-/
namespace Ticket

open Clockwise

namespace Balancer
namespace ConsistentHashing

variable {ι : Type} [DecidableEq ι] [ToString ι] (md5 : String → ℕ)

def others (x : ι) (metrics : List (ServerMetrics ι)) : List (ServerMetrics ι) :=
  metrics.filter (fun m => decide (m.serverId ≠ x))

def vnodesOf (s : ConsistentHashing ι) (m : ServerMetrics ι) : List (ℕ × ι) :=
  (List.range s.vnodeCount).map (fun v => (md5 s!"{m.serverId}-vn-{v}", m.serverId))

omit [DecidableEq ι] in
theorem buildRing_eq (s : ConsistentHashing ι) (metrics : List (ServerMetrics ι)) :
    s.buildRing md5 metrics = around Prod.fst ((online metrics).flatMap (s.vnodesOf md5)) := rfl

/-- The vnode a key goes to: the next from its hash, and without a key the first of the ring. -/
def place (ring : List (ℕ × ι)) (routingKey : Option String) : Option (ℕ × ι) :=
  if routingKey.getD "" = "" then ring.head? else next Prod.fst (md5 (routingKey.getD "")) ring

omit [DecidableEq ι] in
theorem select_eq (s : ConsistentHashing ι) (metrics : List (ServerMetrics ι)) (routingKey : Option String) :
    (s.select md5 metrics routingKey).1 = (place md5 (s.buildRing md5 metrics) routingKey).map Prod.snd := by
  unfold select place next
  generalize s.buildRing md5 metrics = ring
  generalize routingKey.getD "" = key
  by_cases hk : key = ""
  · rw [if_pos hk]
    cases ring <;> simp [hk]
  · simp only [if_neg hk, List.find?_eq_getElem?_findIdx]
    have hle : ring.findIdx (fun v => decide (md5 key ≤ v.1)) ≤ ring.length := List.findIdx_le_length
    rcases Nat.lt_or_eq_of_le hle with hlt | he
    · rw [if_neg (Nat.ne_of_lt hlt), List.getElem?_eq_getElem hlt]
      rfl
    · rw [if_pos he, he, List.getElem?_eq_none (Nat.le_refl _), List.head?_eq_getElem?]
      rfl

omit [DecidableEq ι] [ToString ι] in
theorem place_filter {ring : List (ℕ × ι)} {routingKey : Option String} {p : ℕ × ι → Bool}
    (h : ∀ v, place md5 ring routingKey = some v → p v = true) :
    place md5 (ring.filter p) routingKey = place md5 ring routingKey := by
  cases hv : place md5 ring routingKey with
  | none =>
    have hring : ring = [] := by
      unfold place at hv
      split at hv
      · exact List.head?_eq_none_iff.1 hv
      · exact next_eq_none hv
    rw [hring] at hv ⊢
    exact hv
  | some v =>
    have hp := h v hv
    unfold place at hv ⊢
    by_cases hk : routingKey.getD "" = ""
    · rw [if_pos hk] at hv ⊢
      exact head?_filter hv hp
    · rw [if_neg hk] at hv ⊢
      exact next_filter hv hp

omit [ToString ι] in
theorem online_others (x : ι) (metrics : List (ServerMetrics ι)) :
    online (others x metrics) = (online metrics).filter (fun m => decide (m.serverId ≠ x)) := by
  unfold online others
  rw [List.filter_filter, List.filter_filter]
  exact List.filter_congr fun m _ => Bool.and_comm _ _

theorem vnodesOf_filter (s : ConsistentHashing ι) (x : ι) (m : ServerMetrics ι) :
    (s.vnodesOf md5 m).filter (fun v => decide (v.2 ≠ x)) = if m.serverId ≠ x then s.vnodesOf md5 m else [] := by
  unfold vnodesOf
  by_cases hm : m.serverId = x
  · simp [List.filter_map, Function.comp_def, hm]
  · simp [List.filter_map, Function.comp_def, hm]

/-- **The ring without a server's vnodes** is the ring of the other servers' entries. -/
theorem ring_without (s : ConsistentHashing ι) (x : ι) (metrics : List (ServerMetrics ι)) :
    (s.buildRing md5 metrics).filter (fun v => decide (v.2 ≠ x)) = s.buildRing md5 (others x metrics) := by
  rw [buildRing_eq, buildRing_eq, ← around_filter, online_others]
  congr 1
  induction online metrics with
  | nil => rfl
  | cons m l ih =>
    rw [List.flatMap_cons, List.filter_append, ih, vnodesOf_filter]
    by_cases hm : m.serverId = x
    · rw [if_neg (not_not.2 hm), List.filter_cons_of_neg (by simpa using hm), List.nil_append]
    · rw [if_pos hm, List.filter_cons_of_pos (by simpa using hm), List.flatMap_cons]

theorem ring_of_gone (s : ConsistentHashing ι) {x : ι} {metrics : List (ServerMetrics ι)}
    (h : ∀ m ∈ metrics, m.serverId = x → m.status ≠ .online) :
    s.buildRing md5 (others x metrics) = s.buildRing md5 metrics := by
  have hon : online (others x metrics) = online metrics := by
    rw [online_others]
    refine List.filter_eq_self.2 fun m hm => decide_eq_true fun hmx => ?_
    obtain ⟨hmem, hst⟩ := List.mem_filter.1 hm
    exact h m hmem hmx (of_decide_eq_true hst)
  unfold buildRing
  rw [hon]

/-- **A key that does not go to `x` goes where it went** once the vnodes of `x` are away. -/
theorem select_without (s s' : ConsistentHashing ι) (hs : s'.vnodeCount = s.vnodeCount) {x : ι}
    {metrics metrics' : List (ServerMetrics ι)} (hother : others x metrics' = others x metrics)
    (hgone : ∀ m ∈ metrics', m.serverId = x → m.status ≠ .online) (routingKey : Option String)
    (hx : (s.select md5 metrics routingKey).1 ≠ some x) :
    (s'.select md5 metrics' routingKey).1 = (s.select md5 metrics routingKey).1 := by
  have hring : s'.buildRing md5 metrics' = (s.buildRing md5 metrics).filter (fun v => decide (v.2 ≠ x)) := by
    rw [ring_without, ← ring_of_gone md5 s' hgone, hother]
    unfold buildRing
    rw [hs]
  rw [select_eq] at hx ⊢
  rw [select_eq, hring, place_filter]
  intro v hv
  rw [hv] at hx
  exact decide_eq_true fun he => hx (congrArg some he)

/-- **Consistent hashing remaps minimally.**  Let two lists differ in the entries of `x` alone, which in the second are
away or not online.  From the first to the second, a key that was not routed to `x` is routed as before; from the second
to the first, a key is routed as before or to `x`. -/
theorem remaps_minimally (vnodeCount : ℕ) (ring ring' : List (ℕ × ι)) (x : ι)
    (metrics metrics' : List (ServerMetrics ι)) (routingKey : Option String)
    (hother : others x metrics' = others x metrics)
    (hgone : ∀ m ∈ metrics', m.serverId = x → m.status ≠ .online) :
    ((select md5 ⟨vnodeCount, ring⟩ metrics routingKey).1 ≠ some x →
      (select md5 ⟨vnodeCount, ring'⟩ metrics' routingKey).1 = (select md5 ⟨vnodeCount, ring⟩ metrics routingKey).1) ∧
    ((select md5 ⟨vnodeCount, ring⟩ metrics routingKey).1 =
        (select md5 ⟨vnodeCount, ring'⟩ metrics' routingKey).1 ∨
      (select md5 ⟨vnodeCount, ring⟩ metrics routingKey).1 = some x) := by
  have hkeep := select_without md5 ⟨vnodeCount, ring⟩ ⟨vnodeCount, ring'⟩ rfl hother hgone routingKey
  refine ⟨hkeep, ?_⟩
  by_cases hx : (select md5 ⟨vnodeCount, ring⟩ metrics routingKey).1 = some x
  · exact Or.inr hx
  · exact Or.inl (hkeep hx).symm

/-- Server A of two is taken offline; the key, whose hash is that of B's vnode, stays with B. -/
theorem remaps_minimally_offline : let md5 : String → ℕ := fun text => if text = "A-vn-0" then 3 else 8
    (select md5 ⟨1, []⟩ [.idle "A" .online, .idle "B" .online] (some "seat-1")).1 = some "B" ∧
    (select md5 ⟨1, []⟩ [.idle "A" .offline, .idle "B" .online] (some "seat-1")).1 = some "B" := by
  intro md5
  have hbefore : (select md5 ⟨1, []⟩ [.idle "A" .online, .idle "B" .online] (some "seat-1")).1 = some "B" := by
    rw [select_eq, buildRing_eq]
    unfold Clockwise.around
    rw [List.mergeSort_of_pairwise (by decide +kernel)]
    decide +kernel
  obtain ⟨hkept, -⟩ := remaps_minimally md5 1 [] [] "A" [.idle "A" .online, .idle "B" .online]
    [.idle "A" .offline, .idle "B" .online] (some "seat-1") (by decide) (by decide)
  exact ⟨hbefore, (hkept (by rw [hbefore]; decide)).trans hbefore⟩

end ConsistentHashing
end Balancer
end Ticket
