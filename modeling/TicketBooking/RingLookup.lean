import TicketBooking.Remapping
import TicketBooking.Runs
/-!
# RingLookup — a lookup on the ring is the clockwise successor

Where no two vnodes of the online servers collide, sorting, bisecting and wrapping round find the vnode declared in
`Clockwise.IsNext`, and the declaration says nothing of the order in which the servers are listed or of the calls made
before (`lookup`).  The keys of the vnodes themselves never collide, because a key ends with the decimal of its replica
after a last dash (`vnodeKey_inj`).
-/
namespace Ticket

open Runs Clockwise

namespace Balancer
namespace ConsistentHashing

/-- The text that is hashed for a vnode. -/
def vnodeKey {ι : Type} [ToString ι] (i : ι) (v : ℕ) : String := s!"{i}-vn-{v}"

/-! ## The keys of the vnodes -/

/-- A list splits in one way at the last of the elements that do not satisfy `p`. -/
theorem append_cons_inj {α : Type} {p : α → Bool} {a b d e : List α} {c : α} (hc : p c = false)
    (hd : ∀ x ∈ d, p x = true) (he : ∀ x ∈ e, p x = true) (h : a ++ c :: d = b ++ c :: e) : a = b ∧ d = e := by
  have hnot : ∀ l : List α, (∀ x ∈ l, p x = true) → c ∉ l := fun l hl hm => by
    rw [hl c hm] at hc
    cases hc
  rcases List.append_eq_append_iff.1 h with ⟨t, rfl, ht⟩ | ⟨t, rfl, ht⟩
  · cases t with
    | nil => exact ⟨(List.append_nil a).symm, (List.cons.inj ht).2⟩
    | cons x t =>
      have hmem : c ∈ d := by
        rw [(List.cons.inj ht).2]
        exact List.mem_append_right t List.mem_cons_self
      exact absurd hmem (hnot d hd)
  · cases t with
    | nil => exact ⟨List.append_nil b, (List.cons.inj ht).2.symm⟩
    | cons x t =>
      have hmem : c ∈ e := by
        rw [(List.cons.inj ht).2]
        exact List.mem_append_right t List.mem_cons_self
      exact absurd hmem (hnot e he)

theorem vnodeKey_toList (sid : String) (v : ℕ) :
    (vnodeKey sid v).toList = (sid.toList ++ ['-', 'v', 'n']) ++ '-' :: Nat.toDigits 10 v := by
  have hkey : vnodeKey sid v = sid ++ "-vn-" ++ v.repr := by
    simp [vnodeKey, toString]
  rw [hkey, String.toList_append, String.toList_append, Nat.toList_repr]
  simp

/-- **Distinct vnodes have distinct keys**, whatever the server ids contain. -/
theorem vnodeKey_inj {sid sid' : String} {v v' : ℕ} (h : vnodeKey sid v = vnodeKey sid' v') : sid = sid' ∧ v = v' := by
  have hlist := congrArg String.toList h
  rw [vnodeKey_toList, vnodeKey_toList] at hlist
  have hdigits : ∀ n, ∀ c ∈ Nat.toDigits 10 n, c.isDigit = true := fun n c hc =>
    Nat.isDigit_of_mem_toDigits (by decide) (by decide) hc
  obtain ⟨hname, hnum⟩ := append_cons_inj (p := Char.isDigit) (by decide) (hdigits v) (hdigits v') hlist
  refine ⟨String.toList_injective (List.append_cancel_right hname), ?_⟩
  have hparsed := congrArg (fun digits => Nat.ofDigitChars 10 digits 0) hnum
  simpa using hparsed

/-! ## The ring and what it is looked up for -/

section
variable {ι : Type} (s : ConsistentHashing ι)

/-- The vnodes of the online servers, each a server with the number of a replica. -/
def vnodes (metrics : List (ServerMetrics ι)) : List (ι × ℕ) :=
  (online metrics).flatMap (fun m => (List.range s.vnodeCount).map (fun v => (m.serverId, v)))

theorem mem_vnodes {metrics : List (ServerMetrics ι)} {vnode : ι × ℕ} : vnode ∈ s.vnodes metrics ↔
    (∃ m ∈ metrics, m.serverId = vnode.1 ∧ m.status = .online) ∧ vnode.2 < s.vnodeCount := by
  unfold vnodes online
  simp only [List.mem_flatMap, List.mem_filter, decide_eq_true_eq, List.mem_map, List.mem_range]
  constructor
  · rintro ⟨m, ⟨hm, hon⟩, v, hv, rfl⟩
    exact ⟨⟨m, hm, rfl, hon⟩, hv⟩
  · rintro ⟨⟨m, hm, hid, hon⟩, hv⟩
    exact ⟨m, ⟨hm, hon⟩, vnode.2, hv, by rw [hid]⟩

theorem vnodes_eq_nil_iff (hs : 0 < s.vnodeCount) {metrics : List (ServerMetrics ι)} :
    s.vnodes metrics = [] ↔ ∀ m ∈ metrics, m.status ≠ .online := by
  constructor
  · intro h m hm hon
    have hmem : (m.serverId, 0) ∈ s.vnodes metrics := (mem_vnodes s).2 ⟨⟨m, hm, rfl, hon⟩, hs⟩
    rw [h] at hmem
    cases hmem
  · intro h
    refine List.eq_nil_iff_forall_not_mem.2 fun vnode hv => ?_
    obtain ⟨⟨m, hm, -, hon⟩, -⟩ := (mem_vnodes s).1 hv
    exact h m hm hon

variable [ToString ι] (md5 : String → ℕ)

/-- Where a vnode is on the ring. -/
def position (vnode : ι × ℕ) : ℕ := md5 (vnodeKey vnode.1 vnode.2)

theorem vnodesOf_eq (metrics : List (ServerMetrics ι)) : (online metrics).flatMap (s.vnodesOf md5) =
    (s.vnodes metrics).map (fun vnode => (position md5 vnode, vnode.1)) := by
  unfold vnodes vnodesOf
  rw [List.map_flatMap]
  simp only [List.map_map]
  rfl

/-- **What a call answers comes from the ring**: the server of some vnode, or nothing when there is none. -/
theorem select_mem {metrics : List (ServerMetrics ι)} {routingKey : Option String} {i : ι}
    (h : (s.select md5 metrics routingKey).1 = some i) : ∃ v, (i, v) ∈ s.vnodes metrics := by
  rw [select_eq] at h
  obtain ⟨node, hplace, rfl⟩ := Option.map_eq_some_iff.1 h
  have hmem : node ∈ s.buildRing md5 metrics := by
    unfold place at hplace
    split at hplace
    · exact List.mem_of_mem_head? hplace
    · exact mem_of_next hplace
  rw [buildRing_eq, mem_around, vnodesOf_eq] at hmem
  obtain ⟨vnode, hv, rfl⟩ := List.mem_map.1 hmem
  exact ⟨vnode.2, hv⟩

theorem select_eq_none_iff (hs : 0 < s.vnodeCount) {metrics : List (ServerMetrics ι)} {routingKey : Option String} :
    (s.select md5 metrics routingKey).1 = none ↔ ∀ m ∈ metrics, m.status ≠ .online := by
  have hring : s.buildRing md5 metrics = [] ↔ s.vnodes metrics = [] := by
    rw [buildRing_eq, vnodesOf_eq, List.eq_nil_iff_forall_not_mem, List.eq_nil_iff_forall_not_mem]
    simp only [mem_around, List.mem_map, not_exists, not_and]
    exact ⟨fun h a ha => h _ a ha rfl, fun h _ a ha _ => h a ha⟩
  rw [select_eq, Option.map_eq_none_iff, ← vnodes_eq_nil_iff s hs, ← hring]
  unfold place
  split
  · exact List.head?_eq_none_iff
  · exact next_eq_none_iff

end

/-! ## Lookups -/

/-- The strategy after earlier calls. -/
def after (md5 : String → ℕ) (vnodeCount : ℤ) (calls : List (List (ServerMetrics String) × Option String)) :
    ConsistentHashing String :=
  run (fun s call => s.select md5 call.1 call.2) (new vnodeCount.toNat) calls

theorem after_vnodeCount (md5 : String → ℕ) (vnodeCount : ℤ)
    (calls : List (List (ServerMetrics String) × Option String)) :
    (after md5 vnodeCount calls).vnodeCount = max 1 vnodeCount.toNat :=
  invariant (P := fun s : ConsistentHashing String => s.vnodeCount = max 1 vnodeCount.toNat) rfl (fun _ _ h => h) calls

theorem after_pos (md5 : String → ℕ) (vnodeCount : ℤ) (calls : List (List (ServerMetrics String) × Option String)) :
    0 < (after md5 vnodeCount calls).vnodeCount := by
  rw [after_vnodeCount]
  exact lt_of_lt_of_le Nat.one_pos (le_max_left _ _)

variable {md5 : String → ℕ} {s : ConsistentHashing String} {metrics : List (ServerMetrics String)} {key : String}

theorem select_isNext (hkey : key ≠ "") {i : String} (h : (s.select md5 metrics (some key)).1 = some i) :
    ∃ v, IsNext (position md5) (md5 key) (s.vnodes metrics) (i, v) := by
  rw [select_eq] at h
  obtain ⟨node, hplace, rfl⟩ := Option.map_eq_some_iff.1 h
  have hplace : next Prod.fst (md5 key) (s.buildRing md5 metrics) = some node := (if_neg hkey).symm.trans hplace
  rw [buildRing_eq, vnodesOf_eq] at hplace
  obtain ⟨vnode, rfl, hnext⟩ := (next_around hplace).of_map
  exact ⟨vnode.2, hnext⟩

/-- **Where no vnodes collide, the lookup answers whoever owns the next vnode.** -/
theorem select_eq_some_iff (hs : 0 < s.vnodeCount) (hkey : key ≠ "")
    (hinj : ∀ a ∈ s.vnodes metrics, ∀ b ∈ s.vnodes metrics, position md5 a = position md5 b →
      vnodeKey a.1 a.2 = vnodeKey b.1 b.2) (i : String) :
    (s.select md5 metrics (some key)).1 = some i ↔
      ∃ v, IsNext (position md5) (md5 key) (s.vnodes metrics) (i, v) := by
  refine ⟨select_isNext hkey, ?_⟩
  rintro ⟨v, hv⟩
  cases hsel : (s.select md5 metrics (some key)).1 with
  | none =>
    have hnil := (vnodes_eq_nil_iff s hs).2 ((select_eq_none_iff s md5 hs).1 hsel)
    have hmem := hv.1
    rw [hnil] at hmem
    cases hmem
  | some j =>
    obtain ⟨w, hw⟩ := select_isNext hkey hsel
    exact congrArg some (vnodeKey_inj (hinj _ hw.1 _ hv.1 (hw.pos_eq hv))).1

/-- **Ring lookup is clockwise-successor lookup.**  After any calls, with a hash that is injective on the keys of the
online servers' vnodes, the call answers the server that owns the next vnode from the key's hash, and nothing exactly
when nobody is online; so the answer does not depend on the order of the list or on the calls before.  And distinct
vnodes always have distinct keys. -/
theorem lookup (md5 : String → ℕ) (vnodeCount : ℤ) (metrics : List (ServerMetrics String)) (key : String)
    (hkey : key ≠ "") (hinj : ∀ a ∈ (new vnodeCount.toNat).vnodes metrics, ∀ b ∈ (new vnodeCount.toNat).vnodes metrics,
      md5 (vnodeKey a.1 a.2) = md5 (vnodeKey b.1 b.2) → vnodeKey a.1 a.2 = vnodeKey b.1 b.2) :
    (∀ calls i, ((after md5 vnodeCount calls).select md5 metrics (some key)).1 = some i ↔
      ∃ v, IsNext (position md5) (md5 key) ((new vnodeCount.toNat).vnodes metrics) (i, v)) ∧
    (∀ calls, ((after md5 vnodeCount calls).select md5 metrics (some key)).1 = none ↔
      ∀ m ∈ metrics, m.status ≠ .online) ∧
    (∀ calls calls' metrics', metrics'.Perm metrics →
      ((after md5 vnodeCount calls').select md5 metrics' (some key)).1 =
        ((after md5 vnodeCount calls).select md5 metrics (some key)).1) ∧
    ∀ (sid sid' : String) (v v' : ℕ), vnodeKey sid v = vnodeKey sid' v' → sid = sid' ∧ v = v' := by
  have hsome : ∀ calls (metrics' : List (ServerMetrics String)), metrics'.Perm metrics → ∀ i,
      ((after md5 vnodeCount calls).select md5 metrics' (some key)).1 = some i ↔
        ∃ v, IsNext (position md5) (md5 key) ((new vnodeCount.toNat).vnodes metrics) (i, v) := by
    intro calls metrics' hperm i
    have hmem : ∀ vnode, vnode ∈ (after md5 vnodeCount calls).vnodes metrics' ↔
        vnode ∈ (new vnodeCount.toNat).vnodes metrics := fun vnode => by
      rw [mem_vnodes, mem_vnodes, after_vnodeCount]
      simp only [hperm.mem_iff]
      exact Iff.rfl
    have hinj' : ∀ a ∈ (after md5 vnodeCount calls).vnodes metrics', ∀ b ∈ (after md5 vnodeCount calls).vnodes metrics',
        position md5 a = position md5 b → vnodeKey a.1 a.2 = vnodeKey b.1 b.2 :=
      fun a ha b hb => hinj a ((hmem a).1 ha) b ((hmem b).1 hb)
    rw [select_eq_some_iff (after_pos md5 vnodeCount calls) hkey hinj']
    exact exists_congr fun v => IsNext.congr hmem
  refine ⟨fun calls => hsome calls metrics (List.Perm.refl _),
    fun calls => select_eq_none_iff _ md5 (after_pos md5 vnodeCount calls), fun calls calls' metrics' hperm => ?_,
    fun _ _ _ _ => vnodeKey_inj⟩
  refine Option.ext fun i => ?_
  rw [hsome calls' metrics' hperm, hsome calls metrics (List.Perm.refl _)]

/-- One vnode for each of two servers, the key's hash at the second. -/
theorem lookup_twoServers : ((after (fun t => if t = "A-vn-0" then 3 else 8) (-5) []).select
    (fun t => if t = "A-vn-0" then 3 else 8) [.idle "A" .online, .idle "B" .online] (some "seat-1")).1 = some "B" :=
  ((lookup (fun t => if t = "A-vn-0" then 3 else 8) (-5) [.idle "A" .online, .idle "B" .online] "seat-1" (by decide)
    (by decide +kernel)).1 [] "B").2 ⟨0, by decide +kernel, Or.inl ⟨by decide +kernel, by decide +kernel⟩⟩

end ConsistentHashing
end Balancer
end Ticket
