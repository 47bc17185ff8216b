import Mathlib.Data.Int.Order.Basic
import Mathlib.Data.List.Perm.Subperm
import Mathlib.Tactic.Ring
/-!
# Rotation — turns taken round a circle of places

There are `n` places, and a turn is offered to them one after another from a cursor on, until one is ready; the next
turn starts behind the place that took it.  While a ready place waits, the number of places ahead of it only falls, so
no place takes two turns before it (`served_once`); and over as many turns as places are ready, with the same ones ready
all along, each of them takes exactly one (`served_all`).
-/
namespace Rotation

/-- The place a number stands for. -/
def residue (n : ℕ) (x : ℤ) : ℕ := (x % n).toNat

/-- How many places are offered the turn before `k`, from the cursor `c` on. -/
def ahead (n : ℕ) (c : ℤ) (k : ℕ) : ℕ := residue n (k - c)

/-- The turn at the cursor `c` goes to `k`: it is ready, and no place ahead of it is. -/
structure Turn (n : ℕ) (ready : ℕ → Prop) (c : ℤ) (k : ℕ) : Prop where
  lt : k < n
  is_ready : ready k
  first : ∀ j < n, ready j → ahead n c k ≤ ahead n c j

/-- Turns in a row, each with the places that are ready for it. -/
def Turns (n : ℕ) : ℤ → List ((ℕ → Prop) × ℕ) → Prop
  | _, [] => True
  | c, t :: l => Turn n t.1 c t.2 ∧ Turns n (t.2 + 1) l

variable {n : ℕ} {c : ℤ} {k p q : ℕ}

theorem residue_eq_iff (hn : 0 < n) (x : ℤ) (r : ℕ) : residue n x = r ↔ r < n ∧ (n : ℤ) ∣ x - r := by
  have hnonneg : 0 ≤ x % n := Int.emod_nonneg x (by omega)
  have hlt : x % n < n := Int.emod_lt_of_pos x (by omega)
  unfold residue
  constructor
  · rintro rfl
    rw [Int.toNat_of_nonneg hnonneg]
    exact ⟨by omega, Int.dvd_self_sub_emod⟩
  · rintro ⟨hr, hdvd⟩
    have hmod : x % n = r % n := Int.emod_eq_emod_iff_emod_sub_eq_zero.2 (Int.emod_eq_zero_of_dvd hdvd)
    rw [hmod, Int.emod_eq_of_lt (by omega) (by omega), Int.toNat_natCast]

theorem ahead_eq_iff (hn : 0 < n) (r : ℕ) : ahead n c k = r ↔ r < n ∧ (n : ℤ) ∣ k - c - r := residue_eq_iff hn _ r

theorem ahead_lt (hn : 0 < n) : ahead n c k < n := ((ahead_eq_iff hn _).1 rfl).1

theorem dvd_ahead (hn : 0 < n) : (n : ℤ) ∣ k - c - ahead n c k := ((ahead_eq_iff hn _).1 rfl).2

/-- **The place offered after `r` others** is the one with `r` ahead of it. -/
theorem residue_add_eq_iff (hk : k < n) {r : ℕ} (hr : r < n) : residue n (c + r) = k ↔ ahead n c k = r := by
  have hn : 0 < n := by omega
  have hswap : c + r - k = -(k - c - r) := by ring
  rw [residue_eq_iff hn, ahead_eq_iff hn, hswap, Int.dvd_neg]
  exact ⟨fun h => ⟨hr, h.2⟩, fun h => ⟨hk, h.2⟩⟩

theorem ahead_inj (hk : k < n) (hp : p < n) (h : ahead n c k = ahead n c p) : k = p := by
  have hlt : ahead n c p < n := ahead_lt (by omega)
  exact ((residue_add_eq_iff hk hlt).2 h).symm.trans ((residue_add_eq_iff hp hlt).2 rfl)

/-- Whoever has just had a turn is offered the next one last. -/
theorem ahead_self (hn : 0 < n) : ahead n (k + 1) k + 1 = n := by
  have hlast : ahead n (k + 1) k = n - 1 := by
    refine (ahead_eq_iff hn _).2 ⟨by omega, -1, ?_⟩
    rw [Nat.cast_sub hn]
    push_cast
    ring
  omega

/-- **A turn taken ahead of `q` brings `q` nearer** by the places it passed and its own. -/
theorem ahead_next (hn : 0 < n) (h : ahead n c k + 1 + ahead n (k + 1) q < n) :
    ahead n c q = ahead n c k + 1 + ahead n (k + 1) q := by
  refine (ahead_eq_iff hn _).2 ⟨h, ?_⟩
  have hsum := Int.dvd_add (dvd_ahead (n := n) (c := c) (k := k) hn) (dvd_ahead (n := n) (c := k + 1) (k := q) hn)
  convert hsum using 1
  push_cast
  ring

theorem ahead_of_lt (hn : 0 < n) (h : ahead n c k < ahead n c p) :
    ahead n c p = ahead n c k + 1 + ahead n (k + 1) p := by
  have hp : ahead n c p < n := ahead_lt hn
  have hgap : ahead n (k + 1) p = ahead n c p - ahead n c k - 1 := by
    refine (ahead_eq_iff hn _).2 ⟨by omega, ?_⟩
    have hdiff := Int.dvd_sub (dvd_ahead (n := n) (c := c) (k := p) hn) (dvd_ahead (n := n) (c := c) (k := k) hn)
    convert hdiff using 1
    omega
  omega

/-- **Nobody is served twice before a place that waits**: as long as `p` is ready and not served, the turns go to places
ahead of it, and to each of them at most once. -/
theorem served_once (hp : p < n) : ∀ (l : List ((ℕ → Prop) × ℕ)) (c : ℤ), Turns n c l → (∀ t ∈ l, t.1 p ∧ t.2 ≠ p) →
    (l.map Prod.snd).Nodup ∧ ∀ t ∈ l, ahead n c t.2 < ahead n c p
  | [], _, _, _ => ⟨List.nodup_nil, fun _ ht => (nomatch ht)⟩
  | t :: l, c, h, hwait => by
    have hn : 0 < n := by omega
    obtain ⟨hturn, hrest⟩ := h
    obtain ⟨hready, hne⟩ := hwait t List.mem_cons_self
    obtain ⟨hnodup, hahead⟩ := served_once hp l (t.2 + 1) hrest fun u hu => hwait u (List.mem_cons_of_mem t hu)
    have hlt : ahead n c t.2 < ahead n c p :=
      lt_of_le_of_ne (hturn.first p hp hready) fun he => hne (ahead_inj hturn.lt hp he)
    have hgap := ahead_of_lt hn hlt
    have hpn : ahead n c p < n := ahead_lt hn
    have hself := ahead_self (n := n) (k := t.2) hn
    refine ⟨List.nodup_cons.2 ⟨fun hmem => ?_, hnodup⟩, fun u hu => ?_⟩
    · -- the place just served is the last to be offered a turn, `p` comes before it
      obtain ⟨u, hu, hut⟩ := List.mem_map.1 hmem
      have hu' := hahead u hu
      rw [hut] at hu'
      omega
    · rcases List.mem_cons.1 hu with rfl | hu
      · exact hlt
      · have hu' := hahead u hu
        have hnext := ahead_next (n := n) (c := c) (k := t.2) (q := u.2) hn (by omega)
        omega

/-- The turns go to places that are ready. -/
theorem turns_ready : ∀ {l : List ((ℕ → Prop) × ℕ)} {c : ℤ}, Turns n c l → ∀ t ∈ l, t.2 < n ∧ t.1 t.2
  | t :: _, _, h, u, hu => by
    rcases List.mem_cons.1 hu with rfl | hu
    · exact ⟨h.1.lt, h.1.is_ready⟩
    · exact turns_ready h.2 u hu

/-- **As many turns as places are ready serve each of them once.** -/
theorem served_all {places : List ℕ} (hnodup : places.Nodup) {l : List ((ℕ → Prop) × ℕ)} (h : Turns n c l)
    (hready : ∀ t ∈ l, ∀ j < n, t.1 j ↔ j ∈ places) (hplaces : ∀ j ∈ places, j < n) (hlen : l.length = places.length) :
    (l.map Prod.snd).Perm places := by
  have hmem : ∀ t ∈ l, t.2 ∈ places := fun t ht =>
    (hready t ht t.2 (turns_ready h t ht).1).1 (turns_ready h t ht).2
  have hall : ∀ p ∈ places, p ∈ l.map Prod.snd := by
    intro p hp
    by_contra hnot
    have hpn := hplaces p hp
    have hwait : ∀ t ∈ l, t.1 p ∧ t.2 ≠ p := fun t ht =>
      ⟨(hready t ht p hpn).2 hp, fun he => hnot (List.mem_map.2 ⟨t, ht, he⟩)⟩
    -- with `p` left out, the turns are too many for the places that are left
    have hsub : (p :: l.map Prod.snd).Subperm places := by
      refine (List.nodup_cons.2 ⟨hnot, (served_once hpn l c h hwait).1⟩).subperm fun q hq => ?_
      rcases List.mem_cons.1 hq with rfl | hq
      · exact hp
      · obtain ⟨t, ht, rfl⟩ := List.mem_map.1 hq
        exact hmem t ht
    have hle := hsub.length_le
    rw [List.length_cons, List.length_map] at hle
    omega
  refine ((hnodup.subperm hall).perm_of_length_le ?_).symm
  rw [List.length_map, hlen]

end Rotation
