import Mathlib.Data.List.Nodup
import Mathlib.Logic.Function.Basic
/-!
# Dict — a dictionary that keeps insertion order

`Dict κ ν` is a finite map with the behaviour of Python's `dict`: assigning a present key keeps the key's place,
assigning a new key appends it, and iteration follows that order.  The pairs are a list whose keys are distinct (the
field `nodup`), so a lookup has one answer and `get?_set` and `get?_erase` describe the two writes completely.
-/

structure Dict (κ ν : Type) where
  items : List (κ × ν)
  nodup : (items.map Prod.fst).Nodup

namespace Dict

variable {κ ν : Type}

@[ext] theorem ext {d e : Dict κ ν} (h : d.items = e.items) : d = e := by
  cases d; cases e; cases h; rfl

variable [DecidableEq κ]

def empty : Dict κ ν := ⟨[], List.nodup_nil⟩

def get? (d : Dict κ ν) (k : κ) : Option ν := (d.items.find? (fun p => decide (p.1 = k))).map Prod.snd

def keys (d : Dict κ ν) : List κ := d.items.map Prod.fst

def values (d : Dict κ ν) : List ν := d.items.map Prod.snd

/-- Assign `k`: in its place when present, at the end otherwise. -/
def setItems (k : κ) (v : ν) : List (κ × ν) → List (κ × ν)
  | [] => [(k, v)]
  | p :: l => if p.1 = k then (k, v) :: l else p :: setItems k v l

theorem mem_keys_setItems (k : κ) (v : ν) (j : κ) : ∀ (l : List (κ × ν)),
    j ∈ (setItems k v l).map Prod.fst ↔ j = k ∨ j ∈ l.map Prod.fst
  | [] => by simp [setItems]
  | p :: l => by
    unfold setItems
    split
    · rename_i hp
      subst hp
      simp
    · rw [List.map_cons, List.mem_cons, mem_keys_setItems k v j l, List.map_cons, List.mem_cons]
      exact or_left_comm

theorem nodup_setItems (k : κ) (v : ν) : ∀ (l : List (κ × ν)),
    (l.map Prod.fst).Nodup → ((setItems k v l).map Prod.fst).Nodup
  | [], _ => by simp [setItems]
  | p :: l, h => by
    rw [List.map_cons, List.nodup_cons] at h
    unfold setItems
    split
    · rename_i hp
      subst hp
      exact List.nodup_cons.2 h
    · rename_i hp
      rw [List.map_cons, List.nodup_cons, mem_keys_setItems]
      exact ⟨fun hm => hm.elim hp h.1, nodup_setItems k v l h.2⟩

def set (d : Dict κ ν) (k : κ) (v : ν) : Dict κ ν := ⟨setItems k v d.items, nodup_setItems k v d.items d.nodup⟩

def erase (d : Dict κ ν) (k : κ) : Dict κ ν :=
  ⟨d.items.filter (fun p => decide (p.1 ≠ k)), (List.filter_sublist.map Prod.fst).nodup d.nodup⟩

def mapValues (d : Dict κ ν) (f : ν → ν) : Dict κ ν :=
  ⟨d.items.map (fun p => (p.1, f p.2)), by simpa [List.map_map, Function.comp_def] using d.nodup⟩

/-- Rewrite the value of a present key. -/
def modify (d : Dict κ ν) (k : κ) (f : ν → ν) : Dict κ ν :=
  match d.get? k with
  | none => d
  | some v => d.set k (f v)

@[simp] theorem get?_empty (k : κ) : (empty : Dict κ ν).get? k = none := rfl

theorem find?_setItems (k : κ) (v : ν) (j : κ) : ∀ (l : List (κ × ν)),
    ((setItems k v l).find? (fun p => decide (p.1 = j))).map Prod.snd =
      if j = k then some v else (l.find? (fun p => decide (p.1 = j))).map Prod.snd
  | [] => by
    by_cases h : k = j
    · subst h; simp [setItems]
    · simp [setItems, h, Ne.symm h]
  | p :: l => by
    unfold setItems
    by_cases hp : p.1 = k
    · subst hp
      by_cases hj : p.1 = j
      · subst hj; simp
      · simp [hj, Ne.symm hj]
    · rw [if_neg hp]
      by_cases hj : p.1 = j
      · subst hj; simp [hp]
      · simpa [hj] using find?_setItems k v j l

theorem get?_set (d : Dict κ ν) (k : κ) (v : ν) (j : κ) : (d.set k v).get? j = if j = k then some v else d.get? j :=
  find?_setItems k v j d.items

@[simp] theorem get?_set_self (d : Dict κ ν) (k : κ) (v : ν) : (d.set k v).get? k = some v := by
  rw [get?_set, if_pos rfl]

theorem get?_set_of_ne (d : Dict κ ν) {k j : κ} (v : ν) (h : j ≠ k) : (d.set k v).get? j = d.get? j := by
  rw [get?_set, if_neg h]

theorem get?_set_eq (d : Dict κ ν) (k : κ) (v : ν) : (d.set k v).get? = Function.update d.get? k (some v) := by
  funext j
  rw [get?_set, Function.update_apply]

theorem get?_modify (d : Dict κ ν) (k : κ) (f : ν → ν) (j : κ) :
    (d.modify k f).get? j = if j = k then (d.get? k).map f else d.get? j := by
  unfold modify
  cases hk : d.get? k with
  | none => by_cases hj : j = k <;> simp [hj, hk]
  | some v => simp [get?_set]

theorem isSome_modify (d : Dict κ ν) (k : κ) (f : ν → ν) (j : κ) :
    ((d.modify k f).get? j).isSome = (d.get? j).isSome := by
  rw [get?_modify]
  split
  · rename_i hj
    rw [Option.isSome_map, hj]
  · rfl

theorem find?_filter_ne (k j : κ) : ∀ (l : List (κ × ν)),
    (l.filter (fun p => decide (p.1 ≠ k))).find? (fun p => decide (p.1 = j)) =
      if j = k then none else l.find? (fun p => decide (p.1 = j))
  | [] => by simp
  | p :: l => by
    have ih := find?_filter_ne k j l
    by_cases hp : p.1 = k
    · subst hp
      by_cases hj : j = p.1
      · subst hj; simp
      · simpa [hj, Ne.symm hj] using ih
    · by_cases hj : p.1 = j
      · subst hj; simp [hp]
      · simpa [hp, hj] using ih

theorem get?_erase (d : Dict κ ν) (k j : κ) : (d.erase k).get? j = if j = k then none else d.get? j := by
  unfold get? erase
  rw [find?_filter_ne]
  split <;> rfl

@[simp] theorem get?_erase_self (d : Dict κ ν) (k : κ) : (d.erase k).get? k = none := by
  rw [get?_erase, if_pos rfl]

theorem get?_erase_of_ne (d : Dict κ ν) {k j : κ} (h : j ≠ k) : (d.erase k).get? j = d.get? j := by
  rw [get?_erase, if_neg h]

theorem get?_erase_eq (d : Dict κ ν) (k : κ) : (d.erase k).get? = Function.update d.get? k none := by
  funext j
  rw [get?_erase, Function.update_apply]

theorem items_foldl_erase : ∀ (ks : List κ) (d : Dict κ ν),
    (ks.foldl erase d).items = d.items.filter (fun p => decide (p.1 ∉ ks))
  | [], d => by simp
  | k :: ks, d => by
    rw [List.foldl_cons, items_foldl_erase ks]
    simp only [erase, List.filter_filter]
    apply List.filter_congr
    intro p _
    by_cases hp : p.1 = k <;> simp [hp]

theorem erase_comm (d : Dict κ ν) (j k : κ) : (d.erase j).erase k = (d.erase k).erase j := by
  apply ext
  simp only [erase, List.filter_filter, Bool.and_comm]

theorem get?_foldl_erase (j : κ) : ∀ (ks : List κ) (d : Dict κ ν),
    (ks.foldl erase d).get? j = if j ∈ ks then none else d.get? j
  | [], d => by simp
  | k :: ks, d => by
    rw [List.foldl_cons, get?_foldl_erase j ks, get?_erase]
    by_cases hj : j = k
    · subst hj; simp
    · simp [hj]

theorem find?_of_notMem {α : Type} {l : List (κ × α)} {k : κ} (h : k ∉ l.map Prod.fst) :
    (l.find? (fun p => decide (p.1 = k))).map Prod.snd = none := by
  rw [Option.map_eq_none_iff, List.find?_eq_none]
  intro p hp hk
  exact h (List.mem_map.2 ⟨p, hp, of_decide_eq_true hk⟩)

theorem get?_foldl_set {α : Type} (f : α → ν) (k : κ) : ∀ (l : List (κ × α)) (d : Dict κ ν), (l.map Prod.fst).Nodup →
    (l.foldl (fun d p => d.set p.1 (f p.2)) d).get? k =
      (((l.find? (fun p => decide (p.1 = k))).map Prod.snd).map f).or (d.get? k)
  | [], _, _ => rfl
  | p :: l, d, hn => by
    rw [List.map_cons, List.nodup_cons] at hn
    rw [List.foldl_cons, get?_foldl_set f k l _ hn.2, get?_set]
    by_cases hk : p.1 = k
    · subst hk
      simp [find?_of_notMem hn.1]
    · simp [hk, Ne.symm hk]

theorem find?_map_values (f : ν → ν) (j : κ) : ∀ (l : List (κ × ν)),
    ((l.map (fun p => (p.1, f p.2))).find? (fun p => decide (p.1 = j))).map Prod.snd =
      ((l.find? (fun p => decide (p.1 = j))).map Prod.snd).map f
  | [] => rfl
  | p :: l => by
    by_cases hj : p.1 = j
    · simp [hj]
    · simpa [hj] using find?_map_values f j l

theorem get?_mapValues (d : Dict κ ν) (f : ν → ν) (j : κ) : (d.mapValues f).get? j = (d.get? j).map f :=
  find?_map_values f j d.items

theorem get?_eq_some_of_mem : ∀ {l : List (κ × ν)}, (l.map Prod.fst).Nodup → ∀ {k : κ} {v : ν}, (k, v) ∈ l →
    (l.find? (fun p => decide (p.1 = k))).map Prod.snd = some v
  | [], _, _, _, h => by cases h
  | p :: l, hn, k, v, h => by
    rw [List.map_cons, List.nodup_cons] at hn
    rcases List.mem_cons.1 h with rfl | h
    · simp
    · have hp : p.1 ≠ k := fun hp => hn.1 (List.mem_map.2 ⟨(k, v), h, hp.symm⟩)
      simpa [hp] using get?_eq_some_of_mem hn.2 h

theorem get?_eq_some_iff (d : Dict κ ν) (k : κ) (v : ν) : d.get? k = some v ↔ (k, v) ∈ d.items := by
  refine ⟨fun h => ?_, fun h => get?_eq_some_of_mem d.nodup h⟩
  obtain ⟨p, hp, rfl⟩ := Option.map_eq_some_iff.1 h
  have hk : p.1 = k := by simpa using List.find?_some hp
  subst hk
  exact List.mem_of_find?_eq_some hp

theorem mem_keys_iff (d : Dict κ ν) (k : κ) : k ∈ d.keys ↔ (d.get? k).isSome := by
  unfold keys
  rw [List.mem_map, Option.isSome_iff_exists]
  constructor
  · rintro ⟨p, hp, rfl⟩
    exact ⟨p.2, (get?_eq_some_iff d p.1 p.2).2 hp⟩
  · rintro ⟨v, hv⟩
    exact ⟨(k, v), (get?_eq_some_iff d k v).1 hv, rfl⟩

theorem setItems_of_notMem (k : κ) (v : ν) : ∀ {l : List (κ × ν)}, k ∉ l.map Prod.fst → setItems k v l = l ++ [(k, v)]
  | [], _ => rfl
  | p :: l, h => by
    rw [List.map_cons, List.mem_cons, not_or] at h
    rw [setItems, if_neg (Ne.symm h.1), setItems_of_notMem k v h.2, List.cons_append]

/-- **New keys are iterated over last**, in the order they were assigned in. -/
theorem items_foldl_set {α : Type} (key : α → κ) (f : α → ν) : ∀ (l : List α) (d : Dict κ ν), (l.map key).Nodup →
    (∀ a ∈ l, key a ∉ d.keys) →
    (l.foldl (fun d a => d.set (key a) (f a)) d).items = d.items ++ l.map (fun a => (key a, f a))
  | [], d, _, _ => (List.append_nil d.items).symm
  | a :: l, d, hn, hd => by
    rw [List.map_cons, List.nodup_cons] at hn
    have hset : (d.set (key a) (f a)).items = d.items ++ [(key a, f a)] :=
      setItems_of_notMem _ _ (hd a List.mem_cons_self)
    have hnew : ∀ b ∈ l, key b ∉ (d.set (key a) (f a)).keys := by
      intro b hb hm
      rcases (mem_keys_setItems _ _ _ d.items).1 hm with he | hm
      · exact hn.1 (he ▸ List.mem_map_of_mem hb)
      · exact hd b (List.mem_cons_of_mem a hb) hm
    rw [List.foldl_cons, items_foldl_set key f l _ hn.2 hnew, hset, List.append_assoc]
    rfl

/-- **A value is iterated over exactly when some key holds it.** -/
theorem mem_values_iff (d : Dict κ ν) (v : ν) : v ∈ d.values ↔ ∃ k, d.get? k = some v := by
  unfold values
  rw [List.mem_map]
  constructor
  · rintro ⟨p, hp, rfl⟩
    exact ⟨p.1, (get?_eq_some_iff d p.1 p.2).2 hp⟩
  · rintro ⟨k, hk⟩
    exact ⟨(k, v), (get?_eq_some_iff d k v).1 hk, rfl⟩

end Dict
