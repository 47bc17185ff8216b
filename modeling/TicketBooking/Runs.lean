import Mathlib.Data.List.Induction
/-!
# Runs — machines that answer, and what holds along their runs

A machine is a function `step : σ → ε → α × σ`: in a state, an event is answered and the state moves.  `run` is the
state after a list of events, `trace` the events with their answers.  An invariant of one step is an invariant of every
run (`invariant`); when the step keeps it only under a condition on the state and the event, it holds along the runs
whose steps all meet that condition (`Along`, `invariant_along`).
-/
namespace Runs

variable {σ ε α : Type} (step : σ → ε → α × σ)

def run (s : σ) (es : List ε) : σ := es.foldl (fun s e => (step s e).2) s

def trace (s : σ) : List ε → List (ε × α)
  | [] => []
  | e :: es => (e, (step s e).1) :: trace (step s e).2 es

/-- **A condition met by every step of a run**, at the state the step is taken in. -/
def Along (G : σ → ε → Prop) (s : σ) : List ε → Prop
  | [] => True
  | e :: es => G s e ∧ Along G (step s e).2 es

instance instDecidableAlong {G : σ → ε → Prop} [∀ s e, Decidable (G s e)] : (es : List ε) → (s : σ) →
    Decidable (Along step G s es)
  | [], _ => .isTrue trivial
  | e :: es, s =>
    have : Decidable (Along step G (step s e).2 es) := instDecidableAlong es (step s e).2
    inferInstanceAs (Decidable (G s e ∧ Along step G (step s e).2 es))

/-- An event of a longer run is its last or one of before. -/
theorem snoc_eq_append_cons {es pre post : List ε} {e f : ε} (h : es ++ [e] = pre ++ f :: post) :
    (pre = es ∧ f = e ∧ post = []) ∨ ∃ mid, post = mid ++ [e] ∧ es = pre ++ f :: mid := by
  rcases List.eq_nil_or_concat post with rfl | ⟨mid, g, hmid⟩
  · obtain ⟨rfl, hlast⟩ := List.append_inj' h rfl
    exact Or.inl ⟨rfl, (List.singleton_inj.1 hlast).symm, rfl⟩
  · rw [List.concat_eq_append] at hmid
    have hsplit : es ++ [e] = (pre ++ f :: mid) ++ [g] := by rw [h, hmid, List.append_assoc, List.cons_append]
    obtain ⟨hes, hlast⟩ := List.append_inj' hsplit rfl
    exact Or.inr ⟨mid, by rw [hmid, List.singleton_inj.1 hlast], hes⟩

variable {step} {s : σ}

@[simp] theorem run_nil : run step s [] = s := rfl

@[simp] theorem run_cons (e : ε) (es : List ε) : run step s (e :: es) = run step (step s e).2 es := rfl

theorem run_append (es fs : List ε) : run step s (es ++ fs) = run step (run step s es) fs := List.foldl_append

theorem run_snoc (es : List ε) (e : ε) : run step s (es ++ [e]) = (step (run step s es) e).2 := run_append es [e]

theorem trace_append : ∀ (es fs : List ε) (s : σ),
    trace step s (es ++ fs) = trace step s es ++ trace step (run step s es) fs
  | [], _, _ => rfl
  | e :: es, fs, s => by
    rw [List.cons_append, trace, trace_append es fs]
    rfl

theorem trace_snoc (es : List ε) (e : ε) :
    trace step s (es ++ [e]) = trace step s es ++ [(e, (step (run step s es) e).1)] := trace_append es [e] s

/-- What the answers of a run come to is what they came to before and what the last adds. -/
theorem flatMap_trace_snoc {β : Type} (g : ε × α → List β) (es : List ε) (e : ε) :
    (trace step s (es ++ [e])).flatMap g = (trace step s es).flatMap g ++ g (e, (step (run step s es) e).1) := by
  rw [trace_snoc, List.flatMap_append, List.flatMap_singleton]

theorem trace_map_fst : ∀ (es : List ε) (s : σ), (trace step s es).map Prod.fst = es
  | [], _ => rfl
  | e :: es, s => by rw [trace, List.map_cons, trace_map_fst es]

theorem invariant {P : σ → Prop} (h0 : P s) (hs : ∀ s e, P s → P (step s e).2) (es : List ε) : P (run step s es) := by
  induction es using List.reverseRecOn with
  | nil => exact h0
  | append_singleton es e ih =>
    rw [run_snoc]
    exact hs _ e ih

/-- An invariant that may look at the run so far, kept by the steps of one run. -/
theorem invariant_within {P : List ε → σ → Prop} {es : List ε} (h0 : P [] s)
    (hs : ∀ pre e post, es = pre ++ e :: post → P pre (run step s pre) → P (pre ++ [e]) (step (run step s pre) e).2) :
    ∀ pre post, es = pre ++ post → P pre (run step s pre) := by
  intro pre
  induction pre using List.reverseRecOn with
  | nil => exact fun _ _ => h0
  | append_singleton pre e ih =>
    intro post he
    have hsplit : es = pre ++ e :: post := by rw [he, List.append_assoc, List.singleton_append]
    rw [run_snoc]
    exact hs pre e post hsplit (ih (e :: post) hsplit)

theorem invariant_since {P : σ → Prop} {pre : List ε} {e : ε} (h0 : P (run step s (pre ++ [e]))) (post : List ε)
    (hs : ∀ mid f rest, post = mid ++ f :: rest → P (run step s (pre ++ e :: mid)) →
      P (run step s (pre ++ e :: mid ++ [f]))) : P (run step s (pre ++ e :: post)) := by
  induction post using List.reverseRecOn with
  | nil => exact h0
  | append_singleton post f ih =>
    have hmid : P (run step s (pre ++ e :: post)) :=
      ih fun mid g rest he => hs mid g (rest ++ [f]) (by rw [he, List.append_assoc, List.cons_append])
    rw [← List.cons_append, ← List.append_assoc]
    exact hs post f [] rfl hmid

theorem along_append {G : σ → ε → Prop} : ∀ (es fs : List ε) (s : σ),
    Along step G s (es ++ fs) ↔ Along step G s es ∧ Along step G (run step s es) fs
  | [], fs, s => by simp [Along]
  | e :: es, fs, s => by
    rw [List.cons_append, Along, Along, along_append es fs, run_cons, and_assoc]

theorem along_snoc {G : σ → ε → Prop} (es : List ε) (e : ε) :
    Along step G s (es ++ [e]) ↔ Along step G s es ∧ G (run step s es) e := by
  rw [along_append]
  simp [Along]

theorem along_and {G H : σ → ε → Prop} : ∀ {es : List ε} {s : σ}, Along step G s es → Along step H s es →
    Along step (fun s e => G s e ∧ H s e) s es
  | [], _, _, _ => trivial
  | _ :: _, _, hg, hh => ⟨⟨hg.1, hh.1⟩, along_and hg.2 hh.2⟩

theorem along_of_mem {G : σ → ε → Prop} : ∀ {es : List ε} {s : σ}, (∀ e ∈ es, ∀ s, G s e) → Along step G s es
  | [], _, _ => trivial
  | e :: _, s, h => ⟨h e List.mem_cons_self s, along_of_mem fun e' he' => h e' (List.mem_cons_of_mem e he')⟩

/-- **A guarded invariant holds along the runs whose steps meet the guard.** -/
theorem invariant_along {P : σ → Prop} {G : σ → ε → Prop} (h0 : P s) (hs : ∀ s e, P s → G s e → P (step s e).2)
    (es : List ε) (hg : Along step G s es) : P (run step s es) := by
  induction es using List.reverseRecOn with
  | nil => exact h0
  | append_singleton es e ih =>
    obtain ⟨hes, he⟩ := (along_snoc es e).1 hg
    rw [run_snoc]
    exact hs _ e (ih hes) he

theorem along_iff {G : σ → ε → Prop} (es : List ε) :
    Along step G s es ↔ ∀ pre e post, es = pre ++ e :: post → G (run step s pre) e := by
  constructor
  · rintro h pre e post rfl
    exact ((along_append pre (e :: post) s).1 h).2.1
  · intro h
    induction es using List.reverseRecOn with
    | nil => exact trivial
    | append_singleton es e ih =>
      refine (along_snoc es e).2 ⟨ih fun pre e' post he => ?_, h es e [] rfl⟩
      exact h pre e' (post ++ [e]) (by rw [he, List.append_assoc, List.cons_append])

/-- **The converse of `invariant_along`**: when, at each step of a run, `P` holds on exactly if the step meets the
guard, the states of the run satisfy `P` throughout exactly when its steps all meet the guard. -/
theorem always_iff_along {P : σ → Prop} {G : σ → ε → Prop} (h0 : P s) : ∀ (es : List ε),
    (∀ pre e post, es = pre ++ e :: post → P (run step s pre) →
      (P (step (run step s pre) e).2 ↔ G (run step s pre) e)) →
    ((∀ pre post, es = pre ++ post → P (run step s pre)) ↔ Along step G s es) := by
  intro es hs
  constructor
  · intro h
    refine (along_iff es).2 fun pre e post he => ?_
    have hpre : P (run step s pre) := h pre (e :: post) he
    have hnext : P (run step s (pre ++ [e])) := h (pre ++ [e]) post (by rw [he, List.append_assoc]; rfl)
    rw [run_snoc] at hnext
    exact (hs pre e post he hpre).1 hnext
  · rintro h pre post rfl
    have hg := ((along_append pre post s).1 h).1
    induction pre using List.reverseRecOn generalizing post with
    | nil => exact h0
    | append_singleton pre e ih =>
      obtain ⟨hpre, he⟩ := (along_snoc pre e).1 hg
      have hsplit : pre ++ [e] ++ post = pre ++ e :: post := by rw [List.append_assoc]; rfl
      rw [hsplit] at hs h
      have hp : P (run step s pre) := ih (e :: post) hs h hpre
      rw [run_snoc]
      exact (hs pre e post rfl hp).2 he

/-- **Two machines that differ exactly where a guard fails** look alike throughout a run exactly when its steps all meet
the guard. -/
theorem same_iff_along {step' : σ → ε → α × σ} {G : σ → ε → Prop} {ω : Type} (look : σ → ω)
    (hs : ∀ s e, G s e → (step' s e).2 = (step s e).2)
    (hn : ∀ s e, ¬ G s e → look (step' s e).2 ≠ look (step s e).2) : ∀ (es : List ε) (s : σ),
    (∀ pre post, es = pre ++ post → look (run step' s pre) = look (run step s pre)) ↔ Along step G s es
  | [], s => by
    refine iff_of_true (fun pre post he => ?_) trivial
    rw [(List.append_eq_nil_iff.1 he.symm).1]
    rfl
  | e :: es, s => by
    constructor
    · intro h
      have hg : G s e := by
        by_contra hg
        exact hn s e hg (h [e] es rfl)
      refine ⟨hg, (same_iff_along look hs hn es _).1 fun pre post he => ?_⟩
      have hpre := h (e :: pre) post (by rw [he, List.cons_append])
      rwa [run_cons, run_cons, hs s e hg] at hpre
    · rintro ⟨hg, hrest⟩ pre post he
      cases pre with
      | nil => rfl
      | cons e' pre =>
        obtain ⟨rfl, htail⟩ := List.cons.inj he
        rw [run_cons, run_cons, hs s e hg]
        exact (same_iff_along look hs hn es _).2 hrest pre post htail

/-! ## Logs -/

/-- **Each entry of a log holds with respect to the entries before it.** -/
def Justified {β : Type} (G : List β → β → Prop) (l : List β) : Prop := ∀ pre b post, l = pre ++ b :: post → G pre b

theorem justified_nil {β : Type} (G : List β → β → Prop) : Justified G [] :=
  fun _ _ _ h => absurd h.symm (by simp)

theorem Justified.append {β : Type} {G : List β → β → Prop} {l r : List β} (hl : Justified G l)
    (hr : ∀ pre b post, r = pre ++ b :: post → G (l ++ pre) b) : Justified G (l ++ r) := by
  intro pre b post h
  rcases List.append_eq_append_iff.1 h with ⟨mid, rfl, hmid⟩ | ⟨mid, hmid, hpost⟩
  · exact hr mid b post hmid
  · cases mid with
    | nil =>
      rw [List.append_nil] at hmid
      have hg := hr [] b post hpost.symm
      rwa [List.append_nil, hmid] at hg
    | cons b' mid =>
      obtain ⟨rfl, -⟩ := List.cons.inj hpost
      exact hl pre b mid hmid

/-- Entries that hold with respect to a log may all be added to it, when what holds goes on holding. -/
theorem Justified.append_of_forall {β : Type} {G : List β → β → Prop} {l r : List β} (hl : Justified G l)
    (hG : ∀ pre b more, G pre b → G (pre ++ more) b) (hr : ∀ b ∈ r, G l b) : Justified G (l ++ r) := by
  refine hl.append fun pre b post h => hG l b pre (hr b ?_)
  rw [h]
  exact List.mem_append_right pre List.mem_cons_self

end Runs
