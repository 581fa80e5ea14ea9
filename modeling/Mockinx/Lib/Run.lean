import Mathlib.Data.List.Basic

/-!
Runs of a partial step function with outputs. A run stops where a step has no result. The rules
here carry a fact about one step to every step of every run: an invariant rule, an exact version
of it, and an abstraction of one machine by another.
-/

set_option autoImplicit false
set_option relaxedAutoImplicit false

namespace Mockinx.Lib.Run

universe u v w x

variable {σ : Type u} {τ : Type x} {α : Type v} {β : Type w}

/-- The final state and the outputs of a run through the given actions. -/
def run (step : σ → α → Option (σ × β)) : σ → List α → Option (σ × List β)
  | s, [] => some (s, [])
  | s, a :: as =>
    match step s a with
    | none => none
    | some (s', b) => (run step s' as).map fun r => (r.1, b :: r.2)

/-- Every step that the run takes satisfies `P`. -/
def Along (step : σ → α → Option (σ × β)) (P : σ → α → σ × β → Prop) : σ → List α → Prop
  | _, [] => True
  | s, a :: as => ∀ r, step s a = some r → P s a r ∧ Along step P r.1 as

variable {step : σ → α → Option (σ × β)}

instance decidableAlong {P : σ → α → σ × β → Prop} [∀ s a r, Decidable (P s a r)] :
    ∀ (s : σ) (as : List α), Decidable (Along step P s as)
  | _, [] => isTrue trivial
  | s, a :: as =>
    match h : step s a with
    | none => isTrue fun r hr => by simp [h] at hr
    | some r =>
      have := decidableAlong (P := P) r.1 as
      decidable_of_iff (P s a r ∧ Along step P r.1 as) (by simp [Along, h])

@[simp] theorem run_nil (s : σ) : run step s [] = some (s, []) := rfl

theorem run_cons_eq_some {s s' : σ} {a : α} {as : List α} {bs : List β} :
    run step s (a :: as) = some (s', bs) ↔
      ∃ m b cs, step s a = some (m, b) ∧ run step m as = some (s', cs) ∧ bs = b :: cs := by
  simp only [run]
  cases h : step s a with
  | none => simp
  | some r =>
    obtain ⟨m, b⟩ := r
    simp only [Option.map_eq_some_iff, Prod.mk.injEq, Option.some.injEq]
    constructor
    · rintro ⟨⟨q, cs⟩, hrun, rfl, rfl⟩
      exact ⟨m, b, cs, ⟨rfl, rfl⟩, hrun, rfl⟩
    · rintro ⟨m', b', cs, ⟨rfl, rfl⟩, hrun, rfl⟩
      exact ⟨(s', cs), hrun, rfl, rfl⟩

theorem run_some_cons_eq_some {f : σ → α → σ × β} {s s' : σ} {a : α} {as : List α} {bs : List β} :
    run (fun s a => some (f s a)) s (a :: as) = some (s', bs) ↔
      ∃ cs, run (fun s a => some (f s a)) (f s a).1 as = some (s', cs) ∧ bs = (f s a).2 :: cs := by
  rw [run_cons_eq_some]
  constructor
  · rintro ⟨m, b, cs, hstep, hrun, rfl⟩
    have heq : f s a = (m, b) := Option.some.inj hstep
    rw [heq]
    exact ⟨cs, hrun, rfl⟩
  · rintro ⟨cs, hrun, rfl⟩
    exact ⟨_, _, cs, rfl, hrun, rfl⟩

theorem along_of_forall_mem {Q : α → Prop} {s : σ} {as : List α} (h : ∀ a ∈ as, Q a) :
    Along step (fun _ a _ => Q a) s as := by
  induction as generalizing s with
  | nil => trivial
  | cons a as ih => exact fun r _ => ⟨h a (by simp), ih fun b hb => h b (by simp [hb])⟩

theorem run_history_of_along {I : σ → List β → Prop} {C : σ → α → σ × β → Prop}
    (hstep : ∀ s bs a s' b, I s bs → step s a = some (s', b) → C s a (s', b) → I s' (bs ++ [b]))
    {s s' : σ} {as : List α} {bs cs : List β} (hc : Along step C s as)
    (h : run step s as = some (s', cs)) (hs : I s bs) : I s' (bs ++ cs) := by
  induction as generalizing s bs cs with
  | nil =>
    simp only [run_nil, Option.some.injEq, Prod.mk.injEq] at h
    obtain ⟨rfl, rfl⟩ := h
    simpa using hs
  | cons a as ih =>
    obtain ⟨m, b, ds, hm, hrun, rfl⟩ := run_cons_eq_some.mp h
    obtain ⟨hca, hrest⟩ := hc (m, b) hm
    have hi := ih hrest hrun (hstep s bs a m b hs hm hca)
    rwa [List.append_assoc, List.singleton_append] at hi

theorem run_history {I : σ → List β → Prop}
    (hstep : ∀ s bs a s' b, I s bs → step s a = some (s', b) → I s' (bs ++ [b]))
    {s s' : σ} {as : List α} {bs cs : List β} (h : run step s as = some (s', cs))
    (hs : I s bs) : I s' (bs ++ cs) :=
  run_history_of_along (fun s bs a s' b hi hr _ => hstep s bs a s' b hi hr)
    (along_of_forall_mem (Q := fun _ => True) fun _ _ => trivial) h hs

theorem exists_run {I : σ → Prop}
    (hstep : ∀ s a, I s → ∃ s' b, step s a = some (s', b) ∧ I s')
    {s : σ} (as : List α) (hs : I s) : ∃ s' bs, run step s as = some (s', bs) := by
  induction as generalizing s with
  | nil => exact ⟨s, [], rfl⟩
  | cons a as ih =>
    obtain ⟨m, b, hm, hi⟩ := hstep s a hs
    obtain ⟨s', bs, hrun⟩ := ih hi
    exact ⟨s', b :: bs, run_cons_eq_some.mpr ⟨m, b, bs, hm, hrun, rfl⟩⟩

theorem run_append_eq_some {s s' : σ} {as as' : List α} {bs : List β} :
    run step s (as ++ as') = some (s', bs) ↔
      ∃ m cs cs', run step s as = some (m, cs) ∧ run step m as' = some (s', cs') ∧
        bs = cs ++ cs' := by
  induction as generalizing s bs with
  | nil =>
    constructor
    · intro h
      exact ⟨s, [], bs, rfl, h, rfl⟩
    · rintro ⟨m, cs, cs', hnil, hrun, rfl⟩
      obtain ⟨rfl, rfl⟩ := Prod.mk.inj (Option.some.inj hnil)
      exact hrun
  | cons a as ih =>
    rw [List.cons_append, run_cons_eq_some]
    constructor
    · rintro ⟨m, b, ds, hstep, hrest, rfl⟩
      obtain ⟨m', cs, cs', hrun, hrun', rfl⟩ := ih.mp hrest
      exact ⟨m', b :: cs, cs', run_cons_eq_some.mpr ⟨m, b, cs, hstep, hrun, rfl⟩, hrun', rfl⟩
    · rintro ⟨m', cs, cs', hrun, hrun', rfl⟩
      obtain ⟨m, b, ds, hstep, hrest, rfl⟩ := run_cons_eq_some.mp hrun
      exact ⟨m, b, ds ++ cs', hstep, ih.mpr ⟨m', ds, cs', hrest, hrun', rfl⟩, rfl⟩

private theorem exists_run_of_append {s s' : σ} {as : List α} {bs cs : List β}
    (h : run step s as = some (s', bs ++ cs)) :
    ∃ m as₁ as₂, as = as₁ ++ as₂ ∧ run step s as₁ = some (m, bs) ∧
      run step m as₂ = some (s', cs) := by
  induction bs generalizing s as with
  | nil => exact ⟨s, [], as, rfl, rfl, h⟩
  | cons b bs ih =>
    cases as with
    | nil => simp at h
    | cons a as =>
      obtain ⟨m, b', ds, hstep, hrun, heq⟩ := run_cons_eq_some.mp h
      rw [List.cons_append, List.cons.injEq] at heq
      obtain ⟨rfl, rfl⟩ := heq
      obtain ⟨m', as₁, as₂, rfl, h₁, h₂⟩ := ih hrun
      exact ⟨m', a :: as₁, as₂, rfl, run_cons_eq_some.mpr ⟨m, b, bs, hstep, h₁, rfl⟩, h₂⟩

theorem exists_step_of_append {s s' : σ} {as : List α} {b : β} {bs cs : List β}
    (h : run step s as = some (s', bs ++ b :: cs)) :
    ∃ m as₁ a m' as₂, as = as₁ ++ a :: as₂ ∧ run step s as₁ = some (m, bs) ∧
      step m a = some (m', b) ∧ run step m' as₂ = some (s', cs) := by
  obtain ⟨m, as₁, as', rfl, hbefore, hrest⟩ := exists_run_of_append h
  cases as' with
  | nil => simp at hrest
  | cons a as₂ =>
    obtain ⟨m', b', ds, hstep, hafter, heq⟩ := run_cons_eq_some.mp hrest
    rw [List.cons.injEq] at heq
    obtain ⟨rfl, rfl⟩ := heq
    exact ⟨m, as₁, a, m', as₂, rfl, hbefore, hstep, hafter⟩

theorem along_iff {P : σ → α → σ × β → Prop} {s : σ} {as : List α} :
    Along step P s as ↔ ∀ before a rest m bs r, as = before ++ a :: rest →
      run step s before = some (m, bs) → step m a = some r → P m a r := by
  induction as generalizing s with
  | nil => simp [Along]
  | cons a as ih =>
    constructor
    · intro h before c rest m bs r hsplit hrun hstep
      cases before with
      | nil =>
        simp only [List.nil_append, List.cons.injEq] at hsplit
        simp only [run_nil, Option.some.injEq, Prod.mk.injEq] at hrun
        obtain ⟨rfl, _⟩ := hsplit
        obtain ⟨rfl, _⟩ := hrun
        exact (h r hstep).1
      | cons d before =>
        simp only [List.cons_append, List.cons.injEq] at hsplit
        obtain ⟨rfl, hsplit⟩ := hsplit
        obtain ⟨m', b, cs, hm, hrun', _⟩ := run_cons_eq_some.mp hrun
        exact ih.mp (h (m', b) hm).2 before c rest m cs r hsplit hrun' hstep
    · intro h r hr
      refine ⟨h [] a as s [] r rfl rfl hr, ih.mpr ?_⟩
      intro before c rest m bs r' hsplit hrun hstep
      exact h (a :: before) c rest m (r.2 :: bs) r' (by rw [hsplit, List.cons_append])
        (run_cons_eq_some.mpr ⟨r.1, r.2, bs, hr, hrun, rfl⟩) hstep

theorem along_of_inv {I : σ → Prop} {C P : σ → α → σ × β → Prop}
    (hstep : ∀ s a r, I s → step s a = some r → C s a r → P s a r ∧ I r.1)
    {s : σ} {as : List α} (hs : I s) (h : Along step C s as) : Along step P s as := by
  induction as generalizing s with
  | nil => trivial
  | cons a as ih =>
    intro r hr
    obtain ⟨hc, hrest⟩ := h r hr
    obtain ⟨hp, hi⟩ := hstep s a r hs hr hc
    exact ⟨hp, ih hi hrest⟩

/-- The exact rule: where each step has the property if and only if it meets the condition, so
does each run. -/
theorem along_iff_along {I : σ → Prop} {C P : σ → α → σ × β → Prop}
    (hstep : ∀ s a r, I s → step s a = some r → (P s a r ↔ C s a r))
    (hinv : ∀ s a r, I s → step s a = some r → P s a r → I r.1)
    {s : σ} {as : List α} (hs : I s) : Along step P s as ↔ Along step C s as := by
  constructor
  · intro h
    exact along_of_inv (I := I)
      (fun s a r hi hr hp => ⟨(hstep s a r hi hr).mp hp, hinv s a r hi hr hp⟩) hs h
  · intro h
    exact along_of_inv (I := I) (fun s a r hi hr hc =>
      ⟨(hstep s a r hi hr).mpr hc, hinv s a r hi hr ((hstep s a r hi hr).mpr hc)⟩) hs h

theorem outputs_iff_along {I : σ → List β → Prop} {Q : List β → β → Prop}
    {C : σ → α → σ × β → Prop}
    (hinv : ∀ s bs a s' b, I s bs → step s a = some (s', b) → I s' (bs ++ [b]))
    (hstep : ∀ s bs a r, I s bs → step s a = some r → (Q bs r.2 ↔ C s a r))
    {s s' : σ} {as : List α} {bs cs : List β} (h : run step s as = some (s', cs)) (hs : I s bs) :
    (∀ before b after, cs = before ++ b :: after → Q (bs ++ before) b) ↔ Along step C s as := by
  induction as generalizing s bs cs with
  | nil =>
    obtain ⟨_, rfl⟩ := Prod.mk.inj (Option.some.inj h)
    simp [Along]
  | cons a as ih =>
    obtain ⟨m, b, ds, hm, hrun, rfl⟩ := run_cons_eq_some.mp h
    have hrest := ih hrun (hinv s bs a m b hs hm)
    have hfirst := hstep s bs a (m, b) hs hm
    constructor
    · intro hall r hr
      obtain rfl := Option.some.inj (hm.symm.trans hr)
      refine ⟨hfirst.mp ?_, hrest.mp ?_⟩
      · have hnil := hall [] b ds rfl
        rwa [List.append_nil] at hnil
      · intro before c after hsplit
        have hcons := hall (b :: before) c after (by rw [hsplit, List.cons_append])
        rwa [List.append_assoc, List.singleton_append]
    · intro halong before c after hsplit
      obtain ⟨hc, htail⟩ := halong (m, b) hm
      cases before with
      | nil =>
        obtain ⟨rfl, _⟩ := List.cons.inj hsplit
        rw [List.append_nil]
        exact hfirst.mpr hc
      | cons d before =>
        obtain ⟨rfl, hds⟩ := List.cons.inj hsplit
        have htail' := hrest.mpr htail before c after hds
        rwa [List.append_assoc, List.singleton_append] at htail'

theorem run_inv_of_along {I : σ → Prop} {C : σ → α → σ × β → Prop}
    (hstep : ∀ s a r, I s → step s a = some r → C s a r → I r.1)
    {s s' : σ} {as : List α} {bs : List β} (hc : Along step C s as)
    (h : run step s as = some (s', bs)) (hs : I s) : I s' :=
  @run_history_of_along _ _ _ step (fun s _ => I s) C
    (fun s _ a s' b hi hr hca => hstep s a (s', b) hi hr hca) s s' as [] bs hc h hs

theorem run_map {step' : τ → α → Option (τ × β)} {f : σ → τ} {C : σ → α → σ × β → Prop}
    (hstep : ∀ s a, (∀ r, step s a = some r → C s a r) →
      (step s a).map (Prod.map f id) = step' (f s) a)
    {s : σ} {as : List α} (hc : Along step C s as) :
    (run step s as).map (Prod.map f id) = run step' (f s) as := by
  induction as generalizing s with
  | nil => rfl
  | cons a as ih =>
    have hs := hstep s a fun r hr => (hc r hr).1
    simp only [run]
    cases h : step s a with
    | none =>
      rw [h] at hs
      simp [← hs]
    | some r =>
      obtain ⟨m, b⟩ := r
      rw [h, Option.map_some, Prod.map_apply, id_eq] at hs
      rw [← hs]
      dsimp only
      rw [← ih (hc (m, b) h).2, Option.map_map, Option.map_map]
      rfl

/-- Where each step from an invariant keeps it and lowers a measure, a run is no longer than the
measure. -/
theorem length_add_le {I : σ → Prop} {μ : σ → ℕ}
    (hstep : ∀ s a r, I s → step s a = some r → I r.1 ∧ μ r.1 < μ s)
    {s s' : σ} {as : List α} {bs : List β} (hs : I s) (h : run step s as = some (s', bs)) :
    as.length + μ s' ≤ μ s := by
  induction as generalizing s bs with
  | nil =>
    obtain ⟨rfl, _⟩ := Prod.mk.inj (Option.some.inj h)
    simp
  | cons a as ih =>
    obtain ⟨m, b, cs, hm, hrun, _⟩ := run_cons_eq_some.mp h
    obtain ⟨hi, hlt⟩ := hstep s a (m, b) hs hm
    have hrest := ih hi hrun
    rw [List.length_cons]
    omega

theorem exists_run_stuck {I : σ → Prop} {μ : σ → ℕ}
    (hstep : ∀ s a r, I s → step s a = some r → I r.1 ∧ μ r.1 < μ s) {s : σ} (hs : I s) :
    ∃ as s' bs, run step s as = some (s', bs) ∧ ∀ a, step s' a = none := by
  induction hn : μ s using Nat.strongRecOn generalizing s with
  | ind n ih =>
    by_cases hstuck : ∀ a, step s a = none
    · exact ⟨[], s, [], rfl, hstuck⟩
    · rw [not_forall] at hstuck
      obtain ⟨a, ha⟩ := hstuck
      obtain ⟨⟨m, b⟩, hm⟩ := Option.ne_none_iff_exists'.mp ha
      obtain ⟨hi, hlt⟩ := hstep s a (m, b) hs hm
      obtain ⟨as, s', bs, hrun, hend⟩ := ih (μ m) (hn ▸ hlt) hi rfl
      exact ⟨a :: as, s', b :: bs, run_cons_eq_some.mpr ⟨m, b, bs, hm, hrun, rfl⟩, hend⟩

/-- Of outputs that name one of several parties each, those of one party. -/
def outputsOf [DecidableEq τ] (i : τ) (outs : List (Option (τ × β))) : List β :=
  outs.filterMap fun out => out.bind fun e => if e.1 = i then some e.2 else none

theorem outputsOf_none [DecidableEq τ] (i : τ) (outs : List (Option (τ × β))) :
    outputsOf i (outs ++ [none]) = outputsOf i outs := by
  rw [outputsOf, List.filterMap_append]
  exact List.append_nil _

theorem outputsOf_some [DecidableEq τ] (i j : τ) (b : β) (outs : List (Option (τ × β))) :
    outputsOf i (outs ++ [some (j, b)]) = outputsOf i outs ++ if j = i then [b] else [] := by
  rw [outputsOf, List.filterMap_append]
  by_cases hj : j = i <;> simp [outputsOf, hj]

end Mockinx.Lib.Run
