import Mockinx.Lib.Run

/-!
A table of parts behind a router. A part has a key that its own calls do not change; the router
reads the keys and hands a call to one part, or to the table, which answers from the keys and may
drop the parts and add new ones. A part then sees nothing of the calls that go to the others.
-/

set_option autoImplicit false
set_option relaxedAutoImplicit false

namespace Mockinx.Lib

open Run

universe u v w x y

structure TableEdit (π : Type u) where
  keep : Bool
  added : List π

namespace TableEdit

variable {κ : Type v} {π : Type w} (e : TableEdit π) {ps qs : List π}

def apply (ps : List π) : List π := (if e.keep then ps else []) ++ e.added

def idle : TableEdit π := ⟨true, []⟩

@[simp] theorem idle_apply (ps : List π) : idle.apply ps = ps := by simp [idle, apply]

private theorem mem_apply {p : π} (h : p ∈ e.apply ps) : p ∈ ps ∨ p ∈ e.added := by
  rw [apply, List.mem_append] at h
  cases hkeep : e.keep
  · rw [hkeep] at h
    exact Or.inr (h.resolve_left List.not_mem_nil)
  · rwa [hkeep, if_pos rfl] at h

private theorem map_apply (key : π → κ) (h : ps.map key = qs.map key) :
    (e.apply ps).map key = (e.apply qs).map key := by
  rw [apply, apply, List.map_append, List.map_append]
  cases e.keep
  · rfl
  · rw [if_pos rfl, if_pos rfl, h]

private theorem getElem?_apply {i : ℕ} (hlen : ps.length = qs.length) (h : ps[i]? = qs[i]?) :
    (e.apply ps)[i]? = (e.apply qs)[i]? := by
  rw [apply, apply]
  cases e.keep
  · rfl
  · rw [if_pos rfl, if_pos rfl, List.getElem?_append, List.getElem?_append, hlen, h]

end TableEdit

/-- A shared state and parts with keys, the router, the answer of a part and that of the table. -/
structure Parts (γ : Type u) (κ : Type v) (π : Type w) (α : Type x) (β : Type y) where
  key : π → κ
  route : γ → List κ → α → Option ℕ
  serve : γ → π → α → π × β
  admin : γ → List κ → α → γ × TableEdit π × β
  key_serve : ∀ g p a, key (serve g p a).1 = key p

namespace Parts

variable {γ : Type u} {κ : Type v} {π : Type w} {α : Type x} {β : Type y}
  (m : Parts γ κ π α β)

def keys (s : γ × List π) : List κ := s.2.map m.key

def dest (g : γ) (ks : List κ) (a : α) : Option ℕ :=
  (m.route g ks a).filter fun i => i < ks.length

def step (s : γ × List π) (a : α) : (γ × List π) × (Option ℕ × β) :=
  match (m.dest s.1 (m.keys s) a).bind fun i => (s.2[i]?).map fun p => (i, p) with
  | some (i, p) =>
    let r := m.serve s.1 p a
    ((s.1, s.2.set i r.1), (some i, r.2))
  | none =>
    let r := m.admin s.1 (m.keys s) a
    ((r.1, r.2.1.apply s.2), (none, r.2.2))

/-- The step as one that never fails. -/
def next (s : γ × List π) (a : α) : Option ((γ × List π) × (Option ℕ × β)) := some (m.step s a)

variable {m} {s t : γ × List π} {a : α} {i : ℕ}

private theorem run_next_cons {s' : γ × List π} {as : List α} {outs : List (Option ℕ × β)} :
    run m.next s (a :: as) = some (s', outs) ↔
      ∃ cs, run m.next (m.step s a).1 as = some (s', cs) ∧ outs = (m.step s a).2 :: cs :=
  run_some_cons_eq_some

private theorem lt_of_dest {g : γ} {ks : List κ} (h : m.dest g ks a = some i) : i < ks.length := by
  simpa using (Option.filter_eq_some_iff.mp h).2

theorem step_of_none (h : m.dest s.1 (m.keys s) a = none) :
    m.step s a = (((m.admin s.1 (m.keys s) a).1, (m.admin s.1 (m.keys s) a).2.1.apply s.2),
      (none, (m.admin s.1 (m.keys s) a).2.2)) := by
  simp only [step, h, Option.bind_none]

theorem step_of_some {p : π} (h : m.dest s.1 (m.keys s) a = some i) (hp : s.2[i]? = some p) :
    m.step s a = ((s.1, s.2.set i (m.serve s.1 p a).1), (some i, (m.serve s.1 p a).2)) := by
  simp only [step, h, Option.bind_some, hp, Option.map_some]

theorem exists_part (h : m.dest s.1 (m.keys s) a = some i) : ∃ p, s.2[i]? = some p := by
  have hlt := lt_of_dest h
  rw [keys, List.length_map] at hlt
  exact ⟨s.2[i], List.getElem?_eq_getElem hlt⟩

theorem step_tag (s : γ × List π) (a : α) : (m.step s a).2.1 = m.dest s.1 (m.keys s) a := by
  cases h : m.dest s.1 (m.keys s) a with
  | none => rw [step_of_none h]
  | some i =>
    obtain ⟨p, hp⟩ := exists_part h
    rw [step_of_some h hp]

private theorem keys_set {p : π} (hp : s.2[i]? = some p) (g : γ) (a : α) :
    (s.2.set i (m.serve g p a).1).map m.key = m.keys s := by
  rw [List.map_set, m.key_serve, keys]
  refine List.ext_getElem? fun k => ?_
  rw [List.getElem?_set, List.getElem?_map, List.length_map]
  by_cases hk : i = k
  · subst hk
    have hlt := (List.getElem?_eq_some_iff.mp hp).1
    rw [if_pos rfl, if_pos hlt, hp]
    rfl
  · rw [if_neg hk]

private theorem step_cases (s : γ × List π) (a : α) :
    (∃ i p, s.2[i]? = some p ∧ m.step s a = ((s.1, s.2.set i (m.serve s.1 p a).1),
        (some i, (m.serve s.1 p a).2))) ∨
      m.step s a = (((m.admin s.1 (m.keys s) a).1, (m.admin s.1 (m.keys s) a).2.1.apply s.2),
        (none, (m.admin s.1 (m.keys s) a).2.2)) := by
  cases h : m.dest s.1 (m.keys s) a with
  | none => exact Or.inr (step_of_none h)
  | some i =>
    obtain ⟨p, hp⟩ := exists_part h
    exact Or.inl ⟨i, p, hp, step_of_some h hp⟩

private theorem step_forall {P : π → Prop} (hserve : ∀ g p a, P p → P (m.serve g p a).1)
    (hadmin : ∀ g ks a, ∀ p ∈ (m.admin g ks a).2.1.added, P p) (h : ∀ p ∈ s.2, P p) :
    ∀ p ∈ (m.step s a).1.2, P p := by
  rcases step_cases (m := m) s a with ⟨i, q, hq, hstep⟩ | hstep
  · rw [hstep]
    intro p hp
    rcases List.mem_or_eq_of_mem_set hp with hp | rfl
    · exact h p hp
    · exact hserve _ _ _ (h q (List.mem_of_getElem? hq))
  · rw [hstep]
    intro p hp
    rcases TableEdit.mem_apply _ hp with hp | hp
    · exact h p hp
    · exact hadmin _ _ _ p hp

theorem run_forall {P : π → Prop} (hserve : ∀ g p a, P p → P (m.serve g p a).1)
    (hadmin : ∀ g ks a, ∀ p ∈ (m.admin g ks a).2.1.added, P p) {as : List α}
    {outs : List (Option ℕ × β)} (hrun : run m.next s as = some (t, outs)) (h : ∀ p ∈ s.2, P p) :
    ∀ p ∈ t.2, P p := by
  induction as generalizing s outs with
  | nil =>
    obtain ⟨rfl, rfl⟩ := Prod.mk.inj (Option.some.inj hrun)
    exact h
  | cons a as ih =>
    obtain ⟨cs, hrest, _⟩ := run_next_cons.mp hrun
    exact ih hrest (step_forall hserve hadmin h)

structure Agree (m : Parts γ κ π α β) (i : ℕ) (s t : γ × List π) : Prop where
  shared : s.1 = t.1
  keys : m.keys s = m.keys t
  part : s.2[i]? = t.2[i]?

theorem Agree.refl (m : Parts γ κ π α β) (i : ℕ) (s : γ × List π) : m.Agree i s s := ⟨rfl, rfl, rfl⟩

private theorem Agree.length (h : m.Agree i s t) : s.2.length = t.2.length := by
  simpa [Parts.keys] using congrArg List.length h.keys

private theorem Agree.dest (h : m.Agree i s t) (a : α) :
    m.dest s.1 (m.keys s) a = m.dest t.1 (m.keys t) a := by
  rw [h.shared, h.keys]

private theorem Agree.step (h : m.Agree i s t)
    (hd : ∀ j, m.dest s.1 (m.keys s) a = some j → j = i) :
    (m.step s a).2 = (m.step t a).2 ∧ m.Agree i (m.step s a).1 (m.step t a).1 := by
  cases hs : m.dest s.1 (m.keys s) a with
  | none =>
    have ht : m.dest t.1 (m.keys t) a = none := by rw [← h.dest, hs]
    rw [step_of_none hs, step_of_none ht, ← h.shared, ← h.keys]
    exact ⟨rfl, rfl, TableEdit.map_apply _ m.key h.keys,
      TableEdit.getElem?_apply _ h.length h.part⟩
  | some j =>
    obtain rfl := hd j hs
    have ht : m.dest t.1 (m.keys t) a = some j := by rw [← h.dest, hs]
    obtain ⟨p, hp⟩ := exists_part hs
    have hp' : t.2[j]? = some p := by rw [← h.part, hp]
    rw [step_of_some hs hp, step_of_some ht hp', ← h.shared]
    refine ⟨rfl, rfl, ?_, ?_⟩
    · change List.map m.key _ = List.map m.key _
      rw [keys_set hp, keys_set hp', h.keys]
    · simp only [List.getElem?_set_self', hp, hp']

private theorem Agree.step_other (h : m.Agree i s t) {j : ℕ}
    (hd : m.dest s.1 (m.keys s) a = some j) (hne : j ≠ i) : m.Agree i (m.step s a).1 t := by
  obtain ⟨p, hp⟩ := exists_part hd
  rw [step_of_some hd hp]
  refine ⟨h.shared, ?_, ?_⟩
  · change List.map m.key _ = _
    rw [keys_set hp, h.keys]
  · rw [List.getElem?_set_ne hne, h.part]

/-- Whether an answer comes from the part or from the table. -/
def Concerns (i : ℕ) (tag : Option ℕ) : Bool := tag.all fun j => j == i

private theorem concerns_iff {tag : Option ℕ} :
    Concerns i tag = true ↔ ∀ j, tag = some j → j = i := by
  cases tag <;> simp [Concerns]

def kept (m : Parts γ κ π α β) (i : ℕ) : γ × List π → List α → List α
  | _, [] => []
  | s, a :: as =>
    if Concerns i (m.dest s.1 (m.keys s) a) then a :: kept m i (m.step s a).1 as
    else kept m i (m.step s a).1 as

theorem run_kept {s' : γ × List π} {as : List α} {outs : List (Option ℕ × β)}
    (h : m.Agree i s t) (hrun : run m.next s as = some (s', outs)) :
    ∃ t', run m.next t (m.kept i s as) = some (t', outs.filter fun out => Concerns i out.1) ∧
      m.Agree i s' t' := by
  induction as generalizing s t outs with
  | nil =>
    obtain ⟨rfl, rfl⟩ := Prod.mk.inj (Option.some.inj hrun)
    exact ⟨t, rfl, h⟩
  | cons a as ih =>
    obtain ⟨cs, hrest, rfl⟩ := run_next_cons.mp hrun
    rw [kept, List.filter_cons, step_tag]
    cases hc : Concerns i (m.dest s.1 (m.keys s) a) with
    | true =>
      obtain ⟨hout, hagree⟩ := h.step (concerns_iff.mp hc)
      obtain ⟨t', hrun', hend⟩ := ih hagree hrest
      rw [if_pos rfl, if_pos rfl]
      exact ⟨t', run_next_cons.mpr ⟨_, hrun', by rw [hout]⟩, hend⟩
    | false =>
      cases hd : m.dest s.1 (m.keys s) a with
      | none => simp [hd, Concerns] at hc
      | some j =>
        have hne : j ≠ i := by simpa [hd, Concerns] using hc
        rw [if_neg Bool.false_ne_true, if_neg Bool.false_ne_true]
        exact ih (h.step_other hd hne) hrest

/-- The answers of one part among those of a run. -/
def answersOf (i : ℕ) (outs : List (Option ℕ × β)) : List β :=
  outs.filterMap fun out => if out.1 = some i then some out.2 else none

def Quiet (m : Parts γ κ π α β) (s : γ × List π) (a : α) : Prop :=
  m.dest s.1 (m.keys s) a = none →
    (m.admin s.1 (m.keys s) a).1 = s.1 ∧ (m.admin s.1 (m.keys s) a).2.1 = .idle

private theorem Quiet.step (h : m.Quiet s a) :
    (m.step s a).1.1 = s.1 ∧ m.keys (m.step s a).1 = m.keys s := by
  cases hd : m.dest s.1 (m.keys s) a with
  | none =>
    obtain ⟨hg, he⟩ := h hd
    rw [step_of_none hd, he, TableEdit.idle_apply]
    exact ⟨hg, rfl⟩
  | some j =>
    obtain ⟨q, hq⟩ := exists_part hd
    rw [step_of_some hd hq]
    exact ⟨rfl, keys_set hq _ _⟩

private theorem Quiet.next {b : α} (h : m.Quiet s a) (hb : m.Quiet s b) :
    m.Quiet (m.step s a).1 b := by
  rw [Quiet, h.step.1, h.step.2]
  exact hb

private theorem Quiet.step_other {p : π} (h : m.Quiet s a) (hne : m.dest s.1 (m.keys s) a ≠ some i)
    (hp : s.2[i]? = some p) : (m.step s a).1.2[i]? = some p := by
  cases hd : m.dest s.1 (m.keys s) a with
  | none =>
    rw [step_of_none hd, (h hd).2, TableEdit.idle_apply, hp]
  | some j =>
    obtain ⟨q, hq⟩ := exists_part hd
    have hji : j ≠ i := fun hj => hne (by rw [hd, hj])
    rw [step_of_some hd hq, List.getElem?_set_ne hji, hp]

private theorem run_quiet {s' : γ × List π} {as : List α} {outs : List (Option ℕ × β)}
    (hrun : run m.next s as = some (s', outs)) (hquiet : ∀ a ∈ as, m.Quiet s a) :
    s'.1 = s.1 ∧ m.keys s' = m.keys s := by
  induction as generalizing s outs with
  | nil =>
    obtain ⟨rfl, rfl⟩ := Prod.mk.inj (Option.some.inj hrun)
    exact ⟨rfl, rfl⟩
  | cons a as ih =>
    obtain ⟨cs, hrest, rfl⟩ := run_next_cons.mp hrun
    obtain ⟨hfirst, has⟩ := List.forall_mem_cons.mp hquiet
    obtain ⟨hshared, hkeys⟩ := ih hrest fun b hb => hfirst.next (has b hb)
    exact ⟨hshared.trans hfirst.step.1, hkeys.trans hfirst.step.2⟩

theorem run_alone {s' : γ × List π} {as : List α} {outs : List (Option ℕ × β)}
    (hrun : run m.next s as = some (s', outs)) (hquiet : ∀ a ∈ as, m.Quiet s a) {p : π}
    (hp : s.2[i]? = some p) :
    ∃ p', s'.2[i]? = some p' ∧
      run (fun p a => some (m.serve s.1 p a)) p
        (as.filter fun a => m.dest s.1 (m.keys s) a = some i) = some (p', answersOf i outs) := by
  induction as generalizing s outs p with
  | nil =>
    obtain ⟨rfl, rfl⟩ := Prod.mk.inj (Option.some.inj hrun)
    exact ⟨p, hp, rfl⟩
  | cons a as ih =>
    obtain ⟨cs, hrest, rfl⟩ := run_next_cons.mp hrun
    obtain ⟨hfirst, has⟩ := List.forall_mem_cons.mp hquiet
    have hgo := @ih _ _ hrest fun b hb => hfirst.next (has b hb)
    rw [hfirst.step.1, hfirst.step.2] at hgo
    by_cases hmine : m.dest s.1 (m.keys s) a = some i
    · have hnext : (m.step s a).1.2[i]? = some (m.serve s.1 p a).1 := by
        rw [step_of_some hmine hp, List.getElem?_set_self (List.getElem?_eq_some_iff.mp hp).1]
      obtain ⟨p', hend, hrun'⟩ := hgo hnext
      refine ⟨p', hend, ?_⟩
      rw [List.filter_cons, if_pos (by simpa using hmine)]
      refine run_cons_eq_some.mpr ⟨_, _, _, rfl, hrun', ?_⟩
      rw [step_of_some hmine hp]
      simp [answersOf]
    · obtain ⟨p', hend, hrun'⟩ := hgo (hfirst.step_other hmine hp)
      refine ⟨p', hend, ?_⟩
      rw [List.filter_cons, if_neg (by simpa using hmine)]
      have htag : (m.step s a).2.1 ≠ some i := by rwa [step_tag]
      simpa [answersOf, htag] using hrun'

theorem run_reorder {s₁ s₂ : γ × List π} {as bs : List α} {outs₁ outs₂ : List (Option ℕ × β)}
    (hrun₁ : run m.next s as = some (s₁, outs₁)) (hrun₂ : run m.next s bs = some (s₂, outs₂))
    (hquiet₁ : ∀ a ∈ as, m.Quiet s a) (hquiet₂ : ∀ b ∈ bs, m.Quiet s b)
    (hsame : ∀ i, (as.filter fun a => m.dest s.1 (m.keys s) a = some i) =
      bs.filter fun b => m.dest s.1 (m.keys s) b = some i) :
    s₁ = s₂ ∧ ∀ i < s.2.length, answersOf i outs₁ = answersOf i outs₂ := by
  have hparts : ∀ i < s.2.length, s₁.2[i]? = s₂.2[i]? ∧ answersOf i outs₁ = answersOf i outs₂ := by
    intro i hi
    obtain ⟨p₁, hend₁, halone₁⟩ := run_alone hrun₁ hquiet₁ (List.getElem?_eq_getElem hi)
    obtain ⟨p₂, hend₂, halone₂⟩ := run_alone hrun₂ hquiet₂ (List.getElem?_eq_getElem hi)
    rw [hsame i] at halone₁
    obtain ⟨rfl, hanswers⟩ := Prod.mk.inj (Option.some.inj (halone₁.symm.trans halone₂))
    exact ⟨hend₁.trans hend₂.symm, hanswers⟩
  obtain ⟨hshared₁, hkeys₁⟩ := run_quiet hrun₁ hquiet₁
  obtain ⟨hshared₂, hkeys₂⟩ := run_quiet hrun₂ hquiet₂
  have hlength₁ : s₁.2.length = s.2.length := by simpa [keys] using congrArg List.length hkeys₁
  have hlength₂ : s₂.2.length = s.2.length := by simpa [keys] using congrArg List.length hkeys₂
  refine ⟨Prod.ext (hshared₁.trans hshared₂.symm) (List.ext_getElem? fun i => ?_),
    fun i hi => (hparts i hi).2⟩
  by_cases hi : i < s.2.length
  · exact (hparts i hi).1
  · rw [List.getElem?_eq_none (by omega), List.getElem?_eq_none (by omega)]

end Parts

end Mockinx.Lib
