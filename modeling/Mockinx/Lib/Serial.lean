import Mathlib.Data.List.Induction
import Mathlib.Data.List.Nodup
import Mathlib.Logic.Function.Basic

/-!
Transactions that run step by step over a shared state. Where each step keeps the effect of the
steps that are left, and no transaction makes its first step while another is under way, the
transactions that are over have taken effect one after the other.
-/

set_option autoImplicit false
set_option relaxedAutoImplicit false

namespace Mockinx.Lib.Serial

universe u v w x

/-- Transactions: where each begins, where nothing is left of one or it has failed, the effect of
the steps that are left, and the effect of a whole transaction. -/
structure Transactions (σ : Type u) (ι : Type v) (π : Type w) (ε : Type x) where
  first : ι → π
  settled : π → Prop
  failed : π → Prop
  rest : ι → π → σ → Except ε σ
  whole : ι → σ → Except ε σ
  rest_first : ∀ i s, rest i (first i) s = whole i s
  rest_settled : ∀ i p s, settled p → rest i p s = .ok s

variable {σ : Type u} {ι : Type v} {π : Type w} {ε : Type x}

namespace Transactions

variable (t : Transactions σ ι π ε)

def UnderWay (i : ι) (p : π) : Prop := p ≠ t.first i ∧ ¬ t.settled p ∧ ¬ t.failed p

def runAll (order : List ι) (s : σ) : Except ε σ := order.foldlM (fun s i => t.whole i s) s

theorem runAll_concat {order : List ι} {i : ι} {s s' : σ} :
    t.runAll (order ++ [i]) s = .ok s' ↔
      ∃ m, t.runAll order s = .ok m ∧ t.whole i m = .ok s' := by
  simp only [runAll, List.foldlM_append]
  cases List.foldlM (fun s i => t.whole i s) s order with
  | error e => simp [bind, Except.bind]
  | ok m =>
    change (t.whole i m >>= fun s => .ok s) = .ok s' ↔ _
    cases h : t.whole i m <;> simp [bind, Except.bind, h]

theorem runAll_inv {I : σ → Prop} (hstep : ∀ i s s', I s → t.whole i s = .ok s' → I s')
    {order : List ι} {s s' : σ} (h : t.runAll order s = .ok s') (hs : I s) : I s' := by
  induction order using List.reverseRecOn generalizing s' with
  | nil => exact Except.ok.inj h ▸ hs
  | append_singleton order i ih =>
    obtain ⟨m, hm, hi⟩ := t.runAll_concat.mp h
    exact hstep i m s' (ih hm) hi

/-- The transactions that are over have taken effect in an order, which led to `m`; one more may
be under way, and will have had the effect of a whole one on `m`. -/
structure Serialized (s₀ : σ) (pcs : ι → π) (s : σ) (order : List ι) (m : σ) : Prop where
  nodup : order.Nodup
  mem_iff : ∀ i, i ∈ order ↔ t.settled (pcs i)
  effect : t.runAll order s₀ = .ok m
  alone : ∀ i j, t.UnderWay i (pcs i) → t.UnderWay j (pcs j) → i = j
  left : ∀ i, t.UnderWay i (pcs i) → t.rest i (pcs i) s = t.whole i m
  idle : (∀ i, ¬ t.UnderWay i (pcs i)) → s = m

variable {t}

theorem serialized_start {s₀ : σ} (h : ∀ i, ¬ t.settled (t.first i)) :
    t.Serialized s₀ t.first s₀ [] s₀ where
  nodup := List.nodup_nil
  mem_iff i := by simpa using h i
  effect := rfl
  alone i _ hi := absurd rfl hi.1
  left i hi := absurd rfl hi.1
  idle _ := rfl

namespace Serialized

variable {s₀ : σ} {pcs : ι → π} {s : σ} {order : List ι} {m : σ}

theorem effect_of_settled (h : t.Serialized s₀ pcs s order m) (hall : ∀ i, t.settled (pcs i)) :
    order.Nodup ∧ (∀ i, i ∈ order) ∧ t.runAll order s₀ = .ok s := by
  refine ⟨h.nodup, fun i => (h.mem_iff i).mpr (hall i), ?_⟩
  rw [h.idle fun i hi => hi.2.1 (hall i)]
  exact h.effect

variable [DecidableEq ι]

private theorem finish (h : t.Serialized s₀ pcs s order m) {i : ι} {p : π} {s' : σ}
    (hothers : ∀ j, j ≠ i → ¬ t.UnderWay j (pcs j)) (hgoing : ¬ t.settled (pcs i))
    (hp : t.settled p) (heffect : t.whole i m = .ok s') :
    t.Serialized s₀ (Function.update pcs i p) s' (order ++ [i]) s' := by
  have hnone : ∀ j, ¬ t.UnderWay j (Function.update pcs i p j) :=
    (Function.forall_update_iff pcs fun j q => ¬ t.UnderWay j q).mpr
      ⟨fun hunder => hunder.2.1 hp, hothers⟩
  have hnot : i ∉ order := fun hmem => hgoing ((h.mem_iff i).mp hmem)
  refine ⟨?_, ?_, t.runAll_concat.mpr ⟨m, h.effect, heffect⟩, fun j _ hj => absurd hj (hnone j),
    fun j hj => absurd hj (hnone j), fun _ => rfl⟩
  · refine List.nodup_append.mpr ⟨h.nodup, List.nodup_singleton i, ?_⟩
    intro a ha b hb
    rw [List.mem_singleton.mp hb]
    rintro rfl
    exact hnot ha
  · refine (Function.forall_update_iff pcs fun j q =>
      j ∈ order ++ [i] ↔ t.settled q).mpr ⟨by simp [hp], ?_⟩
    intro j hj
    simp [hj, h.mem_iff]

private theorem advance (h : t.Serialized s₀ pcs s order m) {i : ι} {p : π} {s' : σ}
    (hothers : ∀ j, j ≠ i → ¬ t.UnderWay j (pcs j)) (hgoing : ¬ t.settled (pcs i))
    (hp : t.UnderWay i p) (hleft : t.rest i p s' = t.whole i m) :
    t.Serialized s₀ (Function.update pcs i p) s' order m := by
  have hself : ∀ j, t.UnderWay j (Function.update pcs i p j) → j = i := by
    intro j hj
    by_contra hne
    rw [Function.update_of_ne hne] at hj
    exact hothers j hne hj
  refine ⟨h.nodup, ?_, h.effect, ?_, ?_, ?_⟩
  · refine (Function.forall_update_iff pcs fun j q => j ∈ order ↔ t.settled q).mpr
      ⟨?_, fun j _ => h.mem_iff j⟩
    rw [h.mem_iff]
    exact ⟨fun hs => absurd hs hgoing, fun hs => absurd hs hp.2.1⟩
  · intro j k hj hk
    rw [hself j hj, hself k hk]
  · intro j hj
    obtain rfl := hself j hj
    rw [Function.update_self]
    exact hleft
  · intro hidle
    refine absurd ?_ (hidle i)
    rw [Function.update_self]
    exact hp

theorem step (h : t.Serialized s₀ pcs s order m) {i : ι} {p : π} {s' : σ}
    (hfirst : pcs i = t.first i → ∀ j, j ≠ i → ¬ t.UnderWay j (pcs j))
    (hgoing : ¬ t.settled (pcs i) ∧ ¬ t.failed (pcs i)) (hp : p ≠ t.first i ∧ ¬ t.failed p)
    (hrest : t.rest i p s' = t.rest i (pcs i) s) :
    ∃ order' m', t.Serialized s₀ (Function.update pcs i p) s' order' m' := by
  have hothers : ∀ j, j ≠ i → ¬ t.UnderWay j (pcs j) := by
    intro j hj hunder
    by_cases hi : pcs i = t.first i
    · exact hfirst hi j hj hunder
    · exact hj (h.alone j i hunder ⟨hi, hgoing⟩)
  have hleft : t.rest i p s' = t.whole i m := by
    rw [hrest]
    by_cases hi : pcs i = t.first i
    · have hidle : ∀ j, ¬ t.UnderWay j (pcs j) := by
        intro j hunder
        by_cases hj : j = i
        · exact hunder.1 (hj ▸ hi)
        · exact hothers j hj hunder
      rw [hi, t.rest_first, h.idle hidle]
    · exact h.left i ⟨hi, hgoing⟩
  by_cases hsettled : t.settled p
  · have heffect : t.whole i m = .ok s' := by rw [← hleft, t.rest_settled i p s' hsettled]
    exact ⟨_, _, h.finish hothers hgoing.1 hsettled heffect⟩
  · exact ⟨_, _, h.advance hothers hgoing.1 ⟨hp.1, hsettled, hp.2⟩ hleft⟩

theorem step_settled (h : t.Serialized s₀ pcs s order m) {i : ι} {p : π}
    (hi : t.settled (pcs i)) (hp : t.settled p) :
    t.Serialized s₀ (Function.update pcs i p) s order m := by
  have hunder : ∀ j, t.UnderWay j (Function.update pcs i p j) ↔ t.UnderWay j (pcs j) := by
    refine (Function.forall_update_iff pcs fun j q =>
      t.UnderWay j q ↔ t.UnderWay j (pcs j)).mpr ⟨?_, fun _ _ => Iff.rfl⟩
    simp [UnderWay, hi, hp]
  refine ⟨h.nodup, ?_, h.effect, ?_, ?_, ?_⟩
  · refine (Function.forall_update_iff pcs fun j q => j ∈ order ↔ t.settled q).mpr
      ⟨?_, fun j _ => h.mem_iff j⟩
    simp [h.mem_iff, hi, hp]
  · intro j k hj hk
    exact h.alone j k ((hunder j).mp hj) ((hunder k).mp hk)
  · intro j hj
    have hj' := (hunder j).mp hj
    have hne : j ≠ i := by
      rintro rfl
      exact hj'.2.1 hi
    rw [Function.update_of_ne hne]
    exact h.left j hj'
  · intro hidle
    exact h.idle fun j hj => hidle j ((hunder j).mpr hj)

end Serialized

end Transactions

end Mockinx.Lib.Serial
