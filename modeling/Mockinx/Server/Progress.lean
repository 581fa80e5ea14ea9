import Mathlib.Algebra.BigOperators.Group.Finset.Basic
import Mathlib.Algebra.Order.BigOperators.Group.Finset
import Mockinx.Server.RuleIdentity

/-!
Progress of the handlers at the table locks. Both locks are taken in one order, so some handler can
always move until all are over; each step leaves fewer steps. What may end badly is a registration
whose resource store cannot be built: it poisons the locks, and from then on nothing is registered
and nobody who still has to look up a runtime is served.
-/

set_option autoImplicit false
set_option relaxedAutoImplicit false

namespace Mockinx

open Lib Lib.Run

variable {ι κ : Type}

def AdminPc.HoldsCrud : AdminPc → Prop
  | .fetchAdd | .setRuntime _ _ | .insertCrud _ _ | .push _ _ | .unlockCrud => True
  | _ => False

def AdminPc.Over (pc : AdminPc) : Prop := pc = .done ∨ pc = .panicked

def RequestPc.Over : RequestPc ι → Prop
  | .notFound | .served _ _ _ | .panicked => True
  | _ => False

def AdminTask.stepsLeft (task : AdminTask) : AdminPc → ℕ
  | .clearEntries => 3 * task.rules.length + 9
  | .clearRuntimes => 3 * task.rules.length + 8
  | .clearCrud => 3 * task.rules.length + 7
  | .resetCounter => 3 * task.rules.length + 6
  | .lockRuntimes => 3 * task.rules.length + 5
  | .lockCrud => 3 * task.rules.length + 4
  | .fetchAdd => 3 * task.rules.length + 3
  | .setRuntime _ i => 3 * (task.rules.length - i) + 2
  | .insertCrud _ i => 3 * (task.rules.length - i) + 1
  | .push _ i => 3 * (task.rules.length - i)
  | .unlockCrud => 2
  | .unlockRuntimes => 1
  | .done | .panicked => 0

def RequestPc.stepsLeft : RequestPc ι → ℕ
  | .start => 4
  | .matched _ => 3
  | .check _ _ => 2
  | .crudLookup _ _ => 1
  | .notFound | .served _ _ _ | .panicked => 0

def Rule.StoreFails (o : OverflowChecks) (rule : Rule) : Prop :=
  ∃ spec headers p, rule.reply = .crud spec headers ∧ CrudStore.new o spec = .error p

private theorem insertCrud_eq_error {o : OverflowChecks} {s : AppState ι} {origin : Origin ι}
    {rule : Rule}
    {idx : ℕ} {p : Panic} (h : s.insertCrud o origin rule idx = .error p) : rule.StoreFails o := by
  rw [AppState.insertCrud] at h
  cases hreply : rule.reply with
  | crud spec headers =>
    rw [hreply] at h
    cases hnew : CrudStore.new o spec with
    | ok store => simp [hnew, Except.map] at h
    | error q => exact ⟨spec, headers, q, hreply, hnew⟩
  | static r | sequence rs =>
    rw [hreply] at h
    cases h

private theorem not_storeFails_of_insertCrud {o : OverflowChecks} {s t : AppState ι}
    {origin : Origin ι}
    {rule : Rule} {idx : ℕ} (h : s.insertCrud o origin rule idx = .ok t) : ¬ rule.StoreFails o := by
  rintro ⟨spec, headers, p, hreply, hnew⟩
  simp [AppState.insertCrud, hreply, hnew, Except.map] at h

def AdminTask.Built (o : OverflowChecks) (task : AdminTask) : AdminPc → Prop
  | .setRuntime _ i | .insertCrud _ i =>
    i < task.rules.length ∧ ∀ rule ∈ task.rules.take i, ¬ rule.StoreFails o
  | .push _ i => i < task.rules.length ∧ ∀ rule ∈ task.rules.take (i + 1), ¬ rule.StoreFails o
  | .unlockCrud | .unlockRuntimes | .done => ∀ rule ∈ task.rules, ¬ rule.StoreFails o
  | _ => True

section Steps

variable {o : OverflowChecks} {task : AdminTask} {h : ι} {s : Shared ι} {pc : AdminPc}
  {r : Shared ι × AdminPc}

private theorem AdminPc.HoldsCrud.holdsRuntimes (hpc : pc.HoldsCrud) : pc.HoldsRuntimes := by
  cases pc <;> trivial

private theorem AdminCase.stepsLeft_lt (hcase : AdminCase o task h s pc r) :
    task.stepsLeft r.2 < task.stepsLeft pc := by
  have hnext : ∀ start i, i ≤ task.rules.length →
      task.stepsLeft (task.nextRule start i) ≤ 3 * (task.rules.length - i) + 2 := by
    intro start i hi
    rw [AdminTask.nextRule]
    split_ifs with hlt <;> simp [AdminTask.stepsLeft]
  cases hcase with
  | fetchAdd =>
    have := hnext s.app.stubCounter 0 (Nat.zero_le _)
    simp only [AdminTask.stepsLeft] at this ⊢
    omega
  | @push start i rule hrule =>
    obtain ⟨hi, _⟩ := List.getElem?_eq_some_iff.mp hrule
    have := hnext start (i + 1) hi
    simp only [AdminTask.stepsLeft] at this ⊢
    omega
  | panicOutside hpc => rcases hpc with rfl | rfl | rfl <;> simp [AdminTask.stepsLeft]
  | panicInside hpc => rcases hpc with rfl | ⟨_, _, rfl⟩ <;> simp [AdminTask.stepsLeft]
  | _ => simp [AdminTask.stepsLeft]

private theorem stepRequest_stepsLeft_lt {request : String × String} {goesOn : Bool}
    {pc pc' : RequestPc ι} (hstep : stepRequest s request goesOn pc = some pc') :
    pc'.stepsLeft < pc.stepsLeft := by
  cases pc with
  | start =>
    simp only [stepRequest] at hstep
    split at hstep <;> obtain rfl := Option.some.inj hstep <;> simp [RequestPc.stepsLeft]
  | matched e =>
    simp only [stepRequest] at hstep
    split_ifs at hstep <;> obtain rfl := Option.some.inj hstep <;> simp [RequestPc.stepsLeft]
  | check e runtime =>
    simp only [stepRequest] at hstep
    split_ifs at hstep <;> obtain rfl := Option.some.inj hstep <;> simp [RequestPc.stepsLeft]
  | crudLookup e runtime =>
    simp only [stepRequest] at hstep
    split_ifs at hstep <;> obtain rfl := Option.some.inj hstep <;> simp [RequestPc.stepsLeft]
  | notFound | served _ _ _ | panicked => cases hstep

private theorem stepAdmin_poisoned (hstep : stepAdmin o task h s pc = some r) :
    r.1.poisoned = s.poisoned ∧ (r.2 = .panicked → s.poisoned = true) ∨
      r = (s.panic, .panicked) ∧
        (s.poisoned = true ∨ ∃ rule ∈ task.rules, rule.StoreFails o) := by
  cases pc with
  | clearEntries | resetCounter | unlockCrud | unlockRuntimes =>
    obtain rfl := Option.some.inj hstep
    exact Or.inl ⟨rfl, fun hp => by cases hp⟩
  | fetchAdd =>
    obtain rfl := Option.some.inj hstep
    refine Or.inl ⟨rfl, fun hpanic => ?_⟩
    simp only [AdminTask.nextRule] at hpanic
    split_ifs at hpanic
  | clearRuntimes | clearCrud | lockRuntimes =>
    simp only [stepAdmin] at hstep
    split_ifs at hstep with hlock hpoison <;> obtain rfl := Option.some.inj hstep
    · exact Or.inl ⟨rfl, fun _ => hpoison⟩
    · exact Or.inl ⟨rfl, fun hp => by cases hp⟩
  | lockCrud =>
    simp only [stepAdmin] at hstep
    split_ifs at hstep with hlock hpoison <;> obtain rfl := Option.some.inj hstep
    · exact Or.inr ⟨rfl, Or.inl hpoison⟩
    · exact Or.inl ⟨rfl, fun hp => by cases hp⟩
  | setRuntime start i =>
    obtain ⟨rule, _, rfl⟩ := Option.map_eq_some_iff.mp hstep
    exact Or.inl ⟨rfl, fun hp => by cases hp⟩
  | insertCrud start i =>
    obtain ⟨rule, hrule, rfl⟩ := Option.map_eq_some_iff.mp hstep
    cases happ : s.app.insertCrud o ⟨h, i⟩ rule (start + i) with
    | ok app => exact Or.inl ⟨rfl, fun hp => by cases hp⟩
    | error p =>
      exact Or.inr ⟨rfl, Or.inr ⟨rule, List.mem_of_getElem? hrule, insertCrud_eq_error happ⟩⟩
  | push start i =>
    obtain ⟨rule, _, rfl⟩ := Option.map_eq_some_iff.mp hstep
    refine Or.inl ⟨rfl, fun hpanic => ?_⟩
    simp only [AdminTask.nextRule] at hpanic
    split_ifs at hpanic
  | done | panicked => cases hstep

private theorem over_or_held_of_stepAdmin_none (hbuilt : task.Built o pc)
    (hnone : stepAdmin o task h s pc = none) :
    pc.Over ∨ s.runtimesLock.isSome ∧ ¬ pc.HoldsRuntimes ∨ s.crudLock.isSome ∧ ¬ pc.HoldsCrud := by
  cases pc with
  | clearEntries | resetCounter | fetchAdd | unlockCrud | unlockRuntimes => cases hnone
  | clearRuntimes | lockRuntimes =>
    simp only [stepAdmin] at hnone
    split_ifs at hnone with hlock
    exact Or.inr (Or.inl ⟨hlock, id⟩)
  | clearCrud | lockCrud =>
    simp only [stepAdmin] at hnone
    split_ifs at hnone with hlock
    exact Or.inr (Or.inr ⟨hlock, id⟩)
  | setRuntime start i | insertCrud start i | push start i =>
    obtain ⟨hi, _⟩ := hbuilt
    simp [stepAdmin, hi] at hnone
  | done => exact Or.inl (Or.inl rfl)
  | panicked => exact Or.inl (Or.inr rfl)

private theorem over_or_held_of_stepRequest_none {request : String × String} {pc : RequestPc ι}
    (hnone : ∀ goesOn, stepRequest s request goesOn pc = none) :
    pc.Over ∨ s.runtimesLock.isSome ∨ s.crudLock.isSome := by
  have hnone := hnone true
  cases pc with
  | start =>
    simp only [stepRequest] at hnone
    split at hnone <;> cases hnone
  | matched e =>
    simp only [stepRequest] at hnone
    split_ifs at hnone with hlock
    exact Or.inr (Or.inl hlock)
  | check e runtime =>
    simp only [stepRequest] at hnone
    split_ifs at hnone
  | crudLookup e runtime =>
    simp only [stepRequest] at hnone
    split_ifs at hnone with hlock
    exact Or.inr (Or.inr hlock)
  | notFound | served _ _ _ | panicked => exact Or.inl trivial

private theorem AdminTask.built_nextRule {start i : ℕ}
    (hok : ∀ rule ∈ task.rules.take i, ¬ rule.StoreFails o) :
    task.Built o (task.nextRule start i) := by
  rw [nextRule]
  split_ifs with hi
  · exact ⟨hi, hok⟩
  · rwa [List.take_of_length_le (not_lt.mp hi)] at hok

private theorem AdminCase.built (hcase : AdminCase o task h s pc r) (hbuilt : task.Built o pc) :
    task.Built o r.2 := by
  cases hcase with
  | fetchAdd => exact AdminTask.built_nextRule (by simp)
  | setRuntime => exact hbuilt
  | @insertCrud start i rule app hrule happ =>
    obtain ⟨hi, hok⟩ := hbuilt
    refine ⟨hi, ?_⟩
    rw [List.take_add_one, hrule]
    intro rule' hmem
    rcases List.mem_append.mp hmem with hmem | hmem
    · exact hok rule' hmem
    · obtain rfl := List.mem_singleton.mp hmem
      exact not_storeFails_of_insertCrud happ
  | push hrule => exact AdminTask.built_nextRule hbuilt.2
  | unlockCrud | unlockRuntimes => exact hbuilt
  | _ => trivial

private theorem AdminCase.owners (hcase : AdminCase o task h s pc r) :
    (∀ h', r.1.runtimesLock = some h' → s.runtimesLock = some h' ∧
        (pc.HoldsRuntimes → r.2.HoldsRuntimes) ∨ h' = h ∧ r.2.HoldsRuntimes) ∧
      ∀ h', r.1.crudLock = some h' → s.crudLock = some h' ∧
        (pc.HoldsCrud → r.2.HoldsCrud) ∨ h' = h ∧ r.2.HoldsCrud := by
  have hnext : ∀ start i, (task.nextRule start i).HoldsCrud := by
    intro start i
    rw [AdminTask.nextRule]
    split_ifs <;> trivial
  cases hcase with
  | fetchAdd | push =>
    exact ⟨fun h' hl => Or.inl ⟨hl, fun _ => (hnext _ _).holdsRuntimes⟩,
      fun h' hl => Or.inl ⟨hl, fun _ => hnext _ _⟩⟩
  | lockRuntimes =>
    exact ⟨fun h' hl => Or.inr ⟨(Option.some.inj hl).symm, trivial⟩,
      fun h' hl => Or.inl ⟨hl, fun hp => by cases hp⟩⟩
  | lockCrud =>
    exact ⟨fun h' hl => Or.inl ⟨hl, fun _ => trivial⟩,
      fun h' hl => Or.inr ⟨(Option.some.inj hl).symm, trivial⟩⟩
  | unlockCrud =>
    exact ⟨fun h' hl => Or.inl ⟨hl, fun _ => trivial⟩, fun h' hl => by cases hl⟩
  | unlockRuntimes =>
    exact ⟨fun h' hl => (by cases hl), fun h' hl => Or.inl ⟨hl, fun hp => by cases hp⟩⟩
  | panicInside => exact ⟨fun h' hl => (by cases hl), fun h' hl => by cases hl⟩
  | panicOutside hpc =>
    rcases hpc with rfl | rfl | rfl <;>
      exact ⟨fun h' hl => Or.inl ⟨hl, fun hp => by cases hp⟩,
        fun h' hl => Or.inl ⟨hl, fun hp => by cases hp⟩⟩
  | setRuntime | insertCrud =>
    exact ⟨fun h' hl => Or.inl ⟨hl, fun _ => trivial⟩, fun h' hl => Or.inl ⟨hl, fun _ => trivial⟩⟩
  | clearEntries | clearRuntimes | clearCrud | resetCounter =>
    exact ⟨fun h' hl => Or.inl ⟨hl, fun hp => by cases hp⟩,
      fun h' hl => Or.inl ⟨hl, fun hp => by cases hp⟩⟩

/-- What a handler that holds no lock can still do once the locks are poisoned: it may clear the
entries or reset the counter, and panics where it takes a lock. -/
structure AfterPoison (s : Shared ι) (r : Shared ι × AdminPc) : Prop where
  poisoned : r.1.poisoned = true
  runtimesLock : r.1.runtimesLock = s.runtimesLock
  notHolding : ¬ r.2.HoldsRuntimes
  notDone : r.2 ≠ .done
  runtimes : r.1.app.runtimes = s.app.runtimes
  crudStores : r.1.app.crudStores = s.app.crudStores
  entries : r.1.app.entries = s.app.entries ∨ r.1.app.entries = []

private theorem afterPoison_of_stepAdmin (hstep : stepAdmin o task h s pc = some r)
    (hpoisoned : s.poisoned = true) (hpc : ¬ pc.HoldsRuntimes) : AfterPoison s r := by
  cases pc with
  | clearEntries =>
    obtain rfl := Option.some.inj hstep
    exact ⟨hpoisoned, rfl, id, fun hp => (by cases hp), rfl, rfl, Or.inr rfl⟩
  | resetCounter =>
    obtain rfl := Option.some.inj hstep
    exact ⟨hpoisoned, rfl, id, fun hp => (by cases hp), rfl, rfl, Or.inl rfl⟩
  | clearRuntimes | clearCrud | lockRuntimes =>
    simp only [stepAdmin, hpoisoned, if_true] at hstep
    split_ifs at hstep
    obtain rfl := Option.some.inj hstep
    exact ⟨hpoisoned, rfl, id, fun hp => (by cases hp), rfl, rfl, Or.inl rfl⟩
  | done | panicked => cases hstep
  | _ => exact absurd trivial hpc

end Steps

/-- What holds in every state that the handlers reach. The owner of a lock is past taking it, each
handler has built the stores of the rules behind it, and the locks are poisoned by nothing but a
store that cannot be built. -/
structure LocksKept (o : OverflowChecks) (w : Workload ι κ) (s : Sys ι κ) : Prop where
  exclusive : Exclusive s.shared s.admin
  runtimesOwner : ∀ h, s.shared.runtimesLock = some h → (s.admin h).HoldsRuntimes
  crudOwner : ∀ h, s.shared.crudLock = some h → (s.admin h).HoldsCrud
  built : ∀ h, (w.task h).Built o (s.admin h)
  adminPanics : ∀ h, s.admin h = .panicked → s.shared.poisoned = true
  requestPanics : ∀ r, s.request r = .panicked → s.shared.poisoned = true
  cause : s.shared.poisoned = true → ∃ h, ∃ rule ∈ (w.task h).rules, rule.StoreFails o
  free : s.shared.poisoned = true → s.shared.runtimesLock = none

private theorem locksKept_start (o : OverflowChecks) (w : Workload ι κ) (app : AppState ι) :
    LocksKept o w (w.start app) := by
  have hfirst : ∀ h, (w.task h).first = .clearEntries ∨ (w.task h).first = .lockRuntimes := by
    intro h
    rw [AdminTask.first]
    split_ifs
    · exact Or.inl rfl
    · exact Or.inr rfl
  refine ⟨?_, fun h hl => (by cases hl), fun h hl => (by cases hl), ?_, ?_,
    fun r hp => (by cases hp),
    fun hp => (by cases hp), fun hp => by cases hp⟩
  · intro h hholds
    change (w.task h).first.HoldsRuntimes at hholds
    rcases hfirst h with hf | hf <;> rw [hf] at hholds <;> cases hholds
  · intro h
    change (w.task h).Built o (w.task h).first
    rcases hfirst h with hf | hf <;> rw [hf] <;> trivial
  · intro h hpanic
    change (w.task h).first = .panicked at hpanic
    rcases hfirst h with hf | hf <;> rw [hf] at hpanic <;> cases hpanic

private theorem LocksKept.not_holdsRuntimes {o : OverflowChecks} {w : Workload ι κ} {s : Sys ι κ}
    (hs : LocksKept o w s) (hpoisoned : s.shared.poisoned = true) (h : ι) :
    ¬ (s.admin h).HoldsRuntimes := by
  intro hholds
  have howner := hs.exclusive h hholds
  rw [hs.free hpoisoned] at howner
  cases howner

variable [DecidableEq ι] [DecidableEq κ]

/-- The step lemma. -/
private theorem LocksKept.step {o : OverflowChecks} {w : Workload ι κ} {s : Sys ι κ}
    {a : Action ι κ}
    {r : Sys ι κ × Unit} (hs : LocksKept o w s) (hstep : stepSys o w s a = some r) :
    LocksKept o w r.1 := by
  cases a with
  | request q goesOn =>
    obtain ⟨pc, hpc, rfl⟩ := Option.map_eq_some_iff.mp hstep
    refine ⟨hs.exclusive, hs.runtimesOwner, hs.crudOwner, hs.built, hs.adminPanics, ?_, hs.cause,
      hs.free⟩
    refine (Function.forall_update_iff s.request fun _ pc =>
      pc = .panicked → s.shared.poisoned = true).mpr ⟨?_, fun q' _ => hs.requestPanics q'⟩
    rintro rfl
    cases hq : s.request q with
    | start =>
      simp only [hq, stepRequest] at hpc
      split at hpc <;> cases hpc
    | matched e | crudLookup e runtime =>
      simp only [hq, stepRequest] at hpc
      split_ifs at hpc with hlock hpoisoned
      · exact hpoisoned
      · cases hpc
    | check e runtime =>
      simp only [hq, stepRequest] at hpc
      split_ifs at hpc <;> cases hpc
    | notFound | served _ _ _ | panicked =>
      rw [hq] at hpc
      cases hpc
  | admin h =>
    obtain ⟨q, hq, rfl⟩ := Option.map_eq_some_iff.mp hstep
    have hcase := stepAdmin_cases hq
    obtain ⟨hruntimes, hcrud⟩ := hcase.owners
    have hpoison := stepAdmin_poisoned hq
    -- Poison stays.
    have hstays : s.shared.poisoned = true → q.1.poisoned = true := by
      intro hp
      rcases hpoison with ⟨hsame, _⟩ | ⟨rfl, _⟩
      · rw [hsame, hp]
      · rfl
    refine ⟨hs.exclusive.step hcase, ?_, ?_, ?_, ?_, ?_, ?_, ?_⟩
    · intro h' howner
      change (Function.update s.admin h q.2 h').HoldsRuntimes
      rcases hruntimes h' howner with ⟨hold, hkeeps⟩ | ⟨rfl, hholds⟩
      · by_cases hh : h' = h
        · subst hh
          rw [Function.update_self]
          exact hkeeps (hs.runtimesOwner h' hold)
        · rw [Function.update_of_ne hh]
          exact hs.runtimesOwner h' hold
      · rwa [Function.update_self]
    · intro h' howner
      change (Function.update s.admin h q.2 h').HoldsCrud
      rcases hcrud h' howner with ⟨hold, hkeeps⟩ | ⟨rfl, hholds⟩
      · by_cases hh : h' = h
        · subst hh
          rw [Function.update_self]
          exact hkeeps (hs.crudOwner h' hold)
        · rw [Function.update_of_ne hh]
          exact hs.crudOwner h' hold
      · rwa [Function.update_self]
    · exact (Function.forall_update_iff s.admin fun h' pc => (w.task h').Built o pc).mpr
        ⟨hcase.built (hs.built h), fun h' _ => hs.built h'⟩
    · refine (Function.forall_update_iff s.admin fun _ pc =>
        pc = .panicked → q.1.poisoned = true).mpr
          ⟨?_, fun h' _ hpanic => hstays (hs.adminPanics h' hpanic)⟩
      intro hpanic
      rcases hpoison with ⟨hsame, hwas⟩ | ⟨rfl, _⟩
      · rw [hsame, hwas hpanic]
      · rfl
    · exact fun r hpanic => hstays (hs.requestPanics r hpanic)
    · intro hp
      rcases hpoison with ⟨hsame, _⟩ | ⟨rfl, hwas | hfails⟩
      · exact hs.cause (hsame ▸ hp)
      · exact hs.cause hwas
      · exact ⟨h, hfails⟩
    · intro hp
      by_cases hwas : s.shared.poisoned = true
      · have hafter := afterPoison_of_stepAdmin hq hwas (hs.not_holdsRuntimes hwas h)
        exact hafter.runtimesLock.trans (hs.free hwas)
      · rcases hpoison with ⟨hsame, _⟩ | ⟨rfl, _⟩
        · exact absurd (hsame ▸ hp) hwas
        · rfl

/-- The run lemma. -/
private theorem locksKept_run {o : OverflowChecks} {w : Workload ι κ} {app : AppState ι}
    {acts : List (Action ι κ)} {s : Sys ι κ} {outs : List Unit}
    (hrun : run (stepSys o w) (w.start app) acts = some (s, outs)) : LocksKept o w s :=
  run_inv_of_along (I := LocksKept o w) (C := fun _ _ _ => True)
    (fun _ _ _ hs hstep _ => hs.step hstep)
    (along_of_forall_mem (Q := fun _ => True) fun _ _ => trivial) hrun (locksKept_start o w app)

/-- Every handler is over and the locks are free. They are poisoned exactly if some rule's store
cannot be built, and otherwise nobody has panicked. -/
structure Finished (o : OverflowChecks) (w : Workload ι κ) (s : Sys ι κ) : Prop where
  admin : ∀ h, (s.admin h).Over
  request : ∀ r, (s.request r).Over
  unlocked : s.shared.runtimesLock = none ∧ s.shared.crudLock = none
  poisoned_iff : s.shared.poisoned = true ↔ ∃ h, ∃ rule ∈ (w.task h).rules, rule.StoreFails o
  healthy : s.shared.poisoned = false →
    (∀ h, s.admin h = .done) ∧ ∀ r, s.request r ≠ .panicked

private theorem LocksKept.finished_of_stuck {o : OverflowChecks} {w : Workload ι κ} {s : Sys ι κ}
    (hs : LocksKept o w s) (hstuck : ∀ a, stepSys o w s a = none) : Finished o w s := by
  have hadmin : ∀ h, stepAdmin o (w.task h) h s.shared (s.admin h) = none := by
    intro h
    simpa [stepSys] using hstuck (.admin h)
  have hover_of : ∀ h, (s.admin h).HoldsRuntimes → ¬ (s.admin h).Over := by
    rintro h hholds (hpc | hpc) <;> rw [hpc] at hholds <;> cases hholds
  have hruntimes : s.shared.runtimesLock = none := by
    by_contra hheld
    obtain ⟨h, howner⟩ := Option.ne_none_iff_exists'.mp hheld
    have hholds := hs.runtimesOwner h howner
    rcases over_or_held_of_stepAdmin_none (hs.built h) (hadmin h) with
      hover | ⟨_, hnot⟩ | ⟨hc, hnot⟩
    · exact hover_of h hholds hover
    · exact hnot hholds
    · -- The owner of the other lock owns this one too, so it is the same handler.
      obtain ⟨h', howner'⟩ := Option.isSome_iff_exists.mp hc
      have hcrud := hs.crudOwner h' howner'
      have hsame := (hs.exclusive h' hcrud.holdsRuntimes).symm.trans howner
      obtain rfl := Option.some.inj hsame
      exact hnot hcrud
  have hcrud : s.shared.crudLock = none := by
    by_contra hheld
    obtain ⟨h, howner⟩ := Option.ne_none_iff_exists'.mp hheld
    have hmine := hs.exclusive h (hs.crudOwner h howner).holdsRuntimes
    rw [hruntimes] at hmine
    cases hmine
  have hover : ∀ h, (s.admin h).Over := by
    intro h
    rcases over_or_held_of_stepAdmin_none (hs.built h) (hadmin h) with hover | ⟨hl, _⟩ | ⟨hl, _⟩
    · exact hover
    · simp [hruntimes] at hl
    · simp [hcrud] at hl
  have hfails : (∃ h, ∃ rule ∈ (w.task h).rules, rule.StoreFails o) → s.shared.poisoned = true := by
    rintro ⟨h, rule, hmem, hfails⟩
    rcases hover h with hdone | hpanic
    · have hbuilt := hs.built h
      rw [hdone] at hbuilt
      exact absurd hfails (hbuilt rule hmem)
    · exact hs.adminPanics h hpanic
  refine ⟨hover, ?_, ⟨hruntimes, hcrud⟩, ⟨hs.cause, hfails⟩, ?_⟩
  · intro r
    have hnone : ∀ goesOn, stepRequest s.shared (w.request r) goesOn (s.request r) = none := by
      intro goesOn
      simpa [stepSys] using hstuck (.request r goesOn)
    rcases over_or_held_of_stepRequest_none hnone with hover | hl | hl
    · exact hover
    · simp [hruntimes] at hl
    · simp [hcrud] at hl
  · intro hclean
    refine ⟨fun h => (hover h).resolve_right fun hpanic => ?_, fun r hpanic => ?_⟩
    · rw [hs.adminPanics h hpanic] at hclean
      cases hclean
    · rw [hs.requestPanics r hpanic] at hclean
      cases hclean

section Bound

private theorem sum_update_lt {α β : Type} [Fintype α] [DecidableEq α] (μ : α → β → ℕ) (f : α → β)
    {a : α} {b : β} (h : μ a b < μ a (f a)) :
    ∑ x, μ x (Function.update f a b x) < ∑ x, μ x (f x) := by
  refine Finset.sum_lt_sum (fun x _ => ?_) ⟨a, Finset.mem_univ a, ?_⟩
  · by_cases hx : x = a
    · subst hx
      rw [Function.update_self]
      exact h.le
    · rw [Function.update_of_ne hx]
  · rwa [Function.update_self]

variable [Fintype ι] [Fintype κ]

def Workload.stepsLeft (w : Workload ι κ) (s : Sys ι κ) : ℕ :=
  ∑ h, (w.task h).stepsLeft (s.admin h) + ∑ r, (s.request r).stepsLeft

private theorem stepsLeft_lt_of_step {o : OverflowChecks} {w : Workload ι κ} {s : Sys ι κ}
    {a : Action ι κ} {r : Sys ι κ × Unit} (hstep : stepSys o w s a = some r) :
    w.stepsLeft r.1 < w.stepsLeft s := by
  cases a with
  | request q goesOn =>
    obtain ⟨pc, hpc, rfl⟩ := Option.map_eq_some_iff.mp hstep
    have hlt := stepRequest_stepsLeft_lt hpc
    exact Nat.add_lt_add_left (sum_update_lt (fun _ pc => pc.stepsLeft) s.request hlt) _
  | admin h =>
    obtain ⟨q, hq, rfl⟩ := Option.map_eq_some_iff.mp hstep
    have hlt := (stepAdmin_cases hq).stepsLeft_lt
    exact Nat.add_lt_add_right (sum_update_lt (fun h pc => (w.task h).stepsLeft pc) s.admin hlt) _

/-- No order of the steps at the table locks runs for ever or into a deadlock: a run is bounded by
the number of rules and requests, it can be continued until nothing moves, and where nothing moves
all handlers are over. How long a request waits for a permit before it goes on is not part of a
run. -/
theorem handlers_finish {o : OverflowChecks} {w : Workload ι κ} {app : AppState ι}
    {acts : List (Action ι κ)} {s : Sys ι κ} {outs : List Unit}
    (hrun : run (stepSys o w) (w.start app) acts = some (s, outs)) :
    acts.length ≤ ∑ h, (3 * (w.task h).rules.length + 9) + 4 * Fintype.card κ ∧
      (∃ acts' s' outs', run (stepSys o w) s acts' = some (s', outs') ∧
        ∀ a, stepSys o w s' a = none) ∧
      ((∀ a, stepSys o w s a = none) → Finished o w s) := by
  have hstep : ∀ (s : Sys ι κ) a r, True → stepSys o w s a = some r →
      True ∧ w.stepsLeft r.1 < w.stepsLeft s :=
    fun _ _ _ _ hstep => ⟨trivial, stepsLeft_lt_of_step hstep⟩
  refine ⟨?_, exists_run_stuck hstep trivial, (locksKept_run hrun).finished_of_stuck⟩
  have hlen := length_add_le hstep trivial hrun
  have hadmin : ∀ h, (w.task h).stepsLeft ((w.start app).admin h) ≤
      3 * (w.task h).rules.length + 9 := by
    intro h
    change (w.task h).stepsLeft (w.task h).first ≤ _
    rw [AdminTask.first]
    split_ifs <;> simp [AdminTask.stepsLeft]
  have hrequest : ∑ r, ((w.start app).request r).stepsLeft = 4 * Fintype.card κ := by
    simp [Workload.start, RequestPc.stepsLeft, Nat.mul_comm]
  have hsum := Finset.sum_le_sum fun h (_ : h ∈ Finset.univ) => hadmin h
  rw [Workload.stepsLeft.eq_def w (w.start app), hrequest] at hlen
  omega

/-- One handler loads a resource whose first item has the largest 64-bit integer for its id, and
another one replaces all rules; a request arrives. -/
def overflowingSeed : Workload Bool Unit where
  task h := ⟨h, [⟨.catchAll,
    .crud ⟨{}, [.obj [("id", .ofNat 18446744073709551615)] (by decide)]⟩ .empty,
    {}, {}, none, .null⟩]⟩
  request _ := ("GET", "/")

theorem handlers_finish_from_locks : ∃ (s : Sys Bool Unit) (outs : List Unit),
    run (stepSys .checked overflowingSeed) (overflowingSeed.start .new)
        [.admin false, .admin false] = some (s, outs) ∧
      2 ≤ ∑ h, (3 * (overflowingSeed.task h).rules.length + 9) + 4 * Fintype.card Unit ∧
      (∃ acts' s' outs', run (stepSys .checked overflowingSeed) s acts' = some (s', outs') ∧
        ∀ a, stepSys .checked overflowingSeed s' a = none) ∧
      ((∀ a, stepSys .checked overflowingSeed s a = none) →
        Finished .checked overflowingSeed s) := by
  refine ⟨_, _, rfl, ?_⟩
  have hrun : run (stepSys .checked overflowingSeed) (overflowingSeed.start .new)
      [.admin false, .admin false] = some _ := rfl
  exact handlers_finish hrun

end Bound

/-- What is left of a server whose locks are poisoned. No handler gets through any more, and a
request is served only if it had looked up its runtime before and needs no resource store. -/
structure StaysDown (s s' : Sys ι κ) : Prop where
  poisoned : s'.shared.poisoned = true
  admin : ∀ h, s'.admin h = .done → s.admin h = .done
  entries : s'.shared.app.entries = s.shared.app.entries ∨ s'.shared.app.entries = []
  runtimes : s'.shared.app.runtimes = s.shared.app.runtimes
  crudStores : s'.shared.app.crudStores = s.shared.app.crudStores
  request : ∀ r e runtime crud, s'.request r = .served e runtime crud →
    s.request r = .served e runtime crud ∨ s.request r = .check e runtime ∧ crud = none
  looked : ∀ r e runtime, s'.request r = .check e runtime → s.request r = .check e runtime

/-- The step lemma. -/
private theorem StaysDown.step {o : OverflowChecks} {w : Workload ι κ} {s s' : Sys ι κ}
    {a : Action ι κ} {r : Sys ι κ × Unit} (hdown : StaysDown s s') (hs : LocksKept o w s')
    (hstep : stepSys o w s' a = some r) : StaysDown s r.1 := by
  cases a with
  | request q goesOn =>
    obtain ⟨pc, hpc, rfl⟩ := Option.map_eq_some_iff.mp hstep
    have hfree := hs.free hdown.poisoned
    refine ⟨hdown.poisoned, hdown.admin, hdown.entries, hdown.runtimes, hdown.crudStores, ?_, ?_⟩
    · refine (Function.forall_update_iff s'.request fun q' pc => ∀ e runtime crud,
        pc = .served e runtime crud → s.request q' = .served e runtime crud ∨
          s.request q' = .check e runtime ∧ crud = none).mpr ⟨?_, fun q' _ => hdown.request q'⟩
      rintro e runtime crud rfl
      cases hq : s'.request q with
      | check e' runtime' =>
        simp only [hq, stepRequest] at hpc
        split_ifs at hpc
        · cases hpc
        · obtain ⟨rfl, rfl, rfl⟩ := RequestPc.served.inj (Option.some.inj hpc)
          exact Or.inr ⟨hdown.looked q _ _ hq, rfl⟩
      | start =>
        simp only [hq, stepRequest] at hpc
        split at hpc <;> cases hpc
      | matched e' | crudLookup e' runtime' =>
        simp [hq, stepRequest, hdown.poisoned] at hpc
      | notFound | served _ _ _ | panicked =>
        rw [hq] at hpc
        cases hpc
    · refine (Function.forall_update_iff s'.request fun q' pc => ∀ e runtime,
        pc = .check e runtime → s.request q' = .check e runtime).mpr
          ⟨?_, fun q' _ => hdown.looked q'⟩
      rintro e runtime rfl
      cases hq : s'.request q with
      | start =>
        simp only [hq, stepRequest] at hpc
        split at hpc <;> cases hpc
      | matched e' | crudLookup e' runtime' =>
        simp [hq, stepRequest, hdown.poisoned] at hpc
      | check e' runtime' =>
        simp only [hq, stepRequest] at hpc
        split_ifs at hpc <;> cases hpc
      | notFound | served _ _ _ | panicked =>
        rw [hq] at hpc
        cases hpc
  | admin h =>
    obtain ⟨q, hq, rfl⟩ := Option.map_eq_some_iff.mp hstep
    have hafter := afterPoison_of_stepAdmin hq hdown.poisoned
      (hs.not_holdsRuntimes hdown.poisoned h)
    refine ⟨hafter.poisoned, ?_, ?_, hafter.runtimes.trans hdown.runtimes,
      hafter.crudStores.trans hdown.crudStores, hdown.request, hdown.looked⟩
    · exact (Function.forall_update_iff s'.admin fun h' pc => pc = .done → s.admin h' = .done).mpr
        ⟨fun hdone => absurd hdone hafter.notDone, fun h' _ => hdown.admin h'⟩
    · rcases hafter.entries with he | he
      · rw [he]
        exact hdown.entries
      · exact Or.inr he

def AdminPc.Locks : AdminPc → Prop
  | .clearRuntimes | .clearCrud | .lockRuntimes | .lockCrud => True
  | _ => False

/-- The next step of the request is a look-up under a table lock: a rule has matched. -/
def RequestPc.LooksUp : RequestPc ι → Prop
  | .matched _ | .crudLookup _ _ => True
  | _ => False

/-- Whoever takes a table lock next panics. -/
structure LocksPanic (o : OverflowChecks) (w : Workload ι κ) (s : Sys ι κ) : Prop where
  admin : ∀ h, (s.admin h).Locks →
    ∃ t, stepSys o w s (.admin h) = some (t, ()) ∧ t.admin h = .panicked
  request : ∀ q goesOn, (s.request q).LooksUp →
    ∃ t, stepSys o w s (.request q goesOn) = some (t, ()) ∧ t.request q = .panicked

omit [DecidableEq ι] [DecidableEq κ] in
private theorem stepAdmin_of_poisoned {o : OverflowChecks} {task : AdminTask} {h : ι} {s : Shared ι}
    {pc : AdminPc} (hpoisoned : s.poisoned = true) (hruntimes : s.runtimesLock = none)
    (hcrud : s.crudLock = none) (hpc : pc.Locks) :
    ∃ t, stepAdmin o task h s pc = some (t, .panicked) := by
  cases pc with
  | clearRuntimes | lockRuntimes => exact ⟨s, by simp [stepAdmin, hruntimes, hpoisoned]⟩
  | clearCrud => exact ⟨s, by simp [stepAdmin, hcrud, hpoisoned]⟩
  | lockCrud => exact ⟨s.panic, by simp [stepAdmin, hcrud, hpoisoned]⟩
  | _ => cases hpc

omit [DecidableEq ι] [DecidableEq κ] in
private theorem stepRequest_of_poisoned {s : Shared ι} {request : String × String} {goesOn : Bool}
    {pc : RequestPc ι} (hpoisoned : s.poisoned = true) (hruntimes : s.runtimesLock = none)
    (hcrud : s.crudLock = none) (hpc : pc.LooksUp) :
    stepRequest s request goesOn pc = some .panicked := by
  cases pc with
  | matched e => simp [stepRequest, hruntimes, hpoisoned]
  | crudLookup e runtime => simp [stepRequest, hcrud, hpoisoned]
  | _ => cases hpc

private theorem LocksKept.locksPanic {o : OverflowChecks} {w : Workload ι κ} {s : Sys ι κ}
    (hs : LocksKept o w s) (hpoisoned : s.shared.poisoned = true) : LocksPanic o w s := by
  have hruntimes := hs.free hpoisoned
  have hcrud : s.shared.crudLock = none := by
    cases hlock : s.shared.crudLock with
    | none => rfl
    | some h => exact absurd (hs.crudOwner h hlock).holdsRuntimes (hs.not_holdsRuntimes hpoisoned h)
  constructor
  · intro h hpc
    obtain ⟨t, ht⟩ := @stepAdmin_of_poisoned _ o (w.task h) h _ _ hpoisoned hruntimes hcrud hpc
    refine ⟨_, by rw [stepSys, ht]; rfl, ?_⟩
    exact Function.update_self ..
  · intro q goesOn hpc
    refine ⟨_, by rw [stepSys, stepRequest_of_poisoned hpoisoned hruntimes hcrud hpc]; rfl, ?_⟩
    exact Function.update_self ..

/-- Once a registration has failed under the locks, the server stays down, in every state that a
run reaches from there: registrations and replacements panic at the first table lock, and requests
that match panic at their look-up. -/
theorem poison_is_for_ever {o : OverflowChecks} {w : Workload ι κ} {app : AppState ι}
    {acts acts' : List (Action ι κ)} {s s' : Sys ι κ} {outs outs' : List Unit}
    (hrun : run (stepSys o w) (w.start app) acts = some (s, outs))
    (hpoisoned : s.shared.poisoned = true)
    (hrun' : run (stepSys o w) s acts' = some (s', outs')) :
    StaysDown s s' ∧ LocksPanic o w s' := by
  have hinv : LocksKept o w s' ∧ StaysDown s s' := by
    refine run_inv_of_along (I := fun s' => LocksKept o w s' ∧ StaysDown s s')
      (C := fun _ _ _ => True) (fun m a r hm hstep _ => ⟨hm.1.step hstep, hm.2.step hm.1 hstep⟩)
      (along_of_forall_mem (Q := fun _ => True) fun _ _ => trivial) hrun' ⟨locksKept_run hrun, ?_⟩
    exact ⟨hpoisoned, fun _ => id, Or.inl rfl, rfl, rfl, fun _ _ _ _ => Or.inl, fun _ _ _ => id⟩
  exact ⟨hinv.2, hinv.1.locksPanic hinv.2.poisoned⟩

/-- A rule for every request is registered, then a resource that cannot be built; a replacement and
a request arrive. -/
def ruleBeforeOverflow : Workload (Fin 3) Unit where
  task
    | 0 => ⟨false, [⟨.catchAll, .static {}, {}, {}, none, .null⟩]⟩
    | 1 => overflowingSeed.task false
    | 2 => ⟨true, []⟩
  request _ := ("GET", "/")

/-- The request matches the first rule and panics at its look-up, as does the replacement once it
has cleared the entries. -/
theorem poison_is_for_ever_after_overflow : ∃ (s s' : Sys (Fin 3) Unit) (outs outs' : List Unit),
    run (stepSys .checked ruleBeforeOverflow) (ruleBeforeOverflow.start .new)
        (List.replicate 8 (.admin 0) ++ List.replicate 5 (.admin 1)) = some (s, outs) ∧
      s.shared.poisoned = true ∧
      run (stepSys .checked ruleBeforeOverflow) s [.request () true, .admin 2] =
        some (s', outs') ∧
      StaysDown s s' ∧ (s'.request ()).LooksUp ∧
      (∃ t, stepSys .checked ruleBeforeOverflow s' (.request () true) = some (t, ()) ∧
        t.request () = .panicked) ∧
      ∃ t, stepSys .checked ruleBeforeOverflow s' (.admin 2) = some (t, ()) ∧
        t.admin 2 = .panicked := by
  obtain ⟨s, outs, hrun, hpoisoned, s', outs', hrun', hlooks, hlocks⟩ :
      ∃ (s : Sys (Fin 3) Unit) (outs : List Unit),
        run (stepSys .checked ruleBeforeOverflow) (ruleBeforeOverflow.start .new)
            (List.replicate 8 (.admin 0) ++ List.replicate 5 (.admin 1)) = some (s, outs) ∧
          s.shared.poisoned = true ∧ ∃ s' outs',
          run (stepSys .checked ruleBeforeOverflow) s [.request () true, .admin 2] =
            some (s', outs') ∧ (s'.request ()).LooksUp ∧ (s'.admin 2).Locks :=
    ⟨_, _, rfl, rfl, _, _, rfl, by trivial, by trivial⟩
  obtain ⟨hdown, hpanic⟩ := poison_is_for_ever hrun hpoisoned hrun'
  exact ⟨s, s', outs, outs', hrun, hpoisoned, hrun', hdown, hlooks,
    hpanic.request () true hlooks, hpanic.admin 2 hlocks⟩

end Mockinx
