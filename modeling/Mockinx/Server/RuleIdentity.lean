import Mathlib.Data.Fintype.Basic
import Mockinx.Server.Concurrent

/-!
Requests and the objects of the rule that they matched. A request looks up the runtime and the
resource store of its entry by an index, which a replacement hands out again; it finds the objects
of its own entry as long as no registration writes a slot that is still referred to.
-/

set_option autoImplicit false
set_option relaxedAutoImplicit false

namespace Mockinx

open Lib Lib.Run

variable {ι κ : Type}

def Own {α : Type} (origin : Origin ι) (slot : Option (Arc ι α)) : Prop :=
  ∀ a, slot = some a → a.origin = some origin

private theorem own_none {α : Type} (origin : Origin ι) :
    Own origin (none : Option (Arc ι α)) := nofun

private theorem own_some {α : Type} {origin : Origin ι} {a : Arc ι α} (h : a.origin = some origin) :
    Own origin (some a) := by
  intro a' ha'
  obtain rfl := Option.some.inj ha'
  exact h

/-- What a request has looked up was created for the entry that it matched. -/
def LooksUpOwn : RequestPc ι → Prop
  | .check e runtime | .crudLookup e runtime => Own e.origin runtime
  | .served e runtime crud => Own e.origin runtime ∧ Own e.origin crud
  | .start | .notFound | .matched _ | .panicked => True

def RequestPc.awaitsRuntime : RequestPc ι → Option (RuleEntry ι)
  | .matched e => some e
  | _ => none

def RequestPc.awaitsCrud : RequestPc ι → Option (RuleEntry ι)
  | .matched e | .check e _ => if e.rule.reply.isCrud then some e else none
  | .crudLookup e _ => some e
  | _ => none

def AdminPc.WritesRuntime (app : AppState ι) (idx : ℕ) : AdminPc → Prop
  | .setRuntime start i => idx = start + i ∨ app.runtimes.length ≤ idx ∧ idx < start + i
  | _ => False

instance (app : AppState ι) (idx : ℕ) : DecidablePred (AdminPc.WritesRuntime app idx)
  | .setRuntime start i =>
    inferInstanceAs (Decidable (idx = start + i ∨ app.runtimes.length ≤ idx ∧ idx < start + i))
  | .clearEntries | .clearRuntimes | .clearCrud | .resetCounter | .lockRuntimes | .lockCrud
  | .fetchAdd | .insertCrud _ _ | .push _ _ | .unlockCrud | .unlockRuntimes | .done
  | .panicked => .isFalse id

def AdminTask.WritesCrud (task : AdminTask) (idx : ℕ) : AdminPc → Prop
  | .insertCrud start i =>
    idx = start + i ∧ (task.rules[i]?.any fun rule => rule.reply.isCrud) = true
  | _ => False

instance (task : AdminTask) (idx : ℕ) : DecidablePred (task.WritesCrud idx)
  | .insertCrud start i => inferInstanceAs (Decidable
      (idx = start + i ∧ (task.rules[i]?.any fun rule => rule.reply.isCrud) = true))
  | .clearEntries | .clearRuntimes | .clearCrud | .resetCounter | .lockRuntimes | .lockCrud
  | .fetchAdd | .setRuntime _ _ | .push _ _ | .unlockCrud | .unlockRuntimes | .done
  | .panicked => .isFalse id

def SparesSlots (task : AdminTask) (s : Sys ι κ) (pc : AdminPc) : Prop :=
  (∀ e ∈ s.shared.app.entries, ¬ pc.WritesRuntime s.shared.app e.index ∧
      (e.rule.reply.isCrud = true → ¬ task.WritesCrud e.index pc)) ∧
    ∀ r, (∀ e ∈ (s.request r).awaitsRuntime, ¬ pc.WritesRuntime s.shared.app e.index) ∧
      ∀ e ∈ (s.request r).awaitsCrud, ¬ task.WritesCrud e.index pc

def Spares (w : Workload ι κ) (s : Sys ι κ) (a : Action ι κ) (_ : Sys ι κ × Unit) : Prop :=
  match a with
  | .admin h => SparesSlots (w.task h) s (s.admin h)
  | .request _ _ => True

instance [Fintype κ] (task : AdminTask) (s : Sys ι κ) (pc : AdminPc) :
    Decidable (SparesSlots task s pc) :=
  inferInstanceAs (Decidable (_ ∧ _))

instance [Fintype κ] (w : Workload ι κ) (s : Sys ι κ) (a : Action ι κ) (r : Sys ι κ × Unit) :
    Decidable (Spares w s a r) :=
  match a with
  | .admin h => inferInstanceAs (Decidable (SparesSlots (w.task h) s (s.admin h)))
  | .request _ _ => .isTrue trivial

def AdminPc.HoldsRuntimes : AdminPc → Prop
  | .lockCrud | .fetchAdd | .setRuntime _ _ | .insertCrud _ _ | .push _ _ | .unlockCrud
  | .unlockRuntimes => True
  | _ => False

def Exclusive (s : Shared ι) (admin : ι → AdminPc) : Prop :=
  ∀ h, (admin h).HoldsRuntimes → s.runtimesLock = some h

structure KeepsSlots (app : AppState ι) (e : RuleEntry ι) : Prop where
  runtime : Own e.origin (app.getRuntime e.index)
  crud : e.rule.reply.isCrud = true → Own e.origin (app.getCrudStore e.index)

def Registering (task : AdminTask) (h : ι) (app : AppState ι) : AdminPc → Prop
  | .insertCrud start i => Own ⟨h, i⟩ (app.getRuntime (start + i))
  | .push start i => Own ⟨h, i⟩ (app.getRuntime (start + i)) ∧
      ∀ rule, task.rules[i]? = some rule → rule.reply.isCrud = true →
        Own ⟨h, i⟩ (app.getCrudStore (start + i))
  | _ => True

structure Awaited (app : AppState ι) (pc : RequestPc ι) : Prop where
  runtime : ∀ e ∈ pc.awaitsRuntime, Own e.origin (app.getRuntime e.index)
  crud : ∀ e ∈ pc.awaitsCrud, Own e.origin (app.getCrudStore e.index)

structure Owned (w : Workload ι κ) (s : Sys ι κ) : Prop where
  exclusive : Exclusive s.shared s.admin
  entries : ∀ e ∈ s.shared.app.entries, KeepsSlots s.shared.app e
  registering : ∀ h, Registering (w.task h) h s.shared.app (s.admin h)
  awaited : ∀ r, Awaited s.shared.app (s.request r)
  looksUp : ∀ r, LooksUpOwn (s.request r)

section Steps

variable {o : OverflowChecks} {task : AdminTask} {h : ι} {s : Shared ι} {pc : AdminPc}
  {r : Shared ι × AdminPc}

private theorem AdminCase.runtimesLock (hcase : AdminCase o task h s pc r) :
    r.1.runtimesLock = s.runtimesLock ∧ (r.2.HoldsRuntimes → pc.HoldsRuntimes) ∨
      s.runtimesLock = none ∧ r.1.runtimesLock = some h ∨
      pc.HoldsRuntimes ∧ ¬ r.2.HoldsRuntimes := by
  cases hcase with
  | lockRuntimes free => exact Or.inr (Or.inl ⟨free, rfl⟩)
  | unlockRuntimes => exact Or.inr (Or.inr ⟨trivial, nofun⟩)
  | panicInside hpc =>
    refine Or.inr (Or.inr ⟨?_, nofun⟩)
    rcases hpc with rfl | ⟨_, _, rfl⟩ <;> trivial
  | clearEntries | clearRuntimes | clearCrud | resetCounter | panicOutside =>
    exact Or.inl ⟨rfl, nofun⟩
  | lockCrud | fetchAdd | setRuntime | insertCrud | push | unlockCrud =>
    exact Or.inl ⟨rfl, fun _ => trivial⟩

theorem Exclusive.step [DecidableEq ι] {admin : ι → AdminPc} (hs : Exclusive s admin)
    (hcase : AdminCase o task h s (admin h) r) :
    Exclusive r.1 (Function.update admin h r.2) := by
  refine (Function.forall_update_iff admin fun h' pc =>
    pc.HoldsRuntimes → r.1.runtimesLock = some h').mpr ⟨?_, ?_⟩
  · intro hholds
    rcases hcase.runtimesLock with ⟨hlock, hback⟩ | ⟨_, hlock⟩ | ⟨_, hnot⟩
    · rw [hlock]
      exact hs h (hback hholds)
    · exact hlock
    · exact absurd hholds hnot
  · intro h' hh hholds
    have hmine := hs h' hholds
    rcases hcase.runtimesLock with ⟨hlock, _⟩ | ⟨hfree, _⟩ | ⟨hholds', _⟩
    · rw [hlock, hmine]
    · rw [hfree] at hmine
      cases hmine
    · rw [hs h hholds'] at hmine
      exact absurd (Option.some.inj hmine).symm hh

private theorem AdminCase.own_runtime (hcase : AdminCase o task h s pc r) {origin : Origin ι}
    {idx : ℕ} (hown : Own origin (s.app.getRuntime idx)) (hspared : ¬ pc.WritesRuntime s.app idx) :
    Own origin (r.1.app.getRuntime idx) := by
  cases hcase with
  | clearRuntimes => exact own_none origin
  | @setRuntime start i rule hrule =>
    rw [AdminPc.WritesRuntime, not_or] at hspared
    simpa only [Shared.withApp,
      AppState.getRuntime_setRuntime_of_ne s.app _ rule hspared.1 hspared.2] using hown
  | insertCrud hrule happ =>
    rw [Shared.withApp, AppState.getRuntime, (AppState.insertCrud_spec happ).2.1]
    exact hown
  | _ => exact hown

private theorem AdminCase.own_crud (hcase : AdminCase o task h s pc r) {origin : Origin ι} {idx : ℕ}
    (hown : Own origin (s.app.getCrudStore idx)) (hspared : ¬ task.WritesCrud idx pc) :
    Own origin (r.1.app.getCrudStore idx) := by
  cases hcase with
  | clearCrud => exact own_none origin
  | @insertCrud start i rule app hrule happ =>
    obtain ⟨_, _, _, hcrud, hother⟩ := AppState.insertCrud_spec happ
    simp only [AdminTask.WritesCrud, hrule, Option.any_some, not_and] at hspared
    change Own origin (app.crudStores idx)
    cases hr : rule.reply.isCrud with
    | false =>
      rw [hother hr]
      exact hown
    | true =>
      obtain ⟨store, hstore⟩ := hcrud hr
      rw [hstore, Function.update_of_ne fun he => hspared he hr]
      exact hown
  | _ => exact hown

private theorem AdminCase.keepsSlots_of_new (hcase : AdminCase o task h s pc r)
    (hreg : Registering task h s.app pc) {e : RuleEntry ι} (he : e ∈ r.1.app.entries) :
    e ∈ s.app.entries ∨ KeepsSlots r.1.app e := by
  cases hcase with
  | clearEntries => cases he
  | insertCrud hrule happ =>
    rw [Shared.withApp, (AppState.insertCrud_spec happ).1] at he
    exact Or.inl he
  | push hrule =>
    rcases List.mem_append.mp he with he | he
    · exact Or.inl he
    · obtain rfl := List.mem_singleton.mp he
      exact Or.inr ⟨hreg.1, hreg.2 _ hrule⟩
  | _ => exact Or.inl he

private theorem AdminCase.registering (hcase : AdminCase o task h s pc r)
    (hreg : Registering task h s.app pc) : Registering task h r.1.app r.2 := by
  cases hcase with
  | @setRuntime start i rule hrule =>
    rw [Shared.withApp, Registering, AppState.getRuntime_setRuntime_self]
    exact own_some rfl
  | @insertCrud start i rule app hrule happ =>
    obtain ⟨_, hr, _, hcrud, _⟩ := AppState.insertCrud_spec happ
    refine ⟨?_, ?_⟩
    · change Own _ (app.runtimes[start + i]?)
      rw [hr]
      exact hreg
    · intro rule' hrule' hcrud'
      obtain rfl := Option.some.inj (hrule.symm.trans hrule')
      obtain ⟨store, hstore⟩ := hcrud hcrud'
      change Own _ (app.crudStores (start + i))
      rw [hstore, Function.update_self]
      exact own_some rfl
  | fetchAdd | push =>
    rw [AdminTask.nextRule]
    split_ifs <;> trivial
  | _ => trivial

private theorem AdminPc.WritesRuntime.holds {app : AppState ι} {idx : ℕ}
    (hw : pc.WritesRuntime app idx) : pc.HoldsRuntimes := by
  cases pc <;> trivial

private theorem AdminTask.WritesCrud.holds {idx : ℕ} (hw : task.WritesCrud idx pc) :
    pc.HoldsRuntimes := by
  cases pc <;> trivial

private theorem Registering.of_other {task' : AdminTask} {h' : ι} {pc' : AdminPc}
    (hreg : Registering task' h' s.app pc') (hcase : AdminCase o task h s pc r)
    (hlock : pc'.HoldsRuntimes → ¬ pc.HoldsRuntimes) : Registering task' h' r.1.app pc' := by
  cases pc' with
  | insertCrud start i =>
    have hnot := hlock trivial
    exact hcase.own_runtime hreg fun hw => hnot hw.holds
  | push start i =>
    have hnot := hlock trivial
    refine ⟨hcase.own_runtime hreg.1 fun hw => hnot hw.holds, ?_⟩
    intro rule hrule hcrud
    exact hcase.own_crud (hreg.2 rule hrule hcrud) fun hw => hnot hw.holds
  | _ => trivial

end Steps

private theorem awaited_of_none {app : AppState ι} {pc : RequestPc ι} (hr : pc.awaitsRuntime = none)
    (hc : pc.awaitsCrud = none) : Awaited app pc := by
  constructor
  · simp [hr]
  · simp [hc]

private theorem owned_start (w : Workload ι κ) : Owned w (w.start .new) where
  exclusive h hholds := by
    change (w.task h).first.HoldsRuntimes at hholds
    rw [AdminTask.first] at hholds
    split_ifs at hholds <;> exact hholds.elim
  entries e he := by simp [Workload.start, AppState.new] at he
  registering h := by
    change Registering _ _ _ (w.task h).first
    rw [AdminTask.first]
    split_ifs <;> trivial
  awaited _ := awaited_of_none rfl rfl
  looksUp _ := trivial

private theorem stepRequest_own {s : Shared ι} {request : String × String} {goesOn : Bool}
    {pc pc' : RequestPc ι} (hstep : stepRequest s request goesOn pc = some pc')
    (hentries : ∀ e ∈ s.app.entries, KeepsSlots s.app e) (hawaited : Awaited s.app pc)
    (hlooks : LooksUpOwn pc) : Awaited s.app pc' ∧ LooksUpOwn pc' := by
  cases pc with
  | start =>
    simp only [stepRequest] at hstep
    cases he : matchRequest s.app.entries request.1 request.2 with
    | none =>
      rw [he] at hstep
      obtain rfl := Option.some.inj hstep
      exact ⟨awaited_of_none rfl rfl, trivial⟩
    | some e =>
      rw [he] at hstep
      obtain rfl := Option.some.inj hstep
      have hkeeps := hentries e (mem_of_matchRequest he)
      refine ⟨⟨?_, ?_⟩, trivial⟩
      · intro e' he'
        obtain rfl := Option.some.inj he'
        exact hkeeps.runtime
      · intro e' he'
        obtain ⟨hcrud, he'⟩ := Option.ite_none_right_eq_some.mp he'
        obtain rfl := Option.some.inj he'
        exact hkeeps.crud hcrud
  | matched e =>
    simp only [stepRequest] at hstep
    split_ifs at hstep
    · obtain rfl := Option.some.inj hstep
      exact ⟨awaited_of_none rfl rfl, trivial⟩
    · obtain rfl := Option.some.inj hstep
      refine ⟨⟨?_, hawaited.crud⟩, hawaited.runtime e rfl⟩
      simp [RequestPc.awaitsRuntime]
  | check e runtime =>
    simp only [stepRequest] at hstep
    split_ifs at hstep with hgo
    · obtain rfl := Option.some.inj hstep
      have hcrud : e.rule.reply.isCrud = true := (Bool.and_eq_true_iff.mp hgo).2
      refine ⟨⟨?_, ?_⟩, hlooks⟩
      · simp [RequestPc.awaitsRuntime]
      · intro e' he'
        obtain rfl := Option.some.inj he'
        exact hawaited.crud e (Option.ite_none_right_eq_some.mpr ⟨hcrud, rfl⟩)
    · obtain rfl := Option.some.inj hstep
      have hruntime : Own e.origin runtime := hlooks
      exact ⟨awaited_of_none rfl rfl, hruntime, own_none e.origin⟩
  | crudLookup e runtime =>
    simp only [stepRequest] at hstep
    split_ifs at hstep
    · obtain rfl := Option.some.inj hstep
      exact ⟨awaited_of_none rfl rfl, trivial⟩
    · obtain rfl := Option.some.inj hstep
      have hruntime : Own e.origin runtime := hlooks
      have hcrud : Own e.origin (s.app.getCrudStore e.index) := hawaited.crud e rfl
      exact ⟨awaited_of_none rfl rfl, hruntime, hcrud⟩
  | notFound | served | panicked => cases hstep

variable [DecidableEq ι] [DecidableEq κ]

omit [DecidableEq κ] in
private theorem Owned.step_admin {o : OverflowChecks} {w : Workload ι κ} {s : Sys ι κ} {h : ι}
    {q : Shared ι × AdminPc} (hs : Owned w s)
    (hcase : AdminCase o (w.task h) h s.shared (s.admin h) q)
    (hspares : SparesSlots (w.task h) s (s.admin h)) :
    Owned w { s with shared := q.1, admin := Function.update s.admin h q.2 } where
  exclusive := hs.exclusive.step hcase
  entries e he := by
    rcases hcase.keepsSlots_of_new (hs.registering h) he with hold | hnew
    · have hkeeps := hs.entries e hold
      obtain ⟨hruntime, hcrud⟩ := hspares.1 e hold
      exact ⟨hcase.own_runtime hkeeps.runtime hruntime,
        fun hc => hcase.own_crud (hkeeps.crud hc) (hcrud hc)⟩
    · exact hnew
  registering := by
    refine (Function.forall_update_iff s.admin fun h' pc =>
      Registering (w.task h') h' q.1.app pc).mpr ⟨hcase.registering (hs.registering h), ?_⟩
    intro h' hh
    refine (hs.registering h').of_other hcase fun hholds hmine => ?_
    have hlock := hs.exclusive h' hholds
    rw [hs.exclusive h hmine] at hlock
    exact hh (Option.some.inj hlock).symm
  awaited r := by
    obtain ⟨hruntime, hcrud⟩ := hspares.2 r
    exact ⟨fun e he => hcase.own_runtime ((hs.awaited r).runtime e he) (hruntime e he),
      fun e he => hcase.own_crud ((hs.awaited r).crud e he) (hcrud e he)⟩
  looksUp := hs.looksUp

/-- The step lemma. -/
private theorem Owned.step {o : OverflowChecks} {w : Workload ι κ} {s : Sys ι κ} {a : Action ι κ}
    {r : Sys ι κ × Unit} (hs : Owned w s) (hstep : stepSys o w s a = some r)
    (hspares : Spares w s a r) : Owned w r.1 := by
  cases a with
  | admin h =>
    obtain ⟨q, hq, rfl⟩ := Option.map_eq_some_iff.mp hstep
    exact hs.step_admin (stepAdmin_cases hq) hspares
  | request k goesOn =>
    obtain ⟨pc, hpc, rfl⟩ := Option.map_eq_some_iff.mp hstep
    have hown := stepRequest_own hpc hs.entries (hs.awaited k) (hs.looksUp k)
    refine ⟨hs.exclusive, hs.entries, hs.registering, ?_, ?_⟩
    · exact (Function.forall_update_iff s.request fun _ pc => Awaited s.shared.app pc).mpr
        ⟨hown.1, fun k' _ => hs.awaited k'⟩
    · exact (Function.forall_update_iff s.request fun _ pc => LooksUpOwn pc).mpr
        ⟨hown.2, fun k' _ => hs.looksUp k'⟩

/-- Over every run whose registrations spare the slots that are referred to, each request looks up
the runtime and the resource store of the entry that it matched. -/
theorem looks_up_own_of_spares {o : OverflowChecks} {w : Workload ι κ}
    {acts : List (Action ι κ)} {s : Sys ι κ} {outs : List Unit}
    (hrun : run (stepSys o w) (w.start .new) acts = some (s, outs))
    (hspares : Along (stepSys o w) (Spares w) (w.start .new) acts) (r : κ) :
    LooksUpOwn (s.request r) := by
  have hs : Owned w s :=
    run_inv_of_along (fun s a r hs hstep hc => hs.step hstep hc) hspares hrun (owned_start w)
  exact hs.looksUp r

/-- A resource is added, and later replaced by another one. -/
def addThenReplace : Workload Bool Unit where
  task replace := ⟨replace, [⟨.catchAll, .crud {} ∅, {}, {}, none, .null⟩]⟩
  request _ := ("GET", "/")

theorem looks_up_own_of_spares_between : ∃ (s : Sys Bool Unit) (outs : List Unit),
    run (stepSys .checked addThenReplace) (addThenReplace.start .new)
        (List.replicate 8 (.admin false) ++ List.replicate 4 (.request () true) ++
          List.replicate 12 (.admin true)) = some (s, outs) ∧ LooksUpOwn (s.request ()) := by
  refine ⟨_, _, rfl, ?_⟩
  have hrun : run (stepSys .checked addThenReplace) (addThenReplace.start .new)
      (List.replicate 8 (.admin false) ++ List.replicate 4 (.request () true) ++
        List.replicate 12 (.admin true)) = some _ := rfl
  exact looks_up_own_of_spares hrun (by decide) ()

/-- The replacement comes between the match and the lookups: the new rule's runtime admits the
request for the old one. -/
theorem runtime_of_another_rule : ∃ (s : Sys Bool Unit) (outs : List Unit),
    run (stepSys .checked addThenReplace) (addThenReplace.start .new)
        (List.replicate 8 (.admin false) ++ [.request () true] ++
          List.replicate 12 (.admin true) ++ [.request () true]) = some (s, outs) ∧
      ¬ LooksUpOwn (s.request ()) := by
  refine ⟨_, _, rfl, fun hown => ?_⟩
  have horigin : some (Origin.mk true 0) = some (Origin.mk false 0) := hown _ rfl
  simp at horigin

end Mockinx
