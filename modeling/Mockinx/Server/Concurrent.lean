import Mockinx.Lib.Run
import Mockinx.Server.State

/-!
The server as a system of concurrent handlers. A step is what one handler does between two points
where another can run: one critical section, or one access under locks that it holds on to. A
handler that panics while it holds the two table locks leaves them poisoned, and whoever takes one
of them afterwards panics too.
-/

set_option autoImplicit false
set_option relaxedAutoImplicit false

namespace Mockinx

open Lib Lib.Run

/-- A handler of the registry whose body parsed: its rules, and whether it clears first. -/
structure AdminTask where
  replace : Bool
  rules : List Rule

/-- The next step of a registry handler. -/
inductive AdminPc where
  | clearEntries
  | clearRuntimes
  | clearCrud
  | resetCounter
  | lockRuntimes
  | lockCrud
  | fetchAdd
  | setRuntime (start i : ℕ)
  | insertCrud (start i : ℕ)
  | push (start i : ℕ)
  | unlockCrud
  | unlockRuntimes
  | done
  | panicked
  deriving DecidableEq

def AdminTask.first (task : AdminTask) : AdminPc :=
  if task.replace then .clearEntries else .lockRuntimes

def AdminTask.nextRule (task : AdminTask) (start i : ℕ) : AdminPc :=
  if i < task.rules.length then .setRuntime start i else .unlockCrud

/-- The progress of a request, with the objects that it has looked up. -/
inductive RequestPc (ι : Type) where
  | start
  | notFound
  | matched (e : RuleEntry ι)
  | check (e : RuleEntry ι) (runtime : Option (Arc ι BehaviorRuntime))
  | crudLookup (e : RuleEntry ι) (runtime : Option (Arc ι BehaviorRuntime))
  | served (e : RuleEntry ι) (runtime : Option (Arc ι BehaviorRuntime))
      (crud : Option (Arc ι CrudStore))
  | panicked

/-- The state that handlers share: the tables, and the locks on two of them. -/
structure Shared (ι : Type) where
  app : AppState ι
  runtimesLock : Option ι := none
  crudLock : Option ι := none
  poisoned : Bool := false

structure Sys (ι κ : Type) where
  shared : Shared ι
  admin : ι → AdminPc
  request : κ → RequestPc ι

/-- What the handlers are given: the parsed registry calls, and each request's method and path. -/
structure Workload (ι κ : Type) where
  task : ι → AdminTask
  request : κ → String × String

/-- A registry handler or a request moves. A request may be rejected or answered otherwise before
it needs the resource store. -/
inductive Action (ι κ : Type) where
  | admin (h : ι)
  | request (r : κ) (goesOn : Bool)

variable {ι κ : Type}

namespace Shared

def withApp (s : Shared ι) (app : AppState ι) : Shared ι := { s with app }

/-- A panic under the locks releases and poisons them. -/
def panic (s : Shared ι) : Shared ι :=
  { s with runtimesLock := none, crudLock := none, poisoned := true }

end Shared

/-- One step of a registry handler. -/
def stepAdmin (o : OverflowChecks) (task : AdminTask) (h : ι) (s : Shared ι) :
    AdminPc → Option (Shared ι × AdminPc)
  | .clearEntries => some (s.withApp s.app.clearEntries, .clearRuntimes)
  | .clearRuntimes =>
    if s.runtimesLock.isSome then none
    else if s.poisoned then some (s, .panicked)
    else some (s.withApp s.app.clearRuntimes, .clearCrud)
  | .clearCrud =>
    if s.crudLock.isSome then none
    else if s.poisoned then some (s, .panicked)
    else some (s.withApp s.app.clearCrud, .resetCounter)
  | .resetCounter => some (s.withApp s.app.resetCounter, .lockRuntimes)
  | .lockRuntimes =>
    if s.runtimesLock.isSome then none
    else if s.poisoned then some (s, .panicked)
    else some ({ s with runtimesLock := some h }, .lockCrud)
  | .lockCrud =>
    if s.crudLock.isSome then none
    else if s.poisoned then some (s.panic, .panicked)
    else some ({ s with crudLock := some h }, .fetchAdd)
  | .fetchAdd =>
    some (s.withApp (s.app.fetchAdd task.rules.length), task.nextRule s.app.stubCounter 0)
  | .setRuntime start i =>
    task.rules[i]?.map fun rule =>
      (s.withApp (s.app.setRuntime ⟨h, i⟩ rule (start + i)), .insertCrud start i)
  | .insertCrud start i =>
    task.rules[i]?.map fun rule =>
      match s.app.insertCrud o ⟨h, i⟩ rule (start + i) with
      | .ok app => (s.withApp app, .push start i)
      | .error _ => (s.panic, .panicked)
  | .push start i =>
    task.rules[i]?.map fun rule =>
      (s.withApp (s.app.push ⟨h, i⟩ rule (start + i)), task.nextRule start (i + 1))
  | .unlockCrud => some ({ s with crudLock := none }, .unlockRuntimes)
  | .unlockRuntimes => some ({ s with runtimesLock := none }, .done)
  | .done => none
  | .panicked => none

/-- One step of a request, which reads the shared state. A request that has its runtime always goes
on: how long it waits for a permit of the semaphore, for ever perhaps, is left out. -/
def stepRequest (s : Shared ι) (request : String × String) (goesOn : Bool) :
    RequestPc ι → Option (RequestPc ι)
  | .start =>
    match matchRequest s.app.entries request.1 request.2 with
    | some e => some (.matched e)
    | none => some .notFound
  | .matched e =>
    if s.runtimesLock.isSome then none
    else if s.poisoned then some .panicked
    else some (.check e (s.app.getRuntime e.index))
  | .check e runtime =>
    if goesOn && e.rule.reply.isCrud then some (.crudLookup e runtime)
    else some (.served e runtime none)
  | .crudLookup e runtime =>
    if s.crudLock.isSome then none
    else if s.poisoned then some .panicked
    else some (.served e runtime (s.app.getCrudStore e.index))
  | .notFound => none
  | .served _ _ _ => none
  | .panicked => none

variable [DecidableEq ι] [DecidableEq κ]

/-- One step of the system. -/
def stepSys (o : OverflowChecks) (w : Workload ι κ) (s : Sys ι κ) :
    Action ι κ → Option (Sys ι κ × Unit)
  | .admin h => (stepAdmin o (w.task h) h s.shared (s.admin h)).map fun r =>
      ({ s with shared := r.1, admin := Function.update s.admin h r.2 }, ())
  | .request r goesOn => (stepRequest s.shared (w.request r) goesOn (s.request r)).map fun pc =>
      ({ s with request := Function.update s.request r pc }, ())

/-- No handler has begun, and the tables are as given. -/
def Workload.start (w : Workload ι κ) (app : AppState ι) : Sys ι κ where
  shared := { app }
  admin h := (w.task h).first
  request _ := .start

omit [DecidableEq ι] [DecidableEq κ]

inductive AdminCase (o : OverflowChecks) (task : AdminTask) (h : ι) (s : Shared ι) :
    AdminPc → Shared ι × AdminPc → Prop
  | clearEntries : AdminCase o task h s .clearEntries (s.withApp s.app.clearEntries, .clearRuntimes)
  | clearRuntimes (free : s.runtimesLock = none) :
      AdminCase o task h s .clearRuntimes (s.withApp s.app.clearRuntimes, .clearCrud)
  | clearCrud (free : s.crudLock = none) :
      AdminCase o task h s .clearCrud (s.withApp s.app.clearCrud, .resetCounter)
  | resetCounter : AdminCase o task h s .resetCounter (s.withApp s.app.resetCounter, .lockRuntimes)
  | lockRuntimes (free : s.runtimesLock = none) :
      AdminCase o task h s .lockRuntimes ({ s with runtimesLock := some h }, .lockCrud)
  | lockCrud (free : s.crudLock = none) :
      AdminCase o task h s .lockCrud ({ s with crudLock := some h }, .fetchAdd)
  | fetchAdd : AdminCase o task h s .fetchAdd
      (s.withApp (s.app.fetchAdd task.rules.length), task.nextRule s.app.stubCounter 0)
  | setRuntime {start i : ℕ} {rule : Rule} (hrule : task.rules[i]? = some rule) :
      AdminCase o task h s (.setRuntime start i)
        (s.withApp (s.app.setRuntime ⟨h, i⟩ rule (start + i)), .insertCrud start i)
  | insertCrud {start i : ℕ} {rule : Rule} {app : AppState ι} (hrule : task.rules[i]? = some rule)
      (happ : s.app.insertCrud o ⟨h, i⟩ rule (start + i) = .ok app) :
      AdminCase o task h s (.insertCrud start i) (s.withApp app, .push start i)
  | push {start i : ℕ} {rule : Rule} (hrule : task.rules[i]? = some rule) :
      AdminCase o task h s (.push start i)
        (s.withApp (s.app.push ⟨h, i⟩ rule (start + i)), task.nextRule start (i + 1))
  | unlockCrud : AdminCase o task h s .unlockCrud ({ s with crudLock := none }, .unlockRuntimes)
  | unlockRuntimes : AdminCase o task h s .unlockRuntimes ({ s with runtimesLock := none }, .done)
  /-- A poisoned lock is taken by a handler that holds none. -/
  | panicOutside {pc : AdminPc}
      (hpc : pc = .clearRuntimes ∨ pc = .clearCrud ∨ pc = .lockRuntimes) :
      AdminCase o task h s pc (s, .panicked)
  /-- A panic of the lock or of a new resource store under the locks. -/
  | panicInside {pc : AdminPc} (hpc : pc = .lockCrud ∨ ∃ start i, pc = .insertCrud start i) :
      AdminCase o task h s pc (s.panic, .panicked)

theorem stepAdmin_cases {o : OverflowChecks} {task : AdminTask} {h : ι} {s : Shared ι}
    {pc : AdminPc} {r : Shared ι × AdminPc} (hstep : stepAdmin o task h s pc = some r) :
    AdminCase o task h s pc r := by
  cases pc with
  | clearEntries | resetCounter | fetchAdd | unlockCrud | unlockRuntimes =>
    simp only [stepAdmin, Option.some.injEq] at hstep
    subst hstep
    constructor
  | clearRuntimes =>
    simp only [stepAdmin] at hstep
    split_ifs at hstep with hlock hpoison
    · obtain rfl := Option.some.inj hstep
      exact .panicOutside (Or.inl rfl)
    · obtain rfl := Option.some.inj hstep
      exact .clearRuntimes (by simpa using hlock)
  | clearCrud =>
    simp only [stepAdmin] at hstep
    split_ifs at hstep with hlock hpoison
    · obtain rfl := Option.some.inj hstep
      exact .panicOutside (Or.inr (Or.inl rfl))
    · obtain rfl := Option.some.inj hstep
      exact .clearCrud (by simpa using hlock)
  | lockRuntimes =>
    simp only [stepAdmin] at hstep
    split_ifs at hstep with hlock hpoison
    · obtain rfl := Option.some.inj hstep
      exact .panicOutside (Or.inr (Or.inr rfl))
    · obtain rfl := Option.some.inj hstep
      exact .lockRuntimes (by simpa using hlock)
  | lockCrud =>
    simp only [stepAdmin] at hstep
    split_ifs at hstep with hlock hpoison
    · obtain rfl := Option.some.inj hstep
      exact .panicInside (Or.inl rfl)
    · obtain rfl := Option.some.inj hstep
      exact .lockCrud (by simpa using hlock)
  | setRuntime start i =>
    obtain ⟨rule, hrule, rfl⟩ := Option.map_eq_some_iff.mp hstep
    exact .setRuntime hrule
  | insertCrud start i =>
    obtain ⟨rule, hrule, rfl⟩ := Option.map_eq_some_iff.mp hstep
    cases happ : s.app.insertCrud o ⟨h, i⟩ rule (start + i) with
    | ok app => exact .insertCrud hrule happ
    | error p => exact .panicInside (Or.inr ⟨start, i, rfl⟩)
  | push start i =>
    obtain ⟨rule, hrule, rfl⟩ := Option.map_eq_some_iff.mp hstep
    exact .push hrule
  | done | panicked => cases hstep

end Mockinx
