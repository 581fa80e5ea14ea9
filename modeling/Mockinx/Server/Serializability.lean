import Mathlib.Data.Fintype.Basic
import Mockinx.Lib.Serial
import Mockinx.Server.Concurrent

/-!
Serializability of the registry's handlers. A replacement lets go of every lock between its clearing
steps, so it has to run alone; where each handler begins while no other one is under way, the tables
end as some order of whole handlers leaves them.
-/

set_option autoImplicit false
set_option relaxedAutoImplicit false

namespace Mockinx

open Lib Lib.Run Lib.Serial

variable {ι κ : Type}

def AdminTask.runAlone (o : OverflowChecks) (task : AdminTask) (h : ι) (app : AppState ι) :
    Except Panic (AppState ι) :=
  (if task.replace then app.clearAll else app).registerRules o h task.rules

def Workload.runInOrder (o : OverflowChecks) (w : Workload ι κ) (order : List ι)
    (app : AppState ι) : Except Panic (AppState ι) :=
  order.foldlM (fun app h => (w.task h).runAlone o h app) app

def AdminPc.Settled (pc : AdminPc) : Prop :=
  pc = .unlockCrud ∨ pc = .unlockRuntimes ∨ pc = .done

instance : DecidablePred AdminPc.Settled :=
  fun pc => inferInstanceAs (Decidable (pc = .unlockCrud ∨ pc = .unlockRuntimes ∨ pc = .done))

def AdminTask.UnderWay (task : AdminTask) (pc : AdminPc) : Prop :=
  pc ≠ task.first ∧ ¬ pc.Settled ∧ pc ≠ .panicked

instance (task : AdminTask) : DecidablePred task.UnderWay :=
  fun pc => inferInstanceAs (Decidable (pc ≠ task.first ∧ ¬ pc.Settled ∧ pc ≠ .panicked))

def AdminPc.Clearing (pc : AdminPc) : Prop :=
  pc = .clearEntries ∨ pc = .clearRuntimes ∨ pc = .clearCrud ∨ pc = .resetCounter

def AdminTask.remaining (o : OverflowChecks) (task : AdminTask) (h : ι) :
    AdminPc → AppState ι → Except Panic (AppState ι)
  | .clearEntries, app => app.clearAll.registerRules o h task.rules
  | .clearRuntimes, app =>
    app.clearRuntimes.clearCrud.resetCounter.registerRules o h task.rules
  | .clearCrud, app => app.clearCrud.resetCounter.registerRules o h task.rules
  | .resetCounter, app => app.resetCounter.registerRules o h task.rules
  | .lockRuntimes, app | .lockCrud, app | .fetchAdd, app => app.registerRules o h task.rules
  | .setRuntime start i, app => AppState.registerFrom o h start i (task.rules.drop i) app
  | .insertCrud start i, app =>
    match task.rules[i]? with
    | some rule =>
      match app.insertCrud o ⟨h, i⟩ rule (start + i) with
      | .ok app => AppState.registerFrom o h start (i + 1) (task.rules.drop (i + 1))
          (app.push ⟨h, i⟩ rule (start + i))
      | .error p => .error p
    | none => .ok app
  | .push start i, app =>
    match task.rules[i]? with
    | some rule => AppState.registerFrom o h start (i + 1) (task.rules.drop (i + 1))
        (app.push ⟨h, i⟩ rule (start + i))
    | none => .ok app
  | .unlockCrud, app | .unlockRuntimes, app | .done, app | .panicked, app => .ok app

section Steps

variable {o : OverflowChecks} {task : AdminTask} {h : ι} {s : Shared ι} {pc : AdminPc}
  {r : Shared ι × AdminPc}

private theorem AdminTask.remaining_first (app : AppState ι) :
    task.remaining o h task.first app = task.runAlone o h app := by
  cases hr : task.replace <;> simp [first, runAlone, remaining, hr]

private theorem AdminPc.Settled.remaining (hpc : pc.Settled) (app : AppState ι) :
    task.remaining o h pc app = .ok app := by
  rcases hpc with rfl | rfl | rfl <;> rfl

private theorem AdminTask.remaining_nextRule (start i : ℕ) (app : AppState ι) :
    task.remaining o h (task.nextRule start i) app =
      AppState.registerFrom o h start i (task.rules.drop i) app := by
  rw [nextRule]
  split_ifs with hi
  · rfl
  · rw [List.drop_eq_nil_of_le (not_lt.mp hi)]
    rfl

private theorem drop_of_getElem? {rules : List Rule} {i : ℕ} {rule : Rule}
    (h : rules[i]? = some rule) :
    rules.drop i = rule :: rules.drop (i + 1) := by
  obtain ⟨hi, rfl⟩ := List.getElem?_eq_some_iff.mp h
  exact List.drop_eq_getElem_cons hi

private theorem AdminCase.remaining_eq (hcase : AdminCase o task h s pc r) (hok : r.2 ≠ .panicked) :
    task.remaining o h r.2 r.1.app = task.remaining o h pc s.app := by
  cases hcase with
  | fetchAdd => exact task.remaining_nextRule _ 0 _
  | @setRuntime start i rule hrule =>
    simp only [AdminTask.remaining, hrule, drop_of_getElem? hrule, AppState.registerFrom,
      AppState.registerRule, Shared.withApp]
    cases (s.app.setRuntime ⟨h, i⟩ rule (start + i)).insertCrud o ⟨h, i⟩ rule (start + i) <;> rfl
  | insertCrud hrule happ => simp only [AdminTask.remaining, hrule, happ, Shared.withApp]
  | push hrule =>
    rw [task.remaining_nextRule]
    simp only [AdminTask.remaining, hrule, Shared.withApp]
  | panicOutside | panicInside => exact absurd rfl hok
  | clearEntries | clearRuntimes | clearCrud | resetCounter | lockRuntimes | lockCrud
  | unlockCrud | unlockRuntimes => rfl

private theorem AdminCase.settled (hcase : AdminCase o task h s pc r) (hpc : pc.Settled) :
    r.2.Settled ∧ r.1.app = s.app := by
  rcases hpc with rfl | rfl | rfl
  · cases hcase with
    | unlockCrud => exact ⟨Or.inr (Or.inl rfl), rfl⟩
    | panicOutside h => simp at h
    | panicInside h => simp at h
  · cases hcase with
    | unlockRuntimes => exact ⟨Or.inr (Or.inr rfl), rfl⟩
    | panicOutside h => simp at h
    | panicInside h => simp at h
  · cases hcase with
    | panicOutside h => simp at h
    | panicInside h => simp at h

private theorem AdminTask.nextRule_cases (start i : ℕ) :
    task.nextRule start i = .setRuntime start i ∨ task.nextRule start i = .unlockCrud := by
  rw [nextRule]
  split_ifs
  · exact Or.inl rfl
  · exact Or.inr rfl

private theorem AdminCase.moves (hcase : AdminCase o task h s pc r)
    (hclears : pc.Clearing → task.replace = true) :
    (r.2.Clearing → task.replace = true) ∧ r.2 ≠ task.first := by
  have hfirst : task.first = .clearEntries ∨ task.replace = false ∧ task.first = .lockRuntimes := by
    cases hr : task.replace <;> simp [AdminTask.first, hr]
  cases hcase with
  | clearEntries | clearRuntimes | clearCrud =>
    have hr := hclears (by simp [AdminPc.Clearing])
    simp [AdminTask.first, hr]
  | resetCounter =>
    have hr := hclears (by simp [AdminPc.Clearing])
    simp [AdminTask.first, hr]
  | fetchAdd =>
    rcases task.nextRule_cases s.app.stubCounter 0 with hn | hn <;>
      rcases hfirst with hf | ⟨_, hf⟩ <;> simp [hn, hf, AdminPc.Clearing]
  | @push start i =>
    rcases task.nextRule_cases start (i + 1) with hn | hn <;>
      rcases hfirst with hf | ⟨_, hf⟩ <;> simp [hn, hf, AdminPc.Clearing]
  | _ => rcases hfirst with hf | ⟨_, hf⟩ <;> simp [hf, AdminPc.Clearing]

end Steps

def Workload.transactions (o : OverflowChecks) (w : Workload ι κ) :
    Transactions (AppState ι) ι AdminPc Panic where
  first h := (w.task h).first
  settled := AdminPc.Settled
  failed pc := pc = .panicked
  rest h := (w.task h).remaining o h
  whole h := (w.task h).runAlone o h
  rest_first _ app := AdminTask.remaining_first app
  rest_settled _ _ app hpc := hpc.remaining app

structure AppState.Indexed (app : AppState ι) : Prop where
  nodup : (app.entries.map (·.index)).Nodup
  lt : ∀ e ∈ app.entries, e.index < app.stubCounter

private theorem AdminTask.runAlone_entries {o : OverflowChecks} {task : AdminTask} {h : ι}
    {app app' : AppState ι} (hrun : task.runAlone o h app = .ok app') :
    ∃ base : AppState ι, (base = app.clearAll ∧ task.replace = true ∨
        base = app ∧ task.replace = false) ∧
      app'.entries = base.entries ++ AppState.newEntries h base.stubCounter 0 task.rules ∧
      app'.stubCounter = base.stubCounter + task.rules.length := by
  refine ⟨if task.replace then app.clearAll else app, ?_, AppState.registerFrom_entries hrun⟩
  cases task.replace <;> simp

private theorem AppState.Indexed.runAlone {o : OverflowChecks} {task : AdminTask} {h : ι}
    {app app' : AppState ι} (hi : app.Indexed) (hrun : task.runAlone o h app = .ok app') :
    app'.Indexed := by
  obtain ⟨base, hbase, he, hc⟩ := AdminTask.runAlone_entries hrun
  have hb : base.Indexed := by
    rcases hbase with ⟨rfl, _⟩ | ⟨rfl, _⟩
    · exact ⟨List.nodup_nil, fun e hmem => nomatch hmem⟩
    · exact hi
  have hnew : ∀ e ∈ newEntries h base.stubCounter 0 task.rules,
      base.stubCounter ≤ e.index ∧ e.index < base.stubCounter + task.rules.length := by
    intro e hmem
    have := List.mem_map_of_mem (f := fun e : RuleEntry ι => e.index) hmem
    rw [newEntries_index] at this
    simpa using this
  constructor
  · rw [he, List.map_append, newEntries_index]
    refine List.nodup_append.mpr ⟨hb.nodup, List.nodup_range' .., ?_⟩
    intro a ha b hmem
    obtain ⟨e, hmem', rfl⟩ := List.mem_map.mp ha
    have := hb.lt e hmem'
    simp at hmem
    omega
  · intro e hmem
    rw [he] at hmem
    rw [hc]
    rcases List.mem_append.mp hmem with hmem | hmem
    · have := hb.lt e hmem
      omega
    · exact (hnew e hmem).2

private theorem AdminTask.handler_of_mem {o : OverflowChecks} {task : AdminTask} {h : ι}
    {app app' : AppState ι} (hrun : task.runAlone o h app = .ok app') {e : RuleEntry ι}
    (he : e ∈ app'.entries) :
    e.origin.handler = h ∨ e ∈ app.entries ∧ task.replace = false := by
  obtain ⟨base, hbase, hentries, _⟩ := AdminTask.runAlone_entries hrun
  rw [hentries] at he
  rcases List.mem_append.mp he with hmem | hmem
  · rcases hbase with ⟨rfl, _⟩ | ⟨rfl, hr⟩
    · cases hmem
    · exact Or.inr ⟨hmem, hr⟩
  · exact Or.inl (AppState.handler_of_mem_newEntries hmem)

def AppState.Live (app : AppState ι) (h : ι) : Prop := ∃ e ∈ app.entries, e.origin.handler = h

structure SerialSoFar (o : OverflowChecks) (w : Workload ι κ) (app : AppState ι) (s : Sys ι κ) :
    Prop where
  clears : ∀ h, (s.admin h).Clearing → (w.task h).replace = true
  serial : (∃ h, s.admin h = .panicked) ∨
    ∃ order m, (w.transactions o).Serialized app s.admin s.shared.app order m

private theorem serialSoFar_start (o : OverflowChecks) (w : Workload ι κ) (app : AppState ι) :
    SerialSoFar o w app (w.start app) where
  clears h hc := by
    change (w.task h).first.Clearing at hc
    cases hr : (w.task h).replace with
    | true => rfl
    | false => simp [AdminTask.first, hr, AdminPc.Clearing] at hc
  serial := by
    refine Or.inr ⟨[], app, Transactions.serialized_start fun h hs => ?_⟩
    change (w.task h).first.Settled at hs
    rw [AdminTask.first] at hs
    split_ifs at hs <;> simp [AdminPc.Settled] at hs

variable [DecidableEq ι] [DecidableEq κ]

/-- A handler begins only while no other one is under way. -/
def BeginsAlone (w : Workload ι κ) (s : Sys ι κ) (a : Action ι κ) (_ : Sys ι κ × Unit) : Prop :=
  match a with
  | .admin h => s.admin h = (w.task h).first →
      ∀ h', h' ≠ h → ¬ (w.task h').UnderWay (s.admin h')
  | .request _ _ => True

instance [Fintype ι] (w : Workload ι κ) (s : Sys ι κ) (a : Action ι κ) (r : Sys ι κ × Unit) :
    Decidable (BeginsAlone w s a r) :=
  match a with
  | .admin h => inferInstanceAs (Decidable (s.admin h = (w.task h).first →
      ∀ h', h' ≠ h → ¬ (w.task h').UnderWay (s.admin h')))
  | .request _ _ => .isTrue trivial

/-- The step lemma. -/
private theorem SerialSoFar.step {o : OverflowChecks} {w : Workload ι κ} {app : AppState ι}
    {s : Sys ι κ} {a : Action ι κ} {r : Sys ι κ × Unit} (hs : SerialSoFar o w app s)
    (hstep : stepSys o w s a = some r) (halone : BeginsAlone w s a r) :
    SerialSoFar o w app r.1 := by
  cases a with
  | request q goesOn =>
    obtain ⟨pc, _, rfl⟩ := Option.map_eq_some_iff.mp hstep
    exact ⟨hs.clears, hs.serial⟩
  | admin h =>
    obtain ⟨q, hq, rfl⟩ := Option.map_eq_some_iff.mp hstep
    have hcase := stepAdmin_cases hq
    obtain ⟨hclears, hfirst⟩ := hcase.moves (hs.clears h)
    refine ⟨?_, ?_⟩
    · exact (Function.forall_update_iff s.admin fun h' pc =>
        pc.Clearing → (w.task h').replace = true).mpr ⟨hclears, fun h' _ => hs.clears h'⟩
    · by_cases hpanic : q.2 = .panicked
      · exact Or.inl ⟨h, by simp [hpanic]⟩
      have hpc : s.admin h ≠ .panicked := by
        intro hp
        rw [hp] at hq
        cases hq
      rcases hs.serial with ⟨h', hp⟩ | ⟨order, m, hser⟩
      · refine Or.inl ⟨h', ?_⟩
        have hne : h' ≠ h := fun he => hpc (he ▸ hp)
        simp only [Function.update_of_ne hne, hp]
      · right
        by_cases hset : (s.admin h).Settled
        · obtain ⟨hset', happ⟩ := hcase.settled hset
          refine ⟨order, m, ?_⟩
          simp only [happ]
          exact hser.step_settled hset hset'
        · exact hser.step halone ⟨hset, hpc⟩ ⟨hfirst, hpanic⟩ (hcase.remaining_eq hpanic)

omit [DecidableEq κ] in
private theorem idxOf_le_of_live {o : OverflowChecks} {w : Workload ι κ} {order : List ι}
    {app app' : AppState ι} (hrun : w.runInOrder o order app = .ok app') (hnodup : order.Nodup)
    {h h' : ι} (hmem : h ∈ order) (hreplace : (w.task h).replace = true) (hlive : app'.Live h') :
    order.idxOf h ≤ order.idxOf h' := by
  induction order using List.reverseRecOn generalizing app' with
  | nil => cases hmem
  | append_singleton order k ih =>
    obtain ⟨m, hm, hk⟩ := (w.transactions o).runAll_concat.mp hrun
    have hnot : k ∉ order := fun hin => by
      have := (List.nodup_append.mp hnodup).2.2 k hin k (List.mem_singleton_self k)
      exact this rfl
    obtain ⟨e, he, rfl⟩ := hlive
    rcases AdminTask.handler_of_mem hk he with hown | ⟨hold, hkeep⟩
    · rw [hown]
      have hle := List.idxOf_lt_length_of_mem hmem
      rw [List.length_append, List.length_singleton] at hle
      rw [List.idxOf_append_of_notMem hnot, List.idxOf_cons_self]
      omega
    · have hin : h ∈ order := by
        rcases List.mem_append.mp hmem with hin | hin
        · exact hin
        · rw [List.mem_singleton] at hin
          rw [hin, hkeep] at hreplace
          cases hreplace
      have hi := ih hm (List.nodup_append.mp hnodup).1 hin ⟨e, hold, rfl⟩
      rw [List.idxOf_append_of_mem hin]
      by_cases hin' : e.origin.handler ∈ order
      · rwa [List.idxOf_append_of_mem hin']
      · have hlt := List.idxOf_lt_length_of_mem hin
        rw [List.idxOf_append_of_notMem hin']
        omega

/-- The tables are what the handlers leave when they run one after the other in some order, so
that indices stay distinct and one of two replacements is gone. -/
structure SerialOutcome (o : OverflowChecks) (w : Workload ι κ) (app app' : AppState ι) : Prop where
  order : ∃ order : List ι, order.Nodup ∧ (∀ h, h ∈ order) ∧
    w.runInOrder o order app = .ok app'
  indices : app.Indexed → (app'.entries.map (·.index)).Nodup
  oneReplacement : ∀ h h', h ≠ h' → (w.task h).replace = true → (w.task h').replace = true →
    ¬ (app'.Live h ∧ app'.Live h')

omit [DecidableEq κ] in
private theorem serialOutcome_of_order {o : OverflowChecks} {w : Workload ι κ} {order : List ι}
    {app app' : AppState ι} (hnodup : order.Nodup) (hall : ∀ h, h ∈ order)
    (hrun : w.runInOrder o order app = .ok app') : SerialOutcome o w app app' where
  order := ⟨order, hnodup, hall, hrun⟩
  indices hi := ((w.transactions o).runAll_inv (I := AppState.Indexed)
    (fun _ _ _ hi hrun => hi.runAlone hrun) hrun hi).nodup
  oneReplacement h h' hne hr hr' hlive := by
    have hle := idxOf_le_of_live hrun hnodup (hall h) hr hlive.2
    have hle' := idxOf_le_of_live hrun hnodup (hall h') hr' hlive.1
    exact hne ((List.idxOf_inj (hall h)).mp (le_antisymm hle hle'))

/-- Over every run in which each handler begins alone, once all handlers are done the outcome is a
serial one. -/
theorem serial_of_begins_alone {o : OverflowChecks} {w : Workload ι κ} {app : AppState ι}
    {acts : List (Action ι κ)} {s : Sys ι κ} {outs : List Unit}
    (hrun : run (stepSys o w) (w.start app) acts = some (s, outs))
    (halone : Along (stepSys o w) (BeginsAlone w) (w.start app) acts)
    (hdone : ∀ h, s.admin h = .done) : SerialOutcome o w app s.shared.app := by
  have hs : SerialSoFar o w app s :=
    run_inv_of_along (fun s a r hs hstep hc => hs.step hstep hc) halone hrun
      (serialSoFar_start o w app)
  rcases hs.serial with ⟨h, hp⟩ | ⟨order, m, hser⟩
  · rw [hdone h] at hp
    cases hp
  · have hset : ∀ h, (s.admin h).Settled := fun h => Or.inr (Or.inr (hdone h))
    obtain ⟨hnodup, hall, heffect⟩ := hser.effect_of_settled hset
    exact serialOutcome_of_order hnodup hall heffect

/-- Two replacements by one rule each. -/
def twoReplacements : Workload Bool Empty where
  task _ := ⟨true, [⟨.catchAll, .static {}, {}, {}, none, .null⟩]⟩
  request := Empty.elim

theorem serial_of_begins_alone_in_turn : ∃ (s : Sys Bool Empty) (outs : List Unit),
    run (stepSys .checked twoReplacements) (twoReplacements.start .new)
        (List.replicate 12 (.admin false) ++ List.replicate 12 (.admin true)) = some (s, outs) ∧
      SerialOutcome .checked twoReplacements .new s.shared.app := by
  refine ⟨_, _, rfl, ?_⟩
  have hrun : run (stepSys .checked twoReplacements) (twoReplacements.start .new)
      (List.replicate 12 (.admin false) ++ List.replicate 12 (.admin true)) = some _ := rfl
  exact serial_of_begins_alone hrun (by decide) (by decide)

/-- Both clear before either registers, and both rule lists are live. -/
theorem replacements_both_live : ∃ (s : Sys Bool Empty) (outs : List Unit),
    run (stepSys .checked twoReplacements) (twoReplacements.start .new)
        (List.replicate 4 (.admin false) ++ List.replicate 4 (.admin true) ++
          List.replicate 8 (.admin false) ++ List.replicate 8 (.admin true)) = some (s, outs) ∧
      (∀ h, s.admin h = .done) ∧
      ¬ SerialOutcome .checked twoReplacements .new s.shared.app := by
  refine ⟨_, _, rfl, by decide, fun hserial => ?_⟩
  refine hserial.oneReplacement false true (by decide) rfl rfl ⟨?_, ?_⟩
  · exact ⟨_, List.mem_cons_self, rfl⟩
  · exact ⟨_, List.mem_cons_of_mem _ List.mem_cons_self, rfl⟩

end Mockinx
