import Mockinx.Server.Concurrent

/-!
What a request can match while one replacement runs. The entries go away at the first step and come
back one by one, so a match sees the old list or an initial part of the new one.
-/

set_option autoImplicit false
set_option relaxedAutoImplicit false

namespace Mockinx

open Lib Lib.Run

variable {ι κ : Type}

def Loaded (task : AdminTask) (h : ι) (old : List (RuleEntry ι)) (app : AppState ι) :
    AdminPc → Prop
  | .clearEntries => app.entries = old
  | .clearRuntimes | .clearCrud | .resetCounter => app.entries = []
  | .lockRuntimes | .lockCrud | .fetchAdd => app.entries = [] ∧ app.stubCounter = 0
  | .setRuntime start i | .insertCrud start i | .push start i =>
    start = 0 ∧ app.entries = (AppState.newEntries h 0 0 task.rules).take i
  | .unlockCrud | .unlockRuntimes | .done | .panicked =>
    ∃ k, app.entries = (AppState.newEntries h 0 0 task.rules).take k

private theorem Loaded.exists_take {task : AdminTask} {h : ι} {old : List (RuleEntry ι)}
    {app : AppState ι} {pc : AdminPc} (hl : Loaded task h old app pc) (hpc : pc ≠ .clearEntries) :
    ∃ k, app.entries = (AppState.newEntries h 0 0 task.rules).take k := by
  cases pc with
  | clearEntries => exact absurd rfl hpc
  | clearRuntimes | clearCrud | resetCounter => exact ⟨0, hl⟩
  | lockRuntimes | lockCrud | fetchAdd => exact ⟨0, hl.1⟩
  | setRuntime start i | insertCrud start i | push start i => exact ⟨i, hl.2⟩
  | unlockCrud | unlockRuntimes | done | panicked => exact hl

private theorem Loaded.eq_take {task : AdminTask} {h : ι} {old : List (RuleEntry ι)}
    {app : AppState ι} {pc : AdminPc} (hl : Loaded task h old app pc) (hpc : pc ≠ .clearEntries) :
    app.entries = (AppState.newEntries h 0 0 task.rules).take app.entries.length := by
  obtain ⟨k, hk⟩ := hl.exists_take hpc
  rw [hk, List.length_take, ← List.take_eq_take_min]

private theorem loaded_nextRule {task : AdminTask} {h : ι} {old : List (RuleEntry ι)}
    {app : AppState ι} {i : ℕ} (hl : app.entries = (AppState.newEntries h 0 0 task.rules).take i) :
    Loaded task h old app (task.nextRule 0 i) := by
  rw [AdminTask.nextRule]
  split_ifs
  · exact ⟨rfl, hl⟩
  · exact ⟨i, hl⟩

/-- The step lemma. -/
private theorem Loaded.step {o : OverflowChecks} {task : AdminTask} {h : ι}
    {old : List (RuleEntry ι)}
    {s : Shared ι} {pc : AdminPc} {r : Shared ι × AdminPc} (hl : Loaded task h old s.app pc)
    (hcase : AdminCase o task h s pc r) : Loaded task h old r.1.app r.2 := by
  cases hcase with
  | clearEntries => rfl
  | clearRuntimes | clearCrud | lockRuntimes | lockCrud => exact hl
  | resetCounter => exact ⟨hl, rfl⟩
  | fetchAdd =>
    rw [hl.2]
    exact loaded_nextRule hl.1
  | setRuntime => exact hl
  | insertCrud hrule happ => exact ⟨hl.1, (AppState.insertCrud_spec happ).1.trans hl.2⟩
  | @push start i rule hrule =>
    obtain ⟨rfl, he⟩ := hl
    obtain ⟨hi, rfl⟩ := List.getElem?_eq_some_iff.mp hrule
    refine loaded_nextRule ?_
    have hlen : i < (AppState.newEntries h 0 0 task.rules).length := by
      simpa [AppState.newEntries] using hi
    rw [← List.take_append_getElem hlen]
    simp [Shared.withApp, AppState.push, he, AppState.newEntries]
  | unlockCrud | unlockRuntimes => exact hl
  | panicOutside hpc => exact hl.exists_take (by rcases hpc with rfl | rfl | rfl <;> simp)
  | panicInside hpc => exact hl.exists_take (by rcases hpc with rfl | ⟨_, _, rfl⟩ <;> simp)

variable [DecidableEq ι] [DecidableEq κ]

/-- A request moves, or the given handler does. -/
def OnlyHandler (h : ι) : Action ι κ → Prop
  | .admin h' => h' = h
  | .request _ _ => True

/-- The run lemma. -/
private theorem loaded_run {o : OverflowChecks} {w : Workload ι κ} {app : AppState ι} {h : ι}
    {acts : List (Action ι κ)} {s : Sys ι κ} {outs : List Unit}
    (hrun : run (stepSys o w) (w.start app) acts = some (s, outs))
    (honly : ∀ a ∈ acts, OnlyHandler h a) (hreplace : (w.task h).replace = true) :
    Loaded (w.task h) h app.entries s.shared.app (s.admin h) := by
  refine run_inv_of_along (I := fun s => Loaded (w.task h) h app.entries s.shared.app (s.admin h))
    ?_ (along_of_forall_mem honly) hrun ?_
  · intro s a r hl hstep ha
    cases a with
    | request q goesOn =>
      obtain ⟨pc, _, rfl⟩ := Option.map_eq_some_iff.mp hstep
      exact hl
    | admin h' =>
      obtain rfl : h' = h := ha
      obtain ⟨q, hq, rfl⟩ := Option.map_eq_some_iff.mp hstep
      simp only [Function.update_self]
      exact hl.step (stepAdmin_cases hq)
  · change Loaded _ _ _ _ (w.task h).first
    rw [AdminTask.first, if_pos hreplace]
    rfl

/-- A match cannot tell that a replacement runs: it comes before the entries are cleared, or no
rule still to load accepts the request, or neither a loaded rule nor an old one does. -/
def ReplacementHidden (task : AdminTask) (old : List (RuleEntry ι)) (pc : AdminPc)
    (loaded : ℕ) (method path : String) : Prop :=
  pc = .clearEntries ∨
    (∀ rule ∈ task.rules.drop loaded, rule.matchRule.matches method path = false) ∨
    (∀ rule ∈ task.rules.take loaded, rule.matchRule.matches method path = false) ∧
      ∀ e ∈ old, e.matches method path = false

omit [DecidableEq ι] in
private theorem matchRequest_none_iff {entries : List (RuleEntry ι)} {rules : List Rule}
    (h : entries.map (·.rule) = rules) (method path : String) :
    matchRequest entries method path = none ↔
      ∀ rule ∈ rules, rule.matchRule.matches method path = false := by
  rw [matchRequest_eq_none, ← h]
  simp [RuleEntry.matches]

omit [DecidableEq ι] in
private theorem match_take_iff {h : ι} {old : List (RuleEntry ι)} {rules : List Rule}
    (hfresh : ∀ e ∈ old, e.origin.handler ≠ h) (k : ℕ) (method path : String) :
    (matchRequest ((AppState.newEntries h 0 0 rules).take k) method path =
          matchRequest old method path ∨
        matchRequest ((AppState.newEntries h 0 0 rules).take k) method path =
          matchRequest (AppState.newEntries h 0 0 rules) method path) ↔
      (∀ rule ∈ rules.drop k, rule.matchRule.matches method path = false) ∨
        (∀ rule ∈ rules.take k, rule.matchRule.matches method path = false) ∧
          ∀ e ∈ old, e.matches method path = false := by
  let new := AppState.newEntries h 0 0 rules
  have hrules : new.map (·.rule) = rules := AppState.newEntries_rule h 0 0 rules
  have hsplit : matchRequest new method path =
      (matchRequest (new.drop k) method path).or (matchRequest (new.take k) method path) := by
    rw [← matchRequest_append, List.take_append_drop]
  have hdisjoint : (new.take k).Disjoint (new.drop k) := by
    refine List.disjoint_take_drop (List.Nodup.of_map (·.index) ?_) le_rfl
    rw [AppState.newEntries_index]
    exact List.nodup_range' ..
  have hdropped : (new.drop k).map (·.rule) = rules.drop k := by rw [List.map_drop, hrules]
  have htaken : (new.take k).map (·.rule) = rules.take k := by rw [List.map_take, hrules]
  rw [← matchRequest_none_iff hdropped, ← matchRequest_none_iff htaken, ← matchRequest_eq_none]
  change matchRequest (new.take k) method path = _ ∨ matchRequest (new.take k) method path =
    matchRequest new method path ↔ _
  constructor
  · intro hmatch
    cases hdrop : matchRequest (new.drop k) method path with
    | none => exact Or.inl rfl
    | some e' =>
      rw [hdrop, Option.some_or] at hsplit
      right
      rcases hmatch with hold | hnew
      · cases htake : matchRequest (new.take k) method path with
        | none => exact ⟨rfl, by rw [← hold, htake]⟩
        | some e =>
          -- An entry that is loaded is not an old one.
          rw [htake] at hold
          have hhandler : e.origin.handler = h := AppState.handler_of_mem_newEntries
            (List.mem_of_mem_take (mem_of_matchRequest htake))
          exact absurd hhandler (hfresh e (mem_of_matchRequest hold.symm))
      · rw [hsplit] at hnew
        exact absurd (mem_of_matchRequest hdrop) (hdisjoint (mem_of_matchRequest hnew))
  · rintro (hdrop | ⟨htake, hold⟩)
    · rw [hdrop, Option.none_or] at hsplit
      exact Or.inr hsplit.symm
    · exact Or.inl (htake.trans hold.symm)

/-- While one replacement is the only call to the registry, a match in any state that a run reaches
is that of the complete old list or that of the complete new one exactly when the replacement is
hidden from it. -/
theorem match_old_or_new_iff {o : OverflowChecks} {w : Workload ι κ} {app : AppState ι} {h : ι}
    {acts : List (Action ι κ)} {s : Sys ι κ} {outs : List Unit}
    (hreplace : (w.task h).replace = true) (hfresh : ∀ e ∈ app.entries, e.origin.handler ≠ h)
    (hrun : run (stepSys o w) (w.start app) acts = some (s, outs))
    (honly : ∀ a ∈ acts, OnlyHandler h a) (method path : String) :
    (matchRequest s.shared.app.entries method path = matchRequest app.entries method path ∨
        matchRequest s.shared.app.entries method path =
          matchRequest (AppState.newEntries h 0 0 (w.task h).rules) method path) ↔
      ReplacementHidden (w.task h) app.entries (s.admin h) s.shared.app.entries.length
        method path := by
  have hl := loaded_run hrun honly hreplace
  by_cases hpc : s.admin h = .clearEntries
  · rw [hpc] at hl
    have hold : s.shared.app.entries = app.entries := hl
    exact ⟨fun _ => Or.inl hpc, fun _ => Or.inl (by rw [hold])⟩
  · have htake := hl.eq_take hpc
    generalize s.shared.app.entries.length = k at htake ⊢
    rw [htake, match_take_iff hfresh]
    simp only [ReplacementHidden, hpc, false_or]

theorem match_old_or_new_while_loading :
    let get : Rule := ⟨.methodPath (some "GET") "/a", .static {}, {}, {}, none, .null⟩
    let put : Rule := ⟨.methodPath (some "PUT") "/a", .static {}, {}, {}, none, .null⟩
    let w : Workload Bool Empty := ⟨fun _ => ⟨true, [get, put]⟩, Empty.elim⟩
    let app := (((AppState.new : AppState Bool).fetchAdd 1).setRuntime ⟨false, 0⟩ put 0).push
      ⟨false, 0⟩ put 0
    ∃ (s : Sys Bool Empty) (outs : List Unit),
      AppState.new.registerRules .checked false [put] = .ok app ∧
        run (stepSys .checked w) (w.start app) (List.replicate 10 (.admin true)) =
          some (s, outs) ∧
        (matchRequest s.shared.app.entries "GET" "/a" = matchRequest app.entries "GET" "/a" ∨
          matchRequest s.shared.app.entries "GET" "/a" =
            matchRequest (AppState.newEntries true 0 0 [get, put]) "GET" "/a") := by
  intro get put w app
  refine ⟨_, _, rfl, rfl, ?_⟩
  have hrun : run (stepSys .checked w) (w.start app) (List.replicate 10 (.admin true)) =
      some _ := rfl
  refine (match_old_or_new_iff (h := true) rfl ?_ hrun ?_ "GET" "/a").mpr ?_
  · intro e he
    obtain rfl := List.mem_singleton.mp (he : e ∈ [_])
    exact Bool.false_ne_true
  · simp [OnlyHandler]
  · exact Or.inr (Or.inl (by decide))

/-- A request that both the old rule and the new one accept finds no rule right after the clear. -/
theorem match_of_cleared_list :
    let rule : Rule := ⟨.catchAll, .static {}, {}, {}, none, .null⟩
    let w : Workload Bool Empty := ⟨fun _ => ⟨true, [rule]⟩, Empty.elim⟩
    let app := (((AppState.new : AppState Bool).fetchAdd 1).setRuntime ⟨false, 0⟩ rule 0).push
      ⟨false, 0⟩ rule 0
    ∃ (s : Sys Bool Empty) (outs : List Unit),
      AppState.new.registerRules .checked false [rule] = .ok app ∧
        run (stepSys .checked w) (w.start app) [.admin true] = some (s, outs) ∧
        ¬ (matchRequest s.shared.app.entries "GET" "/" = matchRequest app.entries "GET" "/" ∨
          matchRequest s.shared.app.entries "GET" "/" =
            matchRequest (AppState.newEntries true 0 0 [rule]) "GET" "/") := by
  intro rule w app
  refine ⟨_, _, rfl, rfl, ?_⟩
  rintro (h | h)
  · exact nomatch (h : (none : Option (RuleEntry Bool)) = some _)
  · exact nomatch (h : (none : Option (RuleEntry Bool)) = some _)

end Mockinx
