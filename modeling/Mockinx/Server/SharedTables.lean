import Mathlib.Data.List.Nodup
import Mockinx.RuleSource
import Mockinx.Server.PerRule

/-!
The shared tables hold the rules that the table of rules describes. Entries have consecutive
indices and origins of their own, so that no two of them share a slot, a counter or a lock.
-/

set_option autoImplicit false
set_option relaxedAutoImplicit false

namespace Mockinx

open Lib Lib.Run

variable {α : Type}

private theorem matchRequest_eq_lastMatch {ι : Type} (entries : List (RuleEntry ι))
    (method path : String) :
    matchRequest entries method path =
      (lastMatch method path (entries.map (·.rule))).bind fun i => entries[i]? := by
  induction entries with
  | nil => rfl
  | cons e entries ih =>
    have hcons := matchRequest_append [e] entries method path
    rw [List.singleton_append] at hcons
    rw [hcons, ih, List.map_cons, lastMatch]
    cases hlast : lastMatch method path (entries.map (·.rule)) with
    | some i =>
      have hlt : i < entries.length := by simpa using lastMatch_lt hlast
      simp [hlt]
    | none =>
      cases hm : e.rule.matchRule.matches method path <;>
        simp [matchRequest, RuleEntry.matches, hm]

namespace Server

/-- The rules of the server with their objects. -/
def live (s : Server α) : List (LiveRule α) := s.app.entries.map fun e => ⟨e.rule, s.look e⟩

/-- What the tables stand for. -/
def view (s : Server α) : Bool × List (LiveRule α) := (s.down, s.live)

private theorem live_length (s : Server α) : s.live.length = s.app.entries.length := by simp [live]

private theorem live_getElem? (s : Server α) (i : ℕ) :
    s.live[i]? = (s.app.entries[i]?).map fun e => ⟨e.rule, s.look e⟩ := by simp [live]

theorem live_rule (s : Server α) : s.live.map (·.rule) = s.app.entries.map (·.rule) := by
  simp [live]

private theorem live_congr {s t : Server α} (he : s.app.entries = t.app.entries)
    (hl : ∀ e ∈ s.app.entries, s.look e = t.look e) : s.live = t.live := by
  rw [live, live, ← he]
  exact List.map_congr_left fun e hmem => by rw [hl e hmem]

/-- The state of the tables while a registration fills them: the entries have consecutive indices,
the other tables have no more slots, and each object is that of its entry. -/
structure Filled (s : Server α) (app : AppState ℕ) (position : ℕ) : Prop where
  indices : app.entries.map (·.index) = List.range app.entries.length
  origins : (app.entries.map (·.origin)).Nodup
  older : ∀ e ∈ app.entries, e.origin.handler < s.handlers ∨
    e.origin.handler = s.handlers ∧ e.origin.position < position
  arcs : ∀ e ∈ app.entries, ∀ arc, app.crudStores e.index = some arc → arc.origin = some e.origin
  runtimes : app.runtimes.length = app.entries.length
  crud : ∀ k, app.entries.length ≤ k → app.crudStores k = none

structure Unused (s : Server α) : Prop where
  calls : ∀ g, s.handlers ≤ g.handler → s.calls g = { count := fun _ => 0 }
  poisoned : ∀ g, s.handlers ≤ g.handler → s.poisoned (some g) = false

private theorem Filled.index_lt {s : Server α} {app : AppState ℕ} {i : ℕ} (h : s.Filled app i)
    {e : RuleEntry ℕ} (he : e ∈ app.entries) : e.index < app.entries.length := by
  have hmem := List.mem_map_of_mem (f := fun e : RuleEntry ℕ => e.index) he
  rw [h.indices] at hmem
  exact List.mem_range.mp hmem

private theorem look_setRuntime {s : Server α} {app : AppState ℕ} {i : ℕ} (h : s.Filled app i)
    (origin : Origin ℕ) (rule : Rule) {e : RuleEntry ℕ} (he : e ∈ app.entries) :
    ({ s with app := app.setRuntime origin rule app.entries.length } : Server α).look e =
      ({ s with app } : Server α).look e := by
  have hlt := h.index_lt he
  have hout : ¬ (app.runtimes.length ≤ e.index ∧ e.index < app.entries.length) := by
    have := h.runtimes
    omega
  have hsame := app.getRuntime_setRuntime_of_ne origin rule hlt.ne hout
  simp only [look, hsame]
  rfl

private theorem insertCrud_live {ι : Type} {o : OverflowChecks} {s t : AppState ι}
    {origin : Origin ι} {rule : Rule} {idx : ℕ} (hempty : s.crudStores idx = none)
    (h : s.insertCrud o origin rule idx = .ok t) :
    ∃ crud : Option CrudStore,
      LiveRule.new o rule = some (⟨rule, .fresh rule crud⟩ : LiveRule α) ∧
      t = { s with
        crudStores := Function.update s.crudStores idx
          (crud.map fun store => ⟨store, some origin⟩) } := by
  rw [AppState.insertCrud] at h
  cases hreply : rule.reply with
  | crud spec headers =>
    rw [hreply] at h
    cases hnew : CrudStore.new o spec with
    | error p => simp [hnew, Except.map] at h
    | ok store =>
      simp only [hnew, Except.map, Except.ok.injEq] at h
      exact ⟨some store, by simp only [LiveRule.new, hreply, hnew], h.symm⟩
  | static r | sequence rs =>
    rw [hreply] at h
    obtain rfl := Except.ok.inj h
    refine ⟨none, by simp only [LiveRule.new, hreply], ?_⟩
    rw [Option.map_none, ← hempty, Function.update_eq_self]

private theorem insertCrud_dead {ι : Type} {o : OverflowChecks} {s : AppState ι} {origin : Origin ι}
    {rule : Rule} {idx : ℕ} {p : Panic} (h : s.insertCrud o origin rule idx = .error p) :
    LiveRule.new o rule = (none : Option (LiveRule α)) := by
  rw [AppState.insertCrud] at h
  cases hreply : rule.reply with
  | crud spec headers =>
    rw [hreply] at h
    cases hnew : CrudStore.new o spec with
    | error q => simp only [LiveRule.new, hreply, hnew]
    | ok store => simp [hnew, Except.map] at h
  | static r | sequence rs =>
    rw [hreply] at h
    cases h

private theorem filled_push {o : OverflowChecks} {s : Server α} {app app' : AppState ℕ} {i : ℕ}
    {rule : Rule} (hu : s.Unused) (h : s.Filled app i)
    (hcrud : (app.setRuntime ⟨s.handlers, i⟩ rule app.entries.length).insertCrud o ⟨s.handlers, i⟩
      rule app.entries.length = .ok app') :
    s.Filled (app'.push ⟨s.handlers, i⟩ rule app.entries.length) (i + 1) ∧
      ∃ live, LiveRule.new o rule = some live ∧
        ({ s with app := app'.push ⟨s.handlers, i⟩ rule app.entries.length } : Server α).live =
          ({ s with app } : Server α).live ++ [live] := by
  let origin : Origin ℕ := ⟨s.handlers, i⟩
  obtain ⟨crud, hnew, rfl⟩ := insertCrud_live (α := α)
    (s := app.setRuntime origin rule app.entries.length) (h.crud _ le_rfl) hcrud
  have hr := AppState.runtimes_setRuntime origin rule h.runtimes
  have hother : ∀ e ∈ app.entries, e.index ≠ app.entries.length :=
    fun e he => (h.index_lt he).ne
  refine ⟨?_, _, hnew, ?_⟩
  · constructor
    · simp [AppState.push, h.indices, List.range_succ]
    · simp only [AppState.push, AppState.setRuntime_entries, List.map_append, List.map_cons,
        List.map_nil]
      refine List.nodup_append.mpr ⟨h.origins, List.nodup_singleton _, ?_⟩
      intro g hg g' hg' heq
      obtain ⟨e, he, rfl⟩ := List.mem_map.mp hg
      rw [List.mem_singleton] at hg'
      rw [hg'] at heq
      rcases h.older e he with hlt | ⟨_, hlt⟩ <;> simp [heq] at hlt
    · intro e he
      rcases List.mem_append.mp he with he | he
      · rcases h.older e he with hlt | ⟨hsame, hlt⟩
        · exact Or.inl hlt
        · exact Or.inr ⟨hsame, by omega⟩
      · rw [List.mem_singleton.mp he]
        exact Or.inr ⟨rfl, Nat.lt_succ_self i⟩
    · intro e he arc harc
      rcases List.mem_append.mp he with he | he
      · refine h.arcs e he arc ?_
        rw [← harc]
        exact (Function.update_of_ne (hother e he) _ _).symm
      · rw [List.mem_singleton.mp he] at harc ⊢
        simp only [AppState.push, Function.update_self] at harc
        obtain ⟨store, _, rfl⟩ := Option.map_eq_some_iff.mp harc
        rfl
    · simp [AppState.push, hr, h.runtimes]
    · intro k hk
      simp only [AppState.push, AppState.setRuntime_entries, List.length_append,
        List.length_singleton] at hk ⊢
      rw [Function.update_of_ne (by omega)]
      exact h.crud k (by omega)
  · simp only [live, AppState.push, AppState.setRuntime_entries, List.map_append, List.map_cons,
      List.map_nil]
    congr 1
    · refine List.map_congr_left fun e he => ?_
      rw [← look_setRuntime h origin rule he]
      simp only [look, AppState.getCrudStore, Function.update_of_ne (hother e he)]
      rfl
    · have hcalls := hu.calls ⟨s.handlers, i⟩ le_rfl
      have hsound := hu.poisoned ⟨s.handlers, i⟩ le_rfl
      simp only [look, AppState.getRuntime, AppState.getCrudStore, hr, Function.update_self]
      rw [← h.runtimes, List.getElem?_concat_length, RuleState.fresh]
      cases crud <;> simp [hcalls, hsound]

/-- What a registration of rules comes to: the rules that come to life are added, and when all do,
the tables are filled as far as the entries go. -/
structure Loads (o : OverflowChecks) (s : Server α) (app : AppState ℕ) (rules : List Rule)
    (r : AppState ℕ × Bool) : Prop where
  ok : r.2 = (liveRules (α := α) o rules).2
  live : ({ s with app := r.1 } : Server α).live =
    ({ s with app } : Server α).live ++ (liveRules o rules).1
  indices : r.1.entries.map (·.index) = List.range r.1.entries.length
  filled : r.2 = true → (∃ i, s.Filled r.1 i) ∧
    r.1.entries.length = app.entries.length + rules.length ∧ r.1.stubCounter = app.stubCounter

private theorem loads_loadFrom {o : OverflowChecks} {s : Server α} {start i : ℕ} {rules : List Rule}
    {app : AppState ℕ} (hu : s.Unused) (h : s.Filled app i)
    (hlen : app.entries.length = start + i) :
    s.Loads o app rules (app.loadFrom o s.handlers start i rules) := by
  induction rules generalizing app i with
  | nil => exact ⟨rfl, (List.append_nil _).symm, h.indices, fun _ => ⟨⟨i, h⟩, rfl, rfl⟩⟩
  | cons rule rules ih =>
    rw [AppState.loadFrom, ← hlen]
    cases hcrud : (app.setRuntime ⟨s.handlers, i⟩ rule app.entries.length).insertCrud o
        ⟨s.handlers, i⟩ rule app.entries.length with
    | error p =>
      dsimp only
      have hdead : liveRules (α := α) o (rule :: rules) = ([], false) := by
        rw [liveRules, insertCrud_dead hcrud]
      refine ⟨by rw [hdead], ?_, h.indices, fun hok => by cases hok⟩
      rw [hdead, List.append_nil]
      exact live_congr rfl fun e he => look_setRuntime h _ rule he
    | ok app' =>
      dsimp only
      obtain ⟨hfilled, live, hnew, hlive⟩ := filled_push hu h hcrud
      obtain ⟨he, _, hcounter, _⟩ := AppState.insertCrud_spec hcrud
      have hentries : app'.entries = app.entries := he
      have hnext := ih hfilled (by simp [AppState.push, hentries, hlen, Nat.add_assoc])
      have hcons : liveRules (α := α) o (rule :: rules) =
          (live :: (liveRules o rules).1, (liveRules (α := α) o rules).2) := by
        rw [liveRules, hnew]
      refine ⟨by rw [hcons]; exact hnext.ok, ?_, hnext.indices, fun hok => ?_⟩
      · rw [hnext.live, hlive, hcons, List.append_assoc, List.singleton_append]
      · obtain ⟨hfill, hlen', hcounter'⟩ := hnext.filled hok
        refine ⟨hfill, ?_, hcounter'.trans hcounter⟩
        rw [hlen', List.length_cons]
        simp [AppState.push, hentries]
        omega

/-- What holds of every server that a run reaches. -/
structure Sound (s : Server α) : Prop where
  unused : s.Unused
  indices : s.app.entries.map (·.index) = List.range s.app.entries.length
  filled : s.down = false → s.Filled s.app 0 ∧ s.app.stubCounter = s.app.entries.length

theorem sound_new : (new : Server α).Sound := by
  have hempty : (new : Server α).app.entries = [] := rfl
  refine ⟨⟨fun _ _ => rfl, fun _ _ => rfl⟩, rfl, fun _ => ⟨⟨rfl, ?_, ?_, ?_, rfl, ?_⟩, rfl⟩⟩
  · exact List.nodup_nil
  · simp [hempty]
  · simp [hempty]
  · exact fun _ _ => rfl

theorem Sound.registerRules {o : OverflowChecks} {s : Server α} (hs : s.Sound)
    (hup : s.down = false) (rules : List Rule) :
    (s.registerRules o rules).1.Sound ∧
      (s.registerRules o rules).1.live = s.live ++ (liveRules o rules).1 ∧
      (s.registerRules o rules).2 = (liveRules (α := α) o rules).2 ∧
      (s.registerRules o rules).1.down = !(liveRules (α := α) o rules).2 := by
  obtain ⟨hfilled, hcounter⟩ := hs.filled hup
  have hstart : s.Filled (s.app.fetchAdd rules.length) 0 :=
    ⟨hfilled.indices, hfilled.origins, hfilled.older, hfilled.arcs, hfilled.runtimes, hfilled.crud⟩
  have hloads : s.Loads o (s.app.fetchAdd rules.length) rules (s.app.load o s.handlers rules) :=
    loads_loadFrom hs.unused hstart hcounter.symm
  have heq : s.registerRules o rules = ({ s with
      app := (s.app.load o s.handlers rules).1
      handlers := s.handlers + 1
      down := !(s.app.load o s.handlers rules).2 }, (s.app.load o s.handlers rules).2) := by
    simp only [Server.registerRules, hup, Bool.false_eq_true, if_false]
  rw [heq]
  refine ⟨⟨?_, hloads.indices, fun hdown => ?_⟩, hloads.live, hloads.ok, by rw [← hloads.ok]⟩
  · exact ⟨fun g hg => hs.unused.calls g (Nat.le_of_succ_le hg),
      fun g hg => hs.unused.poisoned g (Nat.le_of_succ_le hg)⟩
  · have hok : (s.app.load o s.handlers rules).2 = true := by simpa using hdown
    obtain ⟨⟨i, hfill⟩, hlen, hcounter'⟩ := hloads.filled hok
    refine ⟨⟨hfill.indices, hfill.origins, fun e he => Or.inl ?_, hfill.arcs, hfill.runtimes,
      hfill.crud⟩, ?_⟩
    · rcases hfill.older e he with hlt | ⟨heq, _⟩
      · exact Nat.lt_succ_of_lt hlt
      · exact heq ▸ Nat.lt_succ_self _
    · rw [hlen, hcounter', AppState.fetchAdd, hcounter]

private theorem Sound.index_eq {s : Server α} (hs : s.Sound) {i : ℕ} {e : RuleEntry ℕ}
    (he : s.app.entries[i]? = some e) : e.index = i := by
  obtain ⟨hi, rfl⟩ := List.getElem?_eq_some_iff.mp he
  have hmap := congrArg (fun l : List ℕ => l[i]?) hs.indices
  simpa [hi] using hmap

private theorem look_change_self {s : Server α} {e : RuleEntry ℕ} {st : RuleState α}
    (hst : (s.look e).SameObjects st) : (s.change e st).look e = st := by
  obtain ⟨hruntime, hcrud⟩ := hst
  cases st with
  | mk runtime crud calls =>
    simp only [look, change, AppState.getRuntime, AppState.getCrudStore, Option.isSome_map,
      List.getElem?_modify_eq, Function.update_self] at hruntime hcrud ⊢
    congr 1
    · cases hrt : s.app.runtimes[e.index]? <;> cases runtime <;> simp_all
    · cases hc : s.app.crudStores e.index <;> cases crud <;> simp_all

private theorem look_change_of_ne {s : Server α} {e e' : RuleEntry ℕ} {st : RuleState α}
    (hindex : e'.index ≠ e.index) (horigin : e'.origin ≠ e.origin)
    (harcs : ∀ arc arc', s.app.crudStores e.index = some arc →
      s.app.crudStores e'.index = some arc' → arc'.origin ≠ arc.origin) :
    (s.change e st).look e' = s.look e' := by
  simp only [look, change, AppState.getRuntime, AppState.getCrudStore,
    List.getElem?_modify_ne _ _ hindex.symm, Function.update_of_ne hindex,
    Function.update_of_ne horigin]
  congr 1
  cases hc' : s.app.crudStores e'.index with
  | none => rfl
  | some arc' =>
    cases hc : s.app.crudStores e.index with
    | none => rfl
    | some arc =>
      cases hcrud : st.crud with
      | none => rfl
      | some store => simp [Function.update_of_ne (harcs arc arc' hc hc')]

private theorem Sound.change {s : Server α} (hs : s.Sound) (hup : s.down = false) {i : ℕ}
    {e : RuleEntry ℕ} (he : s.app.entries[i]? = some e) {st : RuleState α}
    (hst : (s.look e).SameObjects st) :
    (s.change e st).Sound ∧ (s.change e st).live = s.live.set i ⟨e.rule, st⟩ := by
  obtain ⟨hfilled, hcounter⟩ := hs.filled hup
  have hmem := List.mem_of_getElem? he
  have hlt := (List.getElem?_eq_some_iff.mp he).1
  constructor
  · have hold : e.origin.handler < s.handlers := by
      rcases hfilled.older e hmem with h | ⟨_, h⟩
      · exact h
      · exact absurd h (Nat.not_lt_zero _)
    refine ⟨⟨fun g hg => ?_, fun g hg => ?_⟩, hs.indices, fun _ => ⟨?_, hcounter⟩⟩
    · have hne : g ≠ e.origin := by
        rintro rfl
        exact absurd hold (not_lt.mpr hg)
      exact (Function.update_of_ne hne _ _).trans (hs.unused.calls g hg)
    · have hne : g ≠ e.origin := by
        rintro rfl
        exact absurd hold (not_lt.mpr hg)
      rw [← hs.unused.poisoned g hg]
      simp only [Server.change, AppState.getCrudStore]
      cases hc : s.app.crudStores e.index with
      | none => rfl
      | some arc =>
        cases st.crud with
        | none => rfl
        | some store =>
          dsimp only
          rw [hfilled.arcs e hmem arc hc]
          exact Function.update_of_ne (fun heq => hne (Option.some.inj heq)) _ _
    · refine ⟨hfilled.indices, hfilled.origins, hfilled.older, ?_, ?_, ?_⟩
      · intro e' hmem' arc' harc'
        change Function.update s.app.crudStores e.index _ e'.index = some arc' at harc'
        by_cases hsame : e'.index = e.index
        · rw [hsame, Function.update_self] at harc'
          obtain ⟨arc, harc, rfl⟩ := Option.map_eq_some_iff.mp harc'
          exact hfilled.arcs e' hmem' arc (hsame ▸ harc)
        · rw [Function.update_of_ne hsame] at harc'
          exact hfilled.arcs e' hmem' arc' harc'
      · exact (List.length_modify _ _ _).trans hfilled.runtimes
      · intro k hk
        have hne : k ≠ e.index := by
          have := hfilled.index_lt hmem
          change s.app.entries.length ≤ k at hk
          omega
        exact (Function.update_of_ne hne _ _).trans (hfilled.crud k hk)
  · refine List.ext_getElem? fun k => ?_
    by_cases hk : k = i
    · subst hk
      rw [List.getElem?_set_self (by rwa [live_length]), live_getElem?]
      change (s.app.entries[k]?).map _ = _
      rw [he, Option.map_some, look_change_self hst]
    · rw [List.getElem?_set_ne (Ne.symm hk), live_getElem?, live_getElem?]
      change (s.app.entries[k]?).map _ = _
      cases he' : s.app.entries[k]? with
      | none => rfl
      | some e' =>
        have hmem' := List.mem_of_getElem? he'
        have horigin : e'.origin ≠ e.origin := by
          intro heq
          refine hk ((List.getElem?_inj (l := s.app.entries.map (·.origin)) ?_
            hfilled.origins).mp ?_)
          · simpa using (List.getElem?_eq_some_iff.mp he').1
          · simp [he, he', heq]
        rw [Option.map_some, Option.map_some, look_change_of_ne]
        · rwa [hs.index_eq he', hs.index_eq he]
        · exact horigin
        · intro arc arc' harc harc'
          rw [hfilled.arcs e' hmem' arc' harc', hfilled.arcs e hmem arc harc]
          exact fun heq => horigin (Option.some.inj heq)

private theorem Sound.clearAll {s : Server α} (hs : s.Sound) :
    s.clearAll.1.Sound ∧ s.clearAll.1.live = [] ∧ s.clearAll.1.down = s.down ∧
      s.clearAll.2 = !s.down := by
  rw [Server.clearAll]
  cases hdown : s.down with
  | true =>
    rw [if_pos rfl]
    exact ⟨⟨⟨hs.unused.calls, hs.unused.poisoned⟩, rfl, fun hup => by cases hup⟩, rfl, rfl, rfl⟩
  | false =>
    rw [if_neg Bool.false_ne_true]
    refine ⟨⟨⟨hs.unused.calls, hs.unused.poisoned⟩, rfl,
      fun _ => ⟨⟨rfl, List.nodup_nil, ?_, ?_, rfl, fun _ _ => rfl⟩, rfl⟩⟩, rfl, rfl, rfl⟩
    · exact fun e he => by cases he
    · exact fun e he => by cases he

structure Obeys (s : Server α) (call : Bool × TableEdit (LiveRule α) × Option Response)
    (r : Server α × Option Response) : Prop where
  sound : r.1.Sound
  down : r.1.down = call.1
  live : r.1.live = call.2.1.apply s.live
  answer : r.2 = call.2.2

private theorem Sound.obeys_idle {s : Server α} (hs : s.Sound) (response : Option Response) :
    s.Obeys (s.down, .idle, response) (s, response) :=
  ⟨hs, rfl, (TableEdit.idle_apply s.live).symm, rfl⟩

private theorem Sound.handleAppendRules {x : External} {o : OverflowChecks} {s : Server α}
    (hs : s.Sound) (body : List UInt8) :
    s.Obeys (registryCall x o true 201 "added" s.down body) (s.handleAppendRules x o body) := by
  rw [Server.handleAppendRules, registryCall]
  rcases parseBodyAsRules x body with p | response | rules
  · exact hs.obeys_idle none
  · exact hs.obeys_idle (some response)
  · dsimp only
    cases hdown : s.down with
    | true =>
      rw [Server.registerRules, if_pos hdown]
      exact ⟨hs, hdown, by simp [TableEdit.apply], rfl⟩
    | false =>
      obtain ⟨hsound, hlive, hok, hd⟩ := hs.registerRules (o := o) hdown rules
      refine ⟨hsound, hd, hlive, ?_⟩
      rw [hok]
      rfl

private theorem Sound.handleReplaceRules {x : External} {o : OverflowChecks} {s : Server α}
    (hs : s.Sound) (body : List UInt8) :
    s.Obeys (registryCall x o false 200 "loaded" s.down body) (s.handleReplaceRules x o body) := by
  rw [Server.handleReplaceRules, registryCall]
  rcases parseBodyAsRules x body with p | response | rules
  · exact hs.obeys_idle none
  · exact hs.obeys_idle (some response)
  · dsimp only
    obtain ⟨hclear, hnone, hsame, hcleared⟩ := hs.clearAll
    cases hdown : s.down with
    | true =>
      rw [hcleared, hdown]
      exact ⟨hclear, hsame.trans hdown, hnone, rfl⟩
    | false =>
      obtain ⟨hsound, hlive, hok, hd⟩ := hclear.registerRules (o := o) (hsame.trans hdown) rules
      rw [hcleared, hdown]
      refine ⟨hsound, hd, ?_, ?_⟩
      · rw [TableEdit.apply]
        exact hlive.trans (by rw [hnone]; rfl)
      · rw [hok]
        rfl

variable [DecidableEq α]

structure Follows (x : External) (o : OverflowChecks) (s : Server α) (c : Call α)
    (r : Server α × Option ℕ × Option Response) : Prop where
  sound : r.1.Sound
  view : r.1.view = ((perRule x o).step s.view c).1
  answer : r.2 = ((perRule x o).step s.view c).2

theorem dest_of_request {x : External} {o : OverflowChecks} {c : Call α}
    (hroute : Mockinx.route c.req.method c.req.path = .request) (down : Bool) (rules : List Rule) :
    (perRule x o).dest down rules c =
      if c.unreadable then none else lastMatch c.req.method c.req.path rules := by
  simp only [Parts.dest, perRule, hroute]
  split_ifs with hun
  · rfl
  · cases hlast : lastMatch c.req.method c.req.path rules with
    | none => rfl
    | some i => simp [lastMatch_lt hlast]

theorem dest_of_registry {x : External} {o : OverflowChecks} {c : Call α}
    (hroute : Mockinx.route c.req.method c.req.path ≠ .request) (down : Bool) (rules : List Rule) :
    (perRule x o).dest down rules c = none := by
  simp only [Parts.dest, perRule]
  cases h : Mockinx.route c.req.method c.req.path with
  | request => exact absurd h hroute
  | list | append | replace | methodNotAllowed => rfl

private theorem keys_view (x : External) (o : OverflowChecks) (s : Server α) :
    (perRule x o).keys s.view = s.app.entries.map (·.rule) := s.live_rule

private theorem Obeys.follows {x : External} {o : OverflowChecks} {s : Server α} {c : Call α}
    {r : Server α × Option Response}
    (h : s.Obeys ((perRule x o).admin s.down (s.app.entries.map (·.rule)) c) r)
    (hdest : (perRule x o).dest s.down (s.app.entries.map (·.rule)) c = none) :
    s.Follows x o c (r.1, none, r.2) := by
  have hstep := Parts.step_of_none (m := perRule x o) (s := s.view) (a := c)
    (by rw [keys_view]; exact hdest)
  rw [keys_view] at hstep
  refine ⟨h.sound, ?_, ?_⟩
  · rw [hstep]
    exact Prod.ext h.down h.live
  · rw [hstep]
    exact Prod.ext rfl h.answer

private theorem Sound.handleRequest {x : External} {o : OverflowChecks} {s : Server α}
    (hs : s.Sound) {c : Call α} (hroute : Mockinx.route c.req.method c.req.path = .request) :
    s.Follows x o c (s.handleRequest { x with readFile := c.files } o c) := by
  have hdest := dest_of_request (x := x) (o := o) hroute s.down (s.app.entries.map (·.rule))
  rw [Server.handleRequest]
  cases hun : c.unreadable with
  | true =>
    rw [hun, if_pos rfl] at hdest
    have hadmin : (perRule x o).admin s.down (s.app.entries.map (·.rule)) c =
        (s.down, .idle, some (textResponse 400 "failed to read body")) := by
      simp [perRule, hroute, hun]
    exact Obeys.follows (r := (s, _)) (hadmin ▸ hs.obeys_idle _) hdest
  | false =>
    rw [hun, if_neg Bool.false_ne_true] at hdest
    rw [if_neg Bool.false_ne_true, matchRequest_eq_lastMatch]
    cases hlast : lastMatch c.req.method c.req.path (s.app.entries.map (·.rule)) with
    | none =>
      rw [hlast] at hdest
      have hadmin : (perRule x o).admin s.down (s.app.entries.map (·.rule)) c =
          (s.down, .idle, some (.ofStatus 404)) := by
        simp [perRule, hroute, hun]
      exact Obeys.follows (r := (s, _)) (hadmin ▸ hs.obeys_idle _) hdest
    | some i =>
      rw [hlast] at hdest
      have hi : i < s.app.entries.length := by simpa using lastMatch_lt hlast
      obtain ⟨e, he⟩ : ∃ e, s.app.entries[i]? = some e := ⟨_, List.getElem?_eq_getElem hi⟩
      have hpart : s.view.2[i]? = some ⟨e.rule, s.look e⟩ := by
        change s.live[i]? = _
        rw [live_getElem?, he, Option.map_some]
      have hstep := Parts.step_of_some (m := perRule x o) (s := s.view) (a := c)
        (by rw [keys_view]; exact hdest) hpart
      rw [Option.bind_some, he]
      dsimp only
      cases hdown : s.down with
      | true =>
        have hview : s.view.1 = true := hdown
        rw [hview, perRule_serve_down] at hstep
        rw [if_pos rfl, hs.index_eq he]
        refine ⟨hs, ?_, by rw [hstep]⟩
        obtain ⟨_, hget⟩ := List.getElem?_eq_some_iff.mp hpart
        rw [hstep, ← hget, List.set_getElem_self]
        exact Prod.ext hdown rfl
      | false =>
        have hview : s.view.1 = false := hdown
        rw [hview, perRule_serve_up] at hstep
        obtain ⟨hsound, hlive⟩ := hs.change hdown he
          (Handling.handleMatched_sameObjects { x with readFile := c.files } o c.addr c.req c.out
            e.rule (s.look e) c.rng)
        rw [if_neg Bool.false_ne_true, hs.index_eq he]
        refine ⟨hsound, ?_, by rw [hstep]; rfl⟩
        rw [hstep]
        exact Prod.ext hdown hlive

/-- The step lemma: the tables and the table of rules agree on every call. -/
theorem Sound.serve {s : Server α} (hs : s.Sound) (x : External) (o : OverflowChecks)
    (c : Call α) : s.Follows x o c (s.serve x o c) := by
  have hnone (h : Mockinx.route c.req.method c.req.path ≠ .request) :=
    dest_of_registry (x := x) (o := o) h s.down (s.app.entries.map (·.rule))
  rw [Server.serve]
  cases hroute : Mockinx.route c.req.method c.req.path with
  | request => exact hs.handleRequest hroute
  | list =>
    have hadmin : (perRule x o).admin s.down (s.app.entries.map (·.rule)) c =
        (s.down, .idle, some (handleListRules s.app)) := by
      simp only [perRule, hroute, listingOf, handleListRules, listSources, ← List.map_reverse,
        List.map_map]
      rfl
    exact Obeys.follows (r := (s, _)) (hadmin ▸ hs.obeys_idle _) (hnone (by simp [hroute]))
  | methodNotAllowed =>
    have hadmin : (perRule x o).admin s.down (s.app.entries.map (·.rule)) c =
        (s.down, .idle, some wrongMethod) := by
      simp [perRule, hroute]
    exact Obeys.follows (r := (s, _)) (hadmin ▸ hs.obeys_idle _) (hnone (by simp [hroute]))
  | append =>
    cases hrejection : c.rejection with
    | some response =>
      have hadmin : (perRule x o).admin s.down (s.app.entries.map (·.rule)) c =
          (s.down, .idle, some response) := by
        simp [perRule, hroute, hrejection]
      exact Obeys.follows (r := (s, _)) (hadmin ▸ hs.obeys_idle _) (hnone (by simp [hroute]))
    | none =>
      have hadmin : (perRule x o).admin s.down (s.app.entries.map (·.rule)) c =
          registryCall { x with readFile := c.files } o true 201 "added" s.down c.req.body := by
        simp [perRule, hroute, hrejection]
      exact Obeys.follows (hadmin ▸ hs.handleAppendRules c.req.body) (hnone (by simp [hroute]))
  | replace =>
    cases hrejection : c.rejection with
    | some response =>
      have hadmin : (perRule x o).admin s.down (s.app.entries.map (·.rule)) c =
          (s.down, .idle, some response) := by
        simp [perRule, hroute, hrejection]
      exact Obeys.follows (r := (s, _)) (hadmin ▸ hs.obeys_idle _) (hnone (by simp [hroute]))
    | none =>
      have hadmin : (perRule x o).admin s.down (s.app.entries.map (·.rule)) c =
          registryCall { x with readFile := c.files } o false 200 "loaded" s.down c.req.body := by
        simp [perRule, hroute, hrejection]
      exact Obeys.follows (hadmin ▸ hs.handleReplaceRules c.req.body) (hnone (by simp [hroute]))

/-- The run lemma. -/
theorem sound_run {x : External} {o : OverflowChecks} {s s' : Server α} {calls : List (Call α)}
    {outs : List (Option ℕ × Option Response)} (hs : s.Sound)
    (hrun : run (Server.next x o) s calls = some (s', outs)) : s'.Sound :=
  run_inv_of_along (I := Sound) (C := fun _ _ _ => True)
    (fun s c r hs hstep _ => by
      obtain rfl := Option.some.inj hstep
      exact (hs.serve x o c).sound)
    (along_of_forall_mem (Q := fun _ => True) fun _ _ => trivial) hrun hs

theorem run_view {x : External} {o : OverflowChecks} {s : Server α} (hs : s.Sound)
    (calls : List (Call α)) :
    (run (Server.next x o) s calls).map (Prod.map view id) =
      run (perRule x o).next s.view calls := by
  refine run_map (C := fun s _ _ => s.Sound) ?_ ?_
  · intro s c hsound
    have hs : s.Sound := hsound _ rfl
    have hfollows := hs.serve x o c
    exact congrArg some (Prod.ext hfollows.view hfollows.answer)
  · exact along_of_inv (I := Sound) (C := fun _ _ _ => True) (fun s c r hs hstep _ => by
      obtain rfl := Option.some.inj hstep
      exact ⟨hs, (hs.serve x o c).sound⟩) hs
      (along_of_forall_mem (Q := fun _ => True) fun _ _ => trivial)

theorem map_run_view {β : Type} {x : External} {o : OverflowChecks} {s : Server α} (hs : s.Sound)
    (calls : List (Call α))
    (f : (Bool × List (LiveRule α)) × List (Option ℕ × Option Response) → β) :
    (run (Server.next x o) s calls).map (fun r => f (r.1.view, r.2)) =
      (run (perRule x o).next s.view calls).map f := by
  rw [← run_view hs, Option.map_map]
  rfl

theorem run_forall {x : External} {o : OverflowChecks} {P : LiveRule α → Prop}
    (hhandle : ∀ live c, P live → P ⟨live.rule, (live.handle x o c).2.1⟩)
    (hnew : ∀ files body rules, parseBodyAsRules (x.withFiles files) body = .ok (.ok rules) →
      ∀ rule ∈ rules, ∀ live, LiveRule.new o rule = some live → P live)
    {calls : List (Call α)} {s t : Server α} {outs : List (Option ℕ × Option Response)}
    (hs : s.Sound) (hrun : run (next x o) s calls = some (t, outs)) (hP : ∀ live ∈ s.live, P live) :
    ∀ live ∈ t.live, P live := by
  have hview := run_view (x := x) (o := o) hs calls
  rw [hrun] at hview
  refine Parts.run_forall ?_ ?_ hview.symm hP
  · intro down live c h
    cases down with
    | true => exact h
    | false => exact hhandle live c h
  · intro down rules c live hmem
    obtain ⟨parsed, hparse, rule, hrule, hlive⟩ := mem_added hmem
    exact hnew c.files c.req.body parsed hparse rule hrule live hlive

end Server

/-- For every sequence of calls, the server with its shared tables answers as a table of rules does
in which each rule has objects of its own, and the answers come from the same rules. -/
theorem server_refines_rules [DecidableEq α] (x : External) (o : OverflowChecks)
    (calls : List (Call α)) :
    (run (Server.next x o) .new calls).map (Prod.map Server.view id) =
      run (perRule x o).next (false, []) calls :=
  Server.run_view Server.sound_new calls

end Mockinx
