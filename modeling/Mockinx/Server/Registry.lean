import Mockinx.Lib.Run
import Mockinx.Reply.CrudFresh
import Mockinx.Server.State

/-!
The rule registry over any sequence of calls that do not overlap. Its five tables are one list of
rules: a valid append extends the list, a valid replacement becomes the list, and any other body
leaves it alone.
-/

set_option autoImplicit false
set_option relaxedAutoImplicit false

namespace Mockinx

open Lib Lib.Run

/-- A call that changes the registry, with its body. -/
inductive AdminCall where
  | post (body : List UInt8)
  | put (body : List UInt8)

def AdminCall.body : AdminCall → List UInt8
  | .post body => body
  | .put body => body

/-- What a call does to the list of rules. -/
def AdminCall.apply (x : External) (L : List Rule) (c : AdminCall) : List Rule :=
  match parseBodyAsRules x c.body, c with
  | .ok (.ok rules), .post _ => L ++ rules
  | .ok (.ok rules), .put _ => rules
  | _, _ => L

variable {ι : Type}

/-- One call by a handler. A panic while registering ends the run. -/
def AppState.serve (x : External) (o : OverflowChecks) (s : AppState ι) (c : ι × AdminCall) :
    Option (AppState ι × Except Panic Response) :=
  match c.2 with
  | .post body => (handleAppendRules x o s c.1 body).toOption
  | .put body => (handleReplaceRules x o s c.1 body).toOption

/-- The slot of a rule among the resource stores: a store built from its specification when the
rule replies with a resource, and nothing otherwise. -/
def StoreFor (o : OverflowChecks) (slot : Option (Arc ι CrudStore)) : Option Rule → Prop
  | some rule =>
    match rule.reply with
    | .crud spec _ => ∃ arc, slot = some arc ∧ CrudStore.new o spec = .ok arc.value
    | _ => slot = none
  | none => slot = none

structure Tables (o : OverflowChecks) (s : AppState ι) (L : List Rule) : Prop where
  rules : s.entries.map (·.rule) = L
  indices : s.entries.map (·.index) = List.range L.length
  runtimes : s.runtimes.map (·.value) = L.map fun rule => .new rule.behavior
  crud : ∀ i, StoreFor o (s.crudStores i) L[i]?

/-- The registry holds a list of rules: its tables do, and the counter is its length. -/
structure Registers (o : OverflowChecks) (s : AppState ι) (L : List Rule) : Prop extends
    Tables o s L where
  counter : s.stubCounter = L.length

/-- No initial item of the rule's resource has the largest 64-bit integer for its id. -/
def SeedsBelowMax (rule : Rule) : Prop :=
  ∀ spec headers, rule.reply = .crud spec headers → ∀ item ∈ spec.data,
    item.get? spec.id.name ≠ some (.ofNat (UInt64.ofNat (2 ^ 64 - 1)))

private theorem max_eq_or (a b : UInt64) : max a b = a ∨ max a b = b := by
  simp only [max]
  split_ifs
  · exact Or.inr rfl
  · exact Or.inl rfl

private theorem foldl_max_mem (l : List UInt64) (m : UInt64) :
    l.foldl max m = m ∨ l.foldl max m ∈ l := by
  induction l generalizing m with
  | nil => exact Or.inl rfl
  | cons a l ih =>
    rw [List.foldl_cons, List.mem_cons]
    rcases ih (max m a) with h | h
    · rw [h]
      exact (max_eq_or m a).imp_right Or.inl
    · exact Or.inr (Or.inr h)

theorem maxId_lt {spec : CrudSpec} (h : ∀ item ∈ spec.data,
    item.get? spec.id.name ≠ some (.ofNat (UInt64.ofNat (2 ^ 64 - 1)))) :
    spec.maxId.toNat + 1 < 2 ^ 64 := by
  have hne : spec.maxId ≠ UInt64.ofNat (2 ^ 64 - 1) := by
    rcases foldl_max_mem (CrudStore.loadIds spec.id.name spec.data) 0 with hz | hmem
    · rw [CrudSpec.maxId, hz]
      decide
    · intro heq
      obtain ⟨item, hitem, hid⟩ := List.mem_filterMap.mp hmem
      obtain ⟨v, hv, hn⟩ := Option.bind_eq_some_iff.mp hid
      refine h item hitem (hv.trans ?_)
      change _ = some spec.maxId at hn
      rw [heq] at hn
      cases v with
      | number n =>
        cases n with
        | posInt m => exact congrArg (fun m => some (Value.ofNat m)) (Option.some.inj hn)
        | negInt i => simp [Value.asU64, Number.asU64] at hn
        | float t => simp [Value.asU64, Number.asU64] at hn
      | _ => simp [Value.asU64] at hn
  have hlt := spec.maxId.toNat_lt
  by_contra hge
  refine hne (UInt64.toNat_inj.mp ?_)
  have : (UInt64.ofNat (2 ^ 64 - 1)).toNat = 2 ^ 64 - 1 := by decide
  omega

private theorem tables_new (o : OverflowChecks) (s : AppState ι) (he : s.entries = [])
    (hr : s.runtimes = []) (hc : ∀ i, s.crudStores i = none) : Tables o s [] where
  rules := by simp [he]
  indices := by simp [he]
  runtimes := by simp [hr]
  crud i := by simp [hc, StoreFor]

private theorem registers_clearAll (o : OverflowChecks) (s : AppState ι) :
    Registers o s.clearAll [] where
  toTables := tables_new o _ rfl rfl fun _ => rfl
  counter := rfl

private theorem registers_new (o : OverflowChecks) :
    Registers o (AppState.new : AppState ι) [] where
  toTables := tables_new o _ rfl rfl fun _ => rfl
  counter := rfl

private theorem insertCrud_ok {o : OverflowChecks} {s : AppState ι} {rule : Rule} {idx : ℕ}
    (hseed : SeedsBelowMax rule) (hempty : s.crudStores idx = none) (origin : Origin ι) :
    ∃ t, s.insertCrud o origin rule idx = .ok t ∧ t.entries = s.entries ∧
      t.runtimes = s.runtimes ∧ t.stubCounter = s.stubCounter ∧
      (∀ i, i ≠ idx → t.crudStores i = s.crudStores i) ∧
      StoreFor o (t.crudStores idx) (some rule) := by
  cases hreply : rule.reply with
  | crud spec headers =>
    obtain ⟨store, hstore⟩ := CrudStore.exists_new o (maxId_lt (hseed spec headers hreply))
    let arc : Arc ι CrudStore := { value := store, origin := some origin }
    refine ⟨{ s with crudStores := Function.update s.crudStores idx (some arc) }, ?_,
      rfl, rfl, rfl, fun i hi => Function.update_of_ne hi _ _, ?_⟩
    · simp only [AppState.insertCrud, hreply, hstore, Except.map, arc]
    · simp only [StoreFor, hreply, Function.update_self]
      exact ⟨arc, rfl, hstore⟩
  | static r | sequence rs =>
    refine ⟨s, by simp only [AppState.insertCrud, hreply], rfl, rfl, rfl, fun _ _ => rfl, ?_⟩
    simpa only [StoreFor, hreply] using hempty

private theorem Tables.registerRule {o : OverflowChecks} {s : AppState ι} {L : List Rule}
    {rule : Rule} (h : Tables o s L) (hseed : SeedsBelowMax rule) (origin : Origin ι) :
    ∃ s', s.registerRule o origin rule L.length = .ok s' ∧ Tables o s' (L ++ [rule]) ∧
      s'.stubCounter = s.stubCounter := by
  have hlen : s.runtimes.length = L.length := by
    simpa using congrArg List.length h.runtimes
  have hempty : s.crudStores L.length = none := by
    have := h.crud L.length
    rwa [List.getElem?_eq_none le_rfl] at this
  obtain ⟨t, ht, he, hr, hc, hother, hown⟩ :=
    insertCrud_ok (o := o) (s := s.setRuntime origin rule L.length) hseed hempty origin
  rw [AppState.runtimes_setRuntime origin rule hlen] at hr
  have he : t.entries = s.entries := he
  refine ⟨t.push origin rule L.length, by rw [AppState.registerRule, ht]; rfl, ?_, hc⟩
  constructor
  · simp [AppState.push, he, h.rules]
  · simp [AppState.push, he, h.indices, List.range_succ]
  · simp [AppState.push, hr, h.runtimes]
  · intro i
    change StoreFor o (t.crudStores i) _
    rcases lt_trichotomy i L.length with hi | rfl | hi
    · rw [hother i hi.ne, List.getElem?_append_left hi]
      exact h.crud i
    · simpa using hown
    · rw [hother i hi.ne', List.getElem?_eq_none (by simp; omega)]
      have := h.crud i
      rwa [List.getElem?_eq_none hi.le] at this

private theorem Tables.registerFrom {o : OverflowChecks} {start i : ℕ} {s : AppState ι}
    {L rules : List Rule} (h : Tables o s L) (handler : ι) (hstart : start + i = L.length)
    (hseed : ∀ rule ∈ rules, SeedsBelowMax rule) :
    ∃ s', AppState.registerFrom o handler start i rules s = .ok s' ∧ Tables o s' (L ++ rules) ∧
      s'.stubCounter = s.stubCounter := by
  induction rules generalizing s i L with
  | nil => exact ⟨s, rfl, by simpa using h, rfl⟩
  | cons rule rules ih =>
    obtain ⟨s₁, hs₁, ht₁, hc₁⟩ := h.registerRule (hseed rule (by simp)) ⟨handler, i⟩
    obtain ⟨s₂, hs₂, ht₂, hc₂⟩ := ih ht₁ (i := i + 1) (by simp; omega)
      fun r hr => hseed r (by simp [hr])
    refine ⟨s₂, ?_, by simpa using ht₂, hc₂.trans hc₁⟩
    rw [AppState.registerFrom, hstart, hs₁]
    exact hs₂

private theorem Registers.registerRules {o : OverflowChecks} {s : AppState ι} {L rules : List Rule}
    (h : Registers o s L) (handler : ι) (hseed : ∀ rule ∈ rules, SeedsBelowMax rule) :
    ∃ s', s.registerRules o handler rules = .ok s' ∧ Registers o s' (L ++ rules) := by
  have ht : Tables o (s.fetchAdd rules.length) L := ⟨h.rules, h.indices, h.runtimes, h.crud⟩
  have hstart : s.stubCounter + 0 = L.length := h.counter
  obtain ⟨s', hs', ht', hc'⟩ := ht.registerFrom handler hstart hseed
  refine ⟨s', hs', ht', ?_⟩
  rw [hc', AppState.fetchAdd, h.counter, List.length_append]

private theorem Registers.serve {x : External} {o : OverflowChecks} {s : AppState ι} {L : List Rule}
    {c : ι × AdminCall} (h : Registers o s L)
    (hseed : ∀ rules, parseBodyAsRules x c.2.body = .ok (.ok rules) →
      ∀ rule ∈ rules, SeedsBelowMax rule) :
    ∃ s' r, s.serve x o c = some (s', r) ∧ Registers o s' (c.2.apply x L) := by
  obtain ⟨handler, call⟩ := c
  cases call with
  | post body =>
    simp only [AppState.serve, handleAppendRules, AdminCall.apply, AdminCall.body] at hseed ⊢
    cases hp : parseBodyAsRules x body with
    | error p => exact ⟨s, _, rfl, h⟩
    | ok parsed =>
      cases parsed with
      | error response => exact ⟨s, _, rfl, h⟩
      | ok rules =>
        obtain ⟨s', hs', hr'⟩ := h.registerRules handler (hseed rules hp)
        simp only [hs', Except.map, Except.toOption]
        exact ⟨s', _, rfl, hr'⟩
  | put body =>
    simp only [AppState.serve, handleReplaceRules, AdminCall.apply, AdminCall.body] at hseed ⊢
    cases hp : parseBodyAsRules x body with
    | error p => exact ⟨s, _, rfl, h⟩
    | ok parsed =>
      cases parsed with
      | error response => exact ⟨s, _, rfl, h⟩
      | ok rules =>
        obtain ⟨s', hs', hr'⟩ :=
          (registers_clearAll o s).registerRules handler (hseed rules hp)
        simp only [hs', Except.map, Except.toOption]
        exact ⟨s', _, rfl, by simpa using hr'⟩

/-- What the endpoint and the matcher make of a list of rules: the sources are listed most recent
first, and a request gets the entry of the last rule that accepts it. -/
structure Observed (s : AppState ι) (L : List Rule) : Prop where
  listed : (handleListRules s).body =
    .full (utf8 (Value.array (L.map fun rule => rule.source).reverse).toString)
  matched : ∀ method path,
    (matchRequest s.entries method path = none ∧
      ∀ rule ∈ L, rule.matchRule.matches method path = false) ∨
    ∃ (i : ℕ) (e : RuleEntry ι), matchRequest s.entries method path = some e ∧ e.index = i ∧
      L[i]? = some e.rule ∧ e.rule.matchRule.matches method path = true ∧
      ∀ (j : ℕ) (rule : Rule), i < j → L[j]? = some rule →
        rule.matchRule.matches method path = false

private theorem Tables.observed {o : OverflowChecks} {s : AppState ι} {L : List Rule}
    (h : Tables o s L) : Observed s L where
  listed := by
    have hsources : listSources s.entries = (L.map fun rule => rule.source).reverse := by
      rw [listSources, ← h.rules, List.map_map, List.map_reverse]
      rfl
    rw [handleListRules, hsources]
  matched method path := by
    rcases matchRequest_spec s.entries method path with ⟨hnone, hall⟩ | ⟨i, e, he, hget, hm, hl⟩
    · refine Or.inl ⟨hnone, fun rule hrule => ?_⟩
      rw [← h.rules] at hrule
      obtain ⟨e, hmem, rfl⟩ := List.mem_map.mp hrule
      exact hall e hmem
    · refine Or.inr ⟨i, e, he, ?_, ?_, hm, ?_⟩
      · have hlt : i < L.length := by
          rw [← h.rules, List.length_map]
          exact (List.getElem?_eq_some_iff.mp hget).1
        have hi := congrArg (·[i]?) h.indices
        simpa [hget, List.getElem?_range hlt] using hi
      · rw [← h.rules, List.getElem?_map, hget]
        rfl
      · intro j rule hj hrule
        rw [← h.rules, List.getElem?_map] at hrule
        obtain ⟨e', he', rfl⟩ := Option.map_eq_some_iff.mp hrule
        exact hl j e' hj he'

private theorem Registers.run {x : External} {o : OverflowChecks} {s : AppState ι} {L : List Rule}
    {calls : List (ι × AdminCall)} (h : Registers o s L)
    (hseed : ∀ c ∈ calls, ∀ rules, parseBodyAsRules x c.2.body = .ok (.ok rules) →
      ∀ rule ∈ rules, SeedsBelowMax rule) :
    ∃ s' outs, Run.run (AppState.serve x o) s calls = some (s', outs) ∧
      Registers o s' (calls.foldl (fun L c => c.2.apply x L) L) := by
  induction calls generalizing s L with
  | nil => exact ⟨s, [], rfl, h⟩
  | cons c calls ih =>
    obtain ⟨s₁, r, hstep, h₁⟩ := h.serve (hseed c (by simp))
    obtain ⟨s₂, outs, hrun, h₂⟩ := ih h₁ fun d hd => hseed d (by simp [hd])
    exact ⟨s₂, r :: outs, run_cons_eq_some.mpr ⟨s₁, r, outs, hstep, hrun, rfl⟩, h₂⟩

/-- The registry refines a list of rules: over any sequence of calls no call fails to finish, and
afterwards the tables, the counter, the listing and the matching are those of the list. -/
theorem registry_refines_list (x : External) (o : OverflowChecks) (calls : List (ι × AdminCall))
    (hseed : ∀ c ∈ calls, ∀ rules, parseBodyAsRules x c.2.body = .ok (.ok rules) →
      ∀ rule ∈ rules, SeedsBelowMax rule) :
    ∃ s outs, run (AppState.serve x o) AppState.new calls = some (s, outs) ∧
      Registers o s (calls.foldl (fun L c => c.2.apply x L) []) ∧
      Observed s (calls.foldl (fun L c => c.2.apply x L) []) := by
  obtain ⟨s, outs, hrun, h⟩ := (registers_new o).run hseed
  exact ⟨s, outs, hrun, h, h.toTables.observed⟩

theorem registry_refines_list_two_calls :
    let v : Value := .obj [("match", .string "_"), ("reply", .obj [] (by decide))] (by decide)
    let x : External := { (default : External) with fromStr := fun _ => .ok v }
    let body := utf8 "\x7b\"match\": \"_\", \"reply\": \x7b\x7d\x7d"
    let calls := [(0, AdminCall.post body), (1, AdminCall.put body)]
    ∃ s outs, run (AppState.serve x .checked) (AppState.new : AppState ℕ) calls = some (s, outs) ∧
      Registers .checked s (calls.foldl (fun L c => c.2.apply x L) []) := by
  intro v x body calls
  have hstatic : ∃ rule r, parseRules x v none = .ok [rule] ∧ rule.reply = .static r :=
    ⟨_, _, rfl, rfl⟩
  obtain ⟨rule, r, hparse, hreply⟩ := hstatic
  have hseed : ∀ c ∈ calls, ∀ rules, parseBodyAsRules x c.2.body = .ok (.ok rules) →
      ∀ rule ∈ rules, SeedsBelowMax rule := by
    intro c _ rules hrules q hq spec headers hspec
    have hone : rules = [rule] := by
      rw [parseBodyAsRules] at hrules
      split at hrules
      · cases hrules
      · rw [show x.fromStr _ = .ok v from rfl] at hrules
        simpa [hparse, eq_comm] using hrules
    rw [hone, List.mem_singleton] at hq
    subst hq
    simp [hreply] at hspec
  obtain ⟨s, outs, hrun, hreg, _⟩ := registry_refines_list x .checked calls hseed
  exact ⟨s, outs, hrun, hreg⟩

end Mockinx
