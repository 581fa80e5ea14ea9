import Mathlib.Logic.Function.Basic
import Mockinx.Server.Handler
import Mockinx.Store
import Mockinx.Validate

/-!
The shared state behind the rule registry: the entries, the runtimes and the resource stores under
the entries' indices, and the counter of indices; and the handlers of the registry's endpoint.
-/

set_option autoImplicit false
set_option relaxedAutoImplicit false

namespace Mockinx

open Lib

/-- Shared application state. -/
structure AppState (ι : Type) where
  entries : List (RuleEntry ι)
  runtimes : List (Arc ι BehaviorRuntime)
  crudStores : ℕ → Option (Arc ι CrudStore)
  stubCounter : ℕ

variable {ι : Type}

namespace AppState

def new : AppState ι where
  entries := []
  runtimes := []
  crudStores := fun _ => none
  stubCounter := 0

def getRuntime (s : AppState ι) (idx : ℕ) : Option (Arc ι BehaviorRuntime) := s.runtimes[idx]?

def getCrudStore (s : AppState ι) (idx : ℕ) : Option (Arc ι CrudStore) := s.crudStores idx

def padding : Arc ι BehaviorRuntime where
  value := .new {}
  origin := none

/-- Write the runtime of a rule at an index, after filling up the vector to that index. -/
def setRuntime (s : AppState ι) (origin : Origin ι) (rule : Rule) (idx : ℕ) : AppState ι :=
  let filled := s.runtimes ++ List.replicate (idx + 1 - s.runtimes.length) padding
  { s with runtimes := filled.set idx { value := .new rule.behavior, origin := some origin } }

def insertCrud (o : OverflowChecks) (s : AppState ι) (origin : Origin ι) (rule : Rule)
    (idx : ℕ) : Except Panic (AppState ι) :=
  match rule.reply with
  | .crud spec _ => (CrudStore.new o spec).map fun store =>
      { s with
        crudStores := Function.update s.crudStores idx
          (some { value := store, origin := some origin }) }
  | _ => .ok s

/-- Add the entry of a rule. -/
def push (s : AppState ι) (origin : Origin ι) (rule : Rule) (idx : ℕ) : AppState ι :=
  { s with entries := s.entries ++ [{ rule, index := idx, origin }] }

def fetchAdd (s : AppState ι) (n : ℕ) : AppState ι := { s with stubCounter := s.stubCounter + n }

/-- Register one rule: its runtime, its resource store if it has one, and its entry. -/
def registerRule (o : OverflowChecks) (s : AppState ι) (origin : Origin ι) (rule : Rule)
    (idx : ℕ) : Except Panic (AppState ι) :=
  ((s.setRuntime origin rule idx).insertCrud o origin rule idx).map fun s =>
    s.push origin rule idx

def registerFrom (o : OverflowChecks) (handler : ι) (start : ℕ) :
    ℕ → List Rule → AppState ι → Except Panic (AppState ι)
  | _, [], s => .ok s
  | i, rule :: rules, s =>
    match s.registerRule o ⟨handler, i⟩ rule (start + i) with
    | .ok s => registerFrom o handler start (i + 1) rules s
    | .error p => .error p

/-- Register rules under consecutive indices from the counter. -/
def registerRules (o : OverflowChecks) (s : AppState ι) (handler : ι) (rules : List Rule) :
    Except Panic (AppState ι) :=
  registerFrom o handler s.stubCounter 0 rules (s.fetchAdd rules.length)

theorem runtimes_setRuntime {s : AppState ι} (origin : Origin ι) (rule : Rule) {idx : ℕ}
    (h : s.runtimes.length = idx) : (s.setRuntime origin rule idx).runtimes =
      s.runtimes ++ [{ value := .new rule.behavior, origin := some origin }] := by
  have hone : idx + 1 - s.runtimes.length = 1 := by omega
  simp [setRuntime, ← h]

theorem getRuntime_setRuntime_self (s : AppState ι) (origin : Origin ι) (rule : Rule) (idx : ℕ) :
    (s.setRuntime origin rule idx).getRuntime idx =
      some { value := .new rule.behavior, origin := some origin } := by
  have hlt : idx < s.runtimes.length + (idx + 1 - s.runtimes.length) := by omega
  simp [setRuntime, getRuntime, hlt]

theorem getRuntime_setRuntime_of_ne (s : AppState ι) (origin : Origin ι) (rule : Rule)
    {idx k : ℕ} (hne : k ≠ idx) (hout : ¬ (s.runtimes.length ≤ k ∧ k < idx)) :
    (s.setRuntime origin rule idx).getRuntime k = s.getRuntime k := by
  simp only [setRuntime, getRuntime, List.getElem?_set_ne hne.symm]
  by_cases hk : k < s.runtimes.length
  · exact List.getElem?_append_left hk
  · rw [List.getElem?_eq_none (not_lt.mp hk), List.getElem?_eq_none]
    rw [List.length_append, List.length_replicate]
    omega

@[simp] theorem setRuntime_entries (s : AppState ι) (origin : Origin ι) (rule : Rule) (idx : ℕ) :
    (s.setRuntime origin rule idx).entries = s.entries := rfl

theorem insertCrud_spec {o : OverflowChecks} {s t : AppState ι} {origin : Origin ι} {rule : Rule}
    {idx : ℕ} (h : s.insertCrud o origin rule idx = .ok t) :
    t.entries = s.entries ∧ t.runtimes = s.runtimes ∧ t.stubCounter = s.stubCounter ∧
      (rule.reply.isCrud = true → ∃ store,
        t.crudStores = Function.update s.crudStores idx (some ⟨store, some origin⟩)) ∧
      (rule.reply.isCrud = false → t.crudStores = s.crudStores) := by
  rw [insertCrud] at h
  cases hreply : rule.reply with
  | crud spec headers =>
    rw [hreply] at h
    cases hnew : CrudStore.new o spec with
    | error p => simp [hnew, Except.map] at h
    | ok store =>
      simp only [hnew, Except.map, Except.ok.injEq] at h
      subst h
      exact ⟨rfl, rfl, rfl, fun _ => ⟨store, rfl⟩, nofun⟩
  | static r | sequence rs =>
    rw [hreply] at h
    obtain rfl := Except.ok.inj h
    exact ⟨rfl, rfl, rfl, nofun, fun _ => rfl⟩

/-- The entries of rules registered from a position on. -/
def newEntries (handler : ι) (start i : ℕ) (rules : List Rule) : List (RuleEntry ι) :=
  rules.mapIdx fun j rule =>
    { rule, index := start + (i + j), origin := ⟨handler, i + j⟩ }

private theorem newEntries_cons (handler : ι) (start i : ℕ) (rule : Rule) (rules : List Rule) :
    newEntries handler start i (rule :: rules) =
      { rule, index := start + i, origin := ⟨handler, i⟩ } ::
        newEntries handler start (i + 1) rules := by
  simp [newEntries, List.mapIdx_cons, Nat.add_assoc, Nat.add_comm 1]

theorem newEntries_index (handler : ι) (start i : ℕ) (rules : List Rule) :
    (newEntries handler start i rules).map (·.index) =
      List.range' (start + i) rules.length := by
  induction rules generalizing i with
  | nil => rfl
  | cons rule rules ih =>
    rw [newEntries_cons, List.map_cons, ih, List.length_cons, List.range'_succ]
    rfl

theorem newEntries_rule (handler : ι) (start i : ℕ) (rules : List Rule) :
    (newEntries handler start i rules).map (·.rule) = rules := by
  induction rules generalizing i with
  | nil => rfl
  | cons rule rules ih => rw [newEntries_cons, List.map_cons, ih]

theorem handler_of_mem_newEntries {handler : ι} {start i : ℕ} {rules : List Rule}
    {e : RuleEntry ι} (h : e ∈ newEntries handler start i rules) : e.origin.handler = handler := by
  obtain ⟨j, hj, rfl⟩ := List.mem_mapIdx.mp h
  rfl

theorem registerFrom_entries {o : OverflowChecks} {handler : ι} {start i : ℕ} {rules : List Rule}
    {s t : AppState ι} (h : registerFrom o handler start i rules s = .ok t) :
    t.entries = s.entries ++ newEntries handler start i rules ∧
      t.stubCounter = s.stubCounter := by
  induction rules generalizing s i with
  | nil =>
    rw [← Except.ok.inj h]
    simp [newEntries]
  | cons rule rules ih =>
    rw [registerFrom, registerRule] at h
    cases hc : (s.setRuntime ⟨handler, i⟩ rule (start + i)).insertCrud o ⟨handler, i⟩ rule
        (start + i) with
    | error p => simp [hc, Except.map] at h
    | ok m =>
      rw [hc] at h
      obtain ⟨he, _, hn, _, _⟩ := insertCrud_spec hc
      obtain ⟨he', hn'⟩ := ih h
      refine ⟨?_, hn'.trans hn⟩
      rw [he', newEntries_cons]
      simp [push, he]

def clearEntries (s : AppState ι) : AppState ι := { s with entries := [] }

def clearRuntimes (s : AppState ι) : AppState ι := { s with runtimes := [] }

def clearCrud (s : AppState ι) : AppState ι := { s with crudStores := fun _ => none }

def resetCounter (s : AppState ι) : AppState ι := { s with stubCounter := 0 }

/-- Clear all rules, runtimes and resource stores. -/
def clearAll (s : AppState ι) : AppState ι := s.clearEntries.clearRuntimes.clearCrud.resetCounter

end AppState

/-- A plain-text error. -/
def plainError (status : ℕ) (msg : String) : Response :=
  { status, headers := [("content-type", "text/plain")], body := .full (utf8 msg) }

def textResponse (status : ℕ) (msg : String) : Response :=
  { status, headers := [("content-type", "text/plain; charset=utf-8")], body := .full (utf8 msg) }

/-- The rules of a request body, or the error response. The parser may panic. -/
def parseBodyAsRules (x : External) (body : List UInt8) :
    Except Panic (Except Response (List Rule)) :=
  match String.fromUTF8? ⟨body.toArray⟩ with
  | none => .ok (.error (plainError 400 "invalid UTF-8"))
  | some text =>
    match x.fromStr text with
    | .error e => .ok (.error (plainError 400 ("parse error: " ++ e)))
    | .ok val =>
      match parseRules x val none with
      | .ok rules => .ok (.ok rules)
      | .error (.error e) => .ok (.error (plainError 400 e.toString))
      | .error (.panic p) => .error p

/-- The message about registered rules, with a line for each warning. -/
def rulesMessage (rules : List Rule) (verb : String) : String :=
  (validateRules rules).foldl (fun msg w => msg ++ "\n" ++ w.toString)
    (toString rules.length ++ " rule(s) " ++ verb)

/-- GET: list the active rules. -/
def handleListRules (s : AppState ι) : Response where
  status := 200
  headers := [("content-type", "application/json")]
  body := .full (utf8 (Value.array (listSources s.entries)).toString)

/-- POST: append rules. The client sees a response, or the handler panicked while parsing. -/
def handleAppendRules (x : External) (o : OverflowChecks) (s : AppState ι) (handler : ι)
    (body : List UInt8) : Except Panic (AppState ι × Except Panic Response) :=
  match parseBodyAsRules x body with
  | .error p => .ok (s, .error p)
  | .ok (.error response) => .ok (s, .ok response)
  | .ok (.ok rules) => (s.registerRules o handler rules).map fun s =>
      (s, .ok (textResponse 201 (rulesMessage rules "added")))

def handleReplaceRules (x : External) (o : OverflowChecks) (s : AppState ι) (handler : ι)
    (body : List UInt8) : Except Panic (AppState ι × Except Panic Response) :=
  match parseBodyAsRules x body with
  | .error p => .ok (s, .error p)
  | .ok (.error response) => .ok (s, .ok response)
  | .ok (.ok rules) => (s.clearAll.registerRules o handler rules).map fun s =>
      (s, .ok (textResponse 200 (rulesMessage rules "loaded")))

end Mockinx
