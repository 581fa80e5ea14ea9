import Mockinx.Server.SharedTables

/-!
The start of the server, with the rules of a config file that is named on the command line, and
what a started server can become.
-/

set_option autoImplicit false
set_option relaxedAutoImplicit false

namespace Mockinx

open Lib Lib.Run

variable {α : Type}

namespace Server

/-- Load the rules of a config file: the lines on the terminal, and the server with the number of
rules or what went wrong, unless the program panics. `parent` is the directory part of a path. -/
def loadConfig (x : External) (o : OverflowChecks) (parent : String → Option String) (path : String)
    (s : Server α) : List String × Option (Except String (Server α × ℕ)) :=
  match x.readFile path with
  | .error e => ([], some (.error ("read error: " ++ e)))
  | .ok bytes =>
    match String.fromUTF8? ⟨bytes.toArray⟩ with
    | none => ([], some (.error "read error: stream did not contain valid UTF-8"))
    | some content =>
      match x.fromStr content with
      | .error e => ([], some (.error ("parse error: " ++ e)))
      | .ok val =>
        match parseRules x val (parent path) with
        | .error (.error e) => ([], some (.error ("rule error: " ++ e.toString)))
        | .error (.panic _) => ([], none)
        | .ok rules =>
          let (s, ok) := s.registerRules o rules
          ((validateRules rules).map (·.toString),
            if ok then some (.ok (s, rules.length)) else none)

/-- Start with the config file that is named on the command line, if any: the lines on the terminal,
and the server unless the process has ended. -/
def start (x : External) (o : OverflowChecks) (parent : String → Option String) :
    Option String → List String × Option (Server α)
  | none => ([], some .new)
  | some path =>
    match Server.new.loadConfig x o parent path with
    | (lines, some (.ok (s, count))) =>
      (lines ++ ["loaded " ++ toString count ++ " rule(s) from " ++ path], some s)
    | (lines, some (.error e)) =>
      (lines ++ ["error loading config " ++ path ++ ": " ++ e], none)
    | (lines, none) => (lines, none)

end Server

private theorem Server.loadConfig_ok {x : External} {o : OverflowChecks}
    {parent : String → Option String}
    {path : String} {s t : Server α} {lines : List String} {count : ℕ}
    (h : s.loadConfig x o parent path = (lines, some (.ok (t, count)))) :
    ∃ v rules, parseRules x v (parent path) = .ok rules ∧ s.registerRules o rules = (t, true) := by
  rw [loadConfig] at h
  cases hread : x.readFile path with
  | error e => simp [hread] at h
  | ok bytes =>
    simp only [hread] at h
    cases htext : String.fromUTF8? ⟨bytes.toArray⟩ with
    | none => simp [htext] at h
    | some text =>
      simp only [htext] at h
      cases hval : x.fromStr text with
      | error e => simp [hval] at h
      | ok val =>
        simp only [hval] at h
        rcases hrules : parseRules x val (parent path) with (e | p) | rules <;>
          simp only [hrules] at h
        · simp at h
        · simp at h
        · refine ⟨val, rules, hrules, ?_⟩
          rcases hreg : s.registerRules o rules with ⟨t', _ | _⟩ <;> rw [hreg] at h
          · simp at h
          · simp_all

theorem Server.sound_start {x : External} {o : OverflowChecks} {parent : String → Option String}
    {config : Option String} {s : Server α} (h : (Server.start x o parent config).2 = some s) :
    s.Sound ∧ s.down = false ∧ ∀ live ∈ s.live, ∃ v baseDir rules rule,
      parseRules x v baseDir = .ok rules ∧ rule ∈ rules ∧ LiveRule.new o rule = some live := by
  cases config with
  | none =>
    obtain rfl := Option.some.inj h
    exact ⟨sound_new, rfl, fun live hmem => by cases hmem⟩
  | some path =>
    rw [Server.start] at h
    rcases hload : Server.new.loadConfig x o parent path with ⟨lines, _ | (e | ⟨t, count⟩)⟩ <;>
      rw [hload] at h
    · cases h
    · cases h
    · obtain rfl := Option.some.inj h
      obtain ⟨v, rules, hparse, hreg⟩ := loadConfig_ok hload
      obtain ⟨hsound, hlive, hok, hdown⟩ := sound_new.registerRules (α := α) (o := o) rfl rules
      rw [hreg] at hsound hlive hok hdown
      refine ⟨hsound, hdown.trans (by rw [← hok]; rfl), fun live hmem => ?_⟩
      rw [hlive] at hmem
      obtain ⟨rule, hrule, hnew⟩ := mem_liveRules hmem
      exact ⟨v, parent path, rules, rule, hparse, hrule, hnew⟩

variable [DecidableEq α]

/-- The state of a server that was started with or without a config file and has answered some
calls, one after another. -/
def Server.Reached (x : External) (o : OverflowChecks) (s : Server α) : Prop :=
  ∃ parent config s₀ calls outs, (Server.start x o parent config).2 = some s₀ ∧
    run (Server.next x o) s₀ calls = some (s, outs)

theorem Server.Reached.sound {x : External} {o : OverflowChecks} {s : Server α}
    (h : s.Reached x o) : s.Sound := by
  obtain ⟨_, _, _, _, _, hstart, hrun⟩ := h
  exact sound_run (sound_start hstart).1 hrun

theorem Server.reached_of_run {x : External} {o : OverflowChecks} {calls : List (Call α)}
    {s : Server α} {outs : List (Option ℕ × Option Response)}
    (h : run (Server.next x o) .new calls = some (s, outs)) : s.Reached x o :=
  ⟨fun _ => none, none, .new, calls, outs, rfl, h⟩

end Mockinx
