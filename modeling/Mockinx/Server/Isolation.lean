import Mockinx.Server.Start

/-!
What the rules of a running server know of each other, and what a replacement leaves behind. The
table of rules answers both questions; the shared tables give the same answers.
-/

set_option autoImplicit false
set_option relaxedAutoImplicit false

namespace Mockinx

open Lib Lib.Run Lib.Parts

variable {α : Type} [DecidableEq α]

namespace Server

theorem run_next_cons {x : External} {o : OverflowChecks} {s t : Server α} {c : Call α}
    {calls : List (Call α)} {outs : List (Option ℕ × Option Response)} :
    run (next x o) s (c :: calls) = some (t, outs) ↔
      ∃ rest, run (next x o) (s.serve x o c).1 calls = some (t, rest) ∧
        outs = (s.serve x o c).2 :: rest :=
  run_some_cons_eq_some

/-- Of some calls, those that one rule answers, and those to the registry or to no rule. -/
def keptFor (x : External) (o : OverflowChecks) (i : ℕ) : Server α → List (Call α) → List (Call α)
  | _, [] => []
  | s, c :: calls =>
    let r := s.serve x o c
    if Concerns i r.2.1 then c :: keptFor x o i r.1 calls else keptFor x o i r.1 calls

private theorem keptFor_eq {x : External} {o : OverflowChecks} {s : Server α} (hs : s.Sound) (i : ℕ)
    (calls : List (Call α)) : keptFor x o i s calls = (perRule x o).kept i s.view calls := by
  induction calls generalizing s with
  | nil => rfl
  | cons c calls ih =>
    have hfollows := hs.serve x o c
    simp only [keptFor, Parts.kept]
    rw [ih hfollows.sound, hfollows.view, hfollows.answer, Parts.step_tag]

end Server

/-- No rule notices the requests to the other rules, as long as calls are served one after another:
when they are left out of a run, it gives the same answers and ends with the same objects. The
registry does not notice them either. -/
theorem rule_isolated {x : External} {o : OverflowChecks} {s : Server α} (hs : s.Reached x o)
    (i : ℕ) (calls : List (Call α)) :
    (run (Server.next x o) s (Server.keptFor x o i s calls)).map (fun r => (r.1.live[i]?, r.2)) =
      (run (Server.next x o) s calls).map
        (fun r => (r.1.live[i]?, r.2.filter fun out => Concerns i out.1)) := by
  have hkept := Server.map_run_view (x := x) (o := o) hs.sound (Server.keptFor x o i s calls)
    fun r => (r.1.2[i]?, r.2)
  have hall := Server.map_run_view (x := x) (o := o) hs.sound calls
    fun r => (r.1.2[i]?, r.2.filter fun out => Concerns i out.1)
  obtain ⟨s', outs, hrun⟩ := @exists_run _ _ _ (perRule x o).next (fun _ => True)
    (fun _ _ _ => ⟨_, _, rfl, trivial⟩) s.view calls trivial
  obtain ⟨t', hrun', hagree⟩ := run_kept (Agree.refl (perRule x o) i _) hrun
  refine hkept.trans (Eq.trans ?_ hall.symm)
  rw [Server.keptFor_eq hs.sound, hrun, hrun']
  simp only [Option.map_some, hagree.part]

/-- Whether a call asks the registry for a change. -/
def Call.registers (c : Call α) : Bool :=
  match route c.req.method c.req.path with
  | .append | .replace => true
  | _ => false

/-- The rule that a call finds, if it is a request. -/
def Server.finds (s : Server α) (c : Call α) : Option ℕ :=
  if route c.req.method c.req.path = .request ∧ c.unreadable = false then
    lastMatch c.req.method c.req.path (s.live.map (·.rule))
  else none

omit [DecidableEq α] in
theorem Server.finds_of_catchAll {s : Server α} {live : LiveRule α} (hone : s.live = [live])
    (hmatch : live.rule.matchRule = .catchAll) {c : Call α}
    (hroute : route c.req.method c.req.path = .request) (hreadable : c.unreadable = false) :
    s.finds c = some 0 := by
  rw [finds, if_pos ⟨hroute, hreadable⟩, hone]
  simp [lastMatch, hmatch, MatchRule.matches]

/-- One request to a rule that is alone. -/
def LiveRule.serve (x : External) (o : OverflowChecks) (live : LiveRule α) (c : Call α) :
    LiveRule α × Option Response :=
  (⟨live.rule, (live.handle x o c).2.1⟩, (live.handle x o c).1)

private theorem Server.dest_eq_finds (x : External) (o : OverflowChecks) (s : Server α)
    (c : Call α) :
    (perRule x o).dest s.view.1 ((perRule x o).keys s.view) c = s.finds c := by
  rw [finds]
  by_cases hroute : route c.req.method c.req.path = .request
  · rw [dest_of_request hroute]
    cases c.unreadable with
    | true => simp
    | false => simp [hroute, perRule, Parts.keys, Server.view]
  · rw [dest_of_registry hroute, if_neg fun h => hroute h.1]

theorem Server.Sound.serve_found {s : Server α} (hs : s.Sound) (hup : s.down = false)
    (x : External) (o : OverflowChecks) {c : Call α} {i : ℕ} (hfinds : s.finds c = some i) :
    ∃ live, s.live[i]? = some live ∧ (s.serve x o c).2 = (some i, (live.serve x o c).2) := by
  have hdest := (s.dest_eq_finds x o c).trans hfinds
  obtain ⟨live, hlive⟩ := exists_part (s := s.view) hdest
  refine ⟨live, hlive, ?_⟩
  rw [(hs.serve x o c).answer, step_of_some hdest hlive]
  change (some i, ((perRule x o).serve s.down live c).2) = _
  rw [hup]
  rfl

theorem Server.Sound.serve_found_down {s : Server α} (hs : s.Sound) (hdown : s.down = true)
    (x : External) (o : OverflowChecks) {c : Call α} {i : ℕ} (hfinds : s.finds c = some i) :
    (s.serve x o c).2 = (some i, none) := by
  have hdest := (s.dest_eq_finds x o c).trans hfinds
  obtain ⟨live, hlive⟩ := exists_part (s := s.view) hdest
  rw [(hs.serve x o c).answer, step_of_some hdest hlive]
  change (some i, ((perRule x o).serve s.down live c).2) = _
  rw [hdown]
  rfl

theorem Server.Sound.serve_unfound {s : Server α} (hs : s.Sound) (x : External)
    (o : OverflowChecks) {c : Call α} (hroute : route c.req.method c.req.path = .request)
    (hfinds : s.finds c = none) : (s.serve x o c).2 = (none, some
      (if c.unreadable then textResponse 400 "failed to read body" else .ofStatus 404)) := by
  have hdest := (s.dest_eq_finds x o c).trans hfinds
  rw [(hs.serve x o c).answer, step_of_none hdest]
  simp only [perRule, hroute]

private theorem quiet_of_not_registers {x : External} {o : OverflowChecks} {c : Call α}
    (h : c.registers = false) (s : Bool × List (LiveRule α)) : (perRule x o).Quiet s c := by
  intro _
  rw [Call.registers] at h
  simp only [perRule]
  cases hroute : route c.req.method c.req.path with
  | list | methodNotAllowed | request => exact ⟨rfl, rfl⟩
  | append | replace =>
    rw [hroute] at h
    cases h

/-- While nobody changes the registry and calls are served one after another, the requests to
different rules may come in any order: as long as each rule gets its own requests in the same order,
it gives the same answers and ends with the same objects. -/
theorem requests_reorder {x : External} {o : OverflowChecks} {s t₁ t₂ : Server α}
    {outs₁ outs₂ : List (Option ℕ × Option Response)} (hs : s.Reached x o)
    {calls₁ calls₂ : List (Call α)}
    (hquiet₁ : ∀ c ∈ calls₁, c.registers = false) (hquiet₂ : ∀ c ∈ calls₂, c.registers = false)
    (hrun₁ : run (Server.next x o) s calls₁ = some (t₁, outs₁))
    (hrun₂ : run (Server.next x o) s calls₂ = some (t₂, outs₂))
    (hsame : ∀ i, (calls₁.filter fun c => s.finds c = some i) =
      calls₂.filter fun c => s.finds c = some i) :
    t₁.down = t₂.down ∧ t₁.live = t₂.live ∧
      ∀ i < s.live.length, answersOf i outs₁ = answersOf i outs₂ := by
  have hview₁ := Server.run_view (x := x) (o := o) hs.sound calls₁
  have hview₂ := Server.run_view (x := x) (o := o) hs.sound calls₂
  rw [hrun₁] at hview₁
  rw [hrun₂] at hview₂
  have hdest : ∀ i, (calls₁.filter fun c =>
        (perRule x o).dest s.view.1 ((perRule x o).keys s.view) c = some i) =
      calls₂.filter fun c =>
        (perRule x o).dest s.view.1 ((perRule x o).keys s.view) c = some i := by
    simpa only [Server.dest_eq_finds] using hsame
  obtain ⟨hend, hanswers⟩ := run_reorder hview₁.symm hview₂.symm
    (fun c hc => quiet_of_not_registers (hquiet₁ c hc) _)
    (fun c hc => quiet_of_not_registers (hquiet₂ c hc) _) hdest
  exact ⟨congrArg Prod.fst hend, congrArg Prod.snd hend, hanswers⟩

/-- A replacement that the server accepts. -/
structure Replaces (x : External) (c : Call α) (rules : List Rule) : Prop where
  route : route c.req.method c.req.path = .replace
  accepted : c.rejection = none
  parses : parseBodyAsRules { x with readFile := c.files } c.req.body = .ok (.ok rules)

theorem Replaces.step {x : External} {c : Call α} {rules : List Rule} (h : Replaces x c rules)
    (o : OverflowChecks) (lives : List (LiveRule α)) :
    (perRule x o).step (false, lives) c =
      ((!(liveRules (α := α) o rules).2, (liveRules o rules).1), none,
        if (liveRules (α := α) o rules).2 then
          some (textResponse 200 (rulesMessage rules "loaded")) else none) := by
  have hdest := Server.dest_of_registry (x := x) (o := o) (c := c) (by rw [h.route]; decide) false
    ((perRule x o).keys (false, lives))
  have hadmin : (perRule x o).admin false ((perRule x o).keys (false, lives)) c =
      (!(liveRules (α := α) o rules).2, ⟨false, (liveRules o rules).1⟩,
        if (liveRules (α := α) o rules).2 then
          some (textResponse 200 (rulesMessage rules "loaded")) else none) := by
    simp [perRule, h.route, h.accepted, registryCall, h.parses]
  rw [step_of_none hdest, hadmin]
  rfl

theorem Replaces.serve {x : External} {o : OverflowChecks} {c : Call α} {rules : List Rule}
    (h : Replaces x c rules) {s : Server α} (hs : s.Sound) (hup : s.down = false)
    (hlive : (liveRules (α := α) o rules).2 = true) :
    (s.serve x o c).2 = (none, some (textResponse 200 (rulesMessage rules "loaded"))) ∧
      (s.serve x o c).1.down = false ∧ (s.serve x o c).1.live = (liveRules o rules).1 := by
  have hfollows := hs.serve x o c
  have hstep := h.step o s.live
  have hview : s.view = (false, s.live) := Prod.ext hup rfl
  rw [← hview, hlive, if_pos rfl] at hstep
  refine ⟨by rw [hfollows.answer, hstep], ?_, ?_⟩
  · have hdown := congrArg Prod.fst hfollows.view
    rw [hstep] at hdown
    exact hdown
  · have hrules := congrArg Prod.snd hfollows.view
    rw [hstep] at hrules
    exact hrules

theorem Replaces.run_new {x : External} {o : OverflowChecks} {c : Call α} {rules : List Rule}
    (h : Replaces x c rules) {lives : List (LiveRule α)}
    (hlive : liveRules o rules = (lives, true)) :
    ∃ s outs, run (Server.next x o) .new [c] = some (s, outs) ∧ s.down = false ∧
      s.live = lives := by
  obtain ⟨_, hup, hlives⟩ := h.serve Server.sound_new rfl (congrArg Prod.snd hlive)
  exact ⟨_, _, Server.run_next_cons.mpr ⟨_, run_nil _, rfl⟩, hup,
    hlives.trans (congrArg Prod.fst hlive)⟩

/-- A replacement makes a server as good as new, as long as calls are served one after another:
whatever was asked of it before, the answers from the replacement on are those of a server that has
just been started. -/
theorem replacement_forgets {x : External} {o : OverflowChecks} {s : Server α}
    (hs : s.Reached x o) (hup : s.down = false) {c : Call α} {rules : List Rule}
    (hc : Replaces x c rules) (later : List (Call α)) :
    (run (Server.next x o) s (c :: later)).map (fun r => (r.1.down, r.1.live, r.2)) =
      (run (Server.next x o) .new (c :: later)).map (fun r => (r.1.down, r.1.live, r.2)) := by
  have hleft := Server.map_run_view (x := x) (o := o) hs.sound (c :: later)
    fun r => (r.1.1, r.1.2, r.2)
  have hright := Server.map_run_view (x := x) (o := o) Server.sound_new (c :: later)
    fun r => (r.1.1, r.1.2, r.2)
  refine hleft.trans (Eq.trans ?_ hright.symm)
  have hview : s.view = (false, s.live) := Prod.ext hup rfl
  have hnew : (Server.new : Server α).view = (false, []) := rfl
  rw [hview, hnew, run, run, Parts.next, Parts.next, hc.step, hc.step]

theorem serve_down_of_request (x : External) (o : OverflowChecks) (s : Server α) {c : Call α}
    (hroute : route c.req.method c.req.path = .request) : (s.serve x o c).1.down = s.down := by
  simp only [Server.serve, hroute, Server.handleRequest]
  split
  · rfl
  · cases matchRequest s.app.entries c.req.method c.req.path with
    | none => rfl
    | some e =>
      dsimp only
      split
      · rfl
      · rfl

/-- A call without anything special about it. -/
def plainCall (method path : String) (body : List UInt8) : Call Unit where
  addr := ()
  req := { method, path, query := "", headers := [], body }
  files := fun _ => .error ""
  out := ⟨.zero, true, 0, "", .zero, .zero⟩
  rng := ⟨fun _ => 0⟩

theorem rule_isolated_of_two :
    let any : Value := .obj [("match", .string "_"), ("reply", .obj [] (by decide))] (by decide)
    let v : Value := .array [any, any]
    let x : External := { (default : External) with fromStr := fun _ => .ok v }
    let put := plainCall "PUT" "/_mx" (utf8 v.toString)
    let get := plainCall "GET" "/a" []
    let list := plainCall "GET" "/_mx" []
    ∃ s outs, run (Server.next x .checked) .new [put] = some (s, outs) ∧ s.live.length = 2 ∧
      s.finds get = some 1 ∧
      (run (Server.next x .checked) s [list]).map (fun r => (r.1.live[0]?, r.2)) =
        (run (Server.next x .checked) s [get, list]).map
          (fun r => (r.1.live[0]?, r.2.filter fun out => Concerns 0 out.1)) := by
  intro any v x put get list
  obtain ⟨rule, r, hparse, hreply, hmatch⟩ : ∃ rule r,
      parseRules { x with readFile := put.files } v none = .ok [rule, rule] ∧
        rule.reply = .static r ∧ rule.matchRule = .catchAll :=
    ⟨_, _, rfl, rfl, rfl⟩
  have hput : Replaces x put [rule, rule] := ⟨rfl, rfl, parseBodyAsRules_utf8 rfl hparse⟩
  have hlive : liveRules (α := Unit) .checked [rule, rule] =
      ([⟨rule, .fresh rule none⟩, ⟨rule, .fresh rule none⟩], true) := by
    simp [liveRules, LiveRule.new, hreply]
  obtain ⟨s, outs, hrun, hup, htwo⟩ := hput.run_new hlive
  have hs : s.Reached x .checked := Server.reached_of_run hrun
  have hfinds : s.finds get = some 1 := by
    rw [Server.finds, if_pos ⟨rfl, rfl⟩, htwo]
    simp [lastMatch, hmatch, MatchRule.matches]
  obtain ⟨_, _, hserve⟩ := hs.sound.serve_found hup x .checked hfinds
  have hlist (t : Server Unit) : (t.serve x .checked list).2.1 = none := rfl
  have hkept : Server.keptFor x .checked 0 s [get, list] = [list] := by
    simp [Server.keptFor, hserve, hlist, Concerns]
  have hisolated := rule_isolated hs 0 [get, list]
  rw [hkept] at hisolated
  exact ⟨s, outs, hrun, by rw [htwo]; rfl, hfinds, hisolated⟩

theorem replacement_forgets_a_request :
    let v : Value := .obj [("match", .string "_"), ("reply", .obj [] (by decide))] (by decide)
    let x : External := { (default : External) with fromStr := fun _ => .ok v }
    let put := plainCall "PUT" "/_mx" (utf8 "")
    let get := plainCall "GET" "/a" []
    ∃ s outs, run (Server.next x .checked) .new [put, get] = some (s, outs) ∧ s.down = false ∧
      (run (Server.next x .checked) s [put, get]).map (fun r => (r.1.down, r.1.live, r.2)) =
        (run (Server.next x .checked) .new [put, get]).map
          (fun r => (r.1.down, r.1.live, r.2)) := by
  intro v x put get
  obtain ⟨rule, r, hparse, hreply⟩ : ∃ rule r,
      parseRules { x with readFile := put.files } v none = .ok [rule] ∧ rule.reply = .static r :=
    ⟨_, _, rfl, rfl⟩
  have hput : Replaces x put [rule] := ⟨rfl, rfl, parseBodyAsRules_utf8 rfl hparse⟩
  have hlive : (liveRules (α := Unit) .checked [rule]).2 = true := by
    simp [liveRules, LiveRule.new, hreply]
  obtain ⟨_, hup, _⟩ := hput.serve Server.sound_new rfl hlive
  have hstay := serve_down_of_request x .checked ((Server.new : Server Unit).serve x .checked put).1
    (c := get) rfl
  have hget := Server.run_next_cons (x := x) (o := .checked)
    (s := ((Server.new : Server Unit).serve x .checked put).1) (c := get) |>.mpr
      ⟨_, run_nil _, rfl⟩
  have hrun := Server.run_next_cons (s := (.new : Server Unit)) (c := put) |>.mpr ⟨_, hget, rfl⟩
  exact ⟨_, _, hrun, hstay.trans hup,
    replacement_forgets (Server.reached_of_run hrun) (hstay.trans hup) hput [get]⟩

theorem requests_reorder_listing :
    let v : Value := .obj [("match", .string "_"), ("reply", .obj [] (by decide))] (by decide)
    let x : External := { (default : External) with fromStr := fun _ => .ok v }
    let put := plainCall "PUT" "/_mx" (utf8 v.toString)
    let get := plainCall "GET" "/a" []
    let list := plainCall "GET" "/_mx" []
    ∃ s outs₀ t₁ t₂ outs₁ outs₂, run (Server.next x .checked) .new [put] = some (s, outs₀) ∧
      run (Server.next x .checked) s [get, list] = some (t₁, outs₁) ∧
      run (Server.next x .checked) s [list, get] = some (t₂, outs₂) ∧ s.live.length = 1 ∧
      t₁.live = t₂.live ∧ answersOf 0 outs₁ = answersOf 0 outs₂ := by
  intro v x put get list
  obtain ⟨rule, r, hparse, hreply⟩ : ∃ rule r,
      parseRules { x with readFile := put.files } v none = .ok [rule] ∧ rule.reply = .static r :=
    ⟨_, _, rfl, rfl⟩
  have hput : Replaces x put [rule] := ⟨rfl, rfl, parseBodyAsRules_utf8 rfl hparse⟩
  have hlive : liveRules (α := Unit) .checked [rule] = ([⟨rule, .fresh rule none⟩], true) := by
    simp [liveRules, LiveRule.new, hreply]
  obtain ⟨s, outs₀, hbefore, _, hone⟩ := hput.run_new hlive
  have hlength : s.live.length = 1 := by rw [hone]; rfl
  have hlist : s.finds list = none := if_neg (by decide)
  have hrun (first second : Call Unit) :
      run (Server.next x .checked) s [first, second] = some _ :=
    Server.run_next_cons.mpr ⟨_, Server.run_next_cons.mpr ⟨_, run_nil _, rfl⟩, rfl⟩
  obtain ⟨_, hlives, hanswers⟩ := requests_reorder (Server.reached_of_run hbefore) (by decide)
    (by decide) (hrun get list) (hrun list get) (fun i => by simp [List.filter, hlist])
  exact ⟨s, outs₀, _, _, _, _, hbefore, hrun get list, hrun list get, hlength, hlives,
    hanswers 0 (by rw [hlength]; decide)⟩

end Mockinx
