import Mockinx.Server.Isolation

/-!
The start of the server. A config file on the command line is loaded like a replacement of the
rules, except that the files of its replies are looked for next to it.
-/

set_option autoImplicit false
set_option relaxedAutoImplicit false

namespace Mockinx

open Lib Lib.Run

variable {α : Type}

/-- The same rule with the paths of its replies taken from a base directory. -/
def LiveRule.inDir (baseDir : Option String) (live : LiveRule α) : LiveRule α :=
  { live with rule := live.rule.inDir baseDir }

private theorem LiveRule.new_inDir (o : OverflowChecks) (rule : Rule) (baseDir : Option String) :
    LiveRule.new o (rule.inDir baseDir) =
      (LiveRule.new (α := α) o rule).map (·.inDir baseDir) := by
  obtain ⟨matchRule, reply, delivery, behavior, chaos, source⟩ := rule
  cases reply with
  | static r | sequence rs => rfl
  | crud spec headers =>
    simp only [LiveRule.new, Rule.inDir, ReplyStrategy.inDir]
    cases CrudStore.new o spec <;> rfl

private theorem liveRules_inDir (o : OverflowChecks) (rules : List Rule) (baseDir : Option String) :
    liveRules (α := α) o (rules.map (·.inDir baseDir)) =
      ((liveRules o rules).1.map (·.inDir baseDir), (liveRules (α := α) o rules).2) := by
  induction rules with
  | nil => rfl
  | cons rule rules ih =>
    rw [List.map_cons, liveRules, liveRules, LiveRule.new_inDir, ih]
    cases (LiveRule.new o rule : Option (LiveRule α)) <;> rfl

private theorem validateRules_inDir (rules : List Rule) (baseDir : Option String) :
    validateRules (rules.map (·.inDir baseDir)) = validateRules rules := by
  refine congrArg List.flatten (List.ext_getElem? fun i => ?_)
  rw [List.getElem?_mapIdx, List.getElem?_mapIdx, List.getElem?_map, List.length_map]
  cases rules[i]? <;> rfl

theorem parseBodyAsRules_withFiles (x : External) (files : String → Except String (List UInt8))
    (body : List UInt8) : parseBodyAsRules (x.withFiles files) body = parseBodyAsRules x body := by
  simp only [parseBodyAsRules, parseRules_withFiles]
  rfl

private theorem Server.loadConfig_of_body {x : External} {path : String} {bytes : List UInt8}
    (hread : x.readFile path = .ok bytes) (o : OverflowChecks) (parent : String → Option String)
    (s : Server α) :
    match parseBodyAsRules x bytes with
    | .error _ => s.loadConfig x o parent path = ([], none)
    | .ok (.error response) =>
      response.status = 400 ∧ ∃ e, s.loadConfig x o parent path = ([], some (.error e))
    | .ok (.ok rules) => s.loadConfig x o parent path = ((validateRules rules).map (·.toString),
        if (s.registerRules o (rules.map (·.inDir (parent path)))).2 then
          some (.ok ((s.registerRules o (rules.map (·.inDir (parent path)))).1, rules.length))
        else none) := by
  rw [loadConfig, hread, parseBodyAsRules]
  dsimp only
  cases String.fromUTF8? ⟨bytes.toArray⟩ with
  | none => exact ⟨rfl, _, rfl⟩
  | some text =>
    dsimp only
    cases x.fromStr text with
    | error e => exact ⟨rfl, _, rfl⟩
    | ok val =>
      dsimp only
      rw [parseRules_inDir x val (parent path)]
      rcases parseRules x val none with (e | p) | rules
      · exact ⟨rfl, _, rfl⟩
      · rfl
      · change (_, _) = (_, _)
        rw [validateRules_inDir, List.length_map]

variable [DecidableEq α]

/-- A server that starts with a config file is a new server whose rules are replaced by the content
of the file, with the paths of the replies taken from the file's directory. It answers like it from
then on if that makes no difference to a rule. Where the replacement is not accepted, the server
does not start. -/
theorem config_is_replacement (x : External) (o : OverflowChecks) (parent : String → Option String)
    {path : String} {c : Call α} (hroute : route c.req.method c.req.path = .replace)
    (haccepted : c.rejection = none) (hread : x.readFile path = .ok c.req.body) :
    let put := Server.new.serve x o c
    let start := Server.start (α := α) x o parent (some path)
    (∃ rules s, start = ((validateRules rules).map (·.toString) ++
          ["loaded " ++ toString rules.length ++ " rule(s) from " ++ path], some s) ∧
        put.2 = (none, some (textResponse 200 (rulesMessage rules "loaded"))) ∧
        s.Sound ∧ s.down = put.1.down ∧ s.live = put.1.live.map (·.inDir (parent path)) ∧
        ((∀ live ∈ put.1.live, live.inDir (parent path) = live) → ∀ later,
          (run (Server.next x o) s later).map (fun r => (r.1.down, r.1.live, r.2)) =
            (run (Server.next x o) put.1 later).map (fun r => (r.1.down, r.1.live, r.2)))) ∨
      start.2 = none ∧ ∀ response, put.2.2 = some response → response.status = 400 := by
  intro put start
  have hput : put = (let r := Server.new.handleReplaceRules (x.withFiles c.files) o c.req.body
      (r.1, none, r.2)) := by
    simp only [put, Server.serve, hroute, haccepted]
    rfl
  have hload := Server.loadConfig_of_body (α := α) hread o parent .new
  rw [Server.handleReplaceRules, parseBodyAsRules_withFiles] at hput
  rcases hbody : parseBodyAsRules x c.req.body with p | response | rules <;>
    rw [hbody] at hload hput
  · refine Or.inr ⟨by simp only [start, Server.start, hload], ?_⟩
    intro r hr
    rw [hput] at hr
    cases hr
  · obtain ⟨hstatus, e, hload⟩ := hload
    refine Or.inr ⟨by simp only [start, Server.start, hload], ?_⟩
    rw [hput]
    intro r hr
    rw [← Option.some.inj hr]
    exact hstatus
  · have hreplaces : Replaces x c rules := ⟨hroute, haccepted,
      (parseBodyAsRules_withFiles x c.files c.req.body).trans hbody⟩
    obtain ⟨hsound, hlive, hok, hdown⟩ := Server.sound_new.registerRules (α := α) (o := o) rfl
      (rules.map (·.inDir (parent path)))
    rw [liveRules_inDir] at hlive hok hdown
    dsimp only at hload
    cases hall : (liveRules (α := α) o rules).2 with
    | false =>
      have hanswer : put.2 = (none, none) := by
        rw [(Server.sound_new.serve x o c).answer]
        change ((perRule x o).step (false, []) c).2 = _
        rw [hreplaces.step, hall]
        rfl
      rw [hok, hall] at hload
      refine Or.inr ⟨by simp only [start, Server.start, hload]; rfl, ?_⟩
      intro r hr
      rw [hanswer] at hr
      cases hr
    | true =>
      obtain ⟨hanswer, hup, hlives⟩ := hreplaces.serve (o := o) Server.sound_new rfl hall
      rw [hok, hall, if_pos rfl] at hload
      have hsame := hdown.trans ((congrArg (! ·) hall).trans hup.symm)
      have hdirs := hlive.trans (congrArg (List.map _) hlives.symm)
      refine Or.inl ⟨rules, _, by simp only [start, Server.start, hload], hanswer, hsound, hsame,
        hdirs, fun hstay later => ?_⟩
      have hleft := Server.map_run_view (x := x) (o := o) hsound later fun r => (r.1.1, r.1.2, r.2)
      have hright := Server.map_run_view (x := x) (o := o) (Server.sound_new.serve x o c).sound
        later fun r => (r.1.1, r.1.2, r.2)
      rw [List.map_congr_left hstay, List.map_id'] at hdirs
      have hviews : (Server.new.registerRules o (rules.map (·.inDir (parent path)))).1.view =
        put.1.view := Prod.ext hsame hdirs
      refine hleft.trans (Eq.trans ?_ hright.symm)
      rw [hviews]

theorem config_is_replacement_elsewhere :
    let v : Value := .obj [("match", .string "_"),
      ("reply", .obj [("b", .obj [("file!", .string "a.txt")] (by decide))] (by decide))]
      (by decide)
    let x : External := { (default : External) with
      fromStr := fun _ => .ok v, readFile := fun _ => .ok (utf8 v.toString) }
    let c := plainCall "PUT" "/_mx" (utf8 v.toString)
    let put := Server.new.serve x .checked c
    ∃ s : Server Unit,
      (Server.start x .checked (fun _ => some "conf") (some "conf/rules.yaml")).2 = some s ∧
        s.down = put.1.down ∧ s.live = put.1.live.map (·.inDir (some "conf")) := by
  intro v x c put
  obtain ⟨rule, reply, hparse, hreply⟩ : ∃ rule reply,
      parseRules { x with readFile := c.files } v none = .ok [rule] ∧ rule.reply = .static reply :=
    ⟨_, _, rfl, rfl⟩
  have hc : Replaces x c [rule] := ⟨rfl, rfl, parseBodyAsRules_utf8 rfl hparse⟩
  have hlive : (liveRules (α := Unit) .checked [rule]).2 = true := by
    simp [liveRules, LiveRule.new, hreply]
  obtain ⟨hanswer, _, _⟩ := hc.serve Server.sound_new rfl hlive
  rcases config_is_replacement x .checked (fun _ => some "conf") (c := c) rfl rfl
      (show x.readFile "conf/rules.yaml" = .ok c.req.body from rfl) with
    ⟨rules, s, hstart, _, _, hdown, hlives, _⟩ | ⟨_, hstatus⟩
  · exact ⟨s, congrArg Prod.snd hstart, hdown, hlives⟩
  · exact absurd (hstatus _ (congrArg Prod.snd hanswer)) (show ¬ 200 = 400 by decide)

end Mockinx
