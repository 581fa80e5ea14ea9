import Mockinx.RuleSource
import Mockinx.Server.Isolation

/-!
The listing of the rules, loaded again. The listing shows the most recent rule first and a load
registers it first, so that the rules come back in the opposite order.
-/

set_option autoImplicit false
set_option relaxedAutoImplicit false

namespace Mockinx

open Lib Lib.Run Lib.Parts

variable {α : Type}

structure Rule.Reloadable (x : External) (o : OverflowChecks) (rule : Rule) : Prop where
  source : rule.FromSource x
  alive : ∃ crud, ∀ α : Type,
    LiveRule.new o rule = some (⟨rule, .fresh rule crud⟩ : LiveRule α)

private theorem LiveRule.new_eq_some {o : OverflowChecks} {rule : Rule} {live : LiveRule α}
    (h : LiveRule.new o rule = some live) :
    ∃ crud, live = ⟨rule, .fresh rule crud⟩ ∧ ∀ β : Type,
      LiveRule.new o rule = some (⟨rule, .fresh rule crud⟩ : LiveRule β) := by
  rw [LiveRule.new] at h
  cases hreply : rule.reply with
  | crud spec headers =>
    rw [hreply] at h
    cases hnew : CrudStore.new o spec with
    | error p => simp [hnew] at h
    | ok store =>
      simp only [hnew, Option.some.injEq] at h
      exact ⟨some store, h.symm, fun β => by simp only [LiveRule.new, hreply, hnew]⟩
  | static r | sequence rs =>
    rw [hreply] at h
    exact ⟨none, (Option.some.inj h).symm, fun β => by simp only [LiveRule.new, hreply]⟩

private theorem liveRules_of_reloadable {x : External} {o : OverflowChecks} {rules : List Rule}
    (h : ∀ rule ∈ rules, rule.Reloadable x o) :
    (liveRules (α := α) o rules).2 = true ∧
      (liveRules (α := α) o rules).1.map (·.rule) = rules := by
  induction rules with
  | nil => exact ⟨rfl, rfl⟩
  | cons rule rules ih =>
    obtain ⟨⟨_, crud, halive⟩, hrules⟩ := List.forall_mem_cons.mp h
    obtain ⟨hok, hmap⟩ := ih hrules
    rw [liveRules, halive α]
    exact ⟨hok, congrArg (rule :: ·) hmap⟩

variable [DecidableEq α]

private theorem reloadable_run {x : External} {o : OverflowChecks} {parent : String → Option String}
    {config : Option String} {s₀ s : Server α}
    (hstart : (Server.start x o parent config).2 = some s₀)
    (hsources : ∀ live ∈ s₀.live, live.rule.FromSource x) {calls : List (Call α)}
    {outs : List (Option ℕ × Option Response)}
    (hrun : run (Server.next x o) s₀ calls = some (s, outs)) :
    ∀ live ∈ s.live, live.rule.Reloadable x o := by
  obtain ⟨hsound, _, hlives⟩ := Server.sound_start hstart
  refine Server.run_forall (P := fun live => live.rule.Reloadable x o) (fun _ _ h => h) ?_
    hsound hrun ?_
  swap
  · intro live hmem
    obtain ⟨_, _, _, rule, _, _, hnew⟩ := hlives live hmem
    obtain ⟨crud, rfl, halive⟩ := LiveRule.new_eq_some hnew
    exact ⟨hsources _ hmem, crud, halive⟩
  intro files body rules hparse rule hmem live hnew
  obtain ⟨v, hv⟩ := parseRules_of_body hparse
  obtain ⟨crud, rfl, halive⟩ := LiveRule.new_eq_some hnew
  exact ⟨parseRules_fromSource ((parseRules_withFiles x files v none).symm.trans hv) rule hmem,
    crud, halive⟩

/-- The listing of some rules as a value, the most recent rule first. -/
def listingValue (rules : List Rule) : Value := .array (rules.reverse.map (·.source))

omit [DecidableEq α] in
private theorem Server.listing_body (s : Server α) : (handleListRules s.app).body =
    .full (utf8 (listingValue (s.live.map (·.rule))).toString) := by
  have hsources : listSources s.app.entries =
      (s.live.map (·.rule)).reverse.map (·.source) := by
    rw [s.live_rule, ← List.map_reverse, List.map_map]
    rfl
  rw [handleListRules, hsources]
  rfl

/-- When the body of a listing is loaded into the server that gave it, by a reader that understands
what is printed, all rules come back, in the opposite order. The server was started without a config
file, or with one whose rules are the same when their sources are read without its directory. -/
theorem listing_reloads {x : External} {o : OverflowChecks} {parent : String → Option String}
    {config : Option String} {s₀ s : Server α}
    (hstart : (Server.start x o parent config).2 = some s₀)
    (hsources : ∀ live ∈ s₀.live, live.rule.FromSource x) {calls : List (Call α)}
    {outs : List (Option ℕ × Option Response)}
    (hrun : run (Server.next x o) s₀ calls = some (s, outs)) (hup : s.down = false)
    {rules : List Rule} (hrules : s.live.map (·.rule) = rules)
    (hread : x.fromStr (listingValue rules).toString = .ok (listingValue rules))
    {c : Call α} (hroute : route c.req.method c.req.path = .replace)
    (haccepted : c.rejection = none)
    (hbody : (handleListRules s.app).body = .full c.req.body) :
    (s.serve x o c).2 = (none, some (textResponse 200 (rulesMessage rules.reverse "loaded"))) ∧
      (s.serve x o c).1.down = false ∧
      (s.serve x o c).1.live.map (·.rule) = rules.reverse := by
  have hs := Server.sound_run (Server.sound_start hstart).1 hrun
  have hreload : ∀ rule ∈ rules.reverse, rule.Reloadable x o := by
    intro rule hmem
    rw [List.mem_reverse, ← hrules] at hmem
    obtain ⟨live, hlive, rfl⟩ := List.mem_map.mp hmem
    exact reloadable_run hstart hsources hrun live hlive
  have htext : c.req.body = utf8 (listingValue rules).toString := by
    rw [s.listing_body, hrules] at hbody
    exact (ResponseBody.full.inj hbody).symm
  have hparse : Replaces x c rules.reverse := by
    refine ⟨hroute, haccepted, ?_⟩
    rw [htext]
    refine parseBodyAsRules_utf8 hread ?_
    exact (parseRules_withFiles x c.files _ none).trans
      (parseRules_sources fun rule hmem => (hreload rule hmem).source)
  obtain ⟨hok, hlive⟩ := liveRules_of_reloadable (α := α) hreload
  obtain ⟨hanswer, hdown, hlives⟩ := hparse.serve hs hup hok
  exact ⟨hanswer, hdown, by rw [hlives, hlive]⟩

theorem listing_reloads_two_rules :
    let any : Value := .obj [("match", .string "_"), ("reply", .obj [] (by decide))] (by decide)
    let one : Value := .obj [("match", .string "_"), ("reply", .obj [("b", .null)] (by decide))]
      (by decide)
    let there : Value := .array [any, one]
    let back : Value := .array [one, any]
    let x : External := { (default : External) with
      fromStr := fun text => .ok (if text = there.toString then there else back) }
    let load := plainCall "PUT" "/_mx" (utf8 there.toString)
    let reload := plainCall "PUT" "/_mx" (utf8 back.toString)
    ∃ s outs first second, run (Server.next x .checked) .new [load] = some (s, outs) ∧
      s.live.map (·.rule) = [first, second] ∧
      (s.serve x .checked reload).2 =
        (none, some (textResponse 200 (rulesMessage [second, first] "loaded"))) ∧
      (s.serve x .checked reload).1.live.map (·.rule) = [second, first] := by
  intro any one there back x load reload
  obtain ⟨first, r, hfirst, hr⟩ : ∃ rule r,
      parseRule { x with readFile := load.files } any none = .ok rule ∧ rule.reply = .static r :=
    ⟨_, _, rfl, rfl⟩
  obtain ⟨second, r', hsecond, hr'⟩ : ∃ rule r,
      parseRule { x with readFile := load.files } one none = .ok rule ∧ rule.reply = .static r :=
    ⟨_, _, rfl, rfl⟩
  have hparse : parseRules { x with readFile := load.files } there none = .ok [first, second] := by
    have hsources := parseRules_sources (List.forall_mem_cons.mpr
      ⟨parseRule_fromSource hfirst, List.forall_mem_singleton.mpr (parseRule_fromSource hsecond)⟩)
    rwa [List.map_cons, List.map_singleton, parseRule_source hfirst, parseRule_source hsecond]
      at hsources
  have hread : x.fromStr there.toString = .ok there := congrArg Except.ok (if_pos rfl)
  have hback : x.fromStr back.toString = .ok back := congrArg Except.ok (if_neg (by decide))
  have hload : Replaces x load [first, second] := ⟨rfl, rfl, parseBodyAsRules_utf8 hread hparse⟩
  have hlive : liveRules (α := Unit) .checked [first, second] =
      ([⟨first, .fresh first none⟩, ⟨second, .fresh second none⟩], true) := by
    simp [liveRules, LiveRule.new, hr, hr']
  obtain ⟨s, outs, hrun, hup, hlives⟩ := hload.run_new hlive
  have hrules : s.live.map (·.rule) = [first, second] := by
    rw [hlives]
    rfl
  have hlisted : listingValue [first, second] = back := by
    change Value.array [second.source, first.source] = back
    rw [parseRule_source hfirst, parseRule_source hsecond]
  have hstart : (Server.start (α := Unit) x .checked (fun _ => none) none).2 = some .new := rfl
  have hreload := listing_reloads hstart (List.forall_mem_nil _) hrun hup hrules
    (by rw [hlisted, hback]) (c := reload) rfl rfl
    (by rw [Server.listing_body, hrules, hlisted]; rfl)
  exact ⟨s, outs, first, second, hrun, hrules, hreload.1, hreload.2.2⟩

end Mockinx
