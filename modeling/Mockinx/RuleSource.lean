import Mockinx.Rule

/-!
What the meaning of a rule depends on besides its source: not on any file, and on the base directory
only in the paths of the files that its own replies send.
-/

set_option autoImplicit false
set_option relaxedAutoImplicit false

namespace Mockinx

open Lib

section Files

/-- Other files. -/
def External.withFiles (x : External) (files : String → Except String (List UInt8)) : External :=
  { x with readFile := files }

variable (x : External) (files : String → Except String (List UInt8))

theorem parseReplyStrategy_withFiles :
    parseReplyStrategy (x.withFiles files) = parseReplyStrategy x := rfl

theorem parseServe_withFiles : parseServe (x.withFiles files) = parseServe x := rfl

theorem parseChaosEntry_withFiles : parseChaosEntry (x.withFiles files) = parseChaosEntry x := rfl

private theorem parseChaosEntries_withFiles (totalP : F64) (items : List Value) :
    parseChaosEntries (x.withFiles files) totalP items = parseChaosEntries x totalP items := by
  induction items generalizing totalP with
  | nil => rfl
  | cons item items ih => simp only [parseChaosEntries, parseChaosEntry_withFiles, ih]

private theorem parseChaos_withFiles (v : Value) :
    parseChaos (x.withFiles files) v = parseChaos x v := by
  simp only [parseChaos, parseChaosEntries_withFiles]

private theorem parseRule_withFiles (v : Value) (baseDir : Option String) :
    parseRule (x.withFiles files) v baseDir = parseRule x v baseDir := by
  simp only [parseRule, parseReplyStrategy_withFiles, parseServe_withFiles, parseChaos_withFiles]
  rfl

private theorem parseRuleList_withFiles (baseDir : Option String) (i : ℕ) (items : List Value) :
    parseRuleList (x.withFiles files) baseDir i items = parseRuleList x baseDir i items := by
  induction items generalizing i with
  | nil => rfl
  | cons item items ih => simp only [parseRuleList, parseRule_withFiles, ih]

theorem parseRules_withFiles (v : Value) (baseDir : Option String) :
    parseRules (x.withFiles files) v baseDir = parseRules x v baseDir := by
  cases v <;> simp only [parseRules, parseRuleList_withFiles, parseRule_withFiles]

end Files

section BaseDir

def BodySpec.inDir (baseDir : Option String) : BodySpec → BodySpec
  | .file path => .file (resolvePath path baseDir)
  | body => body

def ReplySpec.inDir (baseDir : Option String) (reply : ReplySpec) : ReplySpec :=
  { reply with body := reply.body.inDir baseDir }

def ReplyStrategy.inDir (baseDir : Option String) : ReplyStrategy → ReplyStrategy
  | .static reply => .static (reply.inDir baseDir)
  | .sequence replies => .sequence (replies.map (·.inDir baseDir))
  | .crud spec headers => .crud spec headers

/-- The rule with the paths of its replies taken from a base directory. Those of its limits and of
its chaos entries stay as they are. -/
def Rule.inDir (baseDir : Option String) (rule : Rule) : Rule :=
  { rule with reply := rule.reply.inDir baseDir }

@[simp] theorem resolvePath_none (path : String) : resolvePath path none = path := by
  rw [resolvePath]
  split_ifs <;> rfl

private theorem parse_map_bind {α β γ : Type} (m : Parse α) (f : α → Parse β) (g : β → γ) :
    (m >>= f).map g = m >>= fun a => (f a).map g := by
  cases m <;> rfl

private theorem parse_bind_congr {α β : Type} {m : Parse α} {f g : α → Parse β}
    (h : ∀ a, m = .ok a → f a = g a) : m >>= f = m >>= g := by
  cases m with
  | error e => rfl
  | ok a => exact h a rfl

private theorem parseRandBody_inDir (val : Value) (baseDir : Option String) :
    (parseRandBody val).map (BodySpec.inDir baseDir) = parseRandBody val := by
  simp only [parseRandBody, parse_map_bind]
  rfl

private theorem parsePatternBody_inDir (val : Value) (baseDir : Option String) :
    (parsePatternBody val).map (BodySpec.inDir baseDir) = parsePatternBody val := by
  simp only [parsePatternBody, parse_map_bind]
  refine parse_bind_congr fun _ _ => parse_bind_congr fun repeated _ => ?_
  split_ifs
  · rfl
  · simp only [parse_map_bind]
    rfl

private theorem parseReflectBody_inDir (val : Value) (baseDir : Option String) :
    (parseReflectBody val).map (BodySpec.inDir baseDir) = parseReflectBody val := by
  rw [parseReflectBody.eq_def]
  split
  · rfl
  · simp only [parse_map_bind]
    refine parse_bind_congr fun fields _ => ?_
    split_ifs <;> rfl
  · rfl

private theorem parseBody_inDir (obj : Map) (baseDir : Option String) :
    parseBody obj baseDir = (parseBody obj none).map (BodySpec.inDir baseDir) := by
  simp only [parseBody]
  split
  · rfl
  · split
    · exact (parseRandBody_inDir _ _).symm
    · split
      · exact (parsePatternBody_inDir _ _).symm
      · split
        · exact (parseReflectBody_inDir _ _).symm
        · split
          · simp only [parse_map_bind]
            refine parse_bind_congr fun path _ => ?_
            rw [resolvePath_none]
            rfl
          · rfl
  · rfl

private theorem parseReply_inDir (x : External) (v : Value) (baseDir : Option String) :
    parseReply x v baseDir = (parseReply x v none).map (ReplySpec.inDir baseDir) := by
  simp only [parseReply, parse_map_bind]
  refine parse_bind_congr fun obj _ => parse_bind_congr fun status _ =>
    parse_bind_congr fun headers _ => ?_
  rw [parseBody_inDir]
  cases parseBody obj none <;> rfl

private theorem mapM_parseReply_inDir (x : External) (items : List Value)
    (baseDir : Option String) :
    (items.mapM fun item => parseReply x item baseDir) =
      (items.mapM fun item => parseReply x item none).map
        (List.map (ReplySpec.inDir baseDir)) := by
  induction items with
  | nil => rfl
  | cons item items ih =>
    simp only [List.mapM_cons, parse_map_bind, ih]
    rw [parseReply_inDir]
    cases parseReply x item none with
    | error e => rfl
    | ok reply =>
      cases items.mapM fun item => parseReply x item none <;> rfl

private theorem parseReplyStrategy_inDir (x : External) (v : Value) (baseDir : Option String) :
    parseReplyStrategy x v baseDir =
      (parseReplyStrategy x v none).map (ReplyStrategy.inDir baseDir) := by
  rw [parseReplyStrategy.eq_def, parseReplyStrategy.eq_def]
  cases v with
  | array items =>
    dsimp only
    split_ifs
    · rfl
    · rw [mapM_parseReply_inDir, parse_map_bind]
      cases items.mapM fun item => parseReply x item none <;> rfl
  | object obj =>
    dsimp only
    cases obj.get? "crud!" with
    | none =>
      dsimp only
      rw [parseReply_inDir, parse_map_bind]
      cases parseReply x (.object obj) none <;> rfl
    | some crudVal =>
      dsimp only
      split_ifs
      · rfl
      · simp only [parse_map_bind]
        rfl
  | _ => rfl

private theorem mapErr_map {α β : Type} (m : Parse α) (f : ParseError → ParseError) (g : α → β) :
    (mapErr m f).map g = mapErr (m.map g) f := by
  rcases m with (e | p) | a <;> rfl

private theorem parseRule_inDir (x : External) (v : Value) (baseDir : Option String) :
    parseRule x v baseDir = (parseRule x v none).map (Rule.inDir baseDir) := by
  simp only [parseRule, parse_map_bind]
  refine parse_bind_congr fun obj _ => parse_bind_congr fun _ _ => parse_bind_congr fun _ _ =>
    parse_bind_congr fun matchRule _ => parse_bind_congr fun replyVal _ => ?_
  rw [parseReplyStrategy_inDir, ← mapErr_map]
  cases mapErr (parseReplyStrategy x replyVal none) (·.inField "reply") with
  | error e => rfl
  | ok reply =>
    cases IndexMap.get? obj "serve" with
    | none =>
      cases IndexMap.get? obj "chaos" with
      | none => rfl
      | some c => cases hc : mapErr (parseChaos x c) (·.inField "chaos") <;> simp [hc] <;> rfl
    | some serveVal =>
      cases hs : mapErr (parseServe x serveVal) (·.inField "serve") with
      | error e => simp [hs]; rfl
      | ok served =>
        cases IndexMap.get? obj "chaos" with
        | none => simp [hs]; rfl
        | some c => cases hc : mapErr (parseChaos x c) (·.inField "chaos") <;> simp [hs, hc] <;> rfl

private theorem parseRuleList_inDir (x : External) (baseDir : Option String) (i : ℕ)
    (items : List Value) :
    parseRuleList x baseDir i items =
      (parseRuleList x none i items).map (List.map (Rule.inDir baseDir)) := by
  induction items generalizing i with
  | nil => rfl
  | cons item items ih =>
    simp only [parseRuleList, parse_map_bind, ih]
    rw [parseRule_inDir, ← mapErr_map]
    cases mapErr (parseRule x item none) (·.inIndex "rule" i) with
    | error e => rfl
    | ok rule => cases parseRuleList x none (i + 1) items <;> rfl

/-- Whatever the value, a parse with a base directory ends like the one without, with the same error
or with the same rules, in which it resolves the paths of the replies and nothing else. -/
theorem parseRules_inDir (x : External) (v : Value) (baseDir : Option String) :
    parseRules x v baseDir = (parseRules x v none).map (List.map (Rule.inDir baseDir)) := by
  cases v with
  | array items => exact parseRuleList_inDir x baseDir 0 items
  | object obj =>
    simp only [parseRules, parse_map_bind]
    rw [parseRule_inDir]
    cases parseRule x (.object obj) none <;> rfl
  | _ => rfl

end BaseDir

section Source

theorem parseRule_source {x : External} {v : Value} {baseDir : Option String} {rule : Rule}
    (h : parseRule x v baseDir = .ok rule) : rule.source = v := by
  rw [parseRule] at h
  obtain ⟨obj, _, h⟩ := parse_bind_ok.mp h
  obtain ⟨_, _, h⟩ := parse_bind_ok.mp h
  obtain ⟨_, _, h⟩ := parse_bind_ok.mp h
  obtain ⟨_, _, h⟩ := parse_bind_ok.mp h
  obtain ⟨_, _, h⟩ := parse_bind_ok.mp h
  obtain ⟨_, _, h⟩ := parse_bind_ok.mp h
  cases hserve : IndexMap.get? obj "serve" <;> rw [hserve] at h <;>
    obtain ⟨_, _, h⟩ := parse_bind_ok.mp h <;>
    cases hchaos : IndexMap.get? obj "chaos" <;> rw [hchaos] at h
  · rw [← Except.ok.inj h]
  · obtain ⟨_, _, h⟩ := parse_bind_ok.mp h
    rw [← Except.ok.inj h]
  · rw [← Except.ok.inj h]
  · obtain ⟨_, _, h⟩ := parse_bind_ok.mp h
    rw [← Except.ok.inj h]

/-- The rule is what its source says. -/
def Rule.FromSource (x : External) (rule : Rule) : Prop := parseRule x rule.source none = .ok rule

theorem parseRule_fromSource {x : External} {v : Value} {rule : Rule}
    (h : parseRule x v none = .ok rule) : rule.FromSource x := by
  rw [Rule.FromSource, parseRule_source h, h]

private theorem parseRuleList_fromSource {x : External} {i : ℕ} {items : List Value}
    {rules : List Rule}
    (h : parseRuleList x none i items = .ok rules) : ∀ rule ∈ rules, rule.FromSource x := by
  induction items generalizing i rules with
  | nil =>
    rw [← Except.ok.inj h]
    exact List.forall_mem_nil _
  | cons item items ih =>
    obtain ⟨rule, hrule, h⟩ := parse_bind_ok.mp h
    obtain ⟨rest, hrest, h⟩ := parse_bind_ok.mp h
    rw [← Except.ok.inj h]
    exact List.forall_mem_cons.mpr ⟨parseRule_fromSource (mapErr_ok.mp hrule), ih hrest⟩

theorem parseRules_fromSource {x : External} {v : Value} {rules : List Rule}
    (h : parseRules x v none = .ok rules) : ∀ rule ∈ rules, rule.FromSource x := by
  cases v with
  | array items => exact parseRuleList_fromSource h
  | object obj =>
    obtain ⟨rule, hrule, h⟩ := parse_bind_ok.mp h
    rw [← Except.ok.inj h]
    exact List.forall_mem_singleton.mpr (parseRule_fromSource hrule)
  | _ => cases h

theorem parseRules_sources {x : External} {rules : List Rule}
    (h : ∀ rule ∈ rules, rule.FromSource x) :
    parseRules x (.array (rules.map (·.source))) none = .ok rules := by
  have hlist : ∀ i, parseRuleList x none i (rules.map (·.source)) = .ok rules := by
    induction rules with
    | nil => exact fun _ => rfl
    | cons rule rules ih =>
      obtain ⟨hrule, hrules⟩ := List.forall_mem_cons.mp h
      intro i
      rw [List.map_cons, parseRuleList, hrule, ih hrules]
      rfl
  exact hlist 0

end Source

end Mockinx
