import Mockinx.Rule

/-!
The keys that the rule parser looks at. The objects of an accepted value stand at levels, each with
its documented keys. The parser rejects an unknown key of a rule and of a serve block; at the other
levels it reads the documented keys and ignores the rest.
-/

set_option autoImplicit false
set_option relaxedAutoImplicit false

namespace Mockinx

open Lib

def chaosKeys : List String := ["p", "reply", "serve"]

def deliveryKeys : List String := ["pace", "drop", "hang", "first_byte"]

/-- An object of a rules value, with the documented keys of its level. -/
structure Level where
  documented : List String
  obj : Map

def Level.Documented (l : Level) : Prop := ∀ k ∈ l.obj.keys, k ∈ l.documented

instance (l : Level) : Decidable l.Documented := inferInstanceAs (Decidable (∀ k ∈ _, _))

def objectAt (k : String) (obj : Map) : List Map := ((obj.get? k).bind Value.asObject).toList

def objectsAt (k : String) (obj : Map) : List Map :=
  (((obj.get? k).bind Value.asArray).getD []).filterMap Value.asObject

def ruleObjects : Value → List Map
  | .array items => items.filterMap Value.asObject
  | .object obj => [obj]
  | _ => []

def strategyReplies (rule : Map) : List Map :=
  match rule.get? "reply" with
  | some (.array items) => items.filterMap Value.asObject
  | some (.object obj) => if (obj.get? "crud!").isSome then [] else [obj]
  | _ => []

def thenReplies (overObj : Map) : List Map :=
  if (overObj.get? "block").isSome then objectAt "then" overObj else []

def checkedLevels (rule : Map) : List Level :=
  ⟨ruleKeys, rule⟩ :: (objectAt "serve" rule).map (⟨serveKeys, ·⟩)

/-- The levels of a rule whose keys the parser does not check. An over object may also hold the two
keys of a bounded wait. -/
def uncheckedLevels (rule : Map) : List Level :=
  let conns := (objectAt "serve" rule).flatMap (objectAt "conn")
  let limits := conns ++ (objectAt "serve" rule).flatMap (objectAt "rps")
  let entries := objectsAt "chaos" rule
  (strategyReplies rule ++ entries.flatMap (objectAt "reply") ++
      (conns.flatMap (objectAt "over")).flatMap thenReplies).map (⟨replyKeys, ·⟩) ++
    (limits.flatMap (objectAt "over")).map (⟨replyKeys ++ ["block", "then"], ·⟩) ++
    entries.map (⟨chaosKeys, ·⟩) ++
    (entries.flatMap (objectAt "serve")).map (⟨deliveryKeys, ·⟩)

/-- No key of any level of a rules value is misspelt. -/
def KeysDocumented (v : Value) : Prop :=
  ∀ rule ∈ ruleObjects v, ∀ l ∈ checkedLevels rule ++ uncheckedLevels rule, l.Documented

instance (v : Value) : Decidable (KeysDocumented v) :=
  inferInstanceAs (Decidable (∀ rule ∈ ruleObjects v, ∀ l ∈ _, Level.Documented l))

private theorem checkKeys_ok {known : List String}
    {suggest : String → Except Panic (Option Suggestion)} {block : String} {keys : List String}
    (h : checkKeys known suggest block keys = .ok ()) : ∀ k ∈ keys, k ∈ known := by
  intro k hk
  rw [checkKeys] at h
  split at h
  · rename_i hnone
    have hknown := List.find?_eq_none.mp hnone k hk
    simpa using hknown
  · obtain ⟨suggestion, _, hfail⟩ := parse_bind_ok.mp h
    cases suggestion <;> simp [fail] at hfail

private theorem parseServe_keys {x : External} {v : Value} {r : DeliverySpec × BehaviorSpec}
    (h : parseServe x v = .ok r) : ∃ obj, v = .object obj ∧ ∀ k ∈ obj.keys, k ∈ serveKeys := by
  rw [parseServe] at h
  obtain ⟨obj, hobj, h⟩ := parse_bind_ok.mp h
  obtain ⟨_, hkeys, _⟩ := parse_bind_ok.mp h
  obtain rfl := Value.asObject_eq_some.mp (okOr_ok.mp hobj)
  exact ⟨obj, rfl, checkKeys_ok hkeys⟩

private theorem parseRule_keys {x : External} {v : Value} {baseDir : Option String} {rule : Rule}
    (h : parseRule x v baseDir = .ok rule) :
    ∃ obj, v = .object obj ∧ (∀ k ∈ obj.keys, k ∈ ruleKeys) ∧
      ∀ serve, obj.get? "serve" = some serve → ∃ r, parseServe x serve = .ok r := by
  rw [parseRule] at h
  obtain ⟨obj, hobj, h⟩ := parse_bind_ok.mp h
  obtain ⟨_, hkeys, h⟩ := parse_bind_ok.mp h
  obtain ⟨_, _, h⟩ := parse_bind_ok.mp h
  obtain ⟨_, _, h⟩ := parse_bind_ok.mp h
  obtain ⟨_, _, h⟩ := parse_bind_ok.mp h
  obtain ⟨_, _, h⟩ := parse_bind_ok.mp h
  obtain rfl := Value.asObject_eq_some.mp (okOr_ok.mp hobj)
  refine ⟨obj, rfl, checkKeys_ok hkeys, ?_⟩
  intro serve hserve
  rw [hserve] at h
  obtain ⟨r, hparsed, _⟩ := parse_bind_ok.mp h
  exact ⟨r, mapErr_ok.mp hparsed⟩

private theorem checkedLevels_documented {x : External} {v : Value} {baseDir : Option String}
    {rule : Rule} (h : parseRule x v baseDir = .ok rule) :
    ∃ obj, v = .object obj ∧ ∀ l ∈ checkedLevels obj, l.Documented := by
  obtain ⟨obj, rfl, hkeys, hserve⟩ := parseRule_keys h
  refine ⟨obj, rfl, ?_⟩
  intro l hl
  rcases List.mem_cons.mp hl with rfl | hl
  · exact hkeys
  · obtain ⟨serve, hmem, rfl⟩ := List.mem_map.mp hl
    obtain ⟨val, hval, hobject⟩ := Option.bind_eq_some_iff.mp (Option.mem_toList.mp hmem)
    obtain ⟨r, hr⟩ := hserve val hval
    obtain ⟨serve', rfl, hknown⟩ := parseServe_keys hr
    obtain rfl := Option.some.inj hobject
    exact hknown

private theorem parseRuleList_mem {x : External} {baseDir : Option String} {items : List Value}
    {i : ℕ} {rules : List Rule} (h : parseRuleList x baseDir i items = .ok rules) :
    ∀ item ∈ items, ∃ rule, parseRule x item baseDir = .ok rule := by
  induction items generalizing i rules with
  | nil => simp
  | cons item items ih =>
    obtain ⟨rule, hrule, h⟩ := parse_bind_ok.mp h
    obtain ⟨rest, hrest, _⟩ := parse_bind_ok.mp h
    intro item' hitem
    rcases List.mem_cons.mp hitem with rfl | hitem
    · exact ⟨rule, mapErr_ok.mp hrule⟩
    · exact ih hrest item' hitem

private theorem parseRules_mem {x : External} {v : Value} {baseDir : Option String}
    {rules : List Rule} (h : parseRules x v baseDir = .ok rules) :
    ∀ obj ∈ ruleObjects v, ∃ rule, parseRule x (.object obj) baseDir = .ok rule := by
  intro obj hobj
  cases v with
  | array items =>
    obtain ⟨item, hitem, hobject⟩ := List.mem_filterMap.mp hobj
    obtain ⟨rule, hrule⟩ := parseRuleList_mem h item hitem
    obtain rfl := Value.asObject_eq_some.mp hobject
    exact ⟨rule, hrule⟩
  | object m =>
    obtain rfl := List.mem_singleton.mp hobj
    obtain ⟨rule, hrule, _⟩ := parse_bind_ok.mp h
    exact ⟨rule, hrule⟩
  | null | bool | number | string => cases hobj

/-- Where two reply objects agree on the documented keys, they are the same to the parser. -/
theorem parseReply_congr (x : External) (baseDir : Option String) {a b : Map}
    (h : ∀ k ∈ replyKeys, a.get? k = b.get? k) :
    parseReply x (.object a) baseDir = parseReply x (.object b) baseDir := by
  have hstatus : parseStatus a = parseStatus b := by
    rw [parseStatus, parseStatus, h "s" (by simp [replyKeys])]
  have hheaders : parseHeaders x a = parseHeaders x b := by
    rw [parseHeaders, parseHeaders, h "h" (by simp [replyKeys])]
  have hbody : parseBody a baseDir = parseBody b baseDir := by
    rw [parseBody, parseBody, h "b" (by simp [replyKeys])]
  change (parseStatus a >>= _) = (parseStatus b >>= _)
  rw [hstatus, hheaders, hbody]

theorem parseDeliveryFields_congr {a b : Map} (h : ∀ k ∈ deliveryKeys, a.get? k = b.get? k) :
    parseDeliveryFields a = parseDeliveryFields b := by
  have hpace : parsePace a = parsePace b := by
    rw [parsePace, parsePace, h "pace" (by simp [deliveryKeys])]
  have hdrop : parseDrop a = parseDrop b := by
    rw [parseDrop, parseDrop, h "drop" (by simp [deliveryKeys])]
  have hhang : parseHang a = parseHang b := by
    rw [parseHang, parseHang, h "hang" (by simp [deliveryKeys])]
  have hfirst : parseFirstByte a = parseFirstByte b := by
    rw [parseFirstByte, parseFirstByte, h "first_byte" (by simp [deliveryKeys])]
  rw [parseDeliveryFields, parseDeliveryFields, hpace, hdrop, hhang, hfirst]

theorem parseChaosEntry_congr (x : External) (totalP : F64) {a b : Map}
    (h : ∀ k ∈ chaosKeys, a.get? k = b.get? k) :
    parseChaosEntry x totalP (.object a) = parseChaosEntry x totalP (.object b) := by
  have hserve : parseChaosServe a = parseChaosServe b := by
    rw [parseChaosServe, parseChaosServe, h "serve" (by simp [chaosKeys])]
  have hp := h "p" (by simp [chaosKeys])
  have hreply := h "reply" (by simp [chaosKeys])
  change (okOr (a.get? "p") _ >>= _) = (okOr (b.get? "p") _ >>= _)
  rw [hp, hreply, hserve]

/-- An accepted value has no misspelt key exactly when it has none at the levels that the parser
does not check. -/
theorem keys_documented_iff {x : External} {v : Value} {baseDir : Option String}
    {rules : List Rule} (h : parseRules x v baseDir = .ok rules) :
    KeysDocumented v ↔ ∀ rule ∈ ruleObjects v, ∀ l ∈ uncheckedLevels rule, l.Documented := by
  refine forall₂_congr fun obj hobj => ?_
  obtain ⟨rule, hrule⟩ := parseRules_mem h obj hobj
  obtain ⟨obj', heq, hchecked⟩ := checkedLevels_documented hrule
  obtain rfl := Value.object.inj heq
  rw [List.forall_mem_append]
  exact and_iff_right hchecked

theorem keys_documented_with_status :
    let reply : Value := .obj [("s", .ofNat 404)] (by decide)
    let v : Value := .obj [("match", .string "_"), ("reply", reply)] (by decide)
    ∃ rules, parseRules default v none = .ok rules ∧ KeysDocumented v := by
  intro reply v
  have h : parseRules default v none = .ok _ := rfl
  exact ⟨_, h, (keys_documented_iff h).mpr (by decide)⟩

/-- A reply with a misspelt status is accepted as well. -/
theorem misspelt_status_accepted :
    let reply : Value := .obj [("stats", .ofNat 404)] (by decide)
    let v : Value := .obj [("match", .string "_"), ("reply", reply)] (by decide)
    ∃ rules, parseRules default v none = .ok rules ∧ ¬ KeysDocumented v := by
  intro reply v
  exact ⟨_, rfl, by decide⟩

end Mockinx
