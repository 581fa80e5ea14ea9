import Mockinx.Rule

/-!
The errors of the parser. The parsers of the fields report errors without a place; the parser of a
rule puts the field in front of them, and the parser of an array the position of the rule.
-/

set_option autoImplicit false
set_option relaxedAutoImplicit false

namespace Mockinx

open Lib Lib.Text

def Unplaced {β : Type} (m : Parse β) : Prop :=
  ∀ e, m = .error (.error e) → e.path = [] ∧ e.got = none

section Unplaced

variable {β γ : Type}

private theorem unplaced_ok (b : β) : Unplaced (.ok b : Parse β) := by
  intro e h
  cases h

private theorem unplaced_pure (b : β) : Unplaced (pure b : Parse β) := unplaced_ok b

private theorem unplaced_fail (msg : String) : Unplaced (fail msg : Parse β) := by
  intro e h
  cases h
  exact ⟨rfl, rfl⟩

private theorem unplaced_okOr (v : Option β) (msg : String) : Unplaced (okOr v msg) := by
  cases v with
  | none => exact unplaced_fail msg
  | some b => exact unplaced_ok b

private theorem unplaced_orPanic (r : Except Panic β) : Unplaced (orPanic r) := by
  intro e h
  cases r <;> cases h

private theorem unplaced_attempt (m : Parse β) : Unplaced (attempt m) := by
  intro e h
  rcases m with (e' | p) | b <;> cases h

private theorem Unplaced.bind {m : Parse β} {f : β → Parse γ} (hm : Unplaced m)
    (hf : ∀ b, Unplaced (f b)) : Unplaced (m >>= f) := by
  intro e h
  cases m with
  | error failure =>
    cases h
    exact hm e rfl
  | ok b => exact hf b e h

private theorem unplaced_mapM {f : β → Parse γ} (hf : ∀ b, Unplaced (f b)) (bs : List β) :
    Unplaced (bs.mapM f) := by
  induction bs with
  | nil =>
    rw [List.mapM_nil]
    exact unplaced_pure []
  | cons b bs ih =>
    rw [List.mapM_cons]
    exact (hf b).bind fun c => ih.bind fun cs => unplaced_pure (c :: cs)

end Unplaced

section Literals

private theorem unplaced_parseByteSize (text : List Char) : Unplaced (parseByteSize text) := by
  rw [parseByteSize]
  dsimp only
  split_ifs
  · exact unplaced_fail _
  · refine (unplaced_okOr _ _).bind fun unit => (unplaced_okOr _ _).bind fun num => ?_
    split_ifs
    · exact unplaced_fail _
    · exact unplaced_pure _

private theorem unplaced_parseDuration (text : List Char) : Unplaced (parseDuration text) := by
  rw [parseDuration]
  dsimp only
  split_ifs
  · exact unplaced_fail _
  · refine (unplaced_okOr _ _).bind fun unit => (unplaced_okOr _ _).bind fun num => ?_
    split_ifs
    · exact unplaced_fail _
    · exact unplaced_orPanic _

private theorem unplaced_parseSpeed (text : List Char) : Unplaced (parseSpeed text) := by
  rw [parseSpeed]
  split_ifs
  · exact unplaced_fail _
  · exact (unplaced_okOr _ _).bind fun sizeStr =>
      (unplaced_parseByteSize sizeStr).bind fun _ => unplaced_pure _

private theorem unplaced_parseRangeStr {β : Type} [Scalable β] {parse : List Char → Parse β}
    (hparse : ∀ text, Unplaced (parse text)) (text : List Char) :
    Unplaced (parseRangeStr parse text) := by
  rw [parseRangeStr]
  dsimp only
  split
  · split
    · refine (hparse _).bind fun base => (unplaced_okOr _ _).bind fun pct => ?_
      split_ifs
      · exact unplaced_fail _
      · exact unplaced_pure _
      · exact (unplaced_orPanic _).bind fun lo => (unplaced_orPanic _).bind fun hi =>
          unplaced_pure _
    · refine (hparse _).bind fun min => (hparse _).bind fun max => ?_
      split_ifs
      · exact unplaced_fail _
      · exact unplaced_pure _
      · exact unplaced_pure _
  · exact (hparse _).bind fun _ => unplaced_pure _

private theorem unplaced_parseByteSizeRange (s : String) : Unplaced (parseByteSizeRange s) :=
  unplaced_parseRangeStr unplaced_parseByteSize _

private theorem unplaced_parseDurationRange (s : String) : Unplaced (parseDurationRange s) :=
  unplaced_parseRangeStr unplaced_parseDuration _

private theorem unplaced_parseSpeedRange (s : String) : Unplaced (parseSpeedRange s) :=
  unplaced_parseRangeStr unplaced_parseSpeed _

end Literals

private theorem unplaced_parseMatchRule (x : External) (v : Value) :
    Unplaced (parseMatchRule x v) := by
  unfold parseMatchRule
  split
  · split_ifs
    · exact unplaced_ok _
    · exact unplaced_fail _
  · split
    · exact unplaced_fail _
    · refine (unplaced_okOr _ _).bind fun path => ?_
      dsimp only
      split_ifs
      · exact unplaced_pure _
      · exact unplaced_pure _
      · split
        · exact unplaced_pure _
        · exact unplaced_fail _
      · split
        · exact unplaced_pure _
        · exact unplaced_fail _
    · exact unplaced_fail _
  · exact unplaced_fail _

section Replies

private theorem unplaced_parseStatus (obj : Map) : Unplaced (parseStatus obj) := by
  rw [parseStatus]
  split
  · exact unplaced_ok _
  · refine (unplaced_okOr _ _).bind fun code => ?_
    split_ifs
    · exact unplaced_fail _
    · exact unplaced_pure _
  · exact unplaced_fail _

private theorem unplaced_parseHeaders (x : External) (obj : Map) :
    Unplaced (parseHeaders x obj) := by
  rw [parseHeaders]
  split
  · exact unplaced_ok _
  · exact unplaced_ok _
  · exact unplaced_fail _

private theorem unplaced_parseReflectField (s : String) : Unplaced (parseReflectField s) := by
  rw [parseReflectField]
  split_ifs
  all_goals first
    | exact unplaced_ok _
    | exact unplaced_fail _

private theorem unplaced_parseReflectBody (val : Value) : Unplaced (parseReflectBody val) := by
  unfold parseReflectBody
  split
  · exact unplaced_ok _
  · refine (unplaced_mapM (fun v => (unplaced_okOr _ _).bind unplaced_parseReflectField) _).bind
      fun fields => ?_
    split_ifs
    · exact unplaced_fail _
    · exact unplaced_pure _
  · exact unplaced_fail _

private theorem unplaced_parseRandBody (val : Value) : Unplaced (parseRandBody val) := by
  rw [parseRandBody]
  exact (unplaced_okOr _ _).bind fun randObj => (unplaced_okOr _ _).bind fun sizeVal =>
    (unplaced_okOr _ _).bind fun sizeStr => (unplaced_parseByteSize _).bind fun size =>
      (unplaced_okOr _ _).bind fun seed => unplaced_pure _

private theorem unplaced_parsePatternBody (val : Value) : Unplaced (parsePatternBody val) := by
  rw [parsePatternBody]
  refine (unplaced_okOr _ _).bind fun patternObj => (unplaced_okOr _ _).bind fun repeated => ?_
  split_ifs
  · exact unplaced_fail _
  · exact (unplaced_okOr _ _).bind fun sizeVal => (unplaced_okOr _ _).bind fun sizeStr =>
      (unplaced_parseByteSize _).bind fun size => unplaced_pure _

private theorem unplaced_parseBody (obj : Map) (baseDir : Option String) :
    Unplaced (parseBody obj baseDir) := by
  rw [parseBody]
  split
  · exact unplaced_ok _
  · split
    · exact unplaced_parseRandBody _
    · split
      · exact unplaced_parsePatternBody _
      · split
        · exact unplaced_parseReflectBody _
        · split
          · exact (unplaced_okOr _ _).bind fun path => unplaced_pure _
          · exact unplaced_ok _
  · exact unplaced_ok _

private theorem unplaced_parseReply (x : External) (v : Value) (baseDir : Option String) :
    Unplaced (parseReply x v baseDir) := by
  rw [parseReply]
  exact (unplaced_okOr _ _).bind fun obj => (unplaced_parseStatus obj).bind fun status =>
    (unplaced_parseHeaders x obj).bind fun headers =>
      (unplaced_parseBody obj baseDir).bind fun body => unplaced_pure _

private theorem unplaced_parseCrudSpec (crudObj : Map) : Unplaced (parseCrudSpec crudObj) := by
  unfold parseCrudSpec
  dsimp only
  split
  · refine (unplaced_pure _).bind fun id => ?_
    split
    · exact unplaced_pure _
    · exact unplaced_pure _
    · exact (unplaced_fail _).bind fun data => unplaced_pure _
  · refine (unplaced_okOr _ _).bind fun idObj => (unplaced_pure _).bind fun id => ?_
    split
    · exact unplaced_pure _
    · exact unplaced_pure _
    · exact (unplaced_fail _).bind fun data => unplaced_pure _

private theorem unplaced_parseReplyStrategy (x : External) (v : Value) (baseDir : Option String) :
    Unplaced (parseReplyStrategy x v baseDir) := by
  unfold parseReplyStrategy
  split
  · split_ifs
    · exact unplaced_fail _
    · exact (unplaced_mapM (fun item => unplaced_parseReply x item baseDir) _).bind
        fun replies => unplaced_pure _
  · split
    · dsimp only
      split_ifs
      · exact unplaced_pure _
      · exact (unplaced_okOr _ _).bind fun crudObj => (unplaced_parseCrudSpec crudObj).bind
          fun spec => unplaced_pure _
    · exact (unplaced_parseReply x _ baseDir).bind fun reply => unplaced_pure _
  · exact unplaced_fail _

end Replies

section Served

private theorem unplaced_parsePaceStr (text : String) : Unplaced (parsePaceStr text) := by
  unfold parsePaceStr
  dsimp only
  split
  · exact (unplaced_parseByteSizeRange _).bind fun size =>
      (unplaced_parseDurationRange _).bind fun interval => unplaced_pure _
  · split_ifs
    · exact (unplaced_parseSpeedRange _).bind fun speed => unplaced_pure _
    · exact (unplaced_parseDurationRange _).bind fun duration => unplaced_pure _

private theorem unplaced_parsePace (obj : Map) : Unplaced (parsePace obj) := by
  unfold parsePace
  split
  · exact unplaced_ok _
  · exact (unplaced_okOr _ _).bind fun s => (unplaced_parsePaceStr s).bind fun pace =>
      unplaced_pure _

private theorem unplaced_parseDropValue (s : String) : Unplaced (parseDropValue s) := by
  unfold parseDropValue
  refine (unplaced_attempt _).bind fun size => ?_
  split
  · exact unplaced_pure _
  · refine (unplaced_attempt _).bind fun duration => ?_
    split
    · exact unplaced_pure _
    · exact unplaced_fail _

private theorem unplaced_parseDrop (obj : Map) : Unplaced (parseDrop obj) := by
  unfold parseDrop
  split
  · exact unplaced_ok _
  · exact unplaced_parseDropValue _
  · exact (unplaced_okOr _ _).bind unplaced_parseDropValue
  · exact unplaced_fail _

private theorem unplaced_parseHang (obj : Map) : Unplaced (parseHang obj) := by
  unfold parseHang
  split
  · exact unplaced_ok _
  · refine (unplaced_okOr _ _).bind fun s => (unplaced_attempt _).bind fun size => ?_
    split
    · exact unplaced_pure _
    · refine (unplaced_attempt _).bind fun duration => ?_
      split
      · exact unplaced_pure _
      · exact unplaced_fail _

private theorem unplaced_parseFirstByte (obj : Map) : Unplaced (parseFirstByte obj) := by
  unfold parseFirstByte
  split
  · exact unplaced_ok _
  · exact (unplaced_parseDurationRange _).bind fun duration => unplaced_pure _
  · exact (unplaced_okOr _ _).bind fun delayStr => (unplaced_parseDurationRange delayStr).bind
      fun duration => unplaced_pure _
  · exact unplaced_fail _

private theorem unplaced_parseDeliveryFields (obj : Map) : Unplaced (parseDeliveryFields obj) := by
  rw [parseDeliveryFields]
  exact (unplaced_parsePace obj).bind fun pace => (unplaced_parseDrop obj).bind fun drop =>
    (unplaced_parseHang obj).bind fun hang => (unplaced_parseFirstByte obj).bind
      fun firstByte => unplaced_pure _

private theorem unplaced_parseOverflowAction (x : External) (obj : Map) :
    Unplaced (parseOverflowAction x obj) := by
  unfold parseOverflowAction
  refine (unplaced_okOr _ _).bind fun overVal => ?_
  split
  · split_ifs
    · exact unplaced_pure _
    · exact unplaced_fail _
  · split
    · exact (unplaced_okOr _ _).bind fun blockStr => (unplaced_parseDurationRange _).bind
        fun timeout => (unplaced_okOr _ _).bind fun thenVal => (unplaced_parseReply x _ _).bind
          fun andThen => unplaced_pure _
    · exact (unplaced_parseReply x _ _).bind fun reply => unplaced_pure _
  · exact unplaced_fail _

private theorem unplaced_parseConn (x : External) (obj : Map) : Unplaced (parseConn x obj) := by
  unfold parseConn
  split
  · exact unplaced_ok _
  · refine (unplaced_okOr _ _).bind fun cObj => (unplaced_okOr _ _).bind fun max => ?_
    split_ifs
    · exact unplaced_fail _
    · exact (unplaced_parseOverflowAction x cObj).bind fun overAction => unplaced_pure _

private theorem unplaced_parseRps (x : External) (obj : Map) : Unplaced (parseRps x obj) := by
  unfold parseRps
  split
  · exact unplaced_ok _
  · exact (unplaced_okOr _ _).bind fun rlObj => (unplaced_okOr _ _).bind fun max =>
      (unplaced_okOr _ _).bind fun overVal => (unplaced_parseReply x _ _).bind
        fun overReply => unplaced_pure _

private theorem unplaced_parseTimeout (obj : Map) : Unplaced (parseTimeout obj) := by
  unfold parseTimeout
  split
  · exact unplaced_ok _
  · exact (unplaced_parseDurationRange _).bind fun timeout => unplaced_pure _
  · exact unplaced_fail _

private theorem unplaced_checkKeys (known : List String)
    (suggest : String → Except Panic (Option Suggestion)) (block : String) (keys : List String) :
    Unplaced (checkKeys known suggest block keys) := by
  unfold checkKeys
  split
  · exact unplaced_ok _
  · refine (unplaced_orPanic _).bind fun suggestion => ?_
    split
    · exact unplaced_fail _
    · exact unplaced_fail _

private theorem unplaced_parseServe (x : External) (v : Value) : Unplaced (parseServe x v) := by
  rw [parseServe]
  refine (unplaced_okOr _ _).bind fun obj => (unplaced_checkKeys _ _ _ _).bind fun _ =>
    (unplaced_parseDeliveryFields obj).bind fun delivery => Unplaced.bind ?_
      fun behavior => unplaced_pure _
  rw [parseBehavior]
  exact (unplaced_okOr _ _).bind fun obj => (unplaced_parseConn x obj).bind fun concurrency =>
    (unplaced_parseRps x obj).bind fun rateLimit => (unplaced_parseTimeout obj).bind
      fun timeout => unplaced_pure _

end Served

section Chaos

private theorem unplaced_parsePercentage (v : Value) : Unplaced (parsePercentage v) := by
  rw [parsePercentage]
  refine (unplaced_okOr _ _).bind fun text => (unplaced_okOr _ _).bind fun numStr =>
    (unplaced_okOr _ _).bind fun p => ?_
  split_ifs
  · exact unplaced_fail _
  · exact unplaced_fail _
  · exact unplaced_pure _

private theorem unplaced_parseChaosServe (obj : Map) : Unplaced (parseChaosServe obj) := by
  unfold parseChaosServe
  split
  · exact unplaced_ok _
  · exact (unplaced_okOr _ _).bind fun serveObj => (unplaced_parseDeliveryFields serveObj).bind
      fun spec => unplaced_pure _

private theorem unplaced_parseChaosEntry (x : External) (totalP : F64) (item : Value) :
    Unplaced (parseChaosEntry x totalP item) := by
  unfold parseChaosEntry
  refine (unplaced_okOr _ _).bind fun obj => (unplaced_okOr _ _).bind fun pVal =>
    (unplaced_parsePercentage pVal).bind fun p => ?_
  dsimp only
  split_ifs
  · exact unplaced_fail _
  · split
    · refine (unplaced_parseReply x _ _).bind fun reply => (unplaced_pure _).bind fun reply =>
        (unplaced_parseChaosServe obj).bind fun serve => ?_
      split_ifs
      · exact unplaced_fail _
      · exact unplaced_pure _
    · refine (unplaced_pure _).bind fun reply =>
        (unplaced_parseChaosServe obj).bind fun serve => ?_
      split_ifs
      · exact unplaced_fail _
      · exact unplaced_pure _

private theorem unplaced_parseChaosEntries (x : External) (totalP : F64) (items : List Value) :
    Unplaced (parseChaosEntries x totalP items) := by
  induction items generalizing totalP with
  | nil => exact unplaced_ok _
  | cons item items ih =>
    rw [parseChaosEntries]
    exact (unplaced_parseChaosEntry x totalP item).bind fun r => (ih r.1).bind
      fun entries => unplaced_pure _

private theorem unplaced_parseChaos (x : External) (v : Value) : Unplaced (parseChaos x v) := by
  rw [parseChaos]
  refine (unplaced_okOr _ _).bind fun arr => ?_
  split_ifs
  · exact unplaced_fail _
  · exact unplaced_parseChaosEntries x 0 arr

end Chaos

private theorem parse_bind_error {β γ : Type} {m : Parse β} {f : β → Parse γ} {failure : Failure} :
    (m >>= f) = .error failure ↔ m = .error failure ∨ ∃ b, m = .ok b ∧ f b = .error failure := by
  cases m with
  | error e => simp [bind, Except.bind]
  | ok b => simp [bind, Except.bind]

private theorem mapErr_error {β : Type} {m : Parse β} {f : ParseError → ParseError}
    {e : ParseError} :
    mapErr m f = .error (.error e) ↔ ∃ e', m = .error (.error e') ∧ f e' = e := by
  rcases m with (e' | p) | b <;> simp [mapErr]

/-- A place in a value of rules: the position of a rule in an array, and a field of a rule. -/
structure Place where
  index : Option ℕ
  field : Option String
  deriving DecidableEq

namespace Place

/-- The place as an error names it. -/
def segments (place : Place) : List String :=
  (place.index.map fun i => "rule" ++ "[" ++ toString i ++ "]").toList ++ place.field.toList

/-- The start of an error's text. -/
def text (place : Place) : String :=
  if place.segments = [] then "" else ".".intercalate place.segments ++ ": "

def item? : Option ℕ → Value → Option Value
  | none, v => some v
  | some i, v => v.asArray.bind (·[i]?)

def field? : Option String → Value → Option Value
  | none, v => some v
  | some field, v => v.get? field

/-- What stands there. -/
def find? (place : Place) (v : Value) : Option Value :=
  (item? place.index v).bind (field? place.field)

end Place

variable {x : External} {baseDir : Option String}

structure FieldAccepted (x : External) (baseDir : Option String) (field : String)
    (v : Value) : Prop where
  ofMatch : field = "match" → ∃ matchRule, parseMatchRule x v = .ok matchRule
  ofReply : field = "reply" → ∃ reply, parseReplyStrategy x v baseDir = .ok reply
  ofServe : field = "serve" → ∃ served, parseServe x v = .ok served
  ofChaos : field = "chaos" → ∃ entries, parseChaos x v = .ok entries

private theorem fieldAccepted_of_parseRule {v fault : Value} {rule : Rule} {field : String}
    (h : parseRule x v baseDir = .ok rule) (hget : v.get? field = some fault) :
    FieldAccepted x baseDir field fault := by
  rw [parseRule] at h
  obtain ⟨obj, hobj, h⟩ := parse_bind_ok.mp h
  obtain ⟨_, _, h⟩ := parse_bind_ok.mp h
  obtain ⟨matchVal, hmatchVal, h⟩ := parse_bind_ok.mp h
  obtain ⟨matchRule, hmatch, h⟩ := parse_bind_ok.mp h
  obtain ⟨replyVal, hreplyVal, h⟩ := parse_bind_ok.mp h
  obtain ⟨reply, hreply, h⟩ := parse_bind_ok.mp h
  obtain rfl := Value.asObject_eq_some.mp (okOr_ok.mp hobj)
  have hfield : obj.get? field = some fault := hget
  refine ⟨?_, ?_, ?_, ?_⟩
  · rintro rfl
    obtain rfl := Option.some.inj ((okOr_ok.mp hmatchVal).symm.trans hfield)
    exact ⟨matchRule, mapErr_ok.mp hmatch⟩
  · rintro rfl
    obtain rfl := Option.some.inj ((okOr_ok.mp hreplyVal).symm.trans hfield)
    exact ⟨reply, mapErr_ok.mp hreply⟩
  · rintro rfl
    rw [hfield] at h
    obtain ⟨served, hserved, _⟩ := parse_bind_ok.mp h
    exact ⟨served, mapErr_ok.mp hserved⟩
  · rintro rfl
    cases hserve : IndexMap.get? obj "serve" <;> rw [hserve] at h <;>
      obtain ⟨served, _, h⟩ := parse_bind_ok.mp h <;> rw [hfield] at h <;>
      obtain ⟨entries, hentries, _⟩ := parse_bind_ok.mp h
    · exact ⟨entries, mapErr_ok.mp hentries⟩
    · exact ⟨entries, mapErr_ok.mp hentries⟩

inductive Shapeless : Value → Prop
  | notObject {v : Value} (h : v.asObject = none) : Shapeless v
  | unknownKey {obj : Map} {key : String} (h : key ∈ obj.keys) (hunknown : key ∉ ruleKnownKeys) :
      Shapeless (.object obj)
  | noMatch {obj : Map} (h : obj.get? "match" = none) : Shapeless (.object obj)
  | noReply {obj : Map} (h : obj.get? "reply" = none) : Shapeless (.object obj)

inductive FieldRefused (x : External) (baseDir : Option String) (msg : String) :
    String → Value → Prop
  | ofMatch {v : Value} (h : parseMatchRule x v = fail msg) :
      FieldRefused x baseDir msg "match" v
  | ofReply {v : Value} (h : parseReplyStrategy x v baseDir = fail msg) :
      FieldRefused x baseDir msg "reply" v
  | ofServe {v : Value} (h : parseServe x v = fail msg) : FieldRefused x baseDir msg "serve" v
  | ofChaos {v : Value} (h : parseChaos x v = fail msg) : FieldRefused x baseDir msg "chaos" v

/-- An error names the field at fault, or no field where the rule is refused as a whole: no rule
with the same value there is accepted. -/
def Blames (x : External) (baseDir : Option String) (v : Value) (e : ParseError) : Prop :=
  e.got = none ∧ ∃ field fault, e.path = field.toList ∧ Place.field? field v = some fault ∧
    (field = none → Shapeless fault) ∧
    (∀ name, field = some name → FieldRefused x baseDir e.msg name fault) ∧
    ∀ v', Place.field? field v' = some fault → ∀ rule, parseRule x v' baseDir ≠ .ok rule

private theorem blames_of_shapeless {v : Value} {e : ParseError}
    (h : parseRule x v baseDir = .error (.error e)) (he : e.path = [] ∧ e.got = none)
    (hv : Shapeless v) : Blames x baseDir v e := by
  refine ⟨he.2, none, v, he.1, rfl, fun _ => hv, fun name hname => (by cases hname), ?_⟩
  intro v' hv' rule hok
  rw [Option.some.inj hv', h] at hok
  cases hok

private theorem FieldRefused.not_accepted {msg field : String} {v : Value}
    (h : FieldRefused x baseDir msg field v) : ¬ FieldAccepted x baseDir field v := by
  intro haccepted
  cases h with
  | ofMatch h =>
    obtain ⟨_, hok⟩ := haccepted.ofMatch rfl
    cases h.symm.trans hok
  | ofReply h =>
    obtain ⟨_, hok⟩ := haccepted.ofReply rfl
    cases h.symm.trans hok
  | ofServe h =>
    obtain ⟨_, hok⟩ := haccepted.ofServe rfl
    cases h.symm.trans hok
  | ofChaos h =>
    obtain ⟨_, hok⟩ := haccepted.ofChaos rfl
    cases h.symm.trans hok

private theorem blames_of_field {β : Type} {m : Parse β} {v fault : Value} {e : ParseError}
    {field : String} (h : mapErr m (·.inField field) = .error (.error e)) (hm : Unplaced m)
    (hget : v.get? field = some fault)
    (hrefused : ∀ msg, m = fail msg → FieldRefused x baseDir msg field fault) :
    Blames x baseDir v e := by
  obtain ⟨⟨msg, path, got⟩, he', rfl⟩ := mapErr_error.mp h
  obtain ⟨rfl, rfl⟩ := hm _ he'
  have hfield := hrefused msg he'
  refine ⟨rfl, some field, fault, rfl, hget, fun hnone => (by cases hnone), ?_, ?_⟩
  · rintro _ ⟨⟩
    exact hfield
  · intro v' hv' rule hok
    exact hfield.not_accepted (fieldAccepted_of_parseRule hok hv')

private theorem checkKeys_error {known keys : List String} {block : String}
    {suggest : String → Except Panic (Option Suggestion)} {failure : Failure}
    (h : checkKeys known suggest block keys = .error failure) : ∃ key ∈ keys, key ∉ known := by
  unfold checkKeys at h
  split at h
  · cases h
  · rename_i key hfind
    refine ⟨key, List.mem_of_find?_eq_some hfind, ?_⟩
    simpa using List.find?_some hfind

private theorem okOr_error {β : Type} {v : Option β} {msg : String} {failure : Failure}
    (h : okOr v msg = .error failure) : v = none := by
  cases v with
  | none => rfl
  | some b => cases h

private theorem parseRule_blames {v : Value} {e : ParseError}
    (h : parseRule x v baseDir = .error (.error e)) : Blames x baseDir v e := by
  have hrule := h
  rw [parseRule] at h
  rcases parse_bind_error.mp h with herr | ⟨obj, hobj, h⟩
  · exact blames_of_shapeless hrule (unplaced_okOr _ _ e herr) (.notObject (okOr_error herr))
  obtain rfl := Value.asObject_eq_some.mp (okOr_ok.mp hobj)
  rcases parse_bind_error.mp h with herr | ⟨_, _, h⟩
  · obtain ⟨key, hkey, hunknown⟩ := checkKeys_error herr
    exact blames_of_shapeless hrule (unplaced_checkKeys _ _ _ _ e herr) (.unknownKey hkey hunknown)
  rcases parse_bind_error.mp h with herr | ⟨matchVal, hmatchVal, h⟩
  · exact blames_of_shapeless hrule (unplaced_okOr _ _ e herr) (.noMatch (okOr_error herr))
  rcases parse_bind_error.mp h with herr | ⟨matchRule, _, h⟩
  · exact blames_of_field herr (unplaced_parseMatchRule x _) (okOr_ok.mp hmatchVal)
      fun _ => .ofMatch
  rcases parse_bind_error.mp h with herr | ⟨replyVal, hreplyVal, h⟩
  · exact blames_of_shapeless hrule (unplaced_okOr _ _ e herr) (.noReply (okOr_error herr))
  rcases parse_bind_error.mp h with herr | ⟨reply, _, h⟩
  · exact blames_of_field herr (unplaced_parseReplyStrategy x _ _) (okOr_ok.mp hreplyVal)
      fun _ => .ofReply
  -- the optional fields come last
  have hchaos : ∀ c, IndexMap.get? obj "chaos" = some c →
      mapErr (parseChaos x c) (·.inField "chaos") = .error (.error e) →
        Blames x baseDir (.object obj) e := fun c hc herr =>
    blames_of_field herr (unplaced_parseChaos x c) hc fun _ => .ofChaos
  cases hserve : IndexMap.get? obj "serve" <;> rw [hserve] at h <;>
    rcases parse_bind_error.mp h with herr | ⟨served, _, h⟩
  · cases herr
  · cases hc : IndexMap.get? obj "chaos" <;> rw [hc] at h
    · cases h
    · rcases parse_bind_error.mp h with herr | ⟨_, _, h⟩
      · exact hchaos _ hc herr
      · cases h
  · exact blames_of_field herr (unplaced_parseServe x _) hserve fun _ => .ofServe
  · cases hc : IndexMap.get? obj "chaos" <;> rw [hc] at h
    · cases h
    · rcases parse_bind_error.mp h with herr | ⟨_, _, h⟩
      · exact hchaos _ hc herr
      · cases h

private theorem parseRuleList_error {i : ℕ} {items : List Value} {e : ParseError}
    (h : parseRuleList x baseDir i items = .error (.error e)) :
    ∃ before item after e', items = before ++ item :: after ∧
      (∀ b ∈ before, ∃ rule, parseRule x b baseDir = .ok rule) ∧
      parseRule x item baseDir = .error (.error e') ∧
        e = e'.inIndex "rule" (i + before.length) := by
  induction items generalizing i with
  | nil => cases h
  | cons item items ih =>
    rw [parseRuleList] at h
    rcases parse_bind_error.mp h with herr | ⟨rule, hrule, h⟩
    · obtain ⟨e', he', rfl⟩ := mapErr_error.mp herr
      exact ⟨[], item, items, e', rfl, fun b hb => (by cases hb), he', rfl⟩
    rcases parse_bind_error.mp h with hrest | ⟨rest, _, h⟩
    · obtain ⟨before, fault, after, e', rfl, hbefore, he', rfl⟩ := ih hrest
      refine ⟨item :: before, fault, after, e', rfl, ?_, he', ?_⟩
      · exact List.forall_mem_cons.mpr ⟨⟨rule, mapErr_ok.mp hrule⟩, hbefore⟩
      · rw [List.length_cons, Nat.add_right_comm, Nat.add_assoc]
    · cases h

private theorem parseRule_of_parseRuleList {i : ℕ} {items : List Value} {rules : List Rule}
    (h : parseRuleList x baseDir i items = .ok rules) :
    ∀ item ∈ items, ∃ rule, parseRule x item baseDir = .ok rule := by
  induction items generalizing i rules with
  | nil =>
    intro item hmem
    cases hmem
  | cons item items ih =>
    rw [parseRuleList] at h
    obtain ⟨rule, hrule, h⟩ := parse_bind_ok.mp h
    obtain ⟨rest, hrest, _⟩ := parse_bind_ok.mp h
    exact List.forall_mem_cons.mpr ⟨⟨rule, mapErr_ok.mp hrule⟩, ih hrest⟩

private theorem parseRules_of_parseRule {v : Value} {rule : Rule}
    (h : parseRule x v baseDir = .ok rule) : parseRules x v baseDir = .ok [rule] := by
  have hobject := h
  rw [parseRule] at hobject
  obtain ⟨obj, hobj, _⟩ := parse_bind_ok.mp hobject
  obtain rfl := Value.asObject_eq_some.mp (okOr_ok.mp hobj)
  rw [parseRules, h]
  rfl

/-- An error of the parser blames a place: the rules before it are accepted, and no value with the
same at that place is accepted. The place is in an array where there is one, and in a field unless
the rule is refused as a whole; the parser of the field gives the text. -/
structure PlaceBlamed (x : External) (baseDir : Option String) (v : Value) (place : Place)
    (fault : Value) (msg : String) : Prop where
  found : place.find? v = some fault
  index : place.index = none ↔ v.asArray = none
  whole : place.field = none → Shapeless fault
  field : ∀ name, place.field = some name → FieldRefused x baseDir msg name fault
  before : ∀ i, place.index = some i → ∀ j < i, ∀ item, Place.item? (some j) v = some item →
    ∃ rule, parseRules x item baseDir = .ok [rule]
  refused : ∀ v', place.find? v' = some fault → ∀ rules, parseRules x v' baseDir ≠ .ok rules

private theorem placeBlamed_of_item {before after : List Value} {item : Value} {e : ParseError}
    (hbefore : ∀ b ∈ before, ∃ rule, parseRule x b baseDir = .ok rule)
    (h : parseRule x item baseDir = .error (.error e)) :
    e.got = none ∧ ∃ place fault, (e.inIndex "rule" before.length).path = place.segments ∧
      PlaceBlamed x baseDir (.array (before ++ item :: after)) place fault e.msg := by
  obtain ⟨hgot, field, fault, hpath, hfound, hwhole, hfield, hrefused⟩ := parseRule_blames h
  refine ⟨hgot, ⟨some before.length, field⟩, fault, ?_, ?_, ?_, hwhole, hfield, ?_, ?_⟩
  · rw [ParseError.inIndex, hpath]
    rfl
  · have hitem : (before ++ item :: after)[before.length]? = some item := by simp
    rw [Place.find?, Place.item?, Value.asArray, Option.bind_some, hitem, Option.bind_some, hfound]
  · exact iff_of_false (by simp) (by simp [Value.asArray])
  · intro i hi j hj b hb
    obtain rfl := Option.some.inj hi
    have hget : (before ++ item :: after)[j]? = some b := hb
    rw [List.getElem?_append_left hj] at hget
    obtain ⟨rule, hrule⟩ := hbefore b (List.mem_of_getElem? hget)
    exact ⟨rule, parseRules_of_parseRule hrule⟩
  · intro v' hv' rules hok
    obtain ⟨item', hitem', hfault⟩ := Option.bind_eq_some_iff.mp hv'
    cases v' with
    | array items =>
      obtain ⟨rule, hrule⟩ := parseRule_of_parseRuleList hok item' (List.mem_of_getElem? hitem')
      exact hrefused item' hfault rule hrule
    | _ => cases hitem'

private theorem placeBlamed_of_object {obj : Map} {e : ParseError}
    (h : parseRule x (.object obj) baseDir = .error (.error e)) :
    e.got = none ∧ ∃ place fault, e.path = place.segments ∧
      PlaceBlamed x baseDir (.object obj) place fault e.msg := by
  obtain ⟨hgot, field, fault, hpath, hfound, hwhole, hfield, hrefused⟩ := parseRule_blames h
  refine ⟨hgot, ⟨none, field⟩, fault, hpath, hfound, iff_of_true rfl rfl, hwhole, hfield,
    fun i hi => (by cases hi), ?_⟩
  intro v' hv' rules hok
  cases v' with
  | object obj' =>
    rw [parseRules] at hok
    obtain ⟨rule, hrule, _⟩ := parse_bind_ok.mp hok
    exact hrefused (.object obj') hv' rule hrule
  | array items =>
    cases field with
    | none => cases (Option.some.inj hfound).trans (Option.some.inj hv').symm
    | some field => cases hv'
  | _ => cases hok

private theorem placeBlamed_of_scalar {v : Value} {e : ParseError}
    (h : parseRules x v baseDir = .error (.error e)) (he : e.path = [] ∧ e.got = none)
    (hobject : v.asObject = none) (harray : v.asArray = none) :
    e.got = none ∧ ∃ place fault, e.path = place.segments ∧
      PlaceBlamed x baseDir v place fault e.msg := by
  refine ⟨he.2, ⟨none, none⟩, v, he.1, rfl, iff_of_true rfl harray, fun _ => .notObject hobject,
    fun name hname => (by cases hname), fun i hi => (by cases hi), fun v' hv' rules hok => ?_⟩
  rw [Option.some.inj hv', h] at hok
  cases hok

theorem parseRules_blames {v : Value} {e : ParseError}
    (h : parseRules x v baseDir = .error (.error e)) :
    e.got = none ∧ ∃ place fault, e.path = place.segments ∧
      PlaceBlamed x baseDir v place fault e.msg := by
  cases v with
  | array items =>
    obtain ⟨before, item, after, e', rfl, hbefore, he', rfl⟩ := parseRuleList_error h
    rw [Nat.zero_add]
    exact placeBlamed_of_item hbefore he'
  | object obj =>
    rw [parseRules] at h
    rcases parse_bind_error.mp h with herr | ⟨rule, _, h⟩
    · exact placeBlamed_of_object herr
    · cases h
  | _ => exact placeBlamed_of_scalar h (unplaced_fail _ e h) rfl rfl

end Mockinx
