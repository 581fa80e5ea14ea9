import Mockinx.RuleErrors
import Mockinx.Server.Config

/-!
Refused rules. A client that sends rules with a fault learns where it is, and nothing has changed.
-/

set_option autoImplicit false
set_option relaxedAutoImplicit false

namespace Mockinx

open Lib

variable {α : Type}

/-- A call that adds or replaces rules, with a body that is read as this value. -/
structure Call.Reads (x : External) (c : Call α) (v : Value) : Prop where
  registers : c.registers = true
  accepted : c.rejection = none
  value : ∃ text, String.fromUTF8? ⟨c.req.body.toArray⟩ = some text ∧ x.fromStr text = .ok v

private theorem Call.Reads.parse {x : External} {c : Call α} {v : Value} (hc : c.Reads x v) :
    (∀ rules, parseRules x v none = .ok rules →
        parseBodyAsRules x c.req.body = .ok (.ok rules)) ∧
      (∀ e, parseRules x v none = .error (.error e) →
        parseBodyAsRules x c.req.body = .ok (.error (plainError 400 e.toString))) ∧
      ∀ p, parseRules x v none = .error (.panic p) → parseBodyAsRules x c.req.body = .error p := by
  obtain ⟨text, htext, hread⟩ := hc.value
  refine ⟨?_, ?_, ?_⟩
  all_goals
    intro result h
    simp only [parseBodyAsRules, htext, hread, h]

variable [DecidableEq α]

private theorem Server.serve_of_no_rules {x : External} {o : OverflowChecks} {c : Call α}
    (hregisters : c.registers = true) (haccepted : c.rejection = none) (s : Server α) :
    (∀ response, parseBodyAsRules x c.req.body = .ok (.error response) →
        s.serve x o c = (s, none, some response)) ∧
      ∀ p, parseBodyAsRules x c.req.body = .error p → s.serve x o c = (s, none, none) := by
  have hfiles : parseBodyAsRules { x with readFile := c.files } c.req.body =
      parseBodyAsRules x c.req.body := parseBodyAsRules_withFiles x c.files c.req.body
  rw [Call.registers] at hregisters
  constructor
  all_goals
    intro result h
    rw [h] at hfiles
    cases hroute : route c.req.method c.req.path <;> rw [hroute] at hregisters <;>
      simp only [Bool.false_eq_true] at hregisters
    · simp only [Server.serve, hroute, haccepted, Server.handleAppendRules, hfiles]
    · simp only [Server.serve, hroute, haccepted, Server.handleReplaceRules, hfiles]

private theorem Server.status_of_rules {x : External} {o : OverflowChecks} {c : Call α}
    {rules : List Rule} (hregisters : c.registers = true) (haccepted : c.rejection = none)
    (h : parseBodyAsRules x c.req.body = .ok (.ok rules)) {s : Server α} {response : Response}
    (hserve : (s.serve x o c).2.2 = some response) : response.status ≠ 400 := by
  have hfiles : parseBodyAsRules { x with readFile := c.files } c.req.body = .ok (.ok rules) :=
    (parseBodyAsRules_withFiles x c.files c.req.body).trans h
  rw [Call.registers] at hregisters
  cases hroute : route c.req.method c.req.path <;> rw [hroute] at hregisters <;>
    simp only [Bool.false_eq_true] at hregisters
  · simp only [Server.serve, hroute, haccepted, Server.handleAppendRules, hfiles] at hserve
    split_ifs at hserve
    obtain rfl := Option.some.inj hserve
    exact show ¬ 201 = 400 by decide
  · simp only [Server.serve, hroute, haccepted, Server.handleReplaceRules, hfiles] at hserve
    split_ifs at hserve
    · obtain rfl := Option.some.inj hserve
      exact show ¬ 200 = 400 by decide

omit [DecidableEq α] in
private theorem ParseError.toString_eq {e : ParseError} {place : Place}
    (hpath : e.path = place.segments) (hgot : e.got = none) : e.toString = place.text ++ e.msg := by
  rw [ParseError.toString, ParseError.pathStr, hpath, hgot, Place.text, String.append_empty]

/-- Rules with a readable body are answered with a 400 because of a place in them, which the answer
names: its text starts with the path of the parser's error, and goes on with what the parser of that
field says. The rules before it are fine on their own, and nothing has changed. As long as the same
stands at that place, no call registers anything, on any server and whatever else it sends. -/
theorem refusal_names_place {x : External} {o : OverflowChecks} {c : Call α} {v : Value}
    (hc : c.Reads x v) {s : Server α} {response : Response}
    (h : (s.serve x o c).2.2 = some response) (h400 : response.status = 400) :
    ∃ (e : ParseError) (place : Place) (fault : Value),
      parseRules x v none = .error (.error e) ∧ e.path = place.segments ∧
      response = plainError 400 (place.text ++ e.msg) ∧
      PlaceBlamed x none v place fault e.msg ∧
      (s.serve x o c).1 = s ∧
      ∀ (c' : Call α) v', c'.Reads x v' → place.find? v' = some fault → ∀ t : Server α,
        (t.serve x o c').1 = t ∧
          ∀ response', (t.serve x o c').2.2 = some response' → response'.status = 400 := by
  obtain ⟨hok, herror, hpanic⟩ := hc.parse
  obtain ⟨hrefused, hdead⟩ := Server.serve_of_no_rules (o := o) hc.registers hc.accepted s
  rcases hparse : parseRules x v none with (e | p) | rules
  · have hserve := hrefused _ (herror e hparse)
    obtain ⟨hgot, place, fault, hpath, hblamed⟩ := parseRules_blames hparse
    rw [hserve] at h
    obtain rfl := Option.some.inj h
    rw [ParseError.toString_eq hpath hgot]
    refine ⟨e, place, fault, rfl, hpath, rfl, hblamed, by rw [hserve], ?_⟩
    intro c' v' hc' hfault t
    obtain ⟨_, herror', hpanic'⟩ := hc'.parse
    obtain ⟨hrefused', hdead'⟩ := Server.serve_of_no_rules (o := o) hc'.registers hc'.accepted t
    rcases hparse' : parseRules x v' none with (e' | p') | rules
    · rw [hrefused' _ (herror' e' hparse')]
      refine ⟨rfl, fun response' h' => ?_⟩
      obtain rfl := Option.some.inj h'
      rfl
    · rw [hdead' _ (hpanic' p' hparse')]
      exact ⟨rfl, fun response' h' => by cases h'⟩
    · exact absurd hparse' (hblamed.refused v' hfault rules)
  · rw [hdead _ (hpanic p hparse)] at h
    cases h
  · exact absurd h400 (Server.status_of_rules hc.registers hc.accepted (hok rules hparse) h)

theorem refusal_names_place_timeout :
    let any : Value := .obj [("match", .string "_"), ("reply", .obj [] (by decide))] (by decide)
    let serve : Value := .obj [("timeout", .ofNat 5)] (by decide)
    let timed : Value := .obj [("match", .string "_"), ("reply", .obj [] (by decide)),
      ("serve", serve)] (by decide)
    let v : Value := .array [any, timed]
    let x : External := { (default : External) with fromStr := fun _ => .ok v }
    let c := plainCall "POST" "/_mx" (utf8 "")
    let place : Place := ⟨some 1, some "serve"⟩
    let msg := "timeout must be a string, got 5"
    place.text = "rule[1].serve: " ∧
      ((Server.new : Server Unit).serve x .checked c).2.2 =
        some (plainError 400 (place.text ++ msg)) ∧
      PlaceBlamed x none v place serve msg ∧
      ∀ (c' : Call Unit) v', c'.Reads x v' → place.find? v' = some serve →
        ∀ t : Server Unit, (t.serve x .checked c').1 = t := by
  intro any serve timed v x c place msg
  have hc : c.Reads x v := ⟨rfl, rfl, "", fromUTF8_utf8 "", rfl⟩
  have h : ((Server.new : Server Unit).serve x .checked c).2.2 =
      some (plainError 400 (place.text ++ msg)) := rfl
  obtain ⟨e, place', fault, hparse, hpath, _, hblamed, _, hrefused⟩ := refusal_names_place hc h rfl
  obtain rfl : e = ⟨msg, ["rule[1]", "serve"], none⟩ := by
    cases hparse
    rfl
  -- the path of the error leaves one place
  obtain ⟨index, field⟩ := place'
  rcases index with _ | _ | _ | i
  · cases hblamed.index.mp rfl
  · exact absurd (List.cons.inj hpath).1 (by decide)
  · obtain rfl : field = some "serve" := by
      cases field with
      | none => cases (List.cons.inj hpath).2
      | some name => exact congrArg some (List.cons.inj (List.cons.inj hpath).2).1.symm
    obtain rfl : fault = serve := Option.some.inj (hblamed.found.symm.trans rfl)
    exact ⟨by decide, h, hblamed, fun c' v' hc' hfault t => (hrefused c' v' hc' hfault t).1⟩
  · cases hblamed.found

end Mockinx
