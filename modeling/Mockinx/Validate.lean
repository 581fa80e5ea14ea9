import Mockinx.Rule

/-!
Warnings about a rule's configuration; they never reject a rule.
-/

set_option autoImplicit false
set_option relaxedAutoImplicit false

namespace Mockinx

open Lib

structure Warning where
  msg : String
  deriving DecidableEq

def Warning.toString (w : Warning) : String := "⚠ " ++ w.msg

/-- The earliest millisecond of a drop range. -/
def dropMillis : Range Duration → ℕ
  | .fixed d => d.asMillis
  | .minMax min _ => min.asMillis

/-- The latest millisecond of a pace range. -/
def paceMillis : Range Duration → ℕ
  | .fixed d => d.asMillis
  | .minMax _ max => max.asMillis

def warningAt (index : Option ℕ) (msg : String) : Warning :=
  match index with
  | some i => ⟨"rule[" ++ ToString.toString i ++ "]." ++ msg⟩
  | none => ⟨msg⟩

def dropWarnings (delivery : DeliverySpec) (index : Option ℕ) : List Warning :=
  match delivery.drop, delivery.pace with
  | some (.afterTime dropRange), some (.duration paceRange) =>
    if dropMillis dropRange < paceMillis paceRange then
      [warningAt index
        "serve: drop fires before pace completes — response will be truncated early"]
    else []
  | _, _ => []

/-- Chaos percentages that leave no normal response. -/
def chaosWarnings (chaos : Option (List (ChaosEntry F64))) (index : Option ℕ) : List Warning :=
  match chaos with
  | some entries =>
    let total := entries.foldl (fun t e => t + e.p) 0
    if (total - F64.ofNat 100).abs < F64.ofRat (1 / 100) then
      [warningAt index
        "chaos: percentages sum to 100% — no normal responses will ever be returned"]
    else []
  | none => []

def validateRule (rule : Rule) (index : Option ℕ) : List Warning :=
  dropWarnings rule.delivery index ++ chaosWarnings rule.chaos index

/-- The warnings of all rules; a rule is named by its position when there is more than one. -/
def validateRules (rules : List Rule) : List Warning :=
  (rules.mapIdx fun i rule =>
    validateRule rule (if 1 < rules.length then some i else none)).flatten

end Mockinx
