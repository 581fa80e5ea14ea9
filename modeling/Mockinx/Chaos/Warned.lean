import Mockinx.Chaos.Percentages
import Mockinx.Validate
import Mockinx.WellFormed

/-!
What the warning about chaos percentages is worth. The rolls are multiples of a hundredth of a draw,
rounded to floats, and the warning compares the rounded total with a tolerance.
-/

set_option autoImplicit false
set_option relaxedAutoImplicit false

namespace Mockinx

open Lib

/-- The total of the percentages, as the warning adds it up. -/
def totalPercent (entries : List (ChaosEntry F64)) : F64 := entries.foldl (fun t e => t + e.p) 0

/-- With these draws no chaos entry is selected. -/
def NormalAt (entries : List (ChaosEntry F64)) (rng : Rng) : Prop :=
  resolveChaos entries (rng.float * F64.ofNat 100) = .normal

private theorem add_within {x : External} {entry : ChaosEntry F64} {entries : List (ChaosEntry F64)}
    (hrange : InRange (entry :: entries)) {a : {q : ℚ // Representable q}}
    (ha : 0 ≤ a.1 ∧ a.1 ≤ 100) (h : (floatTotals x).Within (.finite a) (entry :: entries)) :
    ∃ b, (.finite a + entry.p : F64) = .finite b ∧ a.1 ≤ b.1 ∧ (0 ≤ b.1 ∧ b.1 ≤ 100) ∧
      (floatTotals x).Within (.finite b) entries := by
  obtain ⟨hexceeds, hrest⟩ := h
  obtain ⟨q, hq, hq0, hq100⟩ := hrange entry List.mem_cons_self
  have hsum : a.1 + q.1 ≤ powInt 2 8 := by
    have h256 : powInt 2 8 = 256 := by norm_num [F64.powInt_eq_zpow]
    rw [h256]
    linarith [ha.2]
  obtain ⟨b, hb, _, hab, _⟩ := F64.ofRat_between a.2
    (representable_powInt (by norm_num) (by norm_num)) (show a.1 ≤ a.1 + q.1 by linarith) hsum
  have hadd : (.finite a + entry.p : F64) = .finite b := by
    rw [hq, F64.finite_add_finite, hb]
  have hadd' : (floatTotals x).add (.finite a) entry.p = .finite b := hadd
  rw [hadd'] at hexceeds hrest
  have hle : ¬ F64.ofNat 100 < .finite b := of_decide_eq_false hexceeds
  rw [F64.ofNat_eq (by norm_num), F64.finite_lt_finite, not_lt] at hle
  exact ⟨b, hadd, hab, ⟨ha.1.trans hab, hle⟩, hrest⟩

private theorem exists_total {x : External} {entries : List (ChaosEntry F64)}
    (hrange : InRange entries) {a : {q : ℚ // Representable q}} (ha : 0 ≤ a.1 ∧ a.1 ≤ 100)
    (h : (floatTotals x).Within (.finite a) entries) :
    ∃ total, entries.foldl (fun t e => t + e.p) (.finite a) = .finite total ∧ a.1 ≤ total.1 ∧
      total.1 ≤ 100 := by
  induction entries generalizing a with
  | nil => exact ⟨a, rfl, le_rfl, ha.2⟩
  | cons entry entries ih =>
    obtain ⟨b, hb, hab, hb100, hrest⟩ := add_within hrange ha h
    obtain ⟨total, htotal, hbt, ht100⟩ :=
      ih (fun e he => hrange e (List.mem_cons_of_mem entry he)) hb100 hrest
    refine ⟨total, ?_, hab.trans hbt, ht100⟩
    rw [List.foldl_cons, hb, htotal]

private theorem selectChaos_normal_iff {x : External} {entries : List (ChaosEntry F64)}
    (hrange : InRange entries) {a roll total : {q : ℚ // Representable q}}
    (ha : 0 ≤ a.1 ∧ a.1 ≤ 100) (hroll : a.1 ≤ roll.1)
    (h : (floatTotals x).Within (.finite a) entries)
    (htotal : entries.foldl (fun t e => t + e.p) (.finite a) = .finite total) :
    selectChaos (.finite roll) (.finite a) entries = .normal ↔ total.1 ≤ roll.1 := by
  induction entries generalizing a with
  | nil =>
    obtain rfl : a = total := F64.finite.inj htotal
    exact iff_of_true rfl hroll
  | cons entry entries ih =>
    obtain ⟨b, hb, _, hb100, hrest⟩ := add_within hrange ha h
    have hrange' : InRange entries := fun e he => hrange e (List.mem_cons_of_mem entry he)
    rw [List.foldl_cons, hb] at htotal
    rw [selectChaos, hb]
    by_cases hlt : roll.1 < b.1
    · rw [if_pos (F64.finite_lt_finite.mpr hlt)]
      obtain ⟨total', htotal', hbt, _⟩ := exists_total hrange' hb100 hrest
      obtain rfl : total' = total := F64.finite.inj (htotal'.symm.trans htotal)
      exact iff_of_false (fun heq => by cases heq) (not_le.mpr (hlt.trans_le hbt))
    · rw [if_neg (fun hover => hlt (F64.finite_lt_finite.mp hover))]
      exact ih hrange' hb100 (not_lt.mp hlt) hrest htotal

def percentDrawn (rng : Rng) : ℚ := ((rng.draw 0 : ℕ) : ℚ) / (2 ^ 53 : ℕ) * 100

private theorem percentDrawn_bounds (rng : Rng) :
    0 ≤ percentDrawn rng ∧ percentDrawn rng ≤ 100 - 100 * powInt 2 (-53) := by
  have hnum : ((rng.draw 0 : ℕ) : ℚ) + 1 ≤ (2 ^ 53 : ℕ) := by
    exact_mod_cast (rng.draw 0).2
  have h53 : powInt 2 (-53) = 1 / (2 ^ 53 : ℕ) := by norm_num [F64.powInt_eq_zpow]
  have hpos : (0 : ℚ) < (2 ^ 53 : ℕ) := by norm_num
  constructor
  · rw [percentDrawn]
    positivity
  · have hdiv : ((rng.draw 0 : ℕ) : ℚ) / (2 ^ 53 : ℕ) ≤ 1 - 1 / (2 ^ 53 : ℕ) := by
      rw [le_sub_iff_add_le, ← add_div, div_le_one hpos]
      exact hnum
    rw [percentDrawn, h53]
    linarith

private theorem exists_roll (rng : Rng) :
    ∃ roll, (rng.float * F64.ofNat 100 : F64) = .finite roll ∧
      roll.1 = F64.roundRat (percentDrawn rng) ∧ 0 ≤ roll.1 ∧ roll.1 < 100 := by
  have hrepr : Representable (((rng.draw 0 : ℕ) : ℚ) / (2 ^ 53 : ℕ)) := by
    refine ⟨(rng.draw 0 : ℕ), -53, ?_, by norm_num, by norm_num, ?_⟩
    · rw [Nat.abs_cast]
      exact_mod_cast (rng.draw 0).2
    · have h53 : powInt 2 (-53) = 1 / (2 ^ 53 : ℕ) := by norm_num [F64.powInt_eq_zpow]
      rw [h53]
      push_cast
      ring
  have hfloat : rng.float = .finite ⟨_, hrepr⟩ := F64.ofRat_eq ⟨_, hrepr⟩
  have hmul : (rng.float * F64.ofNat 100 : F64) = .ofRat (percentDrawn rng) := by
    rw [hfloat, F64.ofNat_eq (by norm_num), F64.finite_mul_finite, percentDrawn]
    norm_num
  obtain ⟨hlo, hhi⟩ := percentDrawn_bounds rng
  have h128 : powInt 2 7 = 128 := by norm_num [F64.powInt_eq_zpow]
  have hle : percentDrawn rng ≤ powInt 2 7 := by
    rw [h128]
    linarith [F64.powInt_pos (-53)]
  obtain ⟨roll, hroll, hround, hroll0, _⟩ := F64.ofRat_between representable_zero
    (representable_powInt (by norm_num) (by norm_num)) hlo hle
  refine ⟨roll, hmul.trans hroll, hround, hroll0, ?_⟩
  -- half of the last digit of the roll is less than what the largest draw lacks
  have hquantum : F64.quantum (percentDrawn rng) ≤ 7 - 53 := F64.quantum_le (by norm_num) (by
    rw [abs_of_nonneg hlo, h128]
    linarith [F64.powInt_pos (-53)])
  have herror : F64.roundRat (percentDrawn rng) - percentDrawn rng ≤ powInt 2 (-47) :=
    (le_of_abs_le (F64.abs_roundRat_sub_le _)).trans (F64.powInt_le_powInt.mpr (by omega))
  have hgap : powInt 2 (-47) < 100 * powInt 2 (-53) := by norm_num [F64.powInt_eq_zpow]
  rw [hround]
  linarith

def largestDraw : Rng := ⟨fun _ => ⟨2 ^ 53 - 1, by norm_num⟩⟩

private theorem le_roll_largestDraw {total : ℚ} (ht : Representable total) (hlt : total < 100) :
    total ≤ F64.roundRat (percentDrawn largestDraw) := by
  have hsplit : (100 : ℚ) = ((100 * 2 ^ 46 : ℤ) : ℚ) * powInt 2 (-46) := by
    norm_num [F64.powInt_eq_zpow]
  have hpred : total ≤ 100 - powInt 2 (-46) := by
    have hlt' := hlt
    rw [hsplit] at hlt'
    have hle := ht.le_pred (by norm_num) hlt'
    rw [sub_mul, ← hsplit, one_mul] at hle
    exact hle
  have hdrawn : 100 - powInt 2 (-46) ≤ percentDrawn largestDraw := by decide +kernel
  exact F64.le_roundRat ht (hpred.trans hdrawn)

private theorem chaosWarnings_ne_nil_iff {entries : List (ChaosEntry F64)} {index : Option ℕ} :
    chaosWarnings (some entries) index ≠ [] ↔
      (totalPercent entries - F64.ofNat 100).abs < F64.ofRat (1 / 100) := by
  rw [chaosWarnings]
  change (if (totalPercent entries - F64.ofNat 100).abs < F64.ofRat (1 / 100) then _ else _) ≠
    [] ↔ _
  split_ifs with h
  · exact iff_of_true (List.cons_ne_nil _ _) h
  · exact iff_of_false (fun hne => hne rfl) h

private theorem lt_total_of_warned {entries : List (ChaosEntry F64)} {index : Option ℕ}
    {total : {q : ℚ // Representable q}} (htotal : totalPercent entries = .finite total)
    (h0 : 0 ≤ total.1) (hwarned : chaosWarnings (some entries) index ≠ []) :
    100 - 1 / 64 < total.1 := by
  rw [chaosWarnings_ne_nil_iff, htotal, F64.ofNat_eq (by norm_num),
    F64.finite_sub_finite] at hwarned
  by_contra hle
  rw [not_lt] at hle
  have h64 : Representable (1 / 64) :=
    ⟨1, -6, by norm_num, by norm_num, by norm_num, by norm_num [F64.powInt_eq_zpow]⟩
  have h100 : Representable (100 : ℕ) := representable_natCast (by norm_num)
  obtain ⟨d, hd, _, _, hd64⟩ := F64.ofRat_between h100.neg h64.neg
    (show -((100 : ℕ) : ℚ) ≤ total.1 - ((100 : ℕ) : ℚ) by linarith)
    (show total.1 - ((100 : ℕ) : ℚ) ≤ -(1 / 64) by
      push_cast
      linarith)
  obtain ⟨c, hc, _, _, hc64⟩ := F64.ofRat_between representable_zero h64
    (show (0 : ℚ) ≤ 1 / 100 by norm_num) (by norm_num)
  have hneg : (.finite d : F64) < 0 := by
    rw [F64.zero_eq, F64.finite_lt_finite]
    exact hd64.trans_lt (by norm_num)
  rw [hd, hc, F64.abs, if_pos hneg, F64.neg_finite, F64.finite_lt_finite] at hwarned
  have hlt : -d.1 < c.1 := hwarned
  linarith

private theorem warned_of_total {entries : List (ChaosEntry F64)} (index : Option ℕ)
    (htotal : totalPercent entries = F64.ofNat 100) :
    chaosWarnings (some entries) index ≠ [] := by
  rw [chaosWarnings_ne_nil_iff, htotal]
  decide +kernel

private theorem exists_total_of_parsed {x : External} {v : Value} {entries : List (ChaosEntry F64)}
    (h : parseChaos x v = .ok entries) (hnumbers : ∀ entry ∈ entries, entry.p ≠ .nan) :
    ∃ total, totalPercent entries = .finite total ∧ 0 ≤ total.1 ∧ total.1 ≤ 100 ∧
      ∀ rng, NormalAt entries rng ↔ total.1 ≤ F64.roundRat (percentDrawn rng) := by
  rw [parseChaos_eq] at h
  have hacc := Totals.parse_ok h
  have hrange : InRange entries := fun entry hentry =>
    percent_range (hnumbers entry hentry) (hacc.range entry hentry).1 (hacc.range entry hentry).2
  have hzero : (0 : F64) = .finite ⟨0, representable_zero⟩ := F64.zero_eq
  have hstart : (floatTotals x).start = .finite ⟨0, representable_zero⟩ := hzero
  have hwithin := hacc.within
  rw [hstart] at hwithin
  obtain ⟨total, htotal, ht0, ht100⟩ := exists_total hrange (by norm_num) hwithin
  refine ⟨total, by rw [totalPercent, hzero, htotal], ht0, ht100, fun rng => ?_⟩
  obtain ⟨roll, hroll, hround, hroll0, _⟩ := exists_roll rng
  rw [NormalAt, resolveChaos, hroll, hzero,
    selectChaos_normal_iff hrange (by norm_num) hroll0 hwithin htotal, hround]

private theorem roll_le_of_draw {rng : Rng} (hdraw : (rng.draw 0 : ℕ) * 10000 < 9998 * 2 ^ 53) :
    F64.roundRat (percentDrawn rng) ≤ 100 - 1 / 64 := by
  have hrepr : Representable (100 - 1 / 64) :=
    ⟨6399, -6, by norm_num, by norm_num, by norm_num, by norm_num [F64.powInt_eq_zpow]⟩
  refine F64.roundRat_le hrepr ?_
  have hpos : (0 : ℚ) < (2 ^ 53 : ℕ) := by norm_num
  have hdraw' : ((rng.draw 0 : ℕ) : ℚ) * 10000 < 9998 * (2 ^ 53 : ℕ) := by exact_mod_cast hdraw
  have hdiv : ((rng.draw 0 : ℕ) : ℚ) / (2 ^ 53 : ℕ) ≤ 9998 / 10000 := by
    rw [div_le_div_iff₀ hpos (by norm_num)]
    exact hdraw'.le
  rw [percentDrawn]
  linarith

/-- What the warning that no normal response will ever be returned is worth, for a rule that the
parser accepts and whose percentages are numbers. No draw is normal exactly if the total is a
hundred, and then there is the warning; where there is the warning, no draw below 99.98 percent of
the range is normal. -/
theorem never_normal_is_warned {x : External} {v : Value} {baseDir : Option String}
    {rules : List Rule} (h : parseRules x v baseDir = .ok rules) {rule : Rule} (hmem : rule ∈ rules)
    {entries : List (ChaosEntry F64)} (hchaos : rule.chaos = some entries)
    (hnumbers : ∀ entry ∈ entries, entry.p ≠ .nan) (index : Option ℕ) :
    ((∀ rng, ¬ NormalAt entries rng) ↔ totalPercent entries = F64.ofNat 100) ∧
      ((∀ rng, ¬ NormalAt entries rng) → chaosWarnings rule.chaos index ≠ []) ∧
      (chaosWarnings rule.chaos index ≠ [] →
        ∀ rng : Rng, (rng.draw 0 : ℕ) * 10000 < 9998 * 2 ^ 53 → ¬ NormalAt entries rng) := by
  obtain ⟨v', hparse⟩ : ∃ v', parseChaos x v' = .ok entries := by
    rcases (parseRules_parsed h rule hmem).chaos with hnone | ⟨v', entries', hparse, hsome⟩
    · rw [hchaos] at hnone
      cases hnone
    · rw [hchaos] at hsome
      exact ⟨v', by rw [hparse, Option.some.inj hsome]⟩
  obtain ⟨total, htotal, ht0, ht100, hnormal⟩ := exists_total_of_parsed hparse hnumbers
  have hnever : (∀ rng, ¬ NormalAt entries rng) ↔ totalPercent entries = F64.ofNat 100 := by
    rw [htotal, F64.ofNat_eq (by norm_num), F64.finite.injEq, Subtype.ext_iff]
    constructor
    · intro hno
      by_contra hne
      have hlt : total.1 < 100 := lt_of_le_of_ne ht100 hne
      exact hno largestDraw ((hnormal largestDraw).mpr (le_roll_largestDraw total.2 hlt))
    · intro heq rng hnorm
      obtain ⟨roll, _, hround, _, hroll⟩ := exists_roll rng
      have hle := (hnormal rng).mp hnorm
      rw [← hround, show total.1 = 100 from heq] at hle
      exact absurd hroll (not_lt.mpr hle)
  refine ⟨hnever, fun hno => ?_, fun hwarned rng hdraw hnorm => ?_⟩
  · rw [hchaos]
    exact warned_of_total index (hnever.mp hno)
  · rw [hchaos] at hwarned
    have htop := lt_total_of_warned htotal ht0 hwarned
    have hbelow := roll_le_of_draw hdraw
    linarith [(hnormal rng).mp hnorm]

theorem never_normal_is_warned_of_two :
    let v : Value := .obj [("match", .string "_"), ("reply", .obj [] (by decide)),
      ("chaos", .array [chaosItem "30%", chaosItem "70%"])] (by decide)
    ∃ rules rule entries, parseRules default v none = .ok rules ∧ rule ∈ rules ∧
      rule.chaos = some entries ∧ (∀ rng, ¬ NormalAt entries rng) ∧
      chaosWarnings rule.chaos none ≠ [] := by
  intro v
  have hread : ((parseRules default v none).toOption.bind (·.head?)).bind (fun rule =>
      rule.chaos.map fun entries => entries.map ChaosEntry.p) =
      some [F64.ofNat 30, F64.ofNat 70] := by decide +kernel
  obtain ⟨rule, hhead, hread⟩ := Option.bind_eq_some_iff.mp hread
  obtain ⟨rules, hrules, hhead⟩ := Option.bind_eq_some_iff.mp hhead
  obtain ⟨entries, hchaos, hps⟩ := Option.map_eq_some_iff.mp hread
  have hmem : rule ∈ rules := List.mem_of_head? hhead
  have hparse : parseRules default v none = .ok rules := by
    cases h : parseRules default v none with
    | error e =>
      rw [h] at hrules
      cases hrules
    | ok rules' =>
      rw [h] at hrules
      rw [Option.some.inj hrules]
  have htotal : totalPercent entries = F64.ofNat 100 := by
    have hfold : totalPercent entries =
        [F64.ofNat 30, F64.ofNat 70].foldl (fun t p => t + p) 0 := by
      rw [← hps, List.foldl_map]
      rfl
    rw [hfold]
    decide +kernel
  have hnumbers : ∀ entry ∈ entries, entry.p ≠ .nan := by
    intro entry hentry hnan
    have hmem : F64.nan ∈ entries.map ChaosEntry.p := List.mem_map.mpr ⟨entry, hentry, hnan⟩
    rw [hps] at hmem
    revert hmem
    decide +kernel
  obtain ⟨hnever, hwarned, _⟩ :=
    never_normal_is_warned hparse hmem hchaos hnumbers none
  exact ⟨rules, rule, entries, hparse, hmem, hchaos, hnever.mpr htotal,
    hwarned (hnever.mpr htotal)⟩

end Mockinx
