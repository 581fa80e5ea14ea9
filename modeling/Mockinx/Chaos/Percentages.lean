import Mockinx.Chaos
import Mockinx.Lib.F64Bounds

/-!
The percentages of accepted chaos entries. The checks of the parser are stated over the arithmetic
of the running total, in floats as the program has it or in exact fractions.
-/

set_option autoImplicit false
set_option relaxedAutoImplicit false

namespace Mockinx

open Lib Lib.Text

structure Totals (T : Type) where
  start : T
  add : T → F64 → T
  /-- Whether a total is more than a hundred. -/
  exceeds : T → Bool
  text : T → String

namespace Totals

variable {T : Type}

def parseEntry (t : Totals T) (x : External) (totalP : T) (item : Value) :
    Parse (T × ChaosEntry F64) := do
  let obj ← okOr item.asObject "chaos entry must be an object"
  let p ← parsePercentage (← okOr (obj.get? "p") "chaos entry requires 'p'")
  let totalP := t.add totalP p
  if t.exceeds totalP then
    fail ("chaos percentages sum to " ++ t.text totalP ++ "%, cannot exceed 100%")
  else
    let reply ← match obj.get? "reply" with
      | some v => do pure (some (← parseReply x v none))
      | none => pure none
    let serve ← parseChaosServe obj
    if reply.isNone && serve.isNone then
      fail "chaos entry must have 'reply' and/or 'serve'"
    else
      return (totalP, { p, reply, serve })

def parseEntries (t : Totals T) (x : External) : T → List Value → Parse (List (ChaosEntry F64))
  | _, [] => .ok []
  | totalP, item :: items => do
    let (totalP, entry) ← t.parseEntry x totalP item
    return entry :: (← t.parseEntries x totalP items)

def parse (t : Totals T) (x : External) (v : Value) : Parse (List (ChaosEntry F64)) := do
  let arr ← okOr v.asArray "chaos must be an array"
  if arr.isEmpty then
    fail "chaos array cannot be empty"
  else
    t.parseEntries x t.start arr

end Totals

def floatTotals (x : External) : Totals F64 where
  start := 0
  add := (· + ·)
  exceeds total := decide (F64.ofNat 100 < total)
  text := x.showF64

private theorem parseChaosEntry_eq (x : External) (totalP : F64) (item : Value) :
    parseChaosEntry x totalP item = (floatTotals x).parseEntry x totalP item := by
  rw [parseChaosEntry, Totals.parseEntry]
  refine bind_congr fun obj => bind_congr fun v => bind_congr fun p => ?_
  change (if F64.ofNat 100 < totalP + p then _ else _) =
    if decide (F64.ofNat 100 < totalP + p) = true then _ else _
  by_cases hsum : F64.ofNat 100 < totalP + p
  · rw [if_pos hsum, if_pos (decide_eq_true hsum)]
    rfl
  · rw [if_neg hsum, if_neg (by simpa using hsum)]
    rfl

private theorem parseChaosEntries_eq (x : External) (totalP : F64) (items : List Value) :
    parseChaosEntries x totalP items = (floatTotals x).parseEntries x totalP items := by
  induction items generalizing totalP with
  | nil => rfl
  | cons item items ih =>
    rw [parseChaosEntries, Totals.parseEntries, parseChaosEntry_eq]
    refine bind_congr fun r => ?_
    dsimp only
    rw [ih]

theorem parseChaos_eq (x : External) (v : Value) :
    parseChaos x v = (floatTotals x).parse x v := by
  rw [parseChaos, Totals.parse]
  refine bind_congr fun arr => ?_
  rw [parseChaosEntries_eq]
  rfl

/-- The total in exact fractions. -/
def exactTotals (x : External) : Totals F64.Exact where
  start := .finite 0
  add := F64.Exact.add
  exceeds := F64.Exact.exceeds 100
  text total := x.showF64 total.round

def percentNumber (v : Value) : Option F64 :=
  v.asStr.bind fun text => (stripSuffix "%".toList (trim text.toList)).bind fun numStr =>
    F64.parse (trim numStr)

def percentOf (item : Value) : Option F64 := (item.get? "p").bind percentNumber

/-- No entry gives a NaN as its percentage. -/
def NoNaN (v : Value) : Prop := ∀ item ∈ v.asArray.getD [], percentOf item ≠ some .nan

instance (v : Value) : Decidable (NoNaN v) :=
  inferInstanceAs (Decidable (∀ item ∈ v.asArray.getD [], percentOf item ≠ some .nan))

/-- Percentages that are numbers up to a hundred, with an exact sum within a bound. -/
structure SubDistribution (bound : ℚ) (entries : List (ChaosEntry F64)) : Prop where
  range : ∀ entry ∈ entries, ∃ q, entry.p.value = some q ∧ 0 ≤ q ∧ q ≤ 100
  sum_le : (entries.map fun entry => entry.p.value.getD 0).sum ≤ bound

private theorem parsePercentage_ok {v : Value} {p : F64} (h : parsePercentage v = .ok p) :
    percentNumber v = some p ∧ ¬ p < 0 ∧ ¬ F64.ofNat 100 < p := by
  rw [parsePercentage] at h
  obtain ⟨text, htext, hpercent⟩ := parse_bind_ok.mp h
  obtain ⟨numStr, hstrip, hnumber⟩ := parse_bind_ok.mp hpercent
  obtain ⟨number, hparse, hchecked⟩ := parse_bind_ok.mp hnumber
  have hread : percentNumber v = some number := by
    rw [percentNumber, okOr_ok.mp htext, Option.bind_some, okOr_ok.mp hstrip, Option.bind_some,
      okOr_ok.mp hparse]
  split_ifs at hchecked with hneg hlarge
  · cases hchecked
  · cases hchecked
  · obtain rfl := Except.ok.inj hchecked
    exact ⟨hread, hneg, hlarge⟩

namespace Totals

variable {T : Type} {t : Totals T} {x : External}

def Within (t : Totals T) : T → List (ChaosEntry F64) → Prop
  | _, [] => True
  | totalP, entry :: entries =>
    t.exceeds (t.add totalP entry.p) = false ∧ t.Within (t.add totalP entry.p) entries

private theorem parseServe_ok {obj : Map} {totalP totalP' : T} {p : F64} {reply : Option ReplySpec}
    {entry : ChaosEntry F64}
    (h : (do
      let serve ← parseChaosServe obj
      if reply.isNone && serve.isNone then
        fail "chaos entry must have 'reply' and/or 'serve'"
      else
        return (totalP, { p, reply, serve }) : Parse (T × ChaosEntry F64)) = .ok (totalP', entry)) :
    totalP' = totalP ∧ entry.p = p := by
  obtain ⟨serve, _, hentry⟩ := parse_bind_ok.mp h
  split_ifs at hentry
  · cases hentry
  · obtain ⟨rfl, rfl⟩ := Prod.mk.inj (Except.ok.inj hentry)
    exact ⟨rfl, rfl⟩

private theorem parseEntry_ok {totalP totalP' : T} {item : Value} {entry : ChaosEntry F64}
    (h : t.parseEntry x totalP item = .ok (totalP', entry)) :
    totalP' = t.add totalP entry.p ∧ t.exceeds totalP' = false ∧ percentOf item = some entry.p ∧
      ¬ entry.p < 0 ∧ ¬ F64.ofNat 100 < entry.p := by
  rw [parseEntry] at h
  obtain ⟨obj, hobj, hobject⟩ := parse_bind_ok.mp h
  obtain ⟨v, hv, hvalue⟩ := parse_bind_ok.mp hobject
  obtain ⟨p, hp, hpercent⟩ := parse_bind_ok.mp hvalue
  obtain ⟨hnumber, hneg, hlarge⟩ := parsePercentage_ok hp
  obtain rfl := Value.asObject_eq_some.mp (okOr_ok.mp hobj)
  have hof : percentOf (.object obj) = some p := by
    change (obj.get? "p").bind percentNumber = _
    rw [okOr_ok.mp hv]
    exact hnumber
  dsimp only at hpercent
  split_ifs at hpercent with hexceeds
  · cases hpercent
  · have hentry : totalP' = t.add totalP p ∧ entry.p = p := by
      cases hget : obj.get? "reply" with
      | none =>
        rw [hget] at hpercent
        exact parseServe_ok hpercent
      | some v =>
        rw [hget] at hpercent
        obtain ⟨reply, _, hreply⟩ := parse_bind_ok.mp hpercent
        exact parseServe_ok hreply
    obtain ⟨rfl, rfl⟩ := hentry
    exact ⟨rfl, Bool.eq_false_of_not_eq_true hexceeds, hof, hneg, hlarge⟩

structure Accepted (t : Totals T) (totalP : T) (items : List Value)
    (entries : List (ChaosEntry F64)) : Prop where
  given : items.map percentOf = entries.map fun entry => some entry.p
  within : t.Within totalP entries
  range : ∀ entry ∈ entries, ¬ entry.p < 0 ∧ ¬ F64.ofNat 100 < entry.p

private theorem parseEntries_ok {totalP : T} {items : List Value} {entries : List (ChaosEntry F64)}
    (h : t.parseEntries x totalP items = .ok entries) : t.Accepted totalP items entries := by
  induction items generalizing totalP entries with
  | nil =>
    obtain rfl := Except.ok.inj h
    exact ⟨rfl, trivial, by simp⟩
  | cons item items ih =>
    rw [parseEntries] at h
    obtain ⟨⟨totalP', entry⟩, hentry, hrest⟩ := parse_bind_ok.mp h
    obtain ⟨entries', hentries, hcons⟩ := parse_bind_ok.mp hrest
    obtain rfl := Except.ok.inj hcons
    obtain ⟨rfl, hexceeds, hof, hrange⟩ := parseEntry_ok hentry
    have hacc := ih hentries
    refine ⟨?_, ⟨hexceeds, hacc.within⟩, List.forall_mem_cons.mpr ⟨hrange, hacc.range⟩⟩
    rw [List.map_cons, List.map_cons, hof, hacc.given]

theorem parse_ok {v : Value} {entries : List (ChaosEntry F64)} (h : t.parse x v = .ok entries) :
    t.Accepted t.start (v.asArray.getD []) entries := by
  rw [parse] at h
  obtain ⟨arr, harr, hitems⟩ := parse_bind_ok.mp h
  rw [okOr_ok.mp harr, Option.getD_some]
  split_ifs at hitems
  · cases hitems
  · exact parseEntries_ok hitems

private theorem Accepted.noNaN_iff {totalP : T} {v : Value} {entries : List (ChaosEntry F64)}
    (h : t.Accepted totalP (v.asArray.getD []) entries) :
    NoNaN v ↔ ∀ entry ∈ entries, entry.p ≠ .nan := by
  have hmem : (some F64.nan ∈ (v.asArray.getD []).map percentOf) ↔
      some F64.nan ∈ entries.map fun entry => some entry.p := by
    rw [h.given]
  simp only [List.mem_map, Option.some.injEq] at hmem
  rw [NoNaN]
  constructor
  · intro hno entry hentry hnan
    obtain ⟨item, hitem, hof⟩ := hmem.mpr ⟨entry, hentry, hnan⟩
    exact hno item hitem hof
  · intro hno item hitem hof
    obtain ⟨entry, hentry, hnan⟩ := hmem.mp ⟨item, hitem, hof⟩
    exact hno entry hentry hnan

end Totals

theorem percent_range {p : F64} (hnan : p ≠ .nan) (hneg : ¬ p < 0)
    (hlarge : ¬ F64.ofNat 100 < p) : ∃ q, p = .finite q ∧ 0 ≤ q.1 ∧ q.1 ≤ 100 := by
  rw [F64.ofNat_eq (by norm_num : 100 < 2 ^ 53)] at hlarge
  cases p with
  | nan => exact absurd rfl hnan
  | inf s =>
    rw [F64.zero_eq] at hneg
    cases s <;> simp [LT.lt, F64.lt] at hneg hlarge
  | finite q =>
    rw [F64.finite_lt_finite, not_lt] at hlarge
    exact ⟨q, rfl, F64.not_neg_iff.mp hneg, by simpa using hlarge⟩

def values (entries : List (ChaosEntry F64)) : List ℚ :=
  entries.map fun entry => entry.p.value.getD 0

def InRange (entries : List (ChaosEntry F64)) : Prop :=
  ∀ entry ∈ entries, ∃ q, entry.p = .finite q ∧ 0 ≤ q.1 ∧ q.1 ≤ 100

private theorem sum_le_of_exact_within {x : External} {entries : List (ChaosEntry F64)} {a : ℚ}
    (ha : a ≤ 100) (hrange : InRange entries)
    (h : (exactTotals x).Within (.finite a) entries) : a + (values entries).sum ≤ 100 := by
  induction entries generalizing a with
  | nil => simpa [values] using ha
  | cons entry entries ih =>
    obtain ⟨hexceeds, hrest⟩ := h
    obtain ⟨q, hq, _, _⟩ := hrange entry List.mem_cons_self
    have hadd : (exactTotals x).add (.finite a) entry.p = .finite (a + q.1) := by
      rw [hq]
      rfl
    rw [hadd] at hexceeds hrest
    have hle : a + q.1 ≤ 100 := not_lt.mp (of_decide_eq_false hexceeds)
    have hsum := ih hle (fun e he => hrange e (List.mem_cons_of_mem entry he)) hrest
    rw [values, List.map_cons, List.sum_cons, hq, ← add_assoc]
    exact hsum

private theorem add_percent {a q : {q : ℚ // Representable q}} (ha : 0 ≤ a.1 ∧ a.1 ≤ 100)
    (hq : 0 ≤ q.1 ∧ q.1 ≤ 100) :
    ∃ r, (F64.finite a + F64.finite q : F64) = .finite r ∧ 0 ≤ r.1 ∧
      a.1 + q.1 ≤ r.1 + powInt 2 (-46) := by
  have h256 : powInt 2 8 = 256 := by decide +kernel
  have hbound : |a.1 + q.1| < powInt 2 8 := by
    rw [abs_of_nonneg (add_nonneg ha.1 hq.1), h256]
    linarith [ha.2, hq.2]
  obtain ⟨r, hr, hround, hlo, _⟩ := F64.ofRat_between representable_zero
    (representable_powInt (by norm_num) (by norm_num)) (add_nonneg ha.1 hq.1)
    (le_of_abs_le hbound.le)
  refine ⟨r, hr, hlo, ?_⟩
  have herror : |r.1 - (a.1 + q.1)| ≤ powInt 2 (-46) := by
    rw [hround]
    refine (F64.abs_roundRat_sub_le _).trans (F64.powInt_le_powInt.mpr ?_)
    have := F64.quantum_le (by norm_num) hbound
    omega
  have := (abs_le.mp herror).1
  linarith

private theorem sum_le_of_float_within {x : External} {entries : List (ChaosEntry F64)}
    {a : {q : ℚ // Representable q}} (ha : 0 ≤ a.1 ∧ a.1 ≤ 100) (hrange : InRange entries)
    (h : (floatTotals x).Within (.finite a) entries) :
    a.1 + (values entries).sum ≤ 100 + entries.length * powInt 2 (-46) := by
  induction entries generalizing a with
  | nil => simpa [values] using ha.2
  | cons entry entries ih =>
    obtain ⟨hexceeds, hrest⟩ := h
    obtain ⟨q, hq, hqrange⟩ := hrange entry List.mem_cons_self
    obtain ⟨r, hr, hpos, herror⟩ := add_percent ha hqrange
    have hadd : (floatTotals x).add (.finite a) entry.p = .finite r := by
      rw [hq]
      exact hr
    rw [hadd] at hexceeds hrest
    have hle : r.1 ≤ 100 := by
      have hnot : ¬ F64.ofNat 100 < .finite r := of_decide_eq_false hexceeds
      rw [F64.ofNat_eq (by norm_num), F64.finite_lt_finite, not_lt] at hnot
      exact hnot
    have hsum := ih ⟨hpos, hle⟩ (fun e he => hrange e (List.mem_cons_of_mem entry he)) hrest
    have hvalues : (values (entry :: entries)).sum = q.1 + (values entries).sum := by
      rw [values, List.map_cons, List.sum_cons, hq]
      rfl
    rw [hvalues, List.length_cons]
    push_cast
    linarith

private theorem inRange_of_noNaN {T : Type} {t : Totals T} {totalP : T} {v : Value}
    {entries : List (ChaosEntry F64)} (h : t.Accepted totalP (v.asArray.getD []) entries)
    (hno : NoNaN v) : InRange entries := fun entry hentry =>
  percent_range (h.noNaN_iff.mp hno entry hentry) (h.range entry hentry).1 (h.range entry hentry).2

private theorem SubDistribution.ne_nan {bound : ℚ} {entries : List (ChaosEntry F64)}
    (h : SubDistribution bound entries) : ∀ entry ∈ entries, entry.p ≠ .nan := by
  intro entry hentry hnan
  obtain ⟨q, hq, _⟩ := h.range entry hentry
  rw [hnan] at hq
  cases hq

private theorem subDistribution_of_inRange {bound : ℚ} {entries : List (ChaosEntry F64)}
    (hrange : InRange entries) (hsum : (values entries).sum ≤ bound) :
    SubDistribution bound entries := by
  refine ⟨fun entry hentry => ?_, hsum⟩
  obtain ⟨q, hq, hbounds⟩ := hrange entry hentry
  exact ⟨q.1, by rw [hq]; rfl, hbounds⟩

/-- Accepted entries are a sub-distribution exactly when none of them gives a NaN: with exact sums
within a hundred, and with the rounded sums of the program within the error of its additions. -/
theorem sub_distribution_iff (x : External) (v : Value) (entries : List (ChaosEntry F64)) :
    ((exactTotals x).parse x v = .ok entries → (SubDistribution 100 entries ↔ NoNaN v)) ∧
      (parseChaos x v = .ok entries →
        (SubDistribution (100 + entries.length * powInt 2 (-46)) entries ↔ NoNaN v)) := by
  constructor
  · intro h
    have hacc := Totals.parse_ok h
    refine ⟨fun hsub => hacc.noNaN_iff.mpr hsub.ne_nan, fun hno => ?_⟩
    have hrange := inRange_of_noNaN hacc hno
    refine subDistribution_of_inRange hrange ?_
    have hsum := sum_le_of_exact_within (by norm_num) hrange hacc.within
    rwa [zero_add] at hsum
  · intro h
    rw [parseChaos_eq] at h
    have hacc := Totals.parse_ok h
    refine ⟨fun hsub => hacc.noNaN_iff.mpr hsub.ne_nan, fun hno => ?_⟩
    have hrange := inRange_of_noNaN hacc hno
    refine subDistribution_of_inRange hrange ?_
    have hstart : (floatTotals x).start = .finite ⟨0, representable_zero⟩ := F64.zero_eq
    have hwithin := hacc.within
    rw [hstart] at hwithin
    have hsum := sum_le_of_float_within (by norm_num) hrange hwithin
    simpa using hsum

/-- An entry that replies with the defaults. -/
def chaosItem (p : String) : Value :=
  .obj [("p", .string p), ("reply", .obj [] (by simp))] (by simp)

private theorem exists_ok_of_percentages {r : Parse (List (ChaosEntry F64))} {ps : List F64}
    (h : r.toOption.map (fun entries => entries.map ChaosEntry.p) = some ps) :
    ∃ entries, r = .ok entries ∧ entries.map ChaosEntry.p = ps := by
  cases r with
  | error e => cases h
  | ok entries => exact ⟨entries, rfl, Option.some.inj h⟩

theorem sub_distribution_of_two_numbers :
    let v : Value := .array [chaosItem "30%", chaosItem "70%"]
    ∃ entries, parseChaos default v = .ok entries ∧
      SubDistribution (100 + entries.length * powInt 2 (-46)) entries := by
  intro v
  have hparse : (parseChaos default v).toOption.map (fun entries => entries.map ChaosEntry.p) =
      some [F64.ofNat 30, F64.ofNat 70] := by decide +kernel
  obtain ⟨entries, h, _⟩ := exists_ok_of_percentages hparse
  exact ⟨entries, h, ((sub_distribution_iff default v entries).2 h).mpr (by decide +kernel)⟩

/-- A NaN switches the checks off: two entries of a hundred percent are accepted behind it. -/
theorem nan_switches_checks_off :
    let v : Value := .array [chaosItem "nan%", chaosItem "100%", chaosItem "100%"]
    let ps := [F64.nan, F64.ofNat 100, F64.ofNat 100]
    (∃ entries, parseChaos default v = .ok entries ∧ entries.map ChaosEntry.p = ps ∧
        ¬ SubDistribution 100 entries) ∧
      ∃ entries, (exactTotals default).parse default v = .ok entries ∧
        entries.map ChaosEntry.p = ps ∧ ¬ SubDistribution 100 entries := by
  intro v ps
  have hnan : ∀ entries : List (ChaosEntry F64), entries.map ChaosEntry.p = ps →
      ¬ SubDistribution 100 entries := by
    intro entries hps hsub
    have hmem : F64.nan ∈ entries.map ChaosEntry.p := hps ▸ List.mem_cons_self
    obtain ⟨entry, hentry, hp⟩ := List.mem_map.mp hmem
    exact hsub.ne_nan entry hentry hp
  have hfloat : (parseChaos default v).toOption.map (fun entries => entries.map ChaosEntry.p) =
      some ps := by decide +kernel
  have hexact : ((exactTotals default).parse default v).toOption.map
      (fun entries => entries.map ChaosEntry.p) = some ps := by decide +kernel
  obtain ⟨entries, h, hps⟩ := exists_ok_of_percentages hfloat
  obtain ⟨entries', h', hps'⟩ := exists_ok_of_percentages hexact
  exact ⟨⟨entries, h, hps, hnan entries hps⟩, ⟨entries', h', hps', hnan entries' hps'⟩⟩

end Mockinx
