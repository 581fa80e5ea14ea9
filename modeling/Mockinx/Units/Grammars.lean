import Mockinx.Lib.F64Text
import Mockinx.Lib.Trim
import Mockinx.Units.DurationRange

/-!
The texts of byte sizes, durations and speeds. A size or a duration is a float and a unit, a speed
is a size and `/s`; the three grammars of ranges look at the text in front of the first `..`, and no
text is accepted by two of them.
-/

set_option autoImplicit false
set_option relaxedAutoImplicit false

namespace Mockinx

open Lib Lib.Text

private theorem stripUnit_eq_some {α : Type} {table : List (List Char × α)} {s n : List Char}
    {v : α} (h : stripUnit table s = some (n, v)) : ∃ u ∈ table.map Prod.fst, s = n ++ u := by
  obtain ⟨unit, hunit, hstrip⟩ := List.exists_of_findSome?_eq_some h
  obtain ⟨n', hn, heq⟩ := Option.map_eq_some_iff.mp hstrip
  obtain ⟨rfl, _⟩ := Prod.mk.inj heq
  exact ⟨unit.1, List.mem_map_of_mem hunit, stripSuffix_eq_some.mp hn⟩

def Measure (units : List (List Char)) (s : List Char) : Prop :=
  ∃ n x, F64.parse n = some x ∧ ∃ u ∈ units, s = n ++ u

namespace Measure

variable {units : List (List Char)} {s : List Char}

private theorem not_mem {c : Char} (h : Measure units s) (hc : F64.isLiteralChar c = false)
    (hunits : ∀ u ∈ units, c ∉ u) : c ∉ s := by
  obtain ⟨n, x, hn, u, hu, rfl⟩ := h
  rw [List.mem_append, not_or]
  exact ⟨F64.not_mem_of_parse hn hc, hunits u hu⟩

private theorem getLast? (h : Measure units s) (hne : [] ∉ units) :
    ∃ u ∈ units, s.getLast? = u.getLast? := by
  obtain ⟨n, x, hn, u, hu, rfl⟩ := h
  have hu' : u ≠ [] := fun hnil => hne (hnil ▸ hu)
  exact ⟨u, hu, List.getLast?_append_of_ne_nil n hu'⟩

end Measure

def SizeText (t : List Char) : Prop := Measure (byteUnits.map Prod.fst) (toLowercase (trim t))

def DurationText (t : List Char) : Prop :=
  Measure (durationUnits.map Prod.fst) (toLowercase (trim t))

def SpeedText (t : List Char) : Prop :=
  ∃ size, toLowercase (trim t) = size ++ "/s".toList ∧ SizeText size

private theorem sizeText_of_ok {t : List Char} {v : ByteSize} (h : parseByteSize t = .ok v) :
    SizeText t := by
  rw [parseByteSize] at h
  dsimp only at h
  split_ifs at h with hempty
  · cases h
  · obtain ⟨⟨numStr, multiplier⟩, hunit, h⟩ := parse_bind_ok.mp h
    obtain ⟨num, hnum, _⟩ := parse_bind_ok.mp h
    exact ⟨numStr, num, okOr_ok.mp hnum, stripUnit_eq_some (okOr_ok.mp hunit)⟩

private theorem durationText_of_secs {t : List Char} {x : F64} (h : durationSecs t = some x) :
    DurationText t := by
  rw [durationSecs] at h
  dsimp only at h
  split_ifs at h with hempty
  obtain ⟨⟨numStr, factorSecs⟩, hunit, h⟩ := Option.bind_eq_some_iff.mp h
  obtain ⟨num, hnum, _⟩ := Option.bind_eq_some_iff.mp h
  exact ⟨numStr, num, hnum, stripUnit_eq_some hunit⟩

private theorem durationText_of_ok {t : List Char} {d : Duration} (h : parseDuration t = .ok d) :
    DurationText t := by
  obtain ⟨x, hx, _⟩ := Option.bind_eq_some_iff.mp (parseDuration_ok.mp h)
  exact durationText_of_secs hx

private theorem speedText_of_ok {t : List Char} {v : Speed} (h : parseSpeed t = .ok v) :
    SpeedText t := by
  rw [parseSpeed] at h
  split_ifs at h with hempty
  · cases h
  · obtain ⟨size, hsize, h⟩ := parse_bind_ok.mp h
    obtain ⟨v', hv, _⟩ := parse_bind_ok.mp h
    exact ⟨size, stripSuffix_eq_some.mp (okOr_ok.mp hsize), sizeText_of_ok hv⟩

structure Foreign (c : Char) : Prop where
  literal : F64.isLiteralChar c = false
  sizes : ∀ u ∈ byteUnits.map Prod.fst, c ∉ u
  durations : ∀ u ∈ durationUnits.map Prod.fst, c ∉ u
  space : isWhitespace c = false
  lower : lowerChar c = [c]
  percent : c ≠ '%'

theorem foreign_slash : Foreign '/' where
  literal := by decide
  sizes := by decide
  durations := by simp [durationUnits]
  space := by decide
  lower := by decide
  percent := by decide

theorem foreign_at : Foreign '@' where
  literal := by decide
  sizes := by decide
  durations := by simp [durationUnits]
  space := by decide
  lower := by decide
  percent := by decide

namespace Foreign

variable {c : Char} {t : List Char}

private theorem ne_dot (hc : Foreign c) : c ≠ '.' := by
  rintro rfl
  exact absurd hc.literal (by decide)

private theorem mem_lower (hc : Foreign c) (h : c ∈ t) : c ∈ toLowercase (trim t) :=
  mem_toLowercase hc.lower ((mem_trim hc.space).mpr h)

private theorem not_mem_size (hc : Foreign c) (h : SizeText t) : c ∉ t :=
  fun hmem => h.not_mem hc.literal hc.sizes (hc.mem_lower hmem)

private theorem not_mem_duration (hc : Foreign c) (h : DurationText t) : c ∉ t :=
  fun hmem => h.not_mem hc.literal hc.durations (hc.mem_lower hmem)

private theorem not_mem_speed (hc : Foreign c) (hends : c ∉ "/s".toList) (h : SpeedText t) :
    c ∉ t := by
  obtain ⟨size, heq, hsize⟩ := h
  intro hmem
  have hlower := hc.mem_lower hmem
  rw [heq, List.mem_append] at hlower
  exact hlower.elim (hc.not_mem_size hsize) hends

end Foreign

theorem not_sizeText_durationText (t : List Char) : ¬ (SizeText t ∧ DurationText t) := by
  rintro ⟨hsize, hduration⟩
  obtain ⟨u, hu, hlast⟩ := hsize.getLast? (by decide)
  obtain ⟨w, hw, hlast'⟩ := hduration.getLast? (by simp [durationUnits])
  rw [hlast] at hlast'
  simp only [byteUnits, durationUnits, List.map_cons, List.map_nil, List.mem_cons,
    List.not_mem_nil, or_false] at hu hw
  rcases hu with rfl | rfl | rfl | rfl <;> rcases hw with rfl | rfl | rfl <;> simp at hlast'

theorem not_sizeText_speedText (t : List Char) : ¬ (SizeText t ∧ SpeedText t) := by
  rintro ⟨hsize, size, heq, _⟩
  refine hsize.not_mem foreign_slash.literal foreign_slash.sizes ?_
  simp [heq]

theorem not_durationText_speedText (t : List Char) : ¬ (DurationText t ∧ SpeedText t) := by
  rintro ⟨hduration, size, heq, _⟩
  refine hduration.not_mem foreign_slash.literal foreign_slash.durations ?_
  simp [heq]

def rangeBase (text : List Char) : List Char :=
  match splitOnce "..".toList (trim text) with
  | some (baseStr, _) => baseStr
  | none => trim text

section range

variable {α : Type} [Scalable α] {parse : List Char → Parse α} {text : List Char} {r : Range α}

theorem parseRangeStr_trim : parseRangeStr parse (trim text) = parseRangeStr parse text := by
  rw [parseRangeStr, parseRangeStr, trim_trim]

private theorem exists_parseRangeStr_eq_bind (parse : List Char → Parse α) (text : List Char) :
    ∃ f, parseRangeStr parse text = parse (rangeBase text) >>= f := by
  rw [parseRangeStr, rangeBase]
  dsimp only
  cases splitOnce "..".toList (trim text) with
  | none => exact ⟨_, rfl⟩
  | some parts =>
    obtain ⟨baseStr, rest⟩ := parts
    dsimp only
    cases stripSuffix "%".toList rest with
    | none => exact ⟨_, rfl⟩
    | some pctStr => exact ⟨_, rfl⟩

private theorem exists_base_ok (h : parseRangeStr parse text = .ok r) :
    ∃ v, parse (rangeBase text) = .ok v := by
  obtain ⟨f, hf⟩ := exists_parseRangeStr_eq_bind parse text
  obtain ⟨v, hv, _⟩ := parse_bind_ok.mp (hf.symm.trans h)
  exact ⟨v, hv⟩

private theorem range_error_of_base_error {e : Failure} (h : parse (rangeBase text) = .error e) :
    parseRangeStr parse text = .error e := by
  obtain ⟨f, hf⟩ := exists_parseRangeStr_eq_bind parse text
  rw [hf, h]
  rfl

private theorem Foreign.not_mem_range {c : Char} (hc : Foreign c)
    (hparse : ∀ {t v}, parse t = .ok v → c ∉ t) (h : parseRangeStr parse text = .ok r) :
    c ∉ text := by
  rw [← mem_trim hc.space]
  rw [parseRangeStr] at h
  dsimp only at h
  cases hsplit : splitOnce "..".toList (trim text) with
  | none =>
    rw [hsplit] at h
    obtain ⟨v, hv, _⟩ := parse_bind_ok.mp h
    exact hparse hv
  | some parts =>
    obtain ⟨baseStr, rest⟩ := parts
    rw [hsplit] at h
    have hdots : c ∉ "..".toList := fun hmem => hc.ne_dot (by simpa using hmem)
    have hrest : ∀ (v : α), parse baseStr = .ok v → c ∉ rest →
        c ∉ baseStr ++ "..".toList ++ rest := by
      intro v hv hnot
      rw [List.append_assoc, List.mem_append, List.mem_append]
      exact fun hmem => hmem.elim (hparse hv) fun hmem => hmem.elim hdots hnot
    rw [eq_of_splitOnce hsplit]
    dsimp only at h
    cases hsuffix : stripSuffix "%".toList rest with
    | none =>
      rw [hsuffix] at h
      obtain ⟨lo, hlo, h⟩ := parse_bind_ok.mp h
      obtain ⟨hi, hhi, _⟩ := parse_bind_ok.mp h
      exact hrest lo hlo (hparse hhi)
    | some pctStr =>
      rw [hsuffix] at h
      obtain ⟨base, hbase, h⟩ := parse_bind_ok.mp h
      obtain ⟨pct, hpct, _⟩ := parse_bind_ok.mp h
      refine hrest base hbase ?_
      rw [stripSuffix_eq_some.mp hsuffix, List.mem_append, not_or]
      exact ⟨F64.not_mem_of_parse (okOr_ok.mp hpct) hc.literal, by simpa using hc.percent⟩

private theorem not_panics_range (hparse : ∀ t, ¬ Panics (parse t))
    (hscale : ∀ (v : α) x, ¬ Panics (orPanic (Scalable.scale v x))) :
    ¬ Panics (parseRangeStr parse text) := by
  rw [parseRangeStr]
  dsimp only
  cases splitOnce "..".toList (trim text) with
  | none => exact not_panics_bind.mpr ⟨hparse _, fun v _ => not_panics_pure _⟩
  | some parts =>
    obtain ⟨baseStr, rest⟩ := parts
    dsimp only
    cases stripSuffix "%".toList rest with
    | none =>
      refine not_panics_bind.mpr ⟨hparse _, fun lo _ => not_panics_bind.mpr ⟨hparse _, ?_⟩⟩
      intro hi _
      split_ifs
      · exact not_panics_fail _
      · exact not_panics_pure _
      · exact not_panics_pure _
    | some pctStr =>
      refine not_panics_bind.mpr ⟨hparse _, fun base _ =>
        not_panics_bind.mpr ⟨not_panics_okOr _ _, ?_⟩⟩
      intro pct _
      split_ifs
      · exact not_panics_fail _
      · exact not_panics_pure _
      · exact not_panics_bind.mpr ⟨hscale _ _, fun lo _ =>
          not_panics_bind.mpr ⟨hscale _ _, fun hi _ => not_panics_pure _⟩⟩

end range

private theorem not_panics_parseByteSize (t : List Char) : ¬ Panics (parseByteSize t) := by
  rw [parseByteSize]
  dsimp only
  split_ifs
  · exact not_panics_fail _
  · refine not_panics_bind.mpr ⟨not_panics_okOr _ _, fun unit _ =>
      not_panics_bind.mpr ⟨not_panics_okOr _ _, fun num _ => ?_⟩⟩
    split_ifs
    · exact not_panics_fail _
    · exact not_panics_pure _

theorem not_panics_parseByteSizeRange (s : String) : ¬ Panics (parseByteSizeRange s) :=
  not_panics_range not_panics_parseByteSize fun _ _ => not_panics_ok _

section accepts

variable {s : String}

theorem sizeText_base {r : Range ByteSize} (h : parseByteSizeRange s = .ok r) :
    SizeText (rangeBase s.toList) := by
  obtain ⟨v, hv⟩ := exists_base_ok h
  exact sizeText_of_ok hv

theorem durationText_base {r : Range Duration} (h : parseDurationRange s = .ok r) :
    DurationText (rangeBase s.toList) := by
  obtain ⟨v, hv⟩ := exists_base_ok h
  exact durationText_of_ok hv

theorem speedText_base {r : Range Speed} (h : parseSpeedRange s = .ok r) :
    SpeedText (rangeBase s.toList) := by
  obtain ⟨v, hv⟩ := exists_base_ok h
  exact speedText_of_ok hv

theorem duration_error_of_size {r : Range ByteSize} (h : parseByteSizeRange s = .ok r) :
    ∃ e, parseDurationRange s = .error (.error e) := by
  have hnone : durationSecs (rangeBase s.toList) = none := by
    rw [Option.eq_none_iff_forall_ne_some]
    intro x hx
    exact not_sizeText_durationText _ ⟨sizeText_base h, durationText_of_secs hx⟩
  obtain ⟨e, he⟩ := parseDuration_of_secs_none hnone
  exact ⟨e, range_error_of_base_error he⟩

theorem at_not_mem_size {r : Range ByteSize} (h : parseByteSizeRange s = .ok r) :
    '@' ∉ s.toList :=
  foreign_at.not_mem_range (fun hv => foreign_at.not_mem_size (sizeText_of_ok hv)) h

theorem at_not_mem_speed {r : Range Speed} (h : parseSpeedRange s = .ok r) : '@' ∉ s.toList :=
  foreign_at.not_mem_range
    (fun hv => foreign_at.not_mem_speed (by decide) (speedText_of_ok hv)) h

theorem Foreign.not_mem_durationRange {c : Char} (hc : Foreign c) {r : Range Duration}
    (h : parseDurationRange s = .ok r) : c ∉ s.toList :=
  hc.not_mem_range (fun hv => hc.not_mem_duration (durationText_of_ok hv)) h

end accepts

end Mockinx
