import Mockinx.Serve.Pace
import Mockinx.Units.Grammars

/-!
Which grammar the texts of `pace`, `drop` and `hang` are read by. The pace dispatcher looks for
sigils in the raw text, drop and hang try the sizes before the durations; the sigil of speeds is
looked for in lower case only, while the grammar of speeds accepts both cases.
-/

set_option autoImplicit false
set_option relaxedAutoImplicit false

namespace Mockinx

open Lib Lib.Text

inductive Cut where
  | bytes (n : Range ByteSize)
  | time (d : Range Duration)
  | rejected
  | panicked (p : Panic)
  | absent
  deriving DecidableEq

namespace Cut

def ofParse {α : Type} (view : α → Cut) : Parse α → Cut
  | .ok a => view a
  | .error (.error _) => .rejected
  | .error (.panic p) => .panicked p

def ofDrop : Option DropSpec → Cut
  | none => .absent
  | some (.afterBytes n) => .bytes n
  | some (.afterTime d) => .time d

def ofHang : Option HangSpec → Cut
  | none => .absent
  | some (.afterBytes n) => .bytes n
  | some (.afterTime d) => .time d

def orElse : Cut → Cut → Cut
  | .rejected, second => second
  | first, _ => first

def size (s : String) : Cut := ofParse .bytes (parseByteSizeRange s)

def duration (s : String) : Cut := ofParse .time (parseDurationRange s)

def sizeFirst (s : String) : Cut := (size s).orElse (duration s)

def durationFirst (s : String) : Cut := (duration s).orElse (size s)

private theorem sizeFirst_eq_durationFirst (s : String) : sizeFirst s = durationFirst s := by
  rw [sizeFirst, durationFirst, size, duration]
  cases hsize : parseByteSizeRange s with
  | ok n =>
    obtain ⟨e, he⟩ := duration_error_of_size hsize
    rw [he]
    rfl
  | error e =>
    cases e with
    | panic p => exact absurd ⟨p, hsize⟩ (not_panics_parseByteSizeRange s)
    | error e =>
      change duration s = (duration s).orElse .rejected
      cases duration s <;> rfl

private theorem ofDrop_parseDropValue (s : String) :
    ofParse ofDrop (parseDropValue s) = sizeFirst s := by
  rw [parseDropValue, sizeFirst, size, duration]
  rcases parseByteSizeRange s with (e | p) | n
  · rcases parseDurationRange s with (e' | p) | d <;> rfl
  · rfl
  · rfl

end Cut

def DropText (obj : Map) (s : String) : Prop :=
  obj.get? "drop" = some (.string s) ∨
    ∃ dropObj, obj.get? "drop" = some (.object dropObj) ∧
      dropObj.get? "after" = some (.string s)

private theorem ofDrop_parseDrop {obj : Map} {s : String} (h : DropText obj s) :
    Cut.ofParse Cut.ofDrop (parseDrop obj) = Cut.sizeFirst s := by
  rw [← Cut.ofDrop_parseDropValue, parseDrop]
  rcases h with htext | ⟨dropObj, hobj, hafter⟩
  · rw [htext]
  · rw [hobj]
    dsimp only
    rw [hafter]
    rfl

private theorem ofHang_parseHang {obj : Map} {s : String} (h : obj.get? "hang" = some (.string s)) :
    Cut.ofParse Cut.ofHang (parseHang obj) = Cut.sizeFirst s := by
  rw [parseHang, h, Cut.sizeFirst, Cut.size, Cut.duration]
  change Cut.ofParse Cut.ofHang (attempt (parseByteSizeRange s) >>= _) = _
  rcases parseByteSizeRange s with (e | p) | n
  · change Cut.ofParse Cut.ofHang (attempt (parseDurationRange s) >>= _) = _
    rcases parseDurationRange s with (e' | p) | d <;> rfl
  · rfl
  · rfl

/-- A text is read by the grammar that accepts it, and no other grammar accepts it. -/
structure DispatchesUniquely (s : String) : Prop where
  not_size_duration :
    ¬ ((∃ n, parseByteSizeRange s = .ok n) ∧ ∃ d, parseDurationRange s = .ok d)
  not_size_speed : ¬ ((∃ n, parseByteSizeRange s = .ok n) ∧ ∃ r, parseSpeedRange s = .ok r)
  not_duration_speed : ¬ ((∃ d, parseDurationRange s = .ok d) ∧ ∃ r, parseSpeedRange s = .ok r)
  speed : ∀ r, parseSpeedRange s = .ok r → parsePaceStr s = .ok (.speed r)
  duration : ∀ d, parseDurationRange s = .ok d → parsePaceStr s = .ok (.duration d)
  chunk : ∀ size interval n d, s = size ++ "@" ++ interval → parseByteSizeRange size = .ok n →
    parseDurationRange interval = .ok d → parsePaceStr s = .ok (.chunk n d)
  drop : ∀ obj, DropText obj s → Cut.ofParse Cut.ofDrop (parseDrop obj) = Cut.sizeFirst s
  hang : ∀ obj : Map, obj.get? "hang" = some (.string s) →
    Cut.ofParse Cut.ofHang (parseHang obj) = Cut.sizeFirst s
  order : Cut.sizeFirst s = Cut.durationFirst s

section pace

variable {s : String}

private theorem not_size_duration :
    ¬ ((∃ n, parseByteSizeRange s = .ok n) ∧ ∃ d, parseDurationRange s = .ok d) := by
  rintro ⟨⟨n, hn⟩, d, hd⟩
  exact not_sizeText_durationText _ ⟨sizeText_base hn, durationText_base hd⟩

private theorem not_size_speed :
    ¬ ((∃ n, parseByteSizeRange s = .ok n) ∧ ∃ r, parseSpeedRange s = .ok r) := by
  rintro ⟨⟨n, hn⟩, r, hr⟩
  exact not_sizeText_speedText _ ⟨sizeText_base hn, speedText_base hr⟩

private theorem not_duration_speed :
    ¬ ((∃ d, parseDurationRange s = .ok d) ∧ ∃ r, parseSpeedRange s = .ok r) := by
  rintro ⟨⟨d, hd⟩, r, hr⟩
  exact not_durationText_speedText _ ⟨durationText_base hd, speedText_base hr⟩

private theorem parsePaceStr_of_no_at (hat : '@' ∉ s.toList) :
    parsePaceStr s =
      if "/s".toList <:+: s.toList then do return .speed (← parseSpeedRange s)
      else do return .duration (← parseDurationRange s) := by
  have hsplit : splitOnce "@".toList (trim s.toList) = none :=
    splitOnce_eq_none_of_not_mem (mt (mem_trim foreign_at.space).mp hat)
  have hsigil : (splitOnce "/s".toList (trim s.toList)).isSome ↔ "/s".toList <:+: s.toList :=
    isSome_splitOnce_iff.trans (pair_isInfix_trim (by decide) (by decide))
  rw [parsePaceStr, hsplit]
  simp only [hsigil, parseSpeedRange, parseDurationRange, String.toList_ofList,
    parseRangeStr_trim]

private theorem parsePaceStr_of_duration {d : Range Duration} (h : parseDurationRange s = .ok d) :
    parsePaceStr s = .ok (.duration d) := by
  have hslash : ¬ "/s".toList <:+: s.toList := fun hsigil =>
    foreign_slash.not_mem_durationRange h (hsigil.subset (by simp))
  rw [parsePaceStr_of_no_at (foreign_at.not_mem_durationRange h), if_neg hslash, h]
  rfl

private theorem parsePaceStr_of_speed_iff {r : Range Speed} (h : parseSpeedRange s = .ok r) :
    parsePaceStr s = .ok (.speed r) ↔ "/s".toList <:+: s.toList := by
  rw [parsePaceStr_of_no_at (at_not_mem_speed h), h]
  split_ifs with hsigil
  · exact iff_of_true rfl hsigil
  · refine iff_of_false (fun hread => ?_) hsigil
    obtain ⟨d, hd, _⟩ := parse_bind_ok.mp hread
    exact not_duration_speed ⟨⟨d, hd⟩, r, h⟩

private theorem parsePaceStr_of_chunk {size interval : String} {n : Range ByteSize}
    {d : Range Duration}
    (hn : parseByteSizeRange size = .ok n) (hd : parseDurationRange interval = .ok d) :
    parsePaceStr (size ++ "@" ++ interval) = .ok (.chunk n d) := by
  have hat : '@' ∉ size.toList.dropWhile isWhitespace := fun hmem =>
    at_not_mem_size hn ((List.dropWhile_sublist _).subset hmem)
  have hshape : (size ++ "@" ++ interval).toList = size.toList ++ '@' :: interval.toList := by
    simp
  have hn' : parseByteSizeRange (String.ofList (size.toList.dropWhile isWhitespace)) = .ok n := by
    rw [parseByteSizeRange, String.toList_ofList, ← parseRangeStr_trim, trim_dropWhile,
      parseRangeStr_trim]
    exact hn
  have hd' : parseDurationRange (String.ofList (interval.toList.rdropWhile isWhitespace)) =
      .ok d := by
    rw [parseDurationRange, String.toList_ofList, ← parseRangeStr_trim, trim_rdropWhile,
      parseRangeStr_trim]
    exact hd
  rw [parsePaceStr, hshape, trim_append_cons foreign_at.space,
    show "@".toList = ['@'] from rfl, splitOnce_char _ hat]
  dsimp only
  rw [hn', hd']
  rfl

end pace

/-- Every text is read by the one grammar that accepts it, unless it is a speed without the sigil of
speeds in lower case. -/
theorem dispatches_uniquely_iff (s : String) :
    DispatchesUniquely s ↔
      ((∃ r, parseSpeedRange s = .ok r) → "/s".toList <:+: s.toList) := by
  constructor
  · rintro h ⟨r, hr⟩
    exact (parsePaceStr_of_speed_iff hr).mp (h.speed r hr)
  · intro hsigil
    exact {
      not_size_duration := not_size_duration
      not_size_speed := not_size_speed
      not_duration_speed := not_duration_speed
      speed := fun r hr => (parsePaceStr_of_speed_iff hr).mpr (hsigil ⟨r, hr⟩)
      duration := fun d hd => parsePaceStr_of_duration hd
      chunk := by
        rintro size interval n d rfl hn hd
        exact parsePaceStr_of_chunk hn hd
      drop := fun obj hobj => ofDrop_parseDrop hobj
      hang := fun obj hobj => ofHang_parseHang hobj
      order := Cut.sizeFirst_eq_durationFirst s }

/-- An upper case speed is accepted by its grammar and read as a duration. -/
theorem upper_case_speed_rejected : ¬ ∀ s : String, DispatchesUniquely s := by
  intro h
  have hread := (h "10KB/S").speed (.fixed ⟨10240⟩) (by decide +kernel)
  have hrejected : parsePaceStr "10KB/S" ≠ .ok (.speed (.fixed ⟨10240⟩)) := by decide +kernel
  exact hrejected hread

end Mockinx
