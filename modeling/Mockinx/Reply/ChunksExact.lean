import Mockinx.Reply.Chunks

/-!
Which bytes a lazily generated body has. Literals and patterns give the whole body in pieces; the
chunks of a file follow the size in its metadata, whatever was read of it.
-/

set_option autoImplicit false
set_option relaxedAutoImplicit false

namespace Mockinx

open Lib

private theorem slice_eq_take_drop {data : List UInt8} {size offset c : ℕ}
    (hsize : size ≤ data.length) (hoffset : offset < size) :
    slice data offset (offset + min (size - offset) c) =
      some (((data.take size).drop offset).take c) := by
  have hstop : offset ≤ offset + min (size - offset) c ∧
      offset + min (size - offset) c ≤ data.length := by omega
  rw [slice, if_pos hstop, Nat.add_sub_cancel_left, List.drop_take, List.take_take, Nat.min_comm]

theorem take_drop_map_range {α : Type} (f : ℕ → α) (size offset c : ℕ) :
    (((List.range size).map f).drop offset).take c =
      (List.range (min (size - offset) c)).map fun i => f (offset + i) := by
  rw [← List.map_drop, ← List.map_take, List.range_eq_range', List.drop_range', Nat.zero_add,
    Nat.mul_one]
  have htake : (List.range' offset (size - offset)).take c =
      List.range' offset (min (size - offset) c) := by
    rcases le_total (size - offset) c with hle | hle
    · rw [List.take_range'_of_length_le hle, min_eq_left hle]
    · rw [List.take_range'_of_length_ge hle, min_eq_right hle]
  rw [htake, List.range'_eq_map_range, List.map_map]
  rfl

def BodySpec.isLoaded : BodySpec → Bool
  | .literal _ | .file _ => true
  | _ => false

namespace BodyChunks

variable {x : External} {b : BodyChunks} {data : List UInt8}

private theorem exists_drains (hoffset : b.offset = 0) (hc : 0 < b.chunkSize)
    (htotal : b.totalSize = data.length)
    (hchunk : ∀ offset < data.length, ({ b with offset } : BodyChunks).next x =
      .ok (some ((data.drop offset).take b.chunkSize),
        { b with offset := offset + min (data.length - offset) b.chunkSize })) :
    ∃ chunks, Drains (next x) b chunks none ∧ Pieces b.chunkSize data chunks := by
  have hdone : ∀ s : BodyChunks, (∃ offset, s = { b with offset }) → data.drop s.offset = [] →
      ∃ t, s.next x = .ok (none, t) := by
    rintro _ ⟨offset, rfl⟩ hleft
    have hend : b.totalSize ≤ offset := htotal ▸ List.drop_eq_nil_iff.mp hleft
    exact ⟨_, if_pos hend⟩
  have hnext : ∀ s : BodyChunks, (∃ offset, s = { b with offset }) → data.drop s.offset ≠ [] →
      ∃ t, s.next x = .ok (some ((data.drop s.offset).take b.chunkSize), t) ∧
        (∃ offset, t = { b with offset }) ∧
        data.drop t.offset = (data.drop s.offset).drop b.chunkSize := by
    rintro _ ⟨offset, rfl⟩ hleft
    have hmore : offset < data.length := not_le.mp fun hle => hleft (List.drop_eq_nil_iff.mpr hle)
    refine ⟨_, hchunk offset hmore, ⟨_, rfl⟩, ?_⟩
    rw [List.drop_drop]
    rcases le_total (data.length - offset) b.chunkSize with hle | hle
    · rw [List.drop_eq_nil_of_le (show data.length ≤ offset + b.chunkSize by omega)]
      exact List.drop_eq_nil_of_le (by dsimp only; omega)
    · change data.drop (offset + min (data.length - offset) b.chunkSize) = _
      rw [min_eq_right hle]
  have hstart : data.drop b.offset = data := by rw [hoffset, List.drop_zero]
  have h := exists_drains_pieces (fun s : BodyChunks => data.drop s.offset) hc hdone hnext
    ⟨b.offset, rfl⟩
  rwa [hstart] at h

private theorem next_loaded (hspec : b.spec.isLoaded = true) {bytes : List UInt8}
    (hliteral : b.literal = some bytes) :
    b.next x =
      if b.totalSize ≤ b.offset then .ok (none, b)
      else
        match slice bytes b.offset (b.offset + min (b.totalSize - b.offset) b.chunkSize) with
        | none => .error .outOfRange
        | some chunk =>
          .ok (some chunk,
            { b with offset := b.offset + min (b.totalSize - b.offset) b.chunkSize }) := by
  obtain ⟨spec, chunkSize, offset, totalSize, rng, pattern, literal⟩ := b
  obtain rfl : literal = some bytes := hliteral
  cases spec with
  | literal | file => rfl
  | none | rand | pattern | reflect => cases hspec

private theorem exists_drains_loaded (hspec : b.spec.isLoaded = true) {bytes : List UInt8}
    (hliteral : b.literal = some bytes) (hoffset : b.offset = 0) (hc : 0 < b.chunkSize)
    (htotal : b.totalSize ≤ bytes.length) :
    ∃ chunks, Drains (next x) b chunks none ∧
      Pieces b.chunkSize (bytes.take b.totalSize) chunks := by
  have hlen : (bytes.take b.totalSize).length = b.totalSize := List.length_take_of_le htotal
  refine exists_drains hoffset hc hlen.symm ?_
  intro offset hmore
  rw [hlen] at hmore ⊢
  refine (@next_loaded x { b with offset } hspec bytes hliteral).trans ?_
  dsimp only
  rw [if_neg (not_le.mpr hmore), slice_eq_take_drop htotal hmore]

private theorem exists_drains_outOfRange (hspec : b.spec.isLoaded = true) {bytes : List UInt8}
    (hliteral : b.literal = some bytes) (hc : 0 < b.chunkSize)
    (htotal : bytes.length < b.totalSize) (hoffset : b.offset ≤ bytes.length) :
    ∃ chunks, Drains (next x) b chunks (some .outOfRange) := by
  induction hn : bytes.length - b.offset using Nat.strong_induction_on generalizing b with
  | _ n ih =>
    have hnext := @next_loaded x b hspec bytes hliteral
    rw [if_neg (by omega), slice] at hnext
    split_ifs at hnext with hrange
    · dsimp only at hnext
      obtain ⟨chunks, hdrains⟩ := @ih
        (bytes.length - (b.offset + min (b.totalSize - b.offset) b.chunkSize)) (by omega)
        { b with offset := b.offset + min (b.totalSize - b.offset) b.chunkSize } hspec hliteral hc
        htotal hrange.2 rfl
      exact ⟨_, .yields hnext hdrains⟩
    · exact ⟨[], .fails hnext⟩

private theorem new_loaded {metadata : String → Option UInt64} {spec : BodySpec} {size : ℕ}
    {bytes : List UInt8} (hspec : spec.isLoaded = true) (hsize : bodySize metadata spec = .ok size)
    (hbytes : generateBody x spec = .ok bytes) (chunkSize : ℕ) :
    BodyChunks.new x metadata spec chunkSize =
      .ok { spec, chunkSize := max chunkSize 1, offset := 0, totalSize := size,
            rng := none, pattern := none, literal := some bytes } := by
  rw [BodyChunks.new, hsize]
  cases spec with
  | literal | file =>
    change (generateBody x _ >>= _) = _
    rw [hbytes]
    rfl
  | none | rand | pattern | reflect => cases hspec

def Yields (x : External) (metadata : String → Option UInt64) (spec : BodySpec) (chunkSize : ℕ)
    (body : List UInt8) (chunks : List (List UInt8)) : Prop :=
  ∃ b, BodyChunks.new x metadata spec chunkSize = .ok b ∧ Drains (next x) b chunks none ∧
    Pieces (max chunkSize 1) body chunks

private theorem exists_yields_none (x : External) (metadata : String → Option UInt64)
    (chunkSize : ℕ) :
    ∃ chunks, Yields x metadata .none chunkSize [] chunks :=
  ⟨[], _, rfl, .done rfl, .nil⟩

private theorem exists_yields_loaded {metadata : String → Option UInt64} {spec : BodySpec}
    {size : ℕ}
    {bytes : List UInt8} (hspec : spec.isLoaded = true) (hsize : bodySize metadata spec = .ok size)
    (hbytes : generateBody x spec = .ok bytes) (hle : size ≤ bytes.length) (chunkSize : ℕ) :
    ∃ chunks, Yields x metadata spec chunkSize (bytes.take size) chunks := by
  have hnew := new_loaded hspec hsize hbytes chunkSize
  obtain ⟨chunks, hdrains, hpieces⟩ := @exists_drains_loaded x
    { spec, chunkSize := max chunkSize 1, offset := 0, totalSize := size,
      rng := none, pattern := none, literal := some bytes } hspec bytes rfl rfl (by simp) hle
  exact ⟨chunks, _, hnew, hdrains, hpieces⟩

end BodyChunks

private theorem generatePattern_of_ne {repeated : String} (h : repeated ≠ "") (size : ℕ) :
    generatePattern repeated size =
      .ok ((List.range size).map fun i =>
        (utf8 repeated).getD (i % (utf8 repeated).length) 0) := by
  rw [generatePattern]
  split_ifs with hsize
  · rw [hsize, List.range_zero, List.map_nil]
  · exact if_neg (mt utf8_eq_nil.mp h)

namespace BodyChunks

private theorem exists_yields_pattern (x : External) (metadata : String → Option UInt64)
    {repeated : String} (h : repeated ≠ "") (size : ByteSize) (chunkSize : ℕ) :
    ∃ chunks, Yields x metadata (.pattern repeated size) chunkSize
      ((List.range size.bytes.toNat).map fun i =>
        (utf8 repeated).getD (i % (utf8 repeated).length) 0) chunks := by
  let b : BodyChunks :=
    { spec := .pattern repeated size, chunkSize := max chunkSize 1, offset := 0,
      totalSize := size.bytes.toNat, rng := none, pattern := some (utf8 repeated), literal := none }
  obtain ⟨chunks, hdrains, hpieces⟩ := @exists_drains x b
    ((List.range size.bytes.toNat).map fun i =>
      (utf8 repeated).getD (i % (utf8 repeated).length) 0) rfl (by simp [b]) (by simp [b]) (by
      intro offset hmore
      rw [List.length_map, List.length_range] at hmore ⊢
      rw [take_drop_map_range, next, if_neg (not_le.mpr hmore)]
      exact if_neg (mt utf8_eq_nil.mp h))
  exact ⟨chunks, b, rfl, hdrains, hpieces⟩

end BodyChunks

private theorem exists_generateBody_file (x : External) (path : String) :
    ∃ body, generateBody x (.file path) = .ok body := by
  rw [generateBody]
  cases x.readFile path <;> exact ⟨_, rfl⟩

/-- The bodies that need neither a generator nor a file, and that can be generated. -/
def BodySpec.IsPlain : BodySpec → Prop
  | .none | .literal _ => True
  | .pattern repeated _ => repeated ≠ ""
  | .rand _ _ | .reflect _ | .file _ => False

private theorem exists_yields_plain (x : External) (metadata : String → Option UInt64)
    {spec : BodySpec} (hspec : spec.IsPlain) (chunkSize : ℕ) :
    ∃ body chunks, generateBody x spec = .ok body ∧ bodySize metadata spec = .ok body.length ∧
      BodyChunks.Yields x metadata spec chunkSize body chunks := by
  cases spec with
  | none =>
    obtain ⟨chunks, h⟩ := BodyChunks.exists_yields_none x metadata chunkSize
    exact ⟨[], chunks, rfl, rfl, h⟩
  | literal v =>
    obtain ⟨body, hbody, hsize⟩ : ∃ body, generateBody x (.literal v) = .ok body ∧
        bodySize metadata (.literal v) = .ok body.length := by
      cases v <;> exact ⟨_, rfl, rfl⟩
    obtain ⟨chunks, h⟩ :=
      BodyChunks.exists_yields_loaded (show (BodySpec.literal v).isLoaded = true from rfl) hsize
        hbody le_rfl chunkSize
    rw [List.take_length] at h
    exact ⟨body, chunks, hbody, hsize, h⟩
  | pattern repeated size =>
    obtain ⟨chunks, h⟩ := BodyChunks.exists_yields_pattern x metadata hspec size chunkSize
    refine ⟨_, chunks, generatePattern_of_ne hspec _, ?_, h⟩
    rw [List.length_map, List.length_range]
    rfl
  | rand | reflect | file => cases hspec

/-- Chunked generation of a plain body is full generation: the chunks are the body, none is empty or
longer than the chunk size, all but the last have that length, and there are as many as it takes. -/
theorem chunks_equal_body (x : External) (metadata : String → Option UInt64) {spec : BodySpec}
    (hspec : spec.IsPlain) (chunkSize : ℕ) :
    let c := max chunkSize 1
    ∃ body b chunks, generateBody x spec = .ok body ∧ bodySize metadata spec = .ok body.length ∧
      BodyChunks.new x metadata spec chunkSize = .ok b ∧
      Drains (BodyChunks.next x) b chunks none ∧ chunks.flatten = body ∧
      (∀ chunk ∈ chunks, chunk ≠ [] ∧ chunk.length ≤ c) ∧
      (∀ before chunk after, chunks = before ++ chunk :: after → after ≠ [] → chunk.length = c) ∧
      chunks.length = (body.length + c - 1) / c := by
  intro c
  have hc : 0 < c := by simp [c]
  obtain ⟨body, chunks, hbody, hsize, b, hnew, hdrains, hpieces⟩ :=
    exists_yields_plain x metadata hspec chunkSize
  exact ⟨body, b, chunks, hbody, hsize, hnew, hdrains, hpieces.flatten_eq, hpieces.piece hc,
    fun _ _ _ => hpieces.length_eq, hpieces.count hc⟩

theorem chunks_equal_body_pattern :
    ∃ body b chunks, generateBody default (.pattern "äb" ⟨7⟩) = .ok body ∧
      BodyChunks.new default (fun _ => none) (.pattern "äb" ⟨7⟩) 3 = .ok b ∧
      Drains (BodyChunks.next default) b chunks none ∧ chunks.flatten = body ∧
      chunks.length = 3 := by
  obtain ⟨body, b, chunks, hbody, hsize, hnew, hdrains, hflatten, _, _, hcount⟩ :=
    @chunks_equal_body default (fun _ => none) (.pattern "äb" ⟨7⟩)
      (by simp [BodySpec.IsPlain]) 3
  refine ⟨body, b, chunks, hbody, hnew, hdrains, hflatten, ?_⟩
  rw [hcount, ← Except.ok.inj hsize]
  decide

/-- The chunks of a file are the body that was read, without a slice out of range, exactly when the
metadata gives the size of that body. A larger size ends in such a slice. -/
theorem file_chunks_iff (x : External) (metadata : String → Option UInt64) (path : String)
    (chunkSize : ℕ) :
    ∃ body b, generateBody x (.file path) = .ok body ∧
      BodyChunks.new x metadata (.file path) chunkSize = .ok b ∧
      ((∃ chunks, Drains (BodyChunks.next x) b chunks none ∧ chunks.flatten = body) ↔
        ((metadata path).getD 0).toNat = body.length) ∧
      (body.length < ((metadata path).getD 0).toNat →
        ∃ chunks, Drains (BodyChunks.next x) b chunks (some .outOfRange)) := by
  obtain ⟨body, hbody⟩ := exists_generateBody_file x path
  have hspec : (BodySpec.file path).isLoaded = true := rfl
  have hsize : bodySize metadata (.file path) = .ok ((metadata path).getD 0).toNat := rfl
  have hnew := BodyChunks.new_loaded hspec hsize hbody chunkSize
  have hfails : body.length < ((metadata path).getD 0).toNat →
      ∃ chunks, Drains (BodyChunks.next x)
        { spec := .file path, chunkSize := max chunkSize 1, offset := 0,
          totalSize := ((metadata path).getD 0).toNat, rng := none, pattern := none,
          literal := some body } chunks (some .outOfRange) :=
    fun hlarge => BodyChunks.exists_drains_outOfRange hspec rfl (by simp) hlarge (Nat.zero_le _)
  refine ⟨body, _, hbody, hnew, ⟨?_, ?_⟩, hfails⟩
  · rintro ⟨chunks, hdrains, hflatten⟩
    rcases le_or_gt ((metadata path).getD 0).toNat body.length with hle | hlarge
    · obtain ⟨chunks', b, hnew', hdrains', hpieces⟩ :=
        BodyChunks.exists_yields_loaded hspec hsize hbody hle chunkSize
      obtain rfl := Except.ok.inj (hnew.symm.trans hnew')
      obtain ⟨rfl, _⟩ := hdrains.unique hdrains'
      rw [hpieces.flatten_eq] at hflatten
      have hlen := congrArg List.length hflatten
      rw [List.length_take] at hlen
      omega
    · obtain ⟨chunks', hdrains'⟩ := hfails hlarge
      cases (hdrains.unique hdrains').2
  · intro heq
    obtain ⟨chunks, b, hnew', hdrains, hpieces⟩ :=
      BodyChunks.exists_yields_loaded hspec hsize hbody heq.le chunkSize
    obtain rfl := Except.ok.inj (hnew.symm.trans hnew')
    rw [heq, List.take_length] at hpieces
    exact ⟨chunks, hdrains, hpieces.flatten_eq⟩

/-- A directory has a size but cannot be read: the first slice is beyond the text of the error. -/
theorem directory_out_of_range :
    let x : External :=
      { (default : External) with readFile := fun _ => .error "Is a directory (os error 21)" }
    let body := utf8 "error reading data: Is a directory (os error 21)"
    ∃ b, generateBody x (.file "data") = .ok body ∧
      BodyChunks.new x (fun _ => some 4096) (.file "data") 8192 = .ok b ∧
      (∃ chunks, Drains (BodyChunks.next x) b chunks (some .outOfRange)) ∧
      ¬ ∃ chunks, Drains (BodyChunks.next x) b chunks none ∧ chunks.flatten = body := by
  intro x body
  have hbody : generateBody x (.file "data") = .ok body := rfl
  have hnew := @BodyChunks.new_loaded x (fun _ => some 4096) (.file "data") 4096 _ rfl rfl hbody
    8192
  have hlen : body.length < 4096 := by decide +kernel
  obtain ⟨chunks, hfails⟩ := @BodyChunks.exists_drains_outOfRange x
    { spec := .file "data", chunkSize := max 8192 1, offset := 0, totalSize := 4096,
      rng := none, pattern := none, literal := some body } rfl body rfl (by simp) hlen
    (Nat.zero_le _)
  refine ⟨_, hbody, hnew, ⟨chunks, hfails⟩, ?_⟩
  rintro ⟨chunks', hdrains, _⟩
  cases (hdrains.unique hfails).2

end Mockinx
