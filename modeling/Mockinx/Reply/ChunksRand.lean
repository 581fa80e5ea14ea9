import Mockinx.Reply.ChunksExact

/-!
Lazy generation of pseudo-random bodies. The generator hands out whole words, so a chunk that ends
within a word loses the rest of it.
-/

set_option autoImplicit false
set_option relaxedAutoImplicit false

namespace Mockinx

open Lib

def streamByte (x : External) (seed : UInt64) (i : ℕ) : UInt8 :=
  (x.stdRng seed (i / 4) >>> UInt32.ofNat (8 * (i % 4))).toUInt8

private theorem generateRand_eq_map (x : External) (size : ℕ) (seed : UInt64) :
    generateRand x size seed = (List.range size).map (streamByte x seed) := rfl

private theorem StdRng.fill_eq (x : External) (rng : StdRng) (len : ℕ) :
    rng.fill x len = ((List.range len).map fun i => streamByte x rng.seed (4 * rng.words + i),
      { rng with words := rng.words + (len + 3) / 4 }) := by
  rw [StdRng.fill, Prod.mk.injEq]
  refine ⟨List.map_congr_left fun i _ => ?_, rfl⟩
  rw [streamByte, show (4 * rng.words + i) / 4 = rng.words + i / 4 by omega,
    show (4 * rng.words + i) % 4 = i % 4 by omega]

namespace BodyChunks

def randAt (size : ByteSize) (seed : UInt64) (c offset words : ℕ) : BodyChunks :=
  { spec := .rand size seed, chunkSize := c, offset, totalSize := size.bytes.toNat,
    rng := some { seed, words }, pattern := none, literal := none }

variable {x : External} {size : ByteSize} {seed : UInt64} {c offset words : ℕ}

private theorem next_randAt (hmore : offset < size.bytes.toNat) :
    (randAt size seed c offset words).next x =
      .ok (some ((List.range (min (size.bytes.toNat - offset) c)).map fun i =>
          streamByte x seed (4 * words + i)),
        randAt size seed c (offset + min (size.bytes.toNat - offset) c)
          (words + (min (size.bytes.toNat - offset) c + 3) / 4)) := by
  have hstep : (randAt size seed c offset words).next x =
      if size.bytes.toNat ≤ offset then .ok (none, randAt size seed c offset words)
      else .ok (some (StdRng.fill x { seed, words } (min (size.bytes.toNat - offset) c)).1,
        { randAt size seed c (offset + min (size.bytes.toNat - offset) c) words with
          rng := some (StdRng.fill x { seed, words } (min (size.bytes.toNat - offset) c)).2 }) :=
    rfl
  rw [hstep, if_neg (not_le.mpr hmore), StdRng.fill_eq]
  rfl

private theorem exists_drains_randAt (hc : 0 < c) (haligned : 4 ∣ c ∨ size.bytes.toNat ≤ c) :
    ∃ chunks, Drains (next x) (randAt size seed c 0 0) chunks none ∧
      Pieces c (generateRand x size.bytes.toNat seed) chunks := by
  let data := generateRand x size.bytes.toNat seed
  have hlen : data.length = size.bytes.toNat := by simp [data, generateRand]
  -- as long as anything is left, the words used end at the offset
  let I : BodyChunks → Prop := fun b => ∃ offset words, b = randAt size seed c offset words ∧
    (offset = 4 * words ∨ size.bytes.toNat ≤ offset)
  have hdone : ∀ b, I b → data.drop b.offset = [] → ∃ t, b.next x = .ok (none, t) := by
    rintro _ ⟨offset, words, rfl, _⟩ hleft
    have hend : size.bytes.toNat ≤ offset := hlen ▸ List.drop_eq_nil_iff.mp hleft
    exact ⟨_, if_pos hend⟩
  have hnext : ∀ b, I b → data.drop b.offset ≠ [] →
      ∃ t, b.next x = .ok (some ((data.drop b.offset).take c), t) ∧ I t ∧
        data.drop t.offset = (data.drop b.offset).drop c := by
    rintro _ ⟨offset, words, rfl, hwords⟩ hleft
    have hmore : offset < size.bytes.toNat :=
      hlen ▸ not_le.mp fun hle => hleft (List.drop_eq_nil_iff.mpr hle)
    obtain rfl : offset = 4 * words := hwords.resolve_right (not_le.mpr hmore)
    have hchunk := @next_randAt x size seed c (4 * words) words hmore
    rw [← take_drop_map_range (streamByte x seed), ← generateRand_eq_map] at hchunk
    refine ⟨_, hchunk, ⟨_, _, rfl, ?_⟩, ?_⟩
    · rcases le_or_gt (size.bytes.toNat - 4 * words) c with hlast | hfull
      · right
        omega
      · left
        rw [min_eq_right hfull.le]
        omega
    · change data.drop (4 * words + min (size.bytes.toNat - 4 * words) c) =
        (data.drop (4 * words)).drop c
      rw [List.drop_drop]
      rcases le_total (size.bytes.toNat - 4 * words) c with hle | hle
      · rw [List.drop_eq_nil_of_le (by omega), List.drop_eq_nil_of_le (by omega)]
      · rw [min_eq_right hle]
  exact exists_drains_pieces (fun b : BodyChunks => data.drop b.offset) hc hdone hnext
    ⟨0, 0, rfl, Or.inl rfl⟩

private theorem getElem?_flatten_randAt {chunks : List (List UInt8)} {failure : Option Panic}
    (hc : 0 < c) (hmore : c < size.bytes.toNat)
    (hdrains : Drains (next x) (randAt size seed c 0 0) chunks failure) :
    chunks.flatten[c]? = some (streamByte x seed (4 * ((c + 3) / 4))) := by
  obtain ⟨rest, rfl, hrest⟩ := (drains_iff_of_item (next_randAt (by omega))).mp hdrains
  rw [Nat.sub_zero, min_eq_right hmore.le, Nat.zero_add, Nat.zero_add] at hrest
  obtain ⟨rest', rfl, _⟩ := (drains_iff_of_item (next_randAt hmore)).mp hrest
  rw [List.flatten_cons, List.flatten_cons, Nat.sub_zero, min_eq_right hmore.le,
    List.getElem?_append_right (by simp), List.getElem?_append_left (by simp; omega)]
  simp [show 0 < size.bytes.toNat - c by omega, hc]

end BodyChunks

/-- A seed denotes the same bytes in chunks as in full, whatever its words are, exactly when chunks
end with words or there is only one chunk. -/
theorem rand_chunks_iff (size : ByteSize) (seed : UInt64) (chunkSize : ℕ) :
    (∀ (x : External) (metadata : String → Option UInt64), ∃ b chunks,
        BodyChunks.new x metadata (.rand size seed) chunkSize = .ok b ∧
          Drains (BodyChunks.next x) b chunks none ∧
          generateBody x (.rand size seed) = .ok chunks.flatten) ↔
      4 ∣ max chunkSize 1 ∨ size.bytes.toNat ≤ max chunkSize 1 := by
  have hc : 0 < max chunkSize 1 := by simp
  constructor
  · intro h
    by_contra hnot
    obtain ⟨hdvd, hlarge⟩ := not_or.mp hnot
    -- only the bytes of the second chunk's first word are not zero
    let x : External :=
      { (default : External) with
        stdRng := fun _ word => if word = (max chunkSize 1 + 3) / 4 then 1 else 0 }
    obtain ⟨b, chunks, hnew, hdrains, hbody⟩ := h x fun _ => none
    obtain rfl : BodyChunks.randAt size seed (max chunkSize 1) 0 0 = b := Except.ok.inj hnew
    have hchunked := BodyChunks.getElem?_flatten_randAt hc (not_le.mp hlarge) hdrains
    have hfull : (generateRand x size.bytes.toNat seed)[max chunkSize 1]? =
        some (streamByte x seed (max chunkSize 1)) := by
      rw [generateRand_eq_map, List.getElem?_map, List.getElem?_range (not_le.mp hlarge)]
      rfl
    rw [Except.ok.inj hbody, hchunked, Option.some.injEq] at hfull
    have hword : max chunkSize 1 / 4 ≠ (max chunkSize 1 + 3) / 4 := by omega
    have hzero : streamByte x seed (max chunkSize 1) = 0 := by
      simp [streamByte, x, hword]
    have hone : streamByte x seed (4 * ((max chunkSize 1 + 3) / 4)) = 1 := by
      simp [streamByte, x]
    rw [hzero, hone] at hfull
    cases hfull
  · intro haligned x metadata
    obtain ⟨chunks, hdrains, hpieces⟩ := @BodyChunks.exists_drains_randAt x size seed _ hc haligned
    exact ⟨_, chunks, rfl, hdrains, congrArg Except.ok hpieces.flatten_eq.symm⟩

/-- Two bytes of the seed 7, whose words start with these two: one at a time the second byte comes
from the second word. -/
theorem rand_chunks_differ :
    let x : External :=
      { (default : External) with
        stdRng := fun _ word => if word = 0 then 0x6AA8FBBE else 0x07C2E0E9 }
    ∃ b, generateBody x (.rand ⟨2⟩ 7) = .ok [0xBE, 0xFB] ∧
      BodyChunks.new x (fun _ => none) (.rand ⟨2⟩ 7) 1 = .ok b ∧
      Drains (BodyChunks.next x) b [[0xBE], [0xE9]] none :=
  ⟨_, rfl, rfl, .yields rfl (.yields rfl (.done rfl))⟩

end Mockinx
