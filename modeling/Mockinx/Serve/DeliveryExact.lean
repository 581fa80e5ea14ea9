import Mockinx.Serve.PollPath
import Mockinx.Serve.Samples

/-!
What a delivery stream yields over any sequence of polls: non-empty chunks within the chunk size
that make up an initial part of the body, and the whole of what the byte drop leaves when nothing
else stops the stream.
-/

set_option autoImplicit false
set_option relaxedAutoImplicit false

namespace Mockinx

open Lib Lib.Run

namespace DeliveryStream

/-- One poll as a step of a run; a panic ends the run. -/
def pollStep (s : DeliveryStream) (env : PollEnv) :
    Option (DeliveryStream × Poll (Option (List UInt8))) :=
  (s.pollNext env).toOption

structure SameShape (s t : DeliveryStream) : Prop where
  body : t.body = s.body
  chunkSize : t.chunkSize = s.chunkSize
  dropAfterBytes : t.dropAfterBytes = s.dropAfterBytes
  dropDeadline : t.dropDeadline = s.dropDeadline
  hangAfterBytes : t.hangAfterBytes = s.hangAfterBytes
  hangDeadline : t.hangDeadline = s.hangDeadline

theorem SameShape.refl (s : DeliveryStream) : SameShape s s := ⟨rfl, rfl, rfl, rfl, rfl, rfl⟩

theorem SameShape.trans {s t u : DeliveryStream} (h : SameShape s t) (h' : SameShape t u) :
    SameShape s u :=
  ⟨h'.body.trans h.body, h'.chunkSize.trans h.chunkSize,
    h'.dropAfterBytes.trans h.dropAfterBytes, h'.dropDeadline.trans h.dropDeadline,
    h'.hangAfterBytes.trans h.hangAfterBytes, h'.hangDeadline.trans h.hangDeadline⟩

theorem SameShape.effectiveLen {s t : DeliveryStream} (h : SameShape s t) :
    t.effectiveLen = s.effectiveLen := by
  simp only [DeliveryStream.effectiveLen]
  rw [h.body, h.dropAfterBytes]

/-- Whether the timers that a poll may be waiting for have fired. -/
def awake (env : PollEnv) : Bool := env.firstReady && env.chunkReady

inductive PollCase (s : DeliveryStream) (env : PollEnv) :
    DeliveryStream × Poll (Option (List UInt8)) → Prop
  | waits {t : DeliveryStream} (wake : Option Instant) (shape : SameShape s t)
      (offset : t.offset = s.offset)
      (why : awake env = false ∨ s.hangAfterBytes ≠ none ∨ s.hangDeadline ≠ none) :
      PollCase s env (t, .pending wake)
  | ends {t : DeliveryStream} (shape : SameShape s t) (offset : t.offset = s.offset)
      (why : s.effectiveLen ≤ s.offset ∨ s.dropDeadline ≠ none) : PollCase s env (t, .ready none)
  | sends {t : DeliveryStream} (len : ℕ) (shape : SameShape s t)
      (more : s.offset < s.effectiveLen) (size : len = min (s.effectiveLen - s.offset) s.chunkSize)
      (offset : t.offset = s.offset + len) :
      PollCase s env (t, .ready (some ((s.body.drop s.offset).take len)))

theorem PollCase.shape {s t : DeliveryStream} {env : PollEnv} {p : Poll (Option (List UInt8))}
    (h : PollCase s env (t, p)) : SameShape s t := by
  cases h <;> assumption

theorem reached_ne_none {deadline : Option Instant} {now : Instant}
    (h : reached deadline now = true) : deadline ≠ none := by
  rintro rfl
  simp [reached] at h

private theorem awake_of_firstWait {s : DeliveryStream} {env : PollEnv} {wake : Instant}
    (h : s.firstWait env = some wake) : awake env = false := by
  rw [firstWait] at h
  split_ifs at h with hready
  rw [awake, Bool.eq_false_of_not_eq_true hready, Bool.false_and]

private theorem awake_of_chunkWait {s : DeliveryStream} {env : PollEnv} {wake : Instant}
    (h : s.chunkWait env = some wake) : awake env = false := by
  rw [chunkWait] at h
  split_ifs at h with hready
  rw [awake, Bool.eq_false_of_not_eq_true hready, Bool.and_false]

private theorem PollPath.pollCase {s : DeliveryStream} {env : PollEnv}
    {r : DeliveryStream × Poll (Option (List UInt8))} (h : PollPath s env r) :
    PollCase s env r := by
  cases h with
  | dropped hdrop => exact .ends (.refl s) rfl (Or.inr (reached_ne_none hdrop))
  | awaitsFirst hopen hwait =>
    exact .waits _ ⟨rfl, rfl, rfl, rfl, rfl, rfl⟩ rfl (Or.inl (awake_of_firstWait hwait))
  | awaitsChunk hopen hfirst hwait =>
    exact .waits _ ⟨rfl, rfl, rfl, rfl, rfl, rfl⟩ rfl (Or.inl (awake_of_chunkWait hwait))
  | hangs hpass hhang =>
    refine .waits none ⟨rfl, rfl, rfl, rfl, rfl, rfl⟩ rfl (Or.inr ?_)
    rcases Bool.or_eq_true_iff.mp hhang with htime | hbytes
    · exact Or.inr (reached_ne_none htime)
    · left
      intro hnone
      simp [hnone] at hbytes
  | finishes hpass hhang hend => exact .ends ⟨rfl, rfl, rfl, rfl, rfl, rfl⟩ rfl (Or.inl hend)
  | droppedLate hpass hhang hmore hdrop =>
    exact .ends ⟨rfl, rfl, rfl, rfl, rfl, rfl⟩ rfl (Or.inr (reached_ne_none hdrop))
  | sends hpass hhang hmore hdrop =>
    exact .sends s.nextLen ⟨rfl, rfl, rfl, rfl, rfl, rfl⟩ hmore rfl rfl

/-- The chunks among the results of polls. -/
def chunks (outs : List (Poll (Option (List UInt8)))) : List (List UInt8) :=
  outs.filterMap fun p =>
    match p with
    | .ready (some chunk) => some chunk
    | _ => none

theorem chunks_append (outs outs' : List (Poll (Option (List UInt8)))) :
    chunks (outs ++ outs') = chunks outs ++ chunks outs' :=
  List.filterMap_append

/-- What has been sent so far from a stream: the chunks make up the body up to the offset, each but
the last as long as the chunk size. -/
structure Sent (s₀ s : DeliveryStream) (outs : List (Poll (Option (List UInt8)))) : Prop where
  shape : SameShape s₀ s
  offset_le : s.offset ≤ s₀.effectiveLen
  bytes : (chunks outs).flatten = s₀.body.take s.offset
  sizes : ∀ c ∈ chunks outs, c ≠ [] ∧ c.length ≤ s₀.chunkSize
  count : (chunks outs).length = numChunks s.offset s₀.chunkSize
  aligned : s.offset < s₀.effectiveLen → s₀.chunkSize ∣ s.offset

private theorem Sent.of_offset_eq {s₀ s t : DeliveryStream}
    {outs : List (Poll (Option (List UInt8)))}
    {p : Poll (Option (List UInt8))} (h : Sent s₀ s outs) (shape : SameShape s t)
    (offset : t.offset = s.offset) (hp : chunks [p] = []) : Sent s₀ t (outs ++ [p]) := by
  have hchunks : chunks (outs ++ [p]) = chunks outs := by rw [chunks_append, hp, List.append_nil]
  obtain ⟨hshape, hle, hbytes, hsizes, hcount, haligned⟩ := h
  rw [← offset] at hle hbytes hcount haligned
  exact ⟨hshape.trans shape, hle, hchunks ▸ hbytes, hchunks ▸ hsizes, hchunks ▸ hcount, haligned⟩

private theorem numChunks_aligned {size k len : ℕ} (hs : 0 < size) (hl : 0 < len)
    (hle : len ≤ size) :
    numChunks (size * k + len) size = k + 1 := by
  rw [numChunks]
  rw [show size * k + len + size - 1 = (len - 1 + size) + size * k by omega,
    Nat.add_mul_div_left _ _ hs, Nat.add_div_right _ hs, Nat.div_eq_of_lt (by omega)]
  omega

theorem numChunks_mul {size k : ℕ} (hs : 0 < size) : numChunks (size * k) size = k := by
  rw [numChunks]
  rw [show size * k + size - 1 = size - 1 + size * k by omega, Nat.add_mul_div_left _ _ hs,
    Nat.div_eq_of_lt (by omega), Nat.zero_add]

theorem Sent.poll {s₀ s t : DeliveryStream} {outs : List (Poll (Option (List UInt8)))}
    {p : Poll (Option (List UInt8))} (hsize : 0 < s₀.chunkSize) (h : Sent s₀ s outs)
    {env : PollEnv} (hcase : PollCase s env (t, p)) : Sent s₀ t (outs ++ [p]) := by
  cases hcase with
  | waits wake shape offset why => exact h.of_offset_eq shape offset rfl
  | ends shape offset why => exact h.of_offset_eq shape offset rfl
  | sends len shape more size offset =>
    rw [h.shape.effectiveLen] at more size
    rw [h.shape.chunkSize] at size
    have hbody := s₀.effectiveLen_le
    obtain ⟨k, hk⟩ := h.aligned more
    have hlen : ((s.body.drop s.offset).take len).length = len := by
      rw [List.length_take, List.length_drop, h.shape.body]
      omega
    have hchunks : chunks (outs ++ [.ready (some ((s.body.drop s.offset).take len))]) =
        chunks outs ++ [(s.body.drop s.offset).take len] := chunks_append _ _
    constructor
    · exact h.shape.trans shape
    · omega
    · rw [hchunks, List.flatten_append, h.bytes, offset, List.take_add, h.shape.body]
      simp
    · intro c hc
      rw [hchunks, List.mem_append, List.mem_singleton] at hc
      rcases hc with hc | rfl
      · exact h.sizes c hc
      · exact ⟨List.ne_nil_of_length_pos (by omega), by omega⟩
    · rw [hchunks, List.length_append, h.count, offset, hk, numChunks_aligned hsize (by omega)
        (by omega), numChunks_mul hsize, List.length_singleton]
    · intro hmore
      have hfull : len = s₀.chunkSize := by omega
      rw [offset, hk, hfull]
      exact ⟨k + 1, by ring⟩

theorem pollStep_path {s t : DeliveryStream} {env : PollEnv} {p : Poll (Option (List UInt8))}
    (h : s.pollStep env = some (t, p)) : PollPath s env (t, p) := by
  obtain ⟨r, hr, hpath⟩ := s.pollNext_path env
  rw [pollStep, hr] at h
  obtain rfl := Option.some.inj h
  exact hpath

theorem pollStep_case {s t : DeliveryStream} {env : PollEnv} {p : Poll (Option (List UInt8))}
    (h : s.pollStep env = some (t, p)) : PollCase s env (t, p) :=
  (pollStep_path h).pollCase

private theorem exists_pollStep (s : DeliveryStream) (env : PollEnv) :
    ∃ t p, s.pollStep env = some (t, p) := by
  obtain ⟨r, hr, _⟩ := s.pollNext_path env
  exact ⟨r.1, r.2, by rw [pollStep, hr]; rfl⟩

theorem exists_run_polls (s : DeliveryStream) (polls : List PollEnv) :
    ∃ t outs, run pollStep s polls = some (t, outs) := by
  refine exists_run (I := fun _ => True) ?_ polls trivial
  intro s env _
  obtain ⟨t, p, hstep⟩ := s.exists_pollStep env
  exact ⟨t, p, hstep, trivial⟩

theorem sent_start {s : DeliveryStream} (h : s.offset = 0) (hsize : 0 < s.chunkSize) :
    Sent s s [] where
  shape := .refl s
  offset_le := by omega
  bytes := by simp [chunks, h]
  sizes := by simp [chunks]
  count := by rw [h, ← Nat.mul_zero s.chunkSize, numChunks_mul hsize]; rfl
  aligned := fun _ => h ▸ dvd_zero _

theorem sent_run {s t : DeliveryStream} {polls : List PollEnv}
    {outs : List (Poll (Option (List UInt8)))} (hoffset : s.offset = 0) (hsize : 0 < s.chunkSize)
    (h : run pollStep s polls = some (t, outs)) : Sent s t outs := by
  refine run_history (I := Sent s) ?_ h (sent_start hoffset hsize)
  intro u bs env v p hu hstep
  exact hu.poll hsize (pollStep_case hstep)

private theorem offset_of_ended {s t : DeliveryStream} {env : PollEnv}
    (hdrop : s.dropDeadline = none)
    (h : s.pollStep env = some (t, .ready none)) : s.effectiveLen ≤ s.offset := by
  cases pollStep_case h with
  | ends shape offset why => exact why.resolve_right (by simp [hdrop])

private theorem chunks_of_run_at_end {s t : DeliveryStream} {polls : List PollEnv}
    {outs : List (Poll (Option (List UInt8)))} (hend : s.effectiveLen ≤ s.offset)
    (h : run pollStep s polls = some (t, outs)) : chunks outs = [] := by
  refine (run_history (I := fun s outs => s.effectiveLen ≤ s.offset ∧ chunks outs = [])
    ?_ h (show _ ∧ chunks [] = [] from ⟨hend, rfl⟩)).2
  rintro u bs env v p ⟨hu, hbs⟩ hstep
  rw [chunks_append, hbs]
  cases pollStep_case hstep with
  | waits wake shape offset why => exact ⟨by rw [shape.effectiveLen, offset]; exact hu, rfl⟩
  | ends shape offset why => exact ⟨by rw [shape.effectiveLen, offset]; exact hu, rfl⟩
  | sends len shape more size offset => omega

theorem sent_of_ended {s t : DeliveryStream} {polls : List PollEnv}
    {before after : List (Poll (Option (List UInt8)))} (hoffset : s.offset = 0)
    (hsize : 0 < s.chunkSize) (hdrop : s.dropDeadline = none)
    (h : run pollStep s polls = some (t, before ++ .ready none :: after)) :
    (chunks before).flatten = s.body.take s.effectiveLen ∧
      (chunks before).length = numChunks s.effectiveLen s.chunkSize ∧ chunks after = [] := by
  -- cut the run at the poll that ended the stream
  obtain ⟨u, polls₁, env, v, polls₂, _, hbefore, hend, hafter⟩ := exists_step_of_append h
  have hu := sent_run hoffset hsize hbefore
  have hle := offset_of_ended (hu.shape.dropDeadline.trans hdrop) hend
  rw [hu.shape.effectiveLen] at hle
  have hoff : u.offset = s.effectiveLen := le_antisymm hu.offset_le hle
  refine ⟨hoff ▸ hu.bytes, hoff ▸ hu.count, chunks_of_run_at_end ?_ hafter⟩
  cases pollStep_case hend with
  | ends shape offset why =>
    rw [shape.effectiveLen, offset, hu.shape.effectiveLen]
    exact hle

private theorem PollPath.sends_of_awake {s t : DeliveryStream} {env : PollEnv}
    {p : Poll (Option (List UInt8))} (h : PollPath s env (t, p)) (hawake : awake env = true)
    (hopen : p ≠ .ready none) (hgoes : p ≠ .pending none) : ∃ chunk, p = .ready (some chunk) := by
  cases h with
  | dropped | finishes | droppedLate => exact absurd rfl hopen
  | hangs => exact absurd rfl hgoes
  | awaitsFirst _ hwait =>
    rw [awake_of_firstWait hwait] at hawake
    cases hawake
  | awaitsChunk _ _ hwait =>
    rw [awake_of_chunkWait hwait] at hawake
    cases hawake
  | sends => exact ⟨_, rfl⟩

theorem countP_awake_le {s t : DeliveryStream} {polls : List PollEnv}
    {outs : List (Poll (Option (List UInt8)))} (h : run pollStep s polls = some (t, outs))
    (hopen : .ready none ∉ outs) (hgoes : .pending none ∉ outs) :
    polls.countP awake ≤ (chunks outs).length := by
  induction polls generalizing s outs with
  | nil => simp
  | cons env polls ih =>
    obtain ⟨u, p, rest, hstep, hrun, rfl⟩ := run_cons_eq_some.mp h
    rw [List.mem_cons, not_or] at hopen hgoes
    have hrest := ih hrun hopen.2 hgoes.2
    have hsplit : chunks (p :: rest) = chunks [p] ++ chunks rest := chunks_append [p] rest
    rw [List.countP_cons, hsplit, List.length_append]
    split_ifs with hawake
    · obtain ⟨chunk, rfl⟩ := (pollStep_path hstep).sends_of_awake hawake (Ne.symm hopen.1)
        (Ne.symm hgoes.1)
      have hone : (chunks [.ready (some chunk)]).length = 1 := rfl
      omega
    · omega

private theorem pending_none_not_mem {s t : DeliveryStream} {polls : List PollEnv}
    {outs : List (Poll (Option (List UInt8)))} (hbytes : s.hangAfterBytes = none)
    (htime : s.hangDeadline = none) (h : run pollStep s polls = some (t, outs)) :
    .pending none ∉ outs := by
  suffices hinv : (t.hangAfterBytes = none ∧ t.hangDeadline = none) ∧ .pending none ∉ outs from
    hinv.2
  refine run_history (I := fun u bs => (u.hangAfterBytes = none ∧ u.hangDeadline = none) ∧
    .pending none ∉ bs) ?_ h ⟨⟨hbytes, htime⟩, List.not_mem_nil⟩
  rintro u bs env v p ⟨⟨hu, hu'⟩, hbs⟩ hstep
  have hnone : p ≠ .pending none := by
    intro hp
    subst hp
    cases pollStep_path hstep with
    | hangs hpass hhang => simp [DeliveryStream.hangs, hu, hu', reached] at hhang
  have hshape : SameShape u v := (pollStep_case hstep).shape
  refine ⟨⟨hshape.hangAfterBytes.trans hu, hshape.hangDeadline.trans hu'⟩, ?_⟩
  rw [List.mem_append, List.mem_singleton, not_or]
  exact ⟨hbs, Ne.symm hnone⟩

private theorem numChunks_mono {m n : ℕ} (size : ℕ) (h : m ≤ n) :
    numChunks m size ≤ numChunks n size :=
  Nat.div_le_div_right (by omega)

theorem ended_of_awake {s t : DeliveryStream} {polls : List PollEnv}
    {outs : List (Poll (Option (List UInt8)))} (hoffset : s.offset = 0)
    (hsize : 0 < s.chunkSize) (hbytes : s.hangAfterBytes = none) (htime : s.hangDeadline = none)
    (h : run pollStep s polls = some (t, outs))
    (hpolls : numChunks s.effectiveLen s.chunkSize < polls.countP awake) : .ready none ∈ outs := by
  by_contra hopen
  have hsent := sent_run hoffset hsize h
  have hcount := countP_awake_le h hopen (pending_none_not_mem hbytes htime h)
  have hmono := numChunks_mono s.chunkSize hsent.offset_le
  have hchunks := hsent.count
  omega

private theorem effectiveLen_eq (s : DeliveryStream) :
    s.effectiveLen = min s.body.length (s.dropAfterBytes.getD s.body.length) := by
  rw [effectiveLen]
  cases s.dropAfterBytes <;> simp

end DeliveryStream

open DeliveryStream

/-- Delivery is exact. The stream has the limits and the chunk size that its specification draws,
and over any sequence of polls no slice is out of range, and the chunks are non-empty, at most the
chunk size, and an initial part of the body. Without a time drop, a stream that has ended has sent
exactly what the byte drop leaves of the body, in the least number of chunks, and sends nothing
more; without a hang it does end, at the latest with the first poll after those chunks whose timers
have fired. -/
theorem delivery_exact {body : List UInt8} {spec : DeliverySpec} {dropNow hangNow : Instant}
    {rng rng' : Rng} {s : DeliveryStream}
    (h : deliver body spec dropNow hangNow rng = .ok (s, rng')) (polls : List PollEnv) :
    Drawn body spec dropNow hangNow rng s rng' ∧
      ∃ t outs, run pollStep s polls = some (t, outs) ∧
        (∀ c ∈ chunks outs, c ≠ [] ∧ c.length ≤ s.chunkSize) ∧
        (chunks outs).flatten <+: body ∧
        (spec.hang = none → (∀ d, spec.drop ≠ some (.afterTime d)) →
          let n := min body.length (s.dropAfterBytes.getD body.length)
          (∀ before after, outs = before ++ .ready none :: after →
            (chunks before).flatten = body.take n ∧
              (chunks before).length = numChunks n s.chunkSize ∧ chunks after = []) ∧
            (numChunks n s.chunkSize < polls.countP awake → .ready none ∈ outs)) := by
  refine ⟨deliver_drawn h, ?_⟩
  obtain ⟨rfl, hoffset, hsize, hdrop, _, hhang⟩ := deliver_spec h
  obtain ⟨t, outs, hrun⟩ := s.exists_run_polls polls
  have hsent := sent_run hoffset hsize hrun
  refine ⟨t, outs, hrun, hsent.sizes, hsent.bytes ▸ List.take_prefix _ _, ?_⟩
  intro hnohang hnotime
  rw [← s.effectiveLen_eq]
  have hdeadline := hdrop hnotime
  constructor
  · intro before after hsplit
    subst hsplit
    exact sent_of_ended hoffset hsize hdeadline hrun
  · exact ended_of_awake hoffset hsize (hhang hnohang).1 (hhang hnohang).2 hrun

theorem delivery_exact_five_bytes :
    let now : Instant := .zero
    let env : PollEnv := ⟨now, now, true, now, true, now, now, now⟩
    let body : List UInt8 := [1, 2, 3, 4, 5]
    let spec : DeliverySpec :=
      { pace := some (.chunk (.fixed ⟨2⟩) (.fixed .zero)), drop := some (.afterBytes (.fixed ⟨3⟩)) }
    let before : List (Poll (Option (List UInt8))) := [.ready (some [1, 2]), .ready (some [3])]
    ∃ s rng t, deliver body spec now now ⟨fun _ => 0⟩ = .ok (s, rng) ∧
      Drawn body spec now now ⟨fun _ => 0⟩ s rng ∧ s.dropAfterBytes = some 3 ∧ s.chunkSize = 2 ∧
      run pollStep s (List.replicate 4 env) = some (t, before ++ [.ready none, .ready none]) ∧
      (chunks before).flatten = body.take 3 ∧ (chunks before).length = numChunks 3 2 := by
  intro now env body spec before
  have hdeliver : deliver body spec now now ⟨fun _ => 0⟩ = .ok (_, _) := rfl
  obtain ⟨hdrawn, t, outs, hrun, _, _, hends⟩ := delivery_exact hdeliver (List.replicate 4 env)
  obtain ⟨rfl, rfl⟩ := Prod.mk.inj (Option.some.inj hrun)
  obtain ⟨hbytes, hcount, _⟩ := (hends rfl (by simp [spec])).1 before [.ready none] rfl
  exact ⟨_, _, _, rfl, hdrawn, rfl, rfl, rfl, hbytes, hcount⟩

end Mockinx
