import Mockinx.Serve.DeliveryExact

/-!
What a drop looks like from outside: with which item a stream ends whose bytes have not all been
sent, and whether a poll that waits has itself woken up by the drop deadline.
-/

set_option autoImplicit false
set_option relaxedAutoImplicit false

namespace Mockinx

open Lib Lib.Run DeliveryStream

structure IoError where
  msg : String

abbrev Item := Except IoError (List UInt8)

def Poll.map {α β : Type} (f : α → β) : Poll α → Poll β
  | .pending wake => .pending wake
  | .ready a => .ready (f a)

/-- One poll with the item that its consumer sees. -/
def itemStep (s : DeliveryStream) (env : PollEnv) :
    Option (DeliveryStream × Poll (Option Item)) :=
  (s.pollStep env).map fun r => (r.1, r.2.map (Option.map .ok))

def itemBytes (items : List (Poll (Option Item))) : List UInt8 :=
  items.flatMap fun item =>
    match item with
    | .ready (some (.ok chunk)) => chunk
    | _ => []

/-- An item tells the truth about the end: a stream that has sent its whole body ends plainly, and
one that ends before has an error as its last item. -/
def EndsTruly (body : List UInt8) (before : List (Poll (Option Item))) :
    Poll (Option Item) → Prop
  | .ready none => itemBytes before = body
  | .ready (some (.error _)) => itemBytes before ≠ body
  | _ => True

namespace DeliveryStream

/-- The drop stops the stream at this poll, and bytes of the body are missing. -/
def CutBy (s : DeliveryStream) (env : PollEnv) : Prop :=
  s.offset < s.body.length ∧
    (reached s.dropDeadline env.dropNow = true ∨
      s.Passes env ∧ s.hangs env = false ∧
        (s.effectiveLen ≤ s.offset ∨ reached s.dropDeadline env.lastNow = true))

instance (s : DeliveryStream) (env : PollEnv) : Decidable (s.CutBy env) :=
  inferInstanceAs (Decidable (_ ∧ _))

end DeliveryStream

private theorem itemStep_path {s t : DeliveryStream} {env : PollEnv} {p : Poll (Option Item)}
    (h : itemStep s env = some (t, p)) :
    ∃ q, PollPath s env (t, q) ∧ p = q.map (Option.map .ok) := by
  obtain ⟨r, hr, heq⟩ := Option.map_eq_some_iff.mp h
  obtain ⟨rfl, rfl⟩ := Prod.mk.inj heq
  exact ⟨r.2, pollStep_path hr, rfl⟩

structure ItemsSent (s₀ s : DeliveryStream) (items : List (Poll (Option Item))) : Prop where
  body : s.body = s₀.body
  offset_le : s.offset ≤ s.body.length
  bytes : itemBytes items = s.body.take s.offset

private theorem ItemsSent.step {s₀ s t : DeliveryStream} {items : List (Poll (Option Item))}
    {env : PollEnv} {p : Poll (Option Item)} (h : ItemsSent s₀ s items)
    (hstep : itemStep s env = some (t, p)) : ItemsSent s₀ t (items ++ [p]) := by
  obtain ⟨q, hpath, rfl⟩ := itemStep_path hstep
  have hbytes : ∀ p, itemBytes (items ++ [p]) = itemBytes items ++ itemBytes [p] :=
    fun p => List.flatMap_append
  cases hpath with
  | sends hpass hhang hmore hdrop =>
    have hle := s.effectiveLen_le
    have hnext : s.nextLen ≤ s.effectiveLen - s.offset := min_le_left _ _
    refine ⟨h.body, ?_, ?_⟩
    · change s.offset + s.nextLen ≤ s.body.length
      omega
    · rw [hbytes, h.bytes]
      change s.body.take s.offset ++ (s.nextChunk ++ []) = s.body.take (s.offset + s.nextLen)
      rw [List.append_nil, List.take_add, nextChunk]
  | _ =>
    refine ⟨h.body, h.offset_le, ?_⟩
    rw [hbytes]
    exact (List.append_nil _).trans h.bytes

private theorem endsTruly_iff {s₀ s t : DeliveryStream} {items : List (Poll (Option Item))}
    {env : PollEnv} {p : Poll (Option Item)} (h : ItemsSent s₀ s items)
    (hstep : itemStep s env = some (t, p)) : EndsTruly s₀.body items p ↔ ¬ s.CutBy env := by
  obtain ⟨q, hpath, rfl⟩ := itemStep_path hstep
  have hwhole : itemBytes items = s₀.body ↔ ¬ s.offset < s.body.length := by
    rw [h.bytes, ← h.body, List.take_eq_self_iff, not_lt]
  cases hpath with
  | dropped hdrop =>
    change itemBytes items = s₀.body ↔ _
    rw [hwhole, CutBy, hdrop]
    simp
  | awaitsFirst hopen hwait =>
    refine iff_of_true trivial ?_
    rintro ⟨_, hcut | ⟨hpass, _⟩⟩
    · rw [hopen] at hcut
      cases hcut
    · exact not_passes_of_firstWait hwait hpass
  | awaitsChunk hopen hfirst hwait =>
    refine iff_of_true trivial ?_
    rintro ⟨_, hcut | ⟨hpass, _⟩⟩
    · rw [hopen] at hcut
      cases hcut
    · exact not_passes_of_chunkWait hwait hpass
  | hangs hpass hhang =>
    refine iff_of_true trivial ?_
    rintro ⟨_, hcut | ⟨_, hgoes, _⟩⟩
    · rw [hpass.notDropped] at hcut
      cases hcut
    · rw [hhang] at hgoes
      cases hgoes
  | finishes hpass hhang hend =>
    change itemBytes items = s₀.body ↔ _
    rw [hwhole, CutBy]
    simp [hpass, hhang, hend]
  | droppedLate hpass hhang hmore hdrop =>
    change itemBytes items = s₀.body ↔ _
    rw [hwhole, CutBy]
    simp [hpass, hhang, hdrop]
  | sends hpass hhang hmore hdrop =>
    refine iff_of_true trivial ?_
    rintro ⟨_, hcut | ⟨_, _, hcut | hcut⟩⟩
    · rw [hpass.notDropped] at hcut
      cases hcut
    · omega
    · rw [hdrop] at hcut
      cases hcut

/-- A run of a delivered stream tells the truth about its end exactly when the drop never stops the
stream while bytes of the body are missing: a stream that is cut ends like a complete one. -/
theorem ends_truly_iff {body : List UInt8} {spec : DeliverySpec} {dropNow hangNow : Instant}
    {rng rng' : Rng} {s t : DeliveryStream} {polls : List PollEnv}
    {items : List (Poll (Option Item))}
    (h : deliver body spec dropNow hangNow rng = .ok (s, rng'))
    (hrun : run itemStep s polls = some (t, items)) :
    (∀ before p after, items = before ++ p :: after → EndsTruly body before p) ↔
      Along itemStep (fun s env _ => ¬ s.CutBy env) s polls := by
  have hs := deliver_delivered h
  have hstart : ItemsSent s s [] := by
    refine ⟨rfl, ?_, ?_⟩ <;> rw [hs.offset]
    · exact Nat.zero_le _
    · rfl
  rw [← hs.body]
  exact outputs_iff_along (I := ItemsSent s) (fun _ _ _ _ _ hu hstep => hu.step hstep)
    (fun _ _ _ _ hu hstep => endsTruly_iff hu hstep) hrun hstart

theorem ends_truly_of_whole_body :
    let now : Instant := .zero
    let env : PollEnv := ⟨now, now, true, now, true, now, now, now⟩
    let spec : DeliverySpec := { drop := some (.afterBytes (.fixed ⟨5⟩)) }
    ∃ s rng t items, deliver [1, 2, 3, 4, 5] spec now now ⟨fun _ => 0⟩ = .ok (s, rng) ∧
      run itemStep s [env, env] = some (t, items) ∧
      ∀ before p after, items = before ++ p :: after → EndsTruly [1, 2, 3, 4, 5] before p := by
  intro now env spec
  have h : deliver [1, 2, 3, 4, 5] spec now now ⟨fun _ => 0⟩ = .ok (_, _) := rfl
  refine ⟨_, _, _, _, h, rfl, ?_⟩
  exact (@ends_truly_iff _ _ _ _ _ _ _ _ [env, env] _ h rfl).mpr (by decide)

/-- A byte drop before the end: the stream ends plainly after two of five bytes. -/
theorem ends_plainly_when_cut :
    let now : Instant := .zero
    let env : PollEnv := ⟨now, now, true, now, true, now, now, now⟩
    let spec : DeliverySpec := { drop := some (.afterBytes (.fixed ⟨2⟩)) }
    ∃ s rng t items, deliver [1, 2, 3, 4, 5] spec now now ⟨fun _ => 0⟩ = .ok (s, rng) ∧
      run itemStep s [env, env] = some (t, items) ∧
      ¬ ∀ before p after, items = before ++ p :: after → EndsTruly [1, 2, 3, 4, 5] before p := by
  intro now env spec
  refine ⟨_, _, _, _, rfl, rfl, fun h => ?_⟩
  have hbytes : [1, 2] = ([1, 2, 3, 4, 5] : List UInt8) :=
    h [.ready (some (.ok [1, 2]))] (.ready none) [] rfl
  simp at hbytes

namespace DeliveryStream

def cutBody (s : DeliveryStream) : DeliveryStream :=
  { s with body := s.body.take s.effectiveLen, dropAfterBytes := none }

private theorem effectiveLen_cutBody (s : DeliveryStream) :
    s.cutBody.effectiveLen = s.effectiveLen := by
  change (s.body.take s.effectiveLen).length = _
  rw [List.length_take, min_eq_left s.effectiveLen_le]

private theorem nextLen_cutBody (s : DeliveryStream) : s.cutBody.nextLen = s.nextLen := by
  rw [nextLen, effectiveLen_cutBody]
  rfl

private theorem nextChunk_cutBody (s : DeliveryStream) : s.cutBody.nextChunk = s.nextChunk := by
  have hle : s.nextLen ≤ s.effectiveLen - s.offset := min_le_left _ _
  rw [nextChunk, nextLen_cutBody]
  change ((s.body.take s.effectiveLen).drop s.offset).take s.nextLen = _
  rw [List.drop_take, List.take_take, min_eq_left hle, nextChunk]

private theorem yieldChunk_cutBody (s : DeliveryStream) (env : PollEnv) :
    s.cutBody.yieldChunk env = (s.yieldChunk env).map (Prod.map cutBody id) := by
  have hhang : s.cutBody.hangs env = s.hangs env := rfl
  have hoffset : s.cutBody.offset = s.offset := rfl
  have hdrop : s.cutBody.dropDeadline = s.dropDeadline := rfl
  rw [yieldChunk_eq, yieldChunk_eq, hhang, effectiveLen_cutBody, nextLen_cutBody,
    nextChunk_cutBody, hoffset, hdrop]
  split_ifs <;> rfl

private theorem pollStep_cutBody (s : DeliveryStream) (env : PollEnv) :
    (s.pollStep env).map (Prod.map cutBody id) = s.cutBody.pollStep env := by
  have hfirst : s.cutBody.firstWait env = s.firstWait env := rfl
  have hchunk : s.cutBody.afterFirst.chunkWait env = s.afterFirst.chunkWait env := rfl
  have hyield := yieldChunk_cutBody s.afterDelays env
  rw [pollStep, pollStep, pollNext, pollNext, firstByteGate_eq, firstByteGate_eq, hfirst]
  change Option.map _ (Except.toOption (if reached s.dropDeadline env.dropNow then _ else _)) =
    Except.toOption (if reached s.dropDeadline env.dropNow then _ else _)
  split_ifs
  · rfl
  · cases s.firstWait env with
    | some wake => rfl
    | none =>
      dsimp only
      rw [chunkGate_eq, chunkGate_eq, hchunk]
      cases s.afterFirst.chunkWait env with
      | some wake => rfl
      | none =>
        dsimp only
        change _ = Except.toOption (s.afterDelays.cutBody.yieldChunk env)
        rw [hyield]
        change Option.map _ (Except.toOption (s.afterDelays.yieldChunk env)) = _
        cases s.afterDelays.yieldChunk env <;> rfl

/-- No schedule of polls tells a stream with a byte drop from an undropped stream whose body ends
there. -/
theorem run_cutBody (s : DeliveryStream) (polls : List PollEnv) :
    (run pollStep s polls).map (Prod.map cutBody id) = run pollStep s.cutBody polls :=
  run_map (C := fun _ _ _ => True) (fun s env _ => pollStep_cutBody s env)
    (along_of_forall_mem (Q := fun _ => True) fun _ _ => trivial)

/-- A poll before the drop deadline that waits has itself woken up by then. -/
def WakesByDrop (s : DeliveryStream) (env : PollEnv)
    (r : DeliveryStream × Poll (Option (List UInt8))) : Prop :=
  ∀ d ∈ s.dropDeadline, env.dropNow < d → ∀ wake, r.2 = .pending wake → ∃ w ∈ wake, w ≤ d

/-- A poll before the drop deadline waits for nothing but a delay that is over by then: neither for
a longer one nor in a hang. -/
def WaitsWithinDrop (s : DeliveryStream) (env : PollEnv) : Prop :=
  ∀ d ∈ s.dropDeadline, env.dropNow < d →
    (∀ w ∈ s.firstWait env, w ≤ d) ∧
      (s.firstWait env = none → ∀ w ∈ s.afterFirst.chunkWait env, w ≤ d) ∧
      (s.Passes env → s.hangs env = false)

private theorem PollPath.wakesByDrop_iff {s : DeliveryStream} {env : PollEnv}
    {r : DeliveryStream × Poll (Option (List UInt8))} (h : PollPath s env r) :
    WakesByDrop s env r ↔ WaitsWithinDrop s env := by
  refine forall₂_congr fun d hd => imp_congr_right fun hbefore => ?_
  cases h with
  | dropped hdrop =>
    obtain ⟨d', hd', hle⟩ := reached_eq_true.mp hdrop
    obtain rfl := Option.some.inj (hd.symm.trans hd')
    exact absurd hle (Int.not_le.mpr hbefore)
  | awaitsFirst hopen hwait =>
    have hpass := not_passes_of_firstWait hwait
    simp [hwait, hpass]
  | awaitsChunk hopen hfirst hwait =>
    have hpass := not_passes_of_chunkWait hwait
    simp [hfirst, hwait, hpass]
  | hangs hpass hhang => simp [hpass, hhang]
  | finishes hpass hhang => simp [hpass.first, hpass.chunk, hhang]
  | droppedLate hpass hhang => simp [hpass.first, hpass.chunk, hhang]
  | sends hpass hhang => simp [hpass.first, hpass.chunk, hhang]

end DeliveryStream

/-- Every poll of a run that waits before the drop deadline has woken up by then exactly when it
waits for a delay that is over by then. The timer that a poll registers is that of the delay, and
a hanging poll registers none. -/
theorem wakes_by_drop_iff (s : DeliveryStream) (polls : List PollEnv) :
    Along pollStep WakesByDrop s polls ↔
      Along pollStep (fun s env _ => s.WaitsWithinDrop env) s polls :=
  along_iff_along (I := fun _ => True)
    (fun _ _ _ _ hstep => (pollStep_path hstep).wakesByDrop_iff) (fun _ _ _ _ _ _ => trivial)
    trivial

/-- A first byte due at 10 and a drop at 1: the first poll wakes up at 10. -/
theorem sleeps_past_drop :
    let now : Instant := .zero
    let env : PollEnv := ⟨now, now, false, now, false, now, now, now⟩
    let spec : DeliverySpec :=
      { drop := some (.afterTime (.fixed ⟨1, by decide⟩)),
        firstByte := some (.fixed ⟨10, by decide⟩) }
    ∃ s rng, deliver [1, 2, 3] spec now now ⟨fun _ => 0⟩ = .ok (s, rng) ∧
      ¬ Along pollStep WakesByDrop s [env] := by
  intro now env spec
  refine ⟨_, _, rfl, fun h => ?_⟩
  obtain ⟨w, hw, hle⟩ := (h _ rfl).1 _ rfl (by decide) _ rfl
  obtain rfl := Option.some.inj hw
  exact absurd hle (by decide)

end Mockinx
