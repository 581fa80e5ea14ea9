import Mockinx.Serve.DeliverTotal
import Mockinx.Server.ContentType

/-!
Whether an accepted reply can be sent. The parser takes any status up to 999, the HTTP library
only those from 100 on, and below it both response builders fall back to a bare 500.
-/

set_option autoImplicit false
set_option relaxedAutoImplicit false

namespace Mockinx

open Lib Lib.Text

/-- The response has the status and the headers of the reply. -/
def SentAs (x : External) (reply : ReplySpec) (resp : Response) : Prop :=
  resp.status = reply.status ∧ resp.headers = sentHeaders x reply

theorem parseStatus_le {obj : Map} {status : ℕ} (h : parseStatus obj = .ok status) :
    status ≤ 999 := by
  rw [parseStatus] at h
  split at h
  · cases h
    decide
  · obtain ⟨code, _, h⟩ := parse_bind_ok.mp h
    split_ifs at h with hlarge
    · cases h
    · cases h
      exact UInt64.le_iff_toNat_le.mp (UInt64.not_lt.mp hlarge)
  · cases h

theorem parseBody_pattern {obj : Map} {baseDir : Option String} {repeated : String}
    {size : ByteSize} (h : parseBody obj baseDir = .ok (.pattern repeated size)) :
    repeated ≠ "" := by
  rw [parseBody] at h
  split at h
  · cases h
  · split at h
    · rw [parseRandBody] at h
      obtain ⟨_, _, h⟩ := parse_bind_ok.mp h
      obtain ⟨_, _, h⟩ := parse_bind_ok.mp h
      obtain ⟨_, _, h⟩ := parse_bind_ok.mp h
      obtain ⟨_, _, h⟩ := parse_bind_ok.mp h
      obtain ⟨_, _, h⟩ := parse_bind_ok.mp h
      cases h
    · split at h
      · rw [parsePatternBody] at h
        obtain ⟨_, _, h⟩ := parse_bind_ok.mp h
        obtain ⟨text, _, h⟩ := parse_bind_ok.mp h
        split_ifs at h with hempty
        · cases h
        · obtain ⟨_, _, h⟩ := parse_bind_ok.mp h
          obtain ⟨_, _, h⟩ := parse_bind_ok.mp h
          obtain ⟨_, _, h⟩ := parse_bind_ok.mp h
          cases h
          exact hempty
      · split at h
        · unfold parseReflectBody at h
          split at h
          · cases h
          · obtain ⟨_, _, h⟩ := parse_bind_ok.mp h
            split_ifs at h
            · cases h
            · cases h
          · cases h
        · split at h
          · obtain ⟨_, _, h⟩ := parse_bind_ok.mp h
            cases h
          · cases h
  · cases h

private theorem generateBody_ok {x : External} {obj : Map} {baseDir : Option String}
    {body : BodySpec} (h : parseBody obj baseDir = .ok body) (hbody : body.isReflect = false) :
    ∃ bytes, generateBody x body = .ok bytes := by
  cases body with
  | none => exact ⟨_, rfl⟩
  | literal v => cases v <;> exact ⟨_, rfl⟩
  | rand size seed => exact ⟨_, rfl⟩
  | pattern repeated size =>
    have hne : ¬ utf8 repeated = [] := fun hnil => parseBody_pattern h (utf8_eq_nil.mp hnil)
    rw [generateBody, generatePattern]
    dsimp only
    rw [if_neg hne]
    split_ifs <;> exact ⟨_, rfl⟩
  | reflect fields => cases hbody
  | file path =>
    rw [generateBody]
    split <;> exact ⟨_, rfl⟩

private theorem sentAs_buildResponse_iff {x : External} {reply : ReplySpec}
    (hmax : reply.status ≤ 999) (hfits : Fits x (sentHeaders x reply)) (body : ResponseBody) :
    SentAs x reply (buildResponse x reply body) ↔ 100 ≤ reply.status := by
  rw [buildResponse, responseHeaders_eq, if_pos hfits]
  by_cases hmin : 100 ≤ reply.status
  · rw [if_pos ⟨hmin, hmax⟩]
    exact iff_of_true ⟨rfl, rfl⟩ hmin
  · rw [if_neg fun h => hmin h.1]
    refine iff_of_false ?_ hmin
    rintro ⟨hstatus, _⟩
    have h500 : (500 : ℕ) = reply.status := hstatus
    omega

private theorem sends_shaped_iff {x : External} {reply : ReplySpec} {delivery : DeliverySpec}
    {bytes : List UInt8} (hmax : reply.status ≤ 999) (hfits : Fits x (sentHeaders x reply))
    (hbytes : generateBody x reply.body = .ok bytes) (permit : Bool) (out : Outside) (rng : Rng) :
    (∃ resp rng', buildDeliveryResponse x reply delivery permit out rng = .ok (resp, rng') ∧
        SentAs x reply resp) ↔
      100 ≤ reply.status ∧
        ∃ s rng', deliver bytes delivery out.dropNow out.hangNow rng = .ok (s, rng') := by
  constructor
  · rintro ⟨resp, rng', hbuild, hsent⟩
    obtain ⟨bytes', hbytes', hcase⟩ := buildDeliveryResponse_shaped hbuild
    obtain rfl : bytes' = bytes := Except.ok.inj (hbytes'.symm.trans hbytes)
    cases hcase with
    | whole hplain =>
      subst hplain
      exact ⟨(sentAs_buildResponse_iff hmax hfits _).mp hsent, _, _, rfl⟩
    | stream _ hstream =>
      exact ⟨(sentAs_buildResponse_iff hmax hfits _).mp hsent, _, _, hstream⟩
  · rintro ⟨hmin, s, rng', hstream⟩
    have hsent := fun body => (sentAs_buildResponse_iff hmax hfits body).mpr hmin
    have hbody : liftPanic (generateBody x reply.body) rng = .ok (bytes, rng) :=
      liftPanic_ok.mpr ⟨hbytes, rfl⟩
    rw [buildDeliveryResponse, sampler_bind_of_ok hbody]
    by_cases hplain : delivery = {}
    · rw [if_pos hplain, buildReplyResponse, hbytes]
      exact ⟨_, _, rfl, hsent _⟩
    · rw [if_neg hplain, sampler_bind_of_ok hstream]
      exact ⟨_, _, rfl, hsent _⟩

/-- An accepted reply other than a request echo, with room for its headers, is sent as configured
exactly from status 100 on. The plain builder always responds; the shaped one does where the
delivery starts, which an accepted delivery does unless a drop or hang time is out of reach or its
gaps are narrowed to none. -/
theorem sent_as_configured_iff {x : External} {v : Value} {baseDir : Option String}
    {reply : ReplySpec} (hparse : parseReply x v baseDir = .ok reply)
    (hbody : reply.body.isReflect = false) (hfits : Fits x (sentHeaders x reply)) :
    ∃ bytes, generateBody x reply.body = .ok bytes ∧
      (∃ plain, buildReplyResponse x reply = .ok plain ∧
        (SentAs x reply plain ↔ 100 ≤ reply.status)) ∧
      (∀ delivery permit out rng resp rng',
        buildDeliveryResponse x reply delivery permit out rng = .ok (resp, rng') →
          (SentAs x reply resp ↔ 100 ≤ reply.status)) ∧
      ∀ obj delivery, parseDeliveryFields obj = .ok delivery → ∀ permit out rng,
        ∃ dropTime hangTime rng₁, sampleTimes delivery rng = .ok ((dropTime, hangTime), rng₁) ∧
          ((∃ resp rng', buildDeliveryResponse x reply delivery permit out rng =
              .ok (resp, rng') ∧ SentAs x reply resp) ↔
            100 ≤ reply.status ∧ InReach out.dropNow dropTime ∧ InReach out.hangNow hangTime ∧
              GapsFit bytes.length delivery.pace) := by
  rw [parseReply] at hparse
  obtain ⟨obj, _, hparse⟩ := parse_bind_ok.mp hparse
  obtain ⟨status, hstatus, hparse⟩ := parse_bind_ok.mp hparse
  obtain ⟨headers, _, hparse⟩ := parse_bind_ok.mp hparse
  obtain ⟨body, hparsed, hparse⟩ := parse_bind_ok.mp hparse
  cases hparse
  have hmax := parseStatus_le hstatus
  obtain ⟨bytes, hbytes⟩ := generateBody_ok (x := x) hparsed hbody
  have hsent := fun response => sentAs_buildResponse_iff hmax hfits response
  refine ⟨bytes, hbytes, ?_, ?_, ?_⟩
  · refine ⟨_, ?_, hsent (.full bytes)⟩
    rw [buildReplyResponse, hbytes]
    rfl
  · intro delivery permit out rng resp rng' hbuild
    obtain ⟨_, _, hcase⟩ := buildDeliveryResponse_shaped hbuild
    cases hcase with
    | whole => exact hsent _
    | stream => exact hsent _
  · intro fields delivery hdelivery permit out rng
    obtain ⟨dropTime, hangTime, rng₁, htimes, hiff, _⟩ := deliver_starts_iff
      (parseDeliveryFields_fromSecs hdelivery) bytes out.dropNow out.hangNow rng
    refine ⟨dropTime, hangTime, rng₁, htimes, ?_⟩
    rw [sends_shaped_iff hmax hfits hbytes, hiff]

theorem sent_as_configured_iff_created :
    let v : Value := .obj [("s", .ofNat 201), ("h", .obj [("a", .string "b")] (by decide)),
      ("b", .string "toy")] (by decide)
    let fields : Map := IndexMap.ofEntries [("pace", .string "1s")] (by decide)
    let out : Outside := ⟨.zero, true, 0, "", .zero, .zero⟩
    ∃ reply delivery, parseReply default v none = .ok reply ∧
      parseDeliveryFields fields = .ok delivery ∧ delivery.pace.isSome = true ∧
      (∃ plain, buildReplyResponse default reply = .ok plain ∧ SentAs default reply plain) ∧
      ∃ resp rng', buildDeliveryResponse default reply delivery false out ⟨fun _ => 5⟩ =
        .ok (resp, rng') ∧ SentAs default reply resp := by
  intro v fields out
  have hfields : parseDeliveryFields fields =
      .ok { pace := some (.duration (.fixed ⟨10 ^ 9, by decide⟩)) } := by decide +kernel
  obtain ⟨bytes, hbytes, ⟨plain, hplain, hsent⟩, _, hshaped⟩ :=
    @sent_as_configured_iff default v none _ rfl rfl (by decide)
  obtain ⟨dropTime, hangTime, _, htimes, hiff⟩ := hshaped _ _ hfields false out ⟨fun _ => 5⟩
  obtain ⟨⟨rfl, rfl⟩, _⟩ := sampler_pure_ok.mp htimes
  have hlen : bytes.length < 2 ^ 45 := by
    cases hbytes
    decide
  refine ⟨_, _, rfl, hfields, rfl, ⟨plain, hplain, hsent.mpr (by decide)⟩, hiff.mpr ⟨by decide, ?_⟩⟩
  exact ⟨fun d hd => (by cases hd), fun d hd => (by cases hd), gapsFit_of_lt hlen _⟩

/-- Status 42 is accepted and answered with 500. -/
theorem status_below_hundred :
    (parseReply default (.obj [("s", .ofNat 42)] (by decide)) none).toOption.map
      (fun reply => (reply.status,
        (buildReplyResponse default reply).toOption.map Response.status)) =
      some (42, some 500) := by
  decide

end Mockinx
