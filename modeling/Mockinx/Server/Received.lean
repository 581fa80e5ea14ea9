import Mockinx.Server.ShapedReply
import Mockinx.Server.Silence

/-!
What a client receives. The answer to a request is a reply of the rule that it finds, and the bytes
of the answer are those of the reply's body, up to where the delivery stops.
-/

set_option autoImplicit false
set_option relaxedAutoImplicit false

namespace Mockinx

open Lib Lib.Run DeliveryStream

def ResponseBody.SendsFrom : ResponseBody → List UInt8 → Prop
  | .full bytes, sent => bytes = sent
  | .stream s _, sent => ∀ polls t outs, run pollStep s polls = some (t, outs) →
      (chunks outs).flatten <+: sent

/-- A response that brings a reply with a delivery: its status, its headers and its body, which is
sent to the end if the delivery neither drops nor hangs. A reply that the builder refuses is a bare
500. -/
def Response.Brings (x : External) (reply : ReplySpec) (delivery : DeliverySpec)
    (resp : Response) : Prop :=
  if builds x reply then
    ∃ bytes, generateBody x reply.body = .ok bytes ∧ resp.status = reply.status ∧
      resp.headers = (responseHeaders x reply).getD [] ∧ resp.body.SendsFrom bytes ∧
      (delivery.drop = none → delivery.hang = none → resp.body.Sends bytes)
  else resp = .ofStatus 500

private theorem sendsFrom_of_deliver {body : List UInt8} {spec : DeliverySpec}
    {dropNow hangNow : Instant} {rng rng' : Rng} {s : DeliveryStream}
    (h : deliver body spec dropNow hangNow rng = .ok (s, rng')) (permit : Bool) :
    (ResponseBody.stream s permit).SendsFrom body := by
  obtain ⟨hbody, hoffset, hsize, _⟩ := deliver_spec h
  intro polls t outs hrun
  rw [(sent_run hoffset hsize hrun).bytes, hbody]
  exact List.take_prefix _ _

private theorem brings_buildResponse {x : External} {reply : ReplySpec} {delivery : DeliverySpec}
    {bytes : List UInt8} {body : ResponseBody} (hbytes : generateBody x reply.body = .ok bytes)
    (hfrom : body.SendsFrom bytes)
    (hall : delivery.drop = none → delivery.hang = none → body.Sends bytes) :
    (buildResponse x reply body).Brings x reply delivery := by
  rw [Response.Brings, buildResponse_eq]
  split_ifs with hbuilds
  · exact ⟨bytes, hbytes, rfl, rfl, hfrom, hall⟩
  · rfl

private theorem brings_of_delivery {x : External} {reply : ReplySpec} {delivery : DeliverySpec}
    {permit : Bool} {out : Outside} {rng rng' : Rng} {resp : Response}
    (h : buildDeliveryResponse x reply delivery permit out rng = .ok (resp, rng')) :
    resp.Brings x reply delivery := by
  obtain ⟨bytes, hbytes, hshaped⟩ := buildDeliveryResponse_shaped h
  cases hshaped with
  | whole hplain => exact brings_buildResponse hbytes rfl fun _ _ => rfl
  | stream hshaped hstream =>
    exact brings_buildResponse hbytes (sendsFrom_of_deliver hstream permit)
      fun hdrop hhang => sends_of_deliver hdrop hhang hstream permit

private theorem brings_of_plain {x : External} {reply : ReplySpec} {resp : Response}
    (h : buildReplyResponse x reply = .ok resp) : resp.Brings x reply {} := by
  rw [buildReplyResponse] at h
  cases hbytes : generateBody x reply.body with
  | error p =>
    rw [hbytes] at h
    cases h
  | ok bytes =>
    rw [hbytes] at h
    obtain rfl := Except.ok.inj h
    exact brings_buildResponse hbytes rfl fun _ _ => rfl

variable {α : Type} [DecidableEq α] {x : External} {o : OverflowChecks}

/-- A response brings a reply that the request may be answered with, whole or as the rule delivers
it. -/
def LiveRule.Answers (x : External) (o : OverflowChecks) (live : LiveRule α) (c : Call α)
    (resp : Response) : Prop :=
  ∃ reply delivery, live.MaySend x o c reply ∧ (delivery = {} ∨ delivery ∈ live.rule.deliveries) ∧
    resp.Brings x reply delivery

private theorem LiveRule.Fits.resolveStrategy_ne_storeless {live : LiveRule α} (h : live.Fits o)
    {addr : α} {req : Request} {out : Outside} {rng : Rng} :
    (Handling.resolveStrategy x o live.rule.reply addr req out (live.state, rng)).1 ≠
      some none := by
  intro hnone
  simp only [Handling.resolveStrategy, OptionT.mk] at hnone
  cases hreply : live.rule.reply with
  | static reply =>
    rw [hreply] at hnone
    cases hnone
  | sequence replies =>
    rw [hreply] at hnone
    obtain ⟨n, _, hn⟩ := Option.bind_eq_some_iff.mp hnone
    obtain ⟨reply, _, heq⟩ := Option.map_eq_some_iff.mp hn
    cases heq
  | crud spec headers =>
    obtain ⟨store, hstore, _⟩ := h.store spec headers hreply
    simp only [hreply, hstore] at hnone
    obtain ⟨answer, _, heq⟩ := Option.map_eq_some_iff.mp hnone
    cases heq

private theorem LiveRule.answers_of_some {live : LiveRule α} {c : Call α} (hfits : live.Fits o)
    {resp : Response} (h : (live.serve x o c).2 = some resp) :
    live.Answers (x.withFiles c.files) o c resp := by
  have hcourse := live.course_serve x o c
  generalize (live.serve x o c).2 = answer at hcourse h
  cases hcourse with
  | panics | unresolved => cases h
  | @rejects reply hmem =>
    cases hbuild : buildReplyResponse (x.withFiles c.files) reply with
    | error p =>
      rw [hbuild] at h
      cases h
    | ok r =>
      rw [hbuild] at h
      obtain rfl := Option.some.inj h
      exact ⟨reply, {}, .side (List.mem_append_left _ hmem), Or.inl rfl, brings_of_plain hbuild⟩
  | storeless hresolve => exact absurd hresolve hfits.resolveStrategy_ne_storeless
  | @delivers reply delivery permit rng hsend hdelivery =>
    cases htimed : withTimeout live.rule.behavior.timeout
        (buildDeliveryResponse (x.withFiles c.files) reply delivery permit c.out) rng with
    | error p =>
      rw [htimed] at h
      cases h
    | ok r =>
      rw [htimed] at h
      obtain rfl := Option.some.inj h
      obtain ⟨_, hbuild⟩ := withTimeout_ok htimed
      exact ⟨reply, delivery, hsend, Or.inr hdelivery, brings_of_delivery hbuild⟩

/-- At any time, the answer to a request is a reply of the rule that it finds: its status and its
headers, and as its body the bytes of the reply's body from their start, which are all sent unless
the delivery drops or hangs, or a bare 500 for a reply that the builder refuses. A request that
finds no rule is told that its body cannot be read, or that there is none. -/
theorem client_receives_own_reply {parent : String → Option String} {config : Option String}
    {s t : Server α} (hstart : (Server.start x o parent config).2 = some s) {calls : List (Call α)}
    {outs : List (Option ℕ × Option Response)}
    (hrun : run (Server.next x o) s calls = some (t, outs)) {c : Call α}
    (hroute : route c.req.method c.req.path = .request) {resp : Response}
    (hanswer : (t.serve x o c).2.2 = some resp) :
    match t.finds c with
    | none => resp =
        if c.unreadable then textResponse 400 "failed to read body" else .ofStatus 404
    | some i => ∃ live, t.live[i]? = some live ∧
        live.Answers (x.withFiles c.files) o c resp := by
  obtain ⟨hs, _⟩ := Server.sound_start hstart
  have hfits := hs.fits_run (Server.fits_start hstart) hrun
  have ht := Server.sound_run hs hrun
  cases hfinds : t.finds c with
  | none =>
    rw [ht.serve_unfound x o hroute hfinds] at hanswer
    exact (Option.some.inj hanswer).symm
  | some i =>
    cases hdown : t.down with
    | true =>
      rw [ht.serve_found_down hdown x o hfinds] at hanswer
      cases hanswer
    | false =>
      obtain ⟨live, hlive, hserve⟩ := ht.serve_found hdown x o hfinds
      rw [hserve] at hanswer
      exact ⟨live, hlive,
        LiveRule.answers_of_some (hfits live (List.mem_of_getElem? hlive)) hanswer⟩

theorem client_receives_own_reply_text :
    let reply : Value := .obj [("b", .string "abc")] (by decide)
    let v : Value := .obj [("match", .string "_"), ("reply", reply)] (by decide)
    let x : External := { (default : External) with fromStr := fun _ => .ok v }
    let put := plainCall "PUT" "/_mx" (utf8 v.toString)
    let get := plainCall "GET" "/a" []
    ∃ s outs live resp, run (Server.next x .checked) .new [put] = some (s, outs) ∧
      (s.serve x .checked get).2.2 = some resp ∧
      LiveRule.Answers (x.withFiles get.files) .checked live get resp := by
  intro reply v x put get
  obtain ⟨rule, r, resp, hparse, hreply, hmatch, hresp⟩ : ∃ rule r resp,
      parseRules { x with readFile := put.files } v none = .ok [rule] ∧ rule.reply = .static r ∧
        rule.matchRule = .catchAll ∧
        ((⟨rule, .fresh rule none⟩ : LiveRule Unit).serve x .checked get).2 = some resp :=
    ⟨_, _, _, rfl, rfl, rfl, rfl⟩
  have hput : Replaces x put [rule] := ⟨rfl, rfl, parseBodyAsRules_utf8 rfl hparse⟩
  have hlive : liveRules (α := Unit) .checked [rule] = ([⟨rule, .fresh rule none⟩], true) := by
    simp [liveRules, LiveRule.new, hreply]
  obtain ⟨s, outs, hrun, hup, hone⟩ := hput.run_new hlive
  have hfinds : s.finds get = some 0 := Server.finds_of_catchAll hone hmatch rfl rfl
  have hstart : (Server.start (α := Unit) x .checked (fun _ => none) none).2 = some .new := rfl
  obtain ⟨live, hget, hserve⟩ :=
    (Server.sound_run Server.sound_new hrun).serve_found hup x .checked hfinds
  have hanswer : (s.serve x .checked get).2.2 = some resp := by
    rw [hone] at hget
    obtain rfl := Option.some.inj hget
    rw [hserve, hresp]
  have hreceived := client_receives_own_reply hstart hrun rfl hanswer
  rw [hfinds] at hreceived
  obtain ⟨live, _, hanswers⟩ := hreceived
  exact ⟨s, outs, live, resp, hrun, hanswer, hanswers⟩

end Mockinx
