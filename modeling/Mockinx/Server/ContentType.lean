import Mockinx.Server.ShapedReply

/-!
A configured content type. The response builder looks for the key in any letter case before it
infers one, while the request echo only looks for the key in lower case before it adds one.
-/

set_option autoImplicit false
set_option relaxedAutoImplicit false

namespace Mockinx

open Lib Lib.Text

/-- What the HTTP library documents: header names are stored in lower case, and those of the content
type and the JSON media type are valid. -/
structure HttpHeaders (x : External) : Prop where
  lower : ∀ key name, x.headerName key = some name →
    name = String.ofList (key.toList.map Char.toLower)
  contentType : ∀ key, eqIgnoreAsciiCase key "content-type" = true →
    (x.headerName key).isSome = true
  json : x.headerValue "application/json" = true

def validHeader (x : External) (e : String × Value) : Option (String × String) :=
  e.2.asStr.bind fun v =>
    (x.headerName e.1).bind fun name => if x.headerValue v then some (name, v) else none

def validHeaders (x : External) (headers : Map) : List (String × String) :=
  headers.entries.filterMap (validHeader x)

/-- There is room in the header map for each header behind those before it. -/
def Fits (x : External) (headers : List (String × String)) : Prop :=
  ∀ n < headers.length, ((headers.take n).map Prod.fst).eraseDups.length < x.maxHeaders

instance (x : External) (headers : List (String × String)) : Decidable (Fits x headers) :=
  inferInstanceAs (Decidable (∀ n < headers.length, _))

/-- The values of the content type headers of a response. -/
def contentTypes (headers : List (String × String)) : List String :=
  (headers.filter (·.1 = "content-type")).map Prod.snd

private theorem contentTypes_append (headers headers' : List (String × String)) :
    contentTypes (headers ++ headers') = contentTypes headers ++ contentTypes headers' := by
  rw [contentTypes, List.filter_append, List.map_append]
  rfl

private theorem contentTypes_singleton (h : String × String) :
    contentTypes [h] = if h.1 = "content-type" then [h.2] else [] := by
  rw [contentTypes]
  by_cases hname : h.1 = "content-type" <;> simp [hname]

private theorem foldl_appendHeader_none (x : External) (headers : List (String × String)) :
    headers.foldl (fun acc e => acc.bind (appendHeader x · e.1 e.2)) none = none := by
  induction headers with
  | nil => rfl
  | cons e headers ih => exact ih

private theorem foldl_appendHeader (x : External) (headers start : List (String × String)) :
    headers.foldl (fun acc e => acc.bind (appendHeader x · e.1 e.2)) (some start) =
      if ∀ n < headers.length,
        ((start ++ headers.take n).map Prod.fst).eraseDups.length < x.maxHeaders
      then some (start ++ headers) else none := by
  induction headers generalizing start with
  | nil => simp
  | cons e headers ih =>
    rw [List.foldl_cons, Option.bind_some, appendHeader, List.length_cons]
    simp only [Nat.forall_lt_succ_left, List.take_zero, List.append_nil, List.take_succ_cons]
    by_cases hroom : (start.map Prod.fst).eraseDups.length < x.maxHeaders
    · rw [if_pos hroom, ih]
      simp [hroom]
    · rw [if_neg hroom, foldl_appendHeader_none]
      simp [hroom]

/-- The headers that a reply asks for: the inferred content type, then the configured ones. -/
def sentHeaders (x : External) (reply : ReplySpec) : List (String × String) :=
  (inferContentType reply).toList.map (fun ct => ("content-type", ct)) ++
    validHeaders x reply.headers

theorem responseHeaders_eq (x : External) (reply : ReplySpec) :
    responseHeaders x reply =
      if Fits x (sentHeaders x reply) then some (sentHeaders x reply) else none := by
  have hfold := foldl_appendHeader x (sentHeaders x reply) []
  rw [sentHeaders, validHeaders, List.foldl_append, List.foldl_filterMap] at hfold
  rw [responseHeaders]
  refine Eq.trans ?_ hfold
  congr 1
  · funext acc e
    rw [validHeader]
    cases e.2.asStr with
    | none => rfl
    | some v =>
      cases x.headerName e.1 with
      | none => simp
      | some name => by_cases hvalue : x.headerValue v = true <;> simp [hvalue]
  · cases inferContentType reply <;> rfl

private theorem responseHeaders_of_not_inferred {x : External} {reply : ReplySpec}
    (h : inferContentType reply = none) :
    responseHeaders x reply =
      if Fits x (validHeaders x reply.headers) then some (validHeaders x reply.headers)
      else none := by
  have hsent : sentHeaders x reply = validHeaders x reply.headers := by
    rw [sentHeaders, h]
    rfl
  rw [responseHeaders_eq, hsent]

private theorem HttpHeaders.name_eq_iff {x : External} (hx : HttpHeaders x) {key name : String}
    (h : x.headerName key = some name) :
    name = "content-type" ↔ eqIgnoreAsciiCase key "content-type" = true := by
  have hlower : "content-type".toList.map Char.toLower = "content-type".toList := by decide
  rw [hx.lower key name h, eqIgnoreAsciiCase, hlower, beq_iff_eq]
  constructor
  · intro heq
    rw [← heq, String.toList_ofList]
  · intro heq
    rw [heq, String.ofList_toList]

private theorem HttpHeaders.validHeader_name {x : External} (hx : HttpHeaders x)
    {e : String × Value} {h : String × String} (hvalid : validHeader x e = some h) :
    h.1 = "content-type" ↔ eqIgnoreAsciiCase e.1 "content-type" = true := by
  rw [validHeader] at hvalid
  obtain ⟨v, _, hvalid⟩ := Option.bind_eq_some_iff.mp hvalid
  obtain ⟨name, hname, hvalid⟩ := Option.bind_eq_some_iff.mp hvalid
  split_ifs at hvalid
  obtain rfl := Option.some.inj hvalid
  exact hx.name_eq_iff hname

private theorem contentTypes_filterMap {x : External} (hx : HttpHeaders x)
    (es : List (String × Value)) :
    contentTypes (es.filterMap (validHeader x)) =
      (es.filter fun e => eqIgnoreAsciiCase e.1 "content-type").filterMap fun e =>
        (validHeader x e).map Prod.snd := by
  induction es with
  | nil => rfl
  | cons e es ih =>
    cases hvalid : validHeader x e with
    | none =>
      rw [List.filterMap_cons_none hvalid, ih, List.filter_cons]
      split_ifs
      · rw [List.filterMap_cons_none (by rw [hvalid]; rfl)]
      · rfl
    | some h =>
      have hname := hx.validHeader_name hvalid
      rw [List.filterMap_cons_some hvalid, ← List.singleton_append, contentTypes_append, ih,
        List.filter_cons]
      by_cases hkey : eqIgnoreAsciiCase e.1 "content-type" = true
      · rw [if_pos hkey, List.filterMap_cons_some (show _ = some h.2 by rw [hvalid]; rfl),
          contentTypes_singleton, if_pos (hname.mpr hkey)]
        rfl
      · rw [if_neg hkey, contentTypes_singleton, if_neg fun h => hkey (hname.mp h)]
        rfl

/-- The configured headers have one content type key, in any letter case, with a valid text. -/
structure ConfiguresContentType (x : External) (headers : Map) (value : String) : Prop where
  key : ∃ key, headers.keys.filter (eqIgnoreAsciiCase · "content-type") = [key] ∧
    headers.get? key = some (.string value)
  valid : x.headerValue value = true

namespace ConfiguresContentType

variable {x : External} {headers : Map} {value : String}

private theorem exists_entry (h : ConfiguresContentType x headers value) :
    ∃ key, eqIgnoreAsciiCase key "content-type" = true ∧ key ∈ headers.keys ∧
      headers.entries.filter (fun e => eqIgnoreAsciiCase e.1 "content-type") =
        [(key, .string value)] := by
  obtain ⟨key, hkeys, hget⟩ := h.key
  have hmem : key ∈ headers.keys.filter (eqIgnoreAsciiCase · "content-type") := by
    rw [hkeys]
    exact List.mem_cons_self
  obtain ⟨hkey, hname⟩ := List.mem_filter.mp hmem
  refine ⟨key, hname, hkey, ?_⟩
  have hfst : (headers.entries.filter fun e => eqIgnoreAsciiCase e.1 "content-type").map Prod.fst =
      [key] := by
    rw [← hkeys, ← IndexMap.map_fst_entries, List.filter_map]
    rfl
  obtain ⟨e, hentries, rfl⟩ := List.map_eq_singleton_iff.mp hfst
  have hentry : e ∈ headers.entries.filter fun e => eqIgnoreAsciiCase e.1 "content-type" := by
    rw [hentries]
    exact List.mem_cons_self
  have hvalue := IndexMap.get?_eq_some.mpr (List.mem_filter.mp hentry).1
  rw [hget] at hvalue
  rw [hentries, Option.some.inj hvalue]

private theorem validHeader_eq (h : ConfiguresContentType x headers value) (hx : HttpHeaders x)
    {key : String} (hkey : eqIgnoreAsciiCase key "content-type" = true) :
    validHeader x (key, .string value) = some ("content-type", value) := by
  obtain ⟨name, hname⟩ := Option.isSome_iff_exists.mp (hx.contentType key hkey)
  obtain rfl := (hx.name_eq_iff hname).mpr hkey
  rw [validHeader]
  simp [Value.asStr, hname, h.valid]

private theorem contentTypes_eq (h : ConfiguresContentType x headers value) (hx : HttpHeaders x) :
    contentTypes (validHeaders x headers) = [value] := by
  obtain ⟨key, hkey, _, hentries⟩ := h.exists_entry
  rw [validHeaders, contentTypes_filterMap hx, hentries,
    List.filterMap_cons_some (show _ = some value by rw [h.validHeader_eq hx hkey]; rfl)]
  rfl

private theorem contentTypes_insert (h : ConfiguresContentType x headers value) (hx : HttpHeaders x)
    (hkey : "content-type" ∉ headers.keys) :
    contentTypes (validHeaders x (headers.insert "content-type" (.string "application/json"))) =
      [value, "application/json"] := by
  have hsame : eqIgnoreAsciiCase "content-type" "content-type" = true := by decide
  obtain ⟨name, hname⟩ := Option.isSome_iff_exists.mp (hx.contentType _ hsame)
  obtain rfl := (hx.name_eq_iff hname).mpr hsame
  have hvalid : validHeader x ("content-type", .string "application/json") =
      some ("content-type", "application/json") := by
    rw [validHeader]
    simp [Value.asStr, hname, hx.json]
  have hconfigured := h.contentTypes_eq hx
  rw [validHeaders] at hconfigured ⊢
  rw [IndexMap.entries_insert_of_not_mem _ hkey, List.filterMap_append, contentTypes_append,
    hconfigured, List.filterMap_cons_some hvalid]
  rfl

private theorem any_keys (h : ConfiguresContentType x headers value) :
    headers.keys.any (eqIgnoreAsciiCase · "content-type") = true := by
  obtain ⟨key, hname, hkey, _⟩ := h.exists_entry
  exact List.any_eq_true.mpr ⟨key, hkey, hname⟩

end ConfiguresContentType

/-- The reply of a strategy at a call. -/
def RepliesWith (strategy : ReplyStrategy) (callIdx : UInt64) (reply : ReplySpec) : Prop :=
  strategy = .static reply ∨
    ∃ replies, strategy = .sequence replies ∧ replies[callIdx.toNat % replies.length]? = some reply

/-- The condition under which a configured content type is the only one: the reply can be sent, and
a request echo finds the key in lower case. -/
structure ContentTypeWins (x : External) (reply : ReplySpec) : Prop where
  status : 100 ≤ reply.status ∧ reply.status ≤ 999
  fits : Fits x (validHeaders x reply.headers)
  found : reply.body.isReflect = true → "content-type" ∈ reply.headers.keys

section Builder

variable {x : External} {reply : ReplySpec} {value : String}

private theorem inferContentType_of_configured (h : ConfiguresContentType x reply.headers value) :
    inferContentType reply = none := by
  rw [inferContentType, if_pos h.any_keys]

private theorem buildResponse_headers (hinfer : inferContentType reply = none)
    (body : ResponseBody) :
    (buildResponse x reply body).headers =
      if (100 ≤ reply.status ∧ reply.status ≤ 999) ∧ Fits x (validHeaders x reply.headers)
      then validHeaders x reply.headers else [] := by
  rw [buildResponse, responseHeaders_of_not_inferred hinfer]
  by_cases hstatus : 100 ≤ reply.status ∧ reply.status ≤ 999
  · by_cases hfits : Fits x (validHeaders x reply.headers)
    · rw [if_pos hstatus, if_pos hfits, if_pos ⟨hstatus, hfits⟩]
    · rw [if_pos hstatus, if_neg hfits, if_neg fun h => hfits h.2]
      rfl
  · rw [if_neg hstatus, if_neg fun h => hstatus h.1]
    rfl

private theorem contentTypes_buildResponse_iff (hx : HttpHeaders x)
    (h : ConfiguresContentType x reply.headers value) (body : ResponseBody) :
    contentTypes (buildResponse x reply body).headers = [value] ↔
      (100 ≤ reply.status ∧ reply.status ≤ 999) ∧ Fits x (validHeaders x reply.headers) := by
  rw [buildResponse_headers (inferContentType_of_configured h)]
  split_ifs with hsent
  · exact iff_of_true (h.contentTypes_eq hx) hsent
  · exact iff_of_false (by simp [contentTypes]) hsent

private theorem resolveReflect_headers (reply : ReplySpec) (req : Request) :
    (resolveReflect x reply req).status = reply.status ∧
      (resolveReflect x reply req).headers =
        if reply.body.isReflect = true ∧ "content-type" ∉ reply.headers.keys
        then reply.headers.insert "content-type" (.string "application/json")
        else reply.headers := by
  rw [resolveReflect]
  cases reply.body with
  | reflect fields =>
    refine ⟨rfl, ?_⟩
    by_cases hkey : "content-type" ∈ reply.headers.keys
    · simp [BodySpec.isReflect, IndexMap.containsKey, hkey]
    · simp [BodySpec.isReflect, IndexMap.containsKey, hkey]
  | _ => exact ⟨rfl, by simp [BodySpec.isReflect]⟩

private theorem contentTypes_resolved_iff (hx : HttpHeaders x)
    (h : ConfiguresContentType x reply.headers value) (req : Request) (body : ResponseBody) :
    contentTypes (buildResponse x (resolveReflect x reply req) body).headers = [value] ↔
      ContentTypeWins x reply := by
  obtain ⟨hstatus, hheaders⟩ := @resolveReflect_headers x reply req
  by_cases hadds : reply.body.isReflect = true ∧ "content-type" ∉ reply.headers.keys
  · rw [if_pos hadds] at hheaders
    refine iff_of_false ?_ fun hwins => hadds.2 (hwins.found hadds.1)
    have hinfer : inferContentType (resolveReflect x reply req) = none := by
      have hmem : "content-type" ∈ (resolveReflect x reply req).headers.keys := by
        rw [hheaders]
        exact IndexMap.mem_keys_insert.mpr (Or.inr rfl)
      rw [inferContentType, if_pos (List.any_eq_true.mpr ⟨_, hmem, by decide⟩)]
    rw [buildResponse_headers hinfer, hheaders]
    split_ifs
    · rw [h.contentTypes_insert hx hadds.2]
      simp
    · simp [contentTypes]
  · rw [if_neg hadds] at hheaders
    have hconfigured : ConfiguresContentType x (resolveReflect x reply req).headers value := by
      rwa [hheaders]
    rw [contentTypes_buildResponse_iff hx hconfigured, hstatus, hheaders]
    constructor
    · rintro ⟨hsent, hfits⟩
      exact ⟨hsent, hfits, fun hecho => of_not_not fun hkey => hadds ⟨hecho, hkey⟩⟩
    · exact fun hwins => ⟨hwins.status, hwins.fits⟩

end Builder

private theorem resolveAndDeliver_built {x : External} {o : OverflowChecks} {rule : Rule}
    {reply : ReplySpec} {crud crud' : Option CrudStore} {req : Request} {permit : Bool}
    {out : Outside} {rng rng₁ rng' : Rng} {delivery : Option DeliverySpec} {resp : Response}
    (hroll : rollChaos rule.chaos rng = .ok ((none, delivery), rng₁))
    (huses : RepliesWith rule.reply out.callIdx reply)
    (h : resolveAndDeliver x o rule crud req permit out rng = .ok ((crud', resp), rng')) :
    ∃ body, resp = buildResponse x (resolveReflect x reply req) body := by
  have hstrategy : resolveStrategy x o rule.reply crud req out = .ok (crud, some reply) := by
    rcases huses with hstatic | ⟨replies, hsequence, hget⟩
    · rw [hstatic]
      rfl
    · rw [hsequence, resolveStrategy, hget]
  rw [resolveAndDeliver, sampler_bind_of_ok hroll] at h
  change (liftPanic _ >>= _) rng₁ = _ at h
  rw [sampler_bind_of_ok (liftPanic_ok.mpr ⟨hstrategy, rfl⟩)] at h
  obtain ⟨_, _, htimed, h⟩ := sampler_bind_ok.mp h
  obtain ⟨heq, _⟩ := sampler_pure_ok.mp h
  obtain ⟨_, rfl⟩ := Prod.mk.inj heq
  obtain ⟨_, hbuild⟩ := withTimeout_ok htimed
  obtain ⟨bytes, _, hshaped⟩ := buildDeliveryResponse_shaped hbuild
  cases hshaped with
  | whole => exact ⟨_, rfl⟩
  | stream => exact ⟨_, rfl⟩

/-- A configured content type is the only one of every response that is built from the reply, with
any delivery, exactly when the reply can be sent and is no request echo that misses the key. -/
theorem content_type_wins_iff {x : External} {o : OverflowChecks} {rule : Rule}
    {reply : ReplySpec} {value : String} {crud crud' : Option CrudStore} {req : Request}
    {permit : Bool} {out : Outside} {rng rng₁ rng' : Rng} {delivery : Option DeliverySpec}
    {resp : Response} (hx : HttpHeaders x)
    (hroll : rollChaos rule.chaos rng = .ok ((none, delivery), rng₁))
    (huses : RepliesWith rule.reply out.callIdx reply)
    (hconfigured : ConfiguresContentType x reply.headers value)
    (h : resolveAndDeliver x o rule crud req permit out rng = .ok ((crud', resp), rng')) :
    contentTypes resp.headers = [value] ↔ ContentTypeWins x reply := by
  obtain ⟨body, rfl⟩ := resolveAndDeliver_built hroll huses h
  exact contentTypes_resolved_iff hx hconfigured req body

/-- An HTTP library that takes every name, in lower case, and every value. -/
def lowerCaseNames : External :=
  { (default : External) with
    headerName := fun key => some (String.ofList (key.toList.map Char.toLower)) }

private theorem httpHeaders_lowerCaseNames : HttpHeaders lowerCaseNames where
  lower _ _ h := (Option.some.inj h).symm
  contentType _ _ := rfl
  json := rfl

/-- A rule with one reply and a content type in mixed case. -/
def plainTextRule (body : BodySpec) : Rule where
  matchRule := .catchAll
  reply := .static {
    headers := IndexMap.ofEntries [("Content-Type", .string "text/plain")] (by decide)
    body }
  delivery := {}
  behavior := {}
  chaos := none
  source := .null

theorem content_type_wins_over_inference :
    let out : Outside := ⟨.zero, true, 0, "", .zero, .zero⟩
    ∃ resp rng, resolveAndDeliver lowerCaseNames .checked (plainTextRule (.literal (.array [])))
        none default false out ⟨fun _ => 0⟩ = .ok ((none, resp), rng) ∧
      contentTypes resp.headers = ["text/plain"] := by
  intro out
  have h : resolveAndDeliver lowerCaseNames .checked (plainTextRule (.literal (.array []))) none
      default false out ⟨fun _ => 0⟩ = .ok ((none, _), _) := rfl
  refine ⟨_, _, h, (content_type_wins_iff httpHeaders_lowerCaseNames rfl (Or.inl rfl)
    ⟨⟨"Content-Type", by decide, by decide⟩, rfl⟩ h).mpr ⟨by decide, by decide, ?_⟩⟩
  exact fun hecho => Bool.noConfusion hecho

/-- A request echo that is sent with two content types. -/
theorem echo_adds_content_type :
    let out : Outside := ⟨.zero, true, 0, "", .zero, .zero⟩
    let body := BodySpec.reflect [.method, .headers, .url, .query]
    let headers : Map := IndexMap.ofEntries [("Content-Type", .string "text/plain")] (by decide)
    ConfiguresContentType lowerCaseNames headers "text/plain" ∧
      ∃ resp rng, resolveAndDeliver lowerCaseNames .checked (plainTextRule body) none default false
          out ⟨fun _ => 0⟩ = .ok ((none, resp), rng) ∧
        contentTypes resp.headers = ["text/plain", "application/json"] := by
  intro out body headers
  exact ⟨⟨⟨"Content-Type", by decide, by decide⟩, rfl⟩, _, _, rfl, by decide⟩

end Mockinx
