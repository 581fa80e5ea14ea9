import Mathlib.Algebra.Order.BigOperators.Group.List
import Mockinx.Lib.FormUrl
import Mockinx.Server.Handler

/-!
How an echoed query reads an encoded one. The decoder turns every byte of the UTF-8 form into a
character of its own, so it undoes the encoding of ASCII text and of no other.
-/

set_option autoImplicit false
set_option relaxedAutoImplicit false

namespace Mockinx

open Lib Lib.Text Lib.FormUrl

/-- The form encoding of a text. -/
def urlencode (P : PlainSet) (s : String) : String := String.ofList (encodeText P s.toList)

/-- The query string of key/value pairs. -/
def queryString (P : PlainSet) (pairs : List (String × String)) : String :=
  String.ofList (encodePairs P (pairs.map fun p => (p.1.toList, p.2.toList)))

def bytewise (s : String) : String := String.ofList (latin1 (utf8 s))

/-- The query that an echoed body carries. -/
def reflectedQuery (reply : ReplySpec) : Option Map :=
  match reply.body with
  | .literal v => ((v.get? "i").bind fun inner => inner.get? "q").bind Value.asObject
  | _ => none

private theorem hexByte_hexDigit : ∀ h < 16, ∀ l < 16,
    hexByte (hexDigit h) (hexDigit l) = [Char.ofNat (h * 16 + l)] := by
  decide

private theorem urldecodeBytes_plus (rest : List UInt8) :
    urldecodeBytes (0x2B :: rest) = ' ' :: urldecodeBytes rest := by
  rcases rest with _ | ⟨hi, _ | ⟨lo, rest⟩⟩ <;> simp [urldecodeBytes]

private theorem urldecodeBytes_char {b : UInt8} (rest : List UInt8) (hplus : b ≠ 0x2B)
    (hpercent : b ≠ 0x25) :
    urldecodeBytes (b :: rest) = Char.ofNat b.toNat :: urldecodeBytes rest := by
  rcases rest with _ | ⟨hi, _ | ⟨lo, rest⟩⟩ <;> simp [urldecodeBytes, hplus, hpercent]

private theorem urldecodeBytes_percent (hi lo : UInt8) (rest : List UInt8) :
    urldecodeBytes (0x25 :: hi :: lo :: rest) = hexByte hi lo ++ urldecodeBytes rest := by
  simp [urldecodeBytes]

private theorem urldecodeBytes_encodeByte (P : PlainSet) (b : UInt8) (rest : List UInt8) :
    urldecodeBytes (encodeByte P b ++ rest) = Char.ofNat b.toNat :: urldecodeBytes rest := by
  rw [encodeByte]
  split_ifs with hspace hplain
  · subst hspace
    exact urldecodeBytes_plus rest
  · obtain ⟨_, hplus, hpercent, _, _⟩ := P.reserved b hplain
    exact urldecodeBytes_char rest hplus hpercent
  · have hb : b.toNat < 256 := b.toNat_lt
    have hbyte := hexByte_hexDigit (b.toNat / 16) (by omega) (b.toNat % 16) (by omega)
    have hsum : b.toNat / 16 * 16 + b.toNat % 16 = b.toNat := by omega
    rw [List.cons_append, List.cons_append, List.singleton_append, urldecodeBytes_percent, hbyte,
      hsum, List.singleton_append]

private theorem urldecodeBytes_encode (P : PlainSet) (bytes : List UInt8) :
    urldecodeBytes (encode P bytes) = latin1 bytes := by
  induction bytes with
  | nil => rfl
  | cons b bytes ih =>
    rw [encode, List.flatMap_cons, urldecodeBytes_encodeByte, ← encode, ih]
    rfl

private theorem urldecode_urlencode (P : PlainSet) (s : String) :
    urldecode (urlencode P s) = bytewise s := by
  rw [urldecode, urlencode, utf8_eq_flatMap, String.toList_ofList, utf8_encodeText,
    urldecodeBytes_encode, bytewise, utf8_eq_flatMap]

private theorem bytewise_eq_iff {s : String} : bytewise s = s ↔ IsAscii s.toList := by
  rw [bytewise, utf8_eq_flatMap, ← String.toList_inj, String.toList_ofList, latin1_utf8_eq_iff]

private theorem bytewise_injective : Function.Injective bytewise := by
  intro s t h
  have hbytes : utf8 s = utf8 t := latin1_injective (String.ofList_injective h)
  have harray := Array.toList_inj.mp hbytes
  exact String.toByteArray_inj.mp (ByteArray.ext harray)

private theorem length_le_length_bytewise (s : String) : s.length ≤ (bytewise s).length := by
  rw [bytewise, String.length_ofList, length_latin1, utf8_eq_flatMap, ← String.length_toList]
  exact length_le_length_utf8 s.toList

private theorem isAscii_of_length_bytewise {s : String} (h : (bytewise s).length ≤ s.length) :
    IsAscii s.toList := by
  rw [bytewise, String.length_ofList, length_latin1, utf8_eq_flatMap, ← String.length_toList] at h
  exact isAscii_of_length h

private theorem queryMap_queryString (P : PlainSet) (pairs : List (String × String)) :
    queryMap (queryString P pairs) =
      IndexMap.fromPairs (pairs.map fun p => (bytewise p.1, Value.string (bytewise p.2))) := by
  cases pairs with
  | nil => rfl
  | cons p rest =>
    have hne : ¬ queryString P (p :: rest) = "" := by
      rw [queryString, ← String.toList_inj, String.toList_ofList]
      exact fun h => by simpa using encodePairs_eq_nil.mp h
    rw [queryMap, if_neg hne, queryString, String.toList_ofList,
      splitOn_encodePairs P (by simp), List.map_map, List.foldl_map, IndexMap.fromPairs,
      List.foldl_map]
    refine List.foldl_ext _ _ _ fun m q _ => ?_
    rw [Function.comp_apply, splitOnce_char _ (eq_not_mem_encodeText P q.1.toList)]
    rw [← urldecode_urlencode P q.1, ← urldecode_urlencode P q.2]
    rfl

private theorem get?_q_reflectFields (x : External) (req : Request) (fields : List ReflectField)
    (inner : Map) : (fields.foldl (reflectField x req) inner).get? "q" =
      if .query ∈ fields then some (.object (queryMap req.query)) else inner.get? "q" := by
  induction fields generalizing inner with
  | nil => rfl
  | cons field fields ih =>
    rw [List.foldl_cons, ih]
    cases field with
    | query => simp [reflectField]
    | method | headers | url | body => simp [reflectField, IndexMap.get?_insert]

private theorem reflectedQuery_resolveReflect (x : External) {reply : ReplySpec} (req : Request)
    {fields : List ReflectField} (hbody : reply.body = .reflect fields)
    (hquery : .query ∈ fields) :
    reflectedQuery (resolveReflect x reply req) = some (queryMap req.query) := by
  rw [resolveReflect, hbody]
  simp [reflectedQuery, Value.get?, get?_q_reflectFields, hquery, Value.asObject]

/-- Whether a decoded query holds exactly the given pairs. -/
def HoldsPairs (query : Map) (pairs : List (String × String)) : Prop :=
  ∀ (k : String) (value : Value),
    query.get? k = some value ↔ ∃ v, value = .string v ∧ (k, v) ∈ pairs

def readPair (p : String × String) : String × String := (bytewise p.1, bytewise p.2)

private theorem nodup_readPair_keys {pairs : List (String × String)}
    (hnodup : (pairs.map Prod.fst).Nodup) : ((pairs.map readPair).map Prod.fst).Nodup := by
  rw [List.map_map, show Prod.fst ∘ readPair = bytewise ∘ Prod.fst from rfl, ← List.map_map]
  exact hnodup.map bytewise_injective

private theorem holdsPairs_readPair (P : PlainSet) {pairs : List (String × String)}
    (hnodup : (pairs.map Prod.fst).Nodup) :
    HoldsPairs (queryMap (queryString P pairs)) (pairs.map readPair) := by
  have hkeys : ((pairs.map fun p => (bytewise p.1, Value.string (bytewise p.2))).map
      Prod.fst).Nodup := by
    have hread := nodup_readPair_keys hnodup
    rw [List.map_map] at hread ⊢
    exact hread
  intro k value
  rw [queryMap_queryString, IndexMap.get?_fromPairs_of_nodup hkeys]
  simp only [List.mem_map, Prod.mk.injEq, readPair]
  constructor
  · rintro ⟨p, hp, rfl, rfl⟩
    exact ⟨_, rfl, p, hp, rfl, rfl⟩
  · rintro ⟨_, rfl, p, hp, rfl, rfl⟩
    exact ⟨p, hp, rfl, rfl⟩

private theorem readPair_eq_iff {p : String × String} :
    readPair p = p ↔ IsAscii p.1.toList ∧ IsAscii p.2.toList := by
  rw [readPair, Prod.ext_iff, bytewise_eq_iff, bytewise_eq_iff]

private theorem isAscii_of_readPair_perm {pairs : List (String × String)}
    (hperm : (pairs.map readPair).Perm pairs) :
    ∀ p ∈ pairs, IsAscii p.1.toList ∧ IsAscii p.2.toList := by
  let size : String × String → ℕ := fun p => p.1.length + p.2.length
  have hsum : (pairs.map (size ∘ readPair)).sum = (pairs.map size).sum := by
    rw [← List.map_map]
    exact (hperm.map size).sum_eq
  have hgrow : ∀ p ∈ pairs, size p ≤ (size ∘ readPair) p := fun p _ =>
    Nat.add_le_add (length_le_length_bytewise p.1) (length_le_length_bytewise p.2)
  intro p hp
  have hsize : (size ∘ readPair) p ≤ size p := by
    by_contra hlt
    have hstrict := List.sum_lt_sum size (size ∘ readPair) hgrow ⟨p, hp, not_le.mp hlt⟩
    omega
  have hkey := length_le_length_bytewise p.1
  have hvalue := length_le_length_bytewise p.2
  simp only [Function.comp_apply, size, readPair] at hsize
  exact ⟨isAscii_of_length_bytewise (by omega), isAscii_of_length_bytewise (by omega)⟩

private theorem holdsPairs_iff (P : PlainSet) {pairs : List (String × String)}
    (hnodup : (pairs.map Prod.fst).Nodup) :
    HoldsPairs (queryMap (queryString P pairs)) pairs ↔
      ∀ p ∈ pairs, IsAscii p.1.toList ∧ IsAscii p.2.toList := by
  have hread := holdsPairs_readPair P hnodup
  constructor
  · intro hholds
    have hmem : ∀ p, p ∈ pairs.map readPair ↔ p ∈ pairs := by
      intro p
      have hsame := (hread p.1 (.string p.2)).symm.trans (hholds p.1 (.string p.2))
      simpa using hsame
    exact isAscii_of_readPair_perm ((List.perm_ext_iff_of_nodup
      (nodup_readPair_keys hnodup).of_map hnodup.of_map).mpr hmem)
  · intro hascii
    have hsame : pairs.map readPair = pairs.map id :=
      List.map_congr_left fun p hp => readPair_eq_iff.mpr (hascii p hp)
    rw [hsame, List.map_id] at hread
    exact hread

/-- Decoding undoes the form encoding of a text exactly when it is ASCII, and an echoed query
gives the encoded pairs back exactly when all keys and values are. -/
theorem query_reflection_iff_ascii (P : PlainSet) :
    (∀ s, urldecode (urlencode P s) = s ↔ IsAscii s.toList) ∧
    ∀ pairs : List (String × String), (pairs.map Prod.fst).Nodup →
      ∀ (x : External) (reply : ReplySpec) (req : Request) (fields : List ReflectField),
        reply.body = .reflect fields → .query ∈ fields → req.query = queryString P pairs →
        ∃ query, reflectedQuery (resolveReflect x reply req) = some query ∧
          (HoldsPairs query pairs ↔ ∀ p ∈ pairs, IsAscii p.1.toList ∧ IsAscii p.2.toList) := by
  constructor
  · intro s
    rw [urldecode_urlencode, bytewise_eq_iff]
  · intro pairs hnodup x reply req fields hbody hquery hreq
    refine ⟨queryMap req.query, reflectedQuery_resolveReflect x req hbody hquery, ?_⟩
    rw [hreq]
    exact holdsPairs_iff P hnodup

theorem query_reflection_iff_ascii_pairs (x : External) :
    ∃ query, reflectedQuery (resolveReflect x { body := .reflect [.url, .query] }
        { (default : Request) with
          query := queryString unreserved [("key", "hello world"), ("x", "a&b"), ("y", "")] }) =
      some query ∧
      (HoldsPairs query [("key", "hello world"), ("x", "a&b"), ("y", "")] ↔
        ∀ p ∈ [("key", "hello world"), ("x", "a&b"), ("y", "")],
          IsAscii p.1.toList ∧ IsAscii p.2.toList) :=
  (query_reflection_iff_ascii unreserved).2 _ (by decide) x _ _ [.url, .query] rfl (by decide) rfl

/-- A letter outside ASCII comes back as its two bytes. -/
theorem urldecode_two_bytes :
    urldecode (urlencode unreserved "\u00e9") = "\u00c3\u00a9" ∧
      urldecode (urlencode unreserved "\u00e9") ≠ "\u00e9" := by
  decide

end Mockinx
