import Mockinx.Server.Handler

/-!
How a request path selects the resource or one of its items. The router takes the last of the
path's own segments for the id; relative to the base of the rule the id may be another segment or
none. The two agree exactly under a condition on the base, the path and the method.
-/

set_option autoImplicit false
set_option relaxedAutoImplicit false

namespace Mockinx

open Lib Lib.Text

private theorem length_splitOn_of_mem {t : List Char} {c : Char} (h : c ∈ t) :
    2 ≤ (t.splitOn c).length := by
  obtain ⟨a, b, rfl⟩ := List.append_of_mem h
  rw [List.splitOn_append_cons_self, List.length_append]
  have ha := List.length_pos_of_ne_nil (List.splitOn_ne_nil c a)
  have hb := List.length_pos_of_ne_nil (List.splitOn_ne_nil c b)
  omega

private theorem crudRequestId_eq_none {path : List Char} :
    crudRequestId path = none ↔ '/' ∉ trimMatches '/' path := by
  rw [crudRequestId]
  by_cases h : '/' ∈ trimMatches '/' path
  · simp [h, length_splitOn_of_mem h, List.splitOn_ne_nil]
  · simp [h, List.splitOn_eq_singleton h]

private theorem crudRequestId_of_last {path a id : List Char}
    (h : trimMatches '/' path = a ++ '/' :: id) (hid : '/' ∉ id) :
    crudRequestId path = some id := by
  have hmem : '/' ∈ trimMatches '/' path := by simp [h]
  have hlen := length_splitOn_of_mem hmem
  unfold crudRequestId
  dsimp only
  rw [if_pos hlen, h, List.splitOn_append_cons_self, List.splitOn_eq_singleton hid]
  simp

private theorem trimMatches_trimEnd (s : List Char) :
    trimMatches '/' (trimEndMatches '/' s) = trimMatches '/' s := by
  obtain ⟨n, hn⟩ := trimEndMatches_spec '/' s
  conv_rhs => rw [hn]
  simp only [trimMatches, trimStartMatches]
  rw [List.dropWhile_append]
  split_ifs with hempty
  · have hdrop : (List.replicate n '/').dropWhile (· == '/') = [] := by simp
    rw [hdrop, List.isEmpty_iff.mp hempty]
  · exact (trimEndMatches_append_of_all _ (by simp)).symm

private theorem trimEndMatches_append_segment {a id : List Char} (hne : id ≠ []) (hid : '/' ∉ id) :
    trimEndMatches '/' (a ++ id) = a ++ id := by
  obtain ⟨init, c, rfl⟩ := List.eq_nil_or_concat id |>.resolve_left hne
  have hc : c ≠ '/' := by
    rintro rfl
    simp at hid
  simpa using trimEndMatches_append_of_ne a init hc

private theorem trimEndMatches_append_trimmed {a s : List Char} (h : trimEndMatches '/' s ≠ []) :
    trimEndMatches '/' (a ++ trimEndMatches '/' s) = a ++ trimEndMatches '/' s := by
  have hlast := List.rdropWhile_last_not (· == '/') s h
  obtain ⟨init, c, hc⟩ := List.eq_nil_or_concat (trimEndMatches '/' s) |>.resolve_left h
  have hne : c ≠ '/' := by
    simp only [trimEndMatches] at hc
    simpa [hc] using hlast
  rw [hc]
  simpa using trimEndMatches_append_of_ne a init hne

private theorem extractId_eq_some {base path id : List Char} :
    extractId base path = some id ↔
      trimEndMatches '/' path = trimEndMatches '/' base ++ '/' :: id ∧ id ≠ [] ∧ '/' ∉ id := by
  unfold extractId
  dsimp only
  split_ifs with heq
  · simp [heq]
  · simp only [Option.bind_eq_some_iff, stripPrefix_eq_some]
    constructor
    · rintro ⟨rest, hrest, seg, rfl, h⟩
      split_ifs at h with hbad
      obtain rfl := Option.some.inj h
      exact ⟨hrest, not_or.mp hbad⟩
    · rintro ⟨hpath, hid⟩
      exact ⟨'/' :: id, hpath, id, rfl, if_neg (not_or.mpr hid)⟩

private theorem trimEndMatches_of_trimMatches {base : List Char} (h : trimMatches '/' base = []) :
    trimEndMatches '/' base = [] := by
  have hall : ∀ c ∈ base.dropWhile (· == '/'), (c == '/') = true :=
    List.rdropWhile_eq_nil_iff.mp h
  have hnil : base.dropWhile (· == '/') = [] := by
    by_contra hne
    have hhead := List.head_dropWhile_not (· == '/') hne
    simp [hall _ (List.head_mem hne)] at hhead
  exact List.rdropWhile_eq_nil_iff.mpr (List.dropWhile_eq_nil_iff.mp hnil)

private theorem crudRequestId_item {base path id : List Char} (hbase : trimMatches '/' base ≠ [])
    (h : extractId base path = some id) : crudRequestId path = some id := by
  obtain ⟨hpath, hne, hid⟩ := extractId_eq_some.mp h
  have hb : (trimEndMatches '/' base).dropWhile (· == '/') ≠ [] := by
    intro hempty
    refine hbase ?_
    rw [← trimMatches_trimEnd, trimMatches, trimStartMatches, hempty]
    rfl
  refine crudRequestId_of_last (a := (trimEndMatches '/' base).dropWhile (· == '/')) ?_ hid
  rw [← trimMatches_trimEnd, hpath, trimMatches, trimStartMatches, List.dropWhile_append,
    if_neg (by simpa using hb)]
  have hseg := trimEndMatches_append_segment (a := (trimEndMatches '/' base).dropWhile (· == '/') ++
    ['/']) hne hid
  simpa using hseg

private theorem crudRequestId_root {base path id : List Char} (hbase : trimMatches '/' base = [])
    (h : extractId base path = some id) : crudRequestId path = none := by
  obtain ⟨hpath, hne, hid⟩ := extractId_eq_some.mp h
  rw [crudRequestId_eq_none, ← trimMatches_trimEnd, hpath, trimEndMatches_of_trimMatches hbase]
  have hdrop : ('/' :: id).dropWhile (· == '/') = id := by
    cases id with
    | nil => exact absurd rfl hne
    | cons c id =>
      have hc : c ≠ '/' := by
        rintro rfl
        simp at hid
      simp [hc]
  have hseg := trimEndMatches_append_segment (a := []) hne hid
  rw [List.nil_append, trimMatches, trimStartMatches, hdrop]
  rw [List.nil_append] at hseg
  rwa [hseg]

def crudMethods : List String := ["GET", "POST", "PUT", "PATCH", "DELETE"]

private theorem method_cases (m : String) :
    m = "GET" ∨ m = "POST" ∨ m = "PUT" ∨ m = "PATCH" ∨ m = "DELETE" ∨ m ∉ crudMethods := by
  simp only [crudMethods, List.mem_cons, List.not_mem_nil, or_false]
  tauto

private theorem crudOp_none_eq_some_iff {method id uuid : String} {body : Value} :
    crudOp method none uuid body = crudOp method (some id) uuid body ↔
      toAsciiUppercase method ∉ crudMethods := by
  simp only [crudOp]
  generalize toAsciiUppercase method = m
  rcases method_cases m with rfl | rfl | rfl | rfl | rfl | hm
  · simp [crudMethods]
  · simp [crudMethods]
  · simp [crudMethods]
  · simp [crudMethods]
  · simp [crudMethods]
  · simp_all [crudMethods]

private theorem crudOp_none_refused_iff {method uuid : String} {body : Value} :
    crudOp method none uuid body = .methodNotAllowed ↔
      toAsciiUppercase method ∉ ["GET", "POST"] := by
  simp only [crudOp]
  generalize toAsciiUppercase method = m
  rcases method_cases m with rfl | rfl | rfl | rfl | rfl | hm
  · simp
  · simp
  · simp
  · simp
  · simp
  · simp_all [crudMethods]

private theorem crudOp_some_refused_iff {method id uuid : String} {body : Value} :
    crudOp method (some id) uuid body = .methodNotAllowed ↔
      toAsciiUppercase method ∉ ["GET", "PUT", "PATCH", "DELETE"] := by
  simp only [crudOp]
  generalize toAsciiUppercase method = m
  rcases method_cases m with rfl | rfl | rfl | rfl | rfl | hm
  · simp
  · simp
  · simp
  · simp
  · simp
  · simp_all [crudMethods]

/-- A path with more than one segment below the base. -/
def BelowItem (base path : List Char) : Prop :=
  ∃ rest, trimEndMatches '/' path = trimEndMatches '/' base ++ '/' :: rest ∧ '/' ∈ rest

private theorem trimEnd_normalizePath (path : List Char) :
    trimEndMatches '/' (normalizePath path) = trimEndMatches '/' path := by
  rw [normalizePath, stripSuffix]
  split_ifs with h
  · obtain ⟨t, rfl⟩ := h
    have hslash := trimEndMatches_append_of_all (c := '/') t (t := ['/']) (by simp)
    simpa using hslash.symm
  · rfl

private theorem path_cases {base path : List Char} (h : pathMatches base path = true) :
    trimEndMatches '/' path = trimEndMatches '/' base ∨ (∃ id, extractId base path = some id) ∨
      BelowItem base path := by
  rw [← trimEnd_normalizePath path, ← trimEnd_normalizePath base]
  simp only [pathMatches, Bool.or_eq_true, beq_iff_eq, Bool.and_eq_true,
    List.isPrefixOf_iff_prefix] at h
  rcases h with heq | ⟨⟨rest, hrest⟩, hslash⟩
  · exact Or.inl (by rw [heq])
  rw [← hrest, List.drop_left, List.head?_eq_some_iff] at hslash
  obtain ⟨tail, rfl⟩ := hslash
  obtain ⟨n, hn⟩ := trimEndMatches_spec '/' (normalizePath base)
  obtain ⟨k, hk⟩ := trimEndMatches_spec '/' tail
  by_cases htail : trimEndMatches '/' tail = []
  · left
    rw [htail, List.nil_append] at hk
    rw [← hrest, hk]
    exact trimEndMatches_append_of_all _ (by simp [← List.replicate_succ])
  right
  -- what follows the trimmed base: the slashes left on the base, a slash, and the trimmed tail
  have hpath : trimEndMatches '/' (normalizePath path) =
      trimEndMatches '/' (normalizePath base) ++
        (List.replicate n '/' ++ '/' :: trimEndMatches '/' tail) := by
    calc trimEndMatches '/' (normalizePath path)
        = trimEndMatches '/' (normalizePath base ++ '/' :: trimEndMatches '/' tail ++
            List.replicate k '/') := by
          rw [← hrest, List.append_assoc, List.cons_append, ← hk]
      _ = trimEndMatches '/' (normalizePath base ++ ['/'] ++ trimEndMatches '/' tail) := by
          rw [trimEndMatches_append_of_all _ (by simp)]
          simp
      _ = normalizePath base ++ ['/'] ++ trimEndMatches '/' tail :=
          trimEndMatches_append_trimmed htail
      _ = _ := by
          conv_lhs => rw [hn]
          simp
  rw [trimEnd_normalizePath, trimEnd_normalizePath] at hpath
  cases n with
  | zero =>
    rw [List.replicate_zero, List.nil_append] at hpath
    by_cases hmem : '/' ∈ trimEndMatches '/' tail
    · exact Or.inr ⟨_, hpath, hmem⟩
    · exact Or.inl ⟨_, extractId_eq_some.mpr ⟨hpath, htail, hmem⟩⟩
  | succ n =>
    rw [List.replicate_succ, List.cons_append] at hpath
    exact Or.inr ⟨_, hpath, by simp⟩

/-- Whether a request to a resource with this base is routed by its path below the base: to the
resource at the base, to exactly the item whose id is extracted, and to nothing below an item. -/
def RoutesByBase (x : External) (base : String) (req : Request) (uuid : String) : Prop :=
  let body := crudRequestBody x req.body
  (trimEndMatches '/' req.path.toList = trimEndMatches '/' base.toList →
    crudRequestOp x req uuid = crudOp req.method none uuid body) ∧
  (∀ id, extractId base.toList req.path.toList = some id →
    crudRequestOp x req uuid = crudOp req.method (some (String.ofList id)) uuid body) ∧
  (BelowItem base.toList req.path.toList → crudRequestOp x req uuid = .methodNotAllowed)

/-- The condition: at the base, that the base is one segment or the root; at an item, that the base
is not the root; in both cases also any method that no operation answers. Below an item, that no
operation answers the method for the number of segments that the path has in all. -/
def BaseFits (base : String) (req : Request) : Prop :=
  let method := toAsciiUppercase req.method
  (trimEndMatches '/' req.path.toList = trimEndMatches '/' base.toList →
    '/' ∉ trimMatches '/' base.toList ∨ method ∉ crudMethods) ∧
  (∀ id, extractId base.toList req.path.toList = some id →
    trimMatches '/' base.toList ≠ [] ∨ method ∉ crudMethods) ∧
  (BelowItem base.toList req.path.toList →
    if '/' ∈ trimMatches '/' req.path.toList then method ∉ ["GET", "PUT", "PATCH", "DELETE"]
    else method ∉ ["GET", "POST"])

private theorem crudRequestOp_of_id {x : External} {req : Request} {uuid : String}
    {id : Option (List Char)} (h : crudRequestId req.path.toList = id) :
    crudRequestOp x req uuid =
      crudOp req.method (id.map String.ofList) uuid (crudRequestBody x req.body) := by
  rw [crudRequestOp, h]

private theorem routes_at_base_iff {x : External} {base : String} {req : Request} {uuid : String}
    (h : trimEndMatches '/' req.path.toList = trimEndMatches '/' base.toList) :
    crudRequestOp x req uuid = crudOp req.method none uuid (crudRequestBody x req.body) ↔
      '/' ∉ trimMatches '/' base.toList ∨ toAsciiUppercase req.method ∉ crudMethods := by
  have htrim : trimMatches '/' req.path.toList = trimMatches '/' base.toList := by
    rw [← trimMatches_trimEnd, h, trimMatches_trimEnd]
  rw [← htrim, ← crudRequestId_eq_none]
  cases hid : crudRequestId req.path.toList with
  | none => simp [crudRequestOp_of_id hid]
  | some id =>
    rw [crudRequestOp_of_id hid, Option.map_some, eq_comm, crudOp_none_eq_some_iff]
    simp

private theorem routes_at_item_iff {x : External} {base : String} {req : Request} {uuid : String}
    {id : List Char} (h : extractId base.toList req.path.toList = some id) :
    crudRequestOp x req uuid =
        crudOp req.method (some (String.ofList id)) uuid (crudRequestBody x req.body) ↔
      trimMatches '/' base.toList ≠ [] ∨ toAsciiUppercase req.method ∉ crudMethods := by
  by_cases hroot : trimMatches '/' base.toList = []
  · rw [crudRequestOp_of_id (crudRequestId_root hroot h), Option.map_none,
      crudOp_none_eq_some_iff]
    simp [hroot]
  · simp [crudRequestOp_of_id (crudRequestId_item hroot h), hroot]

private theorem routes_below_item_iff {x : External} {req : Request} {uuid : String} :
    crudRequestOp x req uuid = .methodNotAllowed ↔
      if '/' ∈ trimMatches '/' req.path.toList then
        toAsciiUppercase req.method ∉ ["GET", "PUT", "PATCH", "DELETE"]
      else toAsciiUppercase req.method ∉ ["GET", "POST"] := by
  cases hid : crudRequestId req.path.toList with
  | none =>
    rw [crudRequestOp_of_id hid, if_neg (crudRequestId_eq_none.mp hid), Option.map_none,
      crudOp_none_refused_iff]
  | some id =>
    have hmem : '/' ∈ trimMatches '/' req.path.toList := by
      by_contra hmem
      simp [crudRequestId_eq_none.mpr hmem] at hid
    rw [crudRequestOp_of_id hid, if_pos hmem, Option.map_some, crudOp_some_refused_iff]

/-- A request that a rule matches is at its base, at an item or below one, and it is routed by its
path below the base exactly when the base, the path and the method meet the condition. -/
theorem crud_routing_iff (x : External) (ruleMethod : Option String) (base : String)
    (req : Request) (uuid : String)
    (h : (MatchRule.methodPath ruleMethod base).matches req.method req.path = true) :
    (trimEndMatches '/' req.path.toList = trimEndMatches '/' base.toList ∨
        (∃ id, extractId base.toList req.path.toList = some id) ∨
        BelowItem base.toList req.path.toList) ∧
      (RoutesByBase x base req uuid ↔ BaseFits base req) := by
  constructor
  · simp only [MatchRule.matches, Bool.and_eq_true] at h
    exact path_cases h.2
  · rw [RoutesByBase, BaseFits]
    refine and_congr ?_ (and_congr ?_ ?_)
    · exact forall_congr' fun hbase => routes_at_base_iff hbase
    · exact forall_congr' fun id => forall_congr' fun hid => routes_at_item_iff hid
    · exact forall_congr' fun _ => routes_below_item_iff

theorem crud_routing_of_one_segment :
    RoutesByBase default "/toys" ⟨"GET", "/toys/3", "", [], []⟩ "" := by
  refine (crud_routing_iff default none "/toys" _ "" (by decide)).2.mpr ⟨?_, ?_, ?_⟩
  · exact fun _ => Or.inl (by decide)
  · exact fun _ _ => Or.inl (by decide)
  · rintro ⟨rest, hrest, hslash⟩
    have hp : trimEndMatches '/' "/toys/3".toList =
        trimEndMatches '/' "/toys".toList ++ '/' :: "3".toList := by decide
    obtain rfl := List.cons.inj (List.append_cancel_left (hp.symm.trans hrest)) |>.2
    exact absurd hslash (by decide)

/-- A list of the resource at a base of two segments is taken for a read of one item. -/
theorem long_base_read_as_item :
    (MatchRule.methodPath none "/api/toys").matches "GET" "/api/toys" = true ∧
      ¬ RoutesByBase default "/api/toys" ⟨"GET", "/api/toys", "", [], []⟩ "" := by
  refine ⟨by decide, fun h => ?_⟩
  have hlist := h.1 (by decide)
  cases hlist

end Mockinx
