import Libjadx.Lib.Locked
import Libjadx.Proof.Catalog
import Libjadx.Proof.SearchPages

/-!
# What a cursor is bound to

A query is hashed as one text, its options in a row with NUL between them, through UTF-8.
`getBytes_cut` takes such texts apart. So a cursor that is taken was made with the same options, but
for texts that UTF-8 does not tell apart: those that differ in lone surrogates
(`cursors_bound_iff`).
-/

namespace Libjadx

/-! ## Texts in a row -/

section Texts

variable {a b s t : JString}

/-- What stands before the first separator, and after it. -/
theorem cut_unique {α : Type} {x : α} {a b s t : List α} (ha : x ∉ a) (hb : x ∉ b)
    (h : a ++ x :: s = b ++ x :: t) :
    a = b ∧ s = t := by
  induction a generalizing b with
  | nil =>
    cases b with
    | nil => exact ⟨rfl, (List.cons.inj h).2⟩
    | cons y b => exact absurd ((List.cons.inj h).1 ▸ List.mem_cons_self) hb
  | cons y a ih =>
    cases b with
    | nil => exact absurd ((List.cons.inj h).1 ▸ List.mem_cons_self) ha
    | cons z b =>
      obtain ⟨rfl, htail⟩ := List.cons.inj h
      obtain ⟨rfl, hrest⟩ := ih (fun hx => ha (List.mem_cons_of_mem _ hx)) (fun hx =>
        hb (List.mem_cons_of_mem _ hx)) htail
      exact ⟨rfl, hrest⟩

/-- Two texts have the same bytes where they have the same code points. -/
theorem getBytes_eq_iff : getBytes a = getBytes b ↔ codePoints a = codePoints b :=
  ⟨fun h => Utf8.encode_injective (codePoints_scalar a) (codePoints_scalar b) h, fun h =>
    congrArg Utf8.encode h⟩

theorem zero_notMem_codePoints (ha : 0 ∉ a) : 0 ∉ codePoints a := by
  intro hin
  rcases mem_codePoints hin with h | h | ⟨c, hc, h⟩
  · omega
  · omega
  · have hzero : c = 0 := UInt16.toNat_inj.1 h.symm
    exact ha (hzero ▸ hc)

/-- **The texts before a NUL and after it are told apart.** -/
theorem getBytes_cut (ha : 0 ∉ a) (hb : 0 ∉ b) :
    getBytes (a ++ 0 :: s) = getBytes (b ++ 0 :: t) ↔ getBytes a = getBytes b ∧
      getBytes s = getBytes t := by
  have hsplit : ∀ x y : JString, codePoints (x ++ 0 :: y) = codePoints x ++ 0 :: codePoints y := by
    intro x y
    rw [codePoints_plain x (by decide) y, (codePoints_cons 0 (by decide) y).1]
    rfl
  rw [getBytes_eq_iff, getBytes_eq_iff, getBytes_eq_iff, hsplit, hsplit]
  constructor
  · exact cut_unique (zero_notMem_codePoints ha) (zero_notMem_codePoints hb)
  · rintro ⟨hfront, hrest⟩
    rw [hfront, hrest]

/-- Plain texts are told apart by their bytes. -/
theorem Plain.getBytes_iff (ha : Plain a) (hb : Plain b) : getBytes a = getBytes b ↔ a = b :=
  ⟨getBytes_injective ha.paired hb.paired, congrArg getBytes⟩

/-- Of a text, something is written. -/
theorem getBytes_eq_nil : getBytes a = [] ↔ a = [] := by
  constructor
  · intro h
    have hsame : codePoints a = codePoints [] := getBytes_eq_iff.1 h
    have hpoints : codePoints a = [] := hsame
    rcases a with - | ⟨c, - | ⟨d, a⟩⟩
    · rfl
    · rw [codePoints] at hpoints
      split at hpoints <;> cases hpoints
    · rw [codePoints] at hpoints
      split at hpoints
      · cases hpoints
      · split at hpoints <;> cases hpoints
  · rintro rfl
    rfl

theorem plain_flag (b : Bool) : Plain (flag b) := by
  cases b <;> exact forall_of_all (by decide)

theorem flag_injective {x y : Bool} (h : flag x = flag y) : x = y := by
  revert h
  cases x <;> cases y <;> decide

/-- The digest of texts that SHA-256 does not confuse. -/
theorem digest_iff (platform : Platform)
    (h : platform.sha256 (getBytes a) = platform.sha256 (getBytes b) →
    getBytes a = getBytes b) :
    encodeToString (platform.sha256 (getBytes a)) = encodeToString (platform.sha256 (getBytes b)) ↔
      getBytes a = getBytes b := by
  refine ⟨fun heq => h ?_, fun heq => by rw [heq]⟩
  have hraw := congrArg decodeUrl heq
  rw [decodeUrl_encodeToString, decodeUrl_encodeToString] at hraw
  exact Option.some.inj hraw

/-- The text between the brackets. -/
def joined (l : List JString) : JString := (l.intersperse (str ", ")).flatten

/-- One element has no separator. -/
theorem joined_single (x : JString) : joined [x] = x := List.append_nil x

/-- The separator stands between the first element and the others. -/
theorem joined_cons (x y : JString) (l : List JString) :
    joined (x :: y :: l) = x ++ chr ',' :: chr ' ' :: joined (y :: l) := rfl

/-- The texts of a list can be told from its text, where none is empty or holds a comma. -/
theorem joined_injective {l m : List JString} (hl : ∀ x ∈ l, x ≠ [] ∧ chr ',' ∉ x)
    (hm : ∀ x ∈ m, x ≠ [] ∧ chr ',' ∉ x)
    (h : joined l = joined m) : l = m := by
  induction l generalizing m with
  | nil =>
    rcases m with - | ⟨y, - | ⟨z, m⟩⟩
    · rfl
    · rw [joined_single] at h
      exact absurd h.symm (hm y List.mem_cons_self).1
    · rw [joined_cons] at h
      exact absurd (List.append_eq_nil_iff.1 h.symm).2 (by simp)
  | cons x l ih =>
    obtain ⟨hx, hxc⟩ := hl x List.mem_cons_self
    rcases l with - | ⟨x', l⟩ <;> rcases m with - | ⟨y, - | ⟨y', m⟩⟩
    · rw [joined_single] at h
      exact absurd h hx
    · rw [joined_single, joined_single] at h
      rw [h]
    · rw [joined_single, joined_cons] at h
      exact absurd (h ▸ by simp) hxc
    · rw [joined_cons] at h
      exact absurd (List.append_eq_nil_iff.1 h).2 (by simp)
    · rw [joined_single, joined_cons] at h
      exact absurd (h ▸ by simp) (hm y List.mem_cons_self).2
    · rw [joined_cons, joined_cons] at h
      obtain ⟨rfl, hrest⟩ := cut_unique hxc (hm y List.mem_cons_self).2 h
      have htail := ih (fun z hz => hl z (List.mem_cons_of_mem _ hz)) (fun z hz =>
        hm z (List.mem_cons_of_mem _ hz))
        (List.cons.inj hrest).2
      rw [htail]

/-- **The text of a list is read back** where no element has a comma or is empty. -/
theorem listText_injective {l m : List JString} (hl : ∀ x ∈ l, x ≠ [] ∧ chr ',' ∉ x)
    (hm : ∀ x ∈ m, x ≠ [] ∧ chr ',' ∉ x)
    (h : listText l = listText m) : l = m := by
  unfold listText at h
  rw [List.cons_append, List.cons_append] at h
  exact joined_injective hl hm (List.append_cancel_right (List.cons.inj h).2)

theorem plain_listText {l : List JString} (h : ∀ x ∈ l, Plain x) : Plain (listText l) := by
  have hjoined : Plain (joined l) := by
    induction l with
    | nil => exact nofun
    | cons x l ih =>
      have hx := h x List.mem_cons_self
      have hl := ih fun y hy => h y (List.mem_cons_of_mem _ hy)
      cases l with
      | nil => rwa [joined_single]
      | cons y l =>
        intro c hc
        rw [joined_cons, List.mem_append, List.mem_cons, List.mem_cons] at hc
        rcases hc with hc | rfl | rfl | hc
        · exact hx c hc
        · decide
        · decide
        · exact hl c hc
  intro c hc
  unfold listText at hc
  rw [List.cons_append, List.mem_cons, List.mem_append, List.mem_singleton] at hc
  rcases hc with rfl | hc | rfl
  · decide
  · exact hjoined c hc
  · decide

end Texts

/-! ## Searches -/

namespace SearchQuery

/-- The options that are not text. -/
structure SameOptions (a b : SearchQuery) : Prop where
  domains : a.domains.Perm b.domains
  matchMode : a.matchMode = b.matchMode
  caseSensitive : a.caseSensitive = b.caseSensitive
  pageSize : a.pageSize = b.pageSize
  strict : a.strict = b.strict
  requireComplete : a.requireComplete = b.requireComplete

/-- Two queries ask for the same. -/
def Agree (a b : SearchQuery) : Prop := a.query = b.query ∧ SameOptions a b

/-- Other texts, but of the same bytes. -/
def Confused (a b : SearchQuery) : Prop := a.query ≠ b.query ∧ getBytes a.query = getBytes b.query ∧
    SameOptions a b

end SearchQuery

namespace SearchService

section Searches

variable {platform : Platform} {a b first second : SearchQuery}

/-- The domains, in the order in which they are declared. -/
def sorted (domains : List Domain) : List Domain :=
  domains.mergeSort fun a b => a.ordinal ≤ b.ordinal

theorem ordinal_injective {d e : Domain} (h : d.ordinal = e.ordinal) : d = e := by
  revert h
  cases d <;> cases e <;> decide

/-- The order of the domains is forgotten, and nothing else. -/
theorem sorted_iff {l m : List Domain} : sorted l = sorted m ↔ l.Perm m := by
  have hperm : ∀ k : List Domain, (sorted k).Perm k := fun k => List.mergeSort_perm _ _
  have hsorted : ∀ k : List Domain, (sorted k).Pairwise fun a b => a.ordinal ≤ b.ordinal := by
    intro k
    have hk := @List.pairwise_mergeSort _ (fun a b : Domain => decide (a.ordinal ≤ b.ordinal))
      (fun a b c hab hbc => by simp at *; omega) (fun a b => by simp; omega) k
    exact hk.imp fun h => of_decide_eq_true h
  constructor
  · intro h
    exact (hperm l).symm.trans (h ▸ hperm m)
  · intro h
    refine List.Perm.eq_of_pairwise (fun d e _ _ hd he => ordinal_injective (by omega)) (hsorted l)
      (hsorted m) ?_
    exact (hperm l).trans (h.trans (hperm m).symm)

theorem name_domain (d : Domain) : Plain d.name ∧ d.name ≠ [] ∧ chr ',' ∉ d.name := by
  cases d <;> exact ⟨forall_of_all (by decide), by decide, by decide⟩

theorem name_injective {d e : Domain} (h : d.name = e.name) : d = e := by
  revert h
  cases d <;> cases e <;> decide

/-- The text of the domains tells them apart up to their order. -/
theorem domainsText_iff {l m : List Domain} :
    listText ((sorted l).map Domain.name) = listText ((sorted m).map Domain.name) ↔ l.Perm m := by
  have hnames : ∀ k : List Domain, ∀ x ∈ k.map Domain.name, x ≠ [] ∧ chr ',' ∉ x := by
    intro k x hx
    obtain ⟨d, -, rfl⟩ := List.mem_map.1 hx
    exact (name_domain d).2
  rw [← sorted_iff]
  refine ⟨fun h => ?_, fun h => by rw [h]⟩
  exact List.map_injective_iff.2 (fun _ _ => name_injective) (listText_injective (hnames _) (hnames _) h)

/-- The text of a mode tells it apart, also a missing one. -/
theorem modeText_iff {x y : Option MatchMode} :
    valueOf (x.map MatchMode.name) = valueOf (y.map MatchMode.name) ↔ x = y := by
  refine ⟨fun h => ?_, fun h => by rw [h]⟩
  revert h
  rcases x with - | x <;> rcases y with - | y
  · decide
  · cases y <;> decide
  · cases x <;> decide
  · cases x <;> cases y <;> decide

theorem plain_mode (x : Option MatchMode) : Plain (valueOf (x.map MatchMode.name)) := by
  rcases x with - | x
  · exact forall_of_all (by decide)
  · cases x <;> exact forall_of_all (by decide)

/-- **What the bytes of a query say**: its options, and the bytes of its text. -/
theorem normalized_iff : getBytes (normalized a) = getBytes (normalized b) ↔
    getBytes a.query = getBytes b.query ∧ SearchQuery.SameOptions a b := by
  have hquery : ∀ q : SearchQuery, 0 ∉ q.query := by
    intro q hin
    have hvalid := q.query_valid
    unfold SearchQuery.validQuery at hvalid
    simp [hin] at hvalid
  have hdomains : ∀ l : List Domain, Plain (listText ((sorted l).map Domain.name)) := by
    intro l
    refine plain_listText fun x hx => ?_
    obtain ⟨d, -, rfl⟩ := List.mem_map.1 hx
    exact (name_domain d).1
  have hcut : ∀ {x y : JString}, Plain x → Plain y → ∀ s t,
      (getBytes (x ++ 0 :: s) = getBytes (y ++ 0 :: t) ↔ x = y ∧ getBytes s = getBytes t) := by
    intro x y hx hy s t
    rw [getBytes_cut hx.no_nul hy.no_nul, hx.getBytes_iff hy]
  unfold normalized
  rw [getBytes_cut (hquery a) (hquery b)]
  refine and_congr_right fun _ => ?_
  have hrest := hcut (hdomains a.domains) (hdomains b.domains)
  unfold sorted at hrest
  rw [hrest, hcut (plain_mode _) (plain_mode _), hcut (plain_flag _) (plain_flag _),
    hcut (plain_decimal _) (plain_decimal _),
    hcut (plain_flag _) (plain_flag _), (plain_flag _).getBytes_iff (plain_flag _), modeText_iff]
  constructor
  · rintro ⟨hd, hm, hc, hp, hs, hr⟩
    exact ⟨domainsText_iff.1 hd, hm, flag_injective hc, Int.ofNat.inj (decimal_injective hp),
      flag_injective hs,
      flag_injective hr⟩
  · rintro ⟨hd, hm, hc, hp, hs, hr⟩
    exact ⟨domainsText_iff.2 hd, hm, by rw [hc], by rw [hp], by rw [hs], by rw [hr]⟩

/-- A cursor that a walk of the first query was given is taken with the second one. -/
def Accepted (platform : Platform) (first second : SearchQuery) : Prop :=
  ∃ (query : SearchQuery) (hits given : List Hit) (token : JString) (s t : Service) (r : Request)
    (p : SearchPage),
    query.Agree first ∧ Walked platform query hits s given (some token) ∧
      second.follow token = some r.query ∧
      Step platform s r t ∧ (answer platform r s.state).1 = .ok (.page p)

/-- Queries that ask for the same are hashed over the same bytes. -/
theorem normalized_agree (h : a.Agree b) : getBytes (normalized a) = getBytes (normalized b) :=
  normalized_iff.2 ⟨by rw [h.1], h.2⟩

/-- **A cursor that is taken has the hash of the query.** -/
theorem queryHash_of_accepted (h : Accepted platform first second) :
    queryHash platform first = queryHash platform second := by
  obtain ⟨query, hits, given, token, s, t, r, p, hagree, hwalked, hf, hstep, hanswer⟩ := h
  obtain ⟨snapshot, n, halong⟩ := along_of_walked hwalked
  obtain ⟨hpos, hlast, hauth⟩ := halong.authenticate
  obtain ⟨hhash, hcursor, -⟩ := queryHash_follow platform hf
  have hfirst : queryHash platform query = queryHash platform first := by
    unfold queryHash hash
    rw [normalized_agree hagree]
  obtain ⟨e, he, -⟩ | ⟨view, -, hview⟩ := answer_cursor (s := s) hcursor hauth
  · rw [he] at hanswer
    cases hanswer
  rw [hview] at hanswer
  obtain ⟨e, he, -⟩ | ⟨-, hquery⟩ :=
    pageFromCursor_spec platform halong.held hlast hpos halong.minted view r.now r.query
  · rw [he] at hanswer
    cases hanswer
  · rw [← hfirst, ← halong.queryHash, hquery, hhash]

/-- The first request with the options of a query. -/
def plainly (query : SearchQuery) : SearchQuery :=
  { query with cursor := none, expectedSessionId := none, expectedLogicalRevision := none,
               cursor_valid := SearchQuery.no_cursor, expected_valid := nothing_expected }

/-- **The same hash is enough**: some walk of the first query gets a cursor that is taken with the
second one. -/
theorem accepted_of_queryHash {ref : SymbolRef} {id : JString} (hid : isUuid id)
    (hsmall : hitBytes (oneHit ref) ≤ 40000)
    (h : queryHash platform first = queryHash platform second) :
    Accepted platform first second := by
  -- the index has the identity that the second query expects
  have hkey : second.expectedSessionId.isSome →
      second.expectedSessionId = some (second.expectedSessionId.getD []) ∧
        second.expectedLogicalRevision = some (second.expectedLogicalRevision.getD 0) := by
    intro hsome
    have hrevision : second.expectedLogicalRevision.isSome := by rw [← second.expected_valid.1, hsome]
    obtain ⟨session, hsession⟩ := Option.isSome_iff_exists.1 hsome
    obtain ⟨revision, hrevision⟩ := Option.isSome_iff_exists.1 hrevision
    rw [hsession, hrevision]
    exact ⟨rfl, rfl⟩
  obtain ⟨hits, s, t, token, r, p, -, hwalked, hf, hstep, hanswer⟩ :=
    @follow_searchOf platform (plainly first) second
    ⟨second.expectedSessionId.getD [], second.expectedLogicalRevision.getD 0, 0, []⟩ ref id hid rfl
      nofun hkey hsmall h
  exact ⟨plainly first, hits, _, token, s, t, r, p, ⟨rfl, .refl _, rfl, rfl, rfl, rfl, rfl⟩,
    hwalked, hf, hstep, hanswer⟩

end Searches

end SearchService

/-! ## Classes -/

namespace ClassQuery

/-- The options that are not text. -/
structure SameOptions (a b : ClassQuery) : Prop where
  pageSize : a.pageSize = b.pageSize
  nameDomain : a.nameDomain = b.nameDomain
  includeInner : a.includeInner = b.includeInner

/-- Two queries have the same texts. -/
def SameTexts (a b : ClassQuery) : Prop :=
  a.packagePrefix = b.packagePrefix ∧ a.nameContains = b.nameContains

/-- The texts have the same bytes. -/
def SameBytes (a b : ClassQuery) : Prop :=
  a.packagePrefix.map getBytes = b.packagePrefix.map getBytes ∧
    a.nameContains.map getBytes = b.nameContains.map getBytes

/-- Two queries ask for the same. -/
def Agree (a b : ClassQuery) : Prop := SameTexts a b ∧ SameOptions a b

/-- Other texts, but of the same bytes. -/
def Confused (a b : ClassQuery) : Prop := ¬SameTexts a b ∧ SameBytes a b ∧ SameOptions a b

end ClassQuery

namespace SymbolCatalog

section Classes

variable {platform : Platform} {a b first second : ClassQuery}

/-- A text that is not there is written as the empty one, and no filter is empty. -/
theorem getD_iff {x y : Option JString} (hx : ∀ s ∈ x, s ≠ []) (hy : ∀ s ∈ y, s ≠ []) :
    getBytes (x.getD []) = getBytes (y.getD []) ↔ x.map getBytes = y.map getBytes := by
  rcases x with - | s <;> rcases y with - | t
  · exact ⟨fun _ => rfl, fun _ => rfl⟩
  · refine ⟨fun h => ?_, nofun⟩
    exact absurd (getBytes_eq_nil.1 h.symm) (hy t rfl)
  · refine ⟨fun h => ?_, nofun⟩
    exact absurd (getBytes_eq_nil.1 h) (hx s rfl)
  · simp only [Option.getD_some, Option.map_some, Option.some.injEq]

/-- An accepted prefix is not empty and has no null character. -/
theorem packagePrefix_spec (q : ClassQuery) :
    (∀ s ∈ q.packagePrefix, s ≠ []) ∧ 0 ∉ q.packagePrefix.getD [] := by
  cases hq : q.packagePrefix with
  | none => exact ⟨nofun, List.not_mem_nil⟩
  | some s =>
  have hs := q.packagePrefix_valid s hq
  unfold ClassQuery.validPackagePrefix at hs
  simp only [Bool.and_eq_true, Bool.not_eq_true'] at hs
  obtain ⟨⟨⟨⟨⟨⟨-, hempty⟩, -⟩, -⟩, -⟩, -⟩, hdescriptor⟩ := hs
  refine ⟨fun t ht => ?_, fun hin => ?_⟩
  · obtain rfl := Option.some.inj ht
    exact List.isEmpty_eq_false_iff.1 hempty
  · refine checked_no_nul hdescriptor ?_
    rw [List.mem_append, List.mem_append]
    exact .inl (.inr (List.mem_map.2 ⟨0, hin, by decide⟩))

/-- So is an accepted text that names are to contain. -/
theorem nameContains_spec (q : ClassQuery) :
    (∀ s ∈ q.nameContains, s ≠ []) ∧ 0 ∉ q.nameContains.getD [] := by
  cases hq : q.nameContains with
  | none => exact ⟨nofun, List.not_mem_nil⟩
  | some s =>
  have hs := q.nameContains_valid s hq
  unfold ClassQuery.validNameContains at hs
  simp only [Bool.and_eq_true, Bool.not_eq_true'] at hs
  obtain ⟨⟨hempty, -⟩, hcontrol⟩ := hs
  refine ⟨fun t ht => ?_, fun hin => ?_⟩
  · obtain rfl := Option.some.inj ht
    exact List.isEmpty_eq_false_iff.1 hempty
  · exact absurd (List.any_eq_false.1 hcontrol 0 hin) (by decide)

theorem nameDomain_injective {x y : NameDomain} (h : x.name = y.name) : x = y := by
  revert h
  cases x <;> cases y <;> decide

/-- **What the bytes of a query say**: its options, and the bytes of its filters. -/
theorem normalized_iff : getBytes (normalized a) = getBytes (normalized b) ↔ a.SameBytes b ∧
    a.SameOptions b := by
  have hname : ∀ x : NameDomain, Plain x.name := by
    intro x
    cases x <;> exact forall_of_all (by decide)
  have hflag : ∀ x y : Bool, getBytes (str (toString x)) = getBytes (str (toString y)) ↔ x = y := by
    intro x y
    have hflags := (plain_flag x).getBytes_iff (plain_flag y)
    unfold flag at hflags
    rw [hflags]
    exact ⟨flag_injective, fun h => by rw [h]⟩
  have hprefixes := getD_iff (packagePrefix_spec a).1 (packagePrefix_spec b).1
  have hcontains := getD_iff (nameContains_spec a).1 (nameContains_spec b).1
  unfold normalized
  rw [getBytes_cut (plain_decimal _).no_nul (plain_decimal _).no_nul,
    getBytes_cut (packagePrefix_spec a).2 (packagePrefix_spec b).2,
    getBytes_cut (nameContains_spec a).2 (nameContains_spec b).2, getBytes_cut (hname _).no_nul
      (hname _).no_nul,
    (plain_decimal _).getBytes_iff (plain_decimal _), (hname _).getBytes_iff (hname _), hprefixes,
      hcontains, hflag]
  constructor
  · rintro ⟨hsize, hp, hc, hd, hi⟩
    exact ⟨⟨hp, hc⟩, Int.ofNat.inj (decimal_injective hsize), nameDomain_injective hd, hi⟩
  · rintro ⟨⟨hp, hc⟩, hsize, hd, hi⟩
    exact ⟨by rw [hsize], hp, hc, by rw [hd], hi⟩

/-- A cursor that a page of the first query has is taken with the second one. -/
def Accepted (platform : Platform) (first second : ClassQuery) : Prop :=
  ∃ (classes : List ClassInfo) (sessionId : JString) (revision epoch : Int64) (query query' : ClassQuery)
    (p p' : ClassPage) (token : JString), isUuid sessionId ∧ query.Agree first ∧
      page platform (ofClasses classes sessionId revision epoch) query = .ok p ∧
        p.nextCursor = some token ∧
      second.follow token = some query' ∧ page platform (ofClasses classes sessionId revision epoch)
        query' = .ok p'

/-- **A cursor that is taken has the hash of the query.** -/
theorem filterHash_of_accepted (h : Accepted platform first second) :
    filterHash platform first = filterHash platform second := by
  obtain ⟨classes, sessionId, revision, epoch, query, query', p, p', token, hsession, hagree, hp,
    htoken, hf, hp'⟩ := h
  obtain ⟨hcursor, -, -, hhash⟩ := follow_keeps platform hf
  have hfirst : filterHash platform query = filterHash platform first := by
    unfold filterHash
    rw [normalized_iff.2 ⟨⟨by rw [hagree.1.1], by rw [hagree.1.2]⟩, hagree.2⟩]
  -- the cursor is that of the last entry of the page
  obtain ⟨e, he⟩ : ∃ e, encode platform (ofClasses classes sessionId revision epoch) query
      e = token := by
    unfold page at hp
    obtain ⟨i, hi, hpage⟩ := bind_eq_ok.1 hp
    obtain rfl := Except.ok.inj hpage
    unfold pageOf at htoken
    dsimp only at htoken
    split at htoken
    · obtain ⟨e, -, he⟩ := Option.map_eq_some_iff.1 htoken
      exact ⟨e, he⟩
    · cases htoken
  have hstart : ∃ i, start platform (ofClasses classes sessionId revision epoch) query' = .ok i := by
    unfold page at hp'
    obtain ⟨i, hi, -⟩ := bind_eq_ok.1 hp'
    exact ⟨i, hi⟩
  obtain ⟨i, hi⟩ := hstart
  unfold start at hi
  rw [hcursor] at hi
  obtain ⟨cursor, hdecode, -⟩ := bind_eq_ok.1 hi
  rw [← he] at hdecode
  rw [← hfirst, filterHash_of_decode hsession hdecode, hhash]

/-- A name in a package: its package is that one, or below it. -/
theorem packageOf_append (s t : JString) : ClassQuery.packageOf (s ++ chr '.' :: t) = s ∨
    JString.startsWith (ClassQuery.packageOf (s ++ chr '.' :: t)) (s ++ str ".") = true := by
  have hreverse : (s ++ chr '.' :: t).reverse = t.reverse ++ chr '.' :: s.reverse := by simp
  have hstop : (chr '.' :: s.reverse).dropWhile (· ≠ chr '.') = chr '.' :: s.reverse :=
    List.dropWhile_cons_of_neg (by simp)
  unfold ClassQuery.packageOf
  rw [hreverse, List.dropWhile_append, hstop]
  split
  · left
    rw [List.drop_one, List.tail_cons, List.reverse_reverse]
  · -- the last dot is one of the rest
    rename_i hrest
    right
    obtain ⟨c, l, hl⟩ := List.exists_cons_of_ne_nil (mt List.isEmpty_iff.2 hrest)
    rw [hl]
    unfold JString.startsWith
    rw [List.isPrefixOf_iff_prefix]
    refine ⟨l.reverse, ?_⟩
    simp [str, utf16, chr]

/-- A class that passes the filters of a query. -/
def passing (query : ClassQuery) (ref : SymbolRef) : ClassInfo where
  ref := ref
  originalDottedName := (query.packagePrefix.map fun s => s ++ str ".").getD [] ++
    query.nameContains.getD []
  displayName := []
  displayQualifiedName := query.nameContains.getD []
  isInner := false
  codeAvailable := true
  originalParent := none
  provenance := .EXACT

/-- Its class passes the query. -/
theorem passes_passing (query : ClassQuery) (ref : SymbolRef) :
    query.passes (passing query ref) = true := by
  unfold ClassQuery.passes
  rw [Bool.and_eq_true, Bool.and_eq_true]
  refine ⟨⟨by simp [passing], ?_⟩, ?_⟩
  · cases hq : query.packagePrefix with
    | none => rfl
    | some s =>
      have hname : (passing query ref).originalDottedName = s ++ chr '.' ::
          query.nameContains.getD [] := by
        show (query.packagePrefix.map _).getD [] ++ _ = _
        rw [hq, Option.map_some, Option.getD_some, List.append_assoc]
        rfl
      rw [Option.all_some, hname, Bool.or_eq_true, decide_eq_true_eq]
      exact packageOf_append _ _
  · cases hq : query.nameContains with
    | none => rfl
    | some s =>
      rw [Option.all_some]
      unfold ClassQuery.contains
      rw [decide_eq_true_eq]
      split
      · refine ⟨(query.packagePrefix.map fun s => s ++ str ".").getD [], [], ?_⟩
        show _ = _ ++ query.nameContains.getD []
        rw [hq, Option.getD_some, List.append_nil]
      · show s <:+: query.nameContains.getD []
        rw [hq]
        exact List.infix_rfl

/-- The entries of one class, so many times. -/
theorem numbered_replicate (info : ClassInfo) (seen : List JString) (m : ℕ) :
    (numbered seen (List.replicate m info)).length = m ∧
    ∀ e ∈ numbered seen (List.replicate m info), e.info = info := by
  induction m generalizing seen with
  | zero => exact ⟨rfl, fun e he => absurd he List.not_mem_nil⟩
  | succ m ih =>
    obtain ⟨hlen, hall⟩ := ih (seen ++ [info.ref.originalClassDescriptor])
    rw [List.replicate_succ, numbered]
    refine ⟨by rw [List.length_cons, hlen], fun e he => ?_⟩
    rcases List.mem_cons.1 he with rfl | he
    · rfl
    · exact hall e he

/-- A catalog with a class many times has as many entries that pass the same queries. -/
theorem catalogEntries_replicate (info : ClassInfo) (m : ℕ) :
    (catalogEntries (List.replicate m info)).length = m ∧
    ∀ e ∈ catalogEntries (List.replicate m info), e.descriptor = info.ref.originalClassDescriptor ∧
      ∀ query : ClassQuery, query.passes e.info = query.passes info := by
  have hperm := catalogEntries_perm (List.replicate m info)
  obtain ⟨hlen, hall⟩ := numbered_replicate info [] m
  refine ⟨?_, fun e he => ?_⟩
  · rw [hperm.length_eq, List.length_map, hlen]
  · -- the mark changes no field that a filter looks at
    obtain ⟨x, hx, rfl⟩ := List.mem_map.1 (hperm.mem_iff.1 he)
    have hinfo := hall x hx
    unfold marked CatalogEntry.descriptor
    split
    · rw [hinfo]
      exact ⟨rfl, fun _ => rfl⟩
    · dsimp only
      rw [hinfo]
      exact ⟨rfl, fun _ => rfl⟩

/-- **The same hash is enough**: some page of the first query has a cursor that is taken with the
second one. -/
theorem accepted_of_filterHash {sessionId : JString} {ref : SymbolRef} (hsession : isUuid sessionId)
    (href : Paired ref.originalClassDescriptor = true ∧
      (getBytes ref.originalClassDescriptor).length ≤ 2000)
    (h : filterHash platform first = filterHash platform second) :
    Accepted platform first second := by
  let query : ClassQuery := { first with cursor := none, cursor_valid := nofun }
  let info : ClassInfo := passing query ref
  have hsize := query.pageSize_valid
  obtain ⟨hlen, hentries⟩ := catalogEntries_replicate info (query.pageSize + 1)
  have hs : Sound (ofClasses (List.replicate (query.pageSize + 1) info) sessionId 0 0) := by
    refine sound_ofClasses 0 0 hsession fun d => ?_
    have hle := List.count_le_length (a := d)
      (l := (List.replicate (query.pageSize + 1) info).map fun info =>
        info.ref.originalClassDescriptor)
    rw [List.length_map, List.length_replicate] at hle
    omega
  have hall : matching (ofClasses (List.replicate (query.pageSize + 1) info) sessionId 0 0) query =
      catalogEntries (List.replicate (query.pageSize + 1) info) := by
    refine List.filter_eq_self.2 fun e he => ?_
    rw [(hentries e he).2]
    exact passes_passing query ref
  have hstart : Starts platform (ofClasses (List.replicate (query.pageSize + 1) info) sessionId 0
      0) query 0 :=
    starts_first rfl
  obtain ⟨p, hp, -, hnext⟩ := page_eq hstart
  rw [hall, hlen, Nat.zero_add, if_pos (Nat.lt_succ_self _)] at hnext
  -- the last entry of the page fits a cursor
  obtain ⟨e, he⟩ : ∃ e, (catalogEntries (List.replicate (query.pageSize + 1) info))[query.pageSize -
      1]? = some e :=
    ⟨_, List.getElem?_eq_getElem (by omega)⟩
  rw [he, Option.map_some] at hnext
  have hin := List.mem_of_getElem? he
  have hdescriptor : e.descriptor = ref.originalClassDescriptor := (hentries e hin).1
  have hoccurrence := hs.occurrences e hin
  have hcarried : Carried (ofClasses (List.replicate (query.pageSize + 1) info) sessionId 0 0) e := by
    have hdigits : (decimal e.occurrence).length ≤ 6 := by
      have htext : decimal e.occurrence = digits e.occurrence := rfl
      rw [htext, digits_length (by omega)]
      omega
    have hzero : (decimal ((0 : Int64).toInt)).length = 1 := by decide
    refine ⟨hdescriptor ▸ href.1, ?_⟩
    show (getBytes e.descriptor).length + (decimal ((0 : Int64).toInt)).length +
      (decimal ((0 : Int64).toInt)).length +
      (decimal e.occurrence).length ≤ 2953
    rw [hdescriptor, hzero]
    have hlong := href.2
    omega
  have hvalid := (validCursor_encode platform query hs.session hcarried.1).2 hcarried
  let query' : ClassQuery := { second with
    cursor := some (encode platform (ofClasses (List.replicate (query.pageSize + 1) info) sessionId
      0 0) query e)
    cursor_valid := fun _ hc => Option.some.inj hc ▸ hvalid }
  have hhash : filterHash platform query = filterHash platform query' := h
  have hdecode := decode_encode platform query query' hhash hs.session hoccurrence
  have hok : (validateClassDescriptor (carried e.descriptor)).isOk = true := by
    rw [carried, ofCodePoints_codePoints hcarried.1]
    exact checked_descriptor e.info.ref
  rw [if_pos hok] at hdecode
  obtain ⟨p', hp', -⟩ := page_eq (starts_cursor hs.sorted rfl hdecode)
  exact ⟨_, sessionId, 0, 0, query, query', p, p', _, hsession, ⟨⟨rfl, rfl⟩, rfl, rfl, rfl⟩, hp,
    hnext, dif_pos hvalid, hp'⟩

end Classes

end SymbolCatalog

/-! ## Both cursors -/

/-- SHA-256 does not collide on the two texts. -/
def Platform.Apart (platform : Platform) (a b : JString) : Prop :=
  platform.sha256 (getBytes a) = platform.sha256 (getBytes b) → getBytes a = getBytes b

open SearchService in
/-- **A cursor is bound to the options of its query**, for a search and for the classes, exactly
where the texts of the two queries do not differ in lone surrogates alone. -/
theorem cursors_bound_iff (platform : Platform) :
    (∀ first second : SearchQuery,
      platform.Apart (SearchService.normalized first) (SearchService.normalized second) →
        ((SearchService.Accepted platform first second → first.Agree second) ↔
          ¬first.Confused second)) ∧
    ∀ first second : ClassQuery,
      platform.Apart (SymbolCatalog.normalized first) (SymbolCatalog.normalized second) →
        ((SymbolCatalog.Accepted platform first second → first.Agree second) ↔
          ¬first.Confused second) := by
  refine ⟨fun first second hapart => ⟨fun hbound hconfused => ?_, fun hclear haccepted => ?_⟩,
    fun first second hapart => ⟨fun hbound hconfused => ?_, fun hclear haccepted => ?_⟩⟩
  · obtain ⟨hne, hbytes, hoptions⟩ := hconfused
    have hhash : SearchService.queryHash platform first = SearchService.queryHash platform second :=
      (digest_iff platform hapart).2 (SearchService.normalized_iff.2 ⟨hbytes, hoptions⟩)
    have hsmall : SearchService.hitBytes (SearchService.oneHit OneClass.ref) ≤ 40000 :=
      by decide +kernel
    exact hne (hbound (SearchService.accepted_of_queryHash isUuid_someUuid hsmall hhash)).1
  · have hhash := SearchService.queryHash_of_accepted haccepted
    obtain ⟨hbytes, hoptions⟩ :=
      SearchService.normalized_iff.1 ((digest_iff platform hapart).1 hhash)
    by_contra hno
    exact hclear ⟨fun hquery => hno ⟨hquery, hoptions⟩, hbytes, hoptions⟩
  · obtain ⟨hne, hbytes, hoptions⟩ := hconfused
    have hhash : SymbolCatalog.filterHash platform first = SymbolCatalog.filterHash platform second :=
      (digest_iff platform hapart).2 (SymbolCatalog.normalized_iff.2 ⟨hbytes, hoptions⟩)
    have href : Paired OneClass.ref.originalClassDescriptor = true ∧
        (getBytes OneClass.ref.originalClassDescriptor).length ≤ 2000 := by decide +kernel
    exact hne (hbound (SymbolCatalog.accepted_of_filterHash isUuid_someUuid href hhash)).1
  · have hhash := SymbolCatalog.filterHash_of_accepted haccepted
    obtain ⟨hbytes, hoptions⟩ :=
      SymbolCatalog.normalized_iff.1 ((digest_iff platform hapart).1 hhash)
    by_contra hno
    exact hclear ⟨fun htexts => hno ⟨htexts, hoptions⟩, hbytes, hoptions⟩

namespace LoneSurrogates

/-- A search for one unit. -/
def search (c : JChar) (h : SearchQuery.validQuery [c] = true) : SearchQuery :=
  ⟨[c], [.CLASS_NAME], some .CONTAINS, true, 1, none, false, false, none, none, h,
    SearchQuery.className_valid, one_valid,
    nothing_expected, SearchQuery.no_cursor⟩

/-- The classes whose name holds one unit. -/
def names (c : JChar) (h : ClassQuery.validNameContains [c] = true) : ClassQuery :=
  ⟨1, none, none, some [c], .original, true, one_valid, ClassQuery.no_cursor, ClassQuery.no_packagePrefix,
    fun _ hs => Option.some.inj hs ▸ h⟩

def high : SearchQuery := search 0xD800 (by decide)

def next : SearchQuery := search 0xD801 (by decide)

def highNames : ClassQuery := names 0xD800 (by decide)

def nextNames : ClassQuery := names 0xD801 (by decide)

end LoneSurrogates

open LoneSurrogates SearchService in
/-- A cursor of a search for one lone surrogate is taken for another one, and so is one of the
classes. The bytes that are hashed are the same. -/
theorem cursors_not_bound :
    (SearchService.Accepted Platform.zeros high next ∧ ¬high.Agree next ∧
      getBytes (SearchService.normalized high) = getBytes (SearchService.normalized next)) ∧
    SymbolCatalog.Accepted Platform.zeros highNames nextNames ∧ ¬highNames.Agree nextNames ∧
      getBytes (SymbolCatalog.normalized highNames) = getBytes
        (SymbolCatalog.normalized nextNames) := by
  have hsmall : SearchService.hitBytes (SearchService.oneHit OneClass.ref) ≤ 40000 :=
    by decide +kernel
  have href : Paired OneClass.ref.originalClassDescriptor = true ∧
      (getBytes OneClass.ref.originalClassDescriptor).length ≤ 2000 := by decide +kernel
  have hsearch : getBytes (SearchService.normalized high) = getBytes
      (SearchService.normalized next) :=
    SearchService.normalized_iff.2 ⟨by decide, .refl _, rfl, rfl, rfl, rfl, rfl⟩
  have hnames : getBytes (SymbolCatalog.normalized highNames) = getBytes
      (SymbolCatalog.normalized nextNames) :=
    SymbolCatalog.normalized_iff.2 ⟨⟨rfl, by decide⟩, rfl, rfl, rfl⟩
  refine ⟨⟨?_, fun h => absurd h.1 (by decide), hsearch⟩, ?_, fun h =>
    absurd h.1.2 (by decide), hnames⟩
  · refine SearchService.accepted_of_queryHash isUuid_someUuid hsmall ?_
    unfold SearchService.queryHash SearchService.hash
    rw [hsearch]
  · refine SymbolCatalog.accepted_of_filterHash isUuid_someUuid href ?_
    unfold SymbolCatalog.filterHash
    rw [hnames]

/-- The search that takes no partial result. -/
def OneClass.complete : SearchQuery := { SearchService.OneClass.query with requireComplete := true }

open SearchService in
/-- The cursors of a search are taken with it, and not with another option. -/
theorem cursors_bound_apart :
    SearchService.Accepted Platform.byLength OneClass.query OneClass.query ∧
    ¬SearchService.Accepted Platform.byLength OneClass.query OneClass.complete := by
  have hapart : Platform.byLength.Apart (SearchService.normalized OneClass.query)
      (SearchService.normalized OneClass.complete) :=
    fun hdigest => absurd hdigest (by decide +kernel)
  have hsmall : SearchService.hitBytes (SearchService.oneHit OneClass.ref) ≤ 40000 :=
    by decide +kernel
  refine ⟨SearchService.accepted_of_queryHash isUuid_someUuid hsmall rfl, fun haccepted => ?_⟩
  have hagree := ((cursors_bound_iff Platform.byLength).1 OneClass.query OneClass.complete hapart).2
    (fun h => h.1 rfl) haccepted
  exact absurd hagree.2.requireComplete (by decide)

end Libjadx
