import Mathlib.Algebra.Order.BigOperators.Group.List
import Mathlib.Data.List.Perm.Subperm
import Libjadx.Spec.SearchService

/-!
# The pages of a search

* `authenticate_encode`: a cursor comes back as it was written.
* `Sound`: the counter, the budget, the count and the ids, after every request (`sound_step`).
* `Held`: the id of a snapshot names it and no other one, whether it is still kept or not.
* `walk_exact`: the pages that a client follows are one result in its order, up to a request that
  fails because the result is gone.
-/

namespace Libjadx

namespace SearchService

variable {platform : Platform}

/-! ## Cursors -/

section Cursors

variable {cursor : Cursor} {token : JString}

/-- **A cursor is read back from its bytes.** -/
theorem readCursor_cursorBytes {raw : List UInt8} (h : cursorBytes cursor = some raw) :
    readCursor raw = some cursor := by
  unfold cursorBytes at h
  simp only [Option.bind_eq_bind, Option.bind_eq_some_iff] at h
  obtain ⟨domain, hdomain, keyHash, hkey, queryHash, hquery, resultHash, hresult, storeId, hstore, h⟩ := h
  obtain rfl := Option.some.inj h
  unfold readCursor
  rw [DataStream.readUTF_writeUTF hdomain, Option.bind_eq_bind, Option.bind_some]
  dsimp only
  rw [if_neg (by simp)]
  simp only [Option.bind_eq_bind, Option.pure_def]
  rw [DataStream.readUTF_writeUTF hkey, Option.bind_some]
  dsimp only
  rw [DataStream.readLong_writeLong, Option.bind_some]
  dsimp only
  rw [DataStream.readUTF_writeUTF hquery, Option.bind_some]
  dsimp only
  rw [DataStream.readUTF_writeUTF hresult, Option.bind_some]
  dsimp only
  rw [DataStream.readUTF_writeUTF hstore, Option.bind_some]
  dsimp only
  have hposition := DataStream.readInt_writeInt cursor.position []
  rw [List.append_nil] at hposition
  rw [hposition, Option.bind_some]
  simp

/-- **A cursor comes back**, unless its token is longer than any that is taken. -/
theorem authenticate_encode (h : encode platform cursor = .ok token) (hlen : token.length ≤ 1024) :
    authenticate platform token = .ok cursor := by
  unfold encode at h
  split at h
  · rename_i raw hraw
    obtain rfl := Except.ok.inj h
    unfold authenticate
    rw [if_neg (by omega), verify_sign (platform.mac_length _), Option.bind_some,
      readCursor_cursorBytes hraw]
  · cases h

/-- A text that the stream writes in one byte for each unit. -/
theorem writeUTF_plain {s : JString} (hs : Plain s) (hlen : s.length ≤ 100) :
    ∃ raw, DataStream.writeUTF s = some raw ∧ raw.length = 2 + s.length :=
  DataStream.writeUTF_ascii hs (by omega)

/-- A digest, as the cursors carry it. -/
def Digest (s : JString) : Prop := Plain s ∧ s.length = 43

variable (platform) in
/-- A hash is a digest. -/
theorem digest_hash (value : JString) : Digest (hash platform value) := by
  refine ⟨plain_encodeToString _, ?_⟩
  unfold hash
  rw [length_encodeToString, platform.sha256_length]

/-- A snapshot as a search makes it. -/
structure Minted (snapshot : ResultSnapshot) : Prop where
  queryHash : Digest snapshot.queryHash
  resultHash : Digest snapshot.resultHash
  storeId : isUuid snapshot.storeId
  hits : snapshot.hits.length ≤ MAX_HITS

variable (platform) in
/-- **A minted cursor has a token, of 316 letters, and the token is valid.** -/
theorem encode_minted {snapshot : ResultSnapshot} (h : Minted snapshot) (n : ℕ) :
    ∃ token, encode platform (cursorOf platform snapshot n) = .ok token ∧ token.length = 316 ∧
      SearchQuery.validCursor token = true := by
  have hkey := digest_hash platform snapshot.key.snapshotId
  have hdomain : Plain CURSOR_DOMAIN := forall_of_all (by decide)
  have hdomainlen : CURSOR_DOMAIN.length = 17 := by decide
  have hid := h.storeId.1
  obtain ⟨domain, hw0, hl0⟩ := writeUTF_plain hdomain (by omega)
  obtain ⟨keyHash, hw1, hl1⟩ := writeUTF_plain hkey.1 (by rw [hkey.2]; omega)
  obtain ⟨queryHash, hw2, hl2⟩ := writeUTF_plain h.queryHash.1 (by rw [h.queryHash.2]; omega)
  obtain ⟨resultHash, hw3, hl3⟩ := writeUTF_plain h.resultHash.1 (by rw [h.resultHash.2]; omega)
  obtain ⟨storeId, hw4, hl4⟩ := writeUTF_plain (plain_uuid h.storeId) (by rw [hid]; omega)
  obtain ⟨raw, hraw, hlen⟩ : ∃ raw, cursorBytes (cursorOf platform snapshot n) = some raw ∧
      raw.length = 204 := by
    refine ⟨domain ++ (keyHash ++ (DataStream.writeLong (Int64.ofNat snapshot.generation) ++
      (queryHash ++ (resultHash ++
      (storeId ++ DataStream.writeInt (Int32.ofNat n)))))), ?_, ?_⟩
    · unfold cursorBytes cursorOf
      dsimp only
      rw [hw0, hw1, hw2, hw3, hw4]
      rfl
    · simp only [List.length_append, hl0, hl1, hl2, hl3, hl4, hdomainlen, hkey.2, h.queryHash.2,
        h.resultHash.2, hid,
        DataStream.writeLong, DataStream.writeInt, DataStream.length_bytes]
  have htoken : (sign platform.mac raw).length = 316 := by
    rw [length_sign (platform.mac_length _), hlen]
  refine ⟨sign platform.mac raw, ?_, htoken, ?_⟩
  · unfold encode
    rw [hraw]
  · -- the dot is no blank
    have hdot : chr '.' ∈ sign platform.mac raw := by simp [sign]
    have hblank : isBlank (sign platform.mac raw) = false := by
      rw [Bool.eq_false_iff]
      intro hall
      have hwhite := List.all_eq_true.1 hall _ hdot
      exact absurd hwhite (by decide)
    unfold SearchQuery.validCursor
    rw [hblank, htoken]
    decide

end Cursors

/-! ## What is kept -/

section Kept

variable {s t : SearchResults} {r : ResultSnapshot} {p : ResultSnapshot → Bool}

/-- The size of snapshots. -/
def total (results : List ResultSnapshot) : ℕ := (results.map ResultSnapshot.bytes).sum

/-- The counter is the size of what is kept. -/
def Accounts (s : SearchResults) : Prop := s.resultBytes = total s.results

/-- Nothing is kept that was not, and the counter goes along. -/
structure Kept (s t : SearchResults) : Prop where
  results : List.Subperm t.results s.results
  accounts : Accounts s → Accounts t

theorem Kept.refl (s : SearchResults) : Kept s s := ⟨List.Subperm.refl _, id⟩

theorem Kept.trans {u : SearchResults} (h : Kept s t) (h' : Kept t u) : Kept s u :=
  ⟨h'.results.trans h.results, fun ha => h'.accounts (h.accounts ha)⟩

/-- What a filter takes and what it leaves add up. -/
theorem total_filter (p : ResultSnapshot → Bool) (l : List ResultSnapshot) :
    total (l.filter fun r => !p r) + total (l.filter p) = total l := by
  induction l with
  | nil => rfl
  | cons r l ih =>
    unfold total at ih ⊢
    cases hp : p r
    · rw [List.filter_cons_of_pos (by simp [hp]), List.filter_cons_of_neg (by simp [hp]),
        List.map_cons, List.map_cons,
        List.sum_cons, List.sum_cons]
      omega
    · rw [List.filter_cons_of_neg (by simp [hp]), List.filter_cons_of_pos (by simp [hp]),
        List.map_cons, List.map_cons,
        List.sum_cons, List.sum_cons]
      omega

/-- What is removed keeps the rest. -/
theorem kept_removeIf (p : ResultSnapshot → Bool) (s : SearchResults) : Kept s (removeIf p s) := by
  refine ⟨List.filter_sublist.subperm, fun ha => ?_⟩
  have hsum := total_filter p s.results
  unfold Accounts at ha ⊢
  show s.resultBytes - (total (s.results.filter p) : ℤ) = total (s.results.filter fun r => !p r)
  omega

/-- A snapshot that is touched is kept. -/
theorem kept_touch (storeId : JString) (s : SearchResults) : Kept s (touch storeId s) := by
  have hperm : (touch storeId s).results.Perm s.results := by
    have hsplit := List.filter_append_perm (fun r : ResultSnapshot =>
      decide (r.storeId ≠ storeId)) s.results
    have hnot : (s.results.filter fun r => !decide (r.storeId ≠ storeId)) =
        s.results.filter fun r => decide (r.storeId = storeId) :=
          List.filter_congr fun r _ => by simp
    rw [hnot] at hsplit
    exact hsplit
  refine ⟨hperm.subperm, fun ha => ?_⟩
  unfold Accounts total at ha ⊢
  rw [(hperm.map _).sum_eq]
  exact ha

/-- The loop drops the eldest until there is room. -/
theorem evictFor_spec (bytes : ℕ) (l : List ResultSnapshot) (n : ℤ) :
    let s := evictFor bytes l n
    List.Sublist s.results l ∧ (n = total l → Accounts s) ∧
      (s.results = [] ∨ s.results.length < 256 ∧ s.resultBytes + bytes ≤ RESULT_BUDGET) := by
  induction l generalizing n with
  | nil => exact ⟨List.Sublist.refl _, fun h => h, .inl rfl⟩
  | cons eldest results ih =>
    by_cases hfull : 256 ≤ (eldest :: results).length ∨ (RESULT_BUDGET : ℤ) < n + bytes
    · rw [evictFor, if_pos hfull]
      obtain ⟨hsub, haccounts, hroom⟩ := ih (n - eldest.bytes)
      refine ⟨hsub.cons _, fun hn => haccounts ?_, hroom⟩
      have htotal : total (eldest :: results) = eldest.bytes + total results := List.sum_cons
      omega
    · rw [evictFor, if_neg hfull]
      obtain ⟨hcount, hbytes⟩ := not_or.1 hfull
      exact ⟨List.Sublist.refl _, fun h => h, .inr ⟨Nat.lt_of_not_le hcount, Int.not_lt.1 hbytes⟩⟩

/-- What `retain` leaves: fewer snapshots, or with room made the new one after them. -/
theorem retain_spec (view : SearchIndexStore.View) (now : JString → Int64)
    (snapshot : ResultSnapshot) (s : SearchResults) :
    (∃ e t, retain view now snapshot s = (.error e, t) ∧ Kept s t) ∨
      ∃ t, retain view now snapshot s = (.ok snapshot, put snapshot t) ∧ Kept s t ∧
        snapshot.bytes ≤ RESULT_BUDGET ∧
        (t.results = [] ∨ t.results.length < 256 ∧ t.resultBytes + snapshot.bytes ≤ RESULT_BUDGET) := by
  have hremoved := kept_removeIf (obsolete view now) s
  obtain ⟨hsub, haccounts, hroom⟩ :=
    evictFor_spec snapshot.bytes (removeIf (obsolete view now) s).results
    (removeIf (obsolete view now) s).resultBytes
  have hkept := hremoved.trans ⟨hsub.subperm, haccounts⟩
  unfold retain
  dsimp only
  by_cases hbig : RESULT_BUDGET < snapshot.bytes
  · rw [if_pos hbig]
    exact .inl ⟨_, _, rfl, hkept⟩
  · rw [if_neg hbig]
    exact .inr ⟨_, rfl, hkept, by omega, hroom⟩

/-- A cursor takes nothing in. -/
theorem kept_pageFromCursor (query : SearchQuery) (cursor : Cursor) (view : SearchIndexStore.View)
    (now : JString → Int64)
    (s : SearchResults) : Kept s (pageFromCursor platform query cursor view now s).2 := by
  have htouch := kept_touch cursor.storeId s
  unfold pageFromCursor
  split
  · exact .refl s
  split
  · exact .refl s
  split
  · exact .refl s
  · dsimp only
    split
    · exact htouch.trans (kept_removeIf _ _)
    split
    · exact htouch
    split
    · exact htouch
    · exact htouch

end Kept

/-! ## Requests -/

section Requests

variable {r : Request} {s : SearchResults} {hits : List Hit}

/-- Hits are added up to the limit. -/
theorem length_addAll {found start : List Hit} {n : ℕ} (h : addAll found start n = .ok hits)
    (hstart : start.length ≤ MAX_HITS) : hits.length ≤ MAX_HITS := by
  induction found generalizing start n with
  | nil =>
    obtain rfl := Except.ok.inj h
    exact hstart
  | cons hit found ih =>
    rw [addAll] at h
    split at h
    · cases h
    · rename_i hfull
      refine ih h ?_
      rw [List.length_append, List.length_singleton]
      omega

/-- So no more than that are materialized. -/
theorem length_materialize {found : List Hit} (h : materialize found = .ok hits) :
    hits.length ≤ MAX_HITS := by
  unfold materialize at h
  cases hadd : addAll found [] 0 with
  | error e =>
    rw [hadd] at h
    cases h
  | ok added =>
    rw [hadd] at h
    obtain rfl := Except.ok.inj h
    rw [List.length_mergeSort]
    exact length_addAll hadd (Nat.zero_le _)

/-- The snapshot of the search of a request. -/
structure Took (platform : Platform) (r : Request) (snapshot : ResultSnapshot) : Prop where
  storeId : snapshot.storeId = r.id
  queryHash : snapshot.queryHash = queryHash platform r.query
  hits : materialize r.found = .ok snapshot.hits
  minted : Minted snapshot

variable (platform) in
/-- **What a request does to the snapshots**: some may go; only a search takes a new one in, and
answers with its first page. -/
theorem answer_spec (r : Request) (s : SearchResults) : Kept s (answer platform r s).2 ∧
      (r.query.cursor = none → ∀ p, (answer platform r s).1 ≠ .ok (.page p)) ∨
    ∃ t snapshot, r.query.cursor = none ∧ Took platform r snapshot ∧ Kept s t ∧
      snapshot.bytes ≤ RESULT_BUDGET ∧
      (t.results = [] ∨ t.results.length < 256 ∧ t.resultBytes + snapshot.bytes ≤ RESULT_BUDGET) ∧
      answer platform r s = ((page platform snapshot r.query.pageSize 0).map .page, put snapshot t) := by
  unfold answer
  cases hc : r.query.cursor with
  | some token =>
    refine .inl ⟨?_, nofun⟩
    dsimp only
    split
    · exact .refl s
    · unfold underRead
      split
      · exact .refl s
      split
      · exact .refl s
      · exact kept_pageFromCursor _ _ _ _ _
  | none =>
    dsimp only
    unfold underRead
    split
    · exact .inl ⟨.refl s, fun _ _ => nofun⟩
    split
    · exact .inl ⟨.refl s, fun _ _ => nofun⟩
    · rename_i view _
      dsimp only
      split
      · exact .inl ⟨.refl s, fun _ _ => nofun⟩
      split
      · exact .inl ⟨.refl s, fun _ _ => nofun⟩
      split
      · exact .inl ⟨.refl s, fun _ _ => nofun⟩
      · rename_i hits hhits
        obtain ⟨e, t, hr, hkept⟩ | ⟨t, hr, hkept, hbytes, hroom⟩ :=
          retain_spec view r.now (snapshotOf platform view r.query (view.coverage r.query.domains)
            hits r.id r.createdAt) s
        · rw [hr]
          exact .inl ⟨hkept, fun _ _ => nofun⟩
        · rw [hr]
          refine .inr ⟨t, _, rfl, ⟨rfl, rfl, hhits, ?_⟩, hkept, hbytes, hroom, rfl⟩
          exact ⟨digest_hash platform _, digest_hash platform _, r.id_valid, length_materialize hhits⟩

end Requests

/-! ## Runs -/

section Runs

variable {s t : Service} {r : Request}

/-- The counter is exact and the bounds are kept; every snapshot is one of a search, under an id
that was drawn. -/
structure Sound (s : Service) : Prop where
  accounts : Accounts s.state
  budget : s.state.resultBytes ≤ RESULT_BUDGET
  count : s.state.results.length ≤ 256
  issued : ∀ x ∈ s.state.results, x.storeId ∈ s.issued
  minted : ∀ x ∈ s.state.results, Minted x

/-- Fewer results are fewer bytes. -/
theorem Accounts.le {u v : SearchResults} (hu : Accounts u) (hv : Accounts v)
    (h : List.Subperm v.results u.results) :
    v.resultBytes ≤ u.resultBytes := by
  obtain ⟨l, hperm, hsub⟩ := h
  have hle : total l ≤ total u.results := (hsub.map _).sum_le_sum fun _ _ => Nat.zero_le _
  have heq : total l = total v.results := (hperm.map _).sum_eq
  unfold Accounts at hu hv
  omega

/-- **What keeps the snapshots keeps them sound.** -/
theorem Sound.kept {u : SearchResults} {issued : List JString} (hs : Sound s) (h : Kept s.state u)
    (hsub : s.issued ⊆ issued) : Sound ⟨u, issued⟩ where
  accounts := h.accounts hs.accounts
  budget := (hs.accounts.le (h.accounts hs.accounts) h.results).trans hs.budget
  count := h.results.length_le.trans hs.count
  issued x hx := hsub (hs.issued x (h.results.subset hx))
  minted x hx := hs.minted x (h.results.subset hx)

/-- A new snapshot comes last, under an id of its own. -/
theorem put_new {u : SearchResults} {snapshot : ResultSnapshot}
    (h : ∀ x ∈ u.results, x.storeId ≠ snapshot.storeId) :
    (put snapshot u).results = u.results ++ [snapshot] := by
  have hall : u.results.filter (fun x => decide (x.storeId ≠ snapshot.storeId)) = u.results :=
    List.filter_eq_self.2 fun x hx => decide_eq_true (h x hx)
  show u.results.filter _ ++ [snapshot] = _
  rw [hall]

/-- **A snapshot is put into a sound store.** -/
theorem sound_put {u : SearchResults} {snapshot : ResultSnapshot} (hs : Sound s)
    (hfresh : snapshot.storeId ∉ s.issued)
    (hminted : Minted snapshot) (hkept : Kept s.state u) (hbytes : snapshot.bytes ≤ RESULT_BUDGET)
    (hroom : u.results = [] ∨ u.results.length < 256 ∧ u.resultBytes + snapshot.bytes ≤ RESULT_BUDGET) :
    Sound ⟨put snapshot u, snapshot.storeId :: s.issued⟩ := by
  have hu : Sound ⟨u, s.issued⟩ := hs.kept hkept (List.Subset.refl _)
  have hnew := @put_new _ snapshot fun x hx heq => hfresh (heq ▸ hu.issued x hx)
  have haccounts : u.resultBytes = total u.results := hu.accounts
  have hmem : ∀ x ∈ (put snapshot u).results, x ∈ u.results ∨ x = snapshot := by
    intro x hx
    rw [hnew, List.mem_append, List.mem_singleton] at hx
    exact hx
  refine ⟨?_, ?_, ?_, fun x hx => ?_, fun x hx => ?_⟩
  · unfold Accounts total
    rw [hnew, List.map_append, List.sum_append]
    show u.resultBytes + snapshot.bytes = _
    rw [haccounts, List.map_singleton, List.sum_singleton, Nat.cast_add]
    rfl
  · show u.resultBytes + snapshot.bytes ≤ _
    rcases hroom with hempty | ⟨-, hfits⟩
    · rw [haccounts, hempty]
      show (0 : ℤ) + snapshot.bytes ≤ _
      omega
    · exact hfits
  · show (put snapshot u).results.length ≤ 256
    rw [hnew, List.length_append, List.length_singleton]
    rcases hroom with hempty | ⟨hcount, -⟩
    · rw [hempty]
      decide
    · exact hcount
  · rcases hmem x hx with hold | rfl
    · exact List.mem_cons_of_mem _ (hu.issued x hold)
    · exact List.mem_cons_self
  · rcases hmem x hx with hold | rfl
    · exact hu.minted x hold
    · exact hminted

/-- **Every step keeps the store sound.** -/
theorem sound_step (hs : Sound s) (h : Step platform s r t) : Sound t := by
  cases h with
  | search hc hfresh =>
    obtain ⟨hkept, -⟩ | ⟨u, snapshot, -, htook, hkept, hbytes, hroom, hanswer⟩ :=
      answer_spec platform r s.state
    · exact hs.kept hkept (List.subset_cons_self _ _)
    · rw [hanswer, ← htook.storeId]
      exact sound_put hs (htook.storeId ▸ hfresh) htook.minted hkept hbytes hroom
  | follow hc =>
    obtain ⟨hkept, -⟩ | ⟨u, snapshot, hnone, -⟩ := answer_spec platform r s.state
    · exact hs.kept hkept (List.Subset.refl _)
    · exact absurd hnone hc

/-- The empty store is sound. -/
theorem sound_empty : Sound empty := ⟨rfl, by decide, by decide, nofun, nofun⟩

/-- **The accounts are right in every state that is reached.** -/
theorem sound_reached (h : Reached platform s) : Sound s := by
  induction h with
  | refl => exact sound_empty
  | tail _ hstep ih =>
    obtain ⟨r, hr⟩ := hstep
    exact sound_step ih hr

end Runs

/-! ## Pages -/

section Pages

variable {query : SearchQuery} {hits given : List Hit} {next : Option JString} {s t : Service}
    {r : Request}
  {snapshot : ResultSnapshot} {n : ℕ}

/-- The cursor of a snapshot after so many hits. -/
def NextOf (platform : Platform) (snapshot : ResultSnapshot) (n : ℕ) (next : Option JString) :
    Prop :=
  n = snapshot.hits.length ∧ next = none ∨
    0 < n ∧ n < snapshot.hits.length ∧ ∃ token, encode platform (cursorOf platform snapshot n) =
      .ok token ∧ next = some token

variable (platform) in
/-- **A page is the hits from its start, and its cursor is that of the next.** -/
theorem page_spec (h : Minted snapshot) {size : ℕ} (hsize : 0 < size) :
    ∃ p stop, page platform snapshot size n = .ok p ∧ stop = min snapshot.hits.length (n + size) ∧
      p.hits = (snapshot.hits.take stop).drop n ∧ NextOf platform snapshot stop p.nextCursor := by
  unfold page
  dsimp only
  by_cases hmore : min snapshot.hits.length (n + size) < snapshot.hits.length
  · obtain ⟨token, htoken, -⟩ := encode_minted platform h (min snapshot.hits.length (n + size))
    rw [if_pos hmore, htoken]
    exact ⟨_, _, rfl, rfl, rfl, .inr ⟨by omega, hmore, token, htoken, rfl⟩⟩
  · rw [if_neg hmore]
    exact ⟨_, _, rfl, rfl, rfl, .inl ⟨by omega, rfl⟩⟩

/-- The id of a snapshot names it and no other one, whether it is still kept or not. -/
def Held (s : Service) (snapshot : ResultSnapshot) : Prop :=
  snapshot.storeId ∈ s.issued ∧ ∀ x ∈ s.state.results, x.storeId = snapshot.storeId → x = snapshot

/-- Whatever is served, the id names that one snapshot. -/
theorem held_step (hheld : Held s snapshot) (h : Step platform s r t) : Held t snapshot := by
  cases h with
  | search hc hfresh =>
    refine ⟨List.mem_cons_of_mem _ hheld.1, fun x hx heq => ?_⟩
    obtain ⟨hkept, -⟩ | ⟨u, new, -, htook, hkept, -, -, hanswer⟩ := answer_spec platform r s.state
    · exact hheld.2 x (hkept.results.subset hx) heq
    · rw [hanswer] at hx
      rcases List.mem_append.1 hx with hold | hone
      · exact hheld.2 x (hkept.results.subset (List.mem_filter.1 hold).1) heq
      · -- the new snapshot has an id that none before had
        rw [List.mem_singleton.1 hone, htook.storeId] at heq
        exact absurd (heq ▸ hheld.1) hfresh
  | follow hc =>
    refine ⟨hheld.1, fun x hx heq => ?_⟩
    obtain ⟨hkept, -⟩ | ⟨u, new, hnone, -⟩ := answer_spec platform r s.state
    · exact hheld.2 x (hkept.results.subset hx) heq
    · exact absurd hnone hc

variable (platform) in
/-- **What a cursor of a held snapshot is answered with.** -/
theorem pageFromCursor_spec (hheld : Held s snapshot) (hlast : n < snapshot.hits.length)
    (hpos : 0 < n)
    (hminted : Minted snapshot) (view : SearchIndexStore.View) (now : JString → Int64)
    (query : SearchQuery) :
    (∃ e, (pageFromCursor platform query (cursorOf platform snapshot n) view now s.state).1 = .error e ∧
        (e.stale = true ∨ snapshot.queryHash ≠ queryHash platform query)) ∨
      (pageFromCursor platform query (cursorOf platform snapshot n) view now s.state).1 =
        page platform snapshot query.pageSize n ∧
          snapshot.queryHash = queryHash platform query := by
  have hposition : (cursorOf platform snapshot n).position.toInt = n := by
    have hmax := hminted.hits
    unfold MAX_HITS at hmax
    exact Int32.toInt_ofNat_of_lt (by omega)
  unfold pageFromCursor
  split
  · rename_i hquery
    exact .inl ⟨_, rfl, .inr hquery⟩
  rename_i hquery
  split
  · exact .inl ⟨_, rfl, .inl rfl⟩
  split
  · exact .inl ⟨_, rfl, .inl rfl⟩
  · rename_i x hx
    have hid := List.find?_some hx
    rw [decide_eq_true_eq] at hid
    obtain rfl : x = snapshot := hheld.2 x (List.mem_of_find?_eq_some hx) hid
    dsimp only
    rw [hposition]
    split
    · exact .inl ⟨_, rfl, .inl rfl⟩
    split
    · exact .inl ⟨_, rfl, .inl rfl⟩
    split
    · rename_i hrange
      omega
    · exact .inr ⟨rfl, of_not_not hquery⟩

end Pages

/-! ## Walks -/

section Walks

variable {query : SearchQuery} {hits given : List Hit} {next : Option JString} {s t : Service}
    {r : Request}
  {snapshot : ResultSnapshot} {token : JString} {n : ℕ}

/-- Where a walk is: the snapshot of its search, and how many of its hits were given. -/
structure Along (platform : Platform) (query : SearchQuery) (hits : List Hit) (s : Service)
    (given : List Hit)
    (next : Option JString) (snapshot : ResultSnapshot) (n : ℕ) : Prop where
  sound : Sound s
  held : Held s snapshot
  minted : Minted snapshot
  queryHash : snapshot.queryHash = SearchService.queryHash platform query
  hits_eq : snapshot.hits = hits
  given_eq : given = hits.take n
  next_of : NextOf platform snapshot n next

variable (platform) in
/-- The hash leaves the cursor out. -/
theorem queryHash_follow {q : SearchQuery} (h : query.follow token = some q) :
    queryHash platform q = queryHash platform query ∧ q.cursor = some token ∧
      q.pageSize = query.pageSize := by
  unfold SearchQuery.follow at h
  split at h
  · obtain rfl := Option.some.inj h
    exact ⟨rfl, rfl, rfl⟩
  · cases h

/-- The answer to a cursor is that of the section under the lock, or the request fails as stale. -/
theorem answer_cursor {cursor : Cursor} (hc : r.query.cursor = some token)
    (ha : authenticate platform token = .ok cursor) :
    (∃ e, (answer platform r s.state).1 = .error e ∧ e.stale = true) ∨
      ∃ view, r.view = some view ∧ (answer platform r s.state).1 =
        ((pageFromCursor platform r.query cursor view r.now s.state).1).map .page := by
  unfold answer
  rw [hc]
  dsimp only
  rw [ha]
  dsimp only
  unfold underRead
  split
  · exact .inl ⟨_, rfl, rfl⟩
  split
  · exact .inl ⟨_, rfl, rfl⟩
  · rename_i view hview
    exact .inr ⟨view, hview, rfl⟩

/-- A token on the way is the cursor it stands for. -/
theorem Along.authenticate (h : Along platform query hits s given (some token) snapshot n) :
    0 < n ∧ n < snapshot.hits.length ∧ authenticate platform token = .ok
      (cursorOf platform snapshot n) := by
  rcases h.next_of with ⟨-, hnone⟩ | ⟨hpos, hlast, token', htoken, heq⟩
  · cases hnone
  · obtain rfl := Option.some.inj heq
    obtain ⟨token', htoken', hlen, -⟩ := encode_minted platform h.minted n
    rw [htoken] at htoken'
    obtain rfl := Except.ok.inj htoken'
    exact ⟨hpos, hlast, authenticate_encode htoken (by omega)⟩

/-- **A cursor that is followed gives the hits after those that were given**, or fails as stale. -/
theorem Along.follow (h : Along platform query hits s given (some token) snapshot n)
    (hf : query.follow token = some r.query) (hstep : Step platform s r t) :
    (∃ e, (answer platform r s.state).1 = .error e ∧ e.stale = true) ∨
      ∃ p stop, (answer platform r s.state).1 = .ok (.page p) ∧
        p.hits = (hits.drop n).take query.pageSize ∧
        Along platform query hits t (given ++ p.hits) p.nextCursor snapshot stop := by
  obtain ⟨hpos, hlast, hauth⟩ := h.authenticate
  obtain ⟨hhash, hcursor, hsize⟩ := queryHash_follow platform hf
  obtain ⟨e, he⟩ | ⟨view, -, hanswer⟩ := answer_cursor (s := s) hcursor hauth
  · exact .inl ⟨e, he⟩
  rw [hanswer]
  obtain ⟨e, he, hstale | hquery⟩ | ⟨hpage, -⟩ :=
    pageFromCursor_spec platform h.held hlast hpos h.minted view r.now r.query
  · rw [he]
    exact .inl ⟨e, rfl, hstale⟩
  · rw [hhash] at hquery
    exact absurd h.queryHash hquery
  · have hpagesize : 0 < r.query.pageSize := r.query.pageSize_valid.1
    obtain ⟨p, stop, hp, hstop, hphits, hnext⟩ := page_spec platform h.minted hpagesize
    rw [hpage, hp]
    have hlen : (hits.drop n).length = hits.length - n := List.length_drop
    have hslice : p.hits = (hits.drop n).take query.pageSize := by
      rw [hphits, h.hits_eq, List.drop_take, hstop, h.hits_eq, hsize]
      rcases Nat.le_total (n + query.pageSize) hits.length with hle | hle
      · rw [Nat.min_eq_right hle, Nat.add_sub_cancel_left]
      · rw [Nat.min_eq_left hle, List.take_of_length_le (by omega), List.take_of_length_le (by omega)]
    refine .inr ⟨p, stop, rfl, hslice, ?_⟩
    refine ⟨sound_step h.sound hstep, held_step h.held hstep, h.minted, h.queryHash, h.hits_eq, ?_, hnext⟩
    -- what was given and the page are the hits up to the end of the page
    have hle : n ≤ stop := by
      rw [hstop]
      omega
    have hfront : hits.take n = (hits.take stop).take n := by
      rw [List.take_take, Nat.min_eq_left hle]
    rw [h.given_eq, hphits, h.hits_eq, hfront, List.take_append_drop]

/-- **A walk is along one snapshot.** -/
theorem along_of_walked (h : Walked platform query hits s given next) :
    ∃ snapshot n, Along platform query hits s given next snapshot n := by
  induction h with
  | @search s t r p hreached hstep hquery hcursor hhits hanswer =>
    have hs := sound_reached hreached
    obtain ⟨-, hnone⟩ | ⟨u, snapshot, hc, htook, hkept, hbytes, hroom, hspec⟩ :=
      answer_spec platform r s.state
    · rw [hquery] at hnone
      exact absurd hanswer (hnone hcursor p)
    · have hsnapshot : snapshot.hits = hits := by
        have hsame := htook.hits
        rw [hhits] at hsame
        exact (Except.ok.inj hsame).symm
      have hpagesize : 0 < r.query.pageSize := r.query.pageSize_valid.1
      obtain ⟨p', stop, hp, hstop, hphits, hnext⟩ :=
        page_spec platform htook.minted hpagesize
      rw [hspec, hp] at hanswer
      obtain rfl : p' = p := by
        injection hanswer with hpage
        injection hpage
      have ht := sound_step hs hstep
      cases hstep with
      | follow hc' => exact absurd hc hc'
      | search _ hfresh =>
        refine ⟨snapshot, stop, ht, ⟨?_, fun x hx heq => ?_⟩, htook.minted, ?_, hsnapshot, ?_, hnext⟩
        · rw [htook.storeId]
          exact List.mem_cons_self
        · rw [hspec] at hx
          rcases List.mem_append.1 hx with hold | hone
          · exact absurd heq (of_decide_eq_true (List.mem_filter.1 hold).2)
          · exact List.mem_singleton.1 hone
        · rw [htook.queryHash, hquery]
        · rw [hphits, hsnapshot, List.drop_zero]
  | other _ hstep ih =>
    obtain ⟨snapshot, n, h⟩ := ih
    exact ⟨snapshot, n, sound_step h.sound hstep, held_step h.held hstep, h.minted, h.queryHash,
      h.hits_eq, h.given_eq,
      h.next_of⟩
  | follow _ hstep hf hanswer ih =>
    obtain ⟨snapshot, n, h⟩ := ih
    obtain ⟨e, he, -⟩ | ⟨p', stop, hp, -, halong⟩ := h.follow hf hstep
    · rw [he] at hanswer
      cases hanswer
    · rw [hp] at hanswer
      injection hanswer with hpage
      injection hpage with hpage
      rw [← hpage]
      exact ⟨snapshot, stop, halong⟩

/-- A request that searches a complete view for hits that fit. -/
structure Searches (platform : Platform) (r : Request) (view : SearchIndexStore.View)
    (hits : List Hit) : Prop where
  cursor : r.query.cursor = none
  view_eq : r.view = some view
  expected : r.query.expectedSessionId.isSome → r.query.expectedSessionId = some r.key.sessionId ∧
    r.query.expectedLogicalRevision = some r.key.logicalRevision
  complete : ∀ c ∈ view.coverage r.query.domains, c.state = .COMPLETE
  found : materialize r.found = .ok hits
  fits : (snapshotOf platform view r.query (view.coverage r.query.domains) hits r.id
    r.createdAt).bytes ≤ RESULT_BUDGET

/-- The snapshot that such a search leaves. -/
def Searches.made {view : SearchIndexStore.View} (_ : Searches platform r view hits) :
    ResultSnapshot :=
  snapshotOf platform view r.query (view.coverage r.query.domains) hits r.id r.createdAt

/-- **Such a search is answered with its first page**, and its snapshot is kept. -/
theorem Searches.walked {view : SearchIndexStore.View} (h : Searches platform r view hits) :
    ∃ t next, Walked platform r.query hits t (hits.take r.query.pageSize) next ∧
      Along platform r.query hits t (hits.take r.query.pageSize) next h.made
        (min hits.length r.query.pageSize) ∧
      t.state.results = [h.made] := by
  have hstep : Step platform empty r ⟨(answer platform r empty.state).2, [r.id]⟩ :=
    .search h.cursor List.not_mem_nil
  have hmissing : (view.coverage r.query.domains).filter (fun c => c.state ≠ .COMPLETE) = [] := by
    rw [List.filter_eq_nil_iff]
    intro c hc
    simp [h.complete c hc]
  have hexpected : ¬(r.query.expectedSessionId.isSome ∧
      (r.query.expectedSessionId ≠ some r.key.sessionId ∨
      r.query.expectedLogicalRevision ≠ some r.key.logicalRevision)) := by
    rintro ⟨hsome, hne⟩
    obtain ⟨hsession, hrevision⟩ := h.expected hsome
    rcases hne with hne | hne
    · exact hne hsession
    · exact hne hrevision
  -- the first request stores the snapshot, and shows its first page
  have hanswer : answer platform r empty.state = ((page platform
      (snapshotOf platform view r.query (view.coverage r.query.domains) hits r.id r.createdAt)
        r.query.pageSize 0).map .page,
        put (snapshotOf platform view r.query (view.coverage r.query.domains) hits r.id r.createdAt)
            ⟨[], 0⟩) := by
    unfold answer
    rw [h.cursor]
    dsimp only
    unfold underRead
    rw [if_neg hexpected, h.view_eq]
    dsimp only
    rw [hmissing, List.map_nil, if_neg (by simp), if_neg (by simp), h.found]
    dsimp only
    unfold retain
    dsimp only
    rw [if_neg (by have hfits := h.fits; omega)]
    rfl
  have hminted : Minted (snapshotOf platform view r.query (view.coverage r.query.domains) hits r.id
      r.createdAt) :=
    ⟨digest_hash platform _, digest_hash platform _, r.id_valid, length_materialize h.found⟩
  have hsize : 0 < r.query.pageSize := r.query.pageSize_valid.1
  obtain ⟨p, stop, hp, hstop, hphits, hnext⟩ := page_spec platform hminted hsize
  rw [Nat.zero_add] at hstop
  -- a page that is not full ends with the hits
  have htake : hits.take (min hits.length r.query.pageSize) = hits.take r.query.pageSize := by
    rcases Nat.le_total r.query.pageSize hits.length with hle | hle
    · rw [Nat.min_eq_right hle]
    · rw [Nat.min_eq_left hle, List.take_of_length_le (Nat.le_refl _), List.take_of_length_le hle]
  have hpage : p.hits = hits.take r.query.pageSize := by
    rw [hphits, hstop, List.drop_zero]
    exact htake
  have hresults : (answer platform r empty.state).2.results = [h.made] := by
    rw [hanswer]
    rfl
  -- so the first page is a walk, along the snapshot that was stored
  refine ⟨⟨(answer platform r empty.state).2, [r.id]⟩, p.nextCursor, ?_, ?_, hresults⟩
  · rw [← hpage]
    refine .search .refl hstep rfl h.cursor h.found ?_
    rw [hanswer, hp]
    rfl
  · refine ⟨sound_step sound_empty hstep, ⟨List.mem_cons_self, fun x hx _ => ?_⟩, hminted, rfl, rfl,
      htake.symm, ?_⟩
    · rw [hresults] at hx
      exact List.mem_singleton.1 hx
    · rw [hstop] at hnext
      exact hnext

/-- Hits that fit are added. -/
theorem addAll_ok {found start : List Hit} {m : ℕ} (hcount : start.length + found.length ≤ MAX_HITS)
    (hbytes : m + (found.map hitBytes).sum ≤ MAX_HIT_BYTES) : addAll found start m = .ok
    (start ++ found) := by
  induction found generalizing start m with
  | nil => rw [addAll, List.append_nil]
  | cons hit found ih =>
    rw [List.length_cons] at hcount
    rw [List.map_cons, List.sum_cons] at hbytes
    have hfits : ¬(MAX_HITS ≤ start.length ∨ MAX_HIT_BYTES < m + hitBytes hit) := by omega
    have hlen : (start ++ [hit]).length = start.length + 1 := List.length_append
    rw [addAll, if_neg hfits, ih (by omega) (by omega), List.append_assoc, List.singleton_append]

/-- Hits that fit are materialized. -/
theorem materialize_ok {found : List Hit} (hcount : found.length ≤ MAX_HITS)
    (hbytes : (found.map hitBytes).sum ≤ MAX_HIT_BYTES) : ∃ hits, materialize found = .ok hits ∧
    hits.Perm found := by
  refine ⟨_, ?_, List.mergeSort_perm found fun a b => compareHits a b != .gt⟩
  unfold materialize
  rw [addAll_ok (by simpa using hcount) (by simpa using hbytes), List.nil_append]
  rfl

/-- The view of an index without classes. -/
def emptyView (key : SearchIndexKey) : SearchIndexStore.View := ⟨key, 0, [], [], ∅, ∅, ∅, ∅, ∅⟩

/-- Where no domain is asked for, the coverage is complete. -/
theorem coverage_emptyView {key : SearchIndexKey} {domains : List Domain}
    {c : SearchIndexStore.Coverage}
    (h : c ∈ (emptyView key).coverage domains) : c.state = .COMPLETE ∧ c.diagnostics = [] := by
  obtain ⟨domain, -, rfl⟩ := List.mem_map.1 h
  have hstatuses : (emptyView key).statuses domain = ∅ := by
    unfold SearchIndexStore.View.statuses
    split <;> rfl
  have hnone : SearchIndexStore.diagnostics ∅ = [] := by
    unfold SearchIndexStore.diagnostics
    rw [AList.empty_entries, List.mergeSort_nil]
    rfl
  unfold SearchIndexStore.View.coverageOf
  split
  · exact ⟨rfl, rfl⟩
  · rw [hstatuses]
    exact ⟨rfl, hnone⟩

/-- One match of a class. -/
def oneHit (ref : SymbolRef) : Hit := ⟨.CLASS_NAME, some ref, none, none, [], none, none, none⟩

/-- A search that finds one match more than a page holds. -/
def searchOf (query : SearchQuery) (key : SearchIndexKey) (ref : SymbolRef) (id : JString)
    (hid : isUuid id) : Request where
  query := query
  key := key
  view := some (emptyView key)
  found := List.replicate (query.pageSize + 1) (oneHit ref)
  id := id
  createdAt := 0
  now _ := 0
  id_valid := hid
  view_key v hv := by
    obtain rfl := Option.some.inj hv
    rfl

/-- The hits of one search are searched. -/
theorem searches_searchOf {query : SearchQuery} {key : SearchIndexKey} {ref : SymbolRef}
    {id : JString} (hid : isUuid id)
    (hcursor : query.cursor = none) (hexpected : query.expectedSessionId.isSome →
      query.expectedSessionId = some key.sessionId ∧
        query.expectedLogicalRevision = some key.logicalRevision)
    (hsmall : hitBytes (oneHit ref) ≤ 40000) :
    ∃ hits, Searches platform (searchOf query key ref id hid) (emptyView key) hits ∧
      hits.length = query.pageSize + 1 := by
  have hsize := query.pageSize_valid.2
  have hsum : ((List.replicate (query.pageSize + 1) (oneHit ref)).map hitBytes).sum =
      (query.pageSize + 1) * hitBytes (oneHit ref) := by
    rw [List.map_replicate, List.sum_replicate, nsmul_eq_mul, Nat.cast_id]
  have hle : (query.pageSize + 1) * hitBytes (oneHit ref) ≤ 101 * 40000 :=
    Nat.mul_le_mul (by omega) hsmall
  have hcount : (List.replicate (query.pageSize + 1) (oneHit ref)).length ≤ MAX_HITS := by
    unfold MAX_HITS
    rw [List.length_replicate]
    omega
  have hbytes : ((List.replicate (query.pageSize + 1) (oneHit ref)).map hitBytes).sum ≤
      MAX_HIT_BYTES := by
    unfold MAX_HIT_BYTES
    omega
  obtain ⟨hits, hfound, hperm⟩ := materialize_ok hcount hbytes
  refine ⟨hits, ⟨hcursor, rfl, hexpected, fun c hc => (coverage_emptyView hc).1, hfound, ?_⟩, ?_⟩
  · have hdiagnostics : ((emptyView key).coverage query.domains).flatMap (fun c =>
        c.diagnostics) = [] :=
      List.flatMap_eq_nil_iff.2 fun c hc => (coverage_emptyView hc).2
    have htotal : (hits.map hitBytes).sum = (query.pageSize + 1) * hitBytes (oneHit ref) := by
      rw [(hperm.map hitBytes).sum_eq, hsum]
    show 1024 + (hits.map hitBytes).sum +
      ((((emptyView key).coverage query.domains).flatMap fun c => c.diagnostics).map
      fun d : JString => stringBytes (some d)).sum ≤ RESULT_BUDGET
    rw [hdiagnostics, htotal, List.map_nil, List.sum_nil]
    unfold RESULT_BUDGET
    omega
  · rw [hperm.length_eq, List.length_replicate]

/-- **A cursor can be followed** with any query of the same hash, at the view that the index still
has and at once. -/
theorem follow_searchOf {first second : SearchQuery} {key : SearchIndexKey} {ref : SymbolRef}
    {id : JString} (hid : isUuid id)
    (hcursor : first.cursor = none)
    (hfirst : first.expectedSessionId.isSome →
      first.expectedSessionId = some key.sessionId ∧
        first.expectedLogicalRevision = some key.logicalRevision)
    (hsecond : second.expectedSessionId.isSome →
      second.expectedSessionId = some key.sessionId ∧
        second.expectedLogicalRevision = some key.logicalRevision)
    (hsmall : hitBytes (oneHit ref) ≤ 40000)
    (hhash : queryHash platform first = queryHash platform second) :
    ∃ hits s t token r p, hits.length = first.pageSize + 1 ∧
      Walked platform first hits s (hits.take first.pageSize) (some token) ∧ second.follow token = some r.query ∧
        Step platform s r t ∧ (answer platform r s.state).1 = .ok (.page p) := by
  obtain ⟨hits, hsearch, hlen⟩ :=
    @searches_searchOf platform first key ref id hid hcursor hfirst hsmall
  obtain ⟨t, next, hwalked, halong, hresults⟩ := hsearch.walked
  -- one hit is left after the first page
  have hsize : (searchOf first key ref id hid).query.pageSize < hits.length := by
    rw [hlen]
    exact Nat.lt_succ_self _
  rw [Nat.min_eq_right hsize.le] at halong
  obtain ⟨token, rfl⟩ : ∃ token, next = some token := by
    rcases halong.next_of with ⟨hall, -⟩ | ⟨-, -, token, -, hsome⟩
    · rw [halong.hits_eq] at hall
      exact absurd hall hsize.ne
    · exact ⟨token, hsome⟩
  obtain ⟨hpos, hlast, hauth⟩ := halong.authenticate
  obtain ⟨token', htoken', -, hvalid⟩ := encode_minted platform halong.minted
    (searchOf first key ref id hid).query.pageSize
  obtain rfl : token' = token := by
    rcases halong.next_of with ⟨-, hnone⟩ | ⟨-, -, minted, hminted, hsome⟩
    · cases hnone
    · rw [hminted] at htoken'
      rw [← Except.ok.inj htoken', Option.some.inj hsome]
  -- the second query with the cursor, at the same view and the same time
  let query : SearchQuery :=
    { second with cursor := some token', cursor_valid := fun _ hs => Option.some.inj hs ▸ hvalid }
  let r : Request := { searchOf first key ref id hid with query := query }
  have hstep : Step platform t r ⟨(answer platform r t.state).2, t.issued⟩ := .follow nofun
  have hhash' : hsearch.made.queryHash = queryHash platform query := hhash
  have hposition : (cursorOf platform hsearch.made
      (searchOf first key ref id hid).query.pageSize).position.toInt =
      (searchOf first key ref id hid).query.pageSize := by
    have hmax := first.pageSize_valid.2
    exact Int32.toInt_ofNat_of_lt (by show first.pageSize < _; omega)
  have hfind : t.state.results.find? (fun x => x.storeId =
      (cursorOf platform hsearch.made (searchOf first key ref id hid).query.pageSize).storeId) =
          some hsearch.made := by
    rw [hresults]
    exact List.find?_cons_of_pos (decide_eq_true rfl)
  obtain ⟨p, -, hp, -⟩ := page_spec platform halong.minted query.pageSize_valid.1
  -- the stored snapshot is fresh, of the same identity and of the same hash
  have hpage : (pageFromCursor platform query
      (cursorOf platform hsearch.made (searchOf first key ref id hid).query.pageSize)
        (emptyView key) r.now
        t.state).1 = .ok p := by
    have hfresh : ¬expired (r.now hsearch.made.storeId) hsearch.made.createdAt = true := by
      show ¬expired 0 0 = true
      decide
    unfold pageFromCursor
    rw [if_neg (fun hne => hne hhash'), if_neg (by simp [cursorOf]; exact ⟨rfl, rfl⟩), hfind]
    dsimp only
    rw [hposition, if_neg hfresh, if_neg (by simp [cursorOf]; exact ⟨rfl, rfl⟩), if_neg (by omega)]
    exact hp
  have hexpected : ¬(r.query.expectedSessionId.isSome ∧
      (r.query.expectedSessionId ≠ some r.key.sessionId ∨
      r.query.expectedLogicalRevision ≠ some r.key.logicalRevision)) := by
    rintro ⟨hsome, hne | hne⟩
    · exact hne (hsecond hsome).1
    · exact hne (hsecond hsome).2
  refine ⟨hits, t, _, token', r, p, hlen, hwalked, dif_pos hvalid, hstep, ?_⟩
  have hcursor' : r.query.cursor = some token' := rfl
  have hview : r.view = some (emptyView key) := rfl
  unfold answer
  rw [hcursor']
  dsimp only
  rw [hauth]
  dsimp only
  unfold underRead
  rw [if_neg hexpected, hview]
  dsimp only
  rw [hpage]
  rfl

/-- **A walk gives the hits of its search in a row, each of them once.** The last cursor is gone
exactly when all were given; until then it can be presented, and is answered with the hits after
those that were given, or fails because the index or the snapshot is gone. Every cursor comes back
as it was written, and the counter, the budget and the count hold after every request. -/
theorem walk_exact (platform : Platform) :
    (∀ {query : SearchQuery} {hits given : List Hit} {next : Option JString} {s : Service},
      Walked platform query hits s given next → given <+: hits ∧ (next = none ↔ given = hits) ∧
        ∀ token ∈ next, (∃ q, query.follow token = some q) ∧
          ∀ (r : Request) (t : Service), query.follow token = some r.query → Step platform s r t →
            (∃ e, (answer platform r s.state).1 = .error e ∧ e.stale = true) ∨
              ∃ p, (answer platform r s.state).1 = .ok (.page p) ∧ p.hits ≠ [] ∧
                p.hits = (hits.drop given.length).take query.pageSize) ∧
    (∀ {cursor : Cursor} {token : JString}, encode platform cursor = .ok token →
      token.length ≤ 1024 →
      authenticate platform token = .ok cursor) ∧
    ∀ {s : Service}, Reached platform s →
      s.state.resultBytes = ((s.state.results.map ResultSnapshot.bytes).sum : ℕ) ∧
        s.state.resultBytes ≤ RESULT_BUDGET ∧ s.state.results.length ≤ 256 ∧
        ∀ snapshot ∈ s.state.results, ∀ n : ℕ, ∃ token, encode platform
          (cursorOf platform snapshot n) = .ok token ∧
          token.length ≤ 1024 := by
  refine ⟨fun {query hits given next s} hw => ?_, authenticate_encode, fun {s} hr => ?_⟩
  · obtain ⟨snapshot, n, h⟩ := along_of_walked hw
    have hn : n ≤ hits.length := by
      rw [← h.hits_eq]
      rcases h.next_of with ⟨heq, -⟩ | ⟨-, hlt, -⟩ <;> omega
    have hlen : given.length = n := by
      rw [h.given_eq, List.length_take, Nat.min_eq_left hn]
    -- what was given is what stands before the cursor
    refine ⟨h.given_eq ▸ List.take_prefix _ _, ⟨fun hnone => ?_, fun hall => ?_⟩,
      fun token htoken => ?_⟩
    · rcases h.next_of with ⟨heq, -⟩ | ⟨-, -, token, -, hsome⟩
      · rw [h.given_eq, heq, h.hits_eq, List.take_length]
      · rw [hnone] at hsome
        cases hsome
    -- a cursor is there only before the last hit
    · rcases h.next_of with ⟨-, hnone⟩ | ⟨-, hlt, -⟩
      · exact hnone
      · rw [hall, ← h.hits_eq] at hlen
        omega
    · obtain rfl : next = some token := htoken
      obtain ⟨hpos, hlast, -⟩ := h.authenticate
      refine ⟨?_, fun r t hf hstep => ?_⟩
      · obtain ⟨token', htoken', -, hvalid⟩ := encode_minted platform h.minted n
        rcases h.next_of with ⟨-, hnone⟩ | ⟨-, -, minted, hencode, heq⟩
        · cases hnone
        · obtain rfl := Option.some.inj heq
          rw [htoken'] at hencode
          obtain rfl := Except.ok.inj hencode
          exact ⟨_, dif_pos hvalid⟩
      -- the next page, if the snapshot is still kept
      · obtain ⟨e, he⟩ | ⟨p, -, hp, hphits, -⟩ := h.follow hf hstep
        · exact .inl ⟨e, he⟩
        · refine .inr ⟨p, hp, fun hempty => ?_, ?_⟩
          · -- the page size and the hits that are left are positive
            have hpageSize := query.pageSize_valid.1
            have hzero : ((hits.drop n).take query.pageSize).length = 0 := by
              rw [← hphits, hempty, List.length_nil]
            rw [List.length_take, List.length_drop, ← h.hits_eq] at hzero
            omega
          · rw [hphits, hlen]
  · have hs := sound_reached hr
    refine ⟨hs.accounts, hs.budget, hs.count, fun snapshot hx n => ?_⟩
    obtain ⟨token, htoken, hlen, -⟩ := encode_minted platform (hs.minted snapshot hx) n
    exact ⟨token, htoken, by omega⟩

end Walks

namespace OneClass

def query : SearchQuery :=
  ⟨str "A", [.CLASS_NAME], some .CONTAINS, true, 1, none, false, false, none,
    none, by decide, SearchQuery.className_valid, one_valid,
    nothing_expected, SearchQuery.no_cursor⟩

def key : SearchIndexKey := ⟨[], 0, 0, []⟩

def ref : SymbolRef := ⟨⟨.CLASS, str "LA;", none, none, none⟩, by decide +kernel⟩

end OneClass

/-- A search for two hits, one on a page: the cursor of the first page gives the second, and is the
last. -/
theorem walk_exact_two : ∃ hits s t token, hits.length = 2 ∧
    Walked Platform.zeros OneClass.query hits s (hits.take 1) (some token) ∧
      Walked Platform.zeros OneClass.query hits t hits none := by
  obtain ⟨hits, s, t, token, r, p, hlen, hw, hf, hstep, hanswer⟩ :=
    @follow_searchOf Platform.zeros OneClass.query OneClass.query
    OneClass.key OneClass.ref _ isUuid_someUuid rfl nofun nofun (by decide +kernel) rfl
  refine ⟨hits, s, t, token, hlen, hw, ?_⟩
  obtain ⟨-, -, hnext⟩ := (walk_exact Platform.zeros).1 hw
  obtain ⟨-, hfollowed⟩ := hnext token rfl
  obtain ⟨e, he, -⟩ | ⟨p', hp', -, hhits⟩ := hfollowed r t hf hstep
  · rw [hanswer] at he
    cases he
  · rw [hanswer] at hp'
    obtain rfl : p = p' := Answer.page.inj (Except.ok.inj hp')
    have hw' := Walked.follow hw hstep hf hanswer
    have hall : hits.take OneClass.query.pageSize ++ p.hits = hits := by
      have hone : OneClass.query.pageSize = 1 := rfl
      have hfirst : (hits.take OneClass.query.pageSize).length = 1 :=
        by rw [List.length_take, hone, hlen]; rfl
      have htail : (hits.drop 1).take 1 = hits.drop 1 :=
        List.take_of_length_le (by rw [List.length_drop, hlen]; exact le_rfl)
      rw [hhits, hfirst, hone, htail, List.take_append_drop]
    rw [hall] at hw'
    have hlast := ((walk_exact Platform.zeros).1 hw').2.1.2 rfl
    rwa [hlast] at hw'

end SearchService

end Libjadx
