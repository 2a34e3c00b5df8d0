import Libjadx.Spec.SearchMatches

/-!
# Exact searches in a source

The loop over a source goes on behind every occurrence of the query that it comes to, also where the
test of its surroundings refuses it. So it finds what passes the test, and misses what passes and
starts within an occurrence that was refused (`matches_exact_iff`).
-/

namespace Libjadx.SearchService

open SourceCoordinates Scan

variable {letters : Letters} {query : SearchQuery} {source : JString}

/-! ## Occurrences -/

/-- The text of the query, as the query compares it. -/
def SameText (letters : Letters) (query : SearchQuery) (text : JString) : Prop :=
  if query.caseSensitive then text = query.query else letters.quotedMatches query.query text = true

instance (letters : Letters) (query : SearchQuery) (text : JString) :
    Decidable (SameText letters query text) :=
  inferInstanceAs (Decidable (if query.caseSensitive then _ else _))

/-- The query occurs at a place, on code point boundaries. -/
structure Occurs (letters : Letters) (query : SearchQuery) (source : JString) (i : ℕ) : Prop where
  text : SameText letters query ((source.drop i).take query.query.length)
  start : isBoundary source i = true
  stop : isBoundary source (i + query.query.length) = true

/-- No identifier goes on at either end. -/
def Stands (letters : Letters) (query : SearchQuery) (source : JString) (i : ℕ) : Prop :=
  tokenBoundaries letters source i (i + query.query.length) = true

/-- What the loop comes to, before any test: for a search with regard to case also within a code
point. -/
def Candidate (letters : Letters) (query : SearchQuery) (source : JString) (i : ℕ) : Prop :=
  if query.caseSensitive then occursAt query.query source i = true
    else Occurs letters query source i

/-- A query is not empty. -/
theorem query_pos (query : SearchQuery) : 0 < query.query.length := by
  rw [List.length_pos_iff]
  intro hnil
  have hvalid := query.query_valid
  unfold SearchQuery.validQuery at hvalid
  rw [hnil] at hvalid
  exact absurd hvalid (by decide)

/-- What stands at the front is what the text begins with. -/
theorem isPrefixOf_iff_take {s t : JString} : s.isPrefixOf t = true ↔ t.take s.length = s := by
  rw [List.isPrefixOf_iff_prefix, List.prefix_iff_eq_take, eq_comm]

/-- A boundary lies within the source. -/
theorem isBoundary_le {i : ℕ} (h : isBoundary source i = true) : i ≤ source.length := by
  unfold isBoundary at h
  exact of_decide_eq_true (Bool.and_eq_true_iff.1 h).1

/-- A text that occurs begins within the source. -/
theorem occursAt_lt {i : ℕ} (h : occursAt query.query source i = true) : i < source.length :=
  of_decide_eq_true (Bool.and_eq_true_iff.1 h).1

/-- So does a candidate. -/
theorem candidate_lt {i : ℕ} (h : Candidate letters query source i) : i < source.length := by
  unfold Candidate at h
  split at h
  · exact occursAt_lt h
  · have hstop := isBoundary_le h.stop
    have hpos := query_pos query
    omega

/-- An occurrence is what the loop comes to, on boundaries. -/
theorem occurs_iff {i : ℕ} : Occurs letters query source i ↔ Candidate letters query source i ∧
    isBoundary source i = true ∧ isBoundary source (i + query.query.length) = true := by
  have hpos := query_pos query
  unfold Candidate
  split
  · rename_i hcase
    constructor
    · rintro ⟨htext, hstart, hstop⟩
      refine ⟨?_, hstart, hstop⟩
      unfold SameText at htext
      rw [if_pos hcase] at htext
      unfold occursAt
      rw [Bool.and_eq_true, decide_eq_true_iff, isPrefixOf_iff_take]
      have hend := isBoundary_le hstop
      exact ⟨by omega, htext⟩
    · rintro ⟨hc, hstart, hstop⟩
      refine ⟨?_, hstart, hstop⟩
      unfold SameText
      rw [if_pos hcase]
      exact isPrefixOf_iff_take.1 (Bool.and_eq_true_iff.1 hc).2
  · exact ⟨fun h => ⟨h, h.start, h.stop⟩, And.left⟩

/-! ## The loops -/

/-- The loop over `indexOf` comes to the leftmost occurrences. -/
theorem mem_starts {i : ℕ} : i ∈ starts query.query source ↔
    Leftmost (fun i => occursAt query.query source i = true) query.query.length i :=
  mem_scan_zero (finds_firstFrom fun _ h => occursAt_lt h) (query_pos query)

/-- So does the loop over `find`. -/
theorem mem_quoted (hquotes : letters.Quotes) (hcase : ¬ query.caseSensitive = true) {r : ℕ × ℕ} :
    r ∈ letters.quoted query.query source ↔
      r.2 = r.1 + query.query.length ∧
        Leftmost (Occurs letters query source) query.query.length r.1 := by
  have hpos := query_pos query
  have hne : query.query ≠ [] := List.length_pos_iff.1 hpos
  have hfound : ∀ r ∈ letters.quoted query.query source,
      r.2 = r.1 + query.query.length ∧ Occurs letters query source r.1 := by
    rintro ⟨start, stop⟩ hr
    obtain ⟨hstart, hstop⟩ := hquotes.boundaries _ source hne _ hr
    obtain ⟨hle, htext⟩ := hquotes.found _ source hne _ hr
    have hlength := hquotes.length _ _ htext
    have hend := isBoundary_le hstop
    rw [List.length_drop, List.length_take] at hlength
    dsimp only at hle hlength hend htext hstop ⊢
    obtain rfl : stop = start + query.query.length := by omega
    refine ⟨rfl, ?_, hstart, hstop⟩
    unfold SameText
    rw [if_neg hcase, ← htext, List.drop_take, Nat.add_sub_cancel_left]
  have hcover : ∀ v, Occurs letters query source v →
      (v, v + query.query.length) ∈ letters.quoted query.query source ∨
      ∃ r ∈ letters.quoted query.query source, r.1 < v ∧ v < r.2 := by
    rintro v ⟨htext, hstart, hstop⟩
    refine hquotes.leftmost _ source hne v _ (Nat.le_add_right _ _) hstart hstop ?_
    unfold SameText at htext
    rw [if_neg hcase] at htext
    rwa [List.drop_take, Nat.add_sub_cancel_left]
  have hleft := @mem_iff_leftmost (Occurs letters query source) query.query.length _ hpos hfound
    (hquotes.apart _ source hne) hcover
  obtain ⟨start, stop⟩ := r
  constructor
  · intro hr
    obtain ⟨hstop, -⟩ := hfound _ hr
    obtain rfl : stop = start + query.query.length := hstop
    exact ⟨rfl, hleft.1 hr⟩
  · rintro ⟨hstop, hl⟩
    obtain rfl : stop = start + query.query.length := hstop
    exact hleft.2 hl

/-- **The candidates are the leftmost ones.** -/
theorem mem_candidates (hquotes : letters.Quotes) {r : ℕ × ℕ} :
    r ∈ candidates letters query none source ↔
    r.2 = r.1 + query.query.length ∧
      Leftmost (Candidate letters query source) query.query.length r.1 := by
  have hpos := query_pos query
  unfold candidates sourcePattern Candidate
  rw [Option.none_or]
  by_cases hcase : query.caseSensitive = true
  · simp only [if_pos hcase]
    rw [List.mem_map]
    constructor
    · rintro ⟨i, hi, rfl⟩
      exact ⟨rfl, mem_starts.1 hi⟩
    · obtain ⟨i, stop⟩ := r
      rintro ⟨hstop, hleft⟩
      obtain rfl : stop = i + query.query.length := hstop
      exact ⟨i, mem_starts.2 hleft, rfl⟩
  · simp only [if_neg hcase]
    rw [List.mem_filter, mem_quoted hquotes hcase, decide_eq_true_iff]
    exact and_iff_left_of_imp fun ⟨hstop, _⟩ => by omega

/-- **So are the ranges.** -/
theorem mem_ranges (hquotes : letters.Quotes) (hexact : query.matchMode = some .EXACT) {r : ℕ × ℕ} :
    r ∈ ranges letters query none source ↔
      r.2 = r.1 + query.query.length ∧
        Leftmost (Candidate letters query source) query.query.length r.1 ∧
        Occurs letters query source r.1 ∧ Stands letters query source r.1 := by
  unfold ranges
  rw [List.mem_filter, mem_candidates hquotes]
  unfold acceptsRange
  rw [Bool.and_eq_true, Bool.and_eq_true, hexact]
  have htest : (some MatchMode.EXACT != some MatchMode.EXACT || tokenBoundaries letters source r.1 r.2) =
      tokenBoundaries letters source r.1 r.2 := by simp
  rw [htest]
  obtain ⟨i, stop⟩ := r
  constructor
  · rintro ⟨⟨hstop, hleft⟩, ⟨hstart, hend⟩, hstands⟩
    obtain rfl : stop = i + query.query.length := hstop
    exact ⟨rfl, hleft, occurs_iff.2 ⟨hleft.occurs, hstart, hend⟩, hstands⟩
  · rintro ⟨hstop, hleft, hoccurs, hstands⟩
    obtain rfl : stop = i + query.query.length := hstop
    exact ⟨⟨rfl, hleft⟩, ⟨hoccurs.start, hoccurs.stop⟩, hstands⟩

/-- **When an exact search of a source is complete.** What it reports stands as the query says,
always; what stands so is reported or overlaps something reported before it, if and only if none
starts within a leftmost occurrence that does not stand so. -/
theorem matches_exact_iff (letters : Letters) (hquotes : letters.Quotes) (query : SearchQuery)
    (source : JString)
    (hexact : query.matchMode = some .EXACT) :
    ((∀ r ∈ ranges letters query none source, r.2 = r.1 + query.query.length ∧
        Occurs letters query source r.1 ∧
        Stands letters query source r.1) ∧
      ∀ v, Occurs letters query source v → Stands letters query source v →
        (v, v + query.query.length) ∈ ranges letters query none source ∨
          ∃ c, (c, c + query.query.length) ∈ ranges letters query none source ∧ c < v ∧
            v < c + query.query.length) ↔
    ∀ c, Leftmost (Candidate letters query source) query.query.length c →
      ¬ (Occurs letters query source c ∧ Stands letters query source c) →
      ∀ v, c < v → v < c + query.query.length → Occurs letters query source v →
        ¬ Stands letters query source v := by
  -- what is reported was looked at, whatever is left out
  have hsound : ∀ r ∈ ranges letters query none source, r.2 = r.1 + query.query.length ∧
      Occurs letters query source r.1 ∧
      Stands letters query source r.1 := by
    intro r hr
    obtain ⟨hstop, -, hoccurs, hstands⟩ := (mem_ranges hquotes hexact).1 hr
    exact ⟨hstop, hoccurs, hstands⟩
  have hmem : ∀ {c : ℕ}, (c, c + query.query.length) ∈ ranges letters query none source ↔
      Leftmost (Candidate letters query source) query.query.length c ∧
          Occurs letters query source c ∧ Stands letters query source c := by
    intro c
    rw [mem_ranges hquotes hexact]
    exact and_iff_right rfl
  have hlib := @complete_iff (Candidate letters query source) (fun c =>
    Occurs letters query source c ∧ Stands letters query source c)
    query.query.length
  -- the library's rule, for candidates that stand as the query says
  constructor
  · rintro ⟨-, hcomplete⟩ c hc hbad v hlt hin hoccurs hstands
    refine hlib.1 (fun x _ hx => ?_) c hc hbad v hlt hin (occurs_iff.1 hoccurs).1 ⟨hoccurs, hstands⟩
    obtain hx' | ⟨b, hb, hbx, hxb⟩ := hcomplete x hx.1 hx.2
    · exact .inl (hmem.1 hx').1
    · exact .inr ⟨b, (hmem.1 hb).1, (hmem.1 hb).2, hbx, hxb⟩
  · intro hclear
    refine ⟨hsound, fun v hoccurs hstands => ?_⟩
    have hcomplete := hlib.2 (fun c hc hbad x hlt hin _ hx => hclear c hc hbad x hlt hin hx.1 hx.2) v
      (occurs_iff.1 hoccurs).1 ⟨hoccurs, hstands⟩
    refine hcomplete.imp (fun hleft => hmem.2 ⟨hleft, hoccurs, hstands⟩)
      fun ⟨c, hc, hgood, hlt, hin⟩ => ?_
    exact ⟨c, hmem.2 ⟨hc, hgood⟩, hlt, hin⟩

namespace Overlap

/-- The identifier parts of ASCII, and nothing else. -/
def asciiPart (c : ℕ) : Bool :=
  (0x41 ≤ c && c ≤ 0x5A) || (0x61 ≤ c && c ≤ 0x7A) || (0x30 ≤ c && c ≤ 0x39) || c == 0x5F ||
    c == 0x24 || c ≤ 8 ||
    (0xE ≤ c && c ≤ 0x1B) || c == 0x7F

/-- A letter of ASCII as a small one. -/
def asciiLower (c : JChar) : JChar := if 0x41 ≤ c && c ≤ 0x5A then c + 0x20 else c

/-- Whether two texts are the same but for the case of letters of ASCII. -/
def asciiMatches (s t : JString) : Bool := s.map asciiLower == t.map asciiLower

/-- Whether the query is at an index, on boundaries. -/
def quotedAt (query source : JString) (i : ℕ) : Bool :=
  isBoundary source i && isBoundary source (i + query.length) && asciiMatches query
    ((source.take (i + query.length)).drop i)

def ascii : Letters where
  isJavaIdentifierPart := asciiPart
  toLowerCase s := s.map asciiLower
  equalsIgnoreCase := asciiMatches
  quotedMatches := asciiMatches
  quoted query source :=
    (scan (firstFrom (quotedAt query source) source.length) query.length source.length 0).map
      fun i => (i, i + query.length)

/-- What matches is of the same length. -/
theorem length_asciiMatches {s t : JString} (h : asciiMatches s t = true) :
    t.length = s.length := by
  have heq := congrArg List.length (beq_iff_eq.1 h)
  rw [List.length_map, List.length_map] at heq
  exact heq.symm

/-- What the reference implementation finds at an index. -/
theorem quotedAt_iff {query source : JString} {i : ℕ} :
    quotedAt query source i = true ↔ isBoundary source i = true ∧
    isBoundary source (i + query.length) = true ∧
      asciiMatches query ((source.take (i + query.length)).drop i) = true := by
  unfold quotedAt
  rw [Bool.and_eq_true, Bool.and_eq_true, and_assoc]

/-- It finds the first such index, if there is one. -/
theorem finds_quotedAt {query source : JString} (hne : query ≠ []) :
    Finds (fun i => quotedAt query source i = true) source.length
      (firstFrom (quotedAt query source) source.length) := by
  refine finds_firstFrom fun i hi => ?_
  have hstop := isBoundary_le (quotedAt_iff.1 hi).2.1
  have hpos := List.length_pos_iff.2 hne
  omega

/-- What is relied on is what a search for letters of ASCII does. -/
theorem quotes : ascii.Quotes := by
  -- the matches that are found are the leftmost ones
  have hmem : ∀ {query source : JString}, query ≠ [] →
      ∀ {r : ℕ × ℕ}, r ∈ ascii.quoted query source ↔
      r.2 = r.1 + query.length ∧ Leftmost (fun i => quotedAt query source i = true) query.length r.1 := by
    intro query source hne r
    have hfinds : Finds _ source.length _ := @finds_quotedAt query source hne
    have hscan := @mem_scan_zero _ query.length _ _ hfinds
      (List.length_pos_iff.2 hne)
    obtain ⟨start, stop⟩ := r
    constructor
    · intro hr
      obtain ⟨i, hi, heq⟩ := List.mem_map.1 hr
      obtain ⟨rfl, rfl⟩ := Prod.mk.inj heq
      exact ⟨rfl, hscan.1 hi⟩
    · rintro ⟨hstop, hleft⟩
      obtain rfl : stop = start + query.length := hstop
      exact List.mem_map.2 ⟨start, hscan.2 hleft, rfl⟩
  have hat : ∀ {query source : JString}, query ≠ [] → ∀ r ∈ ascii.quoted query source, r.2 = r.1 +
      query.length ∧
      quotedAt query source r.1 = true := by
    intro query source hne r hr
    obtain ⟨hstop, hleft⟩ := (hmem hne).1 hr
    exact ⟨hstop, hleft.occurs⟩
  refine ⟨fun _ _ h => length_asciiMatches h, fun query source hne r hr => ?_,
    fun query source hne r hr => ?_,
    fun query source hne => ?_, fun query source hne i j hij hstart hstop htext => ?_⟩
  · obtain ⟨hstop, hr⟩ := hat hne r hr
    rw [hstop]
    exact ⟨(quotedAt_iff.1 hr).1, (quotedAt_iff.1 hr).2.1⟩
  · obtain ⟨hstop, hr⟩ := hat hne r hr
    rw [hstop]
    exact ⟨Nat.le_add_right _ _, (quotedAt_iff.1 hr).2.2⟩
  · exact List.pairwise_map.2 (scan_pairwise (finds_quotedAt hne) _ _).1
  -- what is left out is covered by a leftmost match, which is found
  · have hlength := length_asciiMatches htext
    have hend := isBoundary_le hstop
    rw [List.length_drop, List.length_take] at hlength
    obtain rfl : j = i + query.length := by omega
    have hocc : quotedAt query source i = true := quotedAt_iff.2 ⟨hstart, hstop, htext⟩
    refine (@leftmost_or_covered (fun i => quotedAt query source i = true) query.length i hocc).imp
      (fun hleft => (hmem hne).2 ⟨rfl, hleft⟩) fun ⟨c, hleft, hlt, hin⟩ => ?_
    exact ⟨(c, c + query.length), (hmem hne).2 ⟨rfl, hleft⟩, hlt, hin⟩

/-- An exact search for `a.a`. -/
def search : SearchQuery where
  query := str "a.a"
  domains := [.SOURCE_TEXT]
  matchMode := some .EXACT
  caseSensitive := true
  pageSize := 10
  cursor := none
  strict := false
  requireComplete := false
  expectedSessionId := none
  expectedLogicalRevision := none
  query_valid := by decide
  domains_valid := by decide
  pageSize_valid := ten_valid
  expected_valid := nothing_expected
  cursor_valid := SearchQuery.no_cursor

/-- The first `a.a` is refused for the `x` before it, and hides the second. -/
def covered : JString := str "xa.a.a"

/-- The occurrence at 3 is not reported, -/
theorem hidden : ranges ascii search none covered = [] := by decide +kernel

/-- though it is one. -/
theorem occurs : Occurs ascii search covered 3 where
  text := by decide +kernel
  start := by decide +kernel
  stop := by decide +kernel

end Overlap

/-- An occurrence that stands by itself is not reported. -/
theorem matches_exact_incomplete :
    ¬ ∀ (letters : Letters), letters.Quotes → ∀ (query : SearchQuery) (source : JString),
    query.matchMode = some .EXACT → ∀ v, Occurs letters query source v →
      Stands letters query source v →
      (v, v + query.query.length) ∈ ranges letters query none source ∨
        ∃ c, (c, c + query.query.length) ∈ ranges letters query none source ∧ c < v ∧
          v < c + query.query.length := by
  intro hall
  have hstands : Stands Overlap.ascii Overlap.search Overlap.covered 3 := by
    unfold Stands
    decide +kernel
  have h := hall Overlap.ascii Overlap.quotes Overlap.search Overlap.covered rfl 3 Overlap.occurs hstands
  rw [Overlap.hidden] at h
  simp at h

/-- Both of two occurrences are reported. -/
theorem matches_exact_two :
    (∀ v, Occurs Overlap.ascii Overlap.search (str "a.a a.a") v →
      Stands Overlap.ascii Overlap.search (str "a.a a.a") v →
      (v, v + 3) ∈ ranges Overlap.ascii Overlap.search none (str "a.a a.a") ∨
        ∃ c, (c, c + 3) ∈ ranges Overlap.ascii Overlap.search none (str "a.a a.a") ∧ c < v ∧
          v < c + 3) ∧
    ranges Overlap.ascii Overlap.search none (str "a.a a.a") = [(0, 3), (4, 7)] := by
  refine ⟨((matches_exact_iff Overlap.ascii Overlap.quotes Overlap.search (str "a.a a.a") rfl).2
    ?_).2, by decide +kernel⟩
  have hplaces : ∀ v < 7, occursAt (str "a.a") (str "a.a a.a") v = true → v = 0 ∨
    v = 4 := by decide +kernel
  intro c hc _ v hlt hin hoccurs
  have hv := (occurs_iff.1 hoccurs).1
  have hin' : v < c + 3 := hin
  rcases hplaces c (candidate_lt hc.occurs) hc.occurs with rfl | rfl <;>
    rcases hplaces v (candidate_lt hv) hv with rfl | rfl <;> omega

end Libjadx.SearchService
