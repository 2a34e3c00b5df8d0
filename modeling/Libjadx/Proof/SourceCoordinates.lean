import Libjadx.Spec.SourceCoordinates

/-!
# Lines and columns

* `lineStarts_eq`: the line starts are the ends of the terminators, in order.
* `lineIndex_spec`: the search finds the last start that is not behind the offset.
* `points_exact`: a point is what lines and columns are defined to be, and a later one is later in
  lines and columns.
-/

namespace Libjadx

namespace SourceCoordinates

variable {source : JString}

/-! ## Line starts -/

/-- Behind the first unit a terminator ends where it did. -/
theorem terminatorEnd_succ (c : JChar) (s : JString) {e : ℕ} (h : 0 < e) :
    terminatorEnd (c :: s) (e + 1) = terminatorEnd s e := by
  obtain ⟨e, rfl⟩ : ∃ k, e = k + 1 := ⟨e - 1, by omega⟩
  simp [terminatorEnd]

/-- The ends of the terminators. -/
def ends (s : JString) : List ℕ := (List.range' 1 s.length).filter (terminatorEnd s)

/-- The ends of the lines, unit by unit. -/
theorem ends_cons (c : JChar) (s : JString) :
    ends (c :: s) = (if terminatorEnd (c :: s) 1 then [1] else []) ++ (ends s).map (· + 1) := by
  have hrest : (List.range' 2 s.length).filter (terminatorEnd (c :: s)) = (ends s).map (· + 1) := by
    have hshift : List.range' 2 s.length = (List.range' 1 s.length).map (· + 1) := by
      have hadd := List.map_add_range' (a := 1) 1 s.length 1
      simpa only [Nat.add_comm] using hadd.symm
    rw [ends, hshift, List.filter_map]
    refine congrArg _ (List.filter_congr fun e he => ?_)
    exact terminatorEnd_succ c s (List.mem_range'_1.1 he).1
  rw [ends, List.length_cons, List.range'_succ, List.filter_cons, hrest]
  split <;> rfl

/-- The first unit ends a line by itself. -/
theorem terminatorEnd_one (c : JChar) (s : JString) :
    terminatorEnd (c :: s) 1 = (c == 10 || c == 13 && s.head? != some 10) := by
  cases s <;> simp [terminatorEnd]

/-- **The loop finds the ends of the terminators.** -/
theorem lineStartsFrom_eq (i : ℕ) (s : JString) : lineStartsFrom i s = (ends s).map (· + i) := by
  have hshift : ∀ (i : ℕ) (s : JString), (ends s).map (· + (i + 1)) = ((ends s).map (· + 1)).map
      (· + i) := by
    intro i s
    rw [List.map_map]
    exact List.map_congr_left fun e _ => by simp only [Function.comp_apply]; omega
  fun_induction lineStartsFrom i s with
  | case1 i => rfl
  | case2 i c =>
    rename_i h
    rw [ends_cons, terminatorEnd_one, if_pos (by rcases h with rfl | rfl <;> decide)]
    simp [ends, Nat.add_comm]
  | case3 i c =>
    rename_i h
    rw [not_or] at h
    rw [ends_cons, terminatorEnd_one, if_neg (by simp [h.1, h.2])]
    simp [ends]
  | case4 i c d s h ih =>
    -- a line feed after a carriage return: the pair ends behind the line feed
    obtain ⟨rfl, rfl⟩ := h
    rw [ih, ends_cons, ends_cons, terminatorEnd_one, terminatorEnd_one, if_neg (by simp),
      if_pos (by simp)]
    simp only [List.nil_append, List.singleton_append, List.map_cons, List.map_map]
    refine congrArg₂ _ (by omega) (List.map_congr_left fun e _ => ?_)
    simp only [Function.comp_apply]
    omega
  | case5 i c d s hpair h ih =>
    have hend : (c == 10 || c == 13 && (d :: s).head? != some 10) = true := by
      rcases h with rfl | rfl
      · have hd : d ≠ 10 := fun hd => hpair ⟨rfl, hd⟩
        simp [hd]
      · rfl
    rw [ih, ends_cons c, terminatorEnd_one, if_pos hend, List.map_append, hshift]
    refine congrArg₂ _ (by simp [Nat.add_comm]) rfl
  | case6 i c d s hpair h ih =>
    rw [not_or] at h
    rw [ih, ends_cons c, terminatorEnd_one, if_neg (by simp [h.1, h.2]), List.nil_append, hshift]

/-- **The lines start at zero and behind the terminators.** -/
theorem lineStarts_eq : lineStarts source = 0 :: ends source := by
  rw [lineStarts, lineStartsFrom_eq]
  simp

/-- A line ends within the source. -/
theorem mem_ends {e : ℕ} : e ∈ ends source ↔ e ≤ source.length ∧ terminatorEnd source e = true := by
  rw [ends, List.mem_filter, List.mem_range'_1]
  refine ⟨fun h => ⟨by omega, h.2⟩, fun h => ⟨⟨?_, by omega⟩, h.2⟩⟩
  have hpos := h.2
  simp only [terminatorEnd, Bool.and_eq_true, decide_eq_true_eq] at hpos
  omega

/-- **The starts are in order.** -/
theorem sorted_lineStarts : (lineStarts source).Pairwise (· < ·) := by
  rw [lineStarts_eq, List.pairwise_cons]
  refine ⟨fun e he => ?_, (List.pairwise_lt_range' 1).filter _⟩
  have := (List.mem_range'_1.1 (List.mem_filter.1 he).1).1
  omega

/-! ## The search -/

section Search

variable {starts : List ℕ} {offset : ℕ}

/-- **The search finds the last start that is not behind the offset.** -/
theorem lineIndex_spec (hsorted : starts.Pairwise (· < ·)) {low high : ℕ} (hlt : low < high)
    (hhigh : high ≤ starts.length)
    (hlow : ∀ s, starts[low]? = some s → s ≤ offset)
    (habove : ∀ k s, high ≤ k → starts[k]? = some s → offset < s) :
    lineIndex starts offset low high < starts.length ∧
      (∀ s, starts[lineIndex starts offset low high]? = some s → s ≤ offset) ∧
      ∀ k s, lineIndex starts offset low high < k → starts[k]? = some s → offset < s := by
  fun_induction lineIndex starts offset low high with
  | case1 low high hround mid hle ih =>
    have hmid : mid < starts.length := by omega
    refine ih (by omega) hhigh (fun s hs => ?_) habove
    rwa [List.getD_eq_getElem?_getD, hs, Option.getD_some] at hle
  | case2 low high hround mid hle ih =>
    have hmid : mid < starts.length := by omega
    rw [List.getD_eq_getElem?_getD, List.getElem?_eq_getElem hmid, Option.getD_some] at hle
    refine ih (by omega) (by omega) hlow fun k s hk hs => ?_
    obtain ⟨hklt, rfl⟩ := List.getElem?_eq_some_iff.1 hs
    rcases Nat.eq_or_lt_of_le hk with heq | hlt'
    · subst heq
      omega
    · have := List.pairwise_iff_getElem.1 hsorted _ _ hmid hklt hlt'
      omega
  | case3 low high hround => exact ⟨by omega, hlow, fun k s hk hs => habove k s (by omega) hs⟩

end Search

/-! ## Points -/

section Points

variable {offset : ℕ}

/-- What the search finds, in the starts of the lines. -/
theorem found (source : JString) (offset : ℕ) :
    ∃ low start, lineIndex (lineStarts source) offset 0 (lineStarts source).length = low ∧
      (lineStarts source)[low]? = some start ∧ start ≤ offset ∧ ∀ k s, low < k →
      (lineStarts source)[k]? = some s → offset < s := by
  have hzero : ∀ s, (lineStarts source)[0]? = some s → s ≤ offset := by
    intro s hs
    obtain rfl := Option.some.inj hs
    exact Nat.zero_le _
  have hpos : 0 < (lineStarts source).length := Nat.succ_pos _
  obtain ⟨hlt, hle, habove⟩ := lineIndex_spec sorted_lineStarts hpos le_rfl hzero
    fun k s hk hs => absurd (List.getElem?_eq_some_iff.1 hs).1 (not_lt.2 hk)
  exact ⟨_, _, rfl, List.getElem?_eq_getElem hlt, hle _ (List.getElem?_eq_getElem hlt), habove⟩

/-- The start that the search finds is the largest one not beyond. -/
theorem startOf_eq {low start : ℕ} (hget : (lineStarts source)[low]? = some start)
    (hle : start ≤ offset) (hoffset : offset ≤ source.length)
    (habove : ∀ k s, low < k → (lineStarts source)[k]? = some s → offset < s) :
    startOf source offset = start := by
  refine Nat.findGreatest_eq_iff.2 ⟨hle, fun hne => ?_, fun e hstart he hend => ?_⟩
  · have hmem := List.mem_of_getElem? hget
    rw [lineStarts_eq, List.mem_cons] at hmem
    exact (mem_ends.1 (hmem.resolve_left hne)).2
  · have hmem : e ∈ lineStarts source := by
      rw [lineStarts_eq]
      exact List.mem_cons_of_mem _ (mem_ends.2 ⟨by omega, hend⟩)
    obtain ⟨k, hk, rfl⟩ := List.getElem_of_mem hmem
    obtain ⟨hlow, hlt⟩ := List.getElem?_eq_some_iff.1 hget
    have hkl : low < k := by
      by_contra hnot
      rcases Nat.eq_or_lt_of_le (not_lt.1 hnot) with heq | hlt'
      · subst heq
        omega
      · have := List.pairwise_iff_getElem.1 sorted_lineStarts _ _ hk hlow hlt'
        omega
    have := habove k _ hkl (List.getElem?_eq_getElem hk)
    omega

/-- As many starts are not beyond an offset as stand before it. -/
theorem countP_le_sorted {l : List ℕ} (hsorted : l.Pairwise (· < ·)) {low start : ℕ}
    (hget : l[low]? = some start) (hle : start ≤ offset)
    (habove : ∀ k s, low < k → l[k]? = some s → offset < s) : l.countP (· ≤ offset) = low + 1 := by
  obtain ⟨hlow, rfl⟩ := List.getElem?_eq_some_iff.1 hget
  rw [← List.take_append_drop (low + 1) l, List.countP_append]
  have htake : (l.take (low + 1)).countP (· ≤ offset) = low + 1 := by
    rw [List.countP_eq_length.2, List.length_take, min_eq_left (by omega)]
    intro s hs
    obtain ⟨k, hk, rfl⟩ := List.mem_take_iff_getElem.1 hs
    rw [decide_eq_true_eq]
    rcases Nat.eq_or_lt_of_le (show k ≤ low by omega) with heq | hlt
    · subst heq
      exact hle
    · have := List.pairwise_iff_getElem.1 hsorted k low (by omega) hlow hlt
      omega
  have hdrop : (l.drop (low + 1)).countP (· ≤ offset) = 0 := by
    refine List.countP_eq_zero.2 fun s hs => ?_
    obtain ⟨k, hk, rfl⟩ := List.getElem_of_mem hs
    rw [List.getElem_drop] at *
    have := habove (low + 1 + k) _ (by omega)
      (List.getElem?_eq_getElem (by rw [List.length_drop] at hk; omega))
    simpa using this
  rw [htake, hdrop]

/-- **The line of an offset is the one that the search finds.** -/
theorem lineOf_eq {low start : ℕ} (hget : (lineStarts source)[low]? = some start)
    (hle : start ≤ offset) (hoffset : offset ≤ source.length)
    (habove : ∀ k s, low < k → (lineStarts source)[k]? = some s → offset < s) :
    lineOf source offset = low + 1 := by
  rw [← countP_le_sorted sorted_lineStarts hget hle habove, lineStarts_eq,
    List.countP_cons_of_pos (by simp)]
  unfold lineOf ends
  rw [List.countP_filter]
  congr 1
  -- the ends up to the offset are the ones of the text up to there
  have hsplit : List.range' 1 source.length = List.range' 1 offset ++ List.range' (1 + offset)
      (source.length - offset) := by
    rw [List.range'_append_1, Nat.add_sub_cancel' hoffset]
  rw [hsplit, List.countP_append]
  have hzero : (List.range' (1 + offset) (source.length - offset)).countP (fun e =>
      decide (e ≤ offset) && terminatorEnd source e) = 0 := by
    refine List.countP_eq_zero.2 fun e he => ?_
    have := (List.mem_range'_1.1 he).1
    rw [decide_eq_false (by omega)]
    simp
  rw [hzero, Nat.add_zero]
  refine List.countP_congr fun e he => ?_
  have := (List.mem_range'_1.1 he).2
  rw [decide_eq_true (by omega), Bool.true_and]

/-- A boundary lies within the source. -/
theorem le_of_isBoundary (h : isBoundary source offset = true) : offset ≤ source.length := by
  unfold isBoundary at h
  rw [Bool.and_eq_true, decide_eq_true_eq] at h
  exact h.1

/-- **A point is its line and its column.** -/
theorem point_eq (hoffset : offset ≤ source.length) :
    point source offset = ⟨offset, lineOf source offset, columnOf source offset⟩ := by
  obtain ⟨low, start, hsearch, hget, hle, habove⟩ := found source offset
  unfold point columnOf
  dsimp only
  rw [hsearch, List.getD_eq_getElem?_getD, hget, Option.getD_some, lineOf_eq hget hle hoffset habove,
    startOf_eq hget hle hoffset habove, Nat.cast_succ]

/-! ### Columns -/

/-- A pair is one code point. -/
theorem length_codePoints_cons (c d : JChar) (s : JString) : (codePoints (c :: d :: s)).length =
    if (isHighSurrogate c && isLowSurrogate d) = true then (codePoints s).length + 1 else
      (codePoints (d :: s)).length + 1 := by
  rw [codePoints]
  split
  · rfl
  · split <;> rfl

theorem length_codePoints_singleton (c : JChar) : (codePoints [c]).length = 1 := by
  rw [codePoints]
  split <;> rfl

/-- Code points on both sides of a cut that no pair spans. -/
theorem length_codePoints_append {x y : JString}
    (h : ¬ (x.getLast?.any isHighSurrogate = true ∧ y.head?.any isLowSurrogate = true)) :
    (codePoints (x ++ y)).length = (codePoints x).length + (codePoints y).length := by
  induction x using Paired.induct with
  | case1 => simp [codePoints]
  | case2 c =>
    cases y with
    | nil => simp [codePoints]
    | cons d y =>
      have hpair : ¬ (isHighSurrogate c && isLowSurrogate d) = true := by simpa using h
      rw [List.singleton_append, length_codePoints_cons, if_neg hpair, length_codePoints_singleton,
        Nat.add_comm]
  | case3 c d x hpair ih =>
    have hlast : ¬ (x.getLast?.any isHighSurrogate = true ∧ y.head?.any isLowSurrogate = true) := by
      cases x with
      | nil => simp
      | cons e x => rwa [List.getLast?_cons_cons, List.getLast?_cons_cons] at h
    rw [List.cons_append, List.cons_append, length_codePoints_cons, if_pos hpair,
      length_codePoints_cons, if_pos hpair, ih hlast]
    omega
  | case4 c d x hpair ih =>
    rw [List.getLast?_cons_cons] at h
    have hrest := ih h
    rw [List.cons_append] at hrest
    rw [List.cons_append, List.cons_append, length_codePoints_cons, if_neg hpair,
      length_codePoints_cons, if_neg hpair, hrest]
    omega

/-- A text that is not empty has a code point. -/
theorem length_codePoints_pos {x : JString} (h : x ≠ []) : 0 < (codePoints x).length := by
  fun_cases codePoints x with
  | case1 => exact absurd rfl h
  | case2 c => simp
  | case3 c => simp
  | case4 c d x => simp
  | case5 c d x => simp
  | case6 c d x => simp

/-- No pair spans a boundary. -/
theorem not_pair_of_isBoundary {a : ℕ} (h : isBoundary source a = true) (hpos : 0 < a)
    (hlt : a < source.length) :
    ¬ (source[a - 1]?.any isHighSurrogate = true ∧ source[a]?.any isLowSurrogate = true) := by
  unfold isBoundary at h
  simp only [Bool.and_eq_true, decide_eq_true_eq, Bool.not_eq_true', Bool.and_eq_false_iff,
    decide_eq_false_iff_not] at h
  rintro ⟨hhigh, hlow⟩
  rcases h.2 with ((h | h) | h) | h
  · exact h hpos
  · exact h hlt
  · rw [h] at hhigh
    cases hhigh
  · rw [h] at hlow
    cases hlow

/-- Columns of one line are as far apart as the offsets. -/
theorem codePointCount_lt {start a b : ℕ} (hstart : start ≤ a) (hab : a < b)
    (hb : b ≤ source.length) (h : isBoundary source a = true) :
    codePointCount source start a < codePointCount source start b := by
  have hsplit : (source.take b).drop start = (source.take a).drop start ++
      (source.take b).drop a := by
    have htake : source.take a = (source.take b).take a := by rw [List.take_take, min_eq_left (by omega)]
    rw [htake]
    conv_lhs => rw [← List.take_append_drop a (source.take b)]
    rw [List.drop_append_of_le_length]
    rw [List.length_take, List.length_take]
    omega
  have hpiece : (source.take b).drop a ≠ [] := by
    rw [ne_eq, List.drop_eq_nil_iff, List.length_take]
    omega
  have hcut : ¬ (((source.take a).drop start).getLast?.any isHighSurrogate = true ∧
      ((source.take b).drop a).head?.any isLowSurrogate = true) := by
    rintro ⟨hhigh, hlow⟩
    have hhead : ((source.take b).drop a).head? = source[a]? := by
      rw [List.head?_drop, List.getElem?_take_of_lt hab]
    rcases Nat.eq_or_lt_of_le hstart with heq | hlt
    · rw [List.drop_eq_nil_of_le (by rw [List.length_take]; omega)] at hhigh
      cases hhigh
    · have hlast : ((source.take a).drop start).getLast? = source[a - 1]? := by
        rw [List.getLast?_drop, if_neg (by rw [List.length_take]; omega), List.getLast?_eq_getElem?,
          List.length_take,
          min_eq_left (by omega), List.getElem?_take_of_lt (by omega)]
      rw [hlast] at hhigh
      rw [hhead] at hlow
      exact not_pair_of_isBoundary h (by omega) (by omega) ⟨hhigh, hlow⟩
  unfold codePointCount
  rw [hsplit, length_codePoints_append hcut]
  have := length_codePoints_pos hpiece
  omega

/-- A line starts before its offset. -/
theorem startOf_le (offset : ℕ) : startOf source offset ≤ offset := Nat.findGreatest_le offset

/-- Later offsets have later points. -/
theorem point_lt {a b : ℕ} (ha : isBoundary source a = true) (hb : isBoundary source b = true)
    (hab : a < b) :
    lineOf source a < lineOf source b ∨ lineOf source a = lineOf source b ∧
      columnOf source a < columnOf source b := by
  have hsplit : List.range' 1 b = List.range' 1 a ++ List.range' (1 + a) (b - a) := by
    rw [List.range'_append_1, Nat.add_sub_cancel' hab.le]
  have hcount : lineOf source b = lineOf source a + (List.range' (1 + a) (b - a)).countP
      (terminatorEnd source) := by
    unfold lineOf
    rw [hsplit, List.countP_append]
    omega
  rcases Nat.eq_zero_or_pos ((List.range' (1 + a) (b - a)).countP
    (terminatorEnd source)) with hzero | hpos
  · refine .inr ⟨by omega, ?_⟩
    -- no terminator ends between the two: they are on one line
    have hstart : startOf source b = startOf source a := by
      refine Nat.findGreatest_eq_iff.2 ⟨(startOf_le a).trans hab.le, fun hne => ?_,
        fun e hlt hle hend => ?_⟩
      · exact (Nat.findGreatest_eq_iff.1 (rfl : startOf source a = startOf source a)).2.1 hne
      · by_cases hea : e ≤ a
        · exact (Nat.findGreatest_eq_iff.1 (rfl : startOf source a = startOf source a)).2.2
            hlt hea hend
        · exact List.countP_eq_zero.1 hzero e (List.mem_range'_1.2 ⟨by omega, by omega⟩) hend
    unfold columnOf
    rw [hstart]
    exact codePointCount_lt (startOf_le a) hab (le_of_isBoundary hb) ha
  · exact .inl (by omega)

/-- **Points are what lines and columns are defined to be**, at every boundary; the point of a later
boundary is later. -/
theorem points_exact (source : JString) :
    (∀ offset, isBoundary source offset = true →
      checkedPoint source offset = .ok ⟨offset, lineOf source offset, columnOf source offset⟩) ∧
    ∀ a b, isBoundary source a = true → isBoundary source b = true → a < b →
      lineOf source a < lineOf source b ∨ lineOf source a = lineOf source b ∧
        columnOf source a < columnOf source b := by
  refine ⟨fun offset h => ?_, fun a b ha hb hab => point_lt ha hb hab⟩
  rw [checkedPoint, if_pos h, point_eq (le_of_isBoundary h)]

/-- The offset between the two units of a line end is on the line that it ends. -/
theorem points_exact_crlf : checkedPoint (str "a\r\nb") 2 = .ok ⟨2, 1, 2⟩ ∧
    (lineOf (str "a\r\nb") 2 < lineOf (str "a\r\nb") 3 ∨ lineOf (str "a\r\nb") 2 = lineOf
      (str "a\r\nb") 3 ∧
      columnOf (str "a\r\nb") 2 < columnOf (str "a\r\nb") 3) :=
  ⟨(points_exact (str "a\r\nb")).1 2 (by decide), (points_exact (str "a\r\nb")).2 2 3 (by decide)
    (by decide) (by decide)⟩

end Points

end SourceCoordinates

end Libjadx
