import Libjadx.Spec.UnixPath

/-!
# Texts of paths

The names of a path that `Path.of` gives, and the way back: an absolute path is what its text
denotes.

Main results: `names_of`, `of_slashed`.
-/

namespace Libjadx

variable {s t : JString}

/-! ## Surrogates at a cut -/

/-- A text can be cut at a unit that is no surrogate. -/
theorem paired_cut {c : JChar} (hc : (isHighSurrogate c || isLowSurrogate c) = false)
    (h : Paired (s ++ c :: t) = true) : Paired s = true ∧ Paired t = true := by
  have hlow : isLowSurrogate c = false := (Bool.or_eq_false_iff.1 hc).2
  have hs : Paired s = true := by
    induction s using Paired.induct with
    | case1 => rfl
    | case2 d =>
      have hpair : ¬ (isHighSurrogate d && isLowSurrogate c) = true := by simp [hlow]
      rw [Paired, (paired_cons hpair h).1]
      rfl
    | case3 d e s hpair ih =>
      rw [Paired, if_pos hpair]
      change Paired (d :: e :: (s ++ c :: t)) = true at h
      rw [Paired, if_pos hpair] at h
      exact ih h
    | case4 d e s hpair ih =>
      obtain ⟨hd, hrest⟩ := paired_cons hpair h
      rw [Paired, if_neg hpair, hd, ih hrest]
      rfl
  rw [(paired_append hs _).2, (codePoints_cons c hc t).2] at h
  exact ⟨hs, h⟩

/-- A slash is no surrogate. -/
theorem slash_unit : (isHighSurrogate (chr '/') || isLowSurrogate (chr '/')) = false := by decide

namespace UnixPath

/-! ## Names -/

/-- A name in a path. -/
structure Name (name : JString) : Prop where
  nonempty : name ≠ []
  no_slash : chr '/' ∉ name
  no_nul : 0 ∉ name
  paired : Paired name = true

/-- What is between two slashes. -/
theorem mem_splitOn (piece : JString) : ∀ (n : ℕ) {text : JString}, text.length ≤ n →
    piece ∈ text.splitOn (chr '/') → chr '/' ∉ piece ∧ (∀ c ∈ piece, c ∈ text) ∧
      (Paired text = true → Paired piece = true) := by
  intro n
  induction n with
  | zero =>
    intro text hn hmem
    obtain rfl := List.eq_nil_of_length_eq_zero (Nat.le_zero.1 hn)
    rw [List.splitOn_nil, List.mem_singleton] at hmem
    subst hmem
    exact ⟨List.not_mem_nil, fun _ h => h, fun h => h⟩
  | succ n ih =>
    intro text hn hmem
    by_cases hslash : chr '/' ∈ text
    · obtain ⟨a, b, rfl, ha⟩ := List.eq_append_cons_of_mem hslash
      rw [List.splitOn_append_cons_self_of_not_mem ha] at hmem
      have hb : b.length ≤ n := by
        rw [List.length_append, List.length_cons] at hn
        omega
      rcases List.mem_cons.1 hmem with rfl | hmem
      · refine ⟨ha, fun c hc => List.mem_append_left _ hc, fun h => (paired_cut slash_unit h).1⟩
      · obtain ⟨hno, hin, hpaired⟩ := ih hb hmem
        refine ⟨hno, fun c hc => List.mem_append_right _ (List.mem_cons_of_mem _ (hin c hc)),
          fun h => ?_⟩
        exact hpaired (paired_cut slash_unit h).2
    · rw [List.splitOn_eq_singleton hslash, List.mem_singleton] at hmem
      subst hmem
      exact ⟨hslash, fun _ h => h, fun h => h⟩

/-- What `Path.of` gives has names. -/
theorem names_of {text : JString} {p : UnixPath} (h : of text = .ok p) :
    ∀ name ∈ p.names, Name name := by
  unfold of at h
  split at h
  · cases h
  · rename_i hnul
    split at h
    · cases h
    · rename_i hpaired
      rw [Bool.not_eq_false] at hpaired
      obtain rfl := Except.ok.inj h
      intro name hname
      obtain ⟨hmem, hnonempty⟩ := List.mem_filter.1 hname
      obtain ⟨hslash, hin, hpair⟩ := mem_splitOn name text.length le_rfl hmem
      refine ⟨?_, hslash, fun h0 => hnul (hin 0 h0), hpair hpaired⟩
      rintro rfl
      simp at hnonempty

/-! ## Texts -/

/-- Each name after a slash. -/
def slashed (names : List JString) : JString := names.flatMap fun name => chr '/' :: name

/-- Names are slashed one behind the other. -/
theorem slashed_append (a b : List JString) :
    slashed (a ++ b) = slashed a ++ slashed b := List.flatMap_append

/-- Slashed names are names with slashes between and before them. -/
theorem slashed_eq {names : List JString} (h : names ≠ []) :
    slashed names = chr '/' :: [chr '/'].intercalate names := by
  induction names with
  | nil => exact absurd rfl h
  | cons name names ih =>
    cases names with
    | nil => simp [slashed, List.intercalate]
    | cons other names =>
      have hrest := ih (List.cons_ne_nil _ _)
      show chr '/' :: name ++ slashed (other :: names) = _
      rw [hrest]
      simp [List.intercalate]

/-- An absolute path is shown slashed. -/
theorem toString_slashed {p : UnixPath} (habsolute : p.absolute = true) (h : p.names ≠ []) :
    p.toString = slashed p.names := by
  rw [slashed_eq h]
  simp [toString, habsolute, List.intercalate]

/-- Paired names make a paired path. -/
theorem paired_slashed {names : List JString} (h : ∀ name ∈ names, Paired name = true) :
    Paired (slashed names) = true := by
  induction names with
  | nil => rfl
  | cons name names ih =>
    show Paired (chr '/' :: (name ++ slashed names)) = true
    rw [(codePoints_cons (chr '/') slash_unit _).2, (paired_append (h name List.mem_cons_self) _).2]
    exact ih fun x hx => h x (List.mem_cons_of_mem _ hx)

/-- The names are what stands between the slashes. -/
theorem splitOn_slashed {names : List JString} (h : ∀ name ∈ names, chr '/' ∉ name) :
    (slashed names).splitOn (chr '/') = [] :: names := by
  cases names with
  | nil => rfl
  | cons name names =>
    have hcut : ([] ++ chr '/' :: [chr '/'].intercalate (name :: names)).splitOn (chr '/') =
        [] :: ([chr '/'].intercalate (name :: names)).splitOn (chr '/') :=
      List.splitOn_append_cons_self_of_not_mem List.not_mem_nil _
    rw [List.splitOn_intercalate _ h (List.cons_ne_nil _ _), List.nil_append] at hcut
    rw [slashed_eq (List.cons_ne_nil _ _)]
    exact hcut

/-- **Names can be read off their path.** -/
theorem slashed_injective {a b : List JString} (ha : ∀ name ∈ a, chr '/' ∉ name)
    (hb : ∀ name ∈ b, chr '/' ∉ name)
    (h : slashed a = slashed b) : a = b := by
  have hsplit := splitOn_slashed ha
  rw [h, splitOn_slashed hb] at hsplit
  exact (List.cons.inj hsplit).2.symm

/-- An absolute path of names is what its text denotes. -/
theorem of_slashed {names : List JString} (h : ∀ name ∈ names, Name name) (hne : names ≠ []) :
    of (slashed names) = .ok ⟨true, names⟩ := by
  have hnul : ¬ 0 ∈ slashed names := by
    intro hin
    obtain ⟨name, hname, hin⟩ := List.mem_flatMap.1 hin
    rcases List.mem_cons.1 hin with h0 | hin
    · exact absurd h0 (by decide)
    · exact (h name hname).no_nul hin
  have hpaired : ¬ Paired (slashed names) = false := by
    rw [paired_slashed fun name hname => (h name hname).paired]
    decide
  have hhead : (slashed names).head? = some (chr '/') := by
    rw [slashed_eq hne]
    rfl
  have hfilter : names.filter (fun name => !name.isEmpty) = names := by
    rw [List.filter_eq_self]
    intro name hname
    simpa using (h name hname).nonempty
  rw [of, if_neg hnul, if_neg hpaired, hhead, splitOn_slashed fun name hname =>
    (h name hname).no_slash]
  simp only [List.filter_cons, hfilter]
  simp

/-! ## Normal paths -/

/-- A name that `normalize` keeps. -/
def Plain (name : JString) : Prop := name ≠ DOT ∧ name ≠ DOT_DOT

/-- A name that is pushed leaves the names plain. -/
theorem plain_pushName {names : List JString} (h : ∀ n ∈ names, Plain n) (name : JString) :
    ∀ n ∈ pushName true names name, Plain n := by
  unfold pushName
  split
  · exact h
  · rename_i hdot
    split
    · rcases hlast : names.getLast? with - | last
      · exact fun _ hn => absurd hn List.not_mem_nil
      · have hplain := h last (List.mem_of_getLast? hlast)
        dsimp only
        rw [if_neg hplain.2]
        exact fun n hn => h n (List.dropLast_subset _ hn)
    · rename_i hdots
      intro n hn
      rcases List.mem_append.1 hn with hn | hn
      · exact h n hn
      · rw [List.mem_singleton.1 hn]
        exact ⟨hdot, hdots⟩

/-- So do many. -/
theorem plain_foldl {names : List JString} (h : ∀ n ∈ names, Plain n) (l : List JString) :
    ∀ n ∈ l.foldl (pushName true) names, Plain n := by
  induction l generalizing names with
  | nil => exact h
  | cons name l ih => exact ih (plain_pushName h name)

/-- Plain names are pushed as they are. -/
theorem foldl_plain (absolute : Bool) {l : List JString} (h : ∀ n ∈ l, Plain n)
    (names : List JString) :
    l.foldl (pushName absolute) names = names ++ l := by
  induction l generalizing names with
  | nil => simp
  | cons name l ih =>
    have hname := h name List.mem_cons_self
    rw [List.foldl_cons, pushName, if_neg hname.1, if_neg hname.2, ih fun n hn =>
      h n (List.mem_cons_of_mem _ hn)]
    simp

/-- An absolute path that is normal stays as it is. -/
theorem normalize_normalize {p : UnixPath} (h : p.absolute = true) :
    p.normalize.normalize = p.normalize := by
  obtain ⟨absolute, names⟩ := p
  obtain rfl : absolute = true := h
  have hplain := @plain_foldl [] (fun _ hn => absurd hn List.not_mem_nil) names
  exact congrArg (UnixPath.mk true) (foldl_plain true hplain [])

/-- A path that is made absolute is. -/
theorem absolute_toAbsolutePath (cwd : List JString) (p : UnixPath) :
    (p.toAbsolutePath cwd).absolute = true := by
  unfold toAbsolutePath
  split
  · assumption
  · rfl

end UnixPath

end Libjadx
