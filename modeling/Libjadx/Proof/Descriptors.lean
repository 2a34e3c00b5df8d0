import Libjadx.Lib.Locked
import Libjadx.Proof.Descriptor
import Libjadx.Spec.Bytes
import Libjadx.Spec.Descriptors

/-!
# The descriptor checks and the grammar

* `typeEnd_iff`: `typeEnd` stops after the type of the grammar that stands there, if one does.
* `validate_field_iff`, `validate_method_iff`: a descriptor is accepted where it is one of the
  grammar.
* `parse_unique`: a method descriptor has one parse.
* `cut_iff`: the cuts are the parse's exactly where no class of the parameter list has a closing
  parenthesis in its name.
-/

namespace Libjadx

/-! ## Class names -/

/-- A class name by its characters: no slash at an end, no two in a row. -/
structure PlainBody (body : JString) : Prop where
  head : body.head? ≠ some (chr '/')
  last : body.getLast? ≠ some (chr '/')
  nonempty : body ≠ []
  single : ∀ k, body[k]? = some (chr '/') → body[k + 1]? ≠ some (chr '/')
  chars : ∀ c ∈ body, forbiddenInBody c = false

theorem Segment.no_slash {s : JString} (h : Segment s) : chr '/' ∉ s := fun hin => (h.2 _ hin).1 rfl

/-- A segment has no character that is forbidden. -/
theorem Segment.plain {s : JString} (h : Segment s) : PlainBody s where
  head hs := h.no_slash (List.mem_of_head? hs)
  last hs := h.no_slash (List.mem_of_getLast? hs)
  nonempty := h.1
  single _ hk := absurd (List.mem_of_getElem? hk) h.no_slash
  chars c hc := (h.2 c hc).2

/-- Neither has a body. -/
theorem ObjectBody.plain {body : JString} (h : ObjectBody body) : PlainBody body := by
  induction h with
  | single h => exact h.plain
  | @slash s body h _ ih =>
    have hs := h.plain
    refine ⟨?_, ?_, by simp, ?_, ?_⟩
    · rw [List.head?_append_of_ne_nil _ h.1]
      exact hs.head
    · rw [List.getLast?_append_of_ne_nil _ (List.cons_ne_nil _ _),
        List.getLast?_cons_of_ne_nil ih.nonempty]
      exact ih.last
    · intro k hk hk'
      rcases Nat.lt_trichotomy k s.length with hlt | rfl | hgt
      · rw [List.getElem?_append_left hlt] at hk
        exact h.no_slash (List.mem_of_getElem? hk)
      · rw [List.getElem?_append_right (Nat.le_succ _),
          show s.length.succ - s.length = 0 + 1 by omega, List.getElem?_cons_succ,
          ← List.head?_eq_getElem?] at hk'
        exact ih.head hk'
      · obtain ⟨j, rfl⟩ : ∃ j, k = s.length + (j + 1) := ⟨k - s.length - 1, by omega⟩
        rw [List.getElem?_append_right (by omega), Nat.add_sub_cancel_left, List.getElem?_cons_succ] at hk
        rw [List.getElem?_append_right (by omega),
          show s.length + (j + 1) + 1 - s.length = j + 1 + 1 by omega,
          List.getElem?_cons_succ] at hk'
        exact ih.single j hk hk'
    · intro c hc
      rcases List.mem_append.1 hc with hc | hc
      · exact hs.chars c hc
      · rcases List.mem_cons.1 hc with rfl | hc
        · decide
        · exact ih.chars c hc

/-- A text without them is cut into segments by its slashes. -/
theorem PlainBody.objectBody {body : JString} (h : PlainBody body) : ObjectBody body := by
  induction hn : body.length using Nat.strongRecOn generalizing body with
  | ind n ih =>
    by_cases hslash : chr '/' ∈ body
    · obtain ⟨s, rest, rfl, hs⟩ := List.eq_append_cons_of_mem hslash
      have hne : s ≠ [] := by
        rintro rfl
        exact h.head rfl
      have hsegment : Segment s :=
        ⟨hne, fun c hc => ⟨fun heq => hs (heq ▸ hc), h.chars c (List.mem_append_left _ hc)⟩⟩
      have hshift : ∀ k, rest[k]? = (s ++ chr '/' :: rest)[s.length + (k + 1)]? := by
        intro k
        rw [List.getElem?_append_right (by omega), Nat.add_sub_cancel_left, List.getElem?_cons_succ]
      have hrest : rest ≠ [] := by
        rintro rfl
        exact h.last (by simp)
      refine .slash hsegment (ih rest.length (by rw [← hn]; simp; omega) ⟨?_, ?_, hrest, ?_, ?_⟩ rfl)
      · -- the slash before the rest is the one in question
        rw [List.head?_eq_getElem?, hshift 0]
        refine h.single s.length ?_
        rw [List.getElem?_append_right le_rfl, Nat.sub_self]
        rfl
      · have hlast := h.last
        rwa [List.getLast?_append_of_ne_nil _ (List.cons_ne_nil _ _),
          List.getLast?_cons_of_ne_nil hrest] at hlast
      · intro k hk
        rw [hshift] at hk ⊢
        exact h.single _ hk
      · exact fun c hc => h.chars c (List.mem_append_right _ (List.mem_cons_of_mem _ hc))
    · exact .single ⟨h.nonempty, fun c hc => ⟨fun heq => hslash (heq ▸ hc), h.chars c hc⟩⟩

theorem objectBody_iff {body : JString} : ObjectBody body ↔ PlainBody body :=
  ⟨ObjectBody.plain, PlainBody.objectBody⟩

/-- A loop over checks passes where each passes. -/
theorem forM_isOk {α : Type} {l : List α} {f : α → Except String Unit} :
    (l.forM f).isOk = true ↔ ∀ a ∈ l, (f a).isOk = true := by
  induction l with
  | nil => simp [Except.isOk, Except.toBool, pure, Except.pure]
  | cons a l ih =>
    rw [List.forall_mem_cons]
    refine isOk_bind.trans ?_
    constructor
    · rintro ⟨u, hu, hl⟩
      exact ⟨by rw [hu]; rfl, ih.1 hl⟩
    · rintro ⟨ha, hl⟩
      rcases hfa : f a with e | u
      · rw [hfa] at ha
        cases ha
      · exact ⟨u, rfl, ih.2 hl⟩

section Inside

variable {value body : JString} {start : ℕ}

/-- The check of a class name inside a text. -/
theorem validateObjectBody_iff (hin : ∀ k < body.length, value[start + k]? = body[k]?) :
    (validateObjectBody value start (start + body.length)).isOk = true ↔ ObjectBody body := by
  rw [objectBody_iff]
  -- the empty body is refused at once
  rcases Nat.eq_zero_or_pos body.length with hzero | hpos
  · obtain rfl := List.eq_nil_of_length_eq_zero hzero
    refine ⟨fun h => ?_, fun h => absurd rfl h.nonempty⟩
    rw [validateObjectBody, if_pos (by simp)] at h
    cases h
  have hhead : value[start]? = body.head? := by
    rw [List.head?_eq_getElem?]
    exact hin 0 hpos
  have hlast : value[start + body.length - 1]? = body.getLast? := by
    rw [List.getLast?_eq_getElem?, Nat.add_sub_assoc hpos]
    exact hin _ (by omega)
  have hne : (start == start + body.length) = false := by
    rw [beq_eq_false_iff_ne]
    omega
  unfold validateObjectBody
  rw [hhead, hlast, hne]
  -- a slash at either end
  by_cases hends : body.head? = some (chr '/') ∨ body.getLast? = some (chr '/')
  · rw [if_pos (by rcases hends with h | h <;> simp [h])]
    refine ⟨fun h => ?_, fun h => ?_⟩
    · cases h
    · rcases hends with hend | hend
      · exact absurd hend h.head
      · exact absurd hend h.last
  · rw [not_or] at hends
    rw [if_neg (by simp [hends.1, hends.2]), forM_isOk]
    -- one round of the loop looks at a character and at the one before
    have hround : ∀ k < body.length,
        (if value[start + k]? == some (chr '/') && value[start + k - 1]? == some (chr '/') then
          (.error "Empty package segment" : Except String Unit)
        else if value[start + k]?.any forbiddenInBody then .error "Invalid object descriptor character"
        else .ok ()).isOk = true ↔
          ¬ (body[k]? = some (chr '/') ∧ value[start + k - 1]? = some (chr '/')) ∧
            ∀ c, body[k]? = some c → forbiddenInBody c = false := by
      intro k hk
      rw [hin k hk]
      by_cases hrow : body[k]? = some (chr '/') ∧ value[start + k - 1]? = some (chr '/')
      · rw [if_pos (by simp [hrow.1, hrow.2])]
        exact ⟨(nomatch ·), fun h => absurd hrow h.1⟩
      · rw [if_neg (by simpa using hrow)]
        by_cases hchar : body[k]?.any forbiddenInBody = true
        · rw [if_pos hchar]
          refine ⟨(nomatch ·), fun h => ?_⟩
          rcases hc : body[k]? with - | c
          · rw [hc] at hchar
            cases hchar
          · rw [hc, Option.any_some, h.2 c hc] at hchar
            cases hchar
        · rw [if_neg hchar]
          refine ⟨fun _ => ⟨hrow, fun c hc => ?_⟩, fun _ => rfl⟩
          rw [hc] at hchar
          simpa using hchar
    constructor
    · intro h
      have hall : ∀ k < body.length, ¬ (body[k]? = some (chr '/') ∧
          value[start + k - 1]? = some (chr '/')) ∧
          ∀ c, body[k]? = some c → forbiddenInBody c = false :=
        fun k hk => (hround k hk).1 (h _ (List.mem_range'_1.2 ⟨by omega, by omega⟩))
      refine ⟨hends.1, hends.2, List.ne_nil_of_length_pos hpos, fun k hk hk' => ?_, fun c hc => ?_⟩
      · have hlt : k + 1 < body.length := (List.getElem?_eq_some_iff.1 hk').1
        refine (hall (k + 1) hlt).1 ⟨hk', ?_⟩
        rw [show start + (k + 1) - 1 = start + k by omega, hin k (by omega)]
        exact hk
      · obtain ⟨k, hk, rfl⟩ := List.getElem_of_mem hc
        exact (hall k hk).2 _ (List.getElem?_eq_getElem hk)
    · intro h i hi
      obtain ⟨k, rfl⟩ : ∃ k, i = start + k := ⟨i - start, by have := List.mem_range'_1.1 hi; omega⟩
      have hk : k < body.length := by
        have := List.mem_range'_1.1 hi
        omega
      refine (hround k hk).2 ⟨fun hrow => ?_, fun c hc => h.chars c (List.mem_of_getElem? hc)⟩
      -- the first character has none before it in the body
      cases k with
      | zero => exact h.head (by rw [List.head?_eq_getElem?]; exact hrow.1)
      | succ k =>
        rw [show start + (k + 1) - 1 = start + k by omega, hin k (by omega)] at hrow
        exact h.single k hrow.2 hrow.1

end Inside

/-! ## Types -/

/-- A type of the grammar, or a `V` where one may stand. -/
def TypeAt (allowVoid : Bool) (t : JString) : Prop := FieldType t ∨ allowVoid = true ∧ t = [chr 'V']

section Types

variable {value rest t : JString} {pos stop n : ℕ} {allowVoid : Bool}

/-- The array dimensions are all that stand there. -/
theorem dimensions_eq (h : value.drop pos = List.replicate n (chr '[') ++ rest)
    (hrest : rest.head? ≠ some (chr '[')) :
    ((value.drop pos).takeWhile (· == chr '[')).length = n := by
  rw [h, List.takeWhile_append_of_pos (by simp)]
  have hnone : rest.takeWhile (· == chr '[') = [] := by
    cases rest with
    | nil => rfl
    | cons c rest =>
      rw [List.takeWhile_cons_of_neg]
      simpa using hrest
  rw [hnone, List.append_nil, List.length_replicate]

/-- Every text starts with some number of brackets. -/
theorem exists_dimensions (l : JString) :
    ∃ n rest, l = List.replicate n (chr '[') ++ rest ∧ rest.head? ≠ some (chr '[') := by
  induction l with
  | nil => exact ⟨0, [], rfl, by simp⟩
  | cons c l ih =>
    by_cases hc : c = chr '['
    · obtain ⟨n, rest, rfl, hrest⟩ := ih
      exact ⟨n + 1, rest, by rw [hc, List.replicate_succ]; rfl, hrest⟩
    · exact ⟨0, c :: l, rfl, by simpa using hc⟩

theorem ElementType.head (h : ElementType t) :
    ∃ c r, t = c :: r ∧ (c ∈ str "BCDFIJSZ" ∨ c = chr 'L') := by
  cases h with
  | primitive h => exact ⟨_, [], rfl, .inl h⟩
  | object h =>
    obtain ⟨body, -, rfl⟩ := h
    exact ⟨_, _, rfl, .inr rfl⟩

theorem ElementType.head_ne (h : ElementType t) (tail : JString) :
    (t ++ tail).head? ≠ some (chr '[') := by
  obtain ⟨c, r, rfl, hc⟩ := h.head
  intro hhead
  obtain rfl := Option.some.inj hhead
  revert hc
  decide

theorem ObjectBody.no_semicolon {body : JString} (h : ObjectBody body) : chr ';' ∉ body :=
  fun hin => absurd (h.plain.chars _ hin) (by decide)

/-- What stands after the dimensions, with the dimensions taken off. -/
theorem drop_dimensions (h : value.drop pos = List.replicate n (chr '[') ++ rest) :
    value.drop (pos + n) = rest := by
  rw [← List.drop_drop, h, List.drop_left' List.length_replicate]

/-- An object type: up to the first semicolon. -/
theorem object_iff (stop : ℕ) {tag : ℕ} {r : JString} (h : value.drop tag = chr 'L' :: r) :
    (∃ u, (if tag + 1 + r.idxOf (chr ';') == value.length then throw "Unterminated object descriptor"
      else do
        validateObjectBody value (tag + 1) (tag + 1 + r.idxOf (chr ';'))
        pure (tag + 1 + r.idxOf (chr ';') + 1) : Except String ℕ) = .ok u ∧ u = stop) ↔
      ∃ body tail, r = body ++ chr ';' :: tail ∧ ObjectBody body ∧
        stop = tag + body.length + 2 := by
  have hlength : value.length = tag + 1 + r.length := by
    have hdrop := congrArg List.length h
    rw [List.length_drop, List.length_cons] at hdrop
    omega
  by_cases hsemicolon : chr ';' ∈ r
  · obtain ⟨body, tail, rfl, hbody⟩ := List.eq_append_cons_of_mem hsemicolon
    have hidx : (body ++ chr ';' :: tail).idxOf (chr ';') = body.length := by
      rw [List.idxOf_append_of_notMem hbody, List.idxOf_cons_self, Nat.add_zero]
    have hin : ∀ k < body.length, value[tag + 1 + k]? = body[k]? := by
      intro k hk
      have hget : (value.drop tag)[k + 1]? = (chr 'L' :: (body ++ chr ';' :: tail))[k +
        1]? := by rw [h]
      rw [List.getElem?_drop, List.getElem?_cons_succ, List.getElem?_append_left hk] at hget
      rw [← hget, Nat.add_assoc, Nat.add_comm 1 k]
    have hvalid := validateObjectBody_iff hin
    rw [hidx, if_neg (by rw [hlength]; simp)]
    constructor
    · rintro ⟨u, hu, rfl⟩
      obtain ⟨v, hv, hu⟩ := bind_eq_ok.1 hu
      obtain rfl := Except.ok.inj hu
      exact ⟨body, tail, rfl, hvalid.1 (by rw [hv]; rfl), by omega⟩
    · rintro ⟨body', tail', heq, hobject, rfl⟩
      obtain rfl : body = body' := by
        have hidx' : (body' ++ chr ';' :: tail').idxOf (chr ';') = body'.length := by
          rw [List.idxOf_append_of_notMem hobject.no_semicolon, List.idxOf_cons_self, Nat.add_zero]
        rw [← heq, hidx] at hidx'
        exact (List.append_inj heq hidx').1
      rcases hv : validateObjectBody value (tag + 1) (tag + 1 + body.length) with e | v
      · have hok := hvalid.2 hobject
        rw [hv] at hok
        cases hok
      · exact ⟨_, rfl, by omega⟩
  · rw [List.idxOf_of_notMem hsemicolon, if_pos (by rw [hlength]; simp)]
    constructor
    · rintro ⟨u, hu, -⟩
      cases hu
    · rintro ⟨body, tail, rfl, -, -⟩
      exact absurd (List.mem_append_right _ List.mem_cons_self) hsemicolon

/-- An element type at the end of the dimensions. -/
def ElementAt (allowVoid : Bool) (n : ℕ) (t : JString) : Prop :=
  ElementType t ∨ allowVoid = true ∧ n = 0 ∧ t = [chr 'V']

/-- **A type is its brackets, and an element behind them.** -/
theorem typeAt_iff : TypeAt allowVoid t ↔
    ∃ n e, n ≤ 255 ∧ ElementAt allowVoid n e ∧ t = List.replicate n (chr '[') ++ e := by
  constructor
  · rintro (⟨n, e, hn, he, rfl⟩ | ⟨hvoid, rfl⟩)
    · exact ⟨n, e, hn, .inl he, rfl⟩
    · exact ⟨0, _, Nat.zero_le _, .inr ⟨hvoid, rfl, rfl⟩, rfl⟩
  · rintro ⟨n, e, hn, he | ⟨hvoid, rfl, rfl⟩, rfl⟩
    · exact .inl ⟨n, e, hn, he, rfl⟩
    · exact .inr ⟨hvoid, rfl⟩

theorem ElementAt.head_ne (h : ElementAt allowVoid n t) (tail : JString) :
    (t ++ tail).head? ≠ some (chr '[') := by
  rcases h with h | ⟨-, -, rfl⟩
  · exact h.head_ne tail
  · intro hhead
    exact absurd (Option.some.inj hhead) (by decide)

/-- `typeEnd` past the dimensions. -/
theorem typeEnd_element (h : value.drop pos = List.replicate n (chr '[') ++ rest)
    (hrest : rest.head? ≠ some (chr '[')) :
    typeEnd value pos allowVoid = .ok stop ↔
      n ≤ 255 ∧ ∃ e tail, rest = e ++ tail ∧ ElementAt allowVoid n e ∧
        stop = pos + n + e.length := by
  unfold typeEnd
  rw [dimensions_eq h hrest]
  by_cases hn : 255 < n
  · rw [if_pos hn]
    exact ⟨(nomatch ·), fun hle => absurd hle.1 (by omega)⟩
  rw [if_neg hn]
  have hdrop := drop_dimensions h
  have hget : value[pos + n]? = rest.head? := by
    rw [List.head?_eq_getElem?, ← hdrop, List.getElem?_drop]
    rfl
  refine Iff.trans ?_ (and_iff_right (not_lt.1 hn)).symm
  dsimp only [pure_bind]
  rw [hget]
  -- by the tag of the element
  cases rest with
  | nil =>
    refine ⟨(nomatch ·), ?_⟩
    rintro ⟨e, tail, heq, he, -⟩
    obtain rfl := (List.append_eq_nil_iff.1 heq.symm).1
    rcases he with he | ⟨-, -, he⟩
    · obtain ⟨c, r, hcr, -⟩ := he.head
      cases hcr
    · cases he
  | cons tag r =>
    dsimp only [List.head?_cons]
    by_cases hprimitive : (str "BCDFIJSZ").contains tag = true
    · rw [if_pos hprimitive]
      have hmem := List.contains_iff_mem.1 hprimitive
      constructor
      · intro hok
        obtain rfl := Except.ok.inj hok
        exact ⟨[tag], r, rfl, .inl (.primitive hmem), rfl⟩
      · rintro ⟨e, tail, heq, he, rfl⟩
        rcases he with he | ⟨-, -, rfl⟩
        · cases he with
          | primitive h => rfl
          | object h =>
            obtain ⟨body, -, rfl⟩ := h
            obtain rfl := (List.cons.inj heq).1
            exact absurd hmem (by decide)
        · rfl
    rw [if_neg hprimitive]
    by_cases hvoid : (tag == chr 'V' && allowVoid && n == 0) = true
    · rw [if_pos hvoid]
      simp only [Bool.and_eq_true, beq_iff_eq] at hvoid
      obtain ⟨⟨rfl, hallow⟩, rfl⟩ := hvoid
      constructor
      · intro hok
        obtain rfl := Except.ok.inj hok
        exact ⟨[chr 'V'], r, rfl, .inr ⟨hallow, rfl, rfl⟩, rfl⟩
      · rintro ⟨e, tail, heq, he, rfl⟩
        rcases he with he | ⟨-, -, rfl⟩
        · obtain ⟨c, r', rfl, hc⟩ := he.head
          -- a tag that is primitive is not `V`
          obtain rfl := (List.cons.inj heq).1
          exact absurd hc (by decide)
        · rfl
    rw [if_neg hvoid]
    by_cases hobject : tag = chr 'L'
    · subst hobject
      rw [if_pos (by simp)]
      have hdrop' : value.drop (pos + n + 1) = r := by
        rw [← List.drop_drop, hdrop, List.drop_succ_cons, List.drop_zero]
      rw [hdrop']
      have hiff := object_iff stop hdrop
      constructor
      · intro hok
        obtain ⟨body, tail, rfl, hbody, rfl⟩ := hiff.1 ⟨stop, hok, rfl⟩
        refine ⟨chr 'L' :: (body ++ [chr ';']), tail, by simp, .inl (.object ⟨body, hbody, rfl⟩), ?_⟩
        rw [List.length_cons, List.length_append]
        rfl
      · rintro ⟨e, tail, heq, he, rfl⟩
        rcases he with he | ⟨-, -, rfl⟩
        · cases he with
          | primitive h => exact absurd (List.contains_iff_mem.2 ((List.cons.inj heq).1 ▸ h)) hprimitive
          | object h =>
            obtain ⟨body, hbody, rfl⟩ := h
            have hr : r = body ++ chr ';' :: tail := by simpa using (List.cons.inj heq).2
            obtain ⟨u, hu, rfl⟩ := hiff.2 ⟨body, tail, hr,
              hbody, by rw [List.length_cons, List.length_append]; rfl⟩
            exact hu
        · exact absurd (List.cons.inj heq).1 (by decide)
    -- no other tag starts a type
    · rw [if_neg (by simpa using hobject)]
      refine ⟨(nomatch ·), ?_⟩
      rintro ⟨e, tail, heq, he, -⟩
      rcases he with he | ⟨hallow, rfl, rfl⟩
      · obtain ⟨c, r', rfl, hc⟩ := he.head
        obtain rfl := (List.cons.inj heq).1
        rcases hc with hc | rfl
        · exact absurd (List.contains_iff_mem.2 hc) hprimitive
        · exact absurd rfl hobject
      · obtain rfl := (List.cons.inj heq).1
        exact absurd (by simp [hallow]) hvoid

/-- **`typeEnd` stops after the type that stands there**, if one does. -/
theorem typeEnd_iff : typeEnd value pos allowVoid = .ok stop ↔
    ∃ t tail, value.drop pos = t ++ tail ∧ TypeAt allowVoid t ∧ stop = pos + t.length := by
  obtain ⟨n, rest, heq, hrest⟩ := exists_dimensions (value.drop pos)
  rw [typeEnd_element heq hrest]
  constructor
  · rintro ⟨hn, e, tail, rfl, he, rfl⟩
    refine ⟨List.replicate n (chr '[') ++
      e, tail, by rw [heq, List.append_assoc], typeAt_iff.2 ⟨n, e, hn, he, rfl⟩, ?_⟩
    rw [List.length_append, List.length_replicate, Nat.add_assoc]
  · rintro ⟨t, tail, ht, htype, rfl⟩
    obtain ⟨m, e, hm, he, rfl⟩ := typeAt_iff.1 htype
    -- the dimensions of the type are the ones that stand there
    rw [List.append_assoc] at ht
    have hmn : n = m := (dimensions_eq heq hrest).symm.trans (dimensions_eq ht (he.head_ne tail))
    subst hmn
    have htail := List.append_cancel_left (heq.symm.trans ht)
    refine ⟨hm, e, tail, htail, he, ?_⟩
    rw [List.length_append, List.length_replicate, Nat.add_assoc]

theorem FieldType.head_ne (h : FieldType t) (tail : JString) :
    (t ++ tail).head? ≠ some (chr ')') := by
  obtain ⟨n, e, -, he, rfl⟩ := h
  obtain ⟨c, r, rfl, hc⟩ := he.head
  intro hhead
  cases n with
  | zero =>
    obtain rfl := Option.some.inj hhead
    revert hc
    decide
  | succ n => exact absurd (Option.some.inj hhead) (by decide)

theorem FieldType.length_pos (h : FieldType t) : 0 < t.length := by
  obtain ⟨n, e, -, he, rfl⟩ := h
  obtain ⟨c, r, rfl, -⟩ := he.head
  rw [List.length_append, List.length_cons]
  omega

/-- No type is the beginning of another one. -/
theorem typeAt_unique {t' tail tail' : JString} (h : TypeAt allowVoid t) (h' : TypeAt allowVoid t')
    (heq : t ++ tail = t' ++ tail') :
    t = t' ∧ tail = tail' := by
  have hend : typeEnd (t ++ tail) 0 allowVoid = .ok (0 + t.length) :=
    typeEnd_iff.2 ⟨t, tail, rfl, h, rfl⟩
  have hend' : typeEnd (t ++ tail) 0 allowVoid = .ok (0 + t'.length) :=
    typeEnd_iff.2 ⟨t', tail', heq, h', rfl⟩
  have hlength : 0 + t.length = 0 + t'.length := Except.ok.inj (hend.symm.trans hend')
  exact List.append_inj heq (by omega)

/-! ## Parameter lists -/

/-- **The loop over the parameters** stops at the parenthesis after the types that stand there. -/
theorem argumentsEnd_iff (value : JString) (n : ℕ) : ∀ {pos stop : ℕ}, (value.drop pos).length ≤ n →
    ((argumentsEnd value n pos = .ok stop ∧ value[stop]? = some (chr ')')) ↔
      ∃ (types : List JString) (tail : JString), value.drop pos = types.flatten ++ chr ')' :: tail ∧
        (∀ t ∈ types, FieldType t) ∧ stop = pos + types.flatten.length) := by
  have hhead : ∀ pos : ℕ, value[pos]? = (value.drop pos).head? := by
    intro pos
    rw [List.head?_eq_getElem?, List.getElem?_drop]
    rfl
  -- the loop takes one type a round, so the rounds are counted by what is left
  induction n with
  | zero =>
    intro pos stop hlength
    have hnil := List.eq_nil_of_length_eq_zero (Nat.le_zero.1 hlength)
    rw [argumentsEnd]
    constructor
    · rintro ⟨hok, hstop⟩
      obtain rfl := Except.ok.inj hok
      rw [hhead, hnil] at hstop
      cases hstop
    · rintro ⟨types, tail, heq, -, -⟩
      rw [hnil] at heq
      simp at heq
  | succ n ih =>
    intro pos stop hlength
    rw [argumentsEnd]
    -- the loop goes on until the closing parenthesis
    by_cases hround : (decide (pos < value.length) && value[pos]? != some (chr ')')) = true
    · rw [if_pos hround]
      constructor
      · rintro ⟨hok, hstop⟩
        obtain ⟨next, htype, hok⟩ := bind_eq_ok.1 hok
        obtain ⟨t, rest, hdrop, ht, rfl⟩ := typeEnd_iff.1 htype
        have ht : FieldType t := ht.resolve_right (by simp)
        have hnext : value.drop (pos + t.length) = rest := by
          rw [← List.drop_drop, hdrop, List.drop_left]
        have hshort : (value.drop (pos + t.length)).length ≤ n := by
          rw [hdrop, List.length_append] at hlength
          have := ht.length_pos
          rw [hnext]
          omega
        obtain ⟨types, tail, heq, hall, rfl⟩ := (ih hshort).1 ⟨hok, hstop⟩
        refine ⟨t :: types, tail, ?_, ?_, ?_⟩
        · rw [hdrop, ← hnext, heq, List.flatten_cons, List.append_assoc]
        · exact List.forall_mem_cons.2 ⟨ht, hall⟩
        · rw [List.flatten_cons, List.length_append, Nat.add_assoc]
      · rintro ⟨types, tail, heq, hall, rfl⟩
        cases types with
        | nil =>
          rw [hhead, heq] at hround
          simp at hround
        | cons t types =>
          rw [List.forall_mem_cons] at hall
          rw [List.flatten_cons, List.append_assoc] at heq
          have htype : typeEnd value pos false = .ok (pos + t.length) :=
            typeEnd_iff.2 ⟨t, _, heq, .inl hall.1, rfl⟩
          have hnext : value.drop (pos + t.length) = types.flatten ++ chr ')' :: tail := by
            rw [← List.drop_drop, heq, List.drop_left]
          have hshort : (value.drop (pos + t.length)).length ≤ n := by
            rw [heq, List.length_append] at hlength
            have := hall.1.length_pos
            rw [hnext]
            omega
          have hstop' : pos + (t :: types).flatten.length = pos + t.length +
              types.flatten.length := by
            rw [List.flatten_cons, List.length_append, Nat.add_assoc]
          obtain ⟨hok, hstop⟩ := (ih hshort).2 ⟨types, tail, hnext, hall.2, hstop'⟩
          exact ⟨bind_eq_ok.2 ⟨_, htype, hok⟩, hstop⟩
    · rw [if_neg hround]
      -- the loop has stopped at the parenthesis, or at the end
      have hstay : value[pos]? = some (chr ')') ∨ value.drop pos = [] := by
        simp only [Bool.and_eq_true, decide_eq_true_eq, bne_iff_ne, ne_eq, not_and, not_not] at hround
        by_cases hlt : pos < value.length
        · exact .inl (hround hlt)
        · exact .inr (List.drop_eq_nil_of_le (not_lt.1 hlt))
      constructor
      · rintro ⟨hok, hstop⟩
        obtain rfl := Except.ok.inj hok
        rw [hhead] at hstop
        rcases hdrop : value.drop pos with - | ⟨c, tail⟩
        · rw [hdrop] at hstop
          cases hstop
        · rw [hdrop] at hstop
          obtain rfl := Option.some.inj hstop
          exact ⟨[], tail, rfl, fun _ h => absurd h List.not_mem_nil, rfl⟩
      · rintro ⟨types, tail, heq, hall, rfl⟩
        cases types with
        | nil => exact ⟨rfl, by rw [hhead]; simp [heq]⟩
        | cons t types =>
          rw [List.forall_mem_cons] at hall
          rw [List.flatten_cons, List.append_assoc] at heq
          rcases hstay with hstay | hstay
          · rw [hhead, heq] at hstay
            exact absurd hstay (hall.1.head_ne _)
          · rw [heq] at hstay
            have := hall.1.length_pos
            simp [(List.append_eq_nil_iff.1 hstay).1] at this

end Types

/-! ## Descriptors -/

section Accepted

variable {value : JString}

/-- **The class descriptors that are accepted.** -/
theorem validateClassDescriptor_iff :
    (validateClassDescriptor value).isOk = true ↔ value.length ≤ 1024 ∧ ClassType value := by
  unfold validateClassDescriptor
  constructor
  · intro h
    split at h
    · cases h
    · rename_i hguard
      simp only [Bool.or_eq_true, decide_eq_true_eq, bne_iff_ne, ne_eq, not_or, not_lt, not_not] at hguard
      obtain ⟨⟨⟨hshort, hlong⟩, hfirst⟩, hlast⟩ := hguard
      obtain ⟨c, r, rfl⟩ : ∃ c r, value = c :: r := List.exists_cons_of_length_pos (by omega)
      obtain rfl := Option.some.inj hfirst
      obtain ⟨body, e, rfl⟩ : ∃ body e, r = body ++ [e] := by
        refine ⟨r.dropLast, r.getLast ?_, (List.dropLast_concat_getLast _).symm⟩
        rintro rfl
        simp at hshort
      have hend : e = chr ';' := by
        have hget : (chr 'L' :: (body ++ [e]))[(chr 'L' :: (body ++ [e])).length - 1]? =
          some e := by simp
        exact Option.some.inj (hget.symm.trans hlast)
      subst hend
      have hstop : (chr 'L' :: (body ++ [chr ';'])).length - 1 = 1 + body.length := by
        simp
        omega
      rw [hstop] at h
      refine ⟨hlong, body, (validateObjectBody_iff fun k hk => ?_).1 h, rfl⟩
      rw [Nat.add_comm, List.getElem?_cons_succ, List.getElem?_append_left hk]
  · rintro ⟨hlong, body, hbody, rfl⟩
    have hpos : 0 < body.length := List.length_pos_of_ne_nil hbody.plain.nonempty
    have hlength : (chr 'L' :: (body ++ [chr ';'])).length = body.length + 2 := by simp
    have hlast : (chr 'L' :: (body ++ [chr ';']))[(chr 'L' :: (body ++ [chr ';'])).length - 1]? =
      some (chr ';') := by simp
    rw [if_neg]
    · rw [show (chr 'L' :: (body ++ [chr ';'])).length - 1 = 1 + body.length by rw [hlength]; omega]
      refine (validateObjectBody_iff fun k hk => ?_).2 hbody
      rw [Nat.add_comm, List.getElem?_cons_succ, List.getElem?_append_left hk]
    · rw [hlast]
      rw [hlength] at hlong ⊢
      simp only [Bool.or_eq_true, decide_eq_true_eq, bne_iff_ne, ne_eq, not_or, not_lt, not_not]
      exact ⟨⟨⟨by omega, hlong⟩, by simp⟩, trivial⟩

/-- **The field descriptors that are accepted.** -/
theorem validateFieldDescriptor_iff :
    (validateFieldDescriptor value).isOk = true ↔ FieldType value := by
  unfold validateFieldDescriptor
  constructor
  · intro h
    obtain ⟨stop, hstop, h⟩ := isOk_bind.1 h
    obtain ⟨t, tail, heq, ht, rfl⟩ := typeEnd_iff.1 hstop
    have ht : FieldType t := ht.resolve_right (by simp)
    have hend : 0 + t.length = value.length := by
      by_contra hne
      rw [if_pos (by simpa using hne)] at h
      cases h
    have htail : tail = [] := by
      have hlength := congrArg List.length heq
      rw [List.drop_zero, List.length_append] at hlength
      exact List.eq_nil_of_length_eq_zero (by omega)
    rw [List.drop_zero, htail, List.append_nil] at heq
    exact heq ▸ ht
  · intro h
    refine isOk_bind.2 ⟨0 + value.length, typeEnd_iff.2 ⟨value, [], by simp, .inl h, rfl⟩, ?_⟩
    rw [if_neg (by simp)]
    rfl

/-- **The method descriptors that are accepted.** -/
theorem validateMethodDescriptor_iff :
    (validateMethodDescriptor value).isOk = true ↔
    ∃ types returns, MethodParse value types returns := by
  unfold validateMethodDescriptor
  rw [isOk_guard]
  constructor
  · rintro ⟨hopen, h⟩
    obtain ⟨pos, hpos, h⟩ := isOk_bind.1 h
    obtain ⟨hclose, h⟩ := isOk_guard.1 h
    obtain ⟨stop, hstop, h⟩ := isOk_bind.1 h
    obtain ⟨types, tail, heq, hall, rfl⟩ := (argumentsEnd_iff value value.length (by simp)).1
      ⟨hpos, by simpa using hclose⟩
    obtain ⟨t, rest, htail, ht, rfl⟩ := typeEnd_iff.1 hstop
    have hend : 1 + types.flatten.length + 1 + t.length = value.length := by
      by_contra hne
      rw [if_pos (by simpa using hne)] at h
      cases h
    obtain ⟨c, r, rfl⟩ : ∃ c r, value = c :: r := List.exists_cons_of_length_pos (by omega)
    obtain rfl : c = chr '(' := by simpa using hopen
    rw [List.drop_succ_cons, List.drop_zero] at heq
    subst heq
    have htail : tail = t ++ rest := by
      rw [← htail, show 1 + types.flatten.length + 1 =
        types.flatten.length + 1 + 1 by omega, List.drop_succ_cons,
        ← List.drop_drop, List.drop_left, List.drop_succ_cons, List.drop_zero]
    have hrest : rest = [] := by
      rw [htail] at hend
      simp only [List.length_cons, List.length_append] at hend
      exact List.eq_nil_of_length_eq_zero (by omega)
    rw [hrest, List.append_nil] at htail
    exact ⟨types, tail, hall, htail ▸ ht.imp_right And.right, rfl⟩
  · rintro ⟨types, returns, hall, hreturns, rfl⟩
    have hdrop : (chr '(' :: (types.flatten ++ chr ')' :: returns)).drop 1 = types.flatten ++
      chr ')' :: returns := rfl
    have hlength : ((chr '(' :: (types.flatten ++ chr ')' :: returns)).drop 1).length ≤
        (chr '(' :: (types.flatten ++ chr ')' :: returns)).length := by
      rw [List.length_drop]
      exact Nat.sub_le _ _
    obtain ⟨hpos, hclose⟩ := (argumentsEnd_iff _ _ hlength).2 ⟨types, returns, hdrop, hall, rfl⟩
    have hreturn : (chr '(' :: (types.flatten ++ chr ')' :: returns)).drop
        (1 + types.flatten.length + 1) = returns ++ [] := by
      rw [show 1 + types.flatten.length + 1 =
        types.flatten.length + 1 + 1 by omega, List.drop_succ_cons, ← List.drop_drop,
        List.drop_left, List.append_nil]
      rfl
    have htype : TypeAt true returns := hreturns.imp_right fun h => ⟨rfl, h⟩
    refine ⟨by simp, isOk_bind.2 ⟨_, hpos, isOk_guard.2 ⟨by simpa using hclose, ?_⟩⟩⟩
    refine isOk_bind.2 ⟨_, typeEnd_iff.2 ⟨returns, [], hreturn, htype, rfl⟩, ?_⟩
    rw [if_neg]
    · rfl
    · simp
      omega

/-- **One parse.** -/
theorem parse_unique {types types' : List JString} {returns returns' : JString}
    (h : MethodParse value types returns)
    (h' : MethodParse value types' returns') : types = types' ∧ returns = returns' := by
  have heq := h.text.symm.trans h'.text
  have hall := h.types
  have hall' := h'.types
  have htext := (List.cons.inj heq).2
  clear heq h h'
  induction types generalizing types' with
  | nil =>
    cases types' with
    | nil => exact ⟨rfl, (List.cons.inj htext).2⟩
    | cons t types' =>
      have hhead := (hall' t List.mem_cons_self).head_ne (types'.flatten ++ chr ')' :: returns')
      rw [← List.append_assoc, ← List.flatten_cons, ← htext] at hhead
      exact absurd rfl hhead
  | cons t types ih =>
    cases types' with
    | nil =>
      have hhead := (hall t List.mem_cons_self).head_ne (types.flatten ++ chr ')' :: returns)
      rw [← List.append_assoc, ← List.flatten_cons, htext] at hhead
      exact absurd rfl hhead
    | cons t' types' =>
      rw [List.forall_mem_cons] at hall hall'
      rw [List.flatten_cons, List.flatten_cons, List.append_assoc, List.append_assoc] at htext
      obtain ⟨rfl, hrest⟩ := @typeAt_unique _ false _ _ _ (.inl hall.1) (.inl hall'.1) htext
      obtain ⟨rfl, rfl⟩ := ih hall.2 hall'.2 hrest
      exact ⟨rfl, rfl⟩

end Accepted

/-! ## References -/

/-- The checks of a member's reference that are not about its descriptor. -/
structure MemberChecks (kind : SymbolKind) (owner : JString) (inputIdentity : Option JString)
    (name : JString) : Prop where
  owner : owner.length ≤ 1024 ∧ ClassType owner
  identity : ¬ (inputIdentity.any fun s => s.all isWhitespace || 256 < s.length ||
    s.any isWhitespace) = true
  name : (validateMemberName name kind).isOk = true

/-- The checks of a member are those of its parts. -/
theorem memberChecks_iff {kind : SymbolKind} {owner name : JString} {inputIdentity : Option JString}
    {x : Except String Unit} :
    (do
      validateClassDescriptor owner
      if inputIdentity.any fun s => s.all isWhitespace || 256 < s.length || s.any isWhitespace then
        throw "Invalid inputIdentity"
      validateMemberName name kind
      x : Except String Unit).isOk = true ↔ MemberChecks kind owner inputIdentity name ∧
        x.isOk = true := by
  rw [isOk_bind]
  constructor
  · rintro ⟨u, howner, h⟩
    obtain ⟨hidentity, h⟩ := isOk_guard.1 h
    obtain ⟨v, hname, h⟩ := isOk_bind.1 h
    exact ⟨⟨validateClassDescriptor_iff.1 (by rw [howner]; rfl), hidentity, by rw [hname]; rfl⟩, h⟩
  · rintro ⟨hchecks, hx⟩
    have howner := validateClassDescriptor_iff.2 hchecks.owner
    have hname := hchecks.name
    rcases ho : validateClassDescriptor owner with e | u
    · rw [ho] at howner
      cases howner
    · rcases hn : validateMemberName name kind with e | v
      · rw [hn] at hname
        cases hname
      · exact ⟨u, rfl, isOk_guard.2 ⟨hchecks.identity, isOk_bind.2 ⟨v, rfl, hx⟩⟩⟩

/-- **The descriptor checks accept the grammar**, within the length caps, and nothing else: what a
reference is accepted for is that its other fields are, and that its descriptor is one of the
grammar. -/
theorem descriptors_accepted (value owner name : JString) (inputIdentity : Option JString) :
    ((SymbolFields.validate ⟨.CLASS, value, none, none, none⟩).isOk = true ↔ value.length ≤ 1024 ∧
      ClassType value) ∧
      ((SymbolFields.validate ⟨.FIELD, owner, inputIdentity, some name, some value⟩).isOk = true ↔
        MemberChecks .FIELD owner inputIdentity name ∧ value.length ≤ 2048 ∧ FieldType value) ∧
      ((SymbolFields.validate ⟨.METHOD, owner, inputIdentity, some name, some value⟩).isOk = true ↔
        MemberChecks .METHOD owner inputIdentity name ∧
          (value.length ≤ 2048 ∧ ∃ parameters returns, MethodParse value parameters returns) ∧
          (name = str "<init>" → JString.endsWith value (str ")V") = true) ∧
          (name = str "<clinit>" → value = str "()V")) := by
  refine ⟨?_, ?_, ?_⟩
  · refine Iff.trans ?_ validateClassDescriptor_iff
    refine isOk_bind.trans ⟨?_, ?_⟩
    · rintro ⟨u, hu, -⟩
      rw [hu]
      rfl
    · intro h
      rcases hu : validateClassDescriptor value with e | u
      · rw [hu] at h
        cases h
      · exact ⟨u, rfl, rfl⟩
  · refine memberChecks_iff.trans (and_congr_right fun _ => ?_)
    refine isOk_guard.trans (and_congr not_lt ?_)
    exact validateFieldDescriptor_iff
  · refine memberChecks_iff.trans (and_congr_right fun _ => ?_)
    refine isOk_guard.trans ?_
    rw [and_assoc]
    refine and_congr not_lt ?_
    rw [if_neg (show ¬ (SymbolKind.METHOD == SymbolKind.FIELD) = true by decide), isOk_bind]
    have hspecial : ∀ {c : Bool} {e : String} {x : Except String Unit},
        (if c = true then throw e >>= fun (_ : PUnit) => x else x).isOk = true ↔ ¬ c = true ∧
          x.isOk = true := isOk_guard
    constructor
    · rintro ⟨u, hu, h⟩
      obtain ⟨hinit, h⟩ := hspecial.1 h
      obtain ⟨hclinit, -⟩ := hspecial.1 h
      refine ⟨validateMethodDescriptor_iff.1 (by rw [hu]; rfl), fun heq => ?_, fun heq => ?_⟩
      · simpa [heq] using hinit
      · simpa [heq] using hclinit
    · rintro ⟨hparse, hinit, hclinit⟩
      have hok := validateMethodDescriptor_iff.2 hparse
      rcases hu : validateMethodDescriptor value with e | u
      · rw [hu] at hok
        cases hok
      · refine ⟨u, rfl, hspecial.2 ⟨?_, hspecial.2 ⟨?_, rfl⟩⟩⟩
        · simpa using hinit
        · simpa using hclinit

/-! ## The cuts -/

/-- Every place that cuts the descriptor finds the parameter list of the parse, and the census its
return type. -/
structure CutAsParsed (r : SymbolRef) (parameters : List JString) (returns : JString) : Prop where
  census : ∀ m : MethodRecord, m.ref = r → m.arguments = parameterText parameters ∧
    m.returns = returns
  inventory : RawMethodCollisionInventory.arguments r = parameterText parameters
  edits : JadxNativeEditAdapter.argumentDescriptor r = parameterText parameters
  mappings : JadxMappingImportAdapter.arguments r = parameterText parameters

section Cuts

variable {r : SymbolRef} {parameters : List JString} {returns : JString}

/-- The descriptor of a method reference was checked. -/
theorem descriptor_of_method (h : r.kind = .METHOD) :
    (validateMethodDescriptor r.descriptor).isOk = true := by
  obtain ⟨⟨kind, owner, inputIdentity, name, descriptor⟩, hvalid⟩ := r
  obtain rfl : kind = .METHOD := h
  unfold SymbolFields.validate at hvalid
  obtain ⟨-, -, hvalid⟩ := isOk_bind.1 hvalid
  obtain ⟨-, hvalid⟩ := isOk_guard.1 hvalid
  cases name with
  | none => exact absurd hvalid not_isOk_throw
  | some name =>
    obtain ⟨-, -, hvalid⟩ := isOk_bind.1 hvalid
    cases descriptor with
    | none => exact absurd hvalid not_isOk_throw
    | some descriptor =>
      obtain ⟨-, hvalid⟩ := isOk_guard.1 hvalid
      rw [if_neg (show ¬ (SymbolKind.METHOD == SymbolKind.FIELD) = true by decide)] at hvalid
      obtain ⟨u, hu, -⟩ := isOk_bind.1 hvalid
      change (validateMethodDescriptor descriptor).isOk = true
      rw [hu]
      rfl

/-- The text of the parameters tells them apart. -/
theorem parameterText_injective {parameters' : List JString} {returns' : JString} {d d' : JString}
    (h : MethodParse d parameters returns) (h' : MethodParse d' parameters' returns')
    (heq : parameterText parameters = parameterText parameters') : parameters = parameters' := by
  have hv : ReturnType [chr 'V'] := .inr rfl
  have hp : MethodParse (parameterText parameters ++ [chr 'V']) parameters [chr 'V'] :=
    ⟨h.types, hv, by simp [parameterText]⟩
  have hp' : MethodParse (parameterText parameters ++ [chr 'V']) parameters' [chr 'V'] :=
    ⟨h'.types, hv, by rw [heq]; simp [parameterText]⟩
  exact (parse_unique hp hp').1

/-- **The cut at the first parenthesis is the parse's** exactly where no class of the parameter list
has one in its name. -/
theorem beforeParenthesis_iff {d : JString} (h : MethodParse d parameters returns) :
    beforeParenthesis d = parameterText parameters ↔ ∀ p ∈ parameters, chr ')' ∉ p := by
  have hflat : (∀ p ∈ parameters, chr ')' ∉ p) ↔ chr ')' ∉ parameters.flatten := by simp
  have hopen : chr '(' ≠ chr ')' := by decide
  have htext : d = (chr '(' :: parameters.flatten) ++ chr ')' :: returns := h.text
  rw [hflat]
  unfold beforeParenthesis JString.indexOf
  constructor
  · intro heq hin
    have hshort : d.idxOf (chr ')') < 1 + parameters.flatten.length := by
      rw [htext, List.idxOf_append_of_mem (List.mem_cons_of_mem _ hin)]
      have := List.idxOf_lt_length_of_mem (List.mem_cons_of_mem (chr '(') hin)
      rw [List.length_cons] at this
      omega
    have hlength := congrArg List.length heq
    rw [List.length_take] at hlength
    simp only [parameterText, List.length_cons, List.length_append, List.length_nil] at hlength
    omega
  · intro hout
    have hidx : d.idxOf (chr ')') = (chr '(' :: parameters.flatten).length := by
      rw [htext, List.idxOf_append_of_notMem, List.idxOf_cons_self, Nat.add_zero]
      rw [List.mem_cons, not_or]
      exact ⟨hopen.symm, hout⟩
    rw [hidx, htext, List.take_length_add_append]
    simp [parameterText]

/-- **Where a reference is cut as its descriptor is parsed**: no parameter has a closing
parenthesis. -/
theorem cutAsParsed_iff (hr : r.kind = .METHOD) (h : MethodParse r.descriptor parameters returns) :
    CutAsParsed r parameters returns ↔ ∀ p ∈ parameters, chr ')' ∉ p := by
  rw [← beforeParenthesis_iff h]
  constructor
  · exact fun hcut => hcut.inventory
  · intro hcut
    refine ⟨?_, hcut, ?_, hcut⟩
    · rintro m rfl
      have hargs : m.arguments = parameterText parameters := hcut
      refine ⟨hargs, ?_⟩
      have hsplit : m.arguments ++ m.returns = m.descriptor := List.take_append_drop _ _
      have htext : m.descriptor = parameterText parameters ++ returns := by
        refine h.text.trans ?_
        simp [parameterText]
      rw [hargs, htext] at hsplit
      exact List.append_cancel_left hsplit
    · unfold JadxNativeEditAdapter.argumentDescriptor
      rw [if_pos hr]
      exact hcut

/-- **Cuts and parses.** Of any two method references that are accepted, each has one parse; the
cuts are these parses, and are equal where the parameter lists are, exactly where no class of a
parameter list has a closing parenthesis in its name. -/
theorem cuts_as_parsed_iff (r r' : SymbolRef) (hr : r.kind = .METHOD) (hr' : r'.kind = .METHOD) :
    ∃ parameters returns parameters' returns', MethodParse r.descriptor parameters returns ∧
      MethodParse r'.descriptor parameters' returns' ∧
      ((CutAsParsed r parameters returns ∧ CutAsParsed r' parameters' returns' ∧
          (beforeParenthesis r.descriptor = beforeParenthesis r'.descriptor ↔
            parameters = parameters')) ↔
        (∀ p ∈ parameters, chr ')' ∉ p) ∧ ∀ p ∈ parameters', chr ')' ∉ p) := by
  obtain ⟨parameters, returns, h⟩ := validateMethodDescriptor_iff.1 (descriptor_of_method hr)
  obtain ⟨parameters', returns', h'⟩ := validateMethodDescriptor_iff.1 (descriptor_of_method hr')
  refine ⟨parameters, returns, parameters', returns', h, h', ?_⟩
  rw [cutAsParsed_iff hr h, cutAsParsed_iff hr' h']
  constructor
  · exact fun hall => ⟨hall.1, hall.2.1⟩
  · rintro ⟨hp, hp'⟩
    refine ⟨hp, hp', ?_⟩
    rw [(beforeParenthesis_iff h).2 hp, (beforeParenthesis_iff h').2 hp']
    exact ⟨parameterText_injective h h', fun heq => by rw [heq]⟩

/-- A reference of the class `A` to a method `f`. -/
def methodF (descriptor : JString)
    (h : (SymbolFields.validate ⟨.METHOD, str "LA;", none, some (str "f"), some descriptor⟩).isOk =
    true) : SymbolRef :=
  ⟨_, h⟩

/-- Both of two plain descriptors are. -/
theorem cuts_as_parsed_plain : ∃ parameters returns parameters' returns',
    MethodParse (str "(I)V") parameters returns ∧ MethodParse (str "()V") parameters' returns' ∧
      ((CutAsParsed (methodF (str "(I)V") (by decide)) parameters returns ∧
          CutAsParsed (methodF (str "()V") (by decide)) parameters' returns' ∧
          (beforeParenthesis (str "(I)V") = beforeParenthesis (str "()V") ↔
            parameters = parameters')) ↔
        (∀ p ∈ parameters, chr ')' ∉ p) ∧ ∀ p ∈ parameters', chr ')' ∉ p) :=
  cuts_as_parsed_iff (methodF (str "(I)V") (by decide)) (methodF (str "()V") (by decide)) rfl rfl

/-- Two methods with different parameter lists that every cut takes for the same. -/
theorem cuts_confused : MethodParse (str "(La)b;)V") [str "La)b;"] (str "V") ∧
    MethodParse (str "(La)c;)V") [str "La)c;"] (str "V") ∧
    RawMethodCollisionInventory.arguments (methodF (str "(La)b;)V") (by decide)) =
      RawMethodCollisionInventory.arguments (methodF (str "(La)c;)V") (by decide)) ∧
    ¬ CutAsParsed (methodF (str "(La)b;)V") (by decide)) [str "La)b;"] (str "V") := by
  have hbody : ∀ c : JChar, c = chr 'b' ∨ c = chr 'c' → FieldType (str "La)" ++ [c, chr ';']) := by
    intro c hc
    refine ⟨0, _, Nat.zero_le _, .object ⟨str "a)" ++ [c], .single ⟨by simp, ?_⟩, ?_⟩, rfl⟩
    · rcases hc with rfl | rfl
      · exact forall_of_all (p := fun d => d ≠ chr '/' ∧ forbiddenInBody d = false) (by decide)
      · exact forall_of_all (p := fun d => d ≠ chr '/' ∧ forbiddenInBody d = false) (by decide)
    · rfl
  have hb : MethodParse (str "(La)b;)V") [str "La)b;"] (str "V") :=
    ⟨fun p hp => List.mem_singleton.1 hp ▸ hbody _ (.inl rfl), .inr rfl, rfl⟩
  have hc : MethodParse (str "(La)c;)V") [str "La)c;"] (str "V") :=
    ⟨fun p hp => List.mem_singleton.1 hp ▸ hbody _ (.inr rfl), .inr rfl, rfl⟩
  refine ⟨hb, hc, by decide, fun hcut => ?_⟩
  have hno := (cutAsParsed_iff (r := methodF (str "(La)b;)V") (by decide)) rfl hb).1 hcut _
    List.mem_cons_self
  revert hno
  decide

end Cuts

end Libjadx
