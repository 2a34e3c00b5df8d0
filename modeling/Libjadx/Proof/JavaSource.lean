import Libjadx.Spec.MethodRanges

/-!
# Lexemes and the scanners

What the scanners of `MethodRangeVerifier` do with one lexeme: a comment or a literal is skipped as
a whole (`skip_lexeme`), but a line comment up to its next line feed (`skipLine_eq`); nothing starts
inside of the others (`skip_eq_none`).
-/

namespace Libjadx

namespace JavaSource

variable {chars : IdentifierChars} {s text rest : JString} {lexemes : List Lexeme} {kind : Kind}

theorem text_ne_nil (h : IsLexeme chars text rest kind) : text ≠ [] := by
  cases kind with
  | space => obtain ⟨c, rfl, -⟩ := h; exact List.cons_ne_nil _ _
  | lineComment => obtain ⟨body, rfl, -⟩ := h; exact List.cons_ne_nil _ _
  | blockComment => obtain ⟨body, rfl, -⟩ := h; exact List.cons_ne_nil _ _
  | textBlock => obtain ⟨blanks, t, body, rfl, -⟩ := h; exact List.cons_ne_nil _ _
  | string => obtain ⟨body, rfl, -⟩ := h; exact List.cons_ne_nil _ _
  | character => obtain ⟨body, rfl, -⟩ := h; exact List.cons_ne_nil _ _
  | numeral =>
    rintro rfl
    exact absurd h.1 (by decide)
  | word => obtain ⟨c, s, rfl, -⟩ := h; exact List.cons_ne_nil _ _
  | symbol => obtain ⟨c, rfl, -⟩ := h; exact List.cons_ne_nil _ _

/-! ## Literals and comments -/

/-- One character of a literal. -/
theorem skipQuoted_cons {quote c : JChar} (h : c ≠ backslash) (s : JString) :
    MethodRangeVerifier.skipQuoted quote (c :: s) = if c = quote then some s
      else MethodRangeVerifier.skipQuoted quote s := by
  rw [MethodRangeVerifier.skipQuoted.eq_def]
  exact if_neg h

/-- A backslash takes the next character with it. -/
theorem skipQuoted_escape (quote c : JChar) (s : JString) :
    MethodRangeVerifier.skipQuoted quote (backslash :: c :: s) = MethodRangeVerifier.skipQuoted
      quote s := by
  rw [MethodRangeVerifier.skipQuoted.eq_def]
  exact if_pos rfl

/-- **A literal is skipped to its closing quote.** -/
theorem skipQuoted_body {quote : JChar} {body : JString} (h : QuotedBody quote body)
    (hquote : quote ≠ backslash)
    (rest : JString) : MethodRangeVerifier.skipQuoted quote
    (body ++ quote :: rest) = some rest := by
  induction h with
  | nil => rw [List.nil_append, skipQuoted_cons hquote, if_pos rfl]
  | plain hc hback _ _ ih => rw [List.cons_append, skipQuoted_cons hback, if_neg hc, ih]
  | escape _ _ ih => rw [List.cons_append, List.cons_append, skipQuoted_escape, ih]

theorem skipTextBlock_cons {c : JChar} {s : JString} (hback : c ≠ backslash)
    (hopen : ¬delimiter <+: c :: s)
    (hlong : 2 ≤ s.length) : MethodRangeVerifier.skipTextBlock (c :: s) =
    MethodRangeVerifier.skipTextBlock s := by
  match s, hlong with
  | a :: b :: s, _ =>
    have hne : [c, a, b] ≠ delimiter := by
      intro heq
      refine hopen ⟨s, ?_⟩
      rw [← heq]
      rfl
    rw [MethodRangeVerifier.skipTextBlock, if_neg hback, if_neg hne]

/-- **A text block is skipped to its delimiter.** -/
theorem skipTextBlock_body {body : JString} (h : TextBody body) (rest : JString) :
    MethodRangeVerifier.skipTextBlock (body ++ delimiter ++ rest) = some rest := by
  induction h with
  | nil =>
    show MethodRangeVerifier.skipTextBlock (chr '"' :: chr '"' :: chr '"' :: rest) = some rest
    rw [MethodRangeVerifier.skipTextBlock, if_neg (by decide), if_pos (by decide)]
  | @plain c s hback hopen _ ih =>
    rw [List.cons_append, List.cons_append, skipTextBlock_cons hback ?_ ?_, ih]
    · intro hdelim
      have hshort : delimiter.length ≤ (c :: s ++ delimiter).length := by
        rw [List.length_append]
        exact Nat.le_add_left _ _
      refine hopen (List.prefix_of_prefix_length_le hdelim ?_ hshort)
      exact ⟨rest, by simp⟩
    · rw [List.length_append, List.length_append]
      exact le_trans (by decide : 2 ≤ delimiter.length) (by omega)
  | @escape c s _ ih =>
    obtain ⟨a, t, ht⟩ : ∃ a t, s ++ delimiter ++ rest = a :: t := by
      cases s with
      | nil => exact ⟨_, _, rfl⟩
      | cons a s => exact ⟨_, _, rfl⟩
    rw [List.cons_append, List.cons_append, List.cons_append, List.cons_append, ht,
      MethodRangeVerifier.skipTextBlock, if_pos rfl, ← ht, ih]

theorem skipTextBlock_blanks {blanks : JString} (h : ∀ c ∈ blanks, c ≠ backslash ∧ c ≠ chr '"')
    {s : JString} (hlong : 2 ≤ s.length) :
    MethodRangeVerifier.skipTextBlock (blanks ++ s) = MethodRangeVerifier.skipTextBlock s := by
  induction blanks with
  | nil => rfl
  | cons c blanks ih =>
    obtain ⟨hback, hquote⟩ := h c List.mem_cons_self
    rw [List.cons_append, skipTextBlock_cons hback, ih fun d hd => h d (List.mem_cons_of_mem c hd)]
    · rintro ⟨t, ht⟩
      exact hquote (List.cons.inj ht).1.symm
    · rw [List.length_append]
      omega

/-- **A comment is skipped to its end.** -/
theorem skipComment_body {body : JString} (h : ¬str "*/" <:+: body ++ str "*") (rest : JString) :
    MethodRangeVerifier.skipComment (body ++ str "*/" ++ rest) = some rest := by
  induction body with
  | nil => rfl
  | cons c body ih =>
    obtain ⟨d, t, ht⟩ : ∃ d t, body ++ str "*/" ++ rest = d :: t := by
      cases body with
      | nil => exact ⟨_, _, rfl⟩
      | cons a s => exact ⟨_, _, rfl⟩
    have hfirst : ¬(c = chr '*' ∧ d = chr '/') := by
      rintro ⟨rfl, rfl⟩
      cases body with
      | nil => exact absurd (List.cons.inj ht).1 (by decide)
      | cons a s =>
        obtain ⟨rfl, -⟩ := List.cons.inj ht
        exact h ⟨[], s ++ str "*", rfl⟩
    rw [List.cons_append, List.cons_append, ht, MethodRangeVerifier.skipComment, if_neg hfirst, ← ht, ih]
    rintro ⟨x, y, hxy⟩
    exact h ⟨c :: x, y, by rw [List.cons_append, List.cons_append, hxy]; rfl⟩

/-- What is not a line feed stays in a line comment. -/
theorem skipLine_append {body : JString} (h : ∀ c ∈ body, c ≠ 10) (rest : JString) :
    MethodRangeVerifier.skipLine (body ++ rest) = MethodRangeVerifier.skipLine rest := by
  induction body with
  | nil => rfl
  | cons c body ih =>
    rw [List.cons_append, MethodRangeVerifier.skipLine, if_neg (h c List.mem_cons_self),
      ih fun d hd => h d (List.mem_cons_of_mem c hd)]

/-- A line comment is skipped to the next line feed, which need not be where it ends. -/
theorem skip_lineComment {body : JString} (h : ∀ c ∈ body, isTerminator c = false)
    (rest : JString) :
    MethodRangeVerifier.skip (str "//" ++ body ++ rest) = some
      (MethodRangeVerifier.skipLine rest) := by
  have hbody : ∀ c ∈ body, c ≠ 10 := by
    rintro c hc rfl
    exact absurd (h 10 hc) (by decide)
  rw [← skipLine_append hbody]
  rfl

/-- **A comment or a literal is skipped**, as Java has it. -/
theorem skip_lexeme (h : IsLexeme chars text rest kind)
    (hkind : kind = .blockComment ∨ kind = .textBlock ∨ kind = .string ∨ kind = .character) :
    MethodRangeVerifier.skip (text ++ rest) = some (some rest) := by
  rcases hkind with rfl | rfl | rfl | rfl
  · obtain ⟨body, rfl, hbody⟩ := h
    rw [← skipComment_body hbody rest]
    rfl
  · obtain ⟨blanks, t, body, rfl, hblanks, ht, hbody⟩ := h
    have hplain : ∀ c ∈ blanks ++ [t], c ≠ backslash ∧ c ≠ chr '"' := by
      intro c hc
      rw [List.mem_append, List.mem_singleton] at hc
      constructor
      · rintro rfl
        rcases hc with hc | rfl
        · exact absurd (hblanks _ hc) (by decide)
        · exact absurd ht (by decide)
      · rintro rfl
        rcases hc with hc | rfl
        · exact absurd (hblanks _ hc) (by decide)
        · exact absurd ht (by decide)
    have hlong : 2 ≤ (body ++ delimiter ++ rest).length := by
      rw [List.length_append, List.length_append]
      exact le_trans (by decide : 2 ≤ delimiter.length) (by omega)
    have hskip := skipTextBlock_blanks hplain hlong
    rw [skipTextBlock_body hbody] at hskip
    rw [← hskip, show delimiter ++ (blanks ++ t :: (body ++ delimiter)) ++ rest =
      delimiter ++ (blanks ++ [t] ++ (body ++ delimiter ++ rest)) by simp]
    rfl
  · obtain ⟨body, rfl, hbody, hopen⟩ := h
    have hdelim : delimiter.isPrefixOf (chr '"' :: (body ++ [chr '"'] ++ rest)) = false := by
      rw [Bool.eq_false_iff, Ne, List.isPrefixOf_iff_prefix]
      exact hopen
    have hskip := skipQuoted_body hbody (by decide) rest
    rw [List.append_cons] at hskip
    rw [List.cons_append, MethodRangeVerifier.skip, if_neg (by exact Bool.false_ne_true),
      if_neg (by exact Bool.false_ne_true)]
    rw [hdelim, if_neg Bool.false_ne_true, if_pos (.inl rfl), hskip]
  · obtain ⟨body, rfl, hbody⟩ := h
    have hskip := skipQuoted_body hbody (by decide) rest
    rw [List.append_cons] at hskip
    rw [← hskip]
    rfl

/-! ## Other lexemes -/

/-- No comment and no literal starts with this character. -/
def Inert (c : JChar) : Prop := c ≠ chr '/' ∧ c ≠ chr '"' ∧ c ≠ chr '\''

/-- What starts with no quote and no comment is not skipped. -/
theorem skip_eq_none {c : JChar} (hquote : c ≠ chr '"' ∧ c ≠ chr '\'')
    (hslash : c = chr '/' → ∀ d ∈ s.head?, d ≠ chr '/' ∧ d ≠ chr '*') :
    MethodRangeVerifier.skip (c :: s) = none := by
  have hopen : ∀ d, d = chr '/' ∨ d = chr '*' → List.isPrefixOf [chr '/', d] (c :: s) = false := by
    intro d hd
    rw [Bool.eq_false_iff, Ne, List.isPrefixOf_iff_prefix]
    rintro ⟨t, ht⟩
    obtain ⟨rfl, rfl⟩ := List.cons.inj ht
    have hne := hslash rfl d rfl
    exact hd.elim hne.1 hne.2
  have hdelim : delimiter.isPrefixOf (c :: s) = false := by
    rw [Bool.eq_false_iff, Ne, List.isPrefixOf_iff_prefix]
    rintro ⟨t, ht⟩
    exact hquote.1 (List.cons.inj ht).1.symm
  have hline : (str "//").isPrefixOf (c :: s) = false := hopen _ (.inl rfl)
  have hblock : (str "/*").isPrefixOf (c :: s) = false := hopen _ (.inr rfl)
  rw [MethodRangeVerifier.skip, hline, hblock]
  rw [hdelim, if_neg Bool.false_ne_true, if_neg Bool.false_ne_true, if_neg Bool.false_ne_true,
    if_neg (not_or.2 hquote)]

theorem skip_inert {c : JChar} (h : Inert c) (s : JString) :
    MethodRangeVerifier.skip (c :: s) = none :=
  skip_eq_none h.2 fun hc => absurd hc h.1

/-! ## Numeric literals -/

/-- What numeric literals consist of. -/
def numeralChar (c : JChar) : Bool :=
  isDigit c || (chr 'a' ≤ c && c ≤ chr 'z') || (chr 'A' ≤ c && c ≤ chr 'Z') ||
    (str "_.+-").contains c

def Numeral (s : JString) : Prop := ∀ c ∈ s, numeralChar c = true

theorem Numeral.append {s t : JString} (hs : Numeral s) (ht : Numeral t) : Numeral (s ++ t) :=
  fun c hc => (List.mem_append.1 hc).elim (hs c) (ht c)

theorem Numeral.cons {c : JChar} (hc : numeralChar c = true) (hs : Numeral s) : Numeral (c :: s) :=
  List.forall_mem_cons.2 ⟨hc, hs⟩

theorem Numeral.nil : Numeral [] := fun _ hc => absurd hc List.not_mem_nil

theorem numeralChar_of_isHexDigit {c : JChar} (h : isHexDigit c = true) : numeralChar c = true := by
  simp only [isHexDigit, numeralChar, Bool.or_eq_true, Bool.and_eq_true, decide_eq_true_eq] at h ⊢
  rcases h with (h | h) | h
  · exact .inl (.inl (.inl h))
  · exact .inl (.inl (.inr ⟨h.1, UInt16.le_trans h.2 (by decide : chr 'f' ≤ chr 'z')⟩))
  · exact .inl (.inr ⟨h.1, UInt16.le_trans h.2 (by decide : chr 'F' ≤ chr 'Z')⟩)

theorem isHexDigit_of_isDigit {c : JChar} (h : isDigit c = true) : isHexDigit c = true := by
  rw [isHexDigit, h]
  rfl

theorem isDigit_of_isOctalDigit {c : JChar} (h : isOctalDigit c = true) : isDigit c = true := by
  simp only [isOctalDigit, isDigit, Bool.and_eq_true, decide_eq_true_eq] at h ⊢
  exact ⟨h.1, UInt16.le_trans h.2 (by decide : chr '7' ≤ chr '9')⟩

theorem isDigit_of_isBinaryDigit {c : JChar} (h : isBinaryDigit c = true) : isDigit c = true := by
  simp only [isBinaryDigit, Bool.or_eq_true, beq_iff_eq] at h
  rcases h with rfl | rfl <;> decide

/-- A run of digits is of the characters of numerals. -/
theorem digitRun_numeral {digit : JChar → Bool} (hdigit : ∀ c, digit c = true → isHexDigit c = true)
    (h : digitRun digit s = true) : Numeral s := by
  rw [digitRun, Bool.and_eq_true, Bool.and_eq_true, List.all_eq_true] at h
  intro c hc
  have hcase := h.1.1 c hc
  rw [Bool.or_eq_true, beq_iff_eq] at hcase
  rcases hcase with hcase | rfl
  · exact numeralChar_of_isHexDigit (hdigit c hcase)
  · decide

theorem behindMark_numeral {mark : Char} (hmark : numeralChar (chr mark) = true ∧
    numeralChar (chr mark.toUpper) = true) {t : JString}
    (h : behindMark mark s = some t) (ht : Numeral t) : Numeral s := by
  match s with
  | [] => cases h
  | [_] => cases h
  | a :: b :: s =>
    rw [behindMark] at h
    split at h
    · rename_i hcase
      obtain rfl := Option.some.inj h
      refine .cons (by rw [hcase.1]; decide) (.cons ?_ ht)
      rcases hcase.2 with rfl | rfl
      · exact hmark.1
      · exact hmark.2
    · cases h

theorem integerNumeral_numeral (h : integerNumeral s = true) : Numeral s := by
  have hoctal := fun c hc => isHexDigit_of_isDigit (isDigit_of_isOctalDigit (c := c) hc)
  have hbinary := fun c hc => isHexDigit_of_isDigit (isDigit_of_isBinaryDigit (c := c) hc)
  simp only [integerNumeral, Bool.or_eq_true, Bool.and_eq_true, beq_iff_eq, Option.any_eq_true] at h
  rcases h with (((rfl | h) | h) | ⟨t, ht, h⟩) | ⟨t, ht, h⟩
  · exact .cons (by decide) .nil
  · exact digitRun_numeral (fun _ => isHexDigit_of_isDigit) h.1
  · exact digitRun_numeral hoctal h.1
  · exact behindMark_numeral (by decide) ht (digitRun_numeral (fun _ hc => hc) h)
  · exact behindMark_numeral (by decide) ht (digitRun_numeral hbinary h)

/-- A cut puts the text together again. -/
theorem append_of_mem_cuts {a b : JString} (h : (a, b) ∈ cuts s) : s = a ++ b := by
  obtain ⟨n, -, hn⟩ := List.mem_map.1 h
  obtain ⟨rfl, rfl⟩ := Prod.mk.inj hn
  exact (List.take_append_drop n s).symm

theorem exponent_numeral {letter : Char} (hletter : numeralChar (chr letter) = true ∧
    numeralChar (chr letter.toUpper) = true)
    (h : exponent letter s = true) : Numeral s := by
  match s with
  | [] => cases h
  | [_] => cases h
  | a :: b :: s =>
    simp only [exponent, Bool.and_eq_true, Bool.or_eq_true, beq_iff_eq] at h
    obtain ⟨ha, hrest⟩ := h
    refine .cons ?_ ?_
    · rcases ha with rfl | rfl
      · exact hletter.1
      · exact hletter.2
    · rcases hrest with hrest | ⟨hsign, hrest⟩
      · exact digitRun_numeral (fun _ => isHexDigit_of_isDigit) hrest
      · refine .cons ?_ (digitRun_numeral (fun _ => isHexDigit_of_isDigit) hrest)
        rcases hsign with rfl | rfl <;> decide

theorem fraction_numeral {digit : JChar → Bool} (hdigit : ∀ c, digit c = true → isHexDigit c = true)
    (h : fraction digit s = true) : Numeral s := by
  have hside : ∀ t : JString, (t.isEmpty || digitRun digit t) = true → Numeral t := by
    intro t ht
    rw [Bool.or_eq_true, List.isEmpty_iff] at ht
    rcases ht with rfl | ht
    · exact .nil
    · exact digitRun_numeral hdigit ht
  obtain ⟨⟨whole, rest⟩, hmem, h⟩ := List.any_eq_true.1 h
  rw [append_of_mem_cuts hmem]
  match rest with
  | [] => cases h
  | point :: part =>
    simp only [Bool.and_eq_true, beq_iff_eq] at h
    obtain ⟨⟨⟨rfl, hwhole⟩, hpart⟩, -⟩ := h
    exact (hside whole hwhole).append (.cons (by decide) (hside part hpart))

theorem decimalFloat_numeral {suffix : Bool} (h : decimalFloat suffix s = true) : Numeral s := by
  obtain ⟨⟨significand, power⟩, hmem, h⟩ := List.any_eq_true.1 h
  rw [append_of_mem_cuts hmem]
  simp only [Bool.and_eq_true, Bool.or_eq_true, List.isEmpty_iff] at h
  obtain ⟨hpower, hsignificand⟩ := h
  refine .append ?_ ?_
  · rcases hsignificand with hs | hs
    · exact fraction_numeral (fun _ => isHexDigit_of_isDigit) hs
    · exact digitRun_numeral (fun _ => isHexDigit_of_isDigit) hs.1
  · rcases hpower with rfl | hp
    · exact .nil
    · exact exponent_numeral (by decide) hp

theorem hexFloat_numeral (h : hexFloat s = true) : Numeral s := by
  obtain ⟨t, ht, h⟩ := (Option.any_eq_true _ _).1 h
  obtain ⟨⟨significand, power⟩, hmem, h⟩ := List.any_eq_true.1 h
  refine behindMark_numeral (by decide) ht ?_
  rw [append_of_mem_cuts hmem]
  simp only [Bool.and_eq_true, Bool.or_eq_true] at h
  refine .append ?_ (exponent_numeral (by decide) h.1)
  rcases h.2 with hs | hs
  · exact digitRun_numeral (fun _ hc => hc) hs
  · exact fraction_numeral (fun _ hc => hc) hs

theorem suffix_numeral {p : JChar → Bool} (hp : ∀ c, p c = true → numeralChar c = true)
    (h : s.getLast?.any p = true)
    (hs : Numeral s.dropLast) : Numeral s := by
  obtain ⟨c, hlast, hc⟩ := (Option.any_eq_true _ _).1 h
  rw [← List.dropLast_append_getLast? c hlast]
  exact hs.append (.cons (hp c hc) .nil)

/-- **A numeric literal is of the characters of numerals.** -/
theorem numericLiteral_numeral (h : numericLiteral s = true) : Numeral s := by
  simp only [numericLiteral, Bool.or_eq_true, Bool.and_eq_true] at h
  rcases h with (((h | h) | h) | h) | h
  · exact integerNumeral_numeral h
  · exact decimalFloat_numeral h
  · exact hexFloat_numeral h
  · refine suffix_numeral (fun c hc => ?_) h.1 (integerNumeral_numeral h.2)
    rw [Bool.or_eq_true, beq_iff_eq, beq_iff_eq] at hc
    rcases hc with rfl | rfl <;> decide
  · refine suffix_numeral (fun c hc => ?_) h.1 (h.2.elim decimalFloat_numeral hexFloat_numeral)
    rw [floatSuffix, List.contains_iff_mem] at hc
    exact forall_of_all (p := fun c => numeralChar c = true) (by decide) c hc

/-- A number starts with a digit, or a point and a digit. -/
def Headed (s : JString) : Prop := ∃ d t, isDigit d = true ∧ (s = d :: t ∨ s = chr '.' :: d :: t)

/-- What stands behind does not change how a text starts. -/
theorem Headed.append {s : JString} (h : Headed s) (t : JString) : Headed (s ++ t) := by
  obtain ⟨d, u, hd, rfl | rfl⟩ := h
  · exact ⟨d, u ++ t, hd, .inl rfl⟩
  · exact ⟨d, u ++ t, hd, .inr rfl⟩

theorem headed_digitRun {digit : JChar → Bool} (hdigit : ∀ c, digit c = true → isDigit c = true)
    (h : digitRun digit s = true) :
    ∃ d t, isDigit d = true ∧ s = d :: t := by
  rw [digitRun, Bool.and_eq_true, Bool.and_eq_true] at h
  match s with
  | [] => cases h.1.2
  | c :: s => exact ⟨c, s, hdigit c h.1.2, rfl⟩

theorem headed_of_digits (h : ∃ d t, isDigit d = true ∧ s = d :: t) : Headed s := by
  obtain ⟨d, t, hd, heq⟩ := h
  exact ⟨d, t, hd, .inl heq⟩

theorem headed_behindMark {mark : Char} {t : JString} (h : behindMark mark s = some t) :
    Headed s := by
  match s with
  | [] => cases h
  | [_] => cases h
  | a :: b :: s =>
    rw [behindMark] at h
    split at h
    · rename_i hcase
      exact ⟨a, b :: s, by rw [hcase.1]; decide, .inl rfl⟩
    · cases h

theorem headed_integerNumeral (h : integerNumeral s = true) : Headed s := by
  simp only [integerNumeral, Bool.or_eq_true, Bool.and_eq_true, beq_iff_eq, Option.any_eq_true] at h
  rcases h with (((rfl | h) | h) | ⟨t, ht, -⟩) | ⟨t, ht, -⟩
  · exact ⟨chr '0', [], by decide, .inl rfl⟩
  · exact headed_of_digits (headed_digitRun (fun _ hc => hc) h.1)
  · exact headed_of_digits (headed_digitRun (fun _ => isDigit_of_isOctalDigit) h.1)
  · exact headed_behindMark ht
  · exact headed_behindMark ht

theorem headed_fraction (h : fraction isDigit s = true) : Headed s := by
  obtain ⟨⟨whole, rest⟩, hmem, h⟩ := List.any_eq_true.1 h
  rw [append_of_mem_cuts hmem]
  match rest with
  | [] => cases h
  | point :: part =>
    simp only [Bool.and_eq_true, Bool.or_eq_true, beq_iff_eq, List.isEmpty_iff] at h
    obtain ⟨⟨⟨rfl, hwhole⟩, hpart⟩, hnot⟩ := h
    rcases hwhole with rfl | hwhole
    · rcases hpart with rfl | hpart
      · exact absurd hnot (by decide)
      · obtain ⟨d, t, hd, rfl⟩ := headed_digitRun (fun _ hc => hc) hpart
        exact ⟨d, t, hd, .inr rfl⟩
    · exact (headed_of_digits (headed_digitRun (fun _ hc => hc) hwhole)).append _

theorem headed_decimalFloat {suffix : Bool} (h : decimalFloat suffix s = true) : Headed s := by
  obtain ⟨⟨significand, power⟩, hmem, h⟩ := List.any_eq_true.1 h
  rw [append_of_mem_cuts hmem]
  simp only [Bool.and_eq_true, Bool.or_eq_true] at h
  rcases h.2 with hs | hs
  · exact (headed_fraction hs).append _
  · exact (headed_of_digits (headed_digitRun (fun _ hc => hc) hs.1)).append _

theorem headed_hexFloat (h : hexFloat s = true) : Headed s := by
  obtain ⟨t, ht, -⟩ := (Option.any_eq_true _ _).1 h
  exact headed_behindMark ht

theorem headed_of_dropLast {p : JChar → Bool} (h : s.getLast?.any p = true)
    (hs : Headed s.dropLast) : Headed s := by
  obtain ⟨c, hlast, -⟩ := (Option.any_eq_true _ _).1 h
  rw [← List.dropLast_append_getLast? c hlast]
  exact hs.append _

/-- **A numeric literal starts with a digit, or a point and one.** -/
theorem headed_numericLiteral (h : numericLiteral s = true) : Headed s := by
  simp only [numericLiteral, Bool.or_eq_true, Bool.and_eq_true] at h
  rcases h with (((h | h) | h) | h) | h
  · exact headed_integerNumeral h
  · exact headed_decimalFloat h
  · exact headed_hexFloat h
  · exact headed_of_dropLast h.1 (headed_integerNumeral h.2)
  · exact headed_of_dropLast h.1 (h.2.elim headed_decimalFloat headed_hexFloat)

/-! ## Ordinary text -/

/-- What no scanner looks for. -/
def Ordinary (c : JChar) : Prop := c ∉ specials

/-- An ordinary character starts no comment and no literal. -/
theorem Ordinary.inert {c : JChar} (h : Ordinary c) : Inert c := by
  refine ⟨?_, ?_, ?_⟩
  all_goals
    rintro rfl
    exact h (by decide)

/-- What is in no identifier. -/
theorem not_part {c : JChar} (hascii : c < 0x80)
    (hstart : ((chr 'A' ≤ c && c ≤ chr 'Z') || (chr 'a' ≤ c && c ≤ chr 'z') ||
      c == chr '$' || c == chr '_') = false)
    (hpart : ((chr '0' ≤ c && c ≤ chr '9') || c ≤ 8 || (0xE ≤ c && c ≤ 0x1B) || c == 0x7F) = false) :
    chars.isJavaIdentifierPart c = false := by
  simp only [Bool.or_eq_false_iff] at hpart
  rw [chars.part_ascii c hascii, chars.start_ascii c hascii, hstart, hpart.1.1.1, hpart.1.1.2,
    hpart.1.2, hpart.2]
  rfl

/-- What names consist of is ordinary. -/
theorem ordinary_of_part {c : JChar} (h : chars.isJavaIdentifierPart c = true) : Ordinary c := by
  intro hc
  have hall : ∀ d ∈ specials, chars.isJavaIdentifierPart d = false := by
    intro d hd
    have hd' : (d < 0x80 ∧ ((chr 'A' ≤ d && d ≤ chr 'Z') || (chr 'a' ≤ d && d ≤ chr 'z') ||
        d == chr '$' || d == chr '_') = false) ∧
        ((chr '0' ≤ d && d ≤ chr '9') || d ≤ 8 || (0xE ≤ d && d ≤ 0x1B) || d == 0x7F) = false :=
      forall_of_all (p := fun d =>
        (d < 0x80 ∧ ((chr 'A' ≤ d && d ≤ chr 'Z') || (chr 'a' ≤ d && d ≤ chr 'z') || d == chr '$' ||
        d == chr '_') = false) ∧ ((chr '0' ≤ d && d ≤ chr '9') || d ≤ 8 || (0xE ≤ d && d ≤ 0x1B) ||
          d == 0x7F) = false)
        (by decide) d hd
    exact not_part hd'.1.1 hd'.1.2 hd'.2
  rw [hall c hc] at h
  cases h

/-- So is what numerals consist of, -/
theorem ordinary_of_numeralChar {c : JChar} (h : numeralChar c = true) : Ordinary c := by
  intro hc
  have hall := forall_of_all (p := fun d => numeralChar d = false) (s := specials) (by decide) c hc
  rw [hall] at h
  cases h

theorem ordinary_of_space {c : JChar} (h : (isBlank c || isTerminator c) = true) : Ordinary c := by
  intro hc
  have hall := forall_of_all (p := fun d => (isBlank d || isTerminator d) = false) (s := specials)
    (by decide) c hc
  rw [hall] at h
  cases h

/-- No scanner looks for anything in white space, a number or a word. -/
theorem ordinary_lexeme (h : IsLexeme chars text rest kind)
    (hkind : kind = .space ∨ kind = .numeral ∨ kind = .word) :
    ∀ c ∈ text, Ordinary c := by
  rcases hkind with rfl | rfl | rfl
  · obtain ⟨c, rfl, hc⟩ := h
    exact List.forall_mem_singleton.2 (ordinary_of_space hc)
  · exact fun c hc => ordinary_of_numeralChar (numericLiteral_numeral h.1 c hc)
  · obtain ⟨c, s, rfl, hc, hs, -⟩ := h
    exact List.forall_mem_cons.2 ⟨ordinary_of_part (chars.part_of_start c hc), fun d hd =>
      ordinary_of_part (hs d hd)⟩

/-! ## The first lexeme -/

/-- What a lexeme of a kind starts with. -/
def StartsKind (chars : IdentifierChars) (c : JChar) : Kind → Prop
  | .space => (isBlank c || isTerminator c) = true
  | .lineComment | .blockComment => c = chr '/'
  | .textBlock | .string => c = chr '"'
  | .character => c = chr '\''
  | .numeral => isDigit c = true ∨ c = chr '.'
  | .word => chars.isJavaIdentifierStart c = true
  | .symbol => isSymbol c = true

theorem startsKind {c : JChar} {w : JString} (h : IsLexeme chars (c :: w) rest kind) :
    StartsKind chars c kind := by
  cases kind with
  | space =>
    obtain ⟨d, hd, hspace⟩ := h
    rwa [← (List.cons.inj hd).1] at hspace
  | lineComment =>
    obtain ⟨body, hbody, -⟩ := h
    exact (List.cons.inj hbody).1
  | blockComment =>
    obtain ⟨body, hbody, -⟩ := h
    exact (List.cons.inj hbody).1
  | textBlock =>
    obtain ⟨blanks, t, body, hbody, -⟩ := h
    exact (List.cons.inj hbody).1
  | string =>
    obtain ⟨body, hbody, -⟩ := h
    exact (List.cons.inj hbody).1
  | character =>
    obtain ⟨body, hbody, -⟩ := h
    exact (List.cons.inj hbody).1
  | numeral =>
    obtain ⟨d, t, hd, heq | heq⟩ := headed_numericLiteral h.1
    · exact .inl ((List.cons.inj heq).1 ▸ hd)
    · exact .inr (List.cons.inj heq).1
  | word =>
    obtain ⟨d, t, hd, hstart, -⟩ := h
    rwa [← (List.cons.inj hd).1] at hstart
  | symbol =>
    obtain ⟨d, hd, hsymbol, -⟩ := h
    rwa [← (List.cons.inj hd).1] at hsymbol

theorem mem_digits {c : JChar} (h : isDigit c = true) : c ∈ str "0123456789" := by
  have hbounds : (chr '0').toNat = 48 ∧ (chr '9').toNat = 57 := by decide
  have hall : ∀ n < 10, UInt16.ofNat (48 + n) ∈ str "0123456789" := by decide
  simp only [isDigit, Bool.and_eq_true, decide_eq_true_eq, UInt16.le_iff_toNat_le, hbounds] at h
  have hn := hall (c.toNat - 48) (by omega)
  rwa [show 48 + (c.toNat - 48) = c.toNat by omega, UInt16.ofNat_toNat] at hn

/-- The lexemes are the text, but for a control-Z at its end. -/
theorem source_eq (h : Lexes chars s lexemes) :
    ∃ rest, s = textOf lexemes ++ rest ∧ (rest = [] ∨ rest = [0x1A]) := by
  induction h with
  | nil => exact ⟨[], rfl, .inl rfl⟩
  | sub => exact ⟨[0x1A], rfl, .inr rfl⟩
  | cons _ _ ih =>
    obtain ⟨rest, rfl, hrest⟩ := ih
    exact ⟨rest, by simp [textOf], hrest⟩

/-- The lexemes behind a part of them. -/
theorem lexes_append {lexemes' : List Lexeme} (h : Lexes chars s (lexemes ++ lexemes')) :
    ∃ rest, s = textOf lexemes ++ rest ∧ Lexes chars rest lexemes' := by
  induction lexemes generalizing s with
  | nil => exact ⟨s, rfl, h⟩
  | cons l lexemes ih =>
    cases h with
    | @cons kind text more _ hlexeme hmore =>
      obtain ⟨rest, rfl, hrest⟩ := ih hmore
      exact ⟨rest, by simp [textOf], hrest⟩

/-- The identifiers of a source in ASCII. -/
def ascii : IdentifierChars where
  isJavaIdentifierStart c :=
    (chr 'A' ≤ c && c ≤ chr 'Z') || (chr 'a' ≤ c && c ≤ chr 'z') || c == chr '$' || c == chr '_'
  isJavaIdentifierPart c :=
    ((chr 'A' ≤ c && c ≤ chr 'Z') || (chr 'a' ≤ c && c ≤ chr 'z') || c == chr '$' || c == chr '_') ||
      (chr '0' ≤ c && c ≤ chr '9') || c ≤ 8 || (0xE ≤ c && c ≤ 0x1B) || c == 0x7F
  part_of_start c h := by simp only [h, Bool.true_or]
  not_whitespace c h := by
    have hbounds : (chr '0').toNat = 48 ∧ (chr '9').toNat = 57 ∧ (chr 'a').toNat = 97 ∧
        (chr 'z').toNat = 122 ∧
        (chr 'A').toNat = 65 ∧ (chr 'Z').toNat = 90 ∧ (chr '$').toNat = 36 ∧
          (chr '_').toNat = 95 := by decide
    rw [Bool.eq_false_iff]
    intro hwhite
    simp only [isWhitespace, Bool.or_eq_true, Bool.and_eq_true, decide_eq_true_eq, beq_iff_eq,
      UInt16.le_iff_toNat_le,
      ← UInt16.toNat_inj, hbounds] at h hwhite
    simp at h hwhite
    omega
  start_ascii _ _ := rfl
  part_ascii _ _ := rfl

end JavaSource

end Libjadx
