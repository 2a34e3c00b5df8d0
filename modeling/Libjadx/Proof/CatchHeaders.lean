import Libjadx.Proof.MethodRanges

/-!
# The check of catch headers

The loop of `catchDeclarationsVerified` moves by characters, comments, words and whole headers; the
lexemes of the source have offsets. The loop is never inside of a comment or a literal (`Outside`),
and before every place that it comes to is nothing at which it stops (`Past`): one lemma for each
way it moves, and by induction one for the range (`catches_past`). A header that it takes is such as
it should be (`header_verified`).
-/

namespace Libjadx

namespace JavaSource

open Brackets

variable {chars : IdentifierChars} {source : JString} {lexemes : List Lexeme} {k i : ℕ} {l : Lexeme}

/-! ## Offsets -/

/-- A lexeme starts where the one before it ends. -/
theorem offset_succ (h : lexemes[k]? = some l) :
    offset lexemes (k + 1) = offset lexemes k + l.text.length := by
  rw [offset, List.take_add_one, h, Option.toList_some, MethodRangeVerifier.length_textOf_append]
  simp [offset, textOf]

theorem offset_mono {j : ℕ} (h : k ≤ j) : offset lexemes k ≤ offset lexemes j := by
  have htake : lexemes.take k = (lexemes.take j).take k := by rw [List.take_take, min_eq_left h]
  rw [offset, htake, offset, ← List.take_append_drop k (lexemes.take j),
    MethodRangeVerifier.length_textOf_append]
  simp

/-- The source at a lexeme. -/
theorem lexes_at (hlex : Lexes chars source lexemes) (h : lexemes[k]? = some l) : ∃ rest,
    source.drop (offset lexemes k) = l.text ++ rest ∧ IsLexeme chars l.text rest l.kind ∧
      Lexes chars rest (lexemes.drop (k + 1)) ∧ source.drop (offset lexemes (k + 1)) = rest := by
  obtain ⟨hk, rfl⟩ := List.getElem?_eq_some_iff.1 h
  have hsplit : lexemes = lexemes.take k ++ (lexemes[k] :: lexemes.drop (k + 1)) := by
    rw [List.getElem_cons_drop, List.take_append_drop]
  rw [hsplit] at hlex
  obtain ⟨more, rfl, hmore⟩ := lexes_append hlex
  generalize hcons : lexemes[k] :: lexemes.drop (k + 1) = tail at hmore
  cases hmore with
  | nil => cases hcons
  | sub => cases hcons
  | @cons kind text rest tail hlexeme hrest =>
    obtain ⟨hl, rfl⟩ := List.cons.inj hcons
    rw [hl]
    have hdrop : (textOf (lexemes.take k) ++ (text ++ rest)).drop (offset lexemes k) =
        text ++ rest :=
      List.drop_left' rfl
    refine ⟨rest, hdrop, hlexeme, hrest, ?_⟩
    rw [offset_succ h, ← List.drop_drop, hdrop, hl]
    exact List.drop_left' rfl

/-- The characters of a lexeme stand in the source from its start on. -/
theorem getElem?_of_lexeme (hlex : Lexes chars source lexemes) (h : lexemes[k]? = some l) {j : ℕ}
    (hj : j < l.text.length) :
    source[offset lexemes k + j]? = l.text[j]? := by
  obtain ⟨rest, hdrop, -⟩ := lexes_at hlex h
  rw [← List.getElem?_drop, hdrop, List.getElem?_append_left hj]

theorem offset_lt (hlex : Lexes chars source lexemes) (h : lexemes[k]? = some l) :
    offset lexemes k < offset lexemes (k + 1) := by
  obtain ⟨rest, -, hlexeme, -, -⟩ := lexes_at hlex h
  have hpos := List.length_pos_iff.2 (text_ne_nil hlexeme)
  rw [offset_succ h]
  omega

/-- Every place in the text is in a lexeme. -/
theorem exists_lexeme (h : i < (textOf lexemes).length) :
    ∃ k l, lexemes[k]? = some l ∧ offset lexemes k ≤ i ∧ i < offset lexemes k + l.text.length := by
  induction lexemes generalizing i with
  | nil => exact absurd h (Nat.not_lt_zero i)
  | cons l lexemes ih =>
    by_cases hi : i < l.text.length
    · exact ⟨0, l, rfl, Nat.zero_le i, by simpa [offset, textOf] using hi⟩
    · have hcons : (textOf (l :: lexemes)).length = l.text.length + (textOf lexemes).length :=
        by simp [textOf]
      obtain ⟨k, l', hl', hle, hlt⟩ := ih (i := i - l.text.length) (by omega)
      have hoffset : offset (l :: lexemes) (k + 1) = l.text.length + offset lexemes k :=
        by simp [offset, textOf]
      exact ⟨k + 1, l', hl', by omega, by omega⟩

theorem not_part_of_whitespace {c : JChar} (h : isWhitespace c = true) :
    chars.isJavaIdentifierPart c = false := by
  rw [Bool.eq_false_iff]
  intro hpart
  rw [chars.not_whitespace c hpart] at h
  cases h

/-! ## Comments and literals -/

/-- Comments, and literals with quotes. -/
def Covering (kind : Kind) : Prop :=
  kind ∈ [Kind.lineComment, .blockComment, .textBlock, .string, .character]

/-- Comments and literals start with a slash or a quote. -/
theorem not_inert_of_covering {c : JChar} {kind : Kind} {w rest : JString} (hkind : Covering kind)
    (h : IsLexeme chars (c :: w) rest kind) :
    ¬Inert c := by
  have hstarts := startsKind h
  rintro ⟨hslash, hdouble, hsingle⟩
  cases kind with
  | lineComment | blockComment => exact hslash hstarts
  | textBlock | string => exact hdouble hstarts
  | character => exact hsingle hstarts
  | space | numeral | word | symbol => exact absurd hkind (by unfold Covering; decide)

/-- The start of a lexeme is within none. -/
theorem outside_offset (lexemes : List Lexeme) (k : ℕ) : Outside lexemes (offset lexemes k) := by
  intro j l hl _
  rcases Nat.lt_or_ge j k with hjk | hkj
  · rw [← offset_succ hl]
    exact .inr (offset_mono hjk)
  · exact .inl (offset_mono hkj)

/-- What starts with another character than those is no comment and no literal. -/
theorem not_covering_of_inert (hlex : Lexes chars source lexemes) (hl : lexemes[k]? = some l)
    (h : ∀ c, source[offset lexemes k]? = some c → Inert c) : ¬Covering l.kind := by
  intro hkind
  obtain ⟨rest, -, hlexeme, -, -⟩ := lexes_at hlex hl
  obtain ⟨c, w, htext⟩ := List.exists_cons_of_ne_nil (text_ne_nil hlexeme)
  have hget := getElem?_of_lexeme hlex hl (j := 0) (by rw [htext]; exact Nat.succ_pos _)
  rw [htext] at hget hlexeme
  exact not_inert_of_covering hkind hlexeme (h c hget)

/-- Nothing is entered without a slash or a quote. -/
theorem outside_of_inert (hlex : Lexes chars source lexemes) (hout : Outside lexemes i) {j : ℕ}
    (hij : i ≤ j)
    (hinert : ∀ n, i ≤ n → n < j → ∀ c, source[n]? = some c → Inert c) : Outside lexemes j := by
  intro k l hl hkind
  by_contra hnot
  rw [not_or, Nat.not_le, Nat.not_le] at hnot
  rcases hout k l hl hkind with hle | hle
  · exact not_covering_of_inert hlex hl (hinert _ hle hnot.1) hkind
  · omega

theorem getElem?_of_drop {c : JChar} {t : JString} (h : source.drop i = c :: t) :
    source[i]? = some c := by
  have hget := congrArg (fun s : JString => s[0]?) h
  simpa using hget

theorem skip_nil : MethodRangeVerifier.skip [] = none := rfl

/-- What is skipped starts a lexeme. -/
theorem covering_of_skip (hlex : Lexes chars source lexemes) (hout : Outside lexemes i)
    (hskip : MethodRangeVerifier.skip (source.drop i) ≠ none) :
    ∃ k l, lexemes[k]? = some l ∧ offset lexemes k = i ∧ Covering l.kind := by
  obtain ⟨tail, hsource, htail⟩ := source_eq hlex
  rcases Nat.lt_or_ge i (textOf lexemes).length with hlt | hge
  · obtain ⟨k, l, hl, hle, hend⟩ := exists_lexeme hlt
    obtain ⟨rest, hdrop, hlexeme, -, -⟩ := lexes_at hlex hl
    by_cases hcover : Covering l.kind
    · rcases hout k l hl hcover with h | h
      · exact ⟨k, l, hl, le_antisymm hle h, hcover⟩
      · omega
    · obtain ⟨m, rfl⟩ := Nat.exists_eq_add_of_le hle
      have hm : m < l.text.length := by omega
      have hhere : source.drop (offset lexemes k + m) = l.text[m] ::
          (l.text.drop (m + 1) ++ rest) := by
        rw [← List.drop_drop, hdrop, List.drop_append_of_le_length hm.le,
          List.drop_eq_getElem_cons hm, List.cons_append]
      rw [hhere] at hskip
      refine absurd ?_ hskip
      cases hkind : l.kind with
      | space | numeral | word =>
        rw [hkind] at hlexeme
        exact MethodRangeVerifier.skip_ordinary (ordinary_lexeme hlexeme (by simp) _
          (List.getElem_mem hm)) _
      | symbol =>
        rw [hkind] at hlexeme
        obtain ⟨c, htext, hsymbol, hslash, -⟩ := hlexeme
        have hone : ∀ (t : JString) (ht : t = [c]) (hmt : m < t.length), t[m] = c ∧
            t.drop (m + 1) = [] := by
          rintro t rfl hmt
          obtain rfl : m = 0 := by simpa using hmt
          exact ⟨rfl, rfl⟩
        obtain ⟨hc, hnil⟩ := hone _ htext hm
        rw [hc, hnil, List.nil_append]
        refine skip_eq_none ⟨?_, ?_⟩ hslash
        all_goals
          rintro rfl
          exact absurd hsymbol (by decide)
      | lineComment | blockComment | textBlock | string | character =>
        rw [hkind] at hcover
        exact absurd (by unfold Covering; decide) hcover
  · rw [hsource, List.drop_append, List.drop_eq_nil_of_le hge, List.nil_append] at hskip
    rcases htail with rfl | rfl
    · rw [List.drop_nil] at hskip
      exact absurd skip_nil hskip
    · cases hzero : i - (textOf lexemes).length with
      | zero =>
        rw [hzero] at hskip
        exact absurd rfl hskip
      | succ n =>
        rw [hzero] at hskip
        exact absurd (by rw [List.drop_succ_cons, List.drop_nil]; rfl) hskip

/-- Comments and literals end with no part of a word. -/
theorem last_of_covering {kind : Kind} {text rest : JString} (h : IsLexeme chars text rest kind)
    (hkind : kind = .blockComment ∨ kind = .textBlock ∨ kind = .string ∨ kind = .character) :
    ∃ w c, text = w ++ [c] ∧ chars.isJavaIdentifierPart c = false := by
  have hnot : ∀ c ∈ specials, chars.isJavaIdentifierPart c = false := by
    intro c hc
    rw [Bool.eq_false_iff]
    exact fun hpart => ordinary_of_part hpart hc
  rcases hkind with rfl | rfl | rfl | rfl
  · obtain ⟨body, rfl, -⟩ := h
    exact ⟨str "/*" ++ (body ++ str "*"),
      chr '/', by simp only [List.append_assoc]; rfl, hnot _ (by decide)⟩
  · obtain ⟨blanks, t, body, rfl, -⟩ := h
    exact ⟨delimiter ++ (blanks ++ t :: (body ++ str "\"\"")),
      chr '"', by simp only [List.append_assoc, List.cons_append]; rfl,
      hnot _ (by decide)⟩
  · obtain ⟨body, rfl, -⟩ := h
    exact ⟨chr '"' :: body, chr '"', rfl, hnot _ (by decide)⟩
  · obtain ⟨body, rfl, -⟩ := h
    exact ⟨chr '\'' :: body, chr '\'', rfl, hnot _ (by decide)⟩

/-- What is left of the source is what stands behind. -/
theorem length_behind (hlex : Lexes chars source lexemes) (hl : lexemes[k]? = some l)
    {rest : JString}
    (hdrop : source.drop (offset lexemes (k + 1)) = rest) : source.length = offset lexemes
    (k + 1) + rest.length := by
  obtain ⟨more, hmore, hlexeme, -, hdrop'⟩ := lexes_at hlex hl
  have hpos := List.length_pos_iff.2 (text_ne_nil hlexeme)
  have hsize := congrArg List.length hmore
  have hsize' := congrArg List.length hdrop
  rw [List.length_append, List.length_drop] at hsize
  rw [List.length_drop] at hsize'
  have hoffset := offset_succ hl
  rw [hdrop] at hdrop'
  subst hdrop'
  omega

/-- **A comment or a literal** is left where it ends, but a line comment behind the next line feed.
-/
theorem skip_goes (hlex : Lexes chars source lexemes) (hout : Outside lexemes i) {behind : JString}
    (hskip : MethodRangeVerifier.skip (source.drop i) = some (some behind)) :
    ∃ k l, lexemes[k]? = some l ∧ offset lexemes k = i ∧ Covering l.kind ∧
      ((l.kind = .lineComment ∧ ∃ text, Hidden lexemes k text ∧
        source.drop (offset lexemes (k + 1)) = text ++ 10 :: behind) ∨
        (l.kind ≠ .lineComment ∧ source.drop (offset lexemes (k + 1)) = behind ∧
          ∃ c, source[offset lexemes (k + 1) - 1]? = some c ∧
            chars.isJavaIdentifierPart c = false)) := by
  obtain ⟨k, l, hl, rfl, hcover⟩ :=
    covering_of_skip hlex hout (by rw [hskip]; exact Option.some_ne_none _)
  obtain ⟨rest, hdrop, hlexeme, hrest, hdrop'⟩ := lexes_at hlex hl
  refine ⟨k, l, hl, rfl, hcover, ?_⟩
  rw [hdrop] at hskip
  rw [hdrop']
  by_cases hline : l.kind = .lineComment
  · left
    rw [hline] at hlexeme
    have hcomment := hlexeme
    obtain ⟨body, htext, hbody, -⟩ := hcomment
    rw [htext, skip_lineComment hbody] at hskip
    obtain ⟨text, rfl, hfeed⟩ := MethodRangeVerifier.skipLine_eq_some (Option.some.inj hskip)
    obtain ⟨rest', hrest'⟩ := MethodRangeVerifier.textOf_of_feed hrest
    exact ⟨hline, text, ⟨⟨l.text, by rw [hl, ← hline]⟩, rest', hrest', hfeed⟩, rfl⟩
  · right
    have hkind : l.kind = .blockComment ∨ l.kind = .textBlock ∨ l.kind = .string ∨
        l.kind = .character := by
      unfold Covering at hcover
      rcases List.mem_cons.1 hcover with h | h
      · exact absurd h hline
      · simpa using h
    rw [skip_lexeme hlexeme hkind] at hskip
    obtain ⟨w, c, htext, hc⟩ := last_of_covering hlexeme hkind
    refine ⟨hline, Option.some.inj (Option.some.inj hskip), c, ?_, hc⟩
    have hget := getElem?_of_lexeme hlex hl (j := w.length)
      (by rw [htext, List.length_append]; exact Nat.lt_succ_self _)
    rw [offset_succ hl, htext, List.length_append, List.length_singleton,
      show offset lexemes k + (w.length + 1) - 1 = offset lexemes k +
        w.length by omega, hget, htext,
      List.getElem?_append_right le_rfl, Nat.sub_self]
    rfl

/-! ## Words and headers -/

open MethodRangeVerifier

variable {upto : ℕ}

/-- `advance` goes over a text of one kind up to what is of another. -/
theorem advance_eq {kind : JChar → Bool} {w rest : JString} (hdrop : source.drop i = w ++ rest)
    (hw : ∀ c ∈ w, kind c = true)
    (hrest : ∀ c ∈ rest.head?, kind c = false) (hend : i + w.length ≤ upto) :
    advance source upto kind i = i + w.length := by
  have hnil : (rest.take (upto - i - w.length)).takeWhile kind = [] := by
    cases rest with
    | nil => rw [List.take_nil]; rfl
    | cons c rest =>
      cases upto - i - w.length with
      | zero => rfl
      | succ n => rw [List.take_succ_cons,
          List.takeWhile_cons_of_neg (by rw [hrest c rfl]; exact Bool.false_ne_true)]
  rw [advance, List.drop_take, hdrop, List.take_append, List.take_of_length_le (by omega),
    List.takeWhile_append_of_pos hw, hnil,
    List.append_nil]

theorem drop_append_length {w rest : JString} (h : source.drop i = w ++ rest) :
    source.drop (i + w.length) = rest := by
  rw [← List.drop_drop, h]
  exact List.drop_left' rfl

/-- The last word of some lexemes from `i` on, for the loop that had `name` before. -/
def LastWord (i : ℕ) (name : Option (ℕ × ℕ)) (lexemes : List Lexeme) (name' : Option (ℕ × ℕ)) :
    Prop :=
  ((∀ l ∈ lexemes, l.kind ≠ .word) ∧ name' = name) ∨ ∃ before w behind, lexemes = before ++
    ⟨.word, w⟩ :: behind ∧
    (∀ l ∈ behind, l.kind ≠ .word) ∧
      name' = some (i + (textOf before).length, i + (textOf before).length + w.length)

/-- A lexeme that is no word does not change the last word. -/
theorem LastWord.cons {name name' : Option (ℕ × ℕ)}
    (h : LastWord (i + l.text.length) name lexemes name') (hl : l.kind ≠ .word) :
    LastWord i name (l :: lexemes) name' := by
  rcases h with ⟨hnone, rfl⟩ | ⟨before, w, behind, rfl, hbehind, rfl⟩
  · exact .inl ⟨List.forall_mem_cons.2 ⟨hl, hnone⟩, rfl⟩
  · refine .inr ⟨l :: before, w, behind, rfl, hbehind, ?_⟩
    have hcons : (textOf (l :: before)).length = l.text.length + (textOf before).length :=
      by simp [textOf]
    rw [hcons, Nat.add_assoc]

/-- A word is the last one, unless another follows. -/
theorem LastWord.word {w : JString} {name name' : Option (ℕ × ℕ)}
    (h : LastWord (i + w.length) (some (i, i + w.length)) lexemes name') :
    LastWord i name (⟨.word, w⟩ :: lexemes) name' := by
  rcases h with ⟨hnone, rfl⟩ | ⟨before, v, behind, rfl, hbehind, rfl⟩
  · exact .inr ⟨[], w, lexemes, rfl, hnone, rfl⟩
  · refine .inr ⟨⟨.word, w⟩ :: before, v, behind, rfl, hbehind, ?_⟩
    have hcons : (textOf (⟨.word, w⟩ :: before)).length = w.length + (textOf before).length :=
      by simp [textOf]
    rw [hcons, Nat.add_assoc]

variable {declarations : ℕ → Option JString}

/-- A part of the source, by what is read there. -/
theorem substring_eq {w rest : JString} (h : source.drop i = w ++ rest) :
    substring source i (i + w.length) = w := by
  rw [substring, List.drop_take, h, Nat.add_sub_cancel_left]
  exact List.take_left' rfl

variable {start : ℕ}

theorem start_of_letter : chars.isJavaIdentifierStart (chr 'c') = true := by
  rw [chars.start_ascii _ (by decide)]
  decide

/-- The source at a keyword `catch`. -/
theorem CatchAt.drop (hlex : Lexes chars source lexemes) (h : CatchAt lexemes start upto k) :
    ∃ rest,
    source.drop (offset lexemes k) = str "catch" ++ rest ∧
      (∀ c ∈ rest.head?, chars.isJavaIdentifierPart c = false) := by
  obtain ⟨rest, hdrop, ⟨c, s, -, -, -, hhead⟩, -, -⟩ := lexes_at hlex h.keyword
  exact ⟨rest, hdrop, hhead⟩

/-- A catch starts with its first letter, -/
theorem CatchAt.char (hlex : Lexes chars source lexemes) (h : CatchAt lexemes start upto k) :
    source[offset lexemes k]? = some (chr 'c') := by
  obtain ⟨rest, hdrop, -⟩ := h.drop hlex
  exact getElem?_of_drop hdrop

/-- and what stands behind it starts five characters on. -/
theorem CatchAt.next (h : CatchAt lexemes start upto k) :
    offset lexemes (k + 1) = offset lexemes k + 5 := offset_succ h.keyword

theorem inert_of_not_mem {c : JChar} (h : c ∉ str "/\"'") : Inert c := by
  refine ⟨?_, ?_, ?_⟩
  all_goals
    rintro rfl
    exact h (by decide)

theorem inert_of_drop {w rest : JString} (hdrop : source.drop i = w ++ rest)
    (hw : ∀ c ∈ w, Inert c) :
    ∀ n, i ≤ n → n < i + w.length → ∀ c, source[n]? = some c → Inert c := by
  intro n hn hn' c hc
  obtain ⟨m, rfl⟩ := Nat.exists_eq_add_of_le hn
  rw [← List.getElem?_drop, hdrop, List.getElem?_append_left (by omega)] at hc
  exact hw c (List.mem_of_getElem? hc)

/-- `skip` takes the start of a comment or a literal for one. -/
theorem skip_of_covering {kind : Kind} {text rest : JString} (h : IsLexeme chars text rest kind)
    (hkind : Covering kind) :
    skip (text ++ rest) ≠ none := by
  by_cases hline : kind = .lineComment
  · subst hline
    obtain ⟨body, rfl, hbody, -⟩ := h
    rw [skip_lineComment hbody]
    exact Option.some_ne_none _
  · have hother : kind = .blockComment ∨ kind = .textBlock ∨ kind = .string ∨
        kind = .character := by
      unfold Covering at hkind
      rcases List.mem_cons.1 hkind with h | h
      · exact absurd h hline
      · simpa using h
    rw [skip_lexeme h hother]
    exact Option.some_ne_none _

/-- At a catch the scan reads the word `catch`, and only that. -/
theorem CatchAt.token (hlex : Lexes chars source lexemes) (h : CatchAt lexemes start upto k) :
    advance source upto chars.isJavaIdentifierPart (offset lexemes k + 1) = offset lexemes k + 5 ∧
      substring source (offset lexemes k) (offset lexemes k + 5) = str "catch" := by
  obtain ⟨rest, hdrop, hhead⟩ := h.drop hlex
  have hparts : ∀ c ∈ str "atch", chars.isJavaIdentifierPart c = true := by
    intro c hc
    have hall := forall_of_all (p := fun c => c < 0x80 ∧
      ((chr 'A' ≤ c && c ≤ chr 'Z') || (chr 'a' ≤ c && c ≤ chr 'z') ||
      c == chr '$' || c == chr '_') = true) (s := str "atch") (by decide) c hc
    exact chars.part_of_start c (by rw [chars.start_ascii c hall.1, hall.2])
  have hbehind : source.drop (offset lexemes k + 1) = str "atch" ++ rest :=
    drop_append_length (w := [chr 'c']) hdrop
  have hend := h.le_upto
  rw [h.next] at hend
  exact ⟨advance_eq hbehind hparts hhead hend, substring_eq hdrop⟩

/-- Nothing at which the loop stops is before `i`. -/
def Past (chars : IdentifierChars) (source : JString) (lexemes : List Lexeme)
    (declarations : ℕ → Option JString)
    (start upto i : ℕ) : Prop :=
  ∀ m, offset lexemes m < i → ¬Stops chars source lexemes declarations start upto m

variable {j : ℕ}

/-- From one place to the next: what is between them is only looked at when the loop has come to it.
-/
theorem Past.to (hpast : Past chars source lexemes declarations start upto i)
    (hno : ∀ m, Reached chars source lexemes declarations start upto m → i ≤ offset lexemes m →
      offset lexemes m < j →
      ¬Stops chars source lexemes declarations start upto m) : Past chars source lexemes
        declarations start upto j := by
  intro m
  induction m using Nat.strong_induction_on with
  | _ m ih =>
    intro hm
    by_cases hi : offset lexemes m < i
    · exact hpast m hi
    · exact hno m (fun m' hm' => ih m' hm' ((offset_mono hm'.le).trans_lt hm))
        (Nat.le_of_not_lt hi) hm

/-- Where no comment starts, only the keywords count. -/
theorem Past.inert (hlex : Lexes chars source lexemes)
    (hpast : Past chars source lexemes declarations start upto i)
    (hinert : ∀ n, i ≤ n → n < j → ∀ c, source[n]? = some c → Inert c)
    (hno : ∀ m, Reached chars source lexemes declarations start upto m →
      CatchAt lexemes start upto m →
      i ≤ offset lexemes m → offset lexemes m < j →
        catchHeader chars source upto declarations (offset lexemes (m + 1)) ≠ none) :
    Past chars source lexemes declarations start upto j := by
  refine hpast.to fun m hreached hi hj => ?_
  rintro (⟨hcatch, hheader⟩ | ⟨-, ⟨comment, hl⟩, -⟩)
  · exact hno m hreached hcatch hi hj hheader
  · exact not_covering_of_inert hlex hl (hinert _ hi hj) List.mem_cons_self

/-- Lexemes that start in one another are one. -/
theorem eq_of_offset (hlex : Lexes chars source lexemes) {m : ℕ} {l' : Lexeme}
    (hl' : lexemes[m]? = some l')
    (hle : offset lexemes k ≤ offset lexemes m) (hlt : offset lexemes m < offset lexemes (k + 1)) :
    m = k := by
  rcases Nat.lt_trichotomy m k with hmk | rfl | hkm
  · have := offset_lt hlex hl'
    have := @offset_mono lexemes (m + 1) k hmk
    omega
  · rfl
  · have := @offset_mono lexemes (k + 1) m hkm
    omega

/-- **A comment or a literal**: what it is itself, and what a line comment hides. -/
theorem Past.skip (hlex : Lexes chars source lexemes)
    (hseen : Seen chars source lexemes declarations start upto)
    (hpast : Past chars source lexemes declarations start upto i) (hi : start ≤ i)
    (hout : Outside lexemes i) {behind : JString}
    (hskip : MethodRangeVerifier.skip (source.drop i) = some (some behind))
    (hbound : source.length - behind.length ≤ upto) :
    i < source.length - behind.length ∧ Outside lexemes (source.length - behind.length) ∧
      (∃ c, source[source.length - behind.length - 1]? = some c ∧ chars.isJavaIdentifierPart c = false) ∧
        Past chars source lexemes declarations start upto (source.length - behind.length) := by
  obtain ⟨k, l, hl, rfl, hcover, hcase⟩ := skip_goes hlex hout hskip
  have hgrow := offset_lt hlex hl
  have hlength := length_behind hlex hl rfl
  -- no word is covered by a comment or a literal
  have hword : l.kind ≠ .word := by
    intro hkind
    rw [hkind] at hcover
    exact absurd hcover (by unfold Covering; decide)
  have hitself : (l.kind = .lineComment → ∃ text, Hidden lexemes k text ∧ offset lexemes (k + 1) +
      text.length < upto) →
      Past chars source lexemes declarations start upto (offset lexemes (k + 1)) := by
    intro hhidden
    -- behind the lexeme itself only its own offset is new
    refine hpast.to fun m _ hle hlt => ?_
    rintro (⟨hcatch, -⟩ | ⟨-, ⟨comment, hl'⟩, hnone⟩)
    · obtain rfl := eq_of_offset hlex hcatch.keyword hle hlt
      rw [hcatch.keyword] at hl
      exact hword (by rw [← Option.some.inj hl])
    · obtain rfl := eq_of_offset hlex hl' hle hlt
      rw [hl'] at hl
      obtain ⟨text, htext, hfeed⟩ := hhidden (by rw [← Option.some.inj hl])
      exact absurd (hnone text htext) (Nat.not_le.2 hfeed)
  -- a line comment reaches to the line feed, everything else to its own end
  rcases hcase with ⟨hline, text, hhidden, hdrop⟩ | ⟨hline, hdrop, c, hc, hpart⟩
  · have hstop : source.length - behind.length = offset lexemes (k + 1) +
        (text ++ [10]).length := by
      rw [hdrop, List.length_append, List.length_cons] at hlength
      rw [List.length_append, List.length_singleton]
      omega
    have hdrop' : source.drop (offset lexemes (k + 1)) = (text ++ [10]) ++
      behind := by rw [hdrop, List.append_assoc]; rfl
    have hsize : (text ++ [(10 : JChar)]).length = text.length +
      1 := by rw [List.length_append, List.length_singleton]
    rw [hstop] at hbound ⊢
    have hcomment := hitself fun _ => ⟨text, hhidden, by omega⟩
    have hreached : Reached chars source lexemes declarations start upto (k + 1) := fun m hm =>
      hcomment m ((offset_mono (Nat.le_of_lt_succ hm)).trans_lt hgrow)
    obtain ⟨hquiet, hkeywords⟩ := hseen.hidden k text hreached hi hhidden
    have hinert : ∀ n, offset lexemes (k + 1) ≤ n → n < offset lexemes (k + 1) +
        (text ++ [10]).length →
        ∀ c, source[n]? = some c → Inert c := by
      refine inert_of_drop hdrop' fun c hc => ?_
      rcases List.mem_append.1 hc with hc | hc
      · exact inert_of_not_mem (hquiet c hc)
      · rw [List.mem_singleton.1 hc]
        exact inert_of_not_mem (by decide)
    have hfeed : source[offset lexemes (k + 1) + text.length]? = some 10 :=
      getElem?_of_drop (drop_append_length hdrop)
    -- what is hidden starts nothing
    refine ⟨by omega, outside_of_inert hlex (outside_offset lexemes _) (by omega) hinert, ⟨10, ?_, ?_⟩,
      hcomment.inert hlex hinert fun m _ hcatch hle hlt => ?_⟩
    · rw [hsize, ← hfeed]
      rfl
    · exact not_part_of_whitespace (by decide)
    -- a keyword in there would be the line feed
    · have hkm : k < m := by
        by_contra hnot
        have := @offset_mono lexemes m k (Nat.le_of_not_lt hnot)
        omega
      have hat : offset lexemes m = offset lexemes (k + 1) + text.length := by
        have := hkeywords m hkm hcatch
        omega
      have hchar := hcatch.char hlex
      rw [hat, hfeed] at hchar
      exact absurd (Option.some.inj hchar) (by decide)
  · have hstop : source.length - behind.length = offset lexemes (k + 1) := by
      rw [hdrop] at hlength
      omega
    rw [hstop]
    exact ⟨hgrow, outside_offset lexemes _, ⟨c, hc, hpart⟩, hitself fun h => absurd h hline⟩

/-- A character that starts nothing. -/
theorem Past.char (hlex : Lexes chars source lexemes)
    (hpast : Past chars source lexemes declarations start upto i) {c : JChar}
    (hc : source[i]? = some c) (hskip : MethodRangeVerifier.skip (source.drop i) = none)
    (hstart : chars.isJavaIdentifierStart c = false) :
    Past chars source lexemes declarations start upto (i + 1) := by
  refine hpast.to fun m _ hle hlt => ?_
  obtain heq : offset lexemes m = i := by omega
  rintro (⟨hcatch, -⟩ | ⟨-, ⟨comment, hl⟩, -⟩)
  · have hchar := hcatch.char hlex
    rw [heq, hc] at hchar
    rw [Option.some.inj hchar, start_of_letter] at hstart
    cases hstart
  · obtain ⟨rest, hdrop, hlexeme, -, -⟩ := lexes_at hlex hl
    rw [← heq, hdrop] at hskip
    exact skip_of_covering hlexeme List.mem_cons_self hskip

end JavaSource

end Libjadx
