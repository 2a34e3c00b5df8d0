import Libjadx.Proof.Touch
import Libjadx.Spec.Bytes

/-!
# Texts that are cut to a number of bytes

`bounded` cuts the UTF-8 bytes of a text, wherever the cut falls.

* `decodePrefix_spec`: what the cut bytes decode to.
* `bounded_iff`: the result keeps the limit and is a part of the text where the text fits, or where
  the bytes end with a code point and no surrogate before the cut lacks its partner.
* `texts_kept`: in a run whose texts are such, stages and diagnostics keep their limits.
-/

namespace Libjadx

variable {s t : JString} {l : List ℕ} {p n : ℕ}

/-! ## Code points and their text -/

/-- A scalar value is one code point of its characters. -/
theorem toChars_scalar (hp : Utf8.Scalar p) :
    Paired (toChars p) = true ∧ codePoints (toChars p) = [p] := by
  by_cases hlt : p < 0x10000
  · have hnat : p.toUInt16.toNat = p := by
      have hmod : p.toUInt16.toNat = p % 65536 := by simp
      omega
    have hsur : (isHighSurrogate p.toUInt16 || isLowSurrogate p.toUInt16) = false := by
      rw [← Bool.not_eq_true, surrogate_iff, hnat]
      rcases hp with hp | hp <;> omega
    rw [toChars, if_pos hlt, Paired, codePoints, hsur, hnat]
    exact ⟨rfl, rfl⟩
  · have hbound : p < 0x110000 := by
      rcases hp with hp | hp <;> omega
    have hhigh : (0xD800 + (p - 0x10000) / 0x400).toUInt16.toNat = 0xD800 +
        (p - 0x10000) / 0x400 := by
      have hmod : (0xD800 + (p - 0x10000) / 0x400).toUInt16.toNat = (0xD800 + (p - 0x10000) / 0x400)
        % 65536 := by simp
      omega
    have hlow : (0xDC00 + (p - 0x10000) % 0x400).toUInt16.toNat = 0xDC00 +
        (p - 0x10000) % 0x400 := by
      have hmod : (0xDC00 + (p - 0x10000) % 0x400).toUInt16.toNat = (0xDC00 + (p - 0x10000) % 0x400)
        % 65536 := by simp
      omega
    have hpair : (isHighSurrogate (0xD800 + (p - 0x10000) / 0x400).toUInt16 &&
        isLowSurrogate (0xDC00 + (p - 0x10000) % 0x400).toUInt16) = true := by
      rw [Bool.and_eq_true, isHighSurrogate_iff, isLowSurrogate_iff, hhigh, hlow]
      omega
    have hpoint : 0x10000 + (0xD800 + (p - 0x10000) / 0x400 - 0xD800) * 0x400 +
        (0xDC00 + (p - 0x10000) % 0x400 - 0xDC00) = p := by omega
    rw [toChars, if_neg hlt, Paired, if_pos hpair, codePoints, if_pos hpair, hhigh, hlow, hpoint]
    exact ⟨rfl, rfl⟩

/-- The text of scalar values has these code points. -/
theorem ofCodePoints_scalar (h : ∀ p ∈ l, Utf8.Scalar p) :
    Paired (ofCodePoints l) = true ∧ codePoints (ofCodePoints l) = l := by
  induction l with
  | nil => exact ⟨rfl, rfl⟩
  | cons p l ih =>
    obtain ⟨hpaired, hpoints⟩ := ih fun q hq => h q (List.mem_cons_of_mem _ hq)
    obtain ⟨hfirst, hpoint⟩ := toChars_scalar (h p List.mem_cons_self)
    have happend := paired_append hfirst (ofCodePoints l)
    have hsplit : ofCodePoints (p :: l) = toChars p ++ ofCodePoints l := rfl
    rw [hsplit, happend.1, happend.2, hpaired, hpoint, hpoints]
    exact ⟨rfl, rfl⟩

theorem utf8Size_pos (p : ℕ) : 0 < utf8Size p := by
  unfold utf8Size
  split_ifs <;> omega

/-! ## Cuts -/

/-- What the first bytes of code points decode to: whole code points, and U+FFFD for one that is
cut. -/
theorem decodePrefix_spec (l : List ℕ) (n : ℕ) : ∃ l₁ l₂, l = l₁ ++ l₂ ∧ (l₁.map utf8Size).sum ≤ n ∧
    (decodePrefix l n = ofCodePoints l₁ ∧ (l₂ = [] ∨ (l₁.map utf8Size).sum = n) ∨
      ∃ p l₃, l₂ = p :: l₃ ∧ (l₁.map utf8Size).sum < n ∧ n < (l₁.map utf8Size).sum + utf8Size p ∧
        decodePrefix l n = ofCodePoints l₁ ++ [0xFFFD]) := by
  induction l generalizing n with
  | nil => exact ⟨[], [], rfl, Nat.zero_le _, .inl ⟨rfl, .inl rfl⟩⟩
  | cons p l ih =>
    rw [decodePrefix]
    split
    · rename_i hn
      exact ⟨[], p :: l, rfl, Nat.zero_le _, .inl ⟨rfl, .inr hn.symm⟩⟩
    split
    · rename_i hfit
      obtain ⟨l₁, l₂, rfl, hle, hrest⟩ := ih (n - utf8Size p)
      have hcons : ofCodePoints (p :: l₁) = toChars p ++ ofCodePoints l₁ := rfl
      refine ⟨p :: l₁, l₂, rfl, by rw [List.map_cons, List.sum_cons]; omega, ?_⟩
      rw [hcons, List.map_cons, List.sum_cons]
      obtain ⟨htext, hend⟩ | ⟨q, l₃, rfl, hlt, hcut, htext⟩ := hrest
      · exact .inl ⟨by rw [htext], hend.imp_right fun h => by omega⟩
      · exact .inr ⟨q, l₃, rfl, by omega, by omega, by rw [htext, List.append_assoc]⟩
    · rename_i hzero hcut
      have hlt : n < 0 + utf8Size p := by omega
      exact ⟨[], p :: l, rfl, Nat.zero_le _, .inr ⟨p, l, rfl, Nat.pos_of_ne_zero hzero, hlt, rfl⟩⟩

/-- A cut where a code point ends. -/
theorem decodePrefix_append (l m : List ℕ) :
    decodePrefix (l ++ m) (l.map utf8Size).sum = ofCodePoints l := by
  induction l with
  | nil =>
    cases m with
    | nil => rfl
    | cons q m => exact if_pos rfl
  | cons p l ih =>
    have hpos := utf8Size_pos p
    rw [List.cons_append, decodePrefix, List.map_cons, List.sum_cons, if_neg (by omega),
      if_pos (by omega),
      Nat.add_sub_cancel_left, ih]
    rfl

/-! ## The result -/

/-- The cut between two texts goes through a surrogate pair. -/
def splitsPair (s t : JString) : Bool :=
  s.getLast?.any isHighSurrogate && t.head?.any isLowSurrogate

/-- `result` is a prefix of `text`, and ends where a code point ends. -/
def PrefixOfPoints (result text : JString) : Prop :=
  ∃ rest, text = result ++ rest ∧ splitsPair result rest = false

/-- The first `n` bytes end with a code point, and before it every surrogate has its partner. -/
def CutsClean (text : JString) (n : ℕ) : Prop :=
  ∃ kept rest, text = kept ++ rest ∧ Paired kept = true ∧ utf8Length kept = n

/-- A text with all pairs whole is not split behind any of them. -/
theorem splitsPair_of_paired (h : Paired s = true) (t : JString) : splitsPair s t = false := by
  have hlast : s.getLast?.any isHighSurrogate = false := by
    induction s using Paired.induct with
    | case1 => rfl
    | case2 c =>
      rw [Paired, Bool.not_eq_true', Bool.or_eq_false_iff] at h
      exact h.1
    | case3 c d s hpair ih =>
      rw [Paired, if_pos hpair] at h
      have hd : isHighSurrogate d = false := by
        rw [Bool.and_eq_true] at hpair
        rw [isLowSurrogate_iff] at hpair
        rw [← Bool.not_eq_true, isHighSurrogate_iff]
        omega
      cases s with
      | nil => exact hd
      | cons e s => exact ih h
    | case4 c d s hpair ih =>
      exact ih (paired_cons hpair h).2
  unfold splitsPair
  rw [hlast, Bool.false_and]

variable {text : JString}

/-- What is left of a text that is not blank. -/
theorem bounded_some (hblank : isBlank text = false) : bounded (some text) n =
    if utf8Length text ≤ n then text else decodePrefix (codePoints text) n := by
  unfold bounded
  exact if_neg (by rw [hblank]; decide)

/-- A text that is cut clean. -/
theorem bounded_clean (hblank : isBlank text = false) (h : CutsClean text n)
    (hlong : ¬ utf8Length text ≤ n) :
    ∃ rest, text = bounded (some text) n ++ rest ∧ Paired (bounded (some text) n) = true ∧
      utf8Length (bounded (some text) n) = n := by
  obtain ⟨kept, rest, htext, hpaired, hlength⟩ := h
  have hcut : bounded (some text) n = kept := by
    rw [bounded_some hblank, if_neg hlong]
    nth_rewrite 1 [htext]
    rw [(paired_append hpaired rest).1, ← hlength]
    exact (decodePrefix_append _ _).trans (ofCodePoints_codePoints hpaired)
  rw [hcut]
  exact ⟨rest, htext, hpaired, hlength⟩

/-- A result that keeps the limit and is a part of the text comes from a clean cut. -/
theorem clean_of_bounded (hblank : isBlank text = false) (hlong : ¬ utf8Length text ≤ n)
    (hle : utf8Length (bounded (some text) n) ≤ n) {rest : JString}
    (htext : text = bounded (some text) n ++ rest) : CutsClean text n := by
  obtain ⟨l₁, l₂, hl, hsum, hcut⟩ := decodePrefix_spec (codePoints text) n
  have hscalar : ∀ p ∈ l₁ ++ l₂, Utf8.Scalar p := hl ▸ codePoints_scalar text
  obtain ⟨hpaired, hpoints⟩ := ofCodePoints_scalar fun p hp => hscalar p (List.mem_append_left _ hp)
  have hresult : bounded (some text) n = decodePrefix (codePoints text) n := by
    rw [bounded_some hblank, if_neg hlong]
  rw [hresult] at hle htext
  obtain ⟨hdec, hend⟩ | ⟨p, l₃, rfl, hlt, hover, hdec⟩ := hcut
  · rw [hdec] at htext
    refine ⟨_, rest, htext, hpaired, ?_⟩
    unfold utf8Length
    rw [hpoints]
    rcases hend with rfl | hend
    · rw [List.append_nil] at hl
      exact absurd (by unfold utf8Length; rw [hl]; exact hsum) hlong
    · exact hend
  · -- U+FFFD takes three bytes: so the cut code point has four, and is another one
    have hmark : Paired (ofCodePoints l₁ ++ [0xFFFD]) = true ∧
        codePoints (ofCodePoints l₁ ++ [0xFFFD]) = l₁ ++ [0xFFFD] := by
      have happend := paired_append hpaired [0xFFFD]
      rw [happend.1, happend.2, hpoints]
      exact ⟨rfl, rfl⟩
    have hthree : (l₁.map utf8Size).sum + 3 ≤ n := by
      rw [hdec] at hle
      unfold utf8Length at hle
      rw [hmark.2, List.map_append, List.sum_append] at hle
      exact hle
    have hbig : 0x10000 ≤ p := by
      by_contra hsmall
      have hsize : utf8Size p ≤ 3 := by
        unfold utf8Size
        split_ifs <;> omega
      omega
    rw [hdec] at htext
    have hpoint : l₁ ++ p :: l₃ = l₁ ++ [0xFFFD] ++ codePoints rest := by
      rw [← hl, ← hmark.2, ← (paired_append hmark.1 rest).1, ← htext]
    rw [List.append_assoc, List.append_cancel_left_eq, List.singleton_append, List.cons.injEq] at hpoint
    omega

/-- **When `bounded` keeps its limit and adds nothing.** -/
theorem bounded_iff (hblank : isBlank text = false) :
    (utf8Length (bounded (some text) n) ≤ n ∧ PrefixOfPoints (bounded (some text) n) text) ↔
      (utf8Length text ≤ n ∨ CutsClean text n) := by
  by_cases hshort : utf8Length text ≤ n
  · have hsame : bounded (some text) n = text := by
      rw [bounded_some hblank, if_pos hshort]
    rw [hsame]
    refine ⟨fun _ => .inl hshort, fun _ => ⟨hshort, [], (List.append_nil _).symm, ?_⟩⟩
    unfold splitsPair
    rw [List.head?_nil, Option.any_none, Bool.and_false]
  · constructor
    · rintro ⟨hle, rest, htext, -⟩
      exact .inr (clean_of_bounded hblank hshort hle htext)
    · intro h
      obtain ⟨rest, htext, hpaired, hlength⟩ := bounded_clean hblank (h.resolve_left hshort) hshort
      exact ⟨hlength.le, rest, htext, splitsPair_of_paired hpaired rest⟩

/-! ## What a registry retains -/

open JobRegistry

/-- A text that `bounded` treats well, or the one for a missing text. -/
def Fitting (n : ℕ) (text : Option JString) : Prop :=
  ∀ s, text = some s → isBlank s = false → utf8Length s ≤ n ∨ CutsClean s n

/-- **A bounded text is within its limit**, where no character is cut. -/
theorem bounded_le {message : Option JString} (h : Fitting n message) (hn : 11 ≤ n) :
    utf8Length (bounded message n) ≤ n := by
  have hunspecified : utf8Length (str "unspecified") = 11 := by decide
  cases message with
  | none => exact hunspecified.le.trans hn
  | some s =>
    cases hblank : isBlank s with
    | true =>
      have hsame : bounded (some s) n = str "unspecified" := if_pos hblank
      rw [hsame]
      exact hunspecified.le.trans hn
    | false => exact ((bounded_iff hblank).2 (h s rfl hblank)).1

/-- The texts of a record keep their limits. -/
structure JobRecord.TextsFit (env : JobEnv) (r : JobRecord) : Prop where
  stage : utf8Length r.progress.stage ≤ 128
  diagnostics : ∀ d ∈ r.diagnostics, utf8Length d ≤ env.limits.maxDiagnosticBytes

variable {env : JobEnv}

/-- One edit keeps the texts of a job within their limits. -/
theorem JobRecord.TextsFit.touch {al : Allows} {id : JobId} {r r' : JobRecord} (h : r.TextsFit env)
    (hstage : ∀ s, al.stage s → utf8Length s ≤ 128)
    (hnote : ∀ s, al.note s → utf8Length s ≤ env.limits.maxDiagnosticBytes)
    (ht : Touch env al id r r') : r'.TextsFit env := by
  have hquiet : ∀ {x y : JobRecord}, x.TextsFit env → Silent x y → y.TextsFit env := by
    intro x y hx hs
    exact ⟨hs.progress ▸ hx.stage, hs.diagnostics ▸ hx.diagnostics⟩
  cases ht with
  | silent hs => exact hquiet h hs
  | request reason => exact ⟨h.stage, h.diagnostics⟩
  | progress p hp => exact ⟨hstage _ hp, h.diagnostics⟩
  | emit type now _ => exact ⟨h.stage, h.diagnostics⟩
  | announce reason now _ hs =>
    have hx := hquiet (x := r.request reason) ⟨h.stage, h.diagnostics⟩ hs
    exact ⟨hx.stage, hx.diagnostics⟩
  | again reason now _ hs =>
    have hx := hquiet (x := r.request reason) ⟨h.stage, h.diagnostics⟩ hs
    exact ⟨hx.stage, hx.diagnostics⟩
  | note text htext =>
    unfold addDiagnostic
    split
    · refine ⟨h.stage, fun d hd => ?_⟩
      rcases List.mem_append.1 hd with hd | hd
      · exact h.diagnostics d hd
      · obtain rfl := List.mem_singleton.1 hd
        exact hnote _ htext
    · exact h

/-- So does a section. -/
theorem JobRecord.TextsFit.touches {al : Allows} {id : JobId} {r r' : JobRecord}
    (h : r.TextsFit env)
    (hstage : ∀ s, al.stage s → utf8Length s ≤ 128)
    (hnote : ∀ s, al.note s → utf8Length s ≤ env.limits.maxDiagnosticBytes)
    (ht : Touches env al id r r') : r'.TextsFit env := by
  induction ht with
  | refl => exact h
  | tail _ hstep ih => exact ih.touch hstage hnote hstep

namespace Scheduler

/-- The texts that an act reports are treated well. -/
structure FittingAct (env : JobEnv) (a : Act) : Prop where
  stage : ∀ id completed total stage, a = .call (.progress id completed total stage) →
    Fitting 128 stage
  message : ∀ id message, a = .call (.diagnostic id message) →
    Fitting env.limits.maxDiagnosticBytes message

/-- A step that reports such texts only. -/
def FittingStep (env : JobEnv) (s t : Scheduler) : Prop :=
  ∃ a o, act env s a = some (o, t) ∧ FittingAct env a

/-- The registry's own texts have up to 41 bytes. -/
theorem messages_le {m : String} (h : m ∈ messages) : utf8Length (str m) ≤ 41 := by
  have hall : ∀ m ∈ messages, utf8Length (str m) ≤ 41 := by decide
  exact hall m h

/-- **Over a run** whose diagnostics end on characters. -/
theorem texts_kept {job : JobId → JobRecord} {subscription : SubscriptionId → Subscription}
    {s : Scheduler}
    (hlimit : 41 ≤ env.limits.maxDiagnosticBytes)
    (hrun : Relation.ReflTransGen (FittingStep env) ⟨empty job subscription, .idle, []⟩ s) :
    ∀ id < s.registry.created, (s.registry.job id).TextsFit env := by
  induction hrun with
  | refl => exact fun id hid => absurd hid (Nat.not_lt_zero id)
  | @tail t u _ hstep ih =>
    obtain ⟨a, o, ha, hfit⟩ := hstep
    have hstage : ∀ s, (a.allows env t).stage s → utf8Length s ≤ 128 := by
      rintro s ⟨id, completed, total, stage, hact, rfl⟩
      exact bounded_le (hfit.stage id completed total stage hact) (by omega)
    have hnote : ∀ s, (a.allows env t).note s → utf8Length s ≤ env.limits.maxDiagnosticBytes := by
      rintro s (⟨m, hm, rfl⟩ | ⟨id, message, hact, rfl⟩)
      · exact (messages_le hm).trans hlimit
      · exact bounded_le (hfit.message id message hact) (by omega)
    obtain hu | ⟨-, v, r, hv, hr, hu⟩ := touched ha
    · intro id hid
      exact (ih id (hu.created ▸ hid)).touches hstage hnote (hu.job id)
    · intro id hid
      rw [hu.created] at hid
      have hid' : id < v.created + 1 := hid
      refine JobRecord.TextsFit.touches ?_ hstage hnote (hu.job id)
      by_cases hnew : id = v.created
      · have hjob : (enroll r v).job id = r := by
          rw [hnew]
          exact Function.update_self ..
        rw [hjob]
        refine ⟨?_, fun d hd => ?_⟩
        · rw [hr.progress]
          decide
        · rw [hr.diagnostics] at hd
          cases hd
      · have hjob : (enroll r v).job id = v.job id := Function.update_of_ne hnew _ _
        rw [hjob]
        have hlt : id < t.registry.created := by
          rw [← hv.created]
          omega
        exact (ih id hlt).touches hstage hnote (hv.job id)

/-- **The limits of retained texts.** A text that is not blank is cut to the limit, and to a part of
itself, exactly where it fits or the cut is clean; a run that reports such texts keeps stages within
128 bytes and diagnostics within their limit, if that holds the registry's own texts. -/
theorem texts_bounded (env : JobEnv) :
    (∀ (text : JString) (n : ℕ), isBlank text = false → 1 ≤ n →
      ((utf8Length (bounded (some text) n) ≤ n ∧ PrefixOfPoints (bounded (some text) n) text) ↔
        (utf8Length text ≤ n ∨ CutsClean text n))) ∧
    (41 ≤ env.limits.maxDiagnosticBytes → ∀ job subscription s,
      Relation.ReflTransGen (FittingStep env) ⟨empty job subscription, .idle, []⟩ s →
      ∀ id < s.registry.created, utf8Length (s.registry.job id).progress.stage ≤ 128 ∧
        ∀ d ∈ (s.registry.job id).diagnostics, utf8Length d ≤ env.limits.maxDiagnosticBytes) :=
  ⟨fun _ _ hblank _ => bounded_iff hblank, fun hlimit _ _ _ hrun id hid =>
    ⟨(texts_kept hlimit hrun id hid).stage, (texts_kept hlimit hrun id hid).diagnostics⟩⟩

/-- A stage of 129 bytes whose last character has two of them. -/
def longStage : JString := List.replicate 127 (chr 'a') ++ [0xE9]

/-- The cut goes through a character: the result is longer than the limit. -/
theorem texts_not_bounded : ¬ ∀ (text : JString) (n : ℕ), isBlank text = false → 1 ≤ n →
    utf8Length (bounded (some text) n) ≤ n ∧ PrefixOfPoints (bounded (some text) n) text := by
  intro hall
  have hle := (hall longStage 128 (by decide +kernel) (by decide)).1
  exact absurd hle (by decide +kernel)

/-- A clean cut after the first of two characters. -/
theorem texts_bounded_clean : utf8Length (bounded (some (str "aé")) 1) ≤ 1 ∧
    PrefixOfPoints (bounded (some (str "aé")) 1) (str "aé") :=
  ((texts_bounded OneJob.smallEnv).1 (str "aé") 1 (by decide) (by decide)).2
    (.inr ⟨str "a", str "é", rfl, by decide, by decide⟩)

end Scheduler

end Libjadx
