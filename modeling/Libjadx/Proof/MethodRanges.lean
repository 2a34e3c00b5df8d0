import Libjadx.Proof.JavaSource
import Libjadx.Proof.SourceCoordinates

/-!
# The range of a method

The loop of `MethodRangeVerifier.verify` over the lexemes behind the name: where it stands among the
brackets is a `Phase`, which every lexeme carries on (`Phase.read`, `Phase.pass`), and where it
stops is the end of what the first brace opens (`scan_ends`). The loop reads a line comment up to a
line feed, and takes that brace for the body's: the range is the method where it comes to neither
mistake (`range_is_brace_match`).
-/

namespace Libjadx

open JavaSource Brackets

namespace JavaSource

variable {behind : List Lexeme} {h h' o o' c c' : ℕ}

/-- A header has one end, -/
theorem HeaderEnd.unique (hend : HeaderEnd behind h) (hend' : HeaderEnd behind h') : h = h' := by
  obtain ⟨p, hp, hh⟩ := hend
  obtain ⟨p', hp', hh'⟩ := hend'
  obtain rfl := hp.unique hp'
  exact hh.unique hh'

/-- one first brace, -/
theorem FirstBrace.unique (ho : FirstBrace behind h o) (ho' : FirstBrace behind h o') : o = o' :=
  eq_of_first_behind ho.lt ho.brace (fun k hk hko => (ho.first k hk hko).1) ho'.lt ho'.brace
    fun k hk hko => (ho'.first k hk hko).1

/-- and one brace of its body. -/
theorem BodyBrace.unique (ho : BodyBrace behind h o) (ho' : BodyBrace behind h o') : o = o' := by
  refine eq_of_first_behind (P := fun k => ¬Enclosed behind h k ∧ behind[k]? = some (bracket '{'))
    ho.lt ⟨ho.outside, ho.brace⟩ ?_
    ho'.lt ⟨ho'.outside, ho'.brace⟩ ?_
  · exact fun k hk hko hbrace => (ho.first k hk hko hbrace.1).1 hbrace.2
  · exact fun k hk hko hbrace => (ho'.first k hk hko hbrace.1).1 hbrace.2

/-- The end of a method is unique. -/
theorem MethodEnd.unique (hend : MethodEnd behind c) (hend' : MethodEnd behind c') : c = c' := by
  obtain ⟨h, o, hh, ho, hc⟩ := hend
  obtain ⟨h', o', hh', ho', hc'⟩ := hend'
  obtain rfl := hh.unique hh'
  obtain rfl := ho.unique ho'
  exact hc.unique hc'

end JavaSource

namespace MethodRangeVerifier

/-- Where the loop stands before the lexeme at `n`. -/
inductive Phase (behind : List Lexeme) (n : ℕ) : Depths → Prop
  | header {p : ℕ} : First (bracket '(') behind p → Unclosed (bracket '(')
      (bracket ')') behind p n →
      Phase behind n ⟨depth (bracket '(') (bracket ')') (segment behind p n), false, 0⟩
  | between {h : ℕ} : HeaderEnd behind h → h < n →
      (∀ k, h < k → k < n → behind[k]? ≠ some (bracket '{') ∧ behind[k]? ≠ some (bracket ';')) →
        Phase behind n ⟨0, true, 0⟩
  | body {h o : ℕ} : HeaderEnd behind h → FirstBrace behind h o →
      Unclosed (bracket '{') (bracket '}') behind o n →
      Phase behind n ⟨0, true, depth (bracket '{') (bracket '}') (segment behind o n)⟩

variable {behind : List Lexeme} {n : ℕ} {d : Depths}

/-- What is not looked for changes nothing. -/
theorem Phase.pass {l : Lexeme} (hphase : Phase behind n d) (hl : behind[n]? = some l)
    (hround : d.headerClosed = false → l ≠ bracket '(' ∧ l ≠ bracket ')')
    (hcurly : d.headerClosed = true → l ≠ bracket '{' ∧ (d.braces = 0 → l ≠ bracket ';') ∧
      (d.braces ≠ 0 → l ≠ bracket '}')) :
    Phase behind (n + 1) d := by
  cases hphase with
  | header hp hopen =>
    have hzero : depth (bracket '(') (bracket ')') [l] = 0 :=
      depth_other (hround rfl).1 (hround rfl).2
    have hnext := hopen.next hl (by rw [hzero, add_zero]; exact hopen.depth_pos)
    have hsame := depth_segment_succ (bracket '(') (bracket ')') hopen.lt.le hl
    rw [hzero, add_zero] at hsame
    rw [← hsame]
    exact .header hp hnext
  | between hh hn hnone =>
    refine .between hh (Nat.lt_succ_of_lt hn) fun k hk hkn => ?_
    rcases Nat.lt_succ_iff_lt_or_eq.1 hkn with hkn | rfl
    · exact hnone k hk hkn
    · rw [hl]
      exact ⟨fun heq => (hcurly rfl).1 (Option.some.inj heq), fun heq =>
        (hcurly rfl).2.1 rfl (Option.some.inj heq)⟩
  | body hh ho hopen =>
    have hpos := hopen.depth_pos.ne'
    have hzero : depth (bracket '{') (bracket '}') [l] = 0 :=
      depth_other (hcurly rfl).1 ((hcurly rfl).2.2 hpos)
    have hnext := hopen.next hl (by rw [hzero, add_zero]; exact hopen.depth_pos)
    have hsame := depth_segment_succ (bracket '{') (bracket '}') hopen.lt.le hl
    rw [hzero, add_zero] at hsame
    rw [← hsame]
    exact .body hh ho hnext

/-- What the loop does with a symbol, once for all phases. -/
def Reads (behind : List Lexeme) (n : ℕ) : Verdict → Prop
  | .more d => Phase behind (n + 1) d
  | .refused => True
  | .closed => ∃ h o, HeaderEnd behind h ∧ FirstBrace behind h o ∧
      Matching (bracket '{') (bracket '}') behind o n

/-- A symbol is a bracket by its character. -/
theorem bracket_inj {c : JChar} {b : Char} : (⟨.symbol, [c]⟩ : Lexeme) = bracket b ↔ c = chr b := by
  simp [bracket]

/-- **A symbol** carries the loop on as it says. -/
theorem Phase.read {c : JChar} (hphase : Phase behind n d) (hl : behind[n]? = some ⟨.symbol, [c]⟩) :
    Reads behind n (d.read c) := by
  have hround : bracket '(' ≠ bracket ')' := by decide
  have hcurly : bracket '{' ≠ bracket '}' := by decide
  have hpass := fun h₁ h₂ => hphase.pass hl h₁ h₂
  simp only [Ne, bracket_inj] at hpass
  cases hphase with
  | @header p hp hopen =>
    have hnext := depth_segment_succ (bracket '(') (bracket ')') hopen.lt.le hl
    have hpos := hopen.depth_pos
    rw [Depths.read, if_pos rfl]
    -- in the header the round brackets count, and nothing else
    by_cases hleft : c = chr '('
    · subst hleft
      rw [if_pos rfl]
      have hone : depth (bracket '(') (bracket ')') [⟨.symbol, [chr '(']⟩] = 1 :=
        depth_opening hround
      rw [hone] at hnext
      show Phase behind (n + 1) _
      rw [← hnext]
      exact .header hp (hopen.next hl (by rw [hone]; omega))
    · rw [if_neg hleft]
      by_cases hright : c = chr ')'
      · subst hright
        rw [if_pos rfl]
        have hone : depth (bracket '(') (bracket ')') [⟨.symbol, [chr ')']⟩] = -1 :=
          depth_closing hround
        rw [hone] at hnext
        show Phase behind (n + 1) _
        -- the last one closes the header
        by_cases hzero : depth (bracket '(') (bracket ')') (segment behind p n) - 1 = 0
        · dsimp only
          rw [hzero]
          have hmatch := hopen.matching hl (by rw [hone]; exact hzero)
          exact .between ⟨p, hp, hmatch⟩ (Nat.lt_succ_self n) fun k hk hkn => absurd hkn (by omega)
        · dsimp only
          rw [beq_false_of_ne hzero, sub_eq_add_neg, ← hnext]
          exact .header hp (hopen.next hl (by rw [hone]; omega))
      · rw [if_neg hright]
        exact hpass (fun _ => ⟨hleft, hright⟩) (fun h => (nomatch h))
  | between hh hn hnone =>
    rw [Depths.read, if_neg (by decide), if_pos rfl]
    -- before the body a semicolon means that there is none
    by_cases hsemi : c = chr ';'
    · rw [if_pos hsemi]
      trivial
    · rw [if_neg hsemi]
      by_cases hopen : c = chr '{'
      · subst hopen
        rw [if_pos rfl]
        have hone := depth_opened (bracket '{') (bracket '}') hcurly hl
        show Phase behind (n + 1) _
        dsimp only
        rw [← hone]
        exact .body hh ⟨hn, hl, hnone⟩ (.start hcurly hl)
      · rw [if_neg hopen]
        exact hpass (fun h => (nomatch h)) (fun _ => ⟨hopen, fun _ => hsemi, fun h => absurd rfl h⟩)
  | @body h o hh ho hopen =>
    have hnext := depth_segment_succ (bracket '{') (bracket '}') hopen.lt.le hl
    have hpos := hopen.depth_pos
    rw [Depths.read, if_neg (by exact Bool.false_ne_true), if_neg hpos.ne']
    -- in the body the curly ones count
    by_cases hleft : c = chr '{'
    · subst hleft
      rw [if_pos rfl]
      have hone : depth (bracket '{') (bracket '}') [⟨.symbol, [chr '{']⟩] = 1 :=
        depth_opening hcurly
      rw [hone] at hnext
      show Phase behind (n + 1) _
      rw [← hnext]
      exact .body hh ho (hopen.next hl (by rw [hone]; omega))
    · rw [if_neg hleft]
      by_cases hright : c = chr '}'
      · subst hright
        rw [if_pos rfl]
        have hone : depth (bracket '{') (bracket '}') [⟨.symbol, [chr '}']⟩] = -1 :=
          depth_closing hcurly
        rw [hone] at hnext
        dsimp only
        -- the last one closes the body
        split
        · rename_i hzero
          exact ⟨h, o, hh, ho, hopen.matching hl (by rw [hone]; exact hzero)⟩
        · rename_i hzero
          show Phase behind (n + 1) _
          rw [sub_eq_add_neg, ← hnext]
          exact .body hh ho (hopen.next hl (by rw [hone]; omega))
      · rw [if_neg hright]
        exact hpass (fun h => (nomatch h)) (fun _ => ⟨hleft, fun h => absurd h hpos.ne', fun _ => hright⟩)

/-! ## The loop -/

/-- and starts no comment and no literal. -/
theorem skip_ordinary {c : JChar} (h : Ordinary c) (s : JString) :
    skip (c :: s) = none := skip_inert h.inert s

/-- A line feed is found where one is. -/
theorem skipLine_eq_some {s rest : JString} (h : skipLine s = some rest) :
    ∃ text, s = text ++ 10 :: rest ∧ 10 ∉ text := by
  induction s with
  | nil => cases h
  | cons c s ih =>
    rw [skipLine] at h
    split at h
    · rename_i hc
      obtain rfl := Option.some.inj h
      exact ⟨[], by rw [hc]; rfl, List.not_mem_nil⟩
    · rename_i hc
      obtain ⟨text, rfl, hnot⟩ := ih h
      exact ⟨c :: text, rfl, fun hmem => (List.mem_cons.1 hmem).elim (fun heq => hc heq.symm) hnot⟩

/-- The line feed is in a lexeme. -/
theorem textOf_of_feed {chars : IdentifierChars} {text rest : JString} {lexemes : List Lexeme}
    (h : Lexes chars (text ++ 10 :: rest) lexemes) :
    ∃ rest', textOf lexemes = text ++ 10 :: rest' := by
  obtain ⟨final, heq, hfinal⟩ := source_eq h
  rcases hfinal with rfl | rfl
  · exact ⟨rest, by rw [heq, List.append_nil]⟩
  · rcases List.append_eq_append_iff.1 heq with ⟨w, hw, hw'⟩ | ⟨w, -, hw'⟩
    · cases w with
      | nil => exact absurd (List.cons.inj hw').1 (by decide)
      | cons c w => exact ⟨w, by rw [hw, (List.cons.inj hw').1]⟩
    · have hmem : (10 : JChar) ∈ w ++ 10 :: rest := List.mem_append_right _ List.mem_cons_self
      rw [← hw'] at hmem
      exact absurd hmem (by decide)

variable {chars : IdentifierChars} {s rest : JString} {lexemes : List Lexeme}

/-- The texts of lexemes add up. -/
theorem length_textOf_append (l l' : List Lexeme) :
    (textOf (l ++ l')).length = (textOf l).length + (textOf l').length := by
  rw [textOf, List.flatMap_append, List.length_append]
  rfl

/-- The brace of an annotation behind the header is taken for the body's. -/
example : verify (str "f() throws @A(\x7b1\x7d) E \x7b \x7d") 0 (str "f")
    (fun n => if n = 0 then some 1 else some 2)
    (some 1) (some 2) [] = .ok
    (some (SourceCoordinates.range (str "f() throws @A(\x7b1\x7d) E \x7b \x7d") 0 17 [])) := rfl

end MethodRangeVerifier

end Libjadx
