import Libjadx.Spec.RevisionCache

/-!
# Convergence of the client's revisions

The cache knows the sessions that it left, and takes every other for a newer one. So its revisions
never decrease within a session (`Later`), and it holds the newest boot exactly where the boots are
heard of in their order.
-/

namespace Libjadx.RevisionCache

variable {c d e : RevisionCache} {h : History} {rs l : List Response} {r : Response}

/-! ## One response -/

/-- A response that tells nothing is passed over. -/
theorem observe_dull (hr : ¬ r.Telling) (c : RevisionCache) : c.observe r.result = c := by
  unfold observe
  split
  · rename_i session logical hs hl
    exact absurd ⟨by rw [hs]; rfl, by rw [hl]; rfl⟩ hr
  · rfl

/-- **What tells something is taken for a state of its session.** -/
theorem observe_telling (hsent : h.Sends r) (hr : r.Telling) (c : RevisionCache) :
    ∃ logical index, c.observe r.result = c.accept (h.session r.boot) logical index := by
  obtain ⟨session, hs⟩ := Option.isSome_iff_exists.1 hr.1
  obtain ⟨logical, hl⟩ := Option.isSome_iff_exists.1 hr.2
  have hname : session = h.session r.boot := hsent.session session hs
  refine ⟨logical, r.result.index, ?_⟩
  unfold observe
  rw [hs, hl, ← hname]

/-- What a response may do to a cache. -/
inductive Takes (session : String) (c : RevisionCache) : RevisionCache → Prop
  | retired : session ∈ c.retired → Takes session c c
  | first {d : RevisionCache} : session ∉ c.retired → c.sessionId = none →
      d.sessionId = some session →
      d.retired = c.retired → Takes session c d
  | replaces {d : RevisionCache} (old : String) : session ∉ c.retired → c.sessionId = some old →
      old ≠ session →
      d.sessionId = some session → d.retired = insert old c.retired → Takes session c d
  | current {d : RevisionCache} : session ∉ c.retired → c.sessionId = some session →
      d.sessionId = some session →
      d.retired = c.retired → Grows c d → Takes session c d

/-- The larger of two bounds is below neither. -/
theorem notBelow_max (old : Option ℤ) (x : ℤ) : NotBelow (some (max (old.getD 0) x)) old := by
  intro y hy
  refine ⟨_, rfl, ?_⟩
  rw [Option.mem_def.1 hy]
  exact le_max_left _ _

theorem notBelow_refl (x : Option ℤ) : NotBelow x x := fun y hy => ⟨y, hy, le_refl y⟩

theorem NotBelow.trans {x y z : Option ℤ} (h : NotBelow y x) (h' : NotBelow z y) :
    NotBelow z x := by
  intro a ha
  obtain ⟨b, hb, hab⟩ := h a ha
  obtain ⟨v, hv, hbv⟩ := h' b hb
  exact ⟨v, hv, hab.trans hbv⟩

/-- **An observation is taken for the session it names.** -/
theorem accept_takes (session : String) (logical : ℤ) (index : Option ℤ) (c : RevisionCache) :
    Takes session c (c.accept session logical index) := by
  unfold accept
  split
  · exact .retired ‹_›
  · rename_i hfresh
    split
    · rename_i hother
      cases hs : c.sessionId with
      | none => exact .first hfresh hs rfl rfl
      | some old =>
        refine .replaces old hfresh hs ?_ rfl rfl
        rintro rfl
        exact hother hs
    · rename_i hsame
      have hs : c.sessionId = some session := not_not.1 hsame
      refine .current hfresh hs hs rfl ⟨notBelow_max _ _, ?_⟩
      cases index with
      | none => exact notBelow_refl _
      | some index => exact notBelow_max _ _

/-! ## Later caches -/

/-- The session of a cache is not one that it left. -/
def Sound (c : RevisionCache) : Prop := ∀ session, c.sessionId = some session → session ∉ c.retired

/-- What holds of a cache and a later one: a session is kept, with revisions that grow, or left for
good. -/
structure Later (c d : RevisionCache) : Prop where
  retired : c.retired ⊆ d.retired
  session : ∀ session, c.sessionId = some session → d.sessionId = some session ∧ Grows c d ∨
    session ∈ d.retired

theorem Later.refl (c : RevisionCache) : Later c c :=
  ⟨fun _ hx => hx, fun _ hs => .inl ⟨hs, notBelow_refl _, notBelow_refl _⟩⟩

theorem Later.trans (hcd : Later c d) (hde : Later d e) : Later c e := by
  refine ⟨fun _ hx => hde.retired (hcd.retired hx), fun session hs => ?_⟩
  obtain ⟨hd, hgrows⟩ | hleft := hcd.session session hs
  · refine (hde.session session hd).imp_left fun ⟨he, hgrows'⟩ => ⟨he, ?_⟩
    exact ⟨hgrows.logical.trans hgrows'.logical, hgrows.index.trans hgrows'.index⟩
  · exact .inr (hde.retired hleft)

/-- What is taken makes the cache a later one, -/
theorem Takes.later {session : String} (ht : Takes session c d) : Later c d := by
  cases ht with
  | retired _ => exact .refl c
  | first _ hnone _ hr =>
    refine ⟨hr ▸ fun _ hx => hx, fun s hs => ?_⟩
    rw [hnone] at hs
    cases hs
  | replaces old _ hold _ _ hr =>
    refine ⟨hr ▸ Finset.subset_insert _ _, fun s hs => .inr ?_⟩
    rw [hold] at hs
    rw [hr, ← Option.some.inj hs]
    exact Finset.mem_insert_self _ _
  | current _ hc hd hr hgrows => exact ⟨hr ▸ fun _ hx => hx, fun s hs =>
      .inl ⟨hd.trans (hc.symm.trans hs), hgrows⟩⟩

/-- and leaves it sound. -/
theorem Takes.sound {session : String} (ht : Takes session c d) (hc : Sound c) : Sound d := by
  cases ht with
  | retired _ => exact hc
  | first hfresh _ hd hr | current hfresh _ hd hr _ =>
    intro s hs
    rw [hd] at hs
    rw [hr, ← Option.some.inj hs]
    exact hfresh
  | replaces old hfresh _ hne hd hr =>
    intro s hs
    rw [hd] at hs
    rw [hr, ← Option.some.inj hs, Finset.mem_insert, not_or]
    exact ⟨hne.symm, hfresh⟩

/-! ## Runs -/

/-- One more response is observed behind the others. -/
theorem after_concat (l : List Response) (r : Response) :
    after (l ++ [r]) = (after l).observe r.result := by
  unfold after
  rw [List.foldl_append]
  rfl

/-- The cache before and after one response of a history. -/
theorem after_takes (hsent : h.Sends r) (l : List Response) :
    ¬ r.Telling ∧ after (l ++ [r]) = after l ∨ r.Telling ∧ Takes (h.session r.boot) (after l)
      (after (l ++ [r])) := by
  rw [after_concat]
  by_cases hr : r.Telling
  · obtain ⟨logical, index, haccept⟩ := observe_telling hsent hr (after l)
    rw [haccept]
    exact .inr ⟨hr, accept_takes _ _ _ _⟩
  · exact .inl ⟨hr, observe_dull hr _⟩

/-- **So after every run of responses the cache is sound,** -/
theorem after_sound (hsent : ∀ r ∈ rs, h.Sends r) : Sound (after rs) := by
  induction rs using List.reverseRecOn with
  | nil => exact fun session hs => by cases hs
  | append_singleton l r ih =>
    have hc := ih fun x hx => hsent x (List.mem_append_left _ hx)
    obtain ⟨-, hsame⟩ | ⟨-, ht⟩ :=
      after_takes (hsent r (List.mem_append_right _ (List.mem_singleton_self r))) l
    · rw [hsame]
      exact hc
    · exact ht.sound hc

/-- **and later than it was.** -/
theorem after_later (l : List Response) (hsent : ∀ r ∈ rs, h.Sends r) :
    Later (after l) (after (l ++ rs)) := by
  induction rs using List.reverseRecOn with
  | nil =>
    rw [List.append_nil]
    exact .refl _
  | append_singleton m r ih =>
    have hlater := ih fun x hx => hsent x (List.mem_append_left _ hx)
    rw [← List.append_assoc]
    obtain ⟨-, hsame⟩ | ⟨-, ht⟩ :=
      after_takes (hsent r (List.mem_append_right _ (List.mem_singleton_self r))) (l ++ m)
    · rw [hsame]
      exact hlater
    · exact hlater.trans ht.later

/-- The boots that the cache knows are those it heard of. -/
theorem known_iff (hsent : ∀ r ∈ rs, h.Sends r) (boot : ℕ) :
    h.session boot ∈ (after rs).retired ∨ (after rs).sessionId = some (h.session boot) ↔
      ∃ r ∈ rs, r.Telling ∧ r.boot = boot := by
  induction rs using List.reverseRecOn with
  | nil => simp [after, init]
  | append_singleton l r ih =>
    have hc := ih fun x hx => hsent x (List.mem_append_left _ hx)
    have hmem : (∃ x ∈ l ++ [r], x.Telling ∧ x.boot = boot) ↔ (∃ x ∈ l, x.Telling ∧ x.boot = boot) ∨
        r.Telling ∧ r.boot = boot := by
      simp only [List.mem_append, List.mem_singleton, or_and_right, exists_or, exists_eq_left]
    rw [hmem, ← hc]
    obtain ⟨hr, hsame⟩ | ⟨hr, ht⟩ :=
      after_takes (hsent r (List.mem_append_right _ (List.mem_singleton_self r))) l
    · rw [hsame]
      simp [hr]
    · have hname : h.session r.boot = h.session boot ↔ r.boot = boot := h.distinct.eq_iff
      have hself : r.Telling ∧ r.boot = boot ↔ h.session r.boot = h.session boot :=
        by rw [hname]; simp [hr]
      rw [hself]
      generalize after (l ++ [r]) = d at ht ⊢
      cases ht with
      | retired hleft =>
        exact ⟨.inl, fun hor => hor.elim (fun h => h) fun heq => .inl (heq ▸ hleft)⟩
      | first hfresh hnone hd hr =>
        rw [hd, hr, hnone]
        simp
      | replaces old hfresh hold hne hd hr =>
        rw [hd, hr, hold]
        simp only [Finset.mem_insert, Option.some.injEq]
        rw [or_comm (a := h.session boot = old), eq_comm (a := h.session boot)]
      | current hfresh hs hd hr _ =>
        rw [hd, hr, hs]
        simp

/-! ## The order of the boots -/

/-- A response that keeps the session of a newer boot was heard of before, where it tells anything.
-/
theorem kept_known (hsent : h.Sends r) (hr : r.Telling) {boot : ℕ} (hne : r.boot ≠ boot)
    (hkept : (after (l ++ [r])).sessionId = some (h.session boot)) :
    h.session r.boot ∈ (after l).retired := by
  have hname : h.session boot ≠ h.session r.boot := fun heq => hne (h.distinct heq).symm
  obtain ⟨hdull, -⟩ | ⟨-, ht⟩ := after_takes hsent l
  · exact absurd hr hdull
  · generalize after (l ++ [r]) = d at ht hkept
    cases ht with
    | retired hleft => exact hleft
    | first _ _ hd _ | replaces _ _ _ _ hd _ | current _ _ hd _ _ =>
      rw [hd] at hkept
      exact absurd (Option.some.inj hkept).symm hname

/-- Where the cache converges, it holds the newest of the boots that it heard of. -/
theorem Converges.newest (hconv : Converges h rs) (hsent : ∀ r ∈ rs, h.Sends r) {l₂ : List Response}
    (hrs : rs = l ++ l₂) :
    ∀ x ∈ l, x.Telling → ∃ boot, (after l).sessionId = some (h.session boot) ∧ x.boot ≤ boot := by
  induction l using List.reverseRecOn generalizing l₂ with
  | nil =>
    intro x hx
    cases hx
  | append_singleton l r ih =>
    have hrs' : rs = l ++ r :: l₂ := by
      rw [hrs, List.append_assoc]
      rfl
    have hnew := ih hrs'
    have hsentr : h.Sends r := hsent r (by rw [hrs']; simp)
    intro x hx hxt
    obtain ⟨hdull, hsame⟩ | ⟨hr, ht⟩ := after_takes hsentr l
    · rw [hsame]
      obtain hx | hx := List.mem_append.1 hx
      · exact hnew x hx hxt
      · exact absurd (List.mem_singleton.1 hx ▸ hxt) hdull
    · have hsentl : ∀ y ∈ l, h.Sends y := fun y hy =>
        hsent y (by rw [hrs']; exact List.mem_append_left _ hy)
      have hknown := known_iff hsentl
      generalize hd : after (l ++ [r]) = d at ht
      cases ht with
      | retired hleft =>
        obtain hx | hx := List.mem_append.1 hx
        · exact hnew x hx hxt
        · obtain rfl := List.mem_singleton.1 hx
          obtain ⟨y, hy, hyt, hyb⟩ := (hknown x.boot).1 (.inl hleft)
          exact hyb ▸ hnew y hy hyt
      | first _ hnone hd' _ =>
        obtain hx | hx := List.mem_append.1 hx
        · obtain ⟨boot, hboot, -⟩ := hnew x hx hxt
          rw [hnone] at hboot
          cases hboot
        · exact ⟨r.boot, hd', (List.mem_singleton.1 hx).symm ▸ le_refl _⟩
      | replaces old hfresh hold hne hd' _ =>
        refine ⟨r.boot, hd', ?_⟩
        obtain hx | hx := List.mem_append.1 hx
        · obtain ⟨boot, hboot, hle⟩ := hnew x hx hxt
          -- a newer boot would have been kept
          by_contra hlt
          have hkept := (hconv.newer l r l₂ hrs' boot hboot (by omega)).1
          rw [hd, hd'] at hkept
          rw [hold] at hboot
          exact hne ((Option.some.inj hboot).trans (Option.some.inj hkept).symm)
        · exact (List.mem_singleton.1 hx).symm ▸ le_refl _
      | current _ hc hd' _ _ =>
        obtain hx | hx := List.mem_append.1 hx
        · obtain ⟨boot, hboot, hle⟩ := hnew x hx hxt
          rw [hc] at hboot
          exact ⟨boot, hd'.trans hboot, hle⟩
        · exact ⟨r.boot, hd', (List.mem_singleton.1 hx).symm ▸ le_refl _⟩

/-- **The cache converges exactly where the boots are heard of in their order.** -/
theorem converges_iff (h : History) (rs : List Response) (hsent : ∀ r ∈ rs, h.Sends r) :
    Converges h rs ↔ InOrder rs := by
  have hpart : ∀ {l₁ l₂ : List Response}, rs = l₁ ++ l₂ → ∀ x ∈ l₁, h.Sends x := by
    rintro l₁ l₂ rfl x hx
    exact hsent x (List.mem_append_left _ hx)
  constructor
  · intro hconv l₁ r l₂ hrs hr hunheard x hx hxt
    have hsentr : h.Sends r := hsent r (by rw [hrs]; simp)
    obtain ⟨boot, hboot, hle⟩ := hconv.newest hsent hrs x hx hxt
    have hne : x.boot ≠ r.boot := hunheard x hx hxt
    by_contra hlt
    have hkept := (hconv.newer l₁ r l₂ hrs boot hboot (by omega)).1
    have hleft := kept_known hsentr hr (by omega) hkept
    obtain ⟨y, hy, hyt, hyb⟩ := (known_iff (hpart hrs) r.boot).1 (.inl hleft)
    exact hunheard y hy hyt hyb
  · intro horder
    refine ⟨fun l₁ l₂ l₃ hrs session h₁ h₂ => ?_, fun l₁ r l₂ hrs boot hboot hlt => ?_⟩
    · have hsound := after_sound (hpart hrs)
      have hsent₂ : ∀ x ∈ l₂, h.Sends x := fun x hx => hsent x (by rw [hrs]; simp [hx])
      have hlater := after_later l₁ hsent₂
      exact ((hlater.session session h₁).resolve_right (hsound session h₂)).2
    · have hsentr : h.Sends r := hsent r (by rw [hrs]; simp)
      have hsound := after_sound (hpart hrs)
      have hunchanged : after (l₁ ++ [r]) = after l₁ → (after (l₁ ++ [r])).sessionId = some
          (h.session boot) ∧
          h.session boot ∉ (after (l₁ ++ [r])).retired := by
        intro hsame
        rw [hsame]
        exact ⟨hboot, hsound _ hboot⟩
      obtain ⟨-, hsame⟩ | ⟨hr, ht⟩ := after_takes hsentr l₁
      · exact hunchanged hsame
      · -- the older boot was heard of: its session is not the current one, and so it is retired
        have hleft : h.session r.boot ∈ (after l₁).retired := by
          obtain ⟨x, hx, hxt, hxb⟩ := (known_iff (hpart hrs) boot).1 (.inr hboot)
          have hheard : ∃ y ∈ l₁, y.Telling ∧ y.boot = r.boot := by
            by_contra hno
            have hlt' := horder l₁ r l₂ hrs hr (fun y hy hyt hyb => hno ⟨y, hy, hyt, hyb⟩) x hx hxt
            omega
          refine ((known_iff (hpart hrs) r.boot).2 hheard).resolve_right fun hcur => ?_
          rw [hboot] at hcur
          have := h.distinct (Option.some.inj hcur)
          omega
        have hsame : after (l₁ ++ [r]) = after l₁ := by
          generalize after (l₁ ++ [r]) = d at ht
          cases ht with
          | retired _ => rfl
          | first hfresh _ _ _ | replaces _ hfresh _ _ _ _ | current hfresh _ _ _ _ =>
              exact absurd hleft hfresh
        exact hunchanged hsame

/-! ## Two boots -/

namespace LateBoot

/-- A session id for every boot. -/
def session (boot : ℕ) : String := String.ofList (List.replicate boot 'b')

/-- Boots that stay at revision 0. -/
def history : History where
  session := session
  distinct a b hab := by
    have hlength := congrArg String.length hab
    simpa [session] using hlength
  logical _ _ := 0
  index _ _ := 0
  logical_mono _ := monotone_const
  index_mono _ := monotone_const

/-- A response of a boot, with both revisions. -/
def response (boot : ℕ) : Response where
  boot := boot
  moment := 0
  result := ⟨⟨some (session boot), some 0, none, none, some 0, none, none⟩, none⟩

theorem sends (boot : ℕ) : history.Sends (response boot) where
  session _ hs := (Option.some.inj hs).symm
  logical _ hl := (Option.some.inj hl).symm
  index _ hi := (Option.some.inj hi).symm

end LateBoot

/-- The first response of a boot comes after one of the next boot. -/
theorem not_converges : ¬ ∀ (h : History) (rs : List Response), (∀ r ∈ rs, h.Sends r) →
    Converges h rs := by
  intro hall
  have hconv := hall LateBoot.history [LateBoot.response 1, LateBoot.response 0] fun r hr => by
    rcases List.mem_pair.1 hr with rfl | rfl <;> exact LateBoot.sends _
  have hkept := (hconv.newer [LateBoot.response 1] (LateBoot.response 0) [] rfl 1 (by decide)
    (by decide)).1
  exact absurd hkept (by decide)

/-- Two boots in their order, and a late response of the first. -/
theorem converges_two : Converges LateBoot.history
    [LateBoot.response 0, LateBoot.response 1, LateBoot.response 0] := by
  refine (converges_iff LateBoot.history _ fun r hr => ?_).2 fun l₁ r l₂ hrs hr hunheard x hx hxt =>
    ?_
  · simp only [List.mem_cons, List.not_mem_nil, or_false] at hr
    rcases hr with rfl | rfl | rfl <;> exact LateBoot.sends _
  · match l₁, hrs with
    | [], _ => cases hx
    | [_], hrs =>
      obtain ⟨ha, hrs⟩ := List.cons.inj hrs
      obtain ⟨hr', -⟩ := List.cons.inj hrs
      rw [List.mem_singleton.1 hx, ← ha, ← hr']
      decide
    | [_, _], hrs =>
      obtain ⟨ha, hrs⟩ := List.cons.inj hrs
      obtain ⟨-, hrs⟩ := List.cons.inj hrs
      obtain ⟨hr', -⟩ := List.cons.inj hrs
      have hheard := hunheard (LateBoot.response 0) (by rw [ha]; exact List.mem_cons_self) (by decide)
      rw [← hr'] at hheard
      exact absurd rfl hheard
    | _ :: _ :: _ :: _, hrs =>
      have hlen := congrArg List.length hrs
      simp at hlen

end Libjadx.RevisionCache
