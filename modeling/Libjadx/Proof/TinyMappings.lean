import Libjadx.Lib.Locked
import Libjadx.Spec.TinyMappings

/-!
# Tiny mappings are admitted as a whole

* `validateRecords_ok`: the texts that are admitted are the ones of which the reader skips nothing.
* `visitAll_declared`, `visitAll_outline`: what the checked visitor has refused on the way.
* `admission_drops_nothing`: the tree has every record of the text, where it is there.
-/

namespace Libjadx

namespace JadxTinyMappings

open MappingExportDtos

/-! ## Lines -/

/-- **What a line may follow.** -/
theorem nextDepth_eq_ok {last : Option SymbolKind} {l : Line} {depth : Option ℕ}
    (h : nextDepth (last.map depthOf) l = .ok depth) :
    ∃ next : Option SymbolKind, depth = next.map depthOf ∧ ∀ lines, Nested next lines → Nested last
      (l :: lines) := by
  cases l with
  | declaration kind =>
    cases kind with
    | CLASS => exact ⟨some .CLASS, (Except.ok.inj h).symm, fun _ => id⟩
    | METHOD =>
      cases last with
      | none => cases h
      | some k => exact ⟨some .METHOD, (Except.ok.inj h).symm, fun _ hlines => ⟨rfl, hlines⟩⟩
    | FIELD =>
      cases last with
      | none => cases h
      | some k => exact ⟨some .FIELD, (Except.ok.inj h).symm, fun _ hlines => ⟨rfl, hlines⟩⟩
  | comment commentDepth =>
    rw [nextDepth] at h
    split at h
    · cases h
    · rename_i hdepth
      exact ⟨last, (Except.ok.inj h).symm, fun _ hlines => ⟨not_not.1 hdepth, hlines⟩⟩
  | escapedNames => exact ⟨last, (Except.ok.inj h).symm, fun _ => id⟩

/-- **Lines that are admitted** are of a kind that the reader knows, and nested. -/
theorem validateLines_ok {lines : List JString} {n : ℕ} (last : Option SymbolKind)
    (h : validateLines lines n (last.map depthOf) = .ok ()) :
      ∃ kinds, kindsFrom n lines = some kinds ∧ Nested last kinds ∧
      (kinds = [] ∨ n + kinds.length ≤ MAX_ENTRIES + 2) := by
  induction lines generalizing n last with
  | nil => exact ⟨[], rfl, trivial, .inl rfl⟩
  | cons line lines ih =>
    rw [validateLines] at h
    split at h
    · cases h
    rename_i hnumber
    split at h
    · cases h
    cases hline : lineOf n line with
    | none =>
      rw [hline] at h
      cases h
    | some l =>
      rw [hline] at h
      obtain ⟨depth, hdepth, hrest⟩ := bind_eq_ok.1 h
      obtain ⟨next, rfl, hnext⟩ := nextDepth_eq_ok hdepth
      obtain ⟨kinds, hkinds, hnested, hbound⟩ := ih next hrest
      refine ⟨l :: kinds, by rw [kindsFrom, hline, hkinds]; rfl, hnext kinds hnested, .inr ?_⟩
      · obtain rfl | hbound := hbound
        · rw [List.length_singleton]
          omega
        · rw [List.length_cons]
          omega

/-- **Accepted records are strict.** -/
theorem validateRecords_ok {text : JString} (h : validateRecords text = .ok ()) :
    ∃ lines, Strict text lines := by
  obtain ⟨_, -, hlines⟩ := bind_eq_ok.1 h
  obtain ⟨kinds, hkinds, hnested, hbound⟩ := validateLines_ok none hlines
  refine ⟨kinds, hkinds, hnested, ?_⟩
  obtain rfl | hbound := hbound
  · exact Nat.zero_le _
  · omega

/-- The first of several parts is before a separator. -/
theorem eq_append_of_splitAll {c : JChar} {s a b : JString} {parts : List JString}
    (h : splitAll c s = a :: b :: parts) :
    ∃ t, s = a ++ c :: t ∧ splitAll c t = b :: parts := by
  induction s generalizing a with
  | nil =>
    rw [splitAll] at h
    cases h
  | cons d s ih =>
    rw [splitAll] at h
    split at h
    · rename_i hd
      obtain ⟨rfl, hs⟩ := List.cons.inj h
      exact ⟨s, by rw [hd, List.nil_append], hs⟩
    · split at h
      · cases h
      · rename_i part rest hs
        obtain ⟨rfl, rfl⟩ := List.cons.inj h
        obtain ⟨t, rfl, ht⟩ := ih hs
        exact ⟨t, rfl, ht⟩

/-- **A line is of the kind that its tag says.** -/
theorem opening_lineOf {n : ℕ} {line : JString} {l : Line} (h : lineOf n line = some l) :
    l.opening <+: line := by
  rw [lineOf] at h
  split at h
  · rename_i b x hcolumns
    split at h
    · rename_i hb
      obtain rfl := Option.some.inj h
      obtain ⟨t, rfl, ht⟩ := eq_append_of_splitAll hcolumns
      obtain ⟨u, rfl, -⟩ := eq_append_of_splitAll ht
      exact ⟨u, by rw [hb]; rfl⟩
    · cases h
  · rename_i a x y hne hcolumns
    split at h
    · rename_i ha
      obtain rfl := Option.some.inj h
      obtain ⟨t, rfl, -⟩ := eq_append_of_splitAll hcolumns
      exact ⟨t, by rw [ha]; rfl⟩
    · cases h
  · rename_i b x y z hcolumns
    obtain ⟨t, rfl, ht⟩ := eq_append_of_splitAll hcolumns
    obtain ⟨u, rfl, -⟩ := eq_append_of_splitAll ht
    split at h
    · rename_i hb
      obtain rfl := Option.some.inj h
      exact ⟨u, by rw [hb]; rfl⟩
    · split at h
      · rename_i hb
        obtain rfl := Option.some.inj h
        exact ⟨u, by rw [hb]; rfl⟩
      · cases h
  · rename_i c x hcolumns
    split at h
    · rename_i hc
      obtain rfl := Option.some.inj h
      obtain ⟨t, rfl, ht⟩ := eq_append_of_splitAll hcolumns
      obtain ⟨u, rfl, hu⟩ := eq_append_of_splitAll ht
      obtain ⟨w, rfl, -⟩ := eq_append_of_splitAll hu
      exact ⟨w, by rw [hc]; rfl⟩
    · cases h
  · split at h
    · rename_i hline
      obtain rfl := Option.some.inj h
      exact hline.2 ▸ List.prefix_refl _
    · cases h

/-- A line's kind is told by how it opens. -/
theorem opening_kindsFrom {n : ℕ} {lines : List JString} {kinds : List Line}
    (h : kindsFrom n lines = some kinds) :
    List.Forall₂ (fun l line => l.opening <+: line) kinds lines := by
  induction lines generalizing n kinds with
  | nil =>
    obtain rfl := Option.some.inj h
    exact .nil
  | cons line lines ih =>
    obtain ⟨l, hl, h⟩ := Option.bind_eq_some_iff.1 h
    obtain ⟨rest, hrest, h⟩ := Option.bind_eq_some_iff.1 h
    obtain rfl := Option.some.inj h
    exact .cons (opening_lineOf hl) (ih hrest)

/-! ## Records -/

/-- **Nested lines make orderly records.** -/
theorem orderly_recordsFrom (last : Option SymbolKind) {lines : List Line} (h : Nested last lines) :
    Orderly last (recordsFrom (last.getD .CLASS) lines) := by
  induction lines generalizing last with
  | nil => trivial
  | cons l lines ih =>
    cases l with
    | declaration kind =>
      cases kind with
      | CLASS => exact ih (some .CLASS) h
      | METHOD => exact ⟨h.1, ih (some .METHOD) h.2⟩
      | FIELD => exact ⟨h.1, ih (some .FIELD) h.2⟩
    | comment depth =>
      cases last with
      | none => cases h.1
      | some kind => exact ⟨rfl, ih _ h.2⟩
    | escapedNames => exact ih _ h

/-- Declarations are counted as their lines are. -/
theorem count_recordsFrom {last : SymbolKind} {lines : List Line} (kind : SymbolKind) :
    (recordsFrom last lines).count (.declaration kind) = lines.count (.declaration kind) := by
  induction lines generalizing last with
  | nil => rfl
  | cons l lines ih =>
    cases l with
    | declaration k =>
      rw [recordsFrom, List.count_cons, List.count_cons, ih]
      by_cases hk : k = kind <;> simp [hk]
    | comment depth =>
      rw [recordsFrom, List.count_cons, List.count_cons, ih]
      simp
    | escapedNames =>
      rw [recordsFrom, List.count_cons, ih]
      simp

/-- Whether a record is a comment. -/
def Record.isComment : Record → Bool
  | .comment _ => true
  | _ => false

/-- So are comments. -/
theorem countP_recordsFrom {last : SymbolKind} {lines : List Line} :
    (recordsFrom last lines).countP Record.isComment = lines.countP Line.isComment := by
  induction lines generalizing last with
  | nil => rfl
  | cons l lines ih =>
    cases l <;> rw [recordsFrom] <;> simp only [List.countP_cons, ih, Record.isComment,
      Line.isComment, Bool.false_eq_true, if_false, Nat.add_zero]

/-! ## The last element -/

section

variable {α β : Type} {f : α → α} {l : List α}

/-- The last element is the one that was put last. -/
theorem modifyLast_append (f : α → α) (l : List α) (a : α) :
    modifyLast f (l ++ [a]) = l ++ [f a] := by
  induction l with
  | nil => rfl
  | cons b l ih =>
    cases l with
    | nil => rfl
    | cons c l => exact congrArg (b :: ·) ih

/-- The last element after its change. -/
theorem getLast?_modifyLast (f : α → α) (l : List α) :
    (modifyLast f l).getLast? = l.getLast?.map f := by
  obtain rfl | ⟨l, a, rfl⟩ := List.eq_nil_or_concat' l
  · rfl
  · rw [modifyLast_append, List.getLast?_concat, List.getLast?_concat, Option.map_some]

/-- A change that a map takes over. -/
theorem map_modifyLast {g : α → β} {f' : β → β} (h : ∀ a ∈ l.getLast?, g (f a) = f' (g a)) :
    (modifyLast f l).map g = modifyLast f' (l.map g) := by
  obtain rfl | ⟨l, a, rfl⟩ := List.eq_nil_or_concat' l
  · rfl
  · rw [modifyLast_append, List.map_append, List.map_append, List.map_singleton, List.map_singleton,
      modifyLast_append,
      h a List.getLast?_concat]

/-- A change that adds to a sum. -/
theorem sum_modifyLast {g : α → ℕ} {n : ℕ} (hne : l ≠ [])
    (h : ∀ a ∈ l.getLast?, g (f a) = g a + n) :
    ((modifyLast f l).map g).sum = (l.map g).sum + n := by
  obtain rfl | ⟨l, a, rfl⟩ := List.eq_nil_or_concat' l
  · exact absurd rfl hne
  · rw [modifyLast_append]
    simp only [List.map_append, List.map_singleton, List.sum_append, List.sum_singleton,
      h a List.getLast?_concat]
    omega

end

/-! ## The checked visitor -/

variable {T : Type} {tree : MappingTree T} {v v' : Checked T} {call : Visit}

/-- A string costs, and changes nothing else. -/
structure SameKeys (v v' : Checked T) : Prop where
  keys : v'.keys = v.keys
  owner : v'.owner = v.owner
  current : v'.current = v.current
  tree : v'.tree = v.tree

theorem SameKeys.trans {v'' : Checked T} (h : SameKeys v v') (h' : SameKeys v' v'') :
    SameKeys v v'' :=
  ⟨h'.keys.trans h.keys, h'.owner.trans h.owner, h'.current.trans h.current, h'.tree.trans h.tree⟩

/-- A string that passes declares nothing. -/
theorem string_eq_ok {value : Option JString} (h : v.string value = .ok v') : SameKeys v v' := by
  obtain ⟨budget, -, hv⟩ := bind_eq_ok.1 h
  obtain rfl := Except.ok.inj hv
  exact ⟨rfl, rfl, rfl, rfl⟩

/-- A key that is taken is a new one. -/
structure Declares (v v' : Checked T) (key : JString) (owner : Option JString) : Prop where
  fresh : key ∉ v.keys
  keys : v'.keys = v.keys ++ [key]
  owner : v'.owner = owner
  current : v'.current = some key
  tree : v'.tree = v.tree

/-- A key that passes is declared. -/
theorem key_eq_ok {key : JString} (h : v.key key = .ok v') : Declares v v' key v.owner := by
  obtain ⟨budget, -, hkey⟩ := bind_eq_ok.1 h
  split at hkey
  · cases hkey
  · rename_i hfresh
    obtain rfl := Except.ok.inj hkey
    exact ⟨fun hmem => hfresh (List.contains_iff_mem.2 hmem), rfl, rfl, rfl, rfl⟩

theorem Declares.of_same {u : Checked T} {key : JString} {owner : Option JString}
    (hs : SameKeys v u) (h : Declares u v' key owner) :
    Declares v v' key owner :=
  ⟨hs.keys ▸ h.fresh, hs.keys ▸ h.keys, h.owner, h.current, h.tree.trans hs.tree⟩

/-- The key of a declaration. -/
def Key.text : Key → JString
  | .cls name => kindLetter .CLASS ++ NUL ++ name
  | .member kind owner name descriptor => memberKey kind owner name descriptor

/-- **A member that passes is declared under its owner.** -/
theorem member_eq_ok {kind : SymbolKind} {name descriptor : JString}
    (h : v.member kind name descriptor = .ok v') :
    Declares v v' (memberKey kind v.owner name descriptor) v.owner := by
  obtain ⟨u₁, h₁, h⟩ := bind_eq_ok.1 h
  obtain ⟨u₂, h₂, h⟩ := bind_eq_ok.1 h
  obtain ⟨_, -, h⟩ := bind_eq_ok.1 h
  have hs := (string_eq_ok h₁).trans (string_eq_ok h₂)
  have hkey := key_eq_ok h
  rw [hs.owner] at hkey
  exact hkey.of_same hs

/-- **A declaration** is refused when its key is there. -/
theorem check_declares {k : Key} (hk : call.declares v.owner = some k) (h : v.check call = .ok v') :
    Declares v v' k.text (call.ownerOf v.owner) := by
  cases call <;> simp only [Visit.declares, Option.some.injEq, reduceCtorEq] at hk <;> subst hk
  case cls name =>
    obtain ⟨u, hu, h⟩ := bind_eq_ok.1 h
    obtain ⟨_, -, h⟩ := bind_eq_ok.1 h
    have hs := string_eq_ok hu
    have hkey := key_eq_ok h
    exact ⟨hs.keys ▸ hkey.fresh, hs.keys ▸ hkey.keys, hkey.owner, hkey.current, hkey.tree.trans hs.tree⟩
  case method name descriptor => exact member_eq_ok h
  case field name descriptor => exact member_eq_ok h

/-- **A comment** is refused when what it is about has one. -/
theorem check_comment {kind : SymbolKind} {text : JString}
    (h : v.check (.comment kind text) = .ok v') :
    commentKey v.current ∉ v.keys ∧ v'.keys = v.keys ++ [commentKey v.current] ∧
      v'.owner = v.owner ∧ v'.current = v.current ∧
      v'.tree = v.tree := by
  obtain ⟨budget, -, h⟩ := bind_eq_ok.1 h
  obtain ⟨u, hu, h⟩ := bind_eq_ok.1 h
  have hs := string_eq_ok hu
  split at h
  · cases h
  · rename_i hfresh
    obtain rfl := Except.ok.inj h
    rw [hs.keys, hs.current] at hfresh
    exact ⟨fun hmem => hfresh (List.contains_iff_mem.2 hmem),
      by rw [← hs.keys, ← hs.current], hs.owner, hs.current, hs.tree⟩

/-- Any other call leaves the keys. -/
theorem check_other (hk : call.record = none) (h : v.check call = .ok v') : SameKeys v v' := by
  cases call <;> simp only [Visit.record, reduceCtorEq] at hk
  case namespaces source destinations =>
    rcases destinations with - | ⟨destination, - | ⟨_, _⟩⟩
    · cases h
    · rw [Checked.check] at h
      split at h
      · cases h
      · obtain ⟨u, hu, h⟩ := bind_eq_ok.1 h
        exact (string_eq_ok hu).trans (string_eq_ok h)
    · cases h
  case metadata key value => cases h
  case methodArg => cases h
  case methodVar => cases h
  case dstName kind name =>
    obtain ⟨u, hu, h⟩ := bind_eq_ok.1 h
    cases name with
    | none =>
      obtain rfl := Except.ok.inj h
      exact string_eq_ok hu
    | some n =>
      obtain ⟨_, -, h⟩ := bind_eq_ok.1 h
      obtain rfl := Except.ok.inj h
      exact string_eq_ok hu

/-- A visit that passes was checked, and its call is taken. -/
theorem visit_eq_ok (h : v.visit tree call = .ok v') :
    ∃ u, v.check call = .ok u ∧ v' = { u with tree := tree.visit u.tree call } := by
  obtain ⟨u, hu, h⟩ := bind_eq_ok.1 h
  exact ⟨u, hu, (Except.ok.inj h).symm⟩

/-- **Every declaration has a key of its own.** -/
theorem visitAll_declared {calls : List Visit} (h : v.visitAll tree calls = .ok v') :
    ((declared v.owner calls).map Key.text).Nodup ∧
      (∀ k ∈ declared v.owner calls, k.text ∉ v.keys) ∧
      v'.tree = calls.foldl tree.visit v.tree := by
  induction calls generalizing v with
  | nil =>
    obtain rfl := Except.ok.inj h
    exact ⟨.nil, List.forall_mem_nil _, rfl⟩
  | cons call calls ih =>
    rw [Checked.visitAll] at h
    obtain ⟨u, hu, h⟩ := bind_eq_ok.1 h
    obtain ⟨u, hcheck, rfl⟩ := visit_eq_ok hu
    obtain ⟨hnodup, hfresh, htree⟩ := ih h
    rw [declared]
    dsimp only at hnodup hfresh htree
    cases hk : call.declares v.owner with
    | some k =>
      have hd := check_declares hk hcheck
      rw [hd.owner] at hnodup hfresh
      rw [hd.keys] at hfresh
      rw [hd.tree] at htree
      refine ⟨List.nodup_cons.2 ⟨fun htext => ?_, hnodup⟩, List.forall_mem_cons.2 ⟨hd.fresh,
        fun k' hk' hmem => ?_⟩, htree⟩
      · obtain ⟨k', hk', heq⟩ := List.mem_map.1 htext
        exact hfresh k' hk' (List.mem_append_right _ (List.mem_singleton.2 heq))
      · exact hfresh k' hk' (List.mem_append_left _ hmem)
    | none =>
      have hrest : u.owner = call.ownerOf v.owner ∧ v.keys ⊆ u.keys ∧ u.tree = v.tree := by
        cases hrecord : call.record with
        | none =>
          have hs := check_other hrecord hcheck
          refine ⟨hs.owner.trans ?_, hs.keys ▸ List.Subset.refl _, hs.tree⟩
          cases call <;> first | rfl | cases hrecord
        | some r =>
          cases call <;> simp only [Visit.record, Visit.declares, reduceCtorEq] at hrecord hk
          case comment kind text =>
            obtain ⟨-, hkeys, howner, -, htree'⟩ := check_comment hcheck
            exact ⟨howner, hkeys ▸ List.subset_append_left _ _, htree'⟩
      rw [hrest.1] at hnodup hfresh
      rw [hrest.2.2] at htree
      exact ⟨hnodup, fun k hk' hmem => hfresh k hk' (hrest.2.1 hmem), htree⟩

/-! ## Trees -/

/-- The last declaration has no comment yet. -/
def Uncommented : Option SymbolKind → List ClassView → Prop
  | none, _ => True
  | some .CLASS, classes => ∀ c ∈ classes.getLast?, c.comment = none
  | some .METHOD, classes => ∀ c ∈ classes.getLast?, ∀ m ∈ c.methods.getLast?, m.comment = none
  | some .FIELD, classes => ∀ c ∈ classes.getLast?, ∀ f ∈ c.fields.getLast?, f.comment = none

/-- The kind of the last declaration, after a record. -/
def Record.last (last : Option SymbolKind) : Record → Option SymbolKind
  | .declaration kind => some kind
  | .comment _ => last

/-- The rest of orderly records is orderly. -/
theorem orderly_tail {last : Option SymbolKind} {r : Record} {records : List Record}
    (h : Orderly last (r :: records)) : Orderly (r.last last) records := by
  cases r with
  | declaration kind =>
    cases kind with
    | CLASS => exact h
    | METHOD => exact h.2
    | FIELD => exact h.2
  | comment subject => exact h.2

/-- **One record more**, of a declaration or of one without a comment. -/
theorem outline_lay (last : Option SymbolKind) {classes : List ClassView} {r : Record}
    (hr : call.record = some r)
    (hun : ∀ kind, r = .comment kind → last = some kind ∧ Uncommented last classes) :
    (ClassView.lay classes call).map ClassView.outline = Outline.add
    (classes.map ClassView.outline) r := by
  cases call <;> simp only [Visit.record, Option.some.injEq, reduceCtorEq] at hr <;> subst hr
  case cls name => exact List.map_append
  case method name descriptor =>
    refine map_modifyLast fun c _ => ?_
    simp [ClassView.outline, commentCount]
  case field name descriptor =>
    refine map_modifyLast fun c _ => ?_
    simp [ClassView.outline, commentCount]
  case comment kind text =>
    obtain ⟨rfl, hnone⟩ := hun kind rfl
    cases kind with
    | CLASS =>
      refine map_modifyLast fun c hc => ?_
      simp [ClassView.outline, commentCount, hnone c hc]
    | METHOD =>
      refine map_modifyLast fun c hc => ?_
      have hmembers : (modifyLast (fun m : MemberView => { m with comment := some text })
          c.methods).map (fun m => commentCount m.comment) =
          modifyLast (· + 1) (c.methods.map fun m => commentCount m.comment) := by
        refine map_modifyLast fun m hm => ?_
        simp [commentCount, hnone c hc m hm]
      simp only [ClassView.outline, hmembers]
    | FIELD =>
      refine map_modifyLast fun c hc => ?_
      have hmembers : (modifyLast (fun m : MemberView => { m with comment := some text })
          c.fields).map (fun m => commentCount m.comment) =
          modifyLast (· + 1) (c.fields.map fun m => commentCount m.comment) := by
        refine map_modifyLast fun m hm => ?_
        simp [commentCount, hnone c hc m hm]
      simp only [ClassView.outline, hmembers]

/-- A declaration has no comment at first. -/
theorem uncommented_lay {kind : SymbolKind} {classes : List ClassView}
    (hr : call.record = some (.declaration kind)) :
    Uncommented (some kind) (ClassView.lay classes call) := by
  cases call <;> simp only [Visit.record, Option.some.injEq, Record.declaration.injEq,
    reduceCtorEq] at hr <;> subst hr
  case cls name =>
    intro c hc
    rw [ClassView.lay, List.getLast?_concat] at hc
    obtain rfl := Option.some.inj hc
    rfl
  case method name descriptor =>
    intro c hc m hm
    rw [ClassView.lay, getLast?_modifyLast] at hc
    obtain ⟨c', -, rfl⟩ := Option.map_eq_some_iff.1 hc
    rw [List.getLast?_concat] at hm
    obtain rfl := Option.some.inj hm
    rfl
  case field name descriptor =>
    intro c hc m hm
    rw [ClassView.lay, getLast?_modifyLast] at hc
    obtain ⟨c', -, rfl⟩ := Option.map_eq_some_iff.1 hc
    rw [List.getLast?_concat] at hm
    obtain rfl := Option.some.inj hm
    rfl

/-- **Every record is in the tree once**, where it is in the text. -/
theorem visitAll_outline {calls : List Visit} {last : Option SymbolKind} (classes : List ClassView)
    (h : v.visitAll tree calls = .ok v')
    (horderly : Orderly last (calls.filterMap Visit.record)) (hun : commentKey v.current ∉ v.keys →
      Uncommented last classes) :
    (calls.foldl ClassView.lay classes).map ClassView.outline =
      (calls.filterMap Visit.record).foldl Outline.add (classes.map ClassView.outline) := by
  induction calls generalizing v last classes with
  | nil => rfl
  | cons call calls ih =>
    rw [Checked.visitAll] at h
    obtain ⟨u, hu, h⟩ := bind_eq_ok.1 h
    obtain ⟨u, hcheck, rfl⟩ := visit_eq_ok hu
    rw [List.foldl_cons]
    cases hrecord : call.record with
    | none =>
      have hs := check_other hrecord hcheck
      have hlay : ClassView.lay classes call = classes := by
        cases call <;> first | rfl | cases hrecord
      rw [List.filterMap_cons_none hrecord] at horderly ⊢
      rw [hlay]
      refine ih _ h horderly fun hfresh => hun ?_
      rwa [hs.keys, hs.current] at hfresh
    | some r =>
      rw [List.filterMap_cons_some hrecord] at horderly ⊢
      rw [List.foldl_cons]
      have hafter : commentKey u.current ∉ u.keys →
          Uncommented (r.last last) (ClassView.lay classes call) := by
        cases r with
        | declaration kind => exact fun _ => uncommented_lay hrecord
        | comment kind =>
          cases call <;> simp only [Visit.record, Option.some.injEq, reduceCtorEq] at hrecord
          obtain ⟨-, hkeys, -, hcurrent, -⟩ := check_comment hcheck
          rw [hkeys, hcurrent]
          exact fun hfresh => absurd (List.mem_append_right _ (List.mem_singleton_self _)) hfresh
      have hstep : (ClassView.lay classes call).map ClassView.outline = Outline.add
          (classes.map ClassView.outline) r := by
        refine outline_lay last hrecord ?_
        rintro kind rfl
        refine ⟨horderly.1, hun ?_⟩
        cases call <;> simp only [Visit.record, Option.some.injEq, reduceCtorEq] at hrecord
        exact (check_comment hcheck).1
      rw [ih _ h (orderly_tail horderly) hafter, hstep]

/-! ## Counts -/

/-- How many declarations and comments there are, by the parts of the classes. -/
def tally (outlines : List Outline) : Counts where
  classes := outlines.length
  methods := (outlines.map (·.methods.length)).sum
  fields := (outlines.map (·.fields.length)).sum
  comments := (outlines.map fun o => o.comments + o.fields.sum + o.methods.sum).sum

/-- **The counts are those of the outlines.** -/
theorem counts_eq_tally (classes : List ClassView) :
    counts classes = tally (classes.map ClassView.outline) := by
  simp only [counts, tally, List.map_map, List.length_map, Function.comp_def, ClassView.outline]

/-- What the next record can be about is there. -/
def Ready : Option SymbolKind → List Outline → Prop
  | none, _ => True
  | some .CLASS, outlines => outlines ≠ []
  | some .METHOD, outlines => ∃ o ∈ outlines.getLast?, o.methods ≠ []
  | some .FIELD, outlines => ∃ o ∈ outlines.getLast?, o.fields ≠ []

/-- Below a class there is one. -/
theorem Ready.ne_nil {kind : SymbolKind} {outlines : List Outline}
    (h : Ready (some kind) outlines) : outlines ≠ [] := by
  rintro rfl
  cases kind with
  | CLASS => exact h rfl
  | METHOD =>
    obtain ⟨o, ho, -⟩ := h
    cases ho
  | FIELD =>
    obtain ⟨o, ho, -⟩ := h
    cases ho

theorem length_modifyLast {α : Type} (f : α → α) (l : List α) :
    (modifyLast f l).length = l.length := by
  obtain rfl | ⟨l, a, rfl⟩ := List.eq_nil_or_concat' l
  · rfl
  · rw [modifyLast_append, List.length_append, List.length_append, List.length_singleton,
      List.length_singleton]

theorem modifyLast_ne_nil {α : Type} {f : α → α} {l : List α} (h : l ≠ []) : modifyLast f l ≠ [] :=
  List.ne_nil_of_length_pos (length_modifyLast f l ▸ List.length_pos_iff.2 h)

theorem exists_getLast? {α : Type} {l : List α} (h : l ≠ []) : ∃ a, a ∈ l.getLast? :=
  ⟨l.getLast h, List.getLast?_eq_some_getLast h⟩

/-- What a record is about is there afterwards. -/
theorem ready_add {last : Option SymbolKind} {outlines : List Outline} {r : Record}
    {records : List Record}
    (horderly : Orderly last (r :: records)) (hready : Ready last outlines) :
    Ready (r.last last) (Outline.add outlines r) := by
  have hmember : ∀ kind, last.isSome → last = some kind → ∃ o, o ∈ outlines.getLast? :=
    fun kind _ hlast =>
    exists_getLast? (Ready.ne_nil (hlast ▸ hready))
  cases r with
  | declaration kind =>
    cases kind with
    | CLASS => exact List.append_ne_nil_of_right_ne_nil _ (List.cons_ne_nil _ _)
    | METHOD =>
      obtain ⟨k, hk⟩ := Option.isSome_iff_exists.1 horderly.1
      obtain ⟨o, ho⟩ := hmember k horderly.1 hk
      exact ⟨_, (getLast?_modifyLast _ _).trans (congrArg _ ho),
        List.append_ne_nil_of_right_ne_nil _ (List.cons_ne_nil _ _)⟩
    | FIELD =>
      obtain ⟨k, hk⟩ := Option.isSome_iff_exists.1 horderly.1
      obtain ⟨o, ho⟩ := hmember k horderly.1 hk
      exact ⟨_, (getLast?_modifyLast _ _).trans (congrArg _ ho),
        List.append_ne_nil_of_right_ne_nil _ (List.cons_ne_nil _ _)⟩
  | comment subject =>
    obtain rfl := horderly.1
    cases subject with
    | CLASS => exact modifyLast_ne_nil hready
    | METHOD =>
      obtain ⟨o, ho, hne⟩ := hready
      exact ⟨_, (getLast?_modifyLast _ _).trans (congrArg _ ho), modifyLast_ne_nil hne⟩
    | FIELD =>
      obtain ⟨o, ho, hne⟩ := hready
      exact ⟨_, (getLast?_modifyLast _ _).trans (congrArg _ ho), modifyLast_ne_nil hne⟩

/-- What a record adds. -/
def addRecord (c : Counts) : Record → Counts
  | .declaration .CLASS => { c with classes := c.classes + 1 }
  | .declaration .METHOD => { c with methods := c.methods + 1 }
  | .declaration .FIELD => { c with fields := c.fields + 1 }
  | .comment _ => { c with comments := c.comments + 1 }

/-- The tally, when only the last class changes. -/
theorem tally_modifyLast (f : Outline → Outline) {outlines : List Outline}
    (methods fields comments : ℕ) (hne : outlines ≠ [])
    (h : ∀ o ∈ outlines.getLast?, (f o).methods.length = o.methods.length + methods ∧
      (f o).fields.length = o.fields.length + fields ∧
      (f o).comments + (f o).fields.sum + (f o).methods.sum = o.comments + o.fields.sum +
      o.methods.sum + comments) :
    tally (modifyLast f outlines) = ⟨(tally outlines).classes, (tally outlines).methods + methods,
      (tally outlines).fields + fields, (tally outlines).comments + comments⟩ :=
  Counts.mk.injEq .. ▸ ⟨length_modifyLast _ _, sum_modifyLast hne fun o ho => (h o ho).1,
    sum_modifyLast hne fun o ho => (h o ho).2.1, sum_modifyLast hne fun o ho => (h o ho).2.2⟩

/-- One more in the last place is one more in all. -/
theorem sum_modifyLast_succ {l : List ℕ} (h : l ≠ []) : (modifyLast (· + 1) l).sum = l.sum + 1 := by
  have := sum_modifyLast (f := (· + 1)) (g := id) (n := 1) h fun a _ => rfl
  rwa [List.map_id, List.map_id] at this

/-- **A record more**, at a place that is there. -/
theorem tally_add {last : Option SymbolKind} {outlines : List Outline} {r : Record}
    {records : List Record}
    (horderly : Orderly last (r :: records)) (hready : Ready last outlines) :
    tally (Outline.add outlines r) = addRecord (tally outlines) r := by
  have hne : ∀ kind, last = some kind → outlines ≠ [] := fun kind hlast =>
    Ready.ne_nil (hlast ▸ hready)
  cases r with
  | declaration kind =>
    cases kind with
    | CLASS => simp [Outline.add, tally, addRecord]
    | METHOD =>
      obtain ⟨k, hk⟩ := Option.isSome_iff_exists.1 horderly.1
      exact tally_modifyLast (fun o => { o with methods := o.methods ++ [0] }) 1 0 0 (hne k hk)
        fun o _ => by simp
    | FIELD =>
      obtain ⟨k, hk⟩ := Option.isSome_iff_exists.1 horderly.1
      exact tally_modifyLast (fun o => { o with fields := o.fields ++ [0] }) 0 1 0 (hne k hk)
        fun o _ => by simp
  | comment subject =>
    obtain rfl := horderly.1
    have h' := hne subject rfl
    cases subject with
    | CLASS =>
      refine tally_modifyLast (fun o => { o with comments := o.comments + 1 }) 0 0 1 h' fun o _ =>
        ⟨rfl, rfl, ?_⟩
      dsimp only
      omega
    | METHOD =>
      refine tally_modifyLast (fun o => { o with methods := modifyLast (· + 1) o.methods }) 0 0 1 h'
        fun o ho => ⟨length_modifyLast _ _, rfl, ?_⟩
      obtain ⟨o', ho', hmethods⟩ := hready
      obtain rfl := Option.mem_unique ho ho'
      dsimp only
      rw [sum_modifyLast_succ hmethods, Nat.add_assoc _ _ 1]
    | FIELD =>
      refine tally_modifyLast (fun o => { o with fields := modifyLast (· + 1) o.fields }) 0 0 1 h'
        fun o ho => ⟨rfl, length_modifyLast _ _, ?_⟩
      obtain ⟨o', ho', hfields⟩ := hready
      obtain rfl := Option.mem_unique ho ho'
      dsimp only
      rw [sum_modifyLast_succ hfields]
      omega

/-- **The tally of records**: one for each. -/
theorem tally_foldl {last : Option SymbolKind} {outlines : List Outline} {records : List Record}
    (horderly : Orderly last records)
    (hready : Ready last outlines) : tally (records.foldl Outline.add outlines) =
      ⟨(tally outlines).classes + records.count (.declaration .CLASS), (tally outlines).methods +
        records.count (.declaration .METHOD),
        (tally outlines).fields + records.count (.declaration .FIELD),
        (tally outlines).comments + records.countP Record.isComment⟩ := by
  induction records generalizing last outlines with
  | nil => rfl
  | cons r records ih =>
    rw [List.foldl_cons, ih (orderly_tail horderly) (ready_add horderly hready),
      tally_add horderly hready]
    cases r with
    | declaration kind =>
      cases kind <;> simp [addRecord, Record.isComment] <;> omega
    | comment subject =>
      simp [addRecord, List.countP_cons, Record.isComment]
      omega

/-! ## Admission -/

/-- **Admission drops nothing**: every line of an accepted text opens as one of the kinds of lines
and is nested, and the tree has what the reader visits, with every record of the text where it is in
the text. -/
theorem admission_drops_nothing {T : Type} {tree : MappingTree T} {view : T → List ClassView}
    (hkeeps : Keeps tree view)
    {reader : MappingReader} (hdelivers : Delivers reader) {raw : List UInt8}
    {budget : Budget} {t : T}
    (h : parse tree reader raw budget = .ok t) :
    ∃ points lines calls, Utf8.decode raw = some points ∧ Strict (ofCodePoints points) lines ∧
      List.Forall₂ (fun l line => l.opening <+: line) lines
        (bodyLines (body (ofCodePoints points))) ∧
      reader.read (ofCodePoints points) = (calls, true) ∧ view t = calls.foldl ClassView.lay [] ∧
        Exact lines (view t) := by
  rw [parse] at h
  split at h
  · cases h
  cases hdecode : Utf8.decode raw with
  | none =>
    rw [hdecode] at h
    cases h
  | some points =>
    rw [hdecode] at h
    obtain ⟨_, hvalid, h⟩ := bind_eq_ok.1 h
    obtain ⟨lines, hstrict⟩ := validateRecords_ok hvalid
    dsimp only at h
    split at h
    · rename_i v hvisits
      split at h
      · rename_i hcomplete
        obtain rfl := Except.ok.inj h
        have hread : reader.read (ofCodePoints points) = ((reader.read (ofCodePoints points)).1, true) :=
          Prod.ext rfl hcomplete
        have hrecords := hdelivers.records _ lines hstrict _ hread
        have horderly : Orderly none ((reader.read (ofCodePoints points)).1.filterMap Visit.record) :=
          hrecords ▸ orderly_recordsFrom none hstrict.nested
        obtain ⟨hnodup, -, htree⟩ := visitAll_declared hvisits
        have hview : view v.tree = (reader.read (ofCodePoints points)).1.foldl ClassView.lay [] :=
          htree ▸ hkeeps.view_visits _ horderly hnodup.of_map
        have houtline := visitAll_outline [] hvisits horderly fun _ => trivial
        rw [← hview, hrecords] at houtline
        refine ⟨points, lines, _, rfl, hstrict, opening_kindsFrom hstrict.kinds, hread, hview,
          houtline, ?_⟩
        rw [counts_eq_tally, houtline]
        have hready : Ready none [] := trivial
        refine (tally_foldl (hrecords ▸ horderly) hready).trans ?_
        simp only [count_recordsFrom, countP_recordsFrom, tally, List.length_nil, List.map_nil,
          List.sum_nil, Nat.zero_add]
      · cases h
    · cases h
    · cases h

/-- Mappings of two classes, one with a method and its comment, one with a field. -/
def sample : JString :=
  str "tiny\t2\t0\toriginal\tmapped\nc\ta/A\tb/B\n\tm\t()V\tf\tg\n\t\tc\tdoes\nc\ta/C\tb/D\n\tf\tI\tx\ty\n"

def sampleVisits : List Visit :=
  [.namespaces (str "original") [str "mapped"], .cls (str "a/A"), .dstName .CLASS (some (str "b/B")),
    .method (str "f") (str "()V"), .dstName .METHOD (some (str "g")), .comment .METHOD (str "does"),
    .cls (str "a/C"), .dstName .CLASS (some (str "b/D")), .field (str "x") (str "I"),
      .dstName .FIELD (some (str "y"))]

def sampleReader : MappingReader := ⟨fun text => if text = sample then (sampleVisits, true)
    else ([], false)⟩

def laid : MappingTree (List ClassView) := ⟨[], ClassView.lay⟩

theorem keeps_laid : Keeps laid id := ⟨fun _ _ _ => rfl⟩

theorem delivers_sample : Delivers sampleReader where
  records text lines hstrict calls hread := by
    by_cases htext : text = sample
    · subst htext
      have hkinds : kindsFrom 1 (bodyLines (body sample)) =
          some [.declaration .CLASS, .declaration .METHOD, .comment 1, .declaration .CLASS,
              .declaration .FIELD] := by
        decide
      obtain rfl := Option.some.inj (hkinds.symm.trans hstrict.kinds)
      have hsample : sampleReader.read sample = (sampleVisits, true) := by
        simp only [sampleReader, if_true]
      obtain rfl := (Prod.mk.inj (hsample.symm.trans hread)).1
      rfl
    · have hnone : sampleReader.read text = ([], false) := if_neg htext
      exact absurd (Prod.mk.inj (hnone.symm.trans hread)).2 Bool.false_ne_true

theorem admission_sample :
    ∃ points lines calls, Utf8.decode (sample.map UInt16.toUInt8) = some points ∧
    Strict (ofCodePoints points) lines ∧
    List.Forall₂ (fun l line => l.opening <+: line) lines (bodyLines (body (ofCodePoints points))) ∧
    sampleReader.read (ofCodePoints points) = (calls, true) ∧
    sampleVisits.foldl ClassView.lay [] = calls.foldl ClassView.lay [] ∧ Exact lines
      (sampleVisits.foldl ClassView.lay []) :=
  have h : parse laid sampleReader (sample.map UInt16.toUInt8) ⟨0, 0⟩ = .ok
    (sampleVisits.foldl ClassView.lay []) := by rfl
  admission_drops_nothing keeps_laid delivers_sample h

end JadxTinyMappings

end Libjadx
