import Libjadx.Proof.NativeProject

/-!
# The entries of a native document

An old entry and a written one are the same where their keys are. Every written record is laid over
the old entry with its key, and a second pass changes nothing.

Main results: `sameEntry_eq`, `preserveEntries_eq`, `laidEntries_again`.
-/

namespace Libjadx

open Members

namespace NativeProjectDocument

/-! ## Keys -/

/-- What the entries of a list are told apart by: the references as the codec reads them, and for a
comment its style as it is written. -/
structure EntryKey where
  nodeRef : Option JadxNodeRef
  codeRef : Option JadxCodeRef
  style : Option JString
deriving DecidableEq

/-- What identifies a rename. -/
def renameKey (r : JadxCodeRename) : EntryKey := ⟨r.nodeRef, r.codeRef, none⟩

/-- A comment without a style is written without one, and the loop takes it for a `LINE`. -/
def commentKey (c : JadxCodeComment) : EntryKey :=
  ⟨c.nodeRef, c.codeRef, some (c.style.getD .LINE).name⟩

/-- The style of an entry, where it is a comment. -/
def keyStyle (gson : Gson) (comments : Bool) (o : JsonObject) : Except Throwable (Option JString) :=
  if comments then (commentStyle gson o).map some else .ok none

/-- What identifies an entry of the file. -/
def entryKey (gson : Gson) (comments : Bool) (o : JsonObject) : Except Throwable EntryKey := do
  let nodeRef ← Gson.readMember (str "nodeRef") (Gson.readObject gson.readNodeRef) none o
  let codeRef ← Gson.readMember (str "codeRef") (Gson.readObject gson.readCodeRef) none o
  let style ← keyStyle gson comments o
  pure ⟨nodeRef, codeRef, style⟩

section Keys

variable {gson : Gson} {comments : Bool} {a b : JsonObject}

theorem readObject_isNull {R : Type} {read : JsonObject → Except Throwable R} {j : JsonElement}
    {n : Option R}
    (h : Gson.readObject read j = .ok n) : JsonElement.isNull (some j) = n.isNone := by
  rcases Gson.readObject_cases h with ⟨rfl, rfl⟩ | ⟨o, r, rfl, -, rfl⟩
  · rfl
  · rfl

/-- Two reference members are the same where they read as the same. -/
theorem sameNativeReference_eq {R : Type} [DecidableEq R] {read : JsonObject → Except Throwable R}
    {name : JString} {m n : Option R}
    (ha : Gson.readMember name (Gson.readObject read) none a = .ok m)
    (hb : Gson.readMember name (Gson.readObject read) none b = .ok n) :
    sameNativeReference read (get name a) (get name b) = .ok (decide (m = n)) := by
  unfold Gson.readMember at ha hb
  unfold sameNativeReference
  rcases hga : get name a with - | x <;> rcases hgb : get name b with - | y <;> rw [hga] at ha <;>
    rw [hgb] at hb <;>
    dsimp only at ha hb ⊢
  · obtain rfl := Except.ok.inj ha
    obtain rfl := Except.ok.inj hb
    rfl
  · obtain rfl := Except.ok.inj ha
    rw [readObject_isNull hb]
    cases n <;> rfl
  · obtain rfl := Except.ok.inj hb
    rw [readObject_isNull ha]
    cases m <;> rfl
  · rw [readObject_isNull ha, readObject_isNull hb]
    cases m with
    | none => cases n <;> rfl
    | some m =>
      cases n with
      | none => rfl
      | some n =>
        rw [ha, hb]
        simp only [Option.isNone_some, Bool.false_eq_true, if_false]
        exact congrArg Except.ok (by by_cases h : m = n <;> simp [h])

/-- How the key of an entry is read. -/
theorem entryKey_eq {k : EntryKey} : entryKey gson comments a = .ok k ↔
    Gson.readMember (str "nodeRef") (Gson.readObject gson.readNodeRef) none a = .ok k.nodeRef ∧
      Gson.readMember (str "codeRef") (Gson.readObject gson.readCodeRef) none a = .ok k.codeRef ∧
      keyStyle gson comments a = .ok k.style := by
  constructor
  · intro h
    obtain ⟨n, hn, h⟩ := bind_eq_ok.1 h
    obtain ⟨c, hc, h⟩ := bind_eq_ok.1 h
    obtain ⟨s, hs, h⟩ := bind_eq_ok.1 h
    obtain rfl := Except.ok.inj h
    exact ⟨hn, hc, hs⟩
  · rintro ⟨hn, hc, hs⟩
    exact bind_eq_ok.2 ⟨_, hn, bind_eq_ok.2 ⟨_, hc, bind_eq_ok.2 ⟨_, hs, rfl⟩⟩⟩

theorem keyStyle_some {style : Option JString} (h : keyStyle gson true a = .ok style) :
    ∃ text, commentStyle gson a = .ok text ∧ style = some text := by
  dsimp only [keyStyle, if_true] at h
  rcases hs : commentStyle gson a with e | text
  · rw [hs] at h
    cases h
  · rw [hs] at h
    exact ⟨text, rfl, (Except.ok.inj h).symm⟩

/-- **The condition of the loop**: an old entry is the same as a written one where the keys are. -/
theorem sameEntry_eq {k k' : EntryKey} (ha : entryKey gson comments a = .ok k)
    (hb : entryKey gson comments b = .ok k') :
    sameEntry gson comments a b = .ok (decide (k = k')) := by
  obtain ⟨n, c, s⟩ := k
  obtain ⟨n', c', s'⟩ := k'
  obtain ⟨hna, hca, hsa⟩ := entryKey_eq.1 ha
  obtain ⟨hnb, hcb, hsb⟩ := entryKey_eq.1 hb
  refine bind_eq_ok.2 ⟨_, sameNativeReference_eq hna hnb, ?_⟩
  by_cases hn : n = n'
  · rw [if_neg (by simp [hn])]
    refine bind_eq_ok.2 ⟨_, sameNativeReference_eq hca hcb, ?_⟩
    by_cases hc : c = c'
    · rw [if_neg (by simp [hc])]
      cases comments with
      | false =>
        have hs : s = s' := (Except.ok.inj hsa).symm.trans (Except.ok.inj hsb)
        simp only [hn, hc, hs, decide_true]
        rfl
      | true =>
        obtain ⟨t, hta, rfl⟩ := keyStyle_some hsa
        obtain ⟨t', htb, rfl⟩ := keyStyle_some hsb
        refine bind_eq_ok.2 ⟨t, hta, bind_eq_ok.2 ⟨t', htb, congrArg Except.ok ?_⟩⟩
        by_cases ht : t = t' <;> simp [hn, hc, ht]
    · rw [if_pos (by simp [hc])]
      exact congrArg Except.ok (by simp [hc])
  · rw [if_pos (by simp [hn])]
    exact congrArg Except.ok (by simp [hn])

end Keys

/-! ## Taking the old entries -/

/-- The objects of an array; the codec leaves nothing else there than `null`. -/
def asObject : JsonElement → Option JsonObject
  | .object o => some o
  | _ => none

/-- The old entry has the key. -/
def fits (gson : Gson) (comments : Bool) (k : EntryKey) (e : JsonElement) : Bool :=
  (asObject e).any fun o => (entryKey gson comments o).toOption == some k

/-- Every object of the list has a key. -/
def Keyed (gson : Gson) (comments : Bool) (old : List JsonElement) : Prop :=
  ∀ o, .object o ∈ old → ∃ k, entryKey gson comments o = .ok k

section Taking

variable {gson : Gson} {comments : Bool} {old : List JsonElement} {combined : JsonObject}
    {k : EntryKey}

/-- An entry fits a key where it has it. -/
theorem fits_object {o : JsonObject} {k' : EntryKey} (h : entryKey gson comments o = .ok k') :
    fits gson comments k (.object o) = decide (k' = k) := by
  simp only [fits, asObject, Option.any_some, h]
  by_cases hk : k' = k <;> simp [hk, Except.toOption]

theorem fits_iff {e : JsonElement} : fits gson comments k e = true ↔ ∃ o, e = .object o ∧
    entryKey gson comments o = .ok k := by
  constructor
  · intro h
    cases e with
    | object o =>
      rcases hk : entryKey gson comments o with x | k'
      · simp [fits, asObject, hk, Except.toOption] at h
      · rw [fits_object hk, decide_eq_true_eq] at h
        exact ⟨o, rfl, by rw [← h, hk]⟩
    | _ => cases h
  · rintro ⟨o, rfl, ho⟩
    rw [fits_object ho, decide_eq_true_eq]

/-- The search finds the first old entry with the key. -/
theorem takeEntry_eq (hold : Keyed gson comments old)
    (hk : entryKey gson comments combined = .ok k) :
    takeEntry gson comments combined old =
      .ok (((old.find? (fits gson comments k)).bind asObject).map fun o =>
        (o, old.eraseP (fits gson comments k))) := by
  induction old with
  | nil => rfl
  | cons e old ih =>
    have ih := ih fun o ho => hold o (List.mem_cons_of_mem _ ho)
    cases e with
    | object o =>
      obtain ⟨k', ho⟩ := hold o List.mem_cons_self
      have hfits := fits_object (k := k) ho
      refine bind_eq_ok.2 ⟨_, sameEntry_eq ho hk, ?_⟩
      by_cases heq : k' = k
      · rw [if_pos (by simp [heq]), List.find?_cons_of_pos (by rw [hfits, heq]; simp),
          List.eraseP_cons_of_pos (by rw [hfits, heq]; simp)]
        rfl
      · rw [if_neg (by simp [heq]), List.find?_cons_of_neg (by rw [hfits]; simp [heq]),
          List.eraseP_cons_of_neg (by rw [hfits]; simp [heq])]
        refine bind_eq_ok.2 ⟨_, ih, congrArg Except.ok ?_⟩
        rw [Option.map_map]
        rfl
    | _ =>
      refine bind_eq_ok.2 ⟨_, ih, congrArg Except.ok ?_⟩
      rw [Option.map_map, List.find?_cons_of_neg (by simp [fits, asObject]),
        List.eraseP_cons_of_neg (by simp [fits, asObject])]
      rfl

end Taking

/-! ## The two kinds of records -/

/-- What the loop relies on of a kind of records: `Whole` ones are read as they were written, over
an old record with their key too, but for a text that they lack. -/
structure RecordKind (gson : Gson) (R : Type) where
  comments : Bool
  read : JsonObject → Except Throwable R
  toJson : R → JsonObject
  key : R → EntryKey
  text : R → Option JString
  withText : Option JString → R → R
  Whole : R → Prop
  /-- The members that the codec knows. -/
  fields : List JString
  names : ∀ r, ∀ e ∈ toJson r, e.1 ∈ fields
  nodup : ∀ r, ((toJson r).map Prod.fst).Nodup
  get_nodeRef : ∀ r, get (str "nodeRef") (toJson r) = (key r).nodeRef.map fun n => .object n.toJson
  get_codeRef : ∀ r, get (str "codeRef") (toJson r) = (key r).codeRef.map fun c => .object c.toJson
  name_object : ∀ r, ∀ e ∈ toJson r, ∀ x, e.2 = .object x → e.1 = str "nodeRef" ∨
    e.1 = str "codeRef"
  key_toJson : ∀ r, entryKey gson comments (toJson r) = .ok (key r)
  key_read : ∀ {o a}, read o = .ok a → ∃ k, entryKey gson comments o = .ok k ∧ (Whole a → k = key a)
  read_toJson : ∀ {r}, Whole r → read (toJson r) = .ok r
  read_preserved : ∀ {o a r}, read o = .ok a → entryKey gson comments o = .ok (key r) → Whole r →
    read (preserved o (toJson r)) = .ok (withText ((text r).or (text a)) r)
  key_withText : ∀ t r, key (withText t r) = key r
  whole_withText : ∀ {t r}, Whole r → Whole (withText t r)
  withText_eq : ∀ {t r}, withText t r = r ↔ t = text r

namespace RecordKind

variable {gson : Gson} {R : Type} (kind : RecordKind gson R)

/-- Every object of the list is a record. -/
def Readable (old : List JsonElement) : Prop := ∀ o, .object o ∈ old → ∃ a, kind.read o = .ok a

/-- The old record that a written one is laid over. -/
def oldRecord (old : List JsonElement) (r : R) : Option JsonObject :=
  (old.find? (fits gson kind.comments (kind.key r))).bind asObject

/-- The members of a record, laid over those of the old one with its key. -/
def laidOver (old : List JsonElement) (r : R) : JsonObject :=
  preserved ((kind.oldRecord old r).getD []) (kind.toJson r)

/-- Each record, laid over the old one with its key. -/
def laidEntries (old : List JsonElement) (rs : List R) : List JsonElement :=
  rs.map fun r => .object (kind.laidOver old r)

variable {kind} {old : List JsonElement} {r : R} {rs : List R}

/-- Entries that can be read have keys. -/
theorem Readable.keyed (h : kind.Readable old) : Keyed gson kind.comments old := by
  intro o ho
  obtain ⟨a, ha⟩ := h o ho
  obtain ⟨k, hk, -⟩ := kind.key_read ha
  exact ⟨k, hk⟩

/-- The old record that is found has the key, -/
theorem oldRecord_some {o : JsonObject} (h : kind.oldRecord old r = some o) :
    .object o ∈ old ∧ entryKey gson kind.comments o = .ok (kind.key r) := by
  obtain ⟨e, he, ho⟩ := Option.bind_eq_some_iff.1 h
  obtain ⟨o', rfl, hk⟩ := fits_iff.1 (List.find?_some he)
  obtain rfl := Option.some.inj ho
  exact ⟨List.mem_of_find?_eq_some he, hk⟩

/-- and where none is found, none has it. -/
theorem oldRecord_none (h : kind.oldRecord old r = none) {o : JsonObject} (ho : .object o ∈ old) :
    entryKey gson kind.comments o ≠ .ok (kind.key r) := by
  intro hk
  have hfits := (fits_object (k := kind.key r) hk).trans (decide_eq_true rfl)
  rcases hfind : old.find? (fits gson kind.comments (kind.key r)) with - | e
  · exact absurd hfits (List.find?_eq_none.1 hfind _ ho)
  · obtain ⟨o', rfl, -⟩ := fits_iff.1 (List.find?_some hfind)
    simp [oldRecord, hfind, asObject] at h

/-- The loop hands the old entries out. -/
theorem preserveEntries_handOut (hold : kind.Readable old) :
    preserveEntries gson kind.comments old (rs.map fun r => .object (kind.toJson r)) =
      .ok (handOut (fun r e => fits gson kind.comments (kind.key r) e)
        (fun r e => .object (preserved ((e.bind asObject).getD []) (kind.toJson r))) old rs) := by
  induction rs generalizing old with
  | nil => rfl
  | cons r rs ih =>
    refine bind_eq_ok.2 ⟨_, takeEntry_eq hold.keyed (kind.key_toJson r), ?_⟩
    rcases hfind : old.find? (fits gson kind.comments (kind.key r)) with - | e
    · refine bind_eq_ok.2 ⟨_, ih hold, congrArg Except.ok ?_⟩
      have herase : old.eraseP (fits gson kind.comments (kind.key r)) = old := by
        refine List.eraseP_of_forall_not fun e he hfits => ?_
        exact absurd hfits (List.find?_eq_none.1 hfind e he)
      rw [handOut, hfind, herase]
      dsimp only [Option.bind_none, Option.getD_none]
      rw [Gson.preserved_nil (kind.nodup r)]
    · obtain ⟨o, rfl, -⟩ := fits_iff.1 (List.find?_some hfind)
      refine bind_eq_ok.2 ⟨_, ih fun o' ho' => hold o' (List.mem_of_mem_eraseP ho'),
        congrArg Except.ok ?_⟩
      rw [handOut, hfind]
      rfl

/-- **Every record is laid over the first old one with its key**, where no two have the same. -/
theorem preserveEntries_eq (hold : kind.Readable old) (hapart : (rs.map kind.key).Nodup) :
    preserveEntries gson kind.comments old (rs.map fun r => .object (kind.toJson r)) = .ok
      (kind.laidEntries old rs) := by
  rw [preserveEntries_handOut hold, handOut_eq]
  · rfl
  · refine (List.pairwise_map.1 hapart).imp fun {r r'} hne e _ hfits' => ?_
    by_contra hfits
    rw [Bool.not_eq_false] at hfits
    obtain ⟨o, rfl, hk⟩ := fits_iff.1 hfits
    obtain ⟨o', heq, hk'⟩ := fits_iff.1 hfits'
    obtain rfl := JsonElement.object.inj heq
    exact hne (Except.ok.inj (hk.symm.trans hk'))

/-! ### What is laid over -/

/-- **What is read of a record that was laid**: the record, or the text of the old one. -/
theorem read_laidOver (hold : kind.Readable old) (hwhole : kind.Whole r) :
    ∃ t, kind.read (kind.laidOver old r) = .ok (kind.withText t r) ∧
      match kind.oldRecord old r with
      | none => t = kind.text r
      | some o => ∃ a, kind.read o = .ok a ∧ t = (kind.text r).or (kind.text a) := by
  unfold laidOver
  rcases hfound : kind.oldRecord old r with - | o
  · refine ⟨kind.text r, ?_, rfl⟩
    dsimp only [Option.getD_none]
    rw [Gson.preserved_nil (kind.nodup r), kind.read_toJson hwhole, kind.withText_eq.2 rfl]
  · obtain ⟨ho, hk⟩ := oldRecord_some hfound
    obtain ⟨a, ha⟩ := hold o ho
    exact ⟨_, kind.read_preserved ha hk hwhole, a, ha, rfl⟩

/-- It has the key of the record. -/
theorem key_laidOver (hold : kind.Readable old) (hwhole : kind.Whole r) :
    entryKey gson kind.comments (kind.laidOver old r) = .ok (kind.key r) := by
  obtain ⟨t, hread, -⟩ := read_laidOver hold hwhole
  obtain ⟨k, hk, heq⟩ := kind.key_read hread
  rw [hk, heq (kind.whole_withText hwhole), kind.key_withText]

/-- All that was laid can be read. -/
theorem readable_laid (hold : kind.Readable old) (hwhole : ∀ r ∈ rs, kind.Whole r) :
    kind.Readable (kind.laidEntries old rs) := by
  intro o ho
  obtain ⟨r, hr, heq⟩ := List.mem_map.1 ho
  obtain rfl := JsonElement.object.inj heq
  obtain ⟨t, hread, -⟩ := read_laidOver hold (hwhole r hr)
  exact ⟨_, hread⟩

theorem nodup_reference {e : JString × JsonElement} (he : e ∈ kind.toJson r) (x : JsonObject)
    (hx : e.2 = .object x) :
    (x.map Prod.fst).Nodup := by
  have hget := get_of_mem (kind.nodup r) he
  rcases kind.name_object r e he x hx with hname | hname
  · rw [hname, kind.get_nodeRef] at hget
    obtain ⟨n, -, hn⟩ := Option.map_eq_some_iff.1 hget
    obtain rfl := JsonElement.object.inj (hn.trans hx)
    exact Gson.nodup_nodeRef n
  · rw [hname, kind.get_codeRef] at hget
    obtain ⟨c, -, hc⟩ := Option.map_eq_some_iff.1 hget
    obtain rfl := JsonElement.object.inj (hc.trans hx)
    exact Gson.nodup_codeRef c

/-- Laying a member over what it was laid over changes nothing. -/
theorem preservedMember_again {name : JString} {v : JsonElement}
    (h : ∀ reference, v = .object reference → (reference.map Prod.fst).Nodup)
    (x : Option JsonElement) :
    preservedMember name (some (preservedMember name x v)) v = preservedMember name x v := by
  unfold preservedMember
  by_cases hname : name = str "nodeRef" ∨ name = str "codeRef"
  · rw [if_pos hname, if_pos hname]
    cases v with
    | object reference =>
      have hself : merge (fun _ _ field => field) reference reference = reference :=
        merge_eq_self fun e he => get_of_mem (h _ rfl) he
      have hagain : ∀ o : JsonObject, merge (fun _ _ field => field)
          (merge (fun _ _ field => field) o reference) reference =
          merge (fun _ _ field => field) o reference := fun o =>
            merge_merge (fun _ _ _ => rfl) (h _ rfl)
      cases x with
      | none =>
        dsimp only
        rw [hself]
      | some x =>
        cases x with
        | object o =>
          dsimp only
          rw [hagain]
        | _ =>
          dsimp only
          rw [hself]
    | _ => simp
  · rw [if_neg hname, if_neg hname]

/-- Laying a record twice is laying it once. -/
theorem laidOver_again (r : R) (o : JsonObject) :
    preserved (preserved o (kind.toJson r)) (kind.toJson r) = preserved o (kind.toJson r) :=
  merge_merge (fun _ he x => preservedMember_again (nodup_reference he) x) (kind.nodup r)

/-- In the list that was written the search finds what was written. -/
theorem oldRecord_laid (hold : kind.Readable old) (hwhole : ∀ r ∈ rs, kind.Whole r)
    (hapart : (rs.map kind.key).Nodup)
    (hr : r ∈ rs) : kind.oldRecord (kind.laidEntries old rs) r = some (kind.laidOver old r) := by
  rcases hfound : kind.oldRecord (kind.laidEntries old rs) r with - | o
  · exact absurd (key_laidOver hold (hwhole r hr)) (oldRecord_none hfound (List.mem_map_of_mem hr))
  · obtain ⟨ho, hk⟩ := oldRecord_some hfound
    obtain ⟨r', hr', heq⟩ := List.mem_map.1 ho
    obtain rfl := JsonElement.object.inj heq
    rw [key_laidOver hold (hwhole r' hr')] at hk
    rw [List.inj_on_of_nodup_map hapart hr' hr (Except.ok.inj hk)]

/-- **A second pass writes what is there.** -/
theorem laidEntries_again (hold : kind.Readable old) (hwhole : ∀ r ∈ rs, kind.Whole r)
    (hapart : (rs.map kind.key).Nodup) :
    kind.laidEntries (kind.laidEntries old rs) rs = kind.laidEntries old rs := by
  refine List.map_congr_left fun r hr => congrArg JsonElement.object ?_
  rw [laidOver, oldRecord_laid hold hwhole hapart hr, Option.getD_some]
  exact laidOver_again r _

/-! ### Texts -/

/-- The keys of the old records differ. -/
def Apart (kind : RecordKind gson R) (old : List JsonElement) : Prop :=
  ((old.filterMap asObject).map (entryKey gson kind.comments)).Nodup

/-- A record without a text is laid over none that has one. -/
def TextsWritten (kind : RecordKind gson R) (old : List JsonElement) (rs : List R) : Prop :=
  ∀ r ∈ rs, kind.text r = none → ∀ o, .object o ∈ old → entryKey gson kind.comments o = .ok
    (kind.key r) →
    ∀ a, kind.read o = .ok a → kind.text a = none

/-- Where no two old entries have one key, the one that has it is found. -/
theorem oldRecord_apart (hapart : kind.Apart old) {o : JsonObject} (ho : .object o ∈ old)
    (hk : entryKey gson kind.comments o = .ok (kind.key r)) : kind.oldRecord old r = some o := by
  rcases hfound : kind.oldRecord old r with - | o'
  · exact absurd hk (oldRecord_none hfound ho)
  · obtain ⟨ho', hk'⟩ := oldRecord_some hfound
    have hin : o ∈ old.filterMap asObject := List.mem_filterMap.2 ⟨_, ho, rfl⟩
    have hin' : o' ∈ old.filterMap asObject := List.mem_filterMap.2 ⟨_, ho', rfl⟩
    rw [List.inj_on_of_nodup_map hapart hin' hin (hk'.trans hk.symm)]

/-- **What is written is read as it was**, but for the texts that show through. -/
theorem read_laidOver_iff (hold : kind.Readable old) (hapart : kind.Apart old)
    (hwhole : ∀ r ∈ rs, kind.Whole r) :
    (∀ r ∈ rs, kind.read (kind.laidOver old r) = .ok r) ↔ kind.TextsWritten old rs := by
  constructor
  · intro h r hr htext o ho hk a ha
    obtain ⟨t, hread, ht⟩ := read_laidOver hold (hwhole r hr)
    rw [oldRecord_apart hapart ho hk] at ht
    obtain ⟨a', ha', rfl⟩ := ht
    obtain rfl := Except.ok.inj (ha.symm.trans ha')
    have hsame := kind.withText_eq.1 (Except.ok.inj (hread.symm.trans (h r hr)))
    rwa [htext, Option.none_or] at hsame
  · intro h r hr
    obtain ⟨t, hread, ht⟩ := read_laidOver hold (hwhole r hr)
    rw [hread, kind.withText_eq.2]
    rcases hfound : kind.oldRecord old r with - | o
    · rwa [hfound] at ht
    · rw [hfound] at ht
      obtain ⟨a, ha, rfl⟩ := ht
      rcases htext : kind.text r with - | text
      · obtain ⟨ho, hk⟩ := oldRecord_some hfound
        rw [Option.none_or, h r hr htext o ho hk a ha]
      · rfl

end RecordKind

/-! ### Renames and comments -/

section Kinds

variable {gson : Gson} {o : JsonObject}

theorem mem_written {n : String} {v : Option JsonElement} {e : JString × JsonElement} :
    e ∈ Gson.written n v ↔ ∃ j, v = some j ∧ e = (str n, j) := by
  cases v with
  | none => simp [Gson.written]
  | some j => simp [Gson.written]

/-- A reference that is written is read as it was. -/
theorem readRef_written {R : Type} {read : JsonObject → Except Throwable R}
    {toJson : R → JsonObject} {name : JString}
    {new : JsonObject} {m : Option R} (hround : ∀ r, read (toJson r) = .ok r)
    (h : get name new = m.map fun r => .object (toJson r)) :
    Gson.readMember name (Gson.readObject read) none new = .ok m := by
  rw [Gson.readMember, h]
  cases m with
  | none => rfl
  | some r => exact congrArg (Except.map some) (hround r)

/-- The style of a comment that can be read. -/
theorem commentStyle_read {s : Option CommentStyle}
    (h : Gson.readMember (str "style") (gson.readEnum CommentStyle.all CommentStyle.name)
      (some .LINE) o = .ok s) :
    ∃ text, commentStyle gson o = .ok text ∧ ∀ style, s = some style → text = style.name := by
  unfold commentStyle
  rw [Gson.readMember] at h
  rcases hget : get (str "style") o with - | j
  · rw [hget] at h
    refine ⟨_, rfl, fun style hstyle => ?_⟩
    rw [hstyle] at h
    obtain rfl := Option.some.inj (Except.ok.inj h)
    rfl
  · rw [hget] at h
    dsimp only at h
    unfold Gson.readEnum at h
    rcases hname : gson.readName j with e | text
    · rw [hname] at h
      cases h
    · rw [hname] at h
      have hs := Except.ok.inj h
      cases text with
      | none =>
        obtain rfl := gson.readName_none hname
        refine ⟨_, rfl, fun style hstyle => ?_⟩
        rw [hstyle] at hs
        cases hs
      | some text =>
        have htext := gson.readName_some hname
        have hnull : j ≠ .null := by
          rintro rfl
          rw [gson.readName_null] at hname
          cases Except.ok.inj hname
        refine ⟨text, by cases j <;> first | exact absurd rfl hnull | exact htext, fun style hstyle => ?_⟩
        rw [hstyle] at hs
        have hfound := List.find?_some (p := fun a : CommentStyle => a.name == text) hs
        exact (beq_iff_eq.1 hfound).symm

/-- The style of a comment that is written. -/
theorem commentStyle_written {new : JsonObject} {s : Option CommentStyle}
    (h : get (str "style") new = s.map fun s => .string s.name) :
    commentStyle gson new = .ok (s.getD .LINE).name := by
  unfold commentStyle
  rw [h]
  cases s with
  | none => rfl
  | some s => exact gson.readName_some (gson.readName_string _)

/-- The key of an entry that is read as a rename. -/
theorem key_readRename {a : JadxCodeRename} (h : gson.readRename o = .ok a) :
    entryKey gson false o = .ok ⟨a.nodeRef, a.codeRef, none⟩ := by
  obtain ⟨n, hn, h⟩ := bind_eq_ok.1 h
  obtain ⟨c, hc, h⟩ := bind_eq_ok.1 h
  obtain ⟨t, -, h⟩ := bind_eq_ok.1 h
  obtain rfl := Except.ok.inj h
  exact entryKey_eq.2 ⟨hn, hc, rfl⟩

/-- The key of an entry that is read as a comment. -/
theorem key_readComment {a : JadxCodeComment} (h : gson.readComment o = .ok a) :
    ∃ text, entryKey gson true o = .ok ⟨a.nodeRef, a.codeRef, some text⟩ ∧
      ∀ style, a.style = some style → text = style.name := by
  obtain ⟨n, hn, h⟩ := bind_eq_ok.1 h
  obtain ⟨c, hc, h⟩ := bind_eq_ok.1 h
  obtain ⟨t, -, h⟩ := bind_eq_ok.1 h
  obtain ⟨s, hs, h⟩ := bind_eq_ok.1 h
  obtain rfl := Except.ok.inj h
  obtain ⟨text, htext, hstyle⟩ := commentStyle_read hs
  refine ⟨text, entryKey_eq.2 ⟨hn, hc, ?_⟩, hstyle⟩
  exact congrArg (Except.map some) htext

variable (gson)

/-- The renames. -/
def renameKind : RecordKind gson JadxCodeRename where
  comments := false
  read := gson.readRename
  toJson := JadxCodeRename.toJson
  key := renameKey
  text := JadxCodeRename.newName
  withText t r := { r with newName := t }
  Whole _ := True
  fields := [str "nodeRef", str "codeRef", str "newName"]
  names r e he := by
    simp only [JadxCodeRename.toJson, List.mem_append, mem_written] at he
    rcases he with (⟨_, -, rfl⟩ | ⟨_, -, rfl⟩) | ⟨_, -, rfl⟩ <;> simp
  nodup := Gson.nodup_rename
  get_nodeRef r := (Gson.get_rename r).1
  get_codeRef r := (Gson.get_rename r).2.1
  name_object r e he x hx := by
    simp only [JadxCodeRename.toJson, List.mem_append, mem_written, Option.map_eq_some_iff] at he
    rcases he with (⟨_, _, rfl⟩ | ⟨_, _, rfl⟩) | ⟨_, ⟨_, _, rfl⟩, rfl⟩
    · exact .inl rfl
    · exact .inr rfl
    · cases hx
  key_toJson r := by
    obtain ⟨hn, hc, -⟩ := Gson.get_rename r
    exact entryKey_eq.2 ⟨readRef_written Gson.readNodeRef_toJson hn,
      readRef_written Gson.readCodeRef_toJson hc, rfl⟩
  key_read h := ⟨_, key_readRename h, fun _ => rfl⟩
  read_toJson {r} _ := Gson.readRename_toJson r
  read_preserved {o a r} ha hk _ := by
    have hkey := Except.ok.inj ((key_readRename ha).symm.trans hk)
    exact Gson.readRename_preserved ha r (.inl (congrArg EntryKey.nodeRef hkey).symm)
      (.inl (congrArg EntryKey.codeRef hkey).symm)
  key_withText _ _ := rfl
  whole_withText _ := trivial
  withText_eq {t r} := by
    obtain ⟨n, c, t'⟩ := r
    simp

/-- The comments. -/
def commentKind : RecordKind gson JadxCodeComment where
  comments := true
  read := gson.readComment
  toJson := JadxCodeComment.toJson
  key := commentKey
  text := JadxCodeComment.comment
  withText t c := { c with comment := t }
  Whole c := c.style ≠ none
  fields := [str "nodeRef", str "codeRef", str "comment", str "style"]
  names c e he := by
    simp only [JadxCodeComment.toJson, List.mem_append, mem_written] at he
    rcases he with ((⟨_, -, rfl⟩ | ⟨_, -, rfl⟩) | ⟨_, -, rfl⟩) | ⟨_, -, rfl⟩ <;> simp
  nodup := Gson.nodup_comment
  get_nodeRef c := (Gson.get_comment c).1
  get_codeRef c := (Gson.get_comment c).2.1
  name_object c e he x hx := by
    simp only [JadxCodeComment.toJson, List.mem_append, mem_written, Option.map_eq_some_iff] at he
    rcases he with ((⟨_, _, rfl⟩ | ⟨_, _, rfl⟩) | ⟨_, ⟨_, _, rfl⟩, rfl⟩) | ⟨_, ⟨_, _, rfl⟩, rfl⟩
    · exact .inl rfl
    · exact .inr rfl
    · cases hx
    · cases hx
  key_toJson c := by
    obtain ⟨hn, hc, -, hs⟩ := Gson.get_comment c
    refine entryKey_eq.2 ⟨readRef_written Gson.readNodeRef_toJson hn,
      readRef_written Gson.readCodeRef_toJson hc, ?_⟩
    exact congrArg (Except.map some) (commentStyle_written hs)
  key_read {o a} h := by
    obtain ⟨text, hk, hstyle⟩ := key_readComment h
    refine ⟨_, hk, fun hwhole => ?_⟩
    obtain ⟨style, hs⟩ := Option.ne_none_iff_exists'.1 hwhole
    rw [commentKey, hs, hstyle style hs]
    rfl
  read_toJson {c} hwhole := by
    obtain ⟨style, hs⟩ := Option.ne_none_iff_exists'.1 hwhole
    rw [Gson.readComment_toJson, hs]
    obtain ⟨n, r, t, s⟩ := c
    obtain rfl : s = some style := hs
    rfl
  read_preserved {o a c} ha hk hwhole := by
    obtain ⟨text, hk', -⟩ := key_readComment ha
    have hkey := Except.ok.inj (hk'.symm.trans hk)
    rw [Gson.readComment_preserved ha c (.inl (congrArg EntryKey.nodeRef hkey).symm)
      (.inl (congrArg EntryKey.codeRef hkey).symm)]
    obtain ⟨style, hs⟩ := Option.ne_none_iff_exists'.1 hwhole
    obtain ⟨n, r, t, s⟩ := c
    obtain rfl : s = some style := hs
    rfl
  key_withText _ _ := rfl
  whole_withText h := h
  withText_eq {t c} := by
    obtain ⟨n, r, t', s⟩ := c
    simp

end Kinds

end NativeProjectDocument

end Libjadx
