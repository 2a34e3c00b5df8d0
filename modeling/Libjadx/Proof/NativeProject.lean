import Libjadx.Lib.Locked
import Libjadx.Spec.NativeProject

/-!
# Reading what an edit writes

* `readNodeRef_over`, `readCodeRef_over`: what a reference that is laid over another one reads as.
* `readRename_preserved`, `readComment_preserved`: what a record reads as after it was laid over an
  old one.
-/

namespace Libjadx

open Members

/-! ## Reading what was written -/

namespace Gson

section Fields

variable {gson : Gson} {α : Type} {name : JString}
    {read : JsonElement → Except Throwable (Option α)} {dflt : Option α}

/-- An object is read, or a `null`. -/
theorem readObject_cases {R : Type} {read : JsonObject → Except Throwable R} {j : JsonElement}
    {n : Option R}
    (h : readObject read j = .ok n) : (j = .null ∧ n = none) ∨ ∃ o r, j = .object o ∧
    read o = .ok r ∧ n = some r := by
  cases j with
  | null => exact .inl ⟨rfl, (Except.ok.inj h).symm⟩
  | object o =>
    dsimp only [readObject] at h
    rcases hr : read o with e | r
    · rw [hr] at h
      cases h
    · rw [hr] at h
      exact .inr ⟨o, r, rfl, hr, (Except.ok.inj h).symm⟩
  | _ => cases h

/-- A member of merged objects is read as the merge left it. -/
theorem readMember_merge {f : JString → Option JsonElement → JsonElement → JsonElement}
    {old new : JsonObject} (hnew : (new.map Prod.fst).Nodup) :
    readMember name read dflt (merge f old new) = match get name new with
      | some v => read (f name (get name old) v)
      | none => readMember name read dflt old := by
  unfold readMember
  rw [get_merge hnew]
  cases get name new <;> rfl

theorem get_written (n m : String) (v : Option JsonElement) :
    get (str n) (written m v) = if str m = str n then v else none := by
  cases v with
  | none =>
    rw [written]
    split <;> rfl
  | some v => rfl

theorem find_refType (t : RefType) : (RefType.all.find? fun a => a.name == t.name) = some t := by
  cases t <;> decide

theorem find_codeRefType (t : CodeRefType) :
    (CodeRefType.all.find? fun a => a.name == t.name) = some t := by
  cases t <;> decide

theorem find_style (t : CommentStyle) :
    (CommentStyle.all.find? fun a => a.name == t.name) = some t := by
  cases t <;> decide

/-- What an enumeration writes it reads. -/
theorem readEnum_name {all : List α} {text : α → JString} {a : α}
    (h : (all.find? fun b => text b == text a) = some a) :
    gson.readEnum all text (.string (text a)) = .ok (some a) := by
  unfold readEnum
  rw [gson.readName_string]
  exact congrArg Except.ok h

end Fields

/-! ### References -/

section References

variable {gson : Gson} {o : JsonObject}

/-- The fields are laid over as they are. -/
def overlaid (o new : JsonObject) : JsonObject := merge (fun _ _ field => field) o new

theorem nodup_nodeRef (r : JadxNodeRef) : (r.toJson.map Prod.fst).Nodup := by
  obtain ⟨t, d, s⟩ := r
  cases t <;> cases d <;> cases s <;> simp [JadxNodeRef.toJson, written] <;> decide

theorem nodup_codeRef (r : JadxCodeRef) : (r.toJson.map Prod.fst).Nodup := by
  obtain ⟨t, i⟩ := r
  cases t <;> simp [JadxCodeRef.toJson, written]
  decide

theorem get_nodeRef (r : JadxNodeRef) :
    get (str "refType") r.toJson = r.refType.map (fun t => .string t.name) ∧
    get (str "declClass") r.toJson = r.declClass.map .string ∧
      get (str "shortId") r.toJson = r.shortId.map .string := by
  refine ⟨?_, ?_, ?_⟩ <;> simp +decide [JadxNodeRef.toJson, get_append, get_written]

theorem get_codeRef (r : JadxCodeRef) :
    get (str "attachType") r.toJson = r.attachType.map (fun t => .string t.name) ∧
      get (str "index") r.toJson = some (.number (decimal r.index.toInt)) := by
  refine ⟨?_, ?_⟩ <;> simp +decide [JadxCodeRef.toJson, get_append, get_written]

/-- A reference that is laid over another one: what it does not have shows through. -/
theorem readNodeRef_over {q : JadxNodeRef} (h : gson.readNodeRef o = .ok q) (r : JadxNodeRef) :
    gson.readNodeRef (overlaid o r.toJson) =
      .ok ⟨r.refType.or q.refType, r.declClass.or q.declClass, r.shortId.or q.shortId⟩ := by
  obtain ⟨t, ht, h⟩ := bind_eq_ok.1 h
  obtain ⟨d, hd, h⟩ := bind_eq_ok.1 h
  obtain ⟨s, hs, h⟩ := bind_eq_ok.1 h
  obtain rfl := Except.ok.inj h
  have hnew := nodup_nodeRef r
  obtain ⟨hgt, hgd, hgs⟩ := get_nodeRef r
  refine bind_eq_ok.2 ⟨r.refType.or t, ?_, bind_eq_ok.2 ⟨r.declClass.or d, ?_,
    bind_eq_ok.2 ⟨r.shortId.or s, ?_, rfl⟩⟩⟩
  · rw [overlaid, readMember_merge hnew, hgt]
    cases r.refType with
    | none => exact ht
    | some t => exact readEnum_name (find_refType t)
  · rw [overlaid, readMember_merge hnew, hgd]
    cases r.declClass with
    | none => exact hd
    | some d => exact gson.readString_string d
  · rw [overlaid, readMember_merge hnew, hgs]
    cases r.shortId with
    | none => exact hs
    | some s => exact gson.readString_string s

/-- A reference to code that is laid over another one. -/
theorem readCodeRef_over {q : JadxCodeRef} (h : gson.readCodeRef o = .ok q) (r : JadxCodeRef) :
    gson.readCodeRef (overlaid o r.toJson) = .ok ⟨r.attachType.or q.attachType, r.index⟩ := by
  obtain ⟨t, ht, h⟩ := bind_eq_ok.1 h
  obtain ⟨i, hi, h⟩ := bind_eq_ok.1 h
  obtain rfl := Except.ok.inj h
  have hnew := nodup_codeRef r
  obtain ⟨hgt, hgi⟩ := get_codeRef r
  refine bind_eq_ok.2 ⟨r.attachType.or t, ?_, bind_eq_ok.2 ⟨some r.index, ?_, rfl⟩⟩
  · rw [overlaid, readMember_merge hnew, hgt]
    cases r.attachType with
    | none => exact ht
    | some t => exact readEnum_name (find_codeRefType t)
  · rw [overlaid, readMember_merge hnew, hgi]
    exact gson.readInt_number r.index

theorem overlaid_nil {new : JsonObject} (h : (new.map Prod.fst).Nodup) : overlaid [] new = new :=
  merge_nil (fun _ _ => rfl) h

/-- A reference to a node is read back, -/
theorem readNodeRef_toJson (r : JadxNodeRef) : gson.readNodeRef r.toJson = .ok r := by
  have hread := @readNodeRef_over gson [] ⟨none, none, none⟩ rfl r
  rw [overlaid_nil (nodup_nodeRef r)] at hread
  simpa using hread

/-- and one to code. -/
theorem readCodeRef_toJson (r : JadxCodeRef) : gson.readCodeRef r.toJson = .ok r := by
  have hread := @readCodeRef_over gson [] ⟨none, 0⟩ rfl r
  rw [overlaid_nil (nodup_codeRef r)] at hread
  simpa using hread

end References

/-! ### Members of a record -/

section Laid

open NativeProjectDocument

variable {R : Type} {read : JsonObject → Except Throwable R} {toJson : R → JsonObject}
    {name : JString} {o new : JsonObject}

/-- A reference of a record that is laid over one with the same reference, or with none. -/
theorem readRef_preserved (hover : ∀ {x r}, read x = .ok r → read (overlaid x (toJson r)) = .ok r)
    (hround : ∀ r, read (toJson r) = .ok r) (hname : name = str "nodeRef" ∨ name = str "codeRef")
    (hnodup : (new.map Prod.fst).Nodup) {m n : Option R}
    (hold : readMember name (readObject read) none o = .ok n)
    (hnew : get name new = m.map fun r => .object (toJson r)) (hsame : m = n ∨ get name o = none) :
    readMember name (readObject read) none (preserved o new) = .ok m := by
  rw [preserved, readMember_merge hnodup, hnew]
  cases m with
  | none =>
    rcases hsame with rfl | hnone
    · exact hold
    · dsimp only [Option.map_none]
      rw [readMember, hnone]
  | some r =>
    dsimp only [Option.map_some]
    unfold preservedMember
    rw [if_pos hname]
    rcases hget : get name o with - | j
    · exact congrArg (Except.map some) (hround r)
    · rw [readMember, hget] at hold
      rcases readObject_cases hold with ⟨rfl, -⟩ | ⟨x, q, rfl, hq, hqn⟩
      · exact congrArg (Except.map some) (hround r)
      · have hr : r = q := by
          rcases hsame with hsame | hnone
          · rw [hqn] at hsame
            exact Option.some.inj hsame
          · rw [hget] at hnone
            cases hnone
        subst hr
        exact congrArg (Except.map some) (hover hq)

theorem preserved_nil (h : (new.map Prod.fst).Nodup) : preserved [] new = new := by
  refine merge_nil (fun name v => ?_) h
  unfold preservedMember
  split <;> rfl

end Laid

/-! ### Records -/

section Records

open NativeProjectDocument

variable {gson : Gson} {o : JsonObject}

theorem nodup_rename (r : JadxCodeRename) : (r.toJson.map Prod.fst).Nodup := by
  obtain ⟨n, c, t⟩ := r
  cases n <;> cases c <;> cases t <;> simp +decide [JadxCodeRename.toJson, written]

theorem nodup_comment (c : JadxCodeComment) : (c.toJson.map Prod.fst).Nodup := by
  obtain ⟨n, r, t, s⟩ := c
  cases n <;> cases r <;> cases t <;> cases s <;> simp +decide [JadxCodeComment.toJson, written]

theorem get_rename (r : JadxCodeRename) :
    get (str "nodeRef") r.toJson = r.nodeRef.map (fun n => .object n.toJson) ∧
      get (str "codeRef") r.toJson = r.codeRef.map (fun c => .object c.toJson) ∧
      get (str "newName") r.toJson = r.newName.map .string := by
  refine ⟨?_, ?_, ?_⟩ <;> simp +decide [JadxCodeRename.toJson, get_append, get_written]

theorem get_comment (c : JadxCodeComment) :
    get (str "nodeRef") c.toJson = c.nodeRef.map (fun n => .object n.toJson) ∧
      get (str "codeRef") c.toJson = c.codeRef.map (fun r => .object r.toJson) ∧
      get (str "comment") c.toJson = c.comment.map .string ∧
      get (str "style") c.toJson = c.style.map fun s => .string s.name := by
  refine ⟨?_, ?_, ?_, ?_⟩ <;> simp +decide [JadxCodeComment.toJson, get_append, get_written]

/-- Over what is read as itself a reference stays. -/
theorem readNodeRef_same {x : JsonObject} {r : JadxNodeRef} (h : gson.readNodeRef x = .ok r) :
    gson.readNodeRef (overlaid x r.toJson) = .ok r := by
  rw [readNodeRef_over h]
  simp

theorem readCodeRef_same {x : JsonObject} {r : JadxCodeRef} (h : gson.readCodeRef x = .ok r) :
    gson.readCodeRef (overlaid x r.toJson) = .ok r := by
  rw [readCodeRef_over h]
  simp

/-- A member that is no reference is written as it is. -/
theorem readPlain_preserved {α : Type} {name : JString}
    {read : JsonElement → Except Throwable (Option α)}
    {dflt a : Option α} {new : JsonObject} (hname : ¬ (name = str "nodeRef" ∨ name = str "codeRef"))
    (hnodup : (new.map Prod.fst).Nodup) (hold : readMember name read dflt o = .ok a) {b : Option α}
    {write : α → JsonElement}
    (hwrite : ∀ x, read (write x) = .ok (some x)) (hnew : get name new = b.map write) :
    readMember name read dflt (preserved o new) = .ok (b.or a) := by
  rw [preserved, readMember_merge hnodup, hnew]
  cases b with
  | none => exact hold
  | some x =>
    dsimp only [Option.map_some]
    unfold preservedMember
    rw [if_neg hname]
    exact hwrite x

/-- **A rename that is laid over an old record with its references.** Where it has no name, the old
one shows through. -/
theorem readRename_preserved {a : JadxCodeRename} (h : gson.readRename o = .ok a)
    (b : JadxCodeRename)
    (hn : b.nodeRef = a.nodeRef ∨ get (str "nodeRef") o = none)
    (hc : b.codeRef = a.codeRef ∨ get (str "codeRef") o = none) :
    gson.readRename (preserved o b.toJson) = .ok ⟨b.nodeRef, b.codeRef, b.newName.or a.newName⟩ := by
  obtain ⟨n, hnode, h⟩ := bind_eq_ok.1 h
  obtain ⟨c, hcode, h⟩ := bind_eq_ok.1 h
  obtain ⟨t, htext, h⟩ := bind_eq_ok.1 h
  obtain rfl := Except.ok.inj h
  have hnodup := nodup_rename b
  obtain ⟨hgn, hgc, hgt⟩ := get_rename b
  refine bind_eq_ok.2 ⟨b.nodeRef, ?_,
    bind_eq_ok.2 ⟨b.codeRef, ?_, bind_eq_ok.2 ⟨b.newName.or t, ?_, rfl⟩⟩⟩
  · exact readRef_preserved readNodeRef_same readNodeRef_toJson (.inl rfl) hnodup hnode hgn hn
  · exact readRef_preserved readCodeRef_same readCodeRef_toJson (.inr rfl) hnodup hcode hgc hc
  · exact readPlain_preserved (by decide) hnodup htext gson.readString_string hgt

/-- **A comment that is laid over an old record with its references.** -/
theorem readComment_preserved {a : JadxCodeComment} (h : gson.readComment o = .ok a)
    (b : JadxCodeComment)
    (hn : b.nodeRef = a.nodeRef ∨ get (str "nodeRef") o = none)
    (hc : b.codeRef = a.codeRef ∨ get (str "codeRef") o = none) :
    gson.readComment (preserved o b.toJson) =
      .ok ⟨b.nodeRef, b.codeRef, b.comment.or a.comment, b.style.or a.style⟩ := by
  obtain ⟨n, hnode, h⟩ := bind_eq_ok.1 h
  obtain ⟨c, hcode, h⟩ := bind_eq_ok.1 h
  obtain ⟨t, htext, h⟩ := bind_eq_ok.1 h
  obtain ⟨s, hstyle, h⟩ := bind_eq_ok.1 h
  obtain rfl := Except.ok.inj h
  have hnodup := nodup_comment b
  obtain ⟨hgn, hgc, hgt, hgs⟩ := get_comment b
  refine bind_eq_ok.2 ⟨b.nodeRef, ?_, bind_eq_ok.2 ⟨b.codeRef, ?_, bind_eq_ok.2 ⟨b.comment.or t, ?_,
    bind_eq_ok.2 ⟨b.style.or s, ?_, rfl⟩⟩⟩⟩
  · exact readRef_preserved readNodeRef_same readNodeRef_toJson (.inl rfl) hnodup hnode hgn hn
  · exact readRef_preserved readCodeRef_same readCodeRef_toJson (.inr rfl) hnodup hcode hgc hc
  · exact readPlain_preserved (by decide) hnodup htext gson.readString_string hgt
  · exact readPlain_preserved (by decide) hnodup hstyle (fun x => readEnum_name (find_style x)) hgs

/-- A rename is read back. -/
theorem readRename_toJson (b : JadxCodeRename) : gson.readRename b.toJson = .ok b := by
  have hread := @readRename_preserved gson [] ⟨none, none, none⟩ rfl b (.inr rfl) (.inr rfl)
  rw [preserved_nil (nodup_rename b)] at hread
  simpa using hread

/-- A comment without a style is read as one of the style `LINE`. -/
theorem readComment_toJson (b : JadxCodeComment) :
    gson.readComment b.toJson = .ok { b with style := b.style.or (some .LINE) } := by
  have hread := @readComment_preserved gson [] ⟨none, none, none, some .LINE⟩ rfl b
    (.inr rfl) (.inr rfl)
  rw [preserved_nil (nodup_comment b)] at hread
  simpa using hread

end Records

end Gson

end Libjadx
