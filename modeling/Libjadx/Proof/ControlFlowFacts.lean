import Libjadx.Proof.ControlFlow

/-!
# Published control-flow facts

* `resolveUses_sound`, `tries_sound`: the switches and the tries, from a decoder that has the
  records.
* `facts_well_formed`: what is published is well formed, and nothing is where the decoder gives up.
-/

namespace Libjadx

open ControlFlowFacts

namespace JadxControlFlowAdapter

open DexCode

variable {code : DexCode} {units : ℕ} {d : Decoder}

/-! ## Switches -/

/-- The cases of a switch have targets that are instructions, and ascending keys. -/
theorem readCases_sound {packed : Bool} {offset count n i : ℕ} {data : List UInt8}
    {previous : Option ℤ} {cases : List Case}
    (h : readCases units d packed offset count data n i previous = .ok cases) :
    cases.length = n ∧ (∀ c ∈ cases, c.target ∈ d.starts ∧ -0x80000000 ≤ c.key ∧
      c.key ≤ 0x7FFFFFFF) ∧
      cases.Pairwise (·.key < ·.key) ∧ ∀ p ∈ previous, ∀ c ∈ cases, p < c.key := by
  induction n generalizing i previous cases with
  | zero =>
    obtain rfl := Except.ok.inj h
    exact ⟨rfl, List.forall_mem_nil _, .nil, fun _ _ => List.forall_mem_nil _⟩
  | succ n ih =>
    rw [readCases] at h
    obtain ⟨key, -, h₁⟩ := bind_eq_ok.1 h
    obtain ⟨_, hkey, h₂⟩ := bind_eq_ok.1 h₁
    obtain ⟨delta, -, h₃⟩ := bind_eq_ok.1 h₂
    obtain ⟨target, -, h₄⟩ := bind_eq_ok.1 h₃
    obtain ⟨_, hstart, h₅⟩ := bind_eq_ok.1 h₄
    obtain ⟨rest, hrest, h₆⟩ := bind_eq_ok.1 h₅
    obtain rfl := Except.ok.inj h₆
    obtain ⟨hlength, htargets, hpairwise, hlater⟩ := ih hrest
    have hrange := require_eq_ok.1 hkey
    rw [Bool.and_eq_true, Bool.and_eq_true, decide_eq_true_eq, decide_eq_true_eq,
      Option.all_eq_true] at hrange
    obtain ⟨⟨hmin, hmax⟩, hprevious⟩ := hrange
    have hbehind : ∀ c ∈ rest, key < c.key := hlater key rfl
    refine ⟨congrArg Nat.succ hlength, ?_, .cons hbehind hpairwise, fun p hp => ?_⟩
    · exact List.forall_mem_cons.2 ⟨⟨executable_eq_ok.1 hstart, hmin, hmax⟩, htargets⟩
    · have hlt : p < key := of_decide_eq_true (hprevious p hp)
      exact List.forall_mem_cons.2 ⟨hlt, fun c hc => hlt.trans (hbehind c hc)⟩

/-- A switch that the decoder has the records of. -/
structure Resolved (d : Decoder) (w : Switch) : Prop where
  payload : ∃ p ∈ d.payloads, p.offset = w.payloadOffset ∧ p.kind = switchPayload w.opcode
  default : w.defaultOffset = w.offset + 3 ∧ w.defaultOffset ∈ d.starts
  cases : ∀ c ∈ w.cases, c.target ∈ d.starts ∧ -0x80000000 ≤ c.key ∧ c.key ≤ 0x7FFFFFFF
  increasing : w.cases.Pairwise (·.key < ·.key)

/-- What one use needs. -/
structure Answered (switches : List Switch) (arrays : List ArrayData) (u : PayloadUse) : Prop where
  packed : u.opcode = 0x2b → ∃ w ∈ switches, w.offset = u.offset ∧ w.opcode = .packedSwitch
  sparse : u.opcode = 0x2c → ∃ w ∈ switches, w.offset = u.offset ∧ w.opcode = .sparseSwitch
  array : u.opcode = 0x26 → ∃ a ∈ arrays, a.offset = u.offset

/-- A use stays answered when more is. -/
theorem Answered.mono {switches switches' : List Switch} {arrays arrays' : List ArrayData}
    {u : PayloadUse} (h : Answered switches arrays u)
    (hswitches : switches ⊆ switches') (harrays : arrays ⊆ arrays') :
    Answered switches' arrays' u where
  packed hop := (h.packed hop).imp fun _ hw => ⟨hswitches hw.1, hw.2⟩
  sparse hop := (h.sparse hop).imp fun _ hw => ⟨hswitches hw.1, hw.2⟩
  array hop := (h.array hop).imp fun _ ha => ⟨harrays ha.1, ha.2⟩

/-- The payload that a use has found is of the kind that its first unit says. -/
theorem Sound.found (h : Sound code units d) {offset unit : ℕ} {entry : ℕ × List UInt8}
    (hfind : d.payloadBytes.find? (·.1 == offset) = some entry)
    (hunit : le16 entry.2 0 = .ok unit) : ∃ p ∈ d.payloads, p.offset = offset ∧
    unit = ident p.kind := by
  obtain ⟨p, hp, hoffset, -, hident⟩ := h.payload_of_data (List.mem_of_find?_eq_some hfind)
  have heq : entry.1 = offset := by simpa using List.find?_some hfind
  exact ⟨p, hp, hoffset ▸ heq, Except.ok.inj (hunit.symm.trans hident)⟩

/-- **Every use of a payload is answered** by a payload of its kind. -/
theorem resolveUses_sound (hsound : Sound code units d) {uses : List PayloadUse} {usedCases : ℕ}
    {switches : List Switch}
    {arrays : List ArrayData} (h : resolveUses units d uses usedCases = .ok (switches, arrays)) :
    (∀ u ∈ uses, Answered switches arrays u) ∧ (∀ w ∈ switches, Resolved d w) ∧
      (∀ a ∈ arrays, ∃ p ∈ d.payloads, p.offset = a.payloadOffset ∧ p.kind = .ARRAY_DATA) ∧
        (usedCases ≤ 1024 → usedCases + (switches.map (·.cases.length)).sum ≤ 1024) := by
  induction uses generalizing usedCases switches arrays with
  | nil =>
    obtain ⟨rfl, rfl⟩ := Prod.mk.inj (Except.ok.inj h)
    exact ⟨List.forall_mem_nil _, List.forall_mem_nil _, List.forall_mem_nil _, id⟩
  -- the payload of the use was found, and is of its kind
  | cons use uses ih =>
    rw [resolveUses] at h
    cases hfind : d.payloadBytes.find? (·.1 == use.payload) with
    | none =>
      rw [hfind] at h
      cases h
    | some entry =>
      rw [hfind] at h
      dsimp only at h
      obtain ⟨unit, hunit, h₁⟩ := bind_eq_ok.1 h
      obtain ⟨_, hkind, h₂⟩ := bind_eq_ok.1 h₁
      obtain ⟨p, hp, hoffset, rfl⟩ := hsound.found hfind hunit
      have hident := require_eq_ok.1 hkind
      rw [beq_iff_eq] at hident
      -- an array has nothing but its data
      split at h₂
      · rename_i hop
        obtain ⟨⟨switches', arrays'⟩, hrest, h₃⟩ := bind_eq_ok.1 h₂
        obtain ⟨rfl, rfl⟩ := Prod.mk.inj (Except.ok.inj h₃)
        obtain ⟨hanswered, hresolved, harrays, hsum⟩ := ih hrest
        rw [if_pos hop] at hident
        refine ⟨List.forall_mem_cons.2 ⟨⟨?_, ?_, ?_⟩, ?_⟩, hresolved,
          List.forall_mem_cons.2 ⟨⟨p, hp, hoffset, ?_⟩, harrays⟩, hsum⟩
        · exact fun h => absurd (hop.symm.trans h) (by decide)
        · exact fun h => absurd (hop.symm.trans h) (by decide)
        · exact fun _ => ⟨_, List.mem_cons_self, rfl⟩
        · exact fun u hu => (hanswered u hu).mono (List.Subset.refl _) (List.subset_cons_self _ _)
        · cases hk : p.kind with
          | ARRAY_DATA => rfl
          | PACKED_SWITCH => exact absurd (hk ▸ hident) (by decide)
          | SPARSE_SWITCH => exact absurd (hk ▸ hident) (by decide)
      · rename_i hop
        obtain ⟨_, hdefault, h₃⟩ := bind_eq_ok.1 h₂
        obtain ⟨count, -, h₄⟩ := bind_eq_ok.1 h₃
        obtain ⟨_, hlimit, h₅⟩ := bind_eq_ok.1 h₄
        obtain ⟨entries, hentries, h₆⟩ := bind_eq_ok.1 h₅
        obtain ⟨⟨switches', arrays'⟩, hrest, h₇⟩ := bind_eq_ok.1 h₆
        obtain ⟨rfl, rfl⟩ := Prod.mk.inj (Except.ok.inj h₇)
        obtain ⟨hanswered, hresolved, harrays, hsum⟩ := ih hrest
        obtain ⟨hlength, hcases, hincreasing, -⟩ := readCases_sound hentries
        rw [if_neg hop] at hident
        refine ⟨List.forall_mem_cons.2 ⟨⟨?_, ?_, ?_⟩, ?_⟩,
          List.forall_mem_cons.2 ⟨⟨⟨p, hp, hoffset, ?_⟩, ?_, hcases, hincreasing⟩, hresolved⟩,
          harrays, fun _ => ?_⟩
        · exact fun h => ⟨_, List.mem_cons_self, rfl, if_pos h⟩
        · exact fun h => ⟨_, List.mem_cons_self, rfl, if_neg (by rw [h]; decide)⟩
        · exact fun h => absurd h hop
        · exact fun u hu => (hanswered u hu).mono (List.subset_cons_self _ _) (List.Subset.refl _)
        · dsimp only
          split at hident
          · rename_i hpacked
            rw [if_pos hpacked]
            cases hk : p.kind with
            | PACKED_SWITCH => rfl
            | SPARSE_SWITCH => exact absurd (hk ▸ hident) (by decide)
            | ARRAY_DATA => exact absurd (hk ▸ hident) (by decide)
          · rename_i hpacked
            rw [if_neg hpacked]
            cases hk : p.kind with
            | SPARSE_SWITCH => rfl
            | PACKED_SWITCH => exact absurd (hk ▸ hident) (by decide)
            | ARRAY_DATA => exact absurd (hk ▸ hident) (by decide)
        · exact ⟨rfl, executable_eq_ok.1 hdefault⟩
        -- the cases were counted before they were read
        · have hrest := hsum (limit_eq_ok.1 hlimit)
          rw [List.map_cons, List.sum_cons, hlength, ← Nat.add_assoc]
          exact hrest

/-! ## Tries -/

/-- A handler starts at an instruction. -/
theorem handlerTarget_sound {pos : ℕ} {r : ℕ × ℕ} (h : handlerTarget code units d pos = .ok r) :
    r.1 ∈ d.starts := by
  rw [handlerTarget] at h
  obtain ⟨⟨target, next⟩, -, h₁⟩ := bind_eq_ok.1 h
  obtain ⟨_, -, h₂⟩ := bind_eq_ok.1 h₁
  obtain ⟨_, hstart, h₃⟩ := bind_eq_ok.1 h₂
  obtain rfl := Except.ok.inj h₃
  exact executable_eq_ok.1 hstart

/-- The name of a type is as long as its string says, and that is limited. -/
theorem type_named {index : ℕ} {name : JString} (h : type code index = .ok name) :
    name.length ≤ 1024 ∧ name.startsWith (str "L") = true ∧ name.endsWith (str ";") = true := by
  rw [type] at h
  obtain ⟨count, -, h₁⟩ := bind_eq_ok.1 h
  obtain ⟨table, -, h₂⟩ := bind_eq_ok.1 h₁
  obtain ⟨_, -, h₃⟩ := bind_eq_ok.1 h₂
  obtain ⟨string, -, h₄⟩ := bind_eq_ok.1 h₃
  obtain ⟨strings, -, h₅⟩ := bind_eq_ok.1 h₄
  obtain ⟨stringTable, -, h₆⟩ := bind_eq_ok.1 h₅
  obtain ⟨_, -, h₇⟩ := bind_eq_ok.1 h₆
  obtain ⟨offset, -, h₈⟩ := bind_eq_ok.1 h₇
  obtain ⟨_, -, h₉⟩ := bind_eq_ok.1 h₈
  obtain ⟨⟨chars, start⟩, -, h₁₀⟩ := bind_eq_ok.1 h₉
  obtain ⟨_, hlimit, h₁₁⟩ := bind_eq_ok.1 h₁₀
  obtain ⟨_, -, h₁₂⟩ := bind_eq_ok.1 h₁₁
  have hchars : chars.toNat ≤ 1024 := limit_eq_ok.1 hlimit
  cases hname : code.indexAsType index with
  | none =>
    rw [hname] at h₁₂
    cases h₁₂
  | some name' =>
    rw [hname] at h₁₂
    obtain ⟨_, hrequire, h₁₃⟩ := bind_eq_ok.1 h₁₂
    obtain rfl := Except.ok.inj h₁₃
    have hshape := require_eq_ok.1 hrequire
    rw [Bool.and_eq_true, Bool.and_eq_true, decide_eq_true_eq] at hshape
    obtain ⟨⟨hlength, hstart⟩, hend⟩ := hshape
    exact ⟨by omega, hstart, hend⟩

/-- A handler that may be published. -/
structure Handled (d : Decoder) (x : Handler) : Prop where
  target : x.target ∈ d.starts
  type : ∀ name ∈ x.type, name.length ≤ 1024 ∧ name.startsWith (str "L") = true ∧
    name.endsWith (str ";") = true

/-- Each handler of a list has a type name, and an instruction. -/
theorem typedHandlers_sound {n pos : ℕ} {r : List Handler × ℕ}
    (h : typedHandlers code units d n pos = .ok r) :
    r.1.length = n ∧ ∀ x ∈ r.1, Handled d x := by
  induction n generalizing pos r with
  | zero =>
    obtain rfl := Except.ok.inj h
    exact ⟨rfl, List.forall_mem_nil _⟩
  | succ n ih =>
    rw [typedHandlers] at h
    obtain ⟨⟨index, pos₁⟩, -, h₁⟩ := bind_eq_ok.1 h
    obtain ⟨name, hname, h₂⟩ := bind_eq_ok.1 h₁
    obtain ⟨⟨target, pos₂⟩, htarget, h₃⟩ := bind_eq_ok.1 h₂
    obtain ⟨⟨values, pos₃⟩, hvalues, h₄⟩ := bind_eq_ok.1 h₃
    obtain rfl := Except.ok.inj h₄
    obtain ⟨hlength, htargets⟩ := ih hvalues
    have htyped : ∀ typed ∈ some name, typed.length ≤ 1024 ∧ typed.startsWith (str "L") = true ∧
        typed.endsWith (str ";") = true := by
      intro typed htyped
      obtain rfl := Option.some.inj htyped
      exact type_named hname
    exact ⟨congrArg Nat.succ hlength,
      List.forall_mem_cons.2 ⟨⟨handlerTarget_sound htarget, htyped⟩, htargets⟩⟩

/-- A list has no more handlers than the count allows. -/
theorem handlerList_sound {total pos : ℕ} {r : List Handler × ℕ × ℕ}
    (h : handlerList code units d total pos = .ok r) :
    r.2.1 = total + r.1.length ∧ r.2.1 ≤ 1024 ∧ ∀ x ∈ r.1, Handled d x := by
  rw [handlerList] at h
  obtain ⟨⟨signed, pos₁⟩, -, h₁⟩ := bind_eq_ok.1 h
  obtain ⟨_, hlimit, h₂⟩ := bind_eq_ok.1 h₁
  obtain ⟨_, -, h₃⟩ := bind_eq_ok.1 h₂
  obtain ⟨⟨values, pos₂⟩, hvalues, h₄⟩ := bind_eq_ok.1 h₃
  obtain ⟨hlength, htargets⟩ := typedHandlers_sound hvalues
  have hle := limit_eq_ok.1 hlimit
  dsimp only at hlength htargets h₄ hle
  split at h₄
  · rename_i hsigned
    obtain ⟨⟨target, pos₃⟩, htarget, h₅⟩ := bind_eq_ok.1 h₄
    obtain rfl := Except.ok.inj h₅
    rw [if_pos hsigned] at hle
    have hall : Handled d ⟨none, target⟩ := ⟨handlerTarget_sound htarget, fun name hname =>
      (Option.not_mem_none name hname).elim⟩
    refine ⟨?_, hle, List.forall_mem_append.2 ⟨htargets, List.forall_mem_singleton.2 hall⟩⟩
    rw [List.length_append, hlength]
    rfl
  · rename_i hsigned
    obtain rfl := Except.ok.inj h₄
    rw [if_neg hsigned] at hle
    exact ⟨by rw [hlength]; rfl, hle, htargets⟩

/-- So have all lists together. -/
theorem handlerLists_sound {handlersStart n total pos : ℕ} {handlers : List (ℕ × List Handler)}
    (h : handlerLists code units d handlersStart n total pos = .ok handlers) :
    handlers.length = n ∧ (∀ l ∈ handlers, ∀ x ∈ l.2, Handled d x) ∧
      (total ≤ 1024 → total + (handlers.map (·.2.length)).sum ≤ 1024) := by
  induction n generalizing total pos handlers with
  | zero =>
    obtain rfl := Except.ok.inj h
    exact ⟨rfl, List.forall_mem_nil _, id⟩
  | succ n ih =>
    rw [handlerLists] at h
    obtain ⟨⟨values, total', next⟩, hvalues, h₁⟩ := bind_eq_ok.1 h
    obtain ⟨rest, hrest, h₂⟩ := bind_eq_ok.1 h₁
    obtain rfl := Except.ok.inj h₂
    obtain ⟨htotal, hle, htargets⟩ := handlerList_sound hvalues
    obtain ⟨hlength, hlater, hsum⟩ := ih hrest
    refine ⟨congrArg Nat.succ hlength, List.forall_mem_cons.2 ⟨htargets, hlater⟩, fun _ => ?_⟩
    rw [List.map_cons, List.sum_cons, ← Nat.add_assoc, ← htotal]
    exact hsum hle

/-- A try that the decoder has the records of. -/
structure Covered (units : ℕ) (d : Decoder) (t : Try) : Prop where
  start : t.start ∈ d.starts
  nonempty : t.start < t.endExclusive
  le : t.endExclusive ≤ units
  stop : t.endExclusive = units ∨ t.endExclusive ∈ d.starts ∨
    ∃ entry ∈ d.payloadBytes, entry.1 = t.endExclusive
  noPayload : ∀ p ∈ d.payloads, t.endExclusive ≤ p.offset ∨ p.offset + p.length ≤ t.start
  handlers : ∀ x ∈ t.handlers, Handled d x

/-- The tries are in the code, one behind the other, and each has one of the lists. -/
theorem tryEntries_sound {handlers : List (ℕ × List Handler)}
    (hhandlers : ∀ l ∈ handlers, ∀ x ∈ l.2, Handled d x)
    {n p aggregate previousEnd : ℕ} {tries : List Try}
    (h : tryEntries code units d handlers n p aggregate previousEnd = .ok tries) :
    tries.length = n ∧ (∀ t ∈ tries, Covered units d t) ∧ (∀ t ∈ tries, previousEnd ≤ t.start) ∧
      tries.Pairwise (·.endExclusive ≤ ·.start) ∧
        (aggregate ≤ 1024 → aggregate + (tries.map (·.handlers.length)).sum ≤ 1024) ∧
        ∀ (i : ℕ) t, tries[i]? = some t → TryAt code handlers (p + 8 * i) t := by
  induction n generalizing p aggregate previousEnd tries with
  | zero =>
    obtain rfl := Except.ok.inj h
    exact ⟨rfl, List.forall_mem_nil _, List.forall_mem_nil _, .nil, id, fun i t ht => by cases ht⟩
  | succ n ih =>
    rw [tryEntries] at h
    obtain ⟨start, hread, h₁⟩ := bind_eq_ok.1 h
    obtain ⟨count, hcount, h₂⟩ := bind_eq_ok.1 h₁
    obtain ⟨_, hrange, h₃⟩ := bind_eq_ok.1 h₂
    obtain ⟨_, hstart, h₄⟩ := bind_eq_ok.1 h₃
    obtain ⟨_, hstop, h₅⟩ := bind_eq_ok.1 h₄
    obtain ⟨_, hpayloads, h₆⟩ := bind_eq_ok.1 h₅
    obtain ⟨relative, hrelative, h₇⟩ := bind_eq_ok.1 h₆
    cases hfind : handlers.find? (·.1 == relative) with
    | none =>
      rw [hfind] at h₇
      cases h₇
    -- the entry is of one of the lists that were read
    | some entry =>
      rw [hfind] at h₇
      dsimp only at h₇
      obtain ⟨_, hlimit, h₈⟩ := bind_eq_ok.1 h₇
      obtain ⟨rest, hrest, h₉⟩ := bind_eq_ok.1 h₈
      obtain rfl := Except.ok.inj h₉
      obtain ⟨hlength, hcovered, hlater, hpairwise, hsum, htable⟩ := ih hrest
      have hbounds := require_eq_ok.1 hrange
      rw [Bool.and_eq_true, Bool.and_eq_true, decide_eq_true_eq, decide_eq_true_eq,
        decide_eq_true_eq] at hbounds
      obtain ⟨⟨hnonempty, hle⟩, hprevious⟩ := hbounds
      have hboundary := require_eq_ok.1 hstop
      simp only [Bool.or_eq_true, beq_iff_eq, List.contains_iff_mem, List.any_eq_true,
        or_assoc] at hboundary
      have hfree := require_eq_ok.1 hpayloads
      simp only [List.all_eq_true, Bool.or_eq_true, decide_eq_true_eq] at hfree
      refine ⟨congrArg Nat.succ hlength, List.forall_mem_cons.2 ⟨⟨executable_eq_ok.1 hstart,
        hnonempty, hle, hboundary, hfree, ?_⟩, hcovered⟩,
        List.forall_mem_cons.2 ⟨hprevious, fun t ht => ?_⟩, .cons hlater hpairwise, fun _ => ?_,
          fun i t ht => ?_⟩
      · exact hhandlers entry (List.mem_of_find?_eq_some hfind)
      · exact (hprevious.trans hnonempty.le).trans (hlater t ht)
      · rw [List.map_cons, List.sum_cons, ← Nat.add_assoc]
        exact hsum (limit_eq_ok.1 hlimit)
      -- the entry that was read is the first one of the table
      · rcases i with - | i
        · obtain rfl := Option.some.inj ht
          have hkey : entry.1 = relative := by simpa using List.find?_some hfind
          refine ⟨count, relative, ?_, ?_, rfl, ?_, hkey ▸ List.mem_of_find?_eq_some hfind⟩
          · simpa using hread
          · simpa using hcount
          · simpa using hrelative
        · have hnext := htable i t ht
          have hsucc : ((p : ℤ) + 8 * (i + 1 : ℕ)) = ((p + 8 : ℕ) : ℤ) + 8 * i := by
            push_cast
            ring
          rwa [hsucc]

/-- **What is known of tries that were read.** -/
theorem tries_sound {result : List Try} {handlers : List (ℕ × List Handler)}
    (h : tries code units d = .ok (result, handlers)) :
    result.length ≤ 256 ∧ (∀ t ∈ result, Covered units d t) ∧
      result.Pairwise (·.endExclusive ≤ ·.start) ∧
      (result.map (·.handlers.length)).sum ≤ 1024 ∧ handlers.length ≤ 1024 ∧
        (handlers.map (·.2.length)).sum ≤ 1024 ∧
        u16 code (code.codeOffset + 6) = .ok result.length ∧
          ∀ (i : ℕ) t, result[i]? = some t → TryAt code handlers
            (tryTable code units + 8 * i) t := by
  rw [tries] at h
  obtain ⟨count, hheader, h₁⟩ := bind_eq_ok.1 h
  obtain ⟨_, hcount, h₂⟩ := bind_eq_ok.1 h₁
  split at h₂
  -- without tries nothing else is read
  · rename_i hzero
    obtain ⟨rfl, rfl⟩ := Prod.mk.inj (Except.ok.inj h₂)
    refine ⟨Nat.zero_le _, List.forall_mem_nil _, .nil, Nat.zero_le _, Nat.zero_le _, Nat.zero_le _,
      ?_, fun i t ht => by cases ht⟩
    rw [hheader, hzero]
    rfl
  · obtain ⟨_, -, h₃⟩ := bind_eq_ok.1 h₂
    obtain ⟨_, hentries, h₄⟩ := bind_eq_ok.1 h₃
    obtain ⟨⟨lists, pos⟩, -, h₅⟩ := bind_eq_ok.1 h₄
    obtain ⟨_, hlists, h₆⟩ := bind_eq_ok.1 h₅
    obtain ⟨handlers', hhandlers, h₇⟩ := bind_eq_ok.1 h₆
    obtain ⟨result', hresult, h₈⟩ := bind_eq_ok.1 h₇
    obtain ⟨rfl, rfl⟩ := Prod.mk.inj (Except.ok.inj h₈)
    obtain ⟨hlength, htargets, hsum⟩ := handlerLists_sound hhandlers
    obtain ⟨htries, hcovered, -, hpairwise, haggregate, htable⟩ := tryEntries_sound htargets hresult
    rw [Nat.zero_add] at hsum haggregate
    -- the table was read before its first entry
    have hnonneg : 0 ≤ tryTable code units := by
      obtain ⟨_, hrange, -⟩ := bind_eq_ok.1 hentries
      have hbounds := require_eq_ok.1 hrange
      rw [Bool.and_eq_true, Bool.and_eq_true, decide_eq_true_eq] at hbounds
      exact hbounds.1.1
    refine ⟨htries.trans_le (limit_eq_ok.1 hcount), hcovered, hpairwise, haggregate (Nat.zero_le _),
      hlength.trans_le (limit_eq_ok.1 hlists), hsum (Nat.zero_le _), htries ▸ hheader,
        fun i t ht => ?_⟩
    have hentry := htable i t ht
    have hstart : (((code.codeOffset + 16 + units * 2 + (units % 2 : ℕ) * 2).toNat : ℕ) : ℤ) =
        tryTable code units :=
      Int.toNat_of_nonneg hnonneg
    rwa [hstart] at hentry

/-! ## The scan -/

/-- What `decode` has checked. -/
structure Checked (code : DexCode) (r : Decoded) : Prop where
  units : code.getUnitsCount = .ok r.units ∧ 0 < r.units ∧ r.units ≤ 4096
  visit : code.visitInstructions .malformed r.units (accept code r.units) (r.units + 1) 0 {} =
    .ok r.decoder
  complete : r.decoder.next = r.units
  branches : ∀ b ∈ r.decoder.branches, b.target ∈ r.decoder.starts ∧
    (b.opcode.startsWith (str "goto") = false → b.nextOffset ∈ r.decoder.starts)
  resolve : resolveUses r.units r.decoder r.decoder.payloadUses 0 = .ok (r.switches, r.arrays)
  tries : tries code r.units r.decoder = .ok (r.tries, r.handlers)

/-- The target of a branch is an instruction, and so is what follows one that may fall through. -/
theorem checkBranches_eq_ok {branches : List Branch} {u : Unit}
    (h : branches.forM (checkBranch d) = .ok u) :
    ∀ b ∈ branches, b.target ∈ d.starts ∧ (b.opcode.startsWith (str "goto") = false →
      b.nextOffset ∈ d.starts) := by
  induction branches with
  | nil => exact List.forall_mem_nil _
  | cons b branches ih =>
    change (checkBranch d b >>= fun _ => branches.forM (checkBranch d)) = .ok u at h
    obtain ⟨_, hhead, hrest⟩ := bind_eq_ok.1 h
    rw [checkBranch] at hhead
    obtain ⟨_, htarget, hnext⟩ := bind_eq_ok.1 hhead
    refine List.forall_mem_cons.2 ⟨⟨executable_eq_ok.1 htarget, fun hname => ?_⟩, ih hrest⟩
    rw [hname] at hnext
    exact executable_eq_ok.1 hnext

/-- **A decoded body was checked.** -/
theorem decode_checked {r : Decoded} (h : decode code = .ok r) : Checked code r := by
  rw [decode] at h
  obtain ⟨units, hunits, h₁⟩ := bind_eq_ok.1 h
  obtain ⟨_, hlimit, h₂⟩ := bind_eq_ok.1 h₁
  obtain ⟨_, hpos, h₃⟩ := bind_eq_ok.1 h₂
  obtain ⟨d, hvisit, h₄⟩ := bind_eq_ok.1 h₃
  obtain ⟨_, hcomplete, h₅⟩ := bind_eq_ok.1 h₄
  obtain ⟨_, hbranches, h₆⟩ := bind_eq_ok.1 h₅
  obtain ⟨⟨switches, arrays⟩, hresolve, h₇⟩ := bind_eq_ok.1 h₆
  obtain ⟨⟨tries, handlers⟩, htries, h₈⟩ := bind_eq_ok.1 h₇
  obtain rfl := Except.ok.inj h₈
  have hend := require_eq_ok.1 hcomplete
  rw [Bool.and_eq_true, beq_iff_eq] at hend
  exact ⟨⟨hunits, of_decide_eq_true (require_eq_ok.1 hpos), limit_eq_ok.1 hlimit⟩, hvisit, hend.1,
    checkBranches_eq_ok hbranches, hresolve,
    htries⟩

/-- An offset has one opcode. -/
theorem opcode_unique {offset a b : ℕ} (ha : OpcodeAt code offset a) {op : ℕ}
    (hop : code.getRawOpcodeUnit offset = .ok op)
    (hb : op % 0x100 = b) : a = b := by
  obtain ⟨op', hop', rfl⟩ := ha
  rw [Except.ok.inj (hop'.symm.trans hop)]
  exact hb

/-- What is decoded is well formed. -/
theorem decode_well_formed (hnames : ComparisonsNamed code) {r : Decoded}
    (h : decode code = .ok r) : WellFormed code r := by
  have hchecked := decode_checked h
  have hsound : Sound code r.units r.decoder := visit_sound sound_start hchecked.visit
  have hexec : ∀ n ∈ r.decoder.starts, r.scan.Executable n := fun _ => hsound.executable rfl rfl
  obtain ⟨hanswered, hresolved, harrays, hcases⟩ := resolveUses_sound hsound hchecked.resolve
  obtain ⟨htries, hcovered, hpairwise, haggregate, hlists, hhandlers, hheader, htable⟩ :=
    tries_sound hchecked.tries
  obtain ⟨records, htiles, hinstructions, hpayloads, hlength⟩ := hsound.tiles
  -- which payload an instruction uses is told by its opcode
  have huse : ∀ i ∈ r.decoder.instructions, ∀ opcode, OpcodeAt code i.offset opcode →
      usesPayload opcode = true →
      ∃ u ∈ r.decoder.payloadUses, u.offset = i.offset ∧ u.opcode = opcode := by
    intro i hi opcode hat huses
    obtain ⟨op, hop, -, hused⟩ := hsound.instruction i hi
    rw [opcode_unique hat hop rfl] at huses ⊢
    exact hused huses
  exact {
    units := hchecked.units
    records := ⟨records, hchecked.complete ▸ htiles, hinstructions, hpayloads,
      hlength.trans_le hsound.records_le⟩
    branches := by
      intro i hi opcode hat hbranch
      obtain ⟨op, hop, hpresent, -⟩ := hsound.instruction i hi
      rw [opcode_unique hat hop rfl] at hbranch
      exact hpresent hbranch
    branch := by
      intro b hb
      obtain ⟨op, info, hop, hinfo, hname, hbranch, i, hi, hoffset⟩ := hsound.branch b hb
      obtain ⟨htarget, hnext⟩ := hchecked.branches b hb
      refine ⟨op % 0x100, ⟨op, hop, rfl⟩, hbranch, hexec _ htarget, fun hconditional =>
        hexec _ (hnext ?_), i, hi, hoffset⟩
      -- The name of a comparison starts with an `i`.
      have hle : op % 0x100 ≤ 0x3d := by
        simp only [isBranch, Bool.or_eq_true, Bool.and_eq_true, decide_eq_true_eq] at hbranch
        omega
      have hif := hnames op info hinfo hconditional hle
      rw [← hname] at hif
      cases hopcode : b.opcode with
      | nil => rfl
      | cons c rest =>
        rw [hopcode] at hif
        have hfirst : c = 0x69 := by
          have hhead := (Bool.and_eq_true _ _).mp hif
          exact (eq_of_beq hhead.1).symm
        rw [hfirst]
        rfl
    switches := by
      intro i hi
      constructor
      · intro hat
        obtain ⟨u, hu, hoffset, hopcode⟩ := huse i hi _ hat rfl
        exact hoffset ▸ (hanswered u hu).packed hopcode
      · intro hat
        obtain ⟨u, hu, hoffset, hopcode⟩ := huse i hi _ hat rfl
        exact hoffset ▸ (hanswered u hu).sparse hopcode
    switch := by
      intro w hw
      have hres := hresolved w hw
      exact ⟨hres.payload, ⟨hres.default.1, hexec _ hres.default.2⟩, fun c hc =>
        hexec _ (hres.cases c hc).1, fun c hc => (hres.cases c hc).2,
        hres.increasing⟩
    arrays := by
      intro i hi hat
      obtain ⟨u, hu, hoffset, hopcode⟩ := huse i hi _ hat rfl
      exact hoffset ▸ (hanswered u hu).array hopcode
    array := harrays
    tries := ⟨htries, hpairwise⟩
    try_ := by
      intro t ht
      have hcov := hcovered t ht
      refine ⟨hcov.le, hexec _ hcov.start, hcov.nonempty, ?_, hcov.noPayload, fun x hx =>
        hexec _ (hcov.handlers x hx).target,
        fun x hx => (hcov.handlers x hx).type⟩
      obtain hend | hstart | ⟨entry, hentry, hstop⟩ := hcov.stop
      · exact .inl hend
      · exact .inr (.inl (hexec _ hstart).1)
      · obtain ⟨p, hp, hoffset, -⟩ := hsound.payload_of_data hentry
        exact .inr (.inr ⟨p, hp, hoffset.symm.trans hstop⟩)
    table := ⟨hheader, htable⟩
    caps := by
      rw [Nat.zero_add] at hcases
      exact ⟨hsound.cases_le, hcases (Nat.zero_le _), hlists, hhandlers, haggregate⟩ }

/-- **Published control-flow facts are well formed**, and there are none where the decoder gives up.
-/
theorem facts_well_formed {source : CodeSource} {s : Scan} (h : extract source = .ok s)
    (hnames : ∀ code, source = .reader code → ComparisonsNamed code) :
    (s.availability = .AVAILABLE →
      ∃ code r, source = .reader code ∧ decode code = .ok r ∧ s = r.scan ∧ WellFormed code r) ∧
    (s.availability ≠ .AVAILABLE → s.Unpublished) := by
  cases source with
  | foreignClass =>
    obtain rfl := Except.ok.inj h
    exact ⟨nofun, fun _ => rfl⟩
  | missingMethod => cases h
  | foreignReader =>
    obtain rfl := Except.ok.inj h
    exact ⟨nofun, fun _ => rfl⟩
  | reader code =>
    rw [extract] at h
    cases hdecode : decode code with
    | ok r =>
      rw [hdecode] at h
      obtain rfl := Except.ok.inj h
      exact ⟨fun _ => ⟨code, r, rfl, hdecode, rfl, decode_well_formed (hnames code rfl) hdecode⟩,
        fun hne => absurd rfl hne⟩
    | error refusal =>
      rw [hdecode] at h
      cases refusal with
      | malformed =>
        obtain rfl := Except.ok.inj h
        exact ⟨nofun, fun _ => rfl⟩
      | limit => cases h

/-- A comparison, a switch with its payload, and a try over both. -/
def guardedSwitch : DexCode where
  file := List.replicate 56 0 ++ [1, 0, 0, 0, 0x80, 0, 0, 0, 1, 0, 0, 0, 0x7c, 0, 0, 0] ++
    -- one try, and twelve units
    [1, 0, 0, 0, 0, 0, 1, 0, 0, 0, 0, 0, 0xc, 0, 0, 0] ++
    -- `if-eqz` to the switch, the switch, `return-void`, and the payload of the switch
    [0x38, 0, 2, 0, 0x2b, 0, 4, 0, 0, 0, 0xe, 0] ++ [0, 1, 1, 0, 0, 0, 0, 0, 3, 0, 0, 0] ++
    -- the try over the first six units, and its list of one handler
    [0, 0, 0, 0, 6, 0, 1, 0] ++ [1, 1, 0, 5] ++
    -- the type, its string, and the name `La;`
    [0, 0, 0, 0, 0x84, 0, 0, 0] ++ [3, 0x4c, 0x61, 0x3b, 0, 0]
  codeOffset := 72
  insnInfo op :=
    if op = 0x38 then some ⟨str "if-eqz", 2⟩ else if op = 0x2b then some ⟨str "packed-switch", 3⟩
    else if op = 0x0e then some ⟨str "return-void", 1⟩ else if op = 0x100 then some
      ⟨str "packed-switch-payload", -1⟩ else none
  skipLength offset := if offset = 0 then 2 else if offset = 2 then 3
    else if offset = 5 then 1 else 6
  indexAsType index := if index = 0 then some (str "La;") else none

theorem guardedSwitch_named : ComparisonsNamed guardedSwitch := by
  intro op info hinfo hlow hhigh
  change (if op = 0x38 then _ else if op = 0x2b then _ else if op = 0x0e then _
    else if op = 0x100 then _ else none) = some info at hinfo
  split at hinfo
  · obtain rfl := Option.some.inj hinfo
    decide
  · split_ifs at hinfo with hswitch hreturn hpayload <;> subst op <;> exact absurd hlow (by decide)

/-- A branch, a case and a handler are published. -/
theorem guardedSwitch_decoded : (decode guardedSwitch).toOption.map (fun r =>
      (r.decoder.branches.map Branch.target, r.switches.map fun w => w.cases.map Case.target,
        r.tries.map fun t => t.handlers.map Handler.target)) = some ([2], [[5]], [[5]]) := by
  decide +kernel

/-- What is published of `guardedSwitch`. -/
theorem guarded_switch_well_formed :
    ∃ s, extract (.reader guardedSwitch) = .ok s ∧ s.availability = .AVAILABLE ∧
    ∃ code r, CodeSource.reader guardedSwitch = .reader code ∧ decode code = .ok r ∧ s = r.scan ∧
      WellFormed code r := by
  have hdecoded := guardedSwitch_decoded
  cases hdecode : decode guardedSwitch with
  | error refusal =>
    rw [hdecode] at hdecoded
    cases hdecoded
  | ok r =>
    have hextract : extract (.reader guardedSwitch) = .ok r.scan := by
      rw [extract, hdecode]
    have hnames : ∀ code, CodeSource.reader guardedSwitch = .reader code →
        ComparisonsNamed code := by
      rintro code ⟨⟩
      exact guardedSwitch_named
    exact ⟨r.scan, hextract, rfl, (facts_well_formed hextract hnames).1 rfl⟩

end JadxControlFlowAdapter

end Libjadx
