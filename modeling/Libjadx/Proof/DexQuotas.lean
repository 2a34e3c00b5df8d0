import Libjadx.Proof.DexInventory

/-!
# The inventory against hostile bytes

* `Settles`: an outcome that is refused deliberately, or taken with a property.
* `code_item_settles`: a code item is refused deliberately, or in its file, covered by its records,
  and each of its tries names one of its handler lists.
* `acquisition_settles`: what a whole acquisition has counted, and which inputs it takes.
-/

namespace Libjadx

namespace OwnedDexAnalysis

open DexCode

/-- Refused deliberately, or taken with what `P` says. -/
def Settles {α : Type} (P : α → Prop) : Except Refused α → Prop
  | .ok a => P a
  | .error e => e.Deliberate

/-- What is done next settles what the first part left. -/
theorem Settles.bind {α β : Type} {P : α → Prop} {Q : β → Prop} {x : Except Refused α}
    {f : α → Except Refused β} (h : Settles P x)
    (hf : ∀ a, P a → Settles Q (f a)) : Settles Q (x >>= f) := by
  cases x with
  | ok a => exact hf a h
  | error e => exact h

/-- A weaker result is settled too. -/
theorem Settles.mono {α : Type} {P Q : α → Prop} {x : Except Refused α} (h : Settles P x)
    (hPQ : ∀ a, P a → Q a) : Settles Q x := by
  cases x with
  | ok a => exact hPQ a h
  | error e => exact h

/-- What is taken is what comes out. -/
theorem Settles.eq {α : Type} {P : α → Prop} {x : Except Refused α} (h : Settles P x) :
    Settles (fun a => x = .ok a ∧ P a) x := by
  cases x with
  | ok a => exact ⟨rfl, h⟩
  | error e => exact h

/-- Whatever the reader answers, it is a deliberate refusal or a value. -/
theorem settles_reading {α : Type} {P : α → Prop} {x : Except Refusal α}
    (h : ∀ a, x = .ok a → P a) : Settles P (reading x) := by
  cases x with
  | ok a => exact h a rfl
  | error _ => trivial

variable {code : DexCode} {units offset : ℕ} {interrupted : ℕ → Bool}
    {used used' used'' : Quota → ℕ} {s t u : Counted} {w w' : Walk}

/-! ## Counting -/

/-- A check settles that the count is within its limit. -/
theorem settles_check (key : Quota) (n : ℕ) : Settles (fun _ => n ≤ LIMITS key) (check key n) := by
  rw [check]
  split
  · trivial
  · rename_i hle
    exact Nat.not_lt.1 hle

/-- Adding a count settles that it is within its limit. -/
theorem settles_add (used : Quota → ℕ) (key : Quota) (n : ℕ) :
    Settles (fun used' => used key + n ≤ LIMITS key ∧ used' = fun k => if k = key then used key + n
      else used k) (add used key n) := by
  rw [add]
  split
  · trivial
  · rename_i hle
    exact ⟨Nat.not_lt.1 hle, rfl⟩

/-- What a part of a code item leaves of the counts. -/
structure CodeTook (used used' : Quota → ℕ) : Prop where
  within : (∀ k, used k ≤ LIMITS k) → ∀ k, used' k ≤ LIMITS k
  others : ∀ k, k.ofCode = false → used' k = used k

theorem CodeTook.refl (used : Quota → ℕ) : CodeTook used used := ⟨id, fun _ _ => rfl⟩

/-- One count after another. -/
theorem CodeTook.trans (h : CodeTook used used') (h' : CodeTook used' used'') :
    CodeTook used used'' :=
  ⟨fun hwithin => h'.within (h.within hwithin), fun k hk => (h'.others k hk).trans (h.others k hk)⟩

/-- A count of code items touches no other ones. -/
theorem settles_codeAdd {key : Quota} (hkey : key.ofCode = true) (n : ℕ) :
    Settles (CodeTook used) (add used key n) := by
  refine (settles_add used key n).mono ?_
  rintro _ ⟨hle, rfl⟩
  refine ⟨fun hwithin k => ?_, fun k hk => if_neg ?_⟩
  · split
    · rename_i hk
      exact hk ▸ hle
    · exact hwithin k
  · rintro rfl
    rw [hkey] at hk
    cases hk

/-! ## Records -/

/-- A short is read where the file has both bytes. -/
theorem settles_getShort {file : List UInt8} {i : ℕ} (h : i + 2 ≤ file.length) :
    Settles (fun n => le16 file i = .ok n ∧ n < 0x10000) (getShort file i) := by
  have hread := le16_eq_ok.2 ⟨file[i], file[i + 1], List.getElem?_eq_getElem (by omega),
    List.getElem?_eq_getElem (by omega), rfl⟩
  rw [getShort, hread]
  refine ⟨rfl, ?_⟩
  have hlow := file[i].toNat_lt
  have hhigh := file[i + 1].toNat_lt
  omega

theorem settles_getInt {file : List UInt8} {i : ℕ} (h : i + 4 ≤ file.length) :
    Settles (fun _ => True) (getInt file i) := by
  have hlow := le16_eq_ok.2 ⟨file[i], file[i + 1], List.getElem?_eq_getElem (by omega),
    List.getElem?_eq_getElem (by omega), rfl⟩
  have hhigh := le16_eq_ok.2 ⟨file[i + 2], file[i + 2 + 1], List.getElem?_eq_getElem (by omega),
    List.getElem?_eq_getElem (by omega), rfl⟩
  have hread : le32 file i = .ok _ := bind_eq_ok.2 ⟨_, hlow, bind_eq_ok.2 ⟨_, hhigh, rfl⟩⟩
  rw [getInt, hread]
  trivial

/-- The code item is in the file. -/
structure Inside (code : DexCode) (units : ℕ) : Prop where
  start : 0 ≤ code.codeOffset
  stop : code.codeOffset + 16 + units * 2 ≤ code.file.length

/-- The extent of a record counts records, cases and payloads only. -/
theorem settles_extent (hin : Inside code units) (hle : w.next ≤ units) {op : ℕ} {info : InsnInfo} :
    Settles (fun r => CodeTook used r.1) (extent code units w used op info) := by
  obtain ⟨hstart, hstop⟩ := hin
  have hoffset : (code.fileOffset w.next).toNat = code.codeOffset.toNat + 16 + 2 * w.next := by
    rw [fileOffset]
    omega
  rw [extent]
  split
  · by_cases hheader : w.next % 2 ≠ 0 ∨ units - w.next < if op = 0x200 then 2 else 4
    · rw [if_pos hheader]
      trivial
    · rw [if_neg hheader]
      have hroom : w.next + (if op = 0x200 then 2 else 4) ≤ units := by omega
      have hshort : w.next + 2 ≤ units := by
        split at hroom <;> omega
      refine (settles_getShort (by omega)).bind fun size _ => ?_
      split
      · exact (settles_codeAdd rfl size).bind fun _ htook => htook
      · split
        · rename_i hkind
          rw [hkind.1, if_neg (by decide)] at hroom
          exact (settles_getInt (by omega)).bind fun _ _ => .refl used
        · trivial
  · split
    · trivial
    · exact .refl used

/-- The records until now, in order. -/
structure Covered (units : ℕ) (w : Walk) : Prop where
  le : w.next ≤ units
  laid : ∃ records, Laid 0 w.next records ∧ records.Perm (w.instructions ++ w.payloads)

/-- A record behind the others. -/
theorem laid_append {a b c : ℕ} {records : List (ℕ × ℕ)} (h : Laid a b records) (n : ℕ)
    (hpos : 0 < n) (hc : c = b + n) :
    Laid a c (records ++ [(b, n)]) := by
  subst hc
  induction records generalizing a with
  | nil =>
    obtain rfl : a = b := h
    exact ⟨rfl, hpos, rfl⟩
  | cons r records ih => exact ⟨h.1, h.2.1, ih h.2.2⟩

/-- One record more. -/
theorem Covered.push (h : Covered units w) {n : ℕ} (hpos : 0 < n) (hle : w.next + n ≤ units)
    (hnext : w'.next = w.next + n)
    (hlists : (w'.instructions = w.instructions ++ [(w.next, n)] ∧ w'.payloads = w.payloads) ∨
      (w'.instructions = w.instructions ∧ w'.payloads = w.payloads ++ [(w.next, n)])) :
      Covered units w' := by
  obtain ⟨records, hlaid, hperm⟩ := h.laid
  refine ⟨hnext ▸ hle, records ++ [(w.next, n)], laid_append hlaid n hpos hnext, ?_⟩
  obtain ⟨hinstructions, hpayloads⟩ | ⟨hinstructions, hpayloads⟩ := hlists
  · rw [hinstructions, hpayloads, List.append_assoc]
    exact (hperm.append_right _).trans
      (by rw [List.append_assoc]; exact List.perm_append_comm.append_left _)
  · rw [hinstructions, hpayloads, ← List.append_assoc]
    exact hperm.append_right _

/-- **One record**, taken or refused. -/
theorem settles_accept (hin : Inside code units) (h : Covered units w) :
    Settles (fun w' => Covered units w' ∧ CodeTook w.used w'.used)
      (accept code units interrupted offset w) := by
  rw [accept]
  split
  · trivial
  refine (settles_codeAdd rfl 1).bind fun used₁ htook₁ => ?_
  refine (settles_reading (P := fun _ => True) fun _ _ => trivial).bind fun op _ => ?_
  cases code.insnInfo op with
  | none => trivial
  | some info =>
    dsimp only
    split
    · trivial
    rename_i hoffset
    obtain rfl : offset = w.next := not_not.1 hoffset
    refine (settles_extent hin h.le).bind fun taken htook₂ => ?_
    obtain ⟨used₂, length⟩ := taken
    dsimp only at htook₂ ⊢
    split
    · trivial
    rename_i hlimits
    split
    · trivial
    have htook := htook₁.trans htook₂
    split
    · exact ⟨h.push (n := length.toNat) (by omega) (by omega) rfl (.inr ⟨rfl, rfl⟩), htook⟩
    · exact ⟨h.push (n := length.toNat) (by omega) (by omega) rfl (.inl ⟨rfl, rfl⟩), htook⟩

/-- **Any records.** -/
theorem settles_visit (hin : Inside code units) {rounds : ℕ} (h : Covered units w) :
    Settles (fun w' => Covered units w' ∧ CodeTook w.used w'.used)
      (code.visitInstructions (.reader .malformed) units (accept code units interrupted) rounds
        offset w) := by
  induction rounds generalizing offset w with
  | zero => trivial
  | succ rounds ih =>
    rw [visitInstructions]
    split
    · exact (settles_accept hin h).bind fun w₁ h₁ => (ih h₁.1).mono fun w₂ h₂ =>
        ⟨h₂.1, h₁.2.trans h₂.2⟩
    · exact ⟨h, .refl _⟩

/-! ## Handlers -/

/-- A LEB128 is refused, or ends behind its start. -/
theorem settles_lebNext {file : List UInt8} {signed : Bool} {pos : ℕ} :
    Settles (fun r => lebNext file signed pos = .ok r ∧ pos ≤ r.2) (lebNext file signed pos) := by
  refine Settles.eq ?_
  rw [lebNext]
  split
  · rename_i r hleb
    obtain ⟨l, -, -, hnext⟩ := leb_eq_some_iff.1 hleb
    exact hnext.ge.trans' (Nat.le_add_right pos l.length)
  · split <;> trivial

theorem settles_typedPairs {file : List UInt8} {n pos : ℕ} :
    Settles (fun next => pos ≤ next) (typedPairs file n pos) := by
  induction n generalizing pos with
  | zero => exact le_rfl
  | succ n ih =>
    rw [typedPairs]
    refine settles_lebNext.bind fun r hr => settles_lebNext.bind fun r' hr' =>
      ih.mono fun next hnext => ?_
    exact (hr.2.trans hr'.2).trans hnext

theorem settles_catchAll {file : List UInt8} {signed : ℤ} {pos : ℕ} :
    Settles (fun next => pos ≤ next) (catchAll file signed pos) := by
  rw [catchAll]
  split
  · exact settles_lebNext.bind fun r hr => hr.2
  · exact le_rfl

/-- The handler lists, where they are encoded. -/
theorem settles_handlerSizes {file : List UInt8} {handlersStart n pos : ℕ}
    (hpos : handlersStart ≤ pos) :
    Settles (fun r => CodeTook used r.1 ∧ ∀ l ∈ r.2, ListAt file (handlersStart + l.1) l.2)
      (handlerSizes file handlersStart n used pos) := by
  induction n generalizing used pos with
  | zero => exact ⟨CodeTook.refl used, List.forall_mem_nil _⟩
  | succ n ih =>
    rw [handlerSizes]
    refine settles_lebNext.bind fun r hr => (settles_codeAdd rfl _).bind fun used₁ htook => ?_
    refine settles_typedPairs.eq.bind fun all hall => settles_catchAll.eq.bind fun stop hstop => ?_
    have hlater : handlersStart ≤ stop := ((hpos.trans hr.2).trans hall.2).trans hstop.2
    refine (ih hlater).bind fun later hrest =>
      ⟨htook.trans hrest.1, List.forall_mem_cons.2 ⟨?_, hrest.2⟩⟩
    refine ⟨r.1, r.2, all, stop, ?_, rfl, hall.1, hstop.1⟩
    rw [Nat.add_sub_cancel' hpos]
    exact hr.1

/-- The tries, each with the list that it names. -/
theorem settles_trySizes {file : List UInt8} {sizes : List (ℕ × ℕ)} {n p referenced : ℕ}
    (hfits : p + n * 8 ≤ file.length)
    (hreferenced : referenced ≤ LIMITS .HANDLERS) :
    Settles (fun r => r.1 ≤ LIMITS .HANDLERS ∧ r.2.length = n ∧ ∀ (i : ℕ) size, r.2[i]? = some size →
      ∃ key, le16 file (p + i * 8 + 6) = .ok key ∧ (key, size) ∈ sizes)
        (trySizes file sizes n p referenced) := by
  induction n generalizing p referenced with
  | zero => exact ⟨hreferenced, rfl, fun i size hsize => by cases hsize⟩
  | succ n ih =>
    rw [trySizes]
    refine (settles_getShort (by omega)).bind fun key hkey => ?_
    cases hfind : sizes.find? (·.1 == key) with
    | none => trivial
    | some entry =>
      dsimp only
      split
      · trivial
      rename_i hlimit
      refine (ih (by omega) (Nat.not_lt.1 hlimit)).bind fun r hr => ?_
      refine ⟨hr.1, by rw [List.length_cons, hr.2.1], fun i size hsize => ?_⟩
      cases i with
      | zero =>
        obtain rfl := Option.some.inj hsize
        have hfound := List.find?_some hfind
        obtain rfl : entry.1 = key := beq_iff_eq.1 hfound
        exact ⟨entry.1, by rw [Nat.zero_mul, Nat.add_zero]; exact hkey.1, List.mem_of_find?_eq_some hfind⟩
      | succ i =>
        obtain ⟨key', hread, hmem⟩ := hr.2.2 i size hsize
        exact ⟨key', by rw [show p + (i + 1) * 8 + 6 = p + 8 + i * 8 + 6 by omega]; exact hread, hmem⟩

/-! ## Code items -/

theorem settles_toIntExact {n : ℕ} (h : n ≤ 0x7FFFFFFF) :
    Settles (fun m => m = n) (toIntExact n) := by
  have hfits : ¬MAX_VALUE < n := Nat.not_lt.2 h
  rw [toIntExact, if_neg hfits]
  rfl

/-- **A code item**, whatever its bytes are. -/
theorem settles_inventoryCode (hsize : code.file.length ≤ LIMITS .FILE_BYTES)
    (hreferenced : s.referencedHandlers ≤ LIMITS .HANDLERS) :
    Settles (fun inventory => (∃ units tries, inventory.WellFormed code units tries) ∧
      CodeTook s.used inventory.counted.used ∧
      inventory.counted.referencedHandlers ≤ LIMITS .HANDLERS)
        (inventoryCode code interrupted s) := by
  have hfile : code.file.length ≤ 2097152 := hsize
  rw [inventoryCode]
  -- the units of the header are counted before they are looked at
  refine (settles_reading fun _ h => h).bind fun units hunits => (settles_codeAdd rfl units).bind
    fun used₁ htook₁ => ?_
  split
  · trivial
  rename_i hextent
  have hin : Inside code units := ⟨by omega, by omega⟩
  have hsmall : units ≤ 4096 := by omega
  refine (settles_getShort (by omega)).bind fun tries hheader => (settles_codeAdd rfl tries).bind
    fun used₂ htook₂ => ?_
  obtain ⟨hheader, htries⟩ := hheader
  -- the records lie within the units, whatever the reader answers
  refine (settles_visit hin (w := ⟨0, used₂, [], []⟩) ⟨Nat.zero_le _, [], rfl, .nil⟩).bind
    fun w hw => ?_
  have htook := (htook₁.trans htook₂).trans hw.2
  split
  · trivial
  rename_i hend
  obtain rfl : w.next = units := not_not.1 hend
  have hstop : code.codeOffset + 16 + 2 * (w.next : ℤ) ≤ code.file.length := by omega
  -- without tries the item ends behind its records
  split
  · rename_i hnone
    refine ⟨⟨w.next, tries, hin.start, hunits, hsmall, hstop, hw.1.laid, hheader, hnone.symm, ?_,
      ?_⟩, htook, hreferenced⟩
    · exact fun n size hget => by cases hget
    · exact List.forall_mem_nil _
  refine (settles_toIntExact (by omega)).bind fun table htable =>
    (settles_toIntExact (by omega)).bind fun handlersStart hstart => ?_
  obtain rfl : table = tryTable code w.next := htable
  subst hstart
  -- behind the table of tries stand the handler lists
  split
  · trivial
  refine settles_lebNext.bind fun r hr => (settles_check .HANDLERS r.1.toNat).bind fun _ _ => ?_
  refine (settles_handlerSizes hr.2).bind fun sizes hsizes => ?_
  refine (settles_trySizes (by omega) hreferenced).bind fun referenced hreferences => ?_
  refine ⟨⟨w.next, tries, hin.start, hunits, hsmall, hstop, hw.1.laid, hheader, hreferences.2.1,
    hreferences.2.2, hsizes.2⟩, ?_⟩
  exact ⟨htook.trans hsizes.1, hreferences.1⟩

/-! ## Files -/

/-- What an operation leaves of the counts: they are within their limits, and what the code items do
not use has grown by `f`. -/
structure Took (f : Quota → ℕ) (s t : Counted) : Prop where
  within : t.Within
  counts : ∀ k, k.ofCode = false → t.used k = s.used k + f k

/-- Two operations, one after the other. -/
theorem Took.trans {f g : Quota → ℕ} (h : Took f s t) (h' : Took g t u) : Took (f + g) s u :=
  ⟨h'.within, fun k hk => by rw [h'.counts k hk, h.counts k hk, Nat.add_assoc]; rfl⟩

theorem Took.congr {f g : Quota → ℕ} (h : Took f s t) (hfg : ∀ k, k.ofCode = false → f k = g k) :
    Took g s t :=
  ⟨h.within, fun k hk => by rw [h.counts k hk, hfg k hk]⟩

/-- One quota. -/
def only (key : Quota) (n : ℕ) (k : Quota) : ℕ := if k = key then n else 0

/-- Nothing is taken. -/
theorem took_refl (hs : s.Within) : Took (fun _ => 0) s s := ⟨hs, fun _ _ => rfl⟩

/-- A count is taken, or refused at its limit. -/
theorem settles_counted (hs : s.Within) (key : Quota) (n : ℕ) :
    Settles (Took (only key n) s) (s.add key n) := by
  rw [Counted.add]
  refine (settles_add s.used key n).bind ?_
  rintro _ ⟨hle, rfl⟩
  refine ⟨⟨fun k => ?_, hs.2⟩, fun k _ => ?_⟩
  · dsimp only
    split
    · rename_i hk
      exact hk ▸ hle
    · exact hs.1 k
  · simp only [only]
    split
    · rename_i hk
      rw [hk]
    · rfl

/-- Texts are counted by their length. -/
theorem settles_texts {values : List JString} (hs : s.Within) :
    Settles (Took (only .TEXT (textLength values)) s) (texts values s) := by
  induction values generalizing s with
  | nil =>
    refine (took_refl hs).congr fun k _ => ?_
    simp [only, textLength]
  | cons value values ih =>
    rw [texts]
    refine (settles_counted hs .TEXT value.length).bind fun t ht => (ih ht.within).mono fun u hu =>
      (ht.trans hu).congr fun k _ => ?_
    by_cases hk : k = .TEXT <;> simp [only, hk, textLength]

/-- Methods are counted by their texts, and each code item by its own quotas. -/
theorem settles_inventoryMethods {methods : List DexMethod} (hs : s.Within)
    (hcode : ∀ m ∈ methods, ∀ code, m.codeReader = .dex code → code.file.length ≤ LIMITS .FILE_BYTES) :
    Settles (Took (only .TEXT (methods.map fun m => textLength (methodTexts m)).sum) s)
      (inventoryMethods methods s) := by
  induction methods generalizing s with
  | nil =>
    refine (took_refl hs).congr fun k _ => ?_
    simp [only]
  | cons m methods ih =>
    obtain ⟨hhead, hrest⟩ := List.forall_mem_cons.1 hcode
    rw [inventoryMethods]
    refine (settles_texts hs).bind fun t ht => ?_
    have hlater : ∀ u : Counted, Took (fun _ => 0) t u →
        Settles (Took (only .TEXT (((m :: methods).map fun m => textLength (methodTexts m)).sum)) s)
        (inventoryMethods methods u) := by
      intro u hu
      refine (ih hu.within hrest).mono fun v hv => ((ht.trans hu).trans hv).congr fun k _ => ?_
      by_cases hk : k = .TEXT <;> simp [only, hk]
    cases hreader : m.codeReader with
    | absent => exact hlater t (took_refl ht.within)
    | foreign => trivial
    | dex code =>
      refine (settles_inventoryCode (hhead code hreader) ht.within.2).bind
        fun inventory hinventory => hlater _ ⟨?_, hinventory.2.1.others⟩
      exact ⟨hinventory.2.1.within ht.within.1, hinventory.2.2⟩

/-- Classes with all that is in them. -/
theorem settles_inventoryClasses {classes : List DexClass} (hs : s.Within)
    (hcode : ∀ c ∈ classes, ∀ m ∈ c.methods, ∀ code, m.codeReader = .dex code →
      code.file.length ≤ LIMITS .FILE_BYTES) :
    Settles (Took (fun k => (classes.map (·.count k)).sum) s) (inventoryClasses classes s) := by
  induction classes generalizing s with
  | nil => exact took_refl hs
  | cons c classes ih =>
    obtain ⟨hhead, hrest⟩ := List.forall_mem_cons.1 hcode
    rw [inventoryClasses]
    split
    · trivial
    refine (settles_texts hs).bind fun t₁ h₁ => (settles_counted h₁.within .FIELDS _).bind
      fun t₂ h₂ => ?_
    refine (settles_texts h₂.within).bind fun t₃ h₃ => (settles_counted h₃.within .METHODS _).bind
      fun t₄ h₄ => ?_
    refine (settles_inventoryMethods h₄.within hhead).bind fun t₅ h₅ => (ih h₅.within hrest).mono
      fun t₆ h₆ => ?_
    refine (((((h₁.trans h₂).trans h₃).trans h₄).trans h₅).trans h₆).congr fun k hk => ?_
    cases k <;> first | exact absurd hk (by decide) | simp [only, DexClass.count]

/-- A whole reader. -/
theorem settles_inventory {reader : DexReader} (hs : s.Within)
    (hcode : ∀ c ∈ reader.classes, ∀ m ∈ c.methods, ∀ code, m.codeReader = .dex code →
      code.file.length ≤ LIMITS .FILE_BYTES) :
    Settles (Took reader.count s) (inventory reader s) := by
  rw [inventory]
  refine (settles_counted hs .CLASSES _).bind fun t ht =>
    (settles_inventoryClasses ht.within hcode).mono fun u hu => ?_
  refine (ht.trans hu).congr fun k hk => ?_
  cases k <;> first | exact absurd hk (by decide) | simp [only, DexReader.count, DexClass.count]

/-- The chunks of a file are counted as they come, up to the limit of one file. -/
theorem settles_readChunks {chunks : List Chunk} {count : ℕ} (hs : s.Within)
    (hcount : count ≤ LIMITS .FILE_BYTES) :
    Settles (fun t => Took (only .TOTAL_BYTES (chunks.flatMap Chunk.bytes).length) s t ∧
      count + (chunks.flatMap Chunk.bytes).length ≤ LIMITS .FILE_BYTES)
        (readChunks chunks count s) := by
  induction chunks generalizing count s with
  | nil =>
    refine ⟨(took_refl hs).congr fun k _ => ?_, hcount⟩
    simp [only]
  | cons chunk chunks ih =>
    rw [readChunks]
    split
    · trivial
    refine (settles_check .FILE_BYTES _).bind fun _ hle => (settles_counted hs .TOTAL_BYTES _).bind
      fun t ht => ?_
    refine (ih ht.within hle).mono fun u hu => ⟨(ht.trans hu.1).congr fun k _ => ?_, ?_⟩
    · by_cases hk : k = .TOTAL_BYTES <;> simp [only, hk]
    · rw [List.flatMap_cons, List.length_append, ← Nat.add_assoc]
      exact hu.2

/-- **All inputs**, one after the other. -/
theorem settles_acquireEach {inputs : List Input} (hs : s.Within)
    (hloaded : ∀ input ∈ inputs, input.Loaded) :
    Settles (fun t => Took (fun k => (inputs.map (·.count k)).sum) s t ∧
      ∀ input ∈ inputs, input.Admitted) (acquireEach inputs s) := by
  induction inputs generalizing s with
  | nil => exact ⟨took_refl hs, List.forall_mem_nil _⟩
  | cons input inputs ih =>
    obtain ⟨hhead, hrest⟩ := List.forall_mem_cons.1 hloaded
    rw [acquireEach]
    refine (settles_check .FILE_BYTES _).bind fun _ hchannel =>
      (settles_readChunks hs (Nat.zero_le _)).bind fun t ht => ?_
    obtain ⟨hread, hle⟩ := ht
    rw [Nat.zero_add] at hle
    split
    swap
    · trivial
    rename_i hplain
    split
    swap
    · trivial
    rename_i reader hreaders
    have hcode : ∀ c ∈ reader.classes, ∀ m ∈ c.methods, ∀ code, m.codeReader = .dex code →
        code.file.length ≤ LIMITS .FILE_BYTES := by
      intro c hc m hm code hdex
      rw [hhead reader (hreaders ▸ List.mem_singleton_self reader) c hc m hm code hdex]
      exact hle
    refine (settles_inventory hread.within hcode).bind fun u hu => (ih hu.within hrest).mono
      fun v hv => ?_
    refine ⟨((hread.trans hu).trans hv.1).congr fun k hk => ?_, ?_⟩
    · cases k <;> first | exact absurd hk (by decide) | simp [only, Input.count, Input.content,
        DexReader.count, DexClass.count, hreaders]
    · exact List.forall_mem_cons.2 ⟨⟨hchannel, hle, hplain, reader, hreaders⟩, hv.2⟩

/-- **A whole acquisition**, whatever the inputs are. -/
theorem settles_acquire {mappingsAttached : Bool} {inputs : List Input}
    (hloaded : ∀ input ∈ inputs, input.Loaded) :
    Settles (fun s => s.Within ∧ (∀ k, k.ofCode = false → s.used k = inputsCount inputs k) ∧
      ∀ input ∈ inputs, input.Admitted)
      (acquire mappingsAttached inputs) := by
  rw [acquire]
  split
  · trivial
  have hempty : (Counted.mk (fun _ => 0) 0).Within := ⟨fun _ => Nat.zero_le _, Nat.zero_le _⟩
  refine (settles_counted hempty .INPUTS _).bind fun s hs => ?_
  split
  · trivial
  refine (settles_acquireEach hs.within hloaded).mono fun t ht =>
    ⟨ht.1.within, fun k hk => ?_, ht.2⟩
  rw [(hs.trans ht.1).counts k hk]
  cases k <;> first | exact absurd hk (by decide) | simp [only, inputsCount, Input.count,
    DexReader.count, DexClass.count]

/-! ## Outcomes -/

/-- What it is to be settled: all errors are deliberate, and what comes is as it should be. -/
theorem settles_iff {α : Type} {P : α → Prop} {x : Except Refused α} :
    Settles P x ↔ (∀ e, x = .error e → e.Deliberate) ∧ ∀ a, x = .ok a → P a := by
  cases x with
  | ok a =>
    refine ⟨fun h => ⟨nofun, fun b hb => Except.ok.inj hb ▸ h⟩, fun h => h.2 a rfl⟩
  | error e =>
    refine ⟨fun h => ⟨fun e' he => Except.error.inj he ▸ h, nofun⟩, fun h => h.1 e rfl⟩

/-- **A code item of any bytes** is refused by a check of this code or by the reader, or it is in
its file, covered by its records, and each of its tries names one of its handler lists. -/
theorem code_item_settles (hsize : code.file.length ≤ LIMITS .FILE_BYTES) (hs : s.Within) :
    (∀ e, inventoryCode code interrupted s = .error e → e.Deliberate) ∧
      ∀ inventory, inventoryCode code interrupted s = .ok inventory →
        (∃ units tries, inventory.WellFormed code units tries) ∧ inventory.counted.Within ∧
          ∀ k, k.ofCode = false → inventory.counted.used k = s.used k :=
  settles_iff.1 ((settles_inventoryCode hsize hs.2).mono fun _ h =>
    ⟨h.1, ⟨h.2.1.within hs.1, h.2.2⟩, h.2.1.others⟩)

/-- One try, and one list with one handler. -/
theorem guarded_settles : ∃ inventory, inventoryCode guarded
    (fun _ => false) ⟨fun _ => 0, 0⟩ = .ok inventory ∧
    inventory.tries = [1] ∧ ∃ units tries, inventory.WellFormed guarded units tries := by
  have hsome : (inventoryCode guarded (fun _ => false) ⟨fun _ => 0, 0⟩).toOption.map
    (·.tries) = some [1] := by decide +kernel
  cases hcode : inventoryCode guarded (fun _ => false) ⟨fun _ => 0, 0⟩ with
  | error e =>
    rw [hcode] at hsome
    cases hsome
  | ok inventory =>
    rw [hcode] at hsome
    have hsettles := @code_item_settles guarded (fun _ => false) ⟨fun _ => 0, 0⟩ (by decide +kernel)
      ⟨fun _ => Nat.zero_le _, Nat.zero_le _⟩
    exact ⟨inventory, rfl, Option.some.inj hsome, (hsettles.2 inventory hcode).1⟩

/-- **A whole acquisition**: refused deliberately, or with exact counts, all of them within their
limits, and inputs that are admitted each. -/
theorem acquisition_settles {mappingsAttached : Bool} {inputs : List Input}
    (hloaded : ∀ input ∈ inputs, input.Loaded) :
    (∀ e, acquire mappingsAttached inputs = .error e → e.Deliberate) ∧
      ∀ s, acquire mappingsAttached inputs = .ok s →
        s.Within ∧ (∀ k, k.ofCode = false → s.used k = inputsCount inputs k) ∧
          ∀ input ∈ inputs, input.Admitted :=
  settles_iff.1 (settles_acquire hloaded)

/-- A file with one class, and one method with the code of `guarded`. -/
def guardedInput : Input :=
  ⟨148, [⟨false, guardedFile.take 100⟩, ⟨false, guardedFile.drop 100⟩],
    [⟨1, [⟨false, str "La;", none, [], [], [⟨str "f", [], str "V", .dex guarded, fun _ => false⟩]⟩]⟩]⟩

theorem guarded_loaded : ∀ input ∈ [guardedInput, guardedInput], input.Loaded := by
  have hloaded : guardedInput.Loaded := by
    refine List.forall_mem_singleton.2 (List.forall_mem_singleton.2 (List.forall_mem_singleton.2 ?_))
    rintro code ⟨⟩
    decide +kernel
  exact List.forall_mem_cons.2 ⟨hloaded, List.forall_mem_singleton.2 hloaded⟩

theorem guarded_acquired : ∃ s, acquire false [guardedInput, guardedInput] = .ok s ∧ s.Within ∧
    s.used .TOTAL_BYTES = 296 ∧
    guardedInput.Admitted := by
  have hsome : (acquire false [guardedInput, guardedInput]).toOption.isSome = true :=
    by decide +kernel
  cases hacquire : acquire false [guardedInput, guardedInput] with
  | error e =>
    rw [hacquire] at hsome
    cases hsome
  | ok s =>
    obtain ⟨hwithin, hcounts, hadmitted⟩ := (acquisition_settles guarded_loaded).2 s hacquire
    exact ⟨s, rfl, hwithin, (hcounts .TOTAL_BYTES rfl).trans (by decide +kernel),
      hadmitted _ List.mem_cons_self⟩

/-- The same bytes, and the thread is interrupted at the second record of the method. -/
def interruptedInput : Input :=
  ⟨148, [⟨false, guardedFile⟩],
    [⟨1, [⟨false, str "La;", none, [], [], [⟨str "f", [], str "V", .dex guarded, fun n => n != 0⟩]⟩]⟩]⟩

example :
    (acquire false [guardedInput, interruptedInput]).toOption.isNone = true := by decide +kernel

end OwnedDexAnalysis

end Libjadx
