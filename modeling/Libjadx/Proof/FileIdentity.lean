import Libjadx.Proof.References
import Libjadx.Proof.UnixPath
import Libjadx.Spec.FileIdentity

/-!
# What the identity of files tells apart

Between the slashes of the digested text stand the names of the paths, each last one with the
fingerprint of its file. So the text says where a file ends only by a name that ends in a
fingerprint (`Marked`), and a directory may have such a name.

Main results: `digestInput_injective`, `digestInput_unique_iff`, `identity_unique_iff`,
`digestInput_merged`.
-/

namespace Libjadx

namespace FileIdentity

open ReferenceSnapshot UnixPath

variable {f g : File} {l m : List File}

/-! ## Fingerprints -/

/-- The digests that a file may have. -/
def Sha256 (digest : Option (List UInt8)) : Prop := ∀ d ∈ digest, d.length = 32

theorem plain_hexDigit {n : ℕ} (h : n < 16) : 48 ≤ (hexDigit n).toNat ∧ (hexDigit n).toNat < 0x80 ∧
    hexDigit n ≠ chr 'T' ∧ hexDigit n ≠ chr '/' := by
  interval_cases n <;> decide

/-- What hexadecimal text consists of. -/
theorem mem_formatHex {raw : List UInt8} {c : JChar} (h : c ∈ formatHex raw) :
    ∃ n < 16, c = hexDigit n := by
  obtain ⟨b, -, hc⟩ := List.mem_flatMap.1 h
  have hb := b.toNat_lt
  rcases List.mem_cons.1 hc with rfl | hc
  · exact ⟨b.toNat / 16, by omega, rfl⟩
  · obtain rfl := List.mem_singleton.1 hc
    exact ⟨b.toNat % 16, by omega, rfl⟩

/-- A fingerprint may stand in a path. -/
theorem name_fingerprint (digest : Option (List UInt8)) :
    Name (fingerprintText digest) ∧ Plain (fingerprintText digest) := by
  have hplain : Plain (fingerprintText digest) ∧ chr '/' ∉ fingerprintText digest := by
    rcases digest with - | d
    · exact ⟨forall_of_all (by decide), by decide⟩
    · have htag : ∀ c ∈ str "sha256:", (0 < c.toNat ∧ c.toNat < 0x80) ∧ c ≠ chr '/' :=
        forall_of_all (by decide)
      have hall : ∀ c ∈ fingerprintText (some d), (0 < c.toNat ∧ c.toNat < 0x80) ∧ c ≠ chr '/' := by
        intro c hc
        rcases List.mem_append.1 hc with hc | hc
        · exact htag c hc
        · obtain ⟨n, hn, rfl⟩ := mem_formatHex hc
          obtain ⟨hlow, hhigh, -, hslash⟩ := plain_hexDigit hn
          exact ⟨⟨by omega, hhigh⟩, hslash⟩
      exact ⟨fun c hc => (hall c hc).1, fun hin => (hall _ hin).2 rfl⟩
  refine ⟨⟨?_, hplain.2, hplain.1.no_nul, hplain.1.paired⟩, hplain.1⟩
  rcases digest with - | d
  · decide
  · intro h
    exact absurd (List.append_eq_nil_iff.1 h).1 (by decide)

/-- What a text with a fingerprint ends in. -/
theorem getLast?_fingerprint (s : JString) {d : List UInt8} (hd : d.length = 32) :
    ∃ n < 16, (s ++ fingerprintText (some d)).getLast? = some (hexDigit n) := by
  have hhex : formatHex d ≠ [] := by
    intro h
    have hlen := length_formatHex d
    rw [h, hd] at hlen
    cases hlen
  obtain ⟨n, hn, hlast⟩ := mem_formatHex (List.getLast_mem hhex)
  refine ⟨n, hn, ?_⟩
  rw [fingerprintText, ← List.append_assoc, List.getLast?_append_of_ne_nil _ hhex,
    List.getLast?_eq_some_getLast hhex, hlast]

/-- A text ends in one fingerprint at most. -/
theorem fingerprint_unique {s t : JString} {a b : Option (List UInt8)} (ha : Sha256 a)
    (hb : Sha256 b)
    (h : s ++ fingerprintText a = t ++ fingerprintText b) : s = t ∧ a = b := by
  have habsent : ∀ u : JString, (u ++ fingerprintText none).getLast? = some (chr 'T') := fun u =>
    (List.getLast?_append_of_ne_nil u (by decide)).trans (by decide)
  have hmixed : ∀ {u v : JString} {d : List UInt8}, d.length = 32 →
      u ++ fingerprintText none ≠ v ++ fingerprintText (some d) := by
    intro u v d hd heq
    obtain ⟨n, hn, hlast⟩ := getLast?_fingerprint v hd
    rw [← heq, habsent u] at hlast
    exact (plain_hexDigit hn).2.2.1 (Option.some.inj hlast).symm
  rcases a with - | d <;> rcases b with - | e
  · exact ⟨List.append_cancel_right h, rfl⟩
  · exact absurd h (hmixed (hb e rfl))
  · exact absurd h.symm (hmixed (ha d rfl))
  · have hlen : (fingerprintText (some d)).length = (fingerprintText (some e)).length := by
      rw [fingerprintText, fingerprintText, List.length_append, List.length_append,
        length_formatHex, length_formatHex,
        ha d rfl, hb e rfl]
    obtain ⟨hs, htext⟩ := List.append_inj' h hlen
    exact ⟨hs, congrArg some (formatHex_injective (List.append_cancel_left htext))⟩

/-! ## Pieces -/

/-- What stands between the slashes of the text of a file. -/
def File.pieces (f : File) : List JString :=
  f.path.names.dropLast ++ [f.path.names.getLast f.named ++ fingerprintText f.digest]

/-- A name that may end the text of a file. -/
def Marked (piece : JString) : Prop := ∃ (stem : JString) (digest : Option (List UInt8)),
  stem ≠ [] ∧ Sha256 digest ∧ piece = stem ++ fingerprintText digest

/-- A path imitates where a directory of it is marked. -/
theorem imitates_iff (path : UnixPath) :
    Imitates path ↔ ∃ name ∈ path.names.dropLast, Marked name := Iff.rfl

theorem File.name (f : File) : ∀ name ∈ f.path.names, Name name := by
  obtain ⟨text, h⟩ := f.admitted
  exact names_of h

/-- The last piece of a file is marked. -/
theorem File.marked (f : File) :
    Marked (f.path.names.getLast f.named ++ fingerprintText f.digest) :=
  ⟨_, _, (f.name _ (List.getLast_mem _)).nonempty, f.digest_length, rfl⟩

/-- A name goes on with a fingerprint. -/
theorem name_append {name : JString} (h : Name name) (digest : Option (List UInt8)) :
    Name (name ++ fingerprintText digest) := by
  have hname := (name_fingerprint digest).1
  refine ⟨fun hnil => h.nonempty (List.append_eq_nil_iff.1 hnil).1, ?_, ?_, ?_⟩
  · rw [List.mem_append]
    exact fun hin => hin.elim h.no_slash hname.no_slash
  · rw [List.mem_append]
    exact fun hin => hin.elim h.no_nul hname.no_nul
  · rw [(paired_append h.paired _).2]
    exact hname.paired

/-- What stands before a fingerprint in a name is a name. -/
theorem name_stem {stem : JString} {digest : Option (List UInt8)} (hne : stem ≠ [])
    (h : Name (stem ++ fingerprintText digest)) : Name stem := by
  have hplain := (name_fingerprint digest).2
  refine ⟨hne, fun hin => h.no_slash (List.mem_append_left _ hin), fun hin =>
    h.no_nul (List.mem_append_left _ hin), ?_⟩
  rcases htext : fingerprintText digest with - | ⟨c, rest⟩
  · exact absurd htext (name_fingerprint digest).1.nonempty
  · have hc := hplain c (by rw [htext]; exact List.mem_cons_self)
    have hunit : (isHighSurrogate c || isLowSurrogate c) = false := by
      rw [← Bool.not_eq_true, surrogate_iff]
      omega
    exact (paired_cut hunit (htext ▸ h.paired)).1

/-- The pieces of a file are names. -/
theorem name_pieces (f : File) : ∀ piece ∈ f.pieces, Name piece := by
  intro piece hin
  rcases List.mem_append.1 hin with hin | hin
  · exact f.name piece (List.mem_of_mem_dropLast hin)
  · obtain rfl := List.mem_singleton.1 hin
    exact name_append (f.name _ (List.getLast_mem _)) f.digest

/-- The text of a file is its pieces. -/
theorem update_eq (f : File) : f.update = getBytes (slashed f.pieces) := by
  have htext : f.path.toString ++ fingerprintText f.digest = slashed f.pieces := by
    have hnames : f.path.names = f.path.names.dropLast ++ [f.path.names.getLast f.named] :=
      (List.dropLast_append_getLast f.named).symm
    have hone : ∀ piece, slashed [piece] = chr '/' :: piece := fun piece => by simp [slashed]
    rw [toString_slashed f.absolute f.named, hnames, File.pieces, slashed_append,
      slashed_append, hone, hone]
    simp
  rw [File.update, ← getBytes_append, htext]
  rw [toString_slashed f.absolute f.named]
  exact paired_slashed fun name hname => (f.name name hname).paired

/-- The pieces of a list of files. -/
def pieces (files : List File) : List JString := files.flatMap File.pieces

theorem name_of_mem {piece : JString} (h : piece ∈ pieces l) : Name piece := by
  obtain ⟨f, -, hin⟩ := List.mem_flatMap.1 h
  exact name_pieces f piece hin

/-- **The digested text is a path**, of the pieces of all files. -/
theorem digestInput_eq (files : List File) :
    digestInput files = getBytes (slashed (pieces files)) := by
  induction files with
  | nil => rfl
  | cons f files ih =>
    have hpaired : Paired (slashed f.pieces) = true := paired_slashed fun piece hin =>
      (name_pieces f piece hin).paired
    show f.update ++ digestInput files = getBytes (slashed (f.pieces ++ pieces files))
    rw [slashed_append, getBytes_append hpaired, ih, update_eq]

/-- The digest is fed the pieces, no more and no less. -/
theorem digestInput_iff : digestInput l = digestInput m ↔ pieces l = pieces m := by
  rw [digestInput_eq, digestInput_eq]
  refine ⟨fun h => ?_, fun h => by rw [h]⟩
  have hpaired : ∀ files : List File, Paired (slashed (pieces files)) = true := fun files =>
    paired_slashed fun piece hin => (name_of_mem hin).paired
  exact slashed_injective (fun piece hin => (name_of_mem hin).no_slash) (fun piece hin =>
    (name_of_mem hin).no_slash)
    (getBytes_injective (hpaired l) (hpaired m) h)

/-! ## Where a file ends -/

/-- The pieces of a file whose path imitates no fingerprint: only the last one is marked. -/
theorem unmarked_dropLast (h : ¬ Imitates f.path) :
    ∀ piece ∈ f.path.names.dropLast, ¬ Marked piece := by
  intro piece hin hmarked
  exact h ((imitates_iff f.path).2 ⟨piece, hin, hmarked⟩)

/-- Two files with the same pieces are one. -/
theorem File.ext_pieces (h : f.pieces = g.pieces) : f = g := by
  obtain ⟨hinit, hlast⟩ := List.append_inj' h rfl
  obtain ⟨hname, hdigest⟩ := fingerprint_unique f.digest_length g.digest_length
    (List.cons.inj hlast).1
  have hpath : f.path = g.path := by
    have hnames : f.path.names = g.path.names := by
      rw [← List.dropLast_append_getLast f.named, ← List.dropLast_append_getLast g.named, hinit, hname]
    have habsolute : f.path.absolute = g.path.absolute := f.absolute.trans g.absolute.symm
    rcases hf : f.path with ⟨a, n⟩
    rcases hg : g.path with ⟨b, k⟩
    rw [hf, hg] at hnames habsolute
    exact congrArg₂ UnixPath.mk habsolute hnames
  rcases f with ⟨p, d⟩
  rcases g with ⟨q, e⟩
  obtain rfl : p = q := hpath
  obtain rfl : d = e := hdigest
  rfl

/-- Two rows of pieces that each reach the first marked piece reach the same one. -/
theorem first_marked {a b u v : List JString} {x y : JString} (ha : ∀ piece ∈ a, ¬ Marked piece)
    (hb : ∀ piece ∈ b, ¬ Marked piece) (hx : Marked x) (hy : Marked y)
    (h : a ++ x :: u = b ++ y :: v) :
    a = b ∧ x = y ∧ u = v := by
  induction a generalizing b with
  | nil =>
    cases b with
    | nil => exact ⟨rfl, List.cons.inj h⟩
    | cons z b => exact absurd ((List.cons.inj h).1 ▸ hx) (hb z List.mem_cons_self)
  | cons z a ih =>
    cases b with
    | nil => exact absurd ((List.cons.inj h).1 ▸ hy) (ha z List.mem_cons_self)
    | cons w b =>
      obtain ⟨rfl, hrest⟩ := List.cons.inj h
      obtain ⟨rfl, hxy, huv⟩ := ih (fun piece hin => ha piece (List.mem_cons_of_mem _ hin))
        (fun piece hin => hb piece (List.mem_cons_of_mem _ hin)) hrest
      exact ⟨rfl, hxy, huv⟩

/-- **Lists of files whose paths imitate no fingerprint are told apart.** -/
theorem digestInput_injective (hl : ∀ f ∈ l, ¬ Imitates f.path) (hm : ∀ f ∈ m, ¬ Imitates f.path)
    (h : digestInput l = digestInput m) : l = m := by
  rw [digestInput_iff] at h
  induction l generalizing m with
  | nil =>
    cases m with
    | nil => rfl
    | cons g m => simp [pieces, File.pieces] at h
  | cons f l ih =>
    cases m with
    | nil => simp [pieces, File.pieces] at h
    | cons g m =>
      change f.pieces ++ pieces l = g.pieces ++ pieces m at h
      simp only [File.pieces, List.append_assoc, List.singleton_append] at h
      obtain ⟨hinit, hlast, hrest⟩ := first_marked (unmarked_dropLast (hl f List.mem_cons_self))
        (unmarked_dropLast (hm g List.mem_cons_self)) f.marked g.marked h
      have hfg : f = g := File.ext_pieces (by rw [File.pieces, File.pieces, hinit, hlast])
      have htail : l = m :=
        ih (fun x hx => hl x (List.mem_cons_of_mem _ hx)) (fun x hx =>
          hm x (List.mem_cons_of_mem _ hx)) hrest
      rw [hfg, htail]

/-! ## Files that are taken for one -/

/-- The file at a path of names. -/
def fileAt (names : List JString) (digest : Option (List UInt8)) (hne : names ≠ [])
    (hnames : ∀ name ∈ names, Name name) (hdigest : Sha256 digest) : File where
  path := ⟨true, names⟩
  digest := digest
  admitted := ⟨slashed names, of_slashed hnames hne⟩
  absolute := rfl
  named := hne
  digest_length := hdigest

/-- The path of the first file, its fingerprint and the path of the second one make the path of one
file. -/
theorem merged (f g : File) : ∃ e : File, e.pieces = f.pieces ++ g.pieces := by
  have hnames : ∀ name ∈ f.pieces ++ g.path.names, Name name := fun name hin =>
    (List.mem_append.1 hin).elim (name_pieces f name) (g.name name)
  have hne : f.pieces ++ g.path.names ≠ [] := List.append_ne_nil_of_right_ne_nil _ g.named
  refine ⟨fileAt (f.pieces ++ g.path.names) g.digest hne hnames g.digest_length, ?_⟩
  simp only [File.pieces, fileAt]
  rw [List.dropLast_append_of_ne_nil g.named, List.getLast_append_of_ne_nil _ g.named]
  simp

/-- A path that imitates a fingerprint is the path of two files. -/
theorem parted (h : Imitates f.path) : ∃ e g : File, f.pieces = e.pieces ++ g.pieces := by
  obtain ⟨name, hin, stem, digest, hstem, hdigest, rfl⟩ := h
  obtain ⟨a, b, hab⟩ := List.append_of_mem hin
  have hnames : f.path.names = a ++ (stem ++ fingerprintText digest) ::
      (b ++ [f.path.names.getLast f.named]) := by
    conv_lhs => rw [← List.dropLast_append_getLast f.named, hab]
    simp
  have hname : ∀ x, x ∈ a ∨ x ∈ b ++ [f.path.names.getLast f.named] ∨
      x = stem ++ fingerprintText digest → Name x := by
    intro x hx
    refine f.name x ?_
    rw [hnames]
    simp only [List.mem_append, List.mem_cons] at hx ⊢
    tauto
  have hfirst : ∀ x ∈ a ++ [stem], Name x := by
    intro x hx
    rcases List.mem_append.1 hx with hx | hx
    · exact hname x (.inl hx)
    · obtain rfl := List.mem_singleton.1 hx
      exact name_stem hstem (hname _ (.inr (.inr rfl)))
  have hsecond : ∀ x ∈ b ++ [f.path.names.getLast f.named], Name x := fun x hx =>
    hname x (.inr (.inl hx))
  refine ⟨fileAt (a ++ [stem]) digest (by simp) hfirst hdigest,
    fileAt (b ++ [f.path.names.getLast f.named]) f.digest (by simp) hsecond f.digest_length, ?_⟩
  simp only [File.pieces, fileAt, hab, List.dropLast_concat, List.getLast_append, List.getLast_singleton]
  simp

/-- **Exactly which lists of files have an input of the digest of their own**: the empty one, and
those of one file whose path imitates no fingerprint. -/
theorem digestInput_unique_iff (files : List File) :
    (∀ others, digestInput files = digestInput others → files = others) ↔
      files.length ≤ 1 ∧ ∀ f ∈ files, ¬ Imitates f.path := by
  constructor
  · intro h
    have hone : files.length ≤ 1 := by
      by_contra hmore
      rcases files with - | ⟨f, - | ⟨g, rest⟩⟩
      · exact hmore (Nat.zero_le 1)
      · exact hmore le_rfl
      · obtain ⟨e, he⟩ := merged f g
        have heq := h (e :: rest) (digestInput_iff.2 (by simp [pieces, he]))
        have hlen := congrArg List.length heq
        simp at hlen
    refine ⟨hone, fun f hf himitates => ?_⟩
    obtain ⟨e, g, hparts⟩ := parted himitates
    rcases files with - | ⟨x, - | ⟨y, rest⟩⟩
    · cases hf
    · obtain rfl := List.mem_singleton.1 hf
      have heq := h [e, g] (digestInput_iff.2 (by simp [pieces, hparts]))
      have hlen := congrArg List.length heq
      simp at hlen
    · simp at hone
  · rintro ⟨hone, hclean⟩ others h
    rw [digestInput_iff] at h
    rcases files with - | ⟨f, - | ⟨y, rest⟩⟩
    · rcases others with - | ⟨g, others⟩
      · rfl
      · simp [pieces, File.pieces] at h
    · rcases others with - | ⟨g, others⟩
      · simp [pieces, File.pieces] at h
      · have hf : f.pieces = g.pieces ++ pieces others := by simpa [pieces] using h
        rcases others with - | ⟨e, others⟩
        · rw [File.ext_pieces (hf.trans (List.append_nil _))]
        · -- the last name of the first file is the name of a directory of the one file
          have hmore : pieces (e :: others) ≠ [] := by simp [pieces, File.pieces]
          have hinit : f.path.names.dropLast = g.pieces ++ (pieces (e :: others)).dropLast := by
            rw [← List.dropLast_append_of_ne_nil hmore, ← hf, File.pieces, List.dropLast_concat]
          refine absurd ((imitates_iff f.path).2 ⟨_, ?_, g.marked⟩) (hclean f List.mem_cons_self)
          rw [hinit, File.pieces]
          simp
    · simp at hone

/-- Identities are the same where the digests are. -/
theorem identity_iff {platform : Platform} :
    identity platform l = identity platform m ↔ platform.sha256 (digestInput l) = platform.sha256
      (digestInput m) :=
  ⟨fun h => formatHex_injective (List.append_cancel_left h), fun h =>
    congrArg (fun raw => str "sha256:" ++ formatHex raw) h⟩

/-- Where the digest collides with that of no other files, the identity tells apart what the
digested text does. -/
theorem identity_unique_iff {platform : Platform} {files : List File}
    (hapart : ∀ others, platform.sha256 (digestInput files) = platform.sha256 (digestInput others) →
      digestInput files = digestInput others) :
    (∀ others, identity platform files = identity platform others → files = others) ↔
      files.length ≤ 1 ∧ ∀ f ∈ files, ¬ Imitates f.path := by
  rw [← digestInput_unique_iff]
  constructor
  · intro h others heq
    exact h others (identity_iff.2 (congrArg platform.sha256 heq))
  · intro h others heq
    exact h others (hapart others (identity_iff.1 heq))

/-! ## Two files, or one -/

namespace TwoFiles

/-- The digest of an empty file. -/
def emptyDigest : List UInt8 :=
  [0xe3, 0xb0, 0xc4, 0x42, 0x98, 0xfc, 0x1c, 0x14, 0x9a, 0xfb, 0xf4, 0xc8, 0x99, 0x6f, 0xb9, 0x24,
    0x27, 0xae, 0x41, 0xe4, 0x64, 0x9b, 0x93, 0x4c, 0xa4, 0x95, 0x99, 0x1b, 0x78, 0x52, 0xb8, 0x55]

theorem sha256_empty : Sha256 (some emptyDigest) := by
  rintro d ⟨⟩
  decide

theorem name_letter {s : JString} (h : s = str "a" ∨ s = str "b") : Name s := by
  rcases h with rfl | rfl
  · exact ⟨by decide, by decide, by decide, by decide⟩
  · exact ⟨by decide, by decide, by decide, by decide⟩

/-- An empty file `/a`. -/
def first : File := fileAt [str "a"] (some emptyDigest) (by decide)
  (fun _ hin => name_letter (.inl (List.mem_singleton.1 hin))) sha256_empty

/-- An empty file `/b`. -/
def second : File := fileAt [str "b"] (some emptyDigest) (by decide)
  (fun _ hin => name_letter (.inr (List.mem_singleton.1 hin))) sha256_empty

/-- An empty file `b` in a directory whose name is that of the first file and its fingerprint. -/
def both : File := fileAt [str "a" ++ fingerprintText (some emptyDigest), str "b"]
    (some emptyDigest) (by decide)
  (fun name hin => by
    rcases List.mem_cons.1 hin with rfl | hin
    · exact name_append (name_letter (.inl rfl)) _
    · exact name_letter (.inr (List.mem_singleton.1 hin))) sha256_empty

end TwoFiles

/-- Two files have the identity of one. -/
theorem digestInput_merged : ¬ ∀ l m : List File, digestInput l = digestInput m → l = m := by
  intro hall
  have hpieces : pieces [TwoFiles.first, TwoFiles.second] = pieces [TwoFiles.both] := by rfl
  have heq := hall _ _ (digestInput_iff.2 hpieces)
  exact absurd (congrArg List.length heq) (by decide)

end FileIdentity

end Libjadx
