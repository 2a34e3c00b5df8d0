import Libjadx.Spec.Census

/-!
# Names, parameters and descriptors

The census cuts a method descriptor at its first closing parenthesis. That text is a
function of the parsed parameter list (`arguments_of_parameters`), but not the other way
round: a class name in a descriptor may itself hold a parenthesis.
-/

namespace Libjadx

/-- A bind passes where both parts do. -/
theorem isOk_bind {α β : Type} {x : Except String α} {f : α → Except String β} :
    (x >>= f).isOk = true ↔ ∃ a, x = .ok a ∧ (f a).isOk = true := by
  cases x with
  | error e => simp [Bind.bind, Except.bind, Except.isOk, Except.toBool]
  | ok a => simp [Bind.bind, Except.bind]

theorem not_isOk_throw {α : Type} {e : String} : ¬ (throw e : Except String α).isOk = true := by
  simp [throw, throwThe, MonadExceptOf.throw, Except.isOk, Except.toBool]

/-- A guard passes where its condition does not hold. -/
theorem isOk_guard {α : Type} {c : Prop} [Decidable c] {e : String} {x : Except String α} :
    (if c then throw e >>= fun (_ : PUnit) => x else x).isOk = true ↔ ¬ c ∧ x.isOk = true := by
  split
  · rename_i hc
    simp [hc, isOk_bind, throw, throwThe, MonadExceptOf.throw]
  · simp_all

namespace MethodRecord

/-- A method reference has a checked method descriptor. -/
theorem checked_descriptor (m : MethodRecord) :
    ∃ d, m.ref.originalDescriptor = some d ∧ (validateMethodDescriptor d).isOk = true := by
  obtain ⟨hkind, -⟩ := m.method
  have hv := m.ref.2
  unfold SymbolRef.kind at hkind
  unfold SymbolRef.originalDescriptor
  generalize m.ref.1 = f at hkind hv ⊢
  obtain ⟨k, c, i, n, d⟩ := f
  simp only at hkind
  subst hkind
  unfold SymbolFields.validate at hv
  obtain ⟨-, -, hv⟩ := isOk_bind.1 hv
  obtain ⟨-, hv⟩ := isOk_guard.1 hv
  cases n with
  | none => exact absurd hv not_isOk_throw
  | some name =>
    obtain ⟨-, -, hv⟩ := isOk_bind.1 hv
    cases d with
    | none => exact absurd hv not_isOk_throw
    | some descriptor =>
      obtain ⟨-, hv⟩ := isOk_guard.1 hv
      rw [if_neg (show ¬ (SymbolKind.METHOD == SymbolKind.FIELD) = true by decide)] at hv
      obtain ⟨u, hu, -⟩ := isOk_bind.1 hv
      exact ⟨descriptor, rfl, by rw [hu]; rfl⟩

theorem has_descriptor (m : MethodRecord) : ∃ d, m.ref.originalDescriptor = some d :=
  m.checked_descriptor.imp fun _ h => h.1

/-- The descriptor of a method record was checked. -/
theorem descriptor_valid (m : MethodRecord) :
    (validateMethodDescriptor m.descriptor).isOk = true := by
  obtain ⟨d, hd, hv⟩ := m.checked_descriptor
  rw [descriptor, hd]
  exact hv

end MethodRecord

/-- The parse stops at a closing parenthesis. -/
theorem argumentsEnd_valid {value : JString} (h : (validateMethodDescriptor value).isOk = true) :
    ∃ pos, argumentsEnd value value.length 1 = .ok pos ∧ value[pos]? = some (chr ')') := by
  unfold validateMethodDescriptor at h
  obtain ⟨-, h⟩ := isOk_guard.1 h
  obtain ⟨pos, hpos, h⟩ := isOk_bind.1 h
  obtain ⟨hp, -⟩ := isOk_guard.1 h
  exact ⟨pos, hpos, by simpa using hp⟩

namespace MethodRecord

/-- `arguments()` reads no further than the parameter list. -/
theorem arguments_of_parameters (m : MethodRecord) :
    m.arguments = (parameters m.descriptor).take
      ((parameters m.descriptor).idxOf (chr ')') + 1) := by
  obtain ⟨pos, hpos, hp⟩ := argumentsEnd_valid (descriptor_valid m)
  unfold MethodRecord.arguments parameters JString.indexOf
  rw [hpos]
  simp only
  generalize m.descriptor = d at hp
  -- the first parenthesis is not after the one the parse stops at
  have hlt : pos < d.length := (List.getElem?_eq_some_iff.1 hp).1
  have hget : d[pos] = chr ')' := (List.getElem?_eq_some_iff.1 hp).2
  have hmem : chr ')' ∈ d.take (pos + 1) := by
    rw [List.mem_take_iff_getElem]
    exact ⟨pos, by omega, hget⟩
  have hidx : (d.take (pos + 1)).idxOf (chr ')') = d.idxOf (chr ')') := by
    conv_rhs => rw [← List.take_append_drop (pos + 1) d]
    rw [List.idxOf_append_of_mem hmem]
  have hle : d.idxOf (chr ')') + 1 ≤ pos + 1 := by
    have := List.idxOf_lt_length_of_mem hmem
    rw [hidx, List.length_take] at this
    omega
  rw [hidx, List.take_take, min_eq_left hle]

/-- Methods with the same name and parameters have the same signature. -/
theorem signature_of_parameters {m m' : MethodRecord} (hn : m.name = m'.name)
    (hp : parameters m.descriptor = parameters m'.descriptor) : m.signature = m'.signature := by
  unfold MethodRecord.signature
  rw [hn, arguments_of_parameters, arguments_of_parameters, hp]

/-- One signature text, one name and one return type: one descriptor. -/
theorem descriptor_of_signature {m m' : MethodRecord} (hs : m.signature = m'.signature)
    (hn : m.name = m'.name) (hr : m.returns = m'.returns) : m.descriptor = m'.descriptor := by
  have ha : m.arguments = m'.arguments := by
    unfold MethodRecord.signature at hs
    rw [hn] at hs
    exact List.append_cancel_left hs
  have hsplit : ∀ m : MethodRecord, m.descriptor = m.arguments ++ m.returns :=
    fun m => (List.take_append_drop _ _).symm
  rw [hsplit m, hsplit m', ha, hr]

end MethodRecord

end Libjadx
