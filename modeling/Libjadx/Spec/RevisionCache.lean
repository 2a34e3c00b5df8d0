import Mathlib.Data.Finset.Basic
import Mathlib.Data.Int.ConditionallyCompleteOrder
import Mathlib.Order.ConditionallyCompleteLattice.Basic

/-!
# The client's revisions

`RevisionCache` of the Python client, which every decoded response is shown to, and the server that
it watches: boots with session ids of their own, whose revisions do not decrease while a boot lasts.
-/

namespace Libjadx

/-- The attributes that `observe` asks an object for: `none` for a missing one, and for `None`. -/
structure Attributes where
  /-- `str(session_id)`, of a `UUID` or a text. -/
  sessionId : Option String
  logicalRevision : Option ℤ
  logicalRevisionAfter : Option ℤ
  afterLogicalRevision : Option ℤ
  indexRevision : Option ℤ
  indexRevisionAfter : Option ℤ
  afterIndexRevision : Option ℤ
deriving DecidableEq

/-- A decoded response. -/
structure Observation where
  own : Attributes
  /-- Its attribute `revisions`, if it has one. -/
  revisions : Option Attributes

namespace Observation

/-- `getattr(result, "revisions", result)`. -/
def revisionSet (result : Observation) : Attributes := result.revisions.getD result.own

def session (result : Observation) : Option String := result.revisionSet.sessionId

def logical (result : Observation) : Option ℤ :=
  let revisions := result.revisionSet
  revisions.logicalRevision <|> revisions.logicalRevisionAfter <|> revisions.afterLogicalRevision

def index (result : Observation) : Option ℤ :=
  let revisions := result.revisionSet
  revisions.indexRevision <|> revisions.indexRevisionAfter <|> revisions.afterIndexRevision

end Observation

structure RevisionCache where
  retired : Finset String
  sessionId : Option String
  logicalRevision : Option ℤ
  indexRevision : Option ℤ

namespace RevisionCache

/-- The constructor. -/
def init : RevisionCache := ⟨∅, none, none, none⟩

/-- What the lock guards, for a response with a session and a logical revision. -/
def accept (session : String) (logical : ℤ) (index : Option ℤ) (c : RevisionCache) :
    RevisionCache :=
  if session ∈ c.retired then c
  else if c.sessionId ≠ some session then
    { retired := match c.sessionId with
        | some old => insert old c.retired
        | none => c.retired
      sessionId := some session
      logicalRevision := some logical
      indexRevision := index }
  else
    { c with
      logicalRevision := some (max (c.logicalRevision.getD 0) logical)
      indexRevision := match index with
        | some index => some (max (c.indexRevision.getD 0) index)
        | none => c.indexRevision }

def observe (result : Observation) (c : RevisionCache) : RevisionCache :=
  match result.session, result.logical with
  | some session, some logical => accept session logical result.index c
  | _, _ => c

/-! ## The server -/

/-- The boots of a server, each with its session id, and its revisions over time. -/
structure History where
  session : ℕ → String
  distinct : Function.Injective session
  logical : ℕ → ℕ → ℤ
  index : ℕ → ℕ → ℤ
  logical_mono : ∀ boot, Monotone (logical boot)
  index_mono : ∀ boot, Monotone (index boot)

/-- A response, with the boot that sent it, and when. -/
structure Response where
  boot : ℕ
  moment : ℕ
  result : Observation

/-- The response says what holds of its boot at its moment. -/
structure History.Sends (h : History) (r : Response) : Prop where
  session : ∀ session ∈ r.result.session, session = h.session r.boot
  logical : ∀ logical ∈ r.result.logical, logical = h.logical r.boot r.moment
  index : ∀ index ∈ r.result.index, index = h.index r.boot r.moment

/-- The responses that `observe` does not pass over. -/
def Response.Telling (r : Response) : Prop :=
  r.result.session.isSome = true ∧ r.result.logical.isSome = true

instance (r : Response) : Decidable r.Telling := inferInstanceAs (Decidable (_ ∧ _))

/-- The cache after the responses, in the order in which the client observes them. -/
def after (rs : List Response) : RevisionCache := rs.foldl (fun c r => c.observe r.result) init

/-! ## What should hold -/

/-- A revision that is known stays known, and does not decrease. -/
def NotBelow (new old : Option ℤ) : Prop := ∀ x ∈ old, ∃ y ∈ new, x ≤ y

/-- The revisions of one session, at two times. -/
structure Grows (c d : RevisionCache) : Prop where
  logical : NotBelow d.logicalRevision c.logicalRevision
  index : NotBelow d.indexRevision c.indexRevision

/-- The cached revisions of a session never decrease, and a response of an older boot neither
replaces the session of a newer boot nor retires it. -/
structure Converges (h : History) (rs : List Response) : Prop where
  grows : ∀ l₁ l₂ l₃, rs = l₁ ++ l₂ ++ l₃ → ∀ session, (after l₁).sessionId = some session →
    (after (l₁ ++ l₂)).sessionId = some session → Grows (after l₁) (after (l₁ ++ l₂))
  newer : ∀ l₁ r l₂, rs = l₁ ++ r :: l₂ → ∀ boot, (after l₁).sessionId = some (h.session boot) →
    r.boot < boot →
    (after (l₁ ++ [r])).sessionId = some (h.session boot) ∧
      h.session boot ∉ (after (l₁ ++ [r])).retired

/-- A boot that is heard of for the first time is newer than those heard of before. -/
def InOrder (rs : List Response) : Prop :=
  ∀ l₁ r l₂, rs = l₁ ++ r :: l₂ → r.Telling → (∀ x ∈ l₁, x.Telling → x.boot ≠ r.boot) →
    ∀ x ∈ l₁, x.Telling → x.boot < r.boot

end RevisionCache

end Libjadx
