import Mathlib.Data.List.TakeWhile
import Libjadx.Spec.Sse

/-!
# What a cut of the stream may change

* `reads`: what a stream says, from the parser on: the events of its frames in order up to the
  terminal one, or up to where it is malformed, and how it ends. It does not know of chunks.
* `scan_more`: the scan of a stream is the scan of its first part, and then of the rest.
* `delivered_iff`: **`Job.events` delivers what the stream says exactly when no slice holds the end
  of an event together with the point where the stream is malformed, and nothing that counts follows
  the terminal event in its chunk.**
-/

namespace Libjadx

/-- How an iteration ends, up to the text of the error. -/
inductive Ending
  | returned
  | ended
  | protocolError
  | raised (e : PyError)
deriving DecidableEq

/-- How an error ends the stream. -/
def PyError.ending : PyError → Ending
  | .unexpectedResponse _ => .protocolError
  | .transport _ => .ended
  | e => .raised e

/-- How an outcome ends it. -/
def Outcome.ending : Outcome → Ending
  | .returns => .returned
  | .raises e => e.ending

namespace Parser

open Locked

variable (env : PyEnv)

/-- The parser with more bytes to read. -/
def more (p : Parser) (l : List UInt8) : Parser := { p with pending := p.pending ++ l }

/-- What is pending exceeds a limit. -/
def Over (p : Parser) : Prop := MAX_LINE < p.pending.length ∨ MAX_FRAME < p.frameBytes +
    p.pending.length

instance (p : Parser) : Decidable p.Over := inferInstanceAs (Decidable (_ ∨ _))

/-- The events of the complete lines that are pending, up to the terminal one. -/
def scanLines : ℕ → Parser → List PyEvent × Except PyError Parser
  | 0, p => ([], .ok p)
  | n + 1, p =>
    if 10 ∉ p.pending then ([], .ok p)
    else match line env (p.pending.takeWhile (· ≠ 10)) p with
      | (.error e, _) => ([], .error e)
      | (.ok none, q) => scanLines n q
      | (.ok (some e), q) =>
        if e.state.terminal then ([e], .ok { q with terminal := true })
        else (e :: (scanLines n q).1, (scanLines n q).2)

/-- The events of a buffer, and the parser behind them. -/
def scan (p : Parser) : List PyEvent × Except PyError Parser := scanLines env p.pending.length p

/-- What a stream says. -/
def reads (p : Parser) (stream : List UInt8) : List PyEvent × Ending :=
  match scan env (p.more stream) with
  | (events, .error e) => (events, e.ending)
  | (events, .ok q) => (events, if q.terminal then .returned else if q.Over then .protocolError
      else .ended)

/-- After the terminal event nothing counts: no event, and no error. -/
def Quiet : List (List UInt8) → Parser → Prop
  | [], _ => True
  | slice :: l, p => ∃ q, scan env (p.more slice) = ([], .ok q) ∧ ¬q.Over ∧ Quiet l q

/-- The slices of a chunk: where the stream is malformed no event ends in the same slice, and after
the terminal event nothing counts. `next` is what the chunks that follow must meet. -/
def Careful (next : Parser → Prop) : List (List UInt8) → Parser → Prop
  | [], p => next p
  | slice :: l, p => match scan env (p.more slice) with
    | (events, .error _) => events = []
    | (events, .ok q) => if q.terminal then Quiet env l q else if q.Over then events = []
        else Careful next l q

/-- The same of every chunk, delivered in its slices. -/
def Harmless : List (List UInt8) → Parser → Prop
  | [], _ => True
  | chunk :: l, p => Careful env (Harmless l) (Job.slices chunk.length chunk) p

/-! ## Lines -/

variable {env} {p q : Parser} {l : List UInt8} {n m : ℕ} {events : List PyEvent}

@[simp] theorem more_pending (p : Parser) (l : List UInt8) :
    (p.more l).pending = p.pending ++ l := rfl

@[simp] theorem more_terminal (p : Parser) (l : List UInt8) :
    (p.more l).terminal = p.terminal := rfl

/-- Two chunks are one. -/
theorem more_more (p : Parser) (l m : List UInt8) : (p.more l).more m = p.more (l ++ m) := by
  simp [more]

@[simp] theorem more_nil (p : Parser) : p.more [] = p := by
  simp [more]

/-- What `_event` does with a parser: it moves `lastId` only, and looks at neither `pending` nor
`terminal`. -/
theorem event_more (p : Parser) (l : List UInt8) :
    event env (p.more l) = ((event env p).1, (event env p).2.more l) := by
  unfold event
  simp only [bind_get]
  have hlines : (p.more l).lines = p.lines := rfl
  have hchecked : ∀ f, checked env (p.more l) f = checked env p f := fun _ => rfl
  rw [hlines]
  cases fields p.lines ⟨[], none, none⟩ with
  | error e => rfl
  | ok f =>
    dsimp only
    rw [hchecked]
    by_cases hd : f.data = []
    · rw [if_pos hd]
      split <;> rfl
    · rw [if_neg hd]
      cases checked env p f <;> rfl

variable (env) in
/-- An event touches neither the buffer nor the end. -/
theorem event_keeps (p : Parser) :
    (event env p).2.pending = p.pending ∧ (event env p).2.terminal = p.terminal := by
  unfold event
  simp only [bind_get]
  cases fields p.lines ⟨[], none, none⟩ with
  | error e => exact ⟨rfl, rfl⟩
  | ok f =>
    dsimp only
    by_cases hd : f.data = []
    · rw [if_pos hd]
      split <;> exact ⟨rfl, rfl⟩
    · rw [if_neg hd]
      cases checked env p f <;> exact ⟨rfl, rfl⟩

/-- The parser that has taken a line. -/
def take (p : Parser) (bytes : List UInt8) : Parser :=
  { p with pending := p.pending.drop (bytes.length + 1), frameBytes := p.frameBytes +
    bytes.length + 1 }

/-- A line, in closed form. -/
theorem line_run (bytes : List UInt8) (p : Parser) : line env bytes p =
    if bytes.length > MAX_LINE then (.error (.unexpectedResponse "Oversized SSE line"), p)
    else match Utf8.decode bytes with
      | none => (.error (.unexpectedResponse "Invalid SSE UTF-8"), p)
      | some text =>
        if (p.take bytes).frameBytes > MAX_FRAME then
          (.error (.unexpectedResponse "Oversized SSE frame"), p.take bytes)
        else if rstrip text ≠ [] then (.ok none, { p.take bytes with lines := p.lines ++ [rstrip text] })
        else match event env (p.take bytes) with
          | (.error e, q) => (.error e, q)
          | (.ok o, q) => (.ok o, { q with lines := [], frameBytes := 0 }) := by
  unfold line
  rw [ite_run]
  split
  · rfl
  cases Utf8.decode bytes with
  | none => rfl
  | some text =>
    dsimp only
    rw [bind_modify, bind_get, ite_run]
    show (if (p.take bytes).frameBytes > MAX_FRAME then _ else _) = _
    split
    · rfl
    rw [ite_run]
    split
    · rfl
    rcases he : event env (p.take bytes) with ⟨e | o, q⟩
    · exact bind_error he
    · exact bind_ok he

/-- **A line that is there is taken alike, whatever follows.** -/
theorem take_more {bytes : List UInt8} (h : bytes.length + 1 ≤ p.pending.length) (l : List UInt8) :
    (p.more l).take bytes = (p.take bytes).more l := by
  unfold take more
  rw [List.drop_append_of_le_length h]

variable (env) in
/-- A line does not look beyond itself. -/
theorem line_more {bytes : List UInt8} (h : bytes.length + 1 ≤ p.pending.length) (l : List UInt8) :
    line env bytes (p.more l) = ((line env bytes p).1, (line env bytes p).2.more l) := by
  rw [line_run, line_run, take_more h]
  split
  · rfl
  cases Utf8.decode bytes with
  | none => rfl
  | some text =>
    dsimp only
    rw [event_more]
    have hbytes : ((p.take bytes).more l).frameBytes = (p.take bytes).frameBytes := rfl
    rw [hbytes]
    split
    · rfl
    split
    · rfl
    rcases event env (p.take bytes) with ⟨e | o, q⟩ <;> rfl

/-- What a line leaves: the buffer behind it, and no bytes of the frame when it was an event. -/
theorem line_ok {bytes : List UInt8} {o : Option PyEvent} (h : line env bytes p = (.ok o, q)) :
    q.pending = p.pending.drop (bytes.length + 1) ∧ q.terminal = p.terminal ∧
      (o ≠ none → q.frameBytes = 0) := by
  rw [line_run] at h
  split at h
  · simp at h
  cases hd : Utf8.decode bytes with
  | none =>
    rw [hd] at h
    simp at h
  | some text =>
    rw [hd] at h
    dsimp only at h
    split at h
    · simp at h
    split at h
    · obtain ⟨ho, rfl⟩ := Prod.mk.inj h
      refine ⟨rfl, rfl, fun hne => absurd (Except.ok.inj ho).symm hne⟩
    obtain ⟨hpending, hterminal⟩ := event_keeps env (p.take bytes)
    rcases he : event env (p.take bytes) with ⟨e | o', q'⟩
    · rw [he] at h
      simp at h
    · rw [he] at h hpending hterminal
      obtain ⟨ho, rfl⟩ := Prod.mk.inj h
      exact ⟨hpending, hterminal, fun _ => rfl⟩

/-- The first line that is pending. -/
abbrev head (p : Parser) : List UInt8 := p.pending.takeWhile (· ≠ 10)

/-- A line ends within the buffer. -/
theorem head_lt (h : 10 ∈ p.pending) : p.head.length + 1 ≤ p.pending.length := by
  have hsplit := List.takeWhile_append_dropWhile (p := (· ≠ (10 : UInt8))) (l := p.pending)
  have hne : p.pending.dropWhile (· ≠ 10) ≠ [] := by
    intro hnil
    simpa using List.dropWhile_eq_nil_iff.1 hnil 10 h
  have hlen := congrArg List.length hsplit
  rw [List.length_append] at hlen
  have hpos := List.length_pos_iff.2 hne
  show (p.pending.takeWhile (· ≠ 10)).length + 1 ≤ _
  omega

/-- What follows does not change the first line. -/
theorem head_more (h : 10 ∈ p.pending) (l : List UInt8) : (p.more l).head = p.head := by
  show (p.pending ++ l).takeWhile _ = p.pending.takeWhile _
  rw [List.takeWhile_append]
  have hlt := head_lt h
  rw [if_neg]
  intro he
  have he' : p.head.length = p.pending.length := he
  omega

/-- A line that is complete is taken off. -/
theorem line_lt {o : Option PyEvent} (hin : 10 ∈ p.pending) (h : line env p.head p = (.ok o, q)) :
    q.pending.length < p.pending.length := by
  rw [(line_ok h).1, List.length_drop]
  have hlt := head_lt hin
  omega

/-! ## The scan -/

/-- Fuel for the buffer is fuel enough. -/
theorem scanLines_fuel (hn : p.pending.length ≤ n) (hm : p.pending.length ≤ m) :
    scanLines env n p = scanLines env m p := by
  induction n generalizing p m with
  | zero =>
    have hnil : p.pending = [] := List.length_eq_zero_iff.1 (Nat.le_zero.1 hn)
    cases m with
    | zero => rfl
    | succ m =>
      have hnone : 10 ∉ p.pending := by simp [hnil]
      rw [scanLines, scanLines, if_pos hnone]
  | succ n ih =>
    by_cases hin : 10 ∈ p.pending
    swap
    · cases m with
      | zero => rw [scanLines, scanLines, if_pos hin]
      | succ m => rw [scanLines, scanLines, if_pos hin, if_pos hin]
    have hpos := head_lt hin
    cases m with
    | zero => omega
    | succ m =>
      rw [scanLines, scanLines, if_neg (not_not.2 hin), if_neg (not_not.2 hin)]
      rcases hl : line env (p.pending.takeWhile (· ≠ 10)) p with ⟨e | o, q⟩
      · rfl
      · have hlt := line_lt hin hl
        have hq : scanLines env n q = scanLines env m q := ih (by omega) (by omega)
        cases o with
        | none => exact hq
        | some e => simp only [hq]

variable (env) in
/-- The scan, line by line. -/
theorem scan_eq (p : Parser) : scan env p =
    if 10 ∉ p.pending then ([], .ok p)
    else match line env p.head p with
      | (.error e, _) => ([], .error e)
      | (.ok none, q) => scan env q
      | (.ok (some e), q) =>
        if e.state.terminal then ([e], .ok { q with terminal := true })
            else (e :: (scan env q).1, (scan env q).2) := by
  by_cases hin : 10 ∈ p.pending
  swap
  · rw [if_pos hin]
    unfold scan
    cases p.pending.length with
    | zero => rfl
    | succ n => rw [scanLines, if_pos hin]
  rw [if_neg (not_not.2 hin)]
  have hpos := head_lt hin
  obtain ⟨n, hn⟩ : ∃ n, p.pending.length = n + 1 := ⟨p.pending.length - 1, by omega⟩
  unfold scan
  rw [hn, scanLines, if_neg (not_not.2 hin)]
  rcases hl : line env (p.pending.takeWhile (· ≠ 10)) p with ⟨e | o, q⟩
  · rfl
  · have hlt := line_lt hin hl
    have hq : scanLines env n q = scanLines env q.pending.length q :=
      scanLines_fuel (by omega) le_rfl
    cases o with
    | none => exact hq
    | some e => simp only [hq]

variable (env) in
/-- Induction along the lines. -/
theorem scan_induction {P : Parser → Prop}
    (h : ∀ p, (10 ∈ p.pending → ∀ o q, line env p.head p = (.ok o, q) → P q) → P p) (p : Parser) :
    P p := by
  induction hn : p.pending.length using Nat.strong_induction_on generalizing p with
  | _ n ih =>
    refine h p fun hin o q hl => ih q.pending.length ?_ q rfl
    rw [← hn]
    exact line_lt hin hl

variable (env) in
/-- How one line of a scan goes on: it is over, or the rest is scanned. -/
theorem scan_cases (hin : 10 ∈ p.pending) :
    (∃ e, (line env p.head p).1 = .error e ∧ scan env p = ([], .error e)) ∨
    ∃ o q, line env p.head p = (.ok o, q) ∧
      ((∃ e, o = some e ∧ e.state.terminal = true ∧ scan env p = ([e], .ok { q with terminal := true })) ∨
        (∀ e ∈ o, e.state.terminal = false) ∧
        scan env p = (o.toList ++ (scan env q).1, (scan env q).2)) := by
  have heq := scan_eq env p
  rw [if_neg (not_not.2 hin)] at heq
  rcases hl : line env p.head p with ⟨e | o, q⟩
  · rw [hl] at heq
    exact .inl ⟨e, rfl, heq⟩
  rw [hl] at heq
  refine .inr ⟨o, q, rfl, ?_⟩
  cases o with
  | none => exact .inr ⟨by simp, heq⟩
  | some e =>
    dsimp only at heq
    cases ht : e.state.terminal with
    | true =>
      rw [if_pos ht] at heq
      exact .inl ⟨e, rfl, ht, heq⟩
    | false =>
      rw [if_neg (by simp [ht])] at heq
      refine .inr ⟨fun e' he => ?_, heq⟩
      obtain rfl := Option.some.inj he
      exact ht

/-- Without a line feed nothing is scanned. -/
theorem scan_none (h : 10 ∉ p.pending) : scan env p = ([], .ok p) := by
  rw [scan_eq env, if_pos h]

variable (env) in
/-- **The scan goes over a cut**: what the first part says, and then what the parser says from
there. -/
theorem scan_more (l : List UInt8) (p : Parser) :
    p.terminal = false → scan env (p.more l) = match scan env p with
    | (events, .error e) => (events, .error e)
    | (events, .ok q) => if q.terminal then (events, .ok (q.more l)) else
        (events ++ (scan env (q.more l)).1, (scan env (q.more l)).2) := by
  induction p using scan_induction env with
  | _ p ih =>
  intro hp
  by_cases hin : 10 ∈ p.pending
  swap
  · rw [scan_none hin]
    simp [hp]
  have hin' : 10 ∈ (p.more l).pending := List.mem_append_left _ hin
  have hline := line_more env (head_lt hin) l
  have hhead := head_more hin l
  rcases scan_cases env hin with ⟨e, he, hs⟩ | ⟨o, q, hl, hs⟩
  · -- the line is malformed with and without the rest
    rw [hs]
    rcases scan_cases env hin' with ⟨e', he', hs'⟩ | ⟨o', q', hl', -⟩
    · rw [hhead, hline, he] at he'
      obtain rfl := Except.error.inj he'
      exact hs'
    · rw [hhead, hline, he] at hl'
      simp at hl'
  have hq : q.terminal = false := (line_ok hl).2.1.trans hp
  have hcont := ih hin o q hl hq
  rw [hl] at hline
  rw [scan_eq env, if_neg (not_not.2 hin'), hhead, hline]
  rcases hs with ⟨e, rfl, ht, hs⟩ | ⟨ho, hs⟩
  · rw [hs]
    dsimp only
    rw [if_pos ht, if_pos rfl]
    rfl
  · rw [hs]
    have hgoes : scan env (p.more l) = (o.toList ++ (scan env (q.more l)).1,
        (scan env (q.more l)).2) := by
      rw [scan_eq env, if_neg (not_not.2 hin'), hhead, hline]
      cases o with
      | none => rfl
      | some e =>
        dsimp only
        rw [if_neg (by simp [ho e rfl])]
        rfl
    rw [scan_eq env, if_neg (not_not.2 hin'), hhead, hline] at hgoes
    rw [hgoes, hcont]
    rcases scan env q with ⟨events, e | q'⟩
    · rfl
    · dsimp only
      split
      · rfl
      · rw [List.append_assoc]

/-- Where the scan returns it stopped at the terminal event, or no line is left. -/
theorem scan_rest (p : Parser) : p.terminal = false → ∀ {events q}, scan env p = (events, .ok q) →
    10 ∉ q.pending ∧ q.terminal = false ∨
      q.terminal = true ∧ q.frameBytes = 0 ∧ 10 ∈ p.pending ∧
        q.pending.length + p.head.length + 1 ≤ p.pending.length := by
  induction p using scan_induction env with
  | _ p ih =>
  intro hp events q' h
  by_cases hin : 10 ∈ p.pending
  swap
  · rw [scan_none hin] at h
    obtain ⟨-, h⟩ := Prod.mk.inj h
    obtain rfl := Except.ok.inj h
    exact .inl ⟨hin, hp⟩
  rcases scan_cases env hin with ⟨e, -, hs⟩ | ⟨o, q, hl, hs⟩
  · rw [hs] at h
    simp at h
  obtain ⟨hpending, hterminal, hframe⟩ := line_ok hl
  have hlen := congrArg List.length hpending
  rw [List.length_drop] at hlen
  have hlt := head_lt hin
  rcases hs with ⟨e, rfl, ht, hs⟩ | ⟨ho, hs⟩
  · rw [hs] at h
    obtain ⟨-, h⟩ := Prod.mk.inj h
    obtain rfl := Except.ok.inj h
    refine .inr ⟨rfl, hframe (by simp), hin, ?_⟩
    show q.pending.length + p.head.length + 1 ≤ _
    omega
  · rw [hs] at h
    have hq : scan env q = ((scan env q).1, .ok q') := by
      rw [← (Prod.mk.inj h).2]
    rcases ih hin o q hl (hterminal.trans hp) hq with hrest | ⟨ht, hf, -, hle⟩
    · exact .inl hrest
    · refine .inr ⟨ht, hf, hin, ?_⟩
      omega

/-- The flag stays. -/
theorem scan_terminal (p : Parser) :
    p.terminal = true → ∀ {events q}, scan env p = (events, .ok q) → q.terminal = true := by
  induction p using scan_induction env with
  | _ p ih =>
  intro hp events q' h
  by_cases hin : 10 ∈ p.pending
  swap
  · rw [scan_none hin] at h
    obtain rfl := Except.ok.inj (Prod.mk.inj h).2
    exact hp
  rcases scan_cases env hin with ⟨e, -, hs⟩ | ⟨o, q, hl, ⟨e, rfl, ht, hs⟩ | ⟨ho, hs⟩⟩
  · rw [hs] at h
    simp at h
  · rw [hs] at h
    obtain rfl := Except.ok.inj (Prod.mk.inj h).2
    rfl
  · rw [hs] at h
    have hq : scan env q = ((scan env q).1, .ok q') := by
      rw [← (Prod.mk.inj h).2]
    exact ih hin o q hl ((line_ok hl).2.1.trans hp) hq

/-! ## Slices -/

variable (env) in
/-- One round of the loop of `feed`. -/
theorem feedLines_succ (n : ℕ) (events : List PyEvent) (p : Parser) :
    feedLines env (n + 1) events p = if 10 ∉ p.pending then (.ok events, p) else
      (do
        let event ← line env (p.pending.takeWhile (· ≠ 10))
        match event with
        | none => feedLines env n events
        | some e =>
          if e.state.terminal then do
            modify fun p => { p with terminal := true }
            pure (events ++ [e])
          else feedLines env n (events ++ [e]) : Section (List PyEvent)) p := by
  rw [feedLines, bind_get, ite_run]
  rfl

variable (env) in
/-- The loop of `feed` is the scan, but what it read before an error is lost. -/
theorem feedLines_scan (n : ℕ) (events : List PyEvent) (p : Parser) : match scanLines env n p with
    | (_, .error e) => ∃ q, feedLines env n events p = (.error e, q)
    | (more, .ok q) => feedLines env n events p = (.ok (events ++ more), q) := by
  induction n generalizing events p with
  | zero =>
    show _ = (_, _)
    rw [List.append_nil]
    rfl
  | succ n ih =>
    rw [scanLines, feedLines_succ]
    by_cases hin : 10 ∉ p.pending
    · rw [if_pos hin, if_pos hin]
      dsimp only
      rw [List.append_nil]
    rw [if_neg hin, if_neg hin]
    rcases hl : line env (p.pending.takeWhile (· ≠ 10)) p with ⟨e | o, q⟩
    · exact ⟨q, bind_error hl⟩
    rw [bind_ok hl]
    cases o with
    | none => exact ih events q
    | some e =>
      dsimp only
      by_cases ht : e.state.terminal = true
      · rw [if_pos ht, if_pos ht]
        rfl
      · rw [if_neg ht, if_neg ht]
        have hrest := ih (events ++ [e]) q
        rcases hs : scanLines env n q with ⟨more, e' | q'⟩
        · rw [hs] at hrest
          exact hrest
        · rw [hs] at hrest
          dsimp only at hrest ⊢
          rw [hrest, List.append_assoc, List.singleton_append]

variable (env) in
/-- **A slice**: what `feed` makes of the scan. -/
theorem feed_scan (slice : List UInt8) (p : Parser) : match scan env (p.more slice) with
    | (_, .error e) => ∃ q, feed env slice p = (.error e, q)
    | (events, .ok q) =>
      if q.Over then ∃ m q', feed env slice p = (.error (.unexpectedResponse m), q')
      else feed env slice p = (.ok events, q) := by
  have hlines := feedLines_scan env (p.more slice).pending.length [] (p.more slice)
  have hfeed : feed env slice p = (do
      let events ← feedLines env (p.more slice).pending.length []
      let p ← get
      if p.pending.length > MAX_LINE then throw (.unexpectedResponse "Oversized SSE line")
      else if p.frameBytes + p.pending.length > MAX_FRAME then throw (.unexpectedResponse "Oversized SSE frame")
      else pure events : Section (List PyEvent)) (p.more slice) := rfl
  rw [hfeed]
  unfold scan
  rcases hs : scanLines env (p.more slice).pending.length (p.more slice) with ⟨events, e | q⟩
  · rw [hs] at hlines
    obtain ⟨q, hq⟩ := hlines
    exact ⟨q, bind_error hq⟩
  rw [hs] at hlines
  dsimp only at hlines ⊢
  rw [bind_ok hlines, bind_get, ite_run, ite_run, List.nil_append]
  by_cases hline : q.pending.length > MAX_LINE
  · have hover : q.Over := .inl hline
    rw [if_pos hover, if_pos hline]
    exact ⟨_, _, rfl⟩
  by_cases hframe : q.frameBytes + q.pending.length > MAX_FRAME
  · have hover : q.Over := .inr hframe
    rw [if_pos hover, if_neg hline, if_pos hframe]
    exact ⟨_, _, rfl⟩
  · have hover : ¬q.Over := not_or.2 ⟨hline, hframe⟩
    rw [if_neg hover, if_neg hline, if_neg hframe]
    rfl

/-- Between two slices: no line is left, the job goes on, and the limits hold. -/
structure Resting (p : Parser) : Prop where
  lines : 10 ∉ p.pending
  running : p.terminal = false
  within : ¬p.Over

/-- After the terminal event what is left of the slice is short. -/
theorem not_over_of_terminal {slice : List UInt8} (hp : p.Resting) (hlen : slice.length ≤ 16384)
    (h : scan env (p.more slice) = (events, .ok q)) (hq : q.terminal = true) : ¬q.Over := by
  rcases scan_rest (p.more slice) hp.running h with ⟨-, hno⟩ | ⟨-, hframe, -, hle⟩
  · rw [hq] at hno
    simp at hno
  have hhead : p.pending.length ≤ (p.more slice).head.length := by
    show _ ≤ ((p.pending ++ slice).takeWhile _).length
    have hall : ∀ x ∈ p.pending, decide (x ≠ 10) = true := fun x hx => decide_eq_true fun he =>
      hp.lines (he ▸ hx)
    rw [List.takeWhile_append_of_pos hall, List.length_append]
    omega
  rw [more_pending, List.length_append] at hle
  unfold Over MAX_LINE MAX_FRAME
  omega

/-- What exceeds a limit stays malformed, whatever comes. -/
theorem reads_over (hlines : 10 ∉ p.pending) (hrun : p.terminal = false) (h : p.Over)
    (l : List UInt8) :
    reads env p l = ([], .protocolError) := by
  unfold reads
  by_cases hin : 10 ∈ (p.more l).pending
  swap
  · rw [scan_none hin]
    have hover : (p.more l).Over := by
      unfold Over at h ⊢
      rw [more_pending, List.length_append]
      rcases h with h | h
      · exact .inl (by omega)
      · exact .inr (by show _ < p.frameBytes + _; omega)
    simp [hrun, hover]
  -- the line that ends first is too long
  have hhead : p.pending.length ≤ (p.more l).head.length := by
    show _ ≤ ((p.pending ++ l).takeWhile _).length
    have hall : ∀ x ∈ p.pending, decide (x ≠ 10) = true := fun x hx => decide_eq_true fun he =>
      hlines (he ▸ hx)
    rw [List.takeWhile_append_of_pos hall, List.length_append]
    omega
  have hline : ∃ m, (line env (p.more l).head (p.more l)).1 = .error (.unexpectedResponse m) := by
    rw [line_run]
    split
    · exact ⟨_, rfl⟩
    rename_i hshort
    cases Utf8.decode (p.more l).head with
    | none => exact ⟨_, rfl⟩
    | some text =>
      have hframe : ((p.more l).take (p.more l).head).frameBytes > MAX_FRAME := by
        show p.frameBytes + (p.more l).head.length + 1 > MAX_FRAME
        rcases h with h | h <;> omega
      dsimp only
      rw [if_pos hframe]
      exact ⟨_, rfl⟩
  obtain ⟨m, hm⟩ := hline
  rcases scan_cases env hin with ⟨e, he, hs⟩ | ⟨o, q, hl, -⟩
  · rw [hm] at he
    obtain rfl := Except.error.inj he
    rw [hs]
    rfl
  · rw [hl] at hm
    simp at hm

/-- **What a stream says goes over a cut.** -/
theorem reads_append (hrun : p.terminal = false) (slice l : List UInt8) :
    reads env p (slice ++ l) = match scan env (p.more slice) with
    | (events, .error e) => (events, e.ending)
    | (events, .ok q) => if q.terminal then (events, .returned) else (events ++ (reads env q l).1,
        (reads env q l).2) := by
  have hmore := scan_more env l (p.more slice) hrun
  unfold reads
  rw [← more_more, hmore]
  rcases scan env (p.more slice) with ⟨events, e | q⟩
  · rfl
  dsimp only
  by_cases ht : q.terminal = true
  · rw [if_pos ht, if_pos ht]
    dsimp only
    rw [more_terminal, if_pos ht]
  · rw [if_neg ht, if_neg ht]
    rcases scan env (q.more l) with ⟨more, e | q'⟩ <;> rfl

end Parser

namespace Job

open Libjadx.Parser

variable (env : PyEnv)

/-- What `events` delivers. -/
def delivered (chunks : List (List UInt8)) (p : Parser) : List PyEvent × Ending :=
  ((events env chunks p).1, (events env chunks p).2.ending)

variable {env} {p q : Parser}

/-- The slices of a chunk are the chunk. -/
theorem slices_flatten {n : ℕ} {chunk : List UInt8} (h : chunk.length ≤ n) :
    (slices n chunk).flatten = chunk := by
  induction n generalizing chunk with
  | zero => exact (List.length_eq_zero_iff.1 (Nat.le_zero.1 h)).symm
  | succ n ih =>
    cases chunk with
    | nil => rfl
    | cons b chunk =>
      rw [List.length_cons] at h
      have hrest : (slices n ((b :: chunk).drop 16384)).flatten = (b :: chunk).drop 16384 := by
        refine ih ?_
        rw [List.length_drop, List.length_cons]
        omega
      rw [slices, List.flatten_cons, hrest, List.take_append_drop]
      simp

/-- None is longer than 16384 bytes. -/
theorem slices_short (n : ℕ) (chunk : List UInt8) :
    ∀ slice ∈ slices n chunk, slice.length ≤ 16384 := by
  induction n generalizing chunk with
  | zero => simp [slices]
  | succ n ih =>
    cases chunk with
    | nil => simp [slices]
    | cons b chunk =>
      intro slice hs
      rw [slices] at hs
      · rcases List.mem_cons.1 hs with rfl | hs
        · rw [List.length_take]
          exact min_le_left _ _
        · exact ih _ slice hs
      · simp

/-! ## The iteration -/

/-- What the slices of a chunk deliver, with what follows them. -/
def goesOn (env : PyEnv) (rest : Parser → List PyEvent × Ending) (l : List (List UInt8))
    (p : Parser) : List PyEvent × Ending :=
  match yields env l p with
  | (yielded, .error e) => (yielded, e.ending)
  | (yielded, .ok q) => if q.terminal then (yielded, .returned)
      else (yielded ++ (rest q).1, (rest q).2)

/-- A chunk is delivered slice by slice. -/
theorem delivered_cons (chunk : List UInt8) (l : List (List UInt8)) (p : Parser) :
    delivered env (chunk :: l) p = goesOn env (delivered env l) (slices chunk.length chunk) p := by
  unfold delivered goesOn
  rw [events]
  rcases yields env (slices chunk.length chunk) p with ⟨yielded, e | q⟩
  · rfl
  dsimp only
  split <;> rfl

/-- A slice that is malformed: its events are lost. -/
theorem goesOn_error {rest : Parser → List PyEvent × Ending} {slice : List UInt8}
    {l : List (List UInt8)} {e : PyError}
    (h : feed env slice p = (.error e, q)) : goesOn env rest (slice :: l) p = ([], e.ending) := by
  unfold goesOn
  rw [yields, h]

/-- A slice that is fed yields its events first. -/
theorem goesOn_ok {rest : Parser → List PyEvent × Ending} {slice : List UInt8}
    {l : List (List UInt8)} {evs : List PyEvent}
    (h : feed env slice p = (.ok evs, q)) :
    goesOn env rest (slice :: l) p = (evs ++ (goesOn env rest l q).1, (goesOn env rest l q).2) := by
  have hyields : yields env (slice :: l) p = (evs ++ (yields env l q).1, (yields env l q).2) :=
    by rw [yields, h]
  unfold goesOn
  rw [hyields]
  rcases yields env l q with ⟨yielded, e | q'⟩
  · rfl
  · dsimp only
    by_cases ht : q'.terminal = true
    · rw [if_pos ht, if_pos ht]
    · rw [if_neg ht, if_neg ht, List.append_assoc]

/-- No error ends the stream as a return does. -/
theorem ending_ne_returned (e : PyError) : e.ending ≠ .returned := by
  cases e <;> simp [PyError.ending]

/-- After the terminal event: the slices deliver nothing exactly when they are quiet. -/
theorem quiet_iff (rest : Parser → List PyEvent × Ending) (l : List (List UInt8))
    (hq : q.terminal = true) :
    goesOn env rest l q = ([], .returned) ↔ Quiet env l q := by
  induction l generalizing q with
  | nil => simp [goesOn, yields, hq, Quiet]
  | cons slice l ih =>
    have hfeed := feed_scan env slice q
    rcases hs : scan env (q.more slice) with ⟨evs, e | q'⟩
    · -- an error after the terminal event
      rw [hs] at hfeed
      obtain ⟨r, hr⟩ := hfeed
      rw [goesOn_error hr, Quiet, hs]
      simp [ending_ne_returned]
    rw [hs] at hfeed
    dsimp only at hfeed
    by_cases hover : q'.Over
    · rw [if_pos hover] at hfeed
      obtain ⟨m, r, hr⟩ := hfeed
      rw [goesOn_error hr, Quiet, hs]
      simp [PyError.ending, hover]
    · rw [if_neg hover] at hfeed
      have hterm : q'.terminal = true := scan_terminal (q.more slice) hq hs
      have ih' := ih hterm
      rw [goesOn_ok hfeed, Quiet, hs]
      constructor
      · intro h
        obtain ⟨hevs, hend⟩ := Prod.mk.inj h
        obtain ⟨rfl, hnil⟩ := List.append_eq_nil_iff.1 hevs
        exact ⟨q', rfl, hover, ih'.1 (Prod.ext hnil hend)⟩
      · rintro ⟨r, hr, -, hquiet⟩
        obtain ⟨rfl, heq⟩ := Prod.mk.inj hr
        obtain rfl := Except.ok.inj heq
        rw [ih'.2 hquiet]
        rfl

theorem append_eq_iff {evs : List PyEvent} {a b : List PyEvent × Ending} :
    (evs ++ a.1, a.2) = (evs ++ b.1, b.2) ↔ a = b := by
  rw [Prod.mk.injEq, List.append_cancel_left_eq, ← Prod.ext_iff]

/-- The slices of a chunk deliver what the stream says exactly when they are careful. -/
theorem careful_iff {rest : Parser → List PyEvent × Ending} {next : Parser → Prop}
    {tail : List UInt8} (l : List (List UInt8))
    (hshort : ∀ slice ∈ l, slice.length ≤ 16384)
    (hrest : ∀ q, q.Resting → (rest q = reads env q tail ↔ next q)) (hp : p.Resting) :
    goesOn env rest l p = reads env p (l.flatten ++ tail) ↔ Careful env next l p := by
  induction l generalizing p with
  | nil =>
    have hnil : goesOn env rest [] p = rest p := by
      unfold goesOn
      rw [yields]
      simp [hp.running]
    rw [hnil]
    exact hrest p hp
  | cons slice l ih =>
    have hfeed := feed_scan env slice p
    rw [List.flatten_cons, List.append_assoc, reads_append hp.running, Careful]
    rcases hs : scan env (p.more slice) with ⟨evs, e | q⟩
    · -- the slice is malformed: what it read before is what differs
      rw [hs] at hfeed
      obtain ⟨r, hr⟩ := hfeed
      rw [goesOn_error hr]
      simp [eq_comm]
    rw [hs] at hfeed
    dsimp only at hfeed ⊢
    by_cases hterm : q.terminal = true
    · have hover := not_over_of_terminal hp (hshort slice List.mem_cons_self) hs hterm
      rw [if_neg hover] at hfeed
      rw [if_pos hterm, if_pos hterm, goesOn_ok hfeed, ← quiet_iff rest l hterm]
      have happ : (evs ++ (goesOn env rest l q).1, (goesOn env rest l q).2) =
          (evs ++ [], .returned) ↔
          goesOn env rest l q = ([], .returned) := @append_eq_iff evs (goesOn env rest l q)
            ([], .returned)
      rw [List.append_nil] at happ
      exact happ
    rw [if_neg hterm, if_neg hterm]
    rw [Bool.not_eq_true] at hterm
    rcases scan_rest (p.more slice) hp.running hs with ⟨hlines, -⟩ | ⟨hno, -⟩
    swap
    · rw [hterm] at hno
      simp at hno
    by_cases hover : q.Over
    · rw [if_pos hover] at hfeed
      obtain ⟨m, r, hr⟩ := hfeed
      rw [if_pos hover, goesOn_error hr, reads_over hlines hterm hover]
      simp [PyError.ending, eq_comm]
    · rw [if_neg hover] at hfeed
      rw [if_neg hover, goesOn_ok hfeed, append_eq_iff]
      exact ih (fun s hs => hshort s (List.mem_cons_of_mem _ hs)) ⟨hlines, hterm, hover⟩

/-- Between two chunks. -/
theorem harmless_iff (chunks : List (List UInt8)) (hp : p.Resting) :
    delivered env chunks p = reads env p chunks.flatten ↔ Harmless env chunks p := by
  induction chunks generalizing p with
  | nil =>
    have hreads : reads env p [] = ([], .ended) := by
      unfold reads
      rw [more_nil, scan_none hp.lines]
      simp [hp.running, hp.within]
    rw [List.flatten_nil, hreads]
    exact iff_of_true rfl trivial
  | cons chunk chunks ih =>
    rw [delivered_cons, List.flatten_cons]
    have hslices := slices_flatten (le_refl chunk.length)
    have h := careful_iff (slices chunk.length chunk) (slices_short _ _)
      (fun q (hq : q.Resting) => ih hq) hp
    rw [hslices] at h
    exact h

/-- **`Job.events` delivers what the stream says, however the network cuts it, exactly when the cut
is harmless**: no slice holds the end of an event together with the point where the stream is
malformed, and what follows the terminal event in its chunk completes no event and no error. -/
theorem delivered_iff (env : PyEnv) (jobId : JobId) (lastId : ℤ) (chunks : List (List UInt8)) :
    delivered env chunks (.make jobId lastId) = reads env (.make jobId lastId) chunks.flatten ↔
      Harmless env chunks (.make jobId lastId) := by
  refine harmless_iff chunks ⟨?_, rfl, ?_⟩
  · simp [Parser.make]
  · simp [Over, Parser.make]

/-! ## A cut that matters -/

namespace LostEvent

/-- The data of the first event of job 7. -/
def text : PyStr :=
  py "\x7b\"jobId\":\"00000000-0000-0000-0000-000000000007\",\"sequence\":1,\"type\":\"job.queued\"," ++
    py "\"at\":\"2024-01-01T00:00:00Z\",\"state\":\"QUEUED\",\"progress\":\x7b\"completed\":0,\"total\":null," ++
    py "\"stage\":\"queued\"\x7d,\"resultUrl\":\"/api/v1/jobs/00000000-0000-0000-0000-000000000007\"\x7d"

/-- Its tree. -/
def tree : Json := .obj [(py "jobId", .str (py "00000000-0000-0000-0000-000000000007")),
    (py "sequence", .int 1),
  (py "type", .str (py "job.queued")), (py "at", .str (py "2024-01-01T00:00:00Z")),
    (py "state", .str (py "QUEUED")),
  (py "progress", .obj [(py "completed", .int 0), (py "total", .null), (py "stage", .str (py "queued"))]),
  (py "resultUrl", .str (py "/api/v1/jobs/00000000-0000-0000-0000-000000000007"))]

/-- The libraries, on this data. -/
def libraries : PyEnv where
  loads s := if s = text then .ok tree else .error .value
  uuid
    | .str s => if s = py "00000000-0000-0000-0000-000000000007" then .ok 7 else .error .value
    | _ => .error .attribute
  fromisoformat
    | .str s => if s = py "2024-01-01T00:00:00Z" then .ok 1704067200000000 else .error .value
    | _ => .error .type

def frame : List UInt8 := Utf8.encode (py "id: 1\nevent: job.queued\ndata: " ++ text ++ py "\n\n")

/-- A frame with a field that nobody knows. -/
def malformed : List UInt8 := Utf8.encode (py "retry: 1\n\n")

theorem lost : ((events libraries [frame ++ malformed] (.make 7 0)).1.length = 0 ∧
    (events libraries [frame, malformed] (.make 7 0)).1.length = 1) := by decide +kernel

end LostEvent

/-- The event before a malformed frame is lost where both come in one chunk. -/
theorem delivered_depends_on_chunks :
    ¬∀ (env : PyEnv) (jobId : JobId) (lastId : ℤ) (chunks chunks' : List (List UInt8)),
    chunks.flatten = chunks'.flatten → delivered env chunks
      (.make jobId lastId) = delivered env chunks' (.make jobId lastId) := by
  intro h
  have hcut : [LostEvent.frame ++ LostEvent.malformed].flatten =
    [LostEvent.frame, LostEvent.malformed].flatten := by simp
  have heq := h LostEvent.libraries 7 0 _ _ hcut
  unfold delivered at heq
  obtain ⟨hevents, -⟩ := Prod.mk.inj heq
  obtain ⟨hnone, hone⟩ := LostEvent.lost
  rw [hevents, hone] at hnone
  exact absurd hnone (by decide)

end Job

end Libjadx
