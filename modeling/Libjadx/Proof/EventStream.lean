import Mathlib.Data.List.ReduceOption
import Libjadx.Proof.Acts
import Libjadx.Proof.Sse
import Libjadx.Proof.Stream
import Libjadx.Spec.EventStream

/-!
# What the server writes, the client reads

* `feeds_scan`: a stream that the parser reads to its end is read under any chunking.
* `scan_frame`: a frame is read as one event, and a heartbeat as none.
* `feeds_stream`: **a contiguous run of one job's events is read as those events.**
-/

namespace Libjadx

namespace Parser

open Locked

variable {env : PyEnv} {p q : Parser} {events : List PyEvent}

/-! ## Chunks -/

/-- Chunks without bytes. -/
theorem feeds_nothing (chunks : List (List UInt8)) (h : chunks.flatten = []) (hp : p.pending = [])
    (hf : p.frameBytes = 0) :
    feeds env chunks p = (.ok [], p) := by
  induction chunks with
  | nil => rfl
  | cons chunk chunks ih =>
    rw [List.flatten_cons, List.append_eq_nil_iff] at h
    obtain ⟨rfl, hrest⟩ := h
    have hfeed := feed_scan env [] p
    have hover : ¬p.Over := by simp [Over, hp, hf]
    rw [more_nil, scan_none (by simp [hp])] at hfeed
    dsimp only at hfeed
    rw [if_neg hover] at hfeed
    rw [feeds, bind_ok hfeed, bind_ok (ih hrest)]
    rfl

/-- **A stream that is read to its end is read under any chunking.** -/
theorem feeds_scan (chunks : List (List UInt8)) (hp : p.Resting)
    (h : scan env (p.more chunks.flatten) = (events, .ok q))
    (hq : q.pending = []) (hf : q.frameBytes = 0) : feeds env chunks p = (.ok events, q) := by
  have hnot : ¬q.Over := by simp [Over, hq, hf]
  induction chunks generalizing p events with
  | nil =>
    rw [List.flatten_nil, more_nil, scan_none hp.lines] at h
    obtain ⟨rfl, heq⟩ := Prod.mk.inj h
    obtain rfl := Except.ok.inj heq
    rfl
  | cons chunk chunks ih =>
    have hmore := scan_more env chunks.flatten (p.more chunk) hp.running
    rw [more_more, ← List.flatten_cons, h] at hmore
    have hfeed := feed_scan env chunk p
    rcases hs : scan env (p.more chunk) with ⟨evs, e | r⟩
    · rw [hs] at hmore
      simp at hmore
    rw [hs] at hmore hfeed
    dsimp only at hmore hfeed
    by_cases hterm : r.terminal = true
    · -- nothing follows the terminal event
      rw [if_pos hterm] at hmore
      obtain ⟨rfl, heq⟩ := Prod.mk.inj hmore
      obtain rfl := Except.ok.inj heq
      obtain ⟨hpending, hnil⟩ := List.append_eq_nil_iff.1 hq
      have hover : ¬r.Over := by
        have hbytes : r.frameBytes = 0 := hf
        simp [Over, hpending, hbytes]
      rw [if_neg hover] at hfeed
      rw [feeds, bind_ok hfeed, bind_ok (feeds_nothing chunks hnil hpending hf), hnil, more_nil,
        pure_run, List.append_nil]
    rw [if_neg hterm] at hmore
    obtain ⟨rfl, heq⟩ := Prod.mk.inj hmore
    have hrest : scan env (r.more chunks.flatten) = ((scan env (r.more chunks.flatten)).1, .ok q) :=
      by rw [heq]
    rw [Bool.not_eq_true] at hterm
    rcases scan_rest (p.more chunk) hp.running hs with ⟨hlines, -⟩ | ⟨hno, -⟩
    swap
    · rw [hterm] at hno
      simp at hno
    -- were the slice over a limit, the whole stream would be malformed
    have hover : ¬r.Over := by
      intro hover
      have hreads : reads env r chunks.flatten = _ := reads_over hlines hterm hover chunks.flatten
      unfold reads at hreads
      rw [hrest] at hreads
      dsimp only at hreads
      rw [if_neg hnot] at hreads
      have hend := (Prod.mk.inj hreads).2
      split at hend <;> simp at hend
    rw [if_neg hover] at hfeed
    rw [feeds, bind_ok hfeed, bind_ok (ih ⟨hlines, hterm, hover⟩ hrest)]
    rfl

/-! ## Lines -/

/-- A line that is neither cut nor stripped. -/
structure Clean (line : PyStr) : Prop where
  scalar : ∀ c ∈ line, Utf8.Scalar c
  whole : ∀ c ∈ line, c ≠ 10 ∧ c ≠ 13

/-- A clean line has no trailing white space, -/
theorem Clean.rstrip {line : PyStr} (h : Clean line) : Parser.rstrip line = line := by
  unfold Parser.rstrip
  cases hr : line.reverse with
  | nil => simpa using hr
  | cons c l =>
    have hc : c ∈ line := List.mem_reverse.1 (hr ▸ List.mem_cons_self)
    rw [List.dropWhile_cons_of_neg (by simpa using (h.whole c hc).2), ← hr, List.reverse_reverse]

/-- and no line feed in its bytes. -/
theorem Clean.no_lineFeed {line : PyStr} (h : Clean line) : 10 ∉ Utf8.encode line := by
  intro hin
  obtain ⟨c, hc, hb⟩ := List.mem_flatMap.1 hin
  have hlt : c < 0x110000 := by
    rcases h.scalar c hc with h | h <;> omega
  have heq := Utf8.mem_bytes_ascii hlt hb (by decide)
  exact (h.whole c hc).1 heq

/-- What the parser holds once it has read a line. -/
def reading (p : Parser) (line : PyStr) : Parser :=
  { p with lines := p.lines ++ [line], frameBytes := p.frameBytes + (Utf8.encode line).length + 1 }

/-- The parser finds a line up to its line feed. -/
theorem head_line (hp : p.pending = []) {line : PyStr} (h : Clean line) (rest : List UInt8) :
    (p.more (Utf8.encode line ++ 10 :: rest)).head = Utf8.encode line := by
  show ((p.pending ++ _).takeWhile _) = _
  rw [hp, List.nil_append, List.takeWhile_append_of_pos]
  · simp
  · intro b hb
    have hne : b ≠ 10 := fun he => h.no_lineFeed (he ▸ hb)
    simpa using hne

/-- **A line is taken.** -/
theorem scan_line (hp : p.pending = []) {line : PyStr} (h : Clean line) (hne : line ≠ [])
    (rest : List UInt8)
    (hsize : p.frameBytes + (Utf8.encode line).length + 1 ≤ MAX_FRAME) :
    scan env (p.more (Utf8.encode line ++ 10 :: rest)) = scan env ((p.reading line).more rest) := by
  have hin : 10 ∈ (p.more (Utf8.encode line ++ 10 :: rest)).pending := by simp
  have hlen : ¬(Utf8.encode line).length > MAX_LINE := by
    unfold MAX_FRAME at hsize
    unfold MAX_LINE
    omega
  have hframe : ¬((p.more (Utf8.encode line ++ 10 :: rest)).take (Utf8.encode line)).frameBytes >
      MAX_FRAME := by
    show ¬p.frameBytes + (Utf8.encode line).length + 1 > MAX_FRAME
    omega
  have hdrop : (p.pending ++ (Utf8.encode line ++ 10 :: rest)).drop ((Utf8.encode line).length +
      1) = p.pending ++ rest := by
    rw [hp, List.nil_append, List.nil_append, List.drop_append]
    simp
  rw [scan_eq env, if_neg (not_not.2 hin), head_line hp h, line_run, if_neg hlen,
    Utf8.decode_encode h.scalar]
  dsimp only
  rw [if_neg hframe, h.rstrip, if_pos hne]
  dsimp only
  have heq : { (p.more (Utf8.encode line ++ 10 :: rest)).take (Utf8.encode line) with
      lines := (p.more (Utf8.encode line ++ 10 :: rest)).lines ++ [line] } =
          (p.reading line).more rest := by
    simp only [take, more, reading, hdrop]
  rw [heq]

/-- **A blank line ends a frame.** -/
theorem scan_blank {o : Option PyEvent} (hp : p.pending = []) (hrun : p.terminal = false)
    (he : event env { p with frameBytes := p.frameBytes + 1 } = (.ok o, q))
    (hsize : p.frameBytes + 1 ≤ MAX_FRAME) :
    scan env (p.more [10]) =
      (o.toList, .ok { q with lines := [], frameBytes := 0, terminal := o.any fun e =>
          e.state.terminal }) := by
  have hclean : Clean [] := ⟨by simp, by simp⟩
  have hin : 10 ∈ (p.more [10]).pending := by simp
  have hhead : (p.more [10]).head = [] := head_line hp hclean []
  have htake : (p.more [10]).take [] = { p with frameBytes := p.frameBytes + 1 } := by
    simp [take, more, hp]
  have hlen : ¬([] : List UInt8).length > MAX_LINE := by simp
  have hframe : ¬{ p with frameBytes := p.frameBytes + 1 }.frameBytes > MAX_FRAME := by
    show ¬p.frameBytes + 1 > MAX_FRAME
    omega
  have hkeeps := event_keeps env { p with frameBytes := p.frameBytes + 1 }
  rw [he] at hkeeps
  have hpending : q.pending = [] := hkeeps.1.trans hp
  have hterm : q.terminal = false := hkeeps.2.trans hrun
  have hrest : scan env { q with lines := [], frameBytes := 0 } =
      ([], .ok { q with lines := [], frameBytes := 0 }) :=
    scan_none (by simp [hpending])
  rw [scan_eq env, if_neg (not_not.2 hin), hhead, line_run, if_neg hlen, htake]
  have hdecode : Utf8.decode [] = some [] := rfl
  rw [hdecode]
  dsimp only
  rw [if_neg hframe, hclean.rstrip, if_neg (by simp), he]
  cases o with
  | none =>
    dsimp only
    rw [hrest]
    simp [hterm]
  | some e =>
    dsimp only
    cases ht : e.state.terminal with
    | true => simp [ht]
    | false =>
      rw [if_neg (by simp), hrest]
      simp [hterm, ht]

/-! ## Fields -/

/-- A line with data is added to the data. -/
theorem fields_data (value : PyStr) (l : List PyStr) (f : Fields) :
    fields ((py "data: " ++ value) :: l) f = fields l { f with data := f.data ++ [value] } := by
  simp [fields, py, removeprefix]

/-- A line with an id sets the id. -/
theorem fields_id (value : PyStr) (l : List PyStr) (f : Fields) :
    fields ((py "id: " ++ value) :: l) f = fields l { f with eventId := some value } := by
  simp [fields, py, removeprefix]

/-- A line with an event sets its type. -/
theorem fields_event (value : PyStr) (l : List PyStr) (f : Fields) :
    fields ((py "event: " ++ value) :: l) f = fields l { f with eventType := some value } := by
  simp [fields, py, removeprefix]

/-- A comment is no event. -/
theorem event_comment (hl : p.lines = [py ": heartbeat"]) : event env p = (.ok none, p) := by
  unfold event
  rw [bind_get, hl]
  rfl

end Parser

/-! ## What the data say -/

open Libjadx.Parser

/-- The digits of a `long` are read as that number. -/
theorem toInt_digits {n : ℕ} (h : n < 2 ^ 63) :
    toInt ((digits n).map UInt16.toNat) = .ok (n : ℤ) := by
  have hlen : (digits n).length ≤ 19 := (digits_length (by omega)).2 (by omega)
  have hvalue : ((digits n).map UInt16.toNat).foldl (fun k c => k * 10 + (c - 48)) 0 = n := by
    rw [List.foldl_map]
    exact digits_value n
  unfold toInt
  rw [if_pos (by rw [List.length_map]; omega), hvalue]

theorem isDecimal_digits (n : ℕ) : isDecimal ((digits n).map UInt16.toNat) = true := by
  have hne : ((digits n).map UInt16.toNat).isEmpty = false := by
    simp [digits_ne_nil]
  unfold isDecimal
  rw [hne, Bool.not_false, Bool.true_and, List.all_eq_true]
  intro c hc
  obtain ⟨x, hx, rfl⟩ := List.mem_map.1 hc
  have hrange := mem_digits hx
  simpa using hrange

@[simp] theorem JobEventType.parse_value (type : EventType) :
    JobEventType.parse (.str type.value) = .ok type := by
  cases type <;> rfl

@[simp] theorem JobEventState.parse_value (state : JobState) :
    JobEventState.parse (.str state.value) = .ok state := by
  cases state <;> rfl

/-- The model reads the tree of the data. -/
theorem fromDict_tree {env : JobEnv} {texts : Texts} {client : PyEnv} {d : EventData}
    (h : Understood env texts client d) (hd : EventData.Dated d.instant) :
    PyEvent.fromDict client (d.tree texts) = .ok (d.received texts) := by
  have huuid := h.uuid
  have hat := h.fromisoformat hd
  simp [PyEvent.fromDict, PyProgress.fromDict, EventData.tree, EventData.received, Json.dict,
    Json.pop, List.lookup_cons, py, bind,
    Except.bind, pure, Except.pure, huuid, hat]

variable {env : JobEnv} {texts : Texts} {client : PyEnv} {d : EventData} {last : ℕ}

/-- The lines of a frame. -/
def EventData.frameLines (env : JobEnv) (d : EventData) : List PyStr :=
  [py "id: " ++ (digits d.sequence).map UInt16.toNat, py "event: " ++ d.type.value,
    py "data: " ++ codePoints (env.writeValueAsString d)]

/-- **The frame of an event is an event.** -/
theorem event_frame {p : Parser} (h : Understood env texts client d)
    (hs : Paired d.progress.stage = true)
    (hd : EventData.Dated d.instant) (hlong : d.sequence < 2 ^ 63) (hl : p.lines = d.frameLines env)
    (hjob : p.jobId = d.jobId) (hlast : p.lastId < d.sequence) :
    event client p = (.ok (some (d.received texts)), { p with lastId := d.sequence }) := by
  have hfields : fields p.lines ⟨[], none, none⟩ = .ok ⟨[codePoints (env.writeValueAsString d)],
      some ((digits d.sequence).map UInt16.toNat), some d.type.value⟩ := by
    rw [hl, EventData.frameLines, fields_id, fields_event, fields_data]
    rfl
  have hchecked : checked client p ⟨[codePoints (env.writeValueAsString d)],
      some ((digits d.sequence).map UInt16.toNat), some d.type.value⟩ = .ok
          ((d.sequence : ℤ), d.received texts) := by
    have hnot : ¬((d.sequence : ℤ) ≤ p.lastId ∨ ¬(d.received texts).sequence.eqInt d.sequence ∨
        some d.type.value ≠ some (d.received texts).type.value ∨
            (d.received texts).jobId ≠ p.jobId) := by
      simp only [EventData.received, Json.eqInt, hjob]
      simpa using hlast
    have hjoin : List.intercalate [10] [codePoints (env.writeValueAsString d)] = codePoints
        (env.writeValueAsString d) := by
      simp [List.intercalate]
    unfold checked
    simp only [isDecimal_digits, if_true, toInt_digits hlong, hjoin, h.loads hs, fromDict_tree h hd,
      bind, Except.bind]
    rw [if_neg hnot]
    rfl
  unfold event
  rw [Locked.bind_get, hfields]
  dsimp only
  rw [if_neg (by simp), hchecked]
  rfl

/-! ## Frames -/

namespace JobEventsHandler

/-- The name of a type is its own code points. -/
theorem name_points (type : EventType) :
    Paired type.name = true ∧ codePoints type.name = type.value := by
  cases type <;> exact ⟨by decide, by decide⟩

/-- The code points of a frame. -/
theorem frame_points (h : Paired (env.writeValueAsString d) = true) :
    codePoints (frame (d.event env)) =
    (py "id: " ++ (digits d.sequence).map UInt16.toNat) ++ 10 :: ((py "event: " ++ d.type.value) ++
      10 :: ((py "data: " ++ codePoints (env.writeValueAsString d)) ++ 10 :: [10])) := by
  have hid : Paired (str "id: ") = true ∧ codePoints (str "id: ") = py "id: " :=
    ⟨by decide, by decide⟩
  have hevent : Paired (str "\nevent: ") = true ∧ codePoints (str "\nevent: ") = 10 ::
    py "event: " := ⟨by decide, by decide⟩
  have hdata : Paired (str "\ndata: ") = true ∧ codePoints (str "\ndata: ") = 10 :: py "data: " :=
    ⟨by decide, by decide⟩
  have hend : codePoints (str "\n\n") = 10 :: [10] := by decide
  have hdigits := plain_text (digits_plain (n := d.sequence))
  have hname := name_points d.type
  have happ : ∀ {s : JString} {l : List ℕ}, Paired s = true ∧ codePoints s = l →
      ∀ t, codePoints (s ++ t) = l ++ codePoints t := by
    rintro s l ⟨hs, rfl⟩ t
    exact (paired_append hs t).1
  unfold frame EventData.event
  simp only [List.append_assoc]
  rw [happ hid, happ hdigits, happ hevent, happ hname, happ hdata, happ ⟨h, rfl⟩, hend]
  simp

/-- The lines of a frame are neither cut nor stripped. -/
theorem frameLines_clean (h : Understood env texts client d) :
    ∀ line ∈ d.frameLines env, Clean line ∧ line ≠ [] := by
  have hlit : ∀ {a b : PyStr}, (∀ c ∈ a, 32 ≤ c ∧ c < 128) → Clean b → Clean (a ++ b) := by
    refine fun ha hb => ⟨fun c hc => ?_, fun c hc => ?_⟩ <;>
      rcases List.mem_append.1 hc with hc | hc
    · have hrange := ha c hc
      exact .inl (by omega)
    · exact hb.scalar c hc
    · have hrange := ha c hc
      exact ⟨by omega, by omega⟩
    · exact hb.whole c hc
  have hnil : Clean [] := ⟨by simp, by simp⟩
  intro line hl
  simp only [EventData.frameLines, List.mem_cons, List.not_mem_nil, or_false] at hl
  rcases hl with rfl | rfl | rfl
  · have hdigits : Clean ((digits d.sequence).map UInt16.toNat) := by
      rw [← List.append_nil ((digits d.sequence).map UInt16.toNat)]
      refine hlit (fun c hc => ?_) hnil
      obtain ⟨x, hx, rfl⟩ := List.mem_map.1 hc
      have hrange := mem_digits hx
      omega
    exact ⟨hlit (by decide) hdigits, by simp [py]⟩
  · have hvalue : Clean d.type.value := by
      rw [← List.append_nil d.type.value]
      exact hlit (by cases d.type <;> decide) hnil
    exact ⟨hlit (by decide) hvalue, by simp [py]⟩
  · have hjson : Clean (codePoints (env.writeValueAsString d)) := by
      refine ⟨codePoints_scalar _, fun c hc => ?_⟩
      rcases mem_codePoints hc with hc | hc | ⟨x, hx, hc⟩
      · omega
      · omega
      · have hlow := h.escaped x hx
        omega
    exact ⟨hlit (by decide) hjson, by simp [py]⟩

/-- **A frame is read as its event.** -/
theorem scan_frame (h : Understood env texts client d) (hs : Paired d.progress.stage = true)
    (hd : EventData.Dated d.instant)
    (hlong : d.sequence < 2 ^ 63) (hlast : last < d.sequence)
    (hsize : (getBytes (frame (d.event env))).length ≤ MAX_FRAME) :
    scan client ((Parser.make d.jobId last).more (getBytes (frame (d.event env)))) =
      ([d.received texts], .ok { Parser.make d.jobId d.sequence with terminal := d.state.terminal }) := by
  have hclean := frameLines_clean h
  obtain ⟨a, b, c, hlines⟩ : ∃ a b c, d.frameLines env = [a, b, c] := ⟨_, _, _, rfl⟩
  have hbytes : getBytes (frame (d.event env)) =
      Utf8.encode a ++ 10 :: (Utf8.encode b ++ 10 :: (Utf8.encode c ++ 10 :: [10])) := by
    have hpoints := frame_points (h.paired hs)
    simp only [EventData.frameLines, List.cons.injEq, and_true] at hlines
    obtain ⟨ha, hb, hc⟩ := hlines
    rw [ha, hb, hc] at hpoints
    unfold getBytes
    rw [hpoints]
    simp [Utf8.encode_append, Utf8.encode_cons, Utf8.bytes]
  have hfits := hsize
  rw [hbytes] at hfits
  simp only [List.length_append, List.length_cons, List.length_nil] at hfits
  rw [hlines] at hclean
  obtain ⟨hca, hna⟩ := hclean a (by simp)
  obtain ⟨hcb, hnb⟩ := hclean b (by simp)
  obtain ⟨hcc, hnc⟩ := hclean c (by simp)
  let p := Parser.make d.jobId last
  have hzero : p.frameBytes = 0 := rfl
  have hnone : p.pending = [] := rfl
  rw [hbytes, scan_line hnone hca hna _ (by omega)]
  rw [scan_line (p := p.reading a) hnone hcb hnb _ (by simp only [reading]; omega)]
  rw [scan_line (p := (p.reading a).reading b) hnone hcc hnc _ (by simp only [reading]; omega)]
  have hnumber : p.lastId < d.sequence := by
    show (last : ℤ) < d.sequence
    omega
  have hevent := event_frame (p := { ((p.reading a).reading b).reading c with
    frameBytes := (((p.reading a).reading b).reading c).frameBytes + 1 }) h hs hd hlong
      hlines.symm rfl hnumber
  rw [scan_blank rfl rfl hevent (by simp only [reading]; omega)]
  rfl

/-- **A heartbeat is read as nothing.** -/
theorem scan_heartbeat (id : JobId) (last : ℤ) :
    scan client ((Parser.make id last).more (getBytes heartbeat)) = ([], .ok (Parser.make id last)) := by
  have hbytes : getBytes heartbeat = Utf8.encode (py ": heartbeat") ++ 10 :: [10] := by decide
  have hclean : Clean (py ": heartbeat") := ⟨by decide, by decide⟩
  have hsize : 0 + (Utf8.encode (py ": heartbeat")).length + 1 ≤ MAX_FRAME := by decide
  have hblank : 0 + (Utf8.encode (py ": heartbeat")).length + 1 + 1 ≤ MAX_FRAME := by decide
  rw [hbytes, scan_line rfl hclean (by decide) _ hsize]
  let p := (Parser.make id last).reading (py ": heartbeat")
  have hevent : event client { p with frameBytes := p.frameBytes + 1 } =
      (.ok none, { p with frameBytes := p.frameBytes + 1 }) :=
    event_comment rfl
  rw [scan_blank rfl rfl hevent hblank]
  rfl

/-! ## Streams -/

/-- What the client can read of an event. -/
structure Legible (env : JobEnv) (texts : Texts) (client : PyEnv) (d : EventData) : Prop extends
    Understood env texts client d where
  stage : Paired d.progress.stage = true
  dated : EventData.Dated d.instant
  long : d.sequence < 2 ^ 63
  frame : (getBytes (frame (d.event env))).length ≤ MAX_FRAME

/-- What is behind the first bytes is read by the parser that they leave. -/
theorem scan_make_append {id : JobId} (l m : List UInt8) :
    scan client ((Parser.make id last).more (l ++ m)) =
    match scan client ((Parser.make id last).more l) with
    | (events, .error e) => (events, .error e)
    | (events, .ok q) => if q.terminal then (events, .ok (q.more m)) else
        (events ++ (scan client (q.more m)).1, (scan client (q.more m)).2) := by
  rw [← more_more]
  exact scan_more client m ((Parser.make id last).more l) rfl

/-- **A stream is read as the events that were served.** -/
theorem scan_stream {id : JobId} {polls : List (Option EventData)}
    (hlegible : ∀ d ∈ polls.reduceOption, d.jobId = id ∧ Legible env texts client d)
    (hseq : polls.reduceOption.map EventData.sequence = List.range'
      (last + 1) polls.reduceOption.length) :
    ∃ n : ℕ, scan client ((Parser.make id last).more
      (stream (polls.map (Option.map (EventData.event env))))) =
      ((served (fun d => d.state.terminal) polls).map (EventData.received texts),
        .ok { Parser.make id n with
          terminal := (served (fun d => d.state.terminal) polls).getLast?.any fun d =>
            d.state.terminal }) := by
  -- by the polls: each writes one frame, and the parser has read it before the next
  induction polls generalizing last with
  | nil =>
    refine ⟨last, ?_⟩
    exact scan_none (p := Parser.make id last) (by simp [Parser.make])
  | cons poll polls ih =>
    cases poll with
    -- a poll without an event writes a heartbeat, which is passed over
    | none =>
      rw [List.reduceOption_cons_of_none] at hlegible hseq
      obtain ⟨n, hn⟩ := ih hlegible hseq
      refine ⟨n, ?_⟩
      have hstream : stream ((none :: polls).map (Option.map (EventData.event env))) =
          getBytes heartbeat ++ stream (polls.map (Option.map (EventData.event env))) := rfl
      rw [hstream, scan_make_append, scan_heartbeat]
      dsimp only
      have hserved : served (fun d => d.state.terminal) (none :: polls) = served
        (fun d : EventData => d.state.terminal) polls := rfl
      rw [hserved, if_neg (by simp [Parser.make]), hn]
      rfl
    | some d =>
      rw [List.reduceOption_cons_of_some] at hlegible hseq
      obtain ⟨rfl, hd⟩ := hlegible d List.mem_cons_self
      rw [List.map_cons, List.length_cons, List.range'_succ] at hseq
      obtain ⟨hnumber, hseq⟩ := List.cons.inj hseq
      have hlast : last < d.sequence := by omega
      have hframe := scan_frame hd.toUnderstood hd.stage hd.dated hd.long hlast hd.frame
      have hterminal : (d.event env).terminal = d.state.terminal := rfl
      cases ht : d.state.terminal with
      -- the terminal event is the last that is written
      | true =>
        refine ⟨d.sequence, ?_⟩
        have hstream : stream ((some d :: polls).map (Option.map (EventData.event env))) = getBytes
            (frame (d.event env)) := by
          simp [stream, serve, written, hterminal, ht]
        rw [hstream, hframe]
        simp [served, ht]
      | false =>
        rw [hnumber] at hframe
        obtain ⟨n, hn⟩ := @ih (last + 1) (fun x hx => hlegible x (List.mem_cons_of_mem _ hx)) hseq
        refine ⟨n, ?_⟩
        have hstream : stream ((some d :: polls).map (Option.map (EventData.event env))) =
            getBytes (frame (d.event env)) ++ stream (polls.map (Option.map (EventData.event env))) := by
          simp [stream, serve, written, hterminal, ht]
        have hserved : served (fun d => d.state.terminal) (some d :: polls) =
            d :: served (fun d : EventData => d.state.terminal) polls := by
          simp [served, ht]
        rw [hstream, scan_make_append, hframe]
        dsimp only
        rw [if_neg (by simp [ht])]
        have hgoes : { Parser.make d.jobId ((last + 1 : ℕ) : ℤ) with terminal := d.state.terminal } =
            Parser.make d.jobId ((last + 1 : ℕ) : ℤ) := by rw [ht]; rfl
        rw [hgoes, hn, hserved]
        cases hl : served (fun d : EventData => d.state.terminal) polls with
        | nil => simp [ht]
        | cons x l => simp

/-! ## The events of a job -/

/-- Every event of the log was made of its data. -/
def Logged (env : JobEnv) (s : Registry) : Prop :=
  ∀ x < s.created, ∀ e ∈ (s.job x).log, ∃ d : EventData, d.jobId = x ∧ d.event env = e

namespace Logged

open Registry JobRegistry

variable {s t : Registry} {lenient retires : Prop}

theorem same (h : Logged env s) (hj : t.job = s.job) (hc : t.created = s.created) :
    Logged env t := by
  unfold Logged
  rw [hj, hc]
  exact h

/-- One record changed: what its log gained was made of data. -/
theorem update (h : Logged env s) {x : JobId} {f : JobRecord → JobRecord}
    (hf : ∀ e ∈ (f (s.job x)).log, e ∈ (s.job x).log ∨ ∃ d : EventData, d.jobId = x ∧
      d.event env = e) : Logged env (s.update x f) := by
  intro y hy e he
  by_cases hyx : y = x
  · subst hyx
    rw [update_job_self] at he
    rcases hf e he with he | he
    · exact h y hy e he
    · exact he
  · rw [update_job_of_ne hyx] at he
    exact h y hy e he

/-- An edit of a record keeps every event in its log. -/
theorem edit (h : Logged env s) (he : Edit env lenient retires s t) : Logged env t := by
  cases he with
  | same t hs => exact h.same hs.job hs.created
  | record x f hf => exact h.update fun e he => .inl (hf.log ▸ he)
  | emit x type =>
    have hrec : Logged env (s.update x fun r => r.emitted env x type (env.clock s.instants)) := by
      refine h.update fun e he => ?_
      rcases List.mem_append.1 he with he | he
      · exact .inl he
      · obtain rfl := List.mem_singleton.1 he
        let r := s.job x
        exact .inr ⟨⟨x, r.nextSequence + 1, type, env.clock s.instants, r.state, r.progress⟩, rfl, rfl⟩
    exact hrec.same rfl rfl
  | lose x _ =>
    have hrec : Logged env (s.update x fun r => { r with nextSequence := r.nextSequence + 1 }) :=
      h.update fun e he => .inl he
    exact hrec.same rfl rfl
  | drop x =>
    have hrec : Logged env (s.update x fun r => { r with subscribers := [], events := [] }) :=
      h.update fun e he => .inl he
    rw [removeRetained_told]
    exact hrec.same rfl rfl
  | retire x f _ hf _ =>
    have hrec : Logged env (s.update x f) := h.update fun e he => .inl (hf.log ▸ he)
    exact hrec.same rfl rfl
  | close x sub =>
    have hrec : Logged env (s.update x fun r => { r with subscribers := r.subscribers.erase sub }) :=
      h.update fun e he => .inl he
    exact hrec.same rfl rfl
  | forceClose sub => exact h.same rfl rfl

/-- So does a section, -/
theorem edited (h : Logged env s) (he : Edited env lenient retires s t) : Logged env t := by
  induction he with
  | refl => exact h
  | tail _ hstep ih => exact ih.edit hstep

/-- and an act. -/
theorem happens {s : Scheduler} {a : Act} (h : Logged env s.registry)
    (hh : Happens env lenient s a t) : Logged env t := by
  cases hh with
  | edited _ _ he => exact h.edited he
  | freed _ he =>
    have hfree : Logged env { s.registry with runningSlots := s.registry.runningSlots - 1 } :=
      h.same rfl rfl
    exact hfree.edited he
  | submitted hsub =>
    obtain ⟨u, r, hu, -, -, hr, ht⟩ := hsub
    have hru := h.edited hu
    have henrolled : Logged env (enroll r u) := by
      intro x hx e he
      by_cases hxc : x = u.created
      · have hself : (enroll r u).job x = r := by
          rw [hxc]
          exact Function.update_self _ _ _
        rw [hself, hr.log] at he
        exact absurd he List.not_mem_nil
      · have hne : (enroll r u).job x = u.job x := Function.update_of_ne hxc _ _
        have hlt : x < u.created + 1 := hx
        rw [hne] at he
        exact hru x (by omega) e he
    exact henrolled.edited ht
  | @taken x _ htaken =>
    obtain ⟨u, rest, hu, -, -, -, rfl⟩ := htaken
    have hrec : Logged env (u.update x fun r => { r with dispatching := true }) :=
      (h.edited hu).update fun e he => .inl he
    exact hrec.same rfl rfl
  | @putBack x k _ _ =>
    have hrec : Logged env (s.registry.update x JobRecord.release) := h.update fun e he => .inl he
    exact hrec.same rfl rfl
  | @subscribed x _ u _ sub hu hsub =>
    have hrec : Logged env (u.update x fun r => { r with subscribers := r.subscribers ++ [sub] }) :=
      (h.edited hu).update fun e he => .inl he
    rw [hsub.eq]
    exact hrec.same rfl rfl
  | polled x => exact h.same rfl rfl

end Logged

/-- **In every run**, whether or not all events fit. -/
theorem logged {s₀ s : Scheduler} (h : Logged env s₀.registry)
    (hrun : Relation.ReflTransGen (Scheduler.Any env) s₀ s) : Logged env s.registry := by
  induction hrun with
  | refl => exact h
  | tail _ hstep ih =>
    obtain ⟨a, o, ha⟩ := hstep
    have hh : Happens env True _ a _ := Scheduler.happens ha fun e _ hu => hu.2 trivial
    exact ih.happens hh

/-- **What the server writes of a job's events, the client reads.** The polls of a subscription gave
heartbeats and a contiguous run of events from the log of a job, after the event `last`; the parser
that was made for this job and this event returns what was served, under any chunking, and is
terminal exactly when the last event is. -/
theorem feeds_stream {job : JobId → JobRecord} {subscription : SubscriptionId → Subscription}
    {s : Scheduler} {id : JobId}
    {polls : List (Option EventData)} {chunks : List (List UInt8)}
    (hrun : Relation.ReflTransGen (Scheduler.Any env) ⟨Scheduler.empty job subscription, .idle, []⟩ s)
    (hid : id < s.registry.created)
    (hlog : ∀ d ∈ polls.reduceOption, d.event env ∈ (s.registry.job id).log)
    (hseq : polls.reduceOption.map EventData.sequence = List.range' (last + 1) polls.reduceOption.length)
    (hlegible : ∀ d ∈ polls.reduceOption, Legible env texts client d)
    (hchunks : chunks.flatten = stream (polls.map (Option.map (EventData.event env)))) :
    ∃ p, feeds client chunks (.make id last) =
        (.ok ((served (fun d => d.state.terminal) polls).map (EventData.received texts)), p) ∧
      (p.terminal = true ↔ ∃ d ∈ (served (fun d => d.state.terminal) polls).getLast?,
        d.state.terminal = true) := by
  have hempty : Logged env (Scheduler.empty job subscription) := fun x hx =>
    absurd hx (Nat.not_lt_zero x)
  have hjob : ∀ d ∈ polls.reduceOption, d.jobId = id ∧ Legible env texts client d := by
    intro d hd
    obtain ⟨d', hd', he⟩ := logged hempty hrun id hid _ (hlog d hd)
    have heq : d'.jobId = d.jobId := congrArg JobEvent.jobId he
    exact ⟨heq.symm.trans hd', hlegible d hd⟩
  obtain ⟨n, hn⟩ := scan_stream hjob hseq
  rw [← hchunks] at hn
  have hresting : (Parser.make id last).Resting :=
    ⟨by simp [Parser.make], rfl, by simp [Over, Parser.make]⟩
  refine ⟨_, feeds_scan chunks hresting hn rfl rfl, ?_⟩
  cases (served (fun d : EventData => d.state.terminal) polls).getLast? with
  | none => simp
  | some d => simp

namespace Queued

open Scheduler LongProgress

def data : EventData := ⟨0, 1, .queued, 0, .QUEUED, JobRegistry.queuedProgress⟩

def someTexts : Texts := ⟨fun id => codePoints (uuid id), fun _ => py "1970-01-01T00:00:00Z"⟩

/-- The libraries, on this data. -/
def libraries : PyEnv where
  loads s := if s = codePoints (eventJson data) then .ok (data.tree someTexts) else .error .value
  uuid
    | .str s => if s = someTexts.uuid 0 then .ok 0 else .error .value
    | _ => .error .attribute
  fromisoformat
    | .str s => if s = someTexts.instant 0 then .ok 0 else .error .value
    | _ => .error .type

theorem understood : Understood jsonEnv someTexts libraries data where
  paired _ := by decide +kernel
  escaped := forall_of_all (by decide +kernel)
  loads _ := by
    have hjson : jsonEnv.writeValueAsString data = eventJson data := rfl
    rw [hjson]
    simp only [libraries, if_true]
  uuid := by
    have hid : data.jobId = 0 := rfl
    simp only [hid, libraries, if_true]
  fromisoformat _ := by
    have hinstant : data.instant = 0 := rfl
    simp only [hinstant, libraries, if_true]
    rfl

theorem legible : Legible jsonEnv someTexts libraries data where
  toUnderstood := understood
  stage := by decide
  dated := by unfold EventData.Dated; decide
  long := by decide
  frame := by decide +kernel

end Queued

/-- A heartbeat and the first event, in two chunks. -/
theorem feeds_stream_queued : ∃ p, feeds Queued.libraries
      [(stream [none, some (Queued.data.event Scheduler.LongProgress.jsonEnv)]).take 20,
        (stream [none, some (Queued.data.event Scheduler.LongProgress.jsonEnv)]).drop 20]
        (.make 0 0) =
        (.ok [Queued.data.received Queued.someTexts], p) ∧
      (p.terminal = true ↔ ∃ d ∈ [Queued.data].getLast?, d.state.terminal = true) := by
  obtain ⟨job, subscription, -, hrun⟩ := Scheduler.LongProgress.queued_begun
  have hany : Relation.ReflTransGen (Scheduler.Any Scheduler.LongProgress.jsonEnv)
      ⟨Scheduler.empty job subscription, .idle, []⟩ Scheduler.LongProgress.queued :=
    Relation.ReflTransGen.mono (fun _ _ ⟨a, o, ha, _⟩ => ⟨a, o, ha⟩) _ _ hrun
  have hdata : ∀ d ∈ [none, some Queued.data].reduceOption, d = Queued.data := by simp
  have hid : 0 < Scheduler.LongProgress.queued.registry.created := by decide +kernel
  refine @feeds_stream _ _ _ 0 _ _ _ 0 [none, some Queued.data] _ hany hid (fun d hd => ?_) rfl
    (fun d hd => ?_) ?_
  · rw [hdata d hd]
    decide +kernel
  · rw [hdata d hd]
    exact Queued.legible
  · simp

end JobEventsHandler

end Libjadx
