import PolyOnTest.Builtins.TextChunks
import PolyOnTest.Cli.Reader

/-!
# A child under any schedule

The bytes of a child on their way to the main loop.  `Flow` carries them through a
schedule: what was written was read or is in the pipe, and the thread ends for a reason.

`Undisturbed.hears_all` says that the main loop hears all events of the output, whatever
the schedule is, while no read fails, no time limit is over and the output can be decoded.
-/

namespace PolyOnTest.Cli

open CodeLib PolyOnTest.Builtins

namespace Reader

/-! ## A stream in parts -/

/-- A part that the codec reads by itself.  In a text stream it ends behind a character. -/
def Whole : HostCodec → List UInt8 → Prop
  | .cobs _, _ => True
  | .text _, data => Utf8.IsUtf8 data

theorem ofName_new {name : String} {first : HostCodec}
    (h : HostCodec.ofName name = .ok first) : first = .cobs .new ∨ first = .text .new := by
  unfold HostCodec.ofName at h
  split_ifs at h <;> cases h
  · exact .inl rfl
  · exact .inr rfl

/-- Two feeds of a new codec are one. -/
theorem feed_resume {name : String} {first codec : HostCodec}
    (hname : HostCodec.ofName name = .ok first) {xs : List UInt8} {evs : List Event}
    (hxs : Whole first xs) (h : first.decodeFeed xs = (codec, .ok evs)) (ys : List UInt8) :
    first.decodeFeed (xs ++ ys) =
      match codec.decodeFeed ys with
      | (codec', .ok more) => (codec', .ok (evs ++ more))
      | (codec', .error e) => (codec', .error e) := by
  rcases ofName_new hname with rfl | rfl
  · simp only [HostCodec.decodeFeed, CobsCodec.decodeFeed, CobsCodec.new, List.nil_append] at h ⊢
    rcases hdrain : Delimited.drain 0 CobsCodec.decodeFrame [] xs [] with ⟨rest, result⟩
    rw [hdrain] at h
    cases h
    rw [Delimited.drain_resume 0 CobsCodec.decodeFrame hdrain]
    dsimp only
    rcases Delimited.drain 0 CobsCodec.decodeFrame [] (rest ++ ys) [] with ⟨rest', e | more⟩
    · rfl
    · rfl
  · simp only [HostCodec.decodeFeed, TextCodec.decodeFeed, TextCodec.new, List.nil_append] at h ⊢
    rcases hdrain : Delimited.drain '\n' TextCodec.decodeLine [] (Utf8.lossy xs) []
      with ⟨rest, result⟩
    rw [hdrain] at h
    cases h
    rw [Utf8.lossy_append_text hxs, Delimited.drain_resume '\n' TextCodec.decodeLine hdrain]
    dsimp only
    rcases Delimited.drain '\n' TextCodec.decodeLine [] (rest ++ Utf8.lossy ys) []
      with ⟨rest', e | more⟩
    · rfl
    · rfl

/-- The bytes of a read. -/
def readBytes : Read String → List UInt8
  | .data bytes => bytes
  | .failed _ => []

/-- The bytes of some reads. -/
def bytesOf (reads : List (Read String)) : List UInt8 := reads.flatMap readBytes

theorem bytesOf_append (a b : List (Read String)) : bytesOf (a ++ b) = bytesOf a ++ bytesOf b :=
  List.flatMap_append

/-- Every part of the stream that was read is read by itself. -/
def WholeReads (first : HostCodec) (reads : List (Read String)) : Prop :=
  ∀ data, .data data ∈ reads → Whole first data

theorem WholeReads.bytesOf {first : HostCodec} {reads : List (Read String)}
    (h : WholeReads first reads) : Whole first (bytesOf reads) := by
  cases first with
  | cobs codec => trivial
  | text codec =>
    apply @Utf8.isUtf8_flatten (reads.map readBytes)
    intro chunk hchunk
    obtain ⟨read, hread, rfl⟩ := List.mem_map.mp hchunk
    cases read with
    | data bytes => exact h bytes hread
    | failed text => exact ⟨[], rfl⟩

variable {codecType : String} {first codec : HostCodec} {reads : List (Read String)}
  {evs : List Event}

/-- The reads are one feed. -/
theorem Fed.feed (hname : HostCodec.ofName codecType = .ok first)
    (h : Fed first reads evs codec) (hwhole : WholeReads first reads) :
    first.decodeFeed (bytesOf reads) = (codec, .ok evs) := by
  induction h with
  | none => rcases ofName_new hname with rfl | rfl <;> rfl
  | @more reads evs events codec codec' data _ _ hfeed ih =>
      have hfront : WholeReads first reads := fun data hdata => hwhole data (by simp [hdata])
      have hdata : bytesOf [.data data] = data := by simp [bytesOf, readBytes]
      rw [bytesOf_append, hdata, feed_resume hname hfront.bytesOf (ih hfront), hfeed]

/-- A read that can not be decoded spoils the stream. -/
theorem feed_error_append {codec' : HostCodec} {data : List UInt8} {e : PluginError}
    (h : codec.decodeFeed data = (codec', .error e)) (more : List UInt8) :
    ∃ codec'', codec.decodeFeed (data ++ more) = (codec'', .error e) := by
  cases codec with
  | cobs codec =>
    simp only [HostCodec.decodeFeed, CobsCodec.decodeFeed] at h ⊢
    rw [← List.append_assoc, Delimited.drain_append]
    rcases hdrain : Delimited.drain 0 CobsCodec.decodeFrame [] (codec.buf ++ data) []
      with ⟨rest, e' | events⟩
    · rw [hdrain] at h
      cases h
      exact ⟨_, rfl⟩
    · rw [hdrain] at h
      cases h
  | text codec =>
    simp only [HostCodec.decodeFeed, TextCodec.decodeFeed] at h
    obtain ⟨rest, events, hdrain⟩ := drain_decodeLine [] (codec.buf ++ Utf8.lossy data) []
    rw [hdrain] at h
    cases h

theorem Fed.feed_error (hname : HostCodec.ofName codecType = .ok first)
    (h : Fed first reads evs codec) (hwhole : WholeReads first reads) {codec' : HostCodec}
    {data : List UInt8} {e : PluginError} (herror : codec.decodeFeed data = (codec', .error e))
    (more : List UInt8) :
    ∃ codec'', first.decodeFeed (bytesOf reads ++ (data ++ more)) = (codec'', .error e) := by
  obtain ⟨codec'', hmore⟩ := feed_error_append herror more
  refine ⟨codec'', ?_⟩
  rw [feed_resume hname hwhole.bytesOf (h.feed hname hwhole), hmore]

/-! ## The way of the bytes -/

/-- Why the thread has come to its end: the end of the stream, a read that failed, an
error, or a main loop that did not wait for the events. -/
inductive Ended (codecType : String) (as : List Action) (st : State) : Prop
  | eof {first codec : HostCodec} {reads : List (Read String)} {evs : List Event}
      (hname : HostCodec.ofName codecType = .ok first) (h : Fed first reads evs codec)
      (hanswers : answers as = reads ++ [.data []]) (hempty : st.pipe.bytes = [])
  | failed {text : String} (h : .fail text ∈ as)
  | error {evs : List Event} {e : String}
      (h : readerThread codecType (answers as) = (evs, .error e))
  | late {x : Session × Progress} {e : String} {answer : Except String ExitStatus}
      (h : st.main = .done x (.error e) answer)

/-- The answer of `wait`, once the main loop is behind it. -/
def Main.answer : Main → List (Except String ExitStatus)
  | .done _ _ answer => [answer]
  | _ => []

/-- What was written was read or is in the pipe, and the thread ends for a reason. -/
structure Flow (codecType : String) (s : Session) (as : List Action) (st : State) : Prop where
  inv : Inv codecType s (answers as) (taken as) st
  bytes : bytesOf (answers as) ++ st.pipe.bytes = written as
  expired : st.expired = true → .expire ∈ as
  reaped : reaped as = st.main.answer
  ended : st.thread = .ended → Ended codecType as st

variable {s : Session} {as : List Action} {st st' : State} {a : Action}

theorem answers_snoc (as : List Action) (a : Action) :
    answers (as ++ [a]) = answers as ++ a.answers := flatMap_snoc _ as a

theorem written_snoc (as : List Action) (a : Action) :
    written (as ++ [a]) = written as ++ a.written := flatMap_snoc _ as a

theorem reaped_snoc (as : List Action) (a : Action) :
    reaped (as ++ [a]) = reaped as ++ a.reaped := flatMap_snoc _ as a

theorem taken_snoc (as : List Action) (a : Action) :
    taken (as ++ [a]) = taken as ++ a.taken := flatMap_snoc _ as a

/-- The reason stays when the thread has nothing more to do. -/
theorem Ended.later (h : Ended codecType as st) (ha : a.answers = [])
    (hbytes : st'.pipe.bytes = st.pipe.bytes)
    (hmain : st.main.isDone = true → st'.main = st.main) :
    Ended codecType (as ++ [a]) st' := by
  have hall : answers (as ++ [a]) = answers as := by rw [answers_snoc, ha, List.append_nil]
  cases h with
  | eof hname h hanswers hempty =>
    exact .eof hname h (hall.trans hanswers) (hbytes.trans hempty)
  | failed h => exact .failed (List.mem_append_left _ h)
  | @error evs e h =>
    rw [← hall] at h
    exact .error h
  | late h =>
    have hdone : st.main.isDone = true := by rw [h]; rfl
    exact .late ((hmain hdone).trans h)

/-- A step beside the pipe and the thread. -/
theorem Flow.beside (h : Flow codecType s as st)
    (hinv : Inv codecType s (answers (as ++ [a])) (taken (as ++ [a])) st')
    (ha : a.answers = [] ∧ a.written = []) (hbytes : st'.pipe.bytes = st.pipe.bytes)
    (hthread : st'.thread = st.thread) (hmain : st.main.isDone = true → st'.main = st.main)
    (hexpired : st'.expired = st.expired ∨ a = .expire)
    (hreaped : st.main.answer ++ a.reaped = st'.main.answer) :
    Flow codecType s (as ++ [a]) st' where
  inv := hinv
  reaped := by
    rw [reaped_snoc, h.reaped]
    exact hreaped
  bytes := by
    rw [answers_snoc, written_snoc, ha.1, ha.2, List.append_nil, List.append_nil, hbytes]
    exact h.bytes
  expired := by
    intro hst
    rcases hexpired with hsame | rfl
    · exact List.mem_append_left _ (h.expired (hsame ▸ hst))
    · simp
  ended := by
    rw [hthread]
    exact fun hended => (h.ended hended).later ha.1 hbytes hmain

/-- A step of the thread that takes nothing from the pipe. -/
theorem Flow.thread (h : Flow codecType s as st)
    (hinv : Inv codecType s (answers (as ++ [a])) (taken (as ++ [a])) st')
    (ha : bytesOf a.answers = [] ∧ a.written = [] ∧ a.reaped = [])
    (hpipe : st'.pipe = st.pipe) (hexpired : st'.expired = st.expired)
    (hmain : st'.main = st.main)
    (hended : st'.thread = .ended → Ended codecType (as ++ [a]) st') :
    Flow codecType s (as ++ [a]) st' where
  inv := hinv
  reaped := by
    rw [reaped_snoc, h.reaped, ha.2.2, List.append_nil, hmain]
  bytes := by
    rw [answers_snoc, written_snoc, bytesOf_append, ha.1, ha.2.1, List.append_nil,
      List.append_nil, hpipe]
    exact h.bytes
  expired hst := List.mem_append_left _ (h.expired (hexpired ▸ hst))
  ended := hended

theorem sendError_same (st : State) (e : String) :
    (st.sendError e).pipe = st.pipe ∧ (st.sendError e).expired = st.expired ∧
      (st.sendError e).main = st.main := by
  unfold State.sendError
  cases st.channel.send (.error e) <;> exact ⟨rfl, rfl, rfl⟩

theorem afterRead_same (st : State) (codec : HostCodec) (data : List UInt8) :
    (st.afterRead codec data).pipe.bytes = st.pipe.bytes.drop data.length ∧
      (st.afterRead codec data).expired = st.expired ∧
      (st.afterRead codec data).main = st.main := by
  unfold State.afterRead
  dsimp only
  split_ifs
  · exact ⟨rfl, rfl, rfl⟩
  · rcases codec.decodeFeed data with ⟨codec', e | events⟩
    · dsimp only
      rw [(sendError_same _ _).1, (sendError_same _ _).2.1, (sendError_same _ _).2.2]
      exact ⟨rfl, rfl, rfl⟩
    · exact ⟨rfl, rfl, rfl⟩

/-- What was read was in front of the pipe. -/
theorem answers_front {pipe : Pipe} {data : List UInt8} (h : pipe.answers data = true) :
    data ++ pipe.bytes.drop data.length = pipe.bytes ∧ (data = [] → pipe.bytes = []) := by
  unfold Pipe.answers at h
  split_ifs at h with hdata
  · simp only [Bool.and_eq_true, List.isEmpty_iff] at h
    subst hdata
    exact ⟨rfl, fun _ => h.1⟩
  · simp only [Bool.and_eq_true, List.isPrefixOf_iff_prefix] at h
    obtain ⟨rest, hrest⟩ := h.2
    refine ⟨?_, fun hnil => absurd hnil hdata⟩
    rw [← hrest, List.drop_left]

theorem flow_begin (h : Flow codecType s as st)
    (hinv : Inv codecType s (answers (as ++ [.begin])) (taken (as ++ [.begin]))
      (st.openCodec codecType)) :
    Flow codecType s (as ++ [.begin]) (st.openCodec codecType) := by
  cases hname : HostCodec.ofName codecType with
  | ok codec =>
    have hst : st.openCodec codecType = { st with thread := .reading codec } := by
      rw [State.openCodec, hname]
    rw [hst] at hinv ⊢
    exact h.thread hinv ⟨rfl, rfl, rfl⟩ rfl rfl rfl (fun hended => by cases hended)
  | error e =>
    have hst : st.openCodec codecType = st.sendError e := by rw [State.openCodec, hname]
    rw [hst] at hinv ⊢
    obtain ⟨hpipe, hexpired, hmain⟩ := sendError_same st e
    exact h.thread hinv ⟨rfl, rfl, rfl⟩ hpipe hexpired hmain
      fun _ => .error (by rw [readerThread, hname])

theorem flow_read {data : List UInt8} (h : Flow codecType s as st)
    (hinv : Inv codecType s (answers (as ++ [.read data])) (taken (as ++ [.read data]))
      (st.afterRead codec data))
    (hthread : st.thread = .reading codec) (hanswers : st.pipe.answers data = true) :
    Flow codecType s (as ++ [.read data]) (st.afterRead codec data) := by
  have hsame := afterRead_same st codec data
  have hfront := answers_front hanswers
  have hall : answers (as ++ [.read data]) = answers as ++ [.data data] := answers_snoc as _
  obtain ⟨first, evs, hname, hfed, -⟩ := h.inv.told.reading hthread
  refine ⟨hinv, ?_, ?_, ?_, ?_⟩
  · have hdata : bytesOf [.data data] = data := by simp [bytesOf, readBytes]
    rw [hall, written_snoc, bytesOf_append, hdata, hsame.1, List.append_assoc, hfront.1, h.bytes]
    exact (List.append_nil _).symm
  · intro hexpired
    exact List.mem_append_left _ (h.expired (hsame.2.1 ▸ hexpired))
  · rw [reaped_snoc, h.reaped, hsame.2.2]
    exact List.append_nil _
  · intro hended
    by_cases hdata : data = []
    · subst hdata
      refine .eof hname hfed hall ?_
      rw [hsame.1, hfront.2 rfl]
      rfl
    · unfold State.afterRead at hended
      dsimp only at hended
      rw [if_neg hdata] at hended
      rcases hfeed : codec.decodeFeed data with ⟨codec', e | events⟩
      · have hread := hfed.readerThread hname [.data data]
        rw [← hall, readAll, if_neg hdata, hfeed] at hread
        exact .error hread
      · rw [hfeed] at hended
        exact absurd hended (sendingOr_ne_ended codec' events)

theorem flow_fail {text : String} (h : Flow codecType s as st)
    (hinv : Inv codecType s (answers (as ++ [.fail text])) (taken (as ++ [.fail text]))
      (st.afterFail text)) : Flow codecType s (as ++ [.fail text]) (st.afterFail text) := by
  have hended : Ended codecType (as ++ [.fail text]) (st.afterFail text) :=
    @Ended.failed _ _ _ text (by simp)
  have hsame : (st.afterFail text).pipe = st.pipe ∧
      (st.afterFail text).expired = st.expired ∧ (st.afterFail text).main = st.main := by
    unfold State.afterFail
    split_ifs
    · exact ⟨rfl, rfl, rfl⟩
    · exact sendError_same st text
  exact h.thread hinv ⟨rfl, rfl, rfl⟩ hsame.1 hsame.2.1 hsame.2.2 fun _ => hended

theorem flow_send {ev : Event} {evs : List Event} (h : Flow codecType s as st)
    (hinv : Inv codecType s (answers (as ++ [.send])) (taken (as ++ [.send]))
      (st.sendEvent codec ev evs))
    (hthread : st.thread = .sending codec (ev :: evs)) :
    Flow codecType s (as ++ [.send]) (st.sendEvent codec ev evs) := by
  cases hsend : st.channel.send (.ok ev) with
  | some channel =>
    have hst : st.sendEvent codec ev evs =
        { st with channel, thread := sendingOr codec evs } := by rw [State.sendEvent, hsend]
    rw [hst] at hinv ⊢
    exact h.thread hinv ⟨rfl, rfl, rfl⟩ rfl rfl rfl
      fun hended => absurd hended (sendingOr_ne_ended codec evs)
  | none =>
    have hst : st.sendEvent codec ev evs = st.endThread := by rw [State.sendEvent, hsend]
    rw [hst] at hinv ⊢
    refine h.thread hinv ⟨rfl, rfl, rfl⟩ rfl rfl rfl fun _ => ?_
    -- the receiver is gone, and the main loop has not seen the end of the channel
    have hdone := h.inv.receiver (Channel.send_none hsend)
    have hhears := h.inv.hears
    cases hmain : st.main with
    | done x childRes answer =>
      rw [hmain] at hhears
      obtain ⟨evs', hstopped, -⟩ := hhears
      generalize taken as = items at hstopped
      cases hstopped with
      | timeOut => exact .late hmain
      | failed e => exact .late hmain
      | hungUp _ hended =>
        rw [hthread] at hended
        cases hended
    | _ =>
      rw [hmain] at hdone
      cases hdone

/-- One step of any party. -/
theorem flow_step (h : Flow codecType s as st) (hstep : step codecType st a = some st') :
    Flow codecType s (as ++ [a]) st' := by
  have hinv : Inv codecType s (answers (as ++ [a])) (taken (as ++ [a])) st' := by
    rw [answers_snoc, taken_snoc]
    exact step_inv h.inv hstep
  have hbusy : ∀ {main : Main}, st.main = main → main.isDone = false → ∀ {p : Prop},
      st.main.isDone = true → p := by
    intro main hmain hfalse p hdone
    rw [hmain, hfalse] at hdone
    cases hdone
  cases step_moves hstep with
  | @write bytes hwriters hrunning =>
    refine ⟨hinv, ?_, ?_, ?_, fun hended => absurd hended hrunning⟩
    · have hreads : answers (as ++ [.write bytes]) = answers as :=
        (answers_snoc as _).trans (List.append_nil _)
      have hwritten : written (as ++ [.write bytes]) = written as ++ bytes := written_snoc as _
      rw [hreads, hwritten, ← h.bytes, List.append_assoc]
    · exact fun hexpired => List.mem_append_left _ (h.expired hexpired)
    · rw [reaped_snoc, h.reaped]
      exact List.append_nil _
  | close =>
    exact h.beside hinv ⟨rfl, rfl⟩ rfl rfl (fun _ => rfl) (.inl rfl) (List.append_nil _)
  | exit =>
    exact h.beside hinv ⟨rfl, rfl⟩ rfl rfl (fun _ => rfl) (.inl rfl) (List.append_nil _)
  | expire =>
    exact h.beside hinv ⟨rfl, rfl⟩ rfl rfl (fun _ => rfl) (.inr rfl) (List.append_nil _)
  | begin => exact flow_begin h hinv
  | read hthread hanswers => exact flow_read h hinv hthread hanswers
  | fail => exact flow_fail h hinv
  | send hthread => exact flow_send h hinv hthread
  | check hmain =>
    have hsame : ∀ x, (st.checkClock x).pipe = st.pipe ∧ (st.checkClock x).thread = st.thread ∧
        (st.checkClock x).expired = st.expired ∧ (st.checkClock x).main.answer = [] := by
      intro x
      unfold State.checkClock
      split_ifs <;> exact ⟨rfl, rfl, rfl, rfl⟩
    obtain ⟨hpipe, hthread, hexpired, hanswer⟩ := hsame _
    refine h.beside hinv ⟨rfl, rfl⟩ (congrArg Pipe.bytes hpipe) hthread (hbusy hmain rfl)
      (.inl hexpired) ?_
    rw [hanswer, hmain]
    rfl
  | @take x item queue hmain =>
    refine h.beside hinv ⟨rfl, rfl⟩ rfl rfl (hbusy hmain rfl) (.inl rfl) ?_
    rw [hmain]
    cases item <;> rfl
  | timeOut hmain =>
    refine h.beside hinv ⟨rfl, rfl⟩ rfl rfl (hbusy hmain rfl) (.inl rfl) ?_
    rw [hmain]
    rfl
  | hangUp hmain =>
    refine h.beside hinv ⟨rfl, rfl⟩ rfl rfl (hbusy hmain rfl) (.inl rfl) ?_
    rw [hmain]
    rfl
  | kill hmain =>
    refine h.beside hinv ⟨rfl, rfl⟩ rfl rfl (hbusy hmain rfl) (.inl rfl) ?_
    rw [hmain]
    rfl
  | wait hmain =>
    refine h.beside hinv ⟨rfl, rfl⟩ rfl rfl (hbusy hmain rfl) (.inl rfl) ?_
    rw [hmain]
    rfl

theorem schedule_flow (h : Scheduled.run (step codecType) (.start s) as = some st) :
    Flow codecType s as st := by
  refine Scheduled.run_invariant (I := Flow codecType s) ?_ ?_ h
  · refine ⟨inv_start codecType s, rfl, ?_, rfl, ?_⟩
    · exact fun hexpired => absurd hexpired (by simp [State.start])
    · exact fun hended => absurd hended (by simp [State.start])
  · intro as t a t' hflow hstep
    exact flow_step hflow hstep

/-! ## Rounds that nothing disturbs -/

/-- The events of a stream that the codec can decode. -/
def streamEvents (codecType : String) (stream : List UInt8) : List Event :=
  match HostCodec.ofName codecType with
  | .error _ => []
  | .ok first => (first.decodeFeed stream).2.toOption.getD []

/-- No read fails, no time limit is over, and the output can be decoded. -/
structure Undisturbed (codecType : String) (as : List Action) : Prop where
  noFail : ∀ text, .fail text ∉ as
  inTime : .expire ∉ as
  decodes : ∃ first codec evs, HostCodec.ofName codecType = .ok first ∧
    WholeReads first (answers as) ∧ first.decodeFeed (written as) = (codec, .ok evs)

theorem failed_answers {text : String} (h : .failed text ∈ answers as) : .fail text ∈ as := by
  obtain ⟨a, ha, hread⟩ := List.mem_flatMap.mp h
  cases a with
  | fail text' =>
    have htext : text = text' := by simpa [Action.answers] using hread
    exact htext ▸ ha
  | _ => simp [Action.answers] at hread

/-- An error of the thread comes from a read that can not be decoded. -/
theorem readAll_error {front : List (Read String)} {before evs : List Event} {e : String}
    (hfront : Fed first front before codec) (hgood : ∀ text, .failed text ∉ reads)
    (h : readAll id codec reads = (evs, .error e)) :
    ∃ front' back before' codec' codec'' data e',
      front ++ reads = front' ++ .data data :: back ∧ Fed first front' before' codec' ∧
        codec'.decodeFeed data = (codec'', .error e') := by
  induction reads generalizing front before codec evs with
  | nil => cases h
  | cons read reads ih =>
      cases read with
      | failed text => exact absurd (by simp) (hgood text)
      | data data =>
        rw [readAll] at h
        split_ifs at h with hdata
        · cases h
        · rcases hfeed : codec.decodeFeed data with ⟨codec', e' | events⟩
          · exact ⟨front, reads, before, codec, codec', data, e', rfl, hfront, hfeed⟩
          · rw [hfeed] at h
            dsimp only at h
            rcases hrest : readAll id codec' reads with ⟨more, result⟩
            rw [hrest] at h
            cases h
            have hnext := ih (hfront.more hdata hfeed)
              (fun text ht => hgood text (by simp [ht])) hrest
            rw [List.append_assoc] at hnext
            exact hnext

/-- The thread of a round that nothing disturbs meets no error. -/
theorem Undisturbed.no_error (h : Undisturbed codecType as) (hflow : Flow codecType s as st)
    {e : String} : readerThread codecType (answers as) ≠ (evs, .error e) := by
  intro herror
  obtain ⟨first, codec, all, hname, hwhole, hdecode⟩ := h.decodes
  rw [readerThread, hname] at herror
  obtain ⟨front, back, before, codec', codec'', data, e', hsplit, hfed, hbad⟩ :=
    readAll_error (@Fed.none first) (fun text ht => h.noFail text (failed_answers ht)) herror
  rw [List.nil_append] at hsplit
  have hfront : WholeReads first front := by
    intro data hdata
    apply hwhole
    rw [hsplit]
    exact List.mem_append_left _ hdata
  have hwritten : written as =
      bytesOf front ++ (data ++ (bytesOf back ++ st.pipe.bytes)) := by
    rw [← hflow.bytes, hsplit, bytesOf_append, ← List.singleton_append, bytesOf_append]
    simp [bytesOf, readBytes]
  obtain ⟨codec₃, hspoiled⟩ := hfed.feed_error hname hfront hbad (bytesOf back ++ st.pipe.bytes)
  rw [← hwritten, hdecode] at hspoiled
  cases hspoiled

/-- The main loop of a round that nothing disturbs hears all events of the output. -/
theorem Undisturbed.hears_all (h : Undisturbed codecType as) (hflow : Flow codecType s as st)
    {x : Session × Progress} {childRes : Except String Unit}
    {answer : Except String ExitStatus} (hdone : st.main = .done x childRes answer) :
    childRes = .ok () ∧ x = heardState s (streamEvents codecType (written as)) := by
  have hhears := hflow.inv.hears
  rw [hdone] at hhears
  obtain ⟨evs, hstopped, hx⟩ := hhears
  obtain ⟨sent, hsent, hcarries⟩ := hflow.inv.told
  obtain ⟨front, back, res, hread, hcase⟩ := hsent.part
  unfold Channel.Carries at hcarries
  generalize hitems : taken as = items at hstopped
  rw [hitems] at hcarries
  cases hstopped with
  | timeOut hexpired => exact absurd (hflow.expired hexpired) h.inTime
  | failed e =>
    rcases hcase with hcase | ⟨e', -, rfl, -⟩
    · have hmem : (Except.error e : Except String Event) ∈ front.map Except.ok := by
        rw [← hcase, hcarries]
        simp
      simp at hmem
    · exact absurd hread (h.no_error hflow)
  | hungUp hheard hended =>
    refine ⟨rfl, ?_⟩
    cases hflow.ended hended with
    | failed hfail => exact absurd hfail (h.noFail _)
    | error herror => exact absurd herror (h.no_error hflow)
    | late hlate =>
      rw [hdone] at hlate
      cases hlate
    | @eof first codec reads evs' hname hfed hanswers hempty =>
      have heof := hfed.readerThread hname [.data []]
      rw [← hanswers, hheard, readAll, if_pos rfl, List.append_nil] at heof
      have hevs : evs = evs' := congrArg Prod.fst heof
      obtain ⟨first', codec', all, hname', hwhole, hdecode⟩ := h.decodes
      rw [hname] at hname'
      cases hname'
      have hreads : WholeReads first reads := by
        intro data hdata
        apply hwhole
        rw [hanswers]
        exact List.mem_append_left _ hdata
      have hwritten : written as = bytesOf reads := by
        rw [← hflow.bytes, hanswers, hempty, bytesOf_append]
        simp [bytesOf, readBytes]
      have hstream : streamEvents codecType (written as) = evs' := by
        unfold streamEvents
        rw [hname]
        dsimp only
        rw [hwritten, hfed.feed hname hreads]
        rfl
      rw [hx, hstream, hevs]

end Reader

end PolyOnTest.Cli
