import PolyOnTest.Cli.Rounds

/-!
# Rounds come to an end

The thread and the main loop of a round can not go on forever without the child and the
clock: `State.potential` bounds the number of their steps.  When neither of them has a
step, the round is over, or one of two things is missing: the child has to write, to close
its output or to end, or the time limit has to be over.

`schedule_progress` says this of every state that a schedule reaches.  Once the time limit
is over, only `wait` can be left: the time limit does not hold there.
-/

namespace PolyOnTest.Cli

open CodeLib PolyOnTest.Builtins

namespace Reader

/-! ## A bound for the steps -/

/-- A step of the thread or of the main loop that needs neither the child nor the clock. -/
def Action.internal : Action → Bool
  | .begin | .read _ | .send | .check | .take _ | .timeOut | .hangUp | .kill => true
  | .wait answer => answer.isOk
  | _ => false

/-- The length of the buffer of a codec. -/
def buffered : HostCodec → Nat
  | .cobs codec => codec.buf.length
  | .text codec => codec.buf.length

/-- The share of the thread in the potential. -/
def Thread.weight : Thread → Nat
  | .starting => 4
  | .reading codec => 3 + 4 * buffered codec
  | .sending codec evs => 3 + 4 * buffered codec + 3 * evs.length
  | .ended => 0

/-- The share of the main loop in the potential. -/
def Main.weight : Main → Nat
  | .head _ => 4
  | .polling _ => 3
  | .left .. => 2
  | .waiting .. => 1
  | .done .. => 0

/-- A byte in the pipe may become an event, and each event is sent and taken. -/
def State.potential (st : State) : Nat :=
  5 * st.pipe.bytes.length + st.thread.weight + 2 * st.channel.queue.length + st.main.weight

theorem weight_sendingOr (codec : HostCodec) (evs : List Event) :
    (sendingOr codec evs).weight = 3 + 4 * buffered codec + 3 * evs.length := by
  cases evs with
  | nil => rfl
  | cons ev evs => rfl

/-- A feed makes one event of each frame at most. -/
theorem feed_length {codec codec' : HostCodec} {data : List UInt8} {evs : List Event}
    (h : codec.decodeFeed data = (codec', .ok evs)) :
    buffered codec' + evs.length ≤ buffered codec + data.length := by
  cases codec with
  | cobs codec =>
    have hone : ∀ frame items, CobsCodec.decodeFrame frame = .ok items → items.length ≤ 1 := by
      intro frame items hframe
      unfold CobsCodec.decodeFrame at hframe
      split_ifs at hframe
      · cases hframe
        exact Nat.zero_le 1
      · cases hdecode : cobsDecode frame with
        | error e =>
          rw [hdecode] at hframe
          cases hframe
        | ok decoded =>
          rw [hdecode] at hframe
          dsimp only at hframe
          cases hpayload : decodePayload decoded with
          | error e =>
            rw [hpayload] at hframe
            cases hframe
          | ok ev =>
            rw [hpayload] at hframe
            cases hframe
            exact Option.length_toList_le
    simp only [HostCodec.decodeFeed, CobsCodec.decodeFeed] at h
    rcases hdrain : Delimited.drain 0 CobsCodec.decodeFrame [] (codec.buf ++ data) []
      with ⟨rest, result⟩
    rw [hdrain] at h
    cases h
    have hlength := Delimited.drain_length 0 CobsCodec.decodeFrame hone hdrain
    rw [List.length_append] at hlength
    show rest.length + evs.length ≤ codec.buf.length + data.length
    simp only [List.length_nil] at hlength
    omega
  | text codec =>
    have hone : ∀ line items, TextCodec.decodeLine line = .ok items → items.length ≤ 1 := by
      intro line items hline
      cases hline
      exact Option.length_toList_le
    simp only [HostCodec.decodeFeed, TextCodec.decodeFeed] at h
    rcases hdrain : Delimited.drain '\n' TextCodec.decodeLine []
      (codec.buf ++ Utf8.lossy data) [] with ⟨rest, result⟩
    rw [hdrain] at h
    cases h
    have hlength := Delimited.drain_length '\n' TextCodec.decodeLine hone hdrain
    have hlossy := Utf8.length_lossy_le data
    rw [List.length_append] at hlength
    show rest.length + evs.length ≤ codec.buf.length + data.length
    simp only [List.length_nil] at hlength
    omega

variable {codecType : String} {s : Session} {as : List Action} {st st' : State} {a : Action}

theorem potential_endThread (st : State) :
    st.endThread.potential + st.thread.weight = st.potential := by
  unfold State.potential
  show 5 * st.pipe.bytes.length + 0 + 2 * st.channel.queue.length + st.main.weight + _ = _
  omega

theorem potential_sendError (st : State) (e : String) :
    (st.sendError e).potential + st.thread.weight ≤ st.potential + 2 := by
  unfold State.sendError
  cases hsend : st.channel.send (.error e) with
  | none =>
    have hend := potential_endThread st
    dsimp only
    omega
  | some channel =>
    have hqueue := Channel.length_send hsend
    have hend := potential_endThread { st with channel }
    unfold State.potential at hend ⊢
    dsimp only at hend ⊢
    omega

/-- Each step of the thread and of the main loop costs some of the potential. -/
theorem potential_step (ha : a.internal = true) (h : step codecType st a = some st') :
    st'.potential < st.potential := by
  cases step_moves h with
  | write => cases ha
  | close => cases ha
  | exit => cases ha
  | expire => cases ha
  | fail => cases ha
  | begin hthread =>
    have hweight : st.thread.weight = 4 := by rw [hthread]; rfl
    unfold State.openCodec
    cases hname : HostCodec.ofName codecType with
    | error e =>
      have herror := potential_sendError st e
      dsimp only
      omega
    | ok codec =>
      have hcodec : buffered codec = 0 := by rcases ofName_new hname with rfl | rfl <;> rfl
      unfold State.potential
      show 5 * st.pipe.bytes.length + (3 + 4 * buffered codec) + 2 * st.channel.queue.length +
        st.main.weight < _
      omega
  | @read codec data hthread hanswers =>
    have hweight : st.thread.weight = 3 + 4 * buffered codec := by rw [hthread]; rfl
    have hlength := congrArg List.length (answers_front hanswers).1
    rw [List.length_append] at hlength
    unfold State.afterRead
    dsimp only
    split_ifs with hdata
    · have hend := potential_endThread { st with pipe.bytes := st.pipe.bytes.drop data.length }
      unfold State.potential at hend ⊢
      dsimp only at hend ⊢
      omega
    · have hpos : 0 < data.length := List.length_pos_iff.mpr hdata
      rcases hfeed : codec.decodeFeed data with ⟨codec', e | events⟩
      · have herror := potential_sendError
          { st with pipe.bytes := st.pipe.bytes.drop data.length } e.text
        unfold State.potential at herror ⊢
        dsimp only at herror ⊢
        omega
      · have hevents := feed_length hfeed
        have hsending := weight_sendingOr codec' events
        unfold State.potential
        dsimp only
        omega
  | @send codec ev evs hthread =>
    have hweight : st.thread.weight = 3 + 4 * buffered codec + 3 * (evs.length + 1) := by
      rw [hthread]
      rfl
    unfold State.sendEvent
    cases hsend : st.channel.send (.ok ev) with
    | none =>
      have hend := potential_endThread st
      dsimp only
      omega
    | some channel =>
      have hqueue := Channel.length_send hsend
      have hsending := weight_sendingOr codec evs
      unfold State.potential
      dsimp only
      omega
  | @check x hmain =>
    have hweight : st.main.weight = 4 := by rw [hmain]; rfl
    have hnext : (st.checkClock x).potential + 1 ≤ st.potential := by
      unfold State.checkClock State.potential
      rw [hweight]
      split_ifs
      · show 5 * st.pipe.bytes.length + st.thread.weight + 2 * st.channel.queue.length + 2 + 1 ≤ _
        omega
      · exact Nat.le_refl _
    omega
  | @take x item queue hmain hqueue =>
    have hweight : st.main.weight = 3 := by rw [hmain]; rfl
    have hlength : st.channel.queue.length = queue.length + 1 := by rw [hqueue]; rfl
    have hitem : (afterItem x item).weight ≤ 4 := by cases item <;> simp [afterItem, Main.weight]
    unfold State.potential
    dsimp only
    omega
  | timeOut hmain =>
    have hweight : st.main.weight = 3 := by rw [hmain]; rfl
    unfold State.potential
    simp only [Main.weight] at hweight ⊢
    omega
  | hangUp hmain =>
    have hweight : st.main.weight = 3 := by rw [hmain]; rfl
    unfold State.potential
    simp only [Main.weight] at hweight ⊢
    omega
  | kill hmain =>
    have hweight : st.main.weight = 2 := by rw [hmain]; rfl
    unfold State.potential
    simp only [Main.weight] at hweight ⊢
    omega
  | wait hmain =>
    have hweight : st.main.weight = 1 := by rw [hmain]; rfl
    unfold State.potential
    simp only [Main.weight, Channel.dropReceiver] at hweight ⊢
    omega

/-! ## Where a round can stop -/

/-- A state in which the thread and the main loop wait for the child or for the clock. -/
inductive Blocked : State → Prop
  /-- The round is over. -/
  | finished {st : State} (hdone : st.main.isDone = true) : Blocked st
  /-- The main loop is in `wait`.  It has killed the child, or the thread has come to its
  end. -/
  | process {st : State} {x : Session × Progress} {childRes : Except String Unit}
      (hmain : st.main = .waiting x childRes) (hprocess : st.process = none)
      (hwhy : childRes.isOk = false ∨ st.thread = .ended) : Blocked st
  /-- The child writes nothing, and the time limit is not over. -/
  | input {st : State} {x : Session × Progress} {codec : HostCodec}
      (hmain : st.main = .polling x) (hthread : st.thread = .reading codec)
      (hpipe : st.pipe = ⟨[], true⟩) (hqueue : st.channel.queue = [])
      (hexpired : st.expired = false) : Blocked st

/-- Without a step, the thread reads from an empty pipe or it has come to its end. -/
theorem thread_stuck {reads : List (Read String)} {items : List (Except String Event)}
    (hinv : Inv codecType s reads items st)
    (hstuck : ∀ a, a.internal = true → step codecType st a = none) :
    st.thread = .ended ∨ ∃ codec, st.thread = .reading codec ∧ st.pipe = ⟨[], true⟩ := by
  obtain ⟨sent, hsent, -⟩ := hinv.told
  cases hthread : st.thread with
  | starting =>
    have hbegin := hstuck .begin rfl
    rw [step, hthread] at hbegin
    cases hbegin
  | sending codec evs =>
    rw [hthread] at hsent
    cases hsent with
    | sending =>
      have hsend := hstuck .send rfl
      rw [step, hthread] at hsend
      cases hsend
  | ended => exact .inl rfl
  | reading codec =>
    refine .inr ⟨codec, rfl, ?_⟩
    have hread : ∀ data, st.pipe.answers data = false := by
      intro data
      have hstep := hstuck (.read data) rfl
      rw [step, hthread] at hstep
      dsimp only at hstep
      split_ifs at hstep with hanswers
      simpa using hanswers
    rcases hpipe : st.pipe with ⟨_ | ⟨b, bytes⟩, writers⟩
    · have hend := hread []
      rw [hpipe] at hend
      simpa [Pipe.answers] using hend
    · -- one byte can be read
      have hone := hread [b]
      rw [hpipe] at hone
      simp [Pipe.answers, bufferSize] at hone

/-- A state without a step is blocked. -/
theorem blocked_of_stuck {reads : List (Read String)} {items : List (Except String Event)}
    (hinv : Inv codecType s reads items st)
    (hstuck : ∀ a, a.internal = true → step codecType st a = none) : Blocked st := by
  cases hmain : st.main with
  | head x =>
    have hcheck := hstuck .check rfl
    rw [step, hmain] at hcheck
    cases hcheck
  | left x childRes =>
    have hkill := hstuck .kill rfl
    rw [step, hmain] at hkill
    cases hkill
  | done x childRes answer => exact .finished (by rw [hmain]; rfl)
  | waiting x childRes =>
    refine .process hmain ?_ ?_
    · cases hprocess : st.process with
      | none => rfl
      | some status =>
        have hwait := hstuck (.wait (.ok status)) rfl
        rw [step, hmain] at hwait
        simp [State.reaps, hprocess] at hwait
    · have hhears := hinv.hears
      rw [hmain] at hhears
      obtain ⟨evs, hstopped, -⟩ := hhears
      cases hstopped with
      | timeOut => exact .inl rfl
      | failed => exact .inl rfl
      | hungUp _ hended => exact .inr hended
  | polling x =>
    have hexpired : st.expired = false := by
      have htime := hstuck .timeOut rfl
      rw [step, hmain] at htime
      simpa using htime
    have hqueue : st.channel.queue = [] := by
      cases hqueue : st.channel.queue with
      | nil => rfl
      | cons item queue =>
        have htake := hstuck (.take item) rfl
        rw [step, hmain, hqueue] at htake
        simp at htake
    rcases thread_stuck hinv hstuck with hended | ⟨codec, hthread, hpipe⟩
    · have hhang := hstuck .hangUp rfl
      rw [step, hmain] at hhang
      simp [Channel.disconnected, hqueue, hinv.sender.mpr hended] at hhang
    · exact .input hmain hthread hpipe hqueue hexpired

/-- In every state that a schedule reaches, the thread and the main loop make a bounded
number of steps by themselves, and where they stop they wait for the child or the clock. -/
theorem schedule_progress (h : Scheduled.run (step codecType) (.start s) as = some st) :
    (∀ bs st', (∀ a ∈ bs, a.internal = true) → Scheduled.run (step codecType) st bs = some st' →
      bs.length ≤ st.potential ∧
      ((∀ a, a.internal = true → step codecType st' a = none) → Blocked st')) ∧
    ∃ bs st', (∀ a ∈ bs, a.internal = true) ∧
      Scheduled.run (step codecType) st bs = some st' ∧ Blocked st' := by
  have hblocked : ∀ bs st', Scheduled.run (step codecType) st bs = some st' →
      (∀ a, a.internal = true → step codecType st' a = none) → Blocked st' := by
    intro bs st' hbs hstuck
    exact blocked_of_stuck (schedule_inv (Scheduled.run_append.mpr ⟨st, h, hbs⟩)) hstuck
  refine ⟨fun bs st' hinternal hbs => ⟨?_, hblocked bs st' hbs⟩, ?_⟩
  · have hbound := Scheduled.run_bounded (P := fun a : Action => a.internal = true)
      (fun t a t' => potential_step) hinternal hbs
    omega
  · obtain ⟨bs, st', hbs, hinternal, hstuck⟩ := Scheduled.run_settles
      (P := fun a : Action => a.internal = true) (fun t a t' => potential_step) st
    exact ⟨bs, st', hinternal, hbs, hblocked bs st' hbs hstuck⟩

/-- A child that has written a part of a line. -/
theorem schedule_progress_turns :
    ∃ st, Scheduled.run (step "text") (.start (.start [])) (inTurns.take 7) = some st ∧
      ∃ bs st', (∀ a ∈ bs, a.internal = true) ∧
        Scheduled.run (step "text") st bs = some st' ∧ Blocked st' := by
  obtain ⟨st, hst⟩ := Option.isSome_iff_exists.mp (show (Scheduled.run (step "text")
    (.start (.start [])) (inTurns.take 7)).isSome by decide +kernel)
  exact ⟨st, hst, (schedule_progress hst).2⟩

end Reader

end PolyOnTest.Cli
