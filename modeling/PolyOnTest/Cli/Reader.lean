import PolyOnTest.CodeLib.Channel
import PolyOnTest.CodeLib.Scheduled
import PolyOnTest.Cli.Isolated

/-!
# The thread that reads a child

`run_isolated` starts a thread for each child.  The thread reads the output of the child
and sends the events through a channel, and the main loop takes them from there until
the channel is disconnected, an error arrives, or the time limit is over.

`step` is one step of one of the parties: the child, the clock, the thread or the main
loop.  A schedule is any order of their steps.  The labels of the steps show what was
written, read and taken, so the history of a run is a function of its schedule.

`Stopped.heard` says that under every schedule the main loop hears what `Child.heard`
says, for the reads that the thread has made and for some time limit, which there only is
when the clock has made its step.
-/

namespace PolyOnTest.Cli

open CodeLib PolyOnTest.Builtins

namespace Reader

/-! ## The parties -/

/-- The pipe between the child and the thread: what was written and not yet read, and
whether the end for writing is still open. -/
structure Pipe where
  bytes : List UInt8
  writers : Bool
  deriving DecidableEq

/-- What the thread does next: it chooses the codec, it is in `read`, it has events to
send, or it has come to its end. -/
inductive Thread
  | starting
  | reading (codec : HostCodec)
  | sending (codec : HostCodec) (events : List Event)
  | ended
  deriving DecidableEq

/-- What the main loop does next: it is at the head of the loop, in `recv_timeout`,
behind the loop with `child_res`, in `wait`, or behind `wait`. -/
inductive Main
  | head (x : Session × Progress)
  | polling (x : Session × Progress)
  | left (x : Session × Progress) (childRes : Except String Unit)
  | waiting (x : Session × Progress) (childRes : Except String Unit)
  | done (x : Session × Progress) (childRes : Except String Unit)
      (wait : Except String ExitStatus)
  deriving DecidableEq

/-- The state of all parties.  `expired` says that the time limit is over, and `process`
is the status of the child once it has ended. -/
structure State where
  pipe : Pipe
  process : Option ExitStatus
  expired : Bool
  thread : Thread
  channel : Channel (Except String Event)
  main : Main
  deriving DecidableEq

/-- The state when the thread has been started. -/
def State.start (s : Session) : State where
  pipe := ⟨[], true⟩
  process := none
  expired := false
  thread := .starting
  channel := .new
  main := .head (s, .init)

/-! ## The steps -/

/-- The steps of the parties, with what they show. -/
inductive Action
  -- the child and the clock
  | write (bytes : List UInt8)
  | close
  | exit (status : ExitStatus)
  | expire
  -- the thread
  | begin
  | read (data : List UInt8)
  | fail (text : String)
  | send
  -- the main loop
  | check
  | take (item : Except String Event)
  | timeOut
  | hangUp
  | kill
  | wait (answer : Except String ExitStatus)
  deriving DecidableEq

/-- The end of the thread, which drops the sender. -/
def State.endThread (st : State) : State :=
  { st with thread := .ended, channel := st.channel.dropSender }

/-- `let _ = tx.send(Err(..)); return`. -/
def State.sendError (st : State) (e : String) : State :=
  match st.channel.send (.error e) with
  | some channel => { st with channel }.endThread
  | none => st.endThread

/-- The thread with the events that it still has to send. -/
def sendingOr (codec : HostCodec) : List Event → Thread
  | [] => .reading codec
  | ev :: evs => .sending codec (ev :: evs)

/-- `match codec_type.as_str()`. -/
def State.openCodec (codecType : String) (st : State) : State :=
  match HostCodec.ofName codecType with
  | .ok codec => { st with thread := .reading codec }
  | .error e => st.sendError e

/-- The length of the buffer of the thread. -/
def bufferSize : Nat := 1024

/-- What `read` may answer: some bytes from the front of the pipe, or none at its end. -/
def Pipe.answers (pipe : Pipe) (data : List UInt8) : Bool :=
  if data = [] then pipe.bytes.isEmpty && !pipe.writers
  else decide (data.length ≤ bufferSize) && data.isPrefixOf pipe.bytes

/-- The thread behind `read`. -/
def State.afterRead (st : State) (codec : HostCodec) (data : List UInt8) : State :=
  let st := { st with pipe.bytes := st.pipe.bytes.drop data.length }
  if data = [] then st.endThread
  else
    match codec.decodeFeed data with
    | (codec, .ok events) => { st with thread := sendingOr codec events }
    | (_, .error e) => st.sendError e.text

/-- The thread behind a `read` that failed. -/
def State.afterFail (st : State) (text : String) : State :=
  if isOsError text then st.endThread else st.sendError text

/-- `if tx.send(Ok(ev)).is_err() { return; }`. -/
def State.sendEvent (st : State) (codec : HostCodec) (ev : Event) (evs : List Event) :
    State :=
  match st.channel.send (.ok ev) with
  | some channel => { st with channel, thread := sendingOr codec evs }
  | none => st.endThread

/-- The text of the error when the time limit is over. -/
def timeoutText : String := "timeout waiting for child process events"

/-- The main loop behind `now >= deadline`. -/
def State.checkClock (st : State) (x : Session × Progress) : State :=
  if st.expired then { st with main := .left x (.error timeoutText) }
  else { st with main := .polling x }

/-- The main loop behind an item from the channel. -/
def afterItem (x : Session × Progress) : Except String Event → Main
  | .ok ev => .head (receive x ev)
  | .error e => .left x (.error e)

/-- What `wait` may answer: the status of a child that has ended, or an error. -/
def State.reaps (st : State) : Except String ExitStatus → Bool
  | .ok status => st.process = some status
  | .error _ => true

/-- One step. -/
def step (codecType : String) (st : State) : Action → Option State
  | .write bytes =>
      -- a pipe that nobody reads takes nothing
      if st.pipe.writers ∧ st.thread ≠ .ended then
        some { st with pipe.bytes := st.pipe.bytes ++ bytes }
      else none
  | .close => some { st with pipe.writers := false }
  | .exit status =>
      if st.process = none then some { st with process := some status } else none
  | .expire => some { st with expired := true }
  | .begin =>
      match st.thread with
      | .starting => some (st.openCodec codecType)
      | _ => none
  | .read data =>
      match st.thread with
      | .reading codec => if st.pipe.answers data then some (st.afterRead codec data) else none
      | _ => none
  | .fail text =>
      match st.thread with
      | .reading _ => some (st.afterFail text)
      | _ => none
  | .send =>
      match st.thread with
      | .sending codec (ev :: evs) => some (st.sendEvent codec ev evs)
      | _ => none
  | .check =>
      match st.main with
      | .head x => some (st.checkClock x)
      | _ => none
  | .take item =>
      match st.main, st.channel.queue with
      | .polling x, next :: queue =>
          if next = item then
            some { st with channel := { st.channel with queue }, main := afterItem x item }
          else none
      | _, _ => none
  | .timeOut =>
      match st.main with
      | .polling x =>
          if st.expired then some { st with main := .left x (.error timeoutText) } else none
      | _ => none
  | .hangUp =>
      match st.main with
      | .polling x =>
          if st.channel.disconnected then some { st with main := .left x (.ok ()) } else none
      | _ => none
  | .kill =>
      match st.main with
      | .left x childRes => some { st with main := .waiting x childRes }
      | _ => none
  | .wait answer =>
      match st.main with
      | .waiting x childRes =>
          -- the receiver goes out of scope at the end of the round
          if st.reaps answer then
            some { st with
              main := .done x childRes answer
              channel := st.channel.dropReceiver }
          else none
      | _ => none

/-- The steps, one case for each label. -/
inductive Moves (codecType : String) (st : State) : Action → State → Prop
  | write {bytes : List UInt8} (hwriters : st.pipe.writers = true)
      (hrunning : st.thread ≠ .ended) :
      Moves codecType st (.write bytes) { st with pipe.bytes := st.pipe.bytes ++ bytes }
  | close : Moves codecType st .close { st with pipe.writers := false }
  | exit {status : ExitStatus} (hprocess : st.process = none) :
      Moves codecType st (.exit status) { st with process := some status }
  | expire : Moves codecType st .expire { st with expired := true }
  | begin (hthread : st.thread = .starting) :
      Moves codecType st .begin (st.openCodec codecType)
  | read {codec : HostCodec} {data : List UInt8} (hthread : st.thread = .reading codec)
      (hanswers : st.pipe.answers data = true) :
      Moves codecType st (.read data) (st.afterRead codec data)
  | fail {codec : HostCodec} {text : String} (hthread : st.thread = .reading codec) :
      Moves codecType st (.fail text) (st.afterFail text)
  | send {codec : HostCodec} {ev : Event} {evs : List Event}
      (hthread : st.thread = .sending codec (ev :: evs)) :
      Moves codecType st .send (st.sendEvent codec ev evs)
  | check {x : Session × Progress} (hmain : st.main = .head x) :
      Moves codecType st .check (st.checkClock x)
  | take {x : Session × Progress} {item : Except String Event}
      {queue : List (Except String Event)} (hmain : st.main = .polling x)
      (hqueue : st.channel.queue = item :: queue) :
      Moves codecType st (.take item)
        { st with channel := { st.channel with queue }, main := afterItem x item }
  | timeOut {x : Session × Progress} (hmain : st.main = .polling x)
      (hexpired : st.expired = true) :
      Moves codecType st .timeOut { st with main := .left x (.error timeoutText) }
  | hangUp {x : Session × Progress} (hmain : st.main = .polling x)
      (hdis : st.channel.disconnected = true) :
      Moves codecType st .hangUp { st with main := .left x (.ok ()) }
  | kill {x : Session × Progress} {childRes : Except String Unit}
      (hmain : st.main = .left x childRes) :
      Moves codecType st .kill { st with main := .waiting x childRes }
  | wait {x : Session × Progress} {childRes : Except String Unit}
      {answer : Except String ExitStatus} (hmain : st.main = .waiting x childRes)
      (hreaps : st.reaps answer = true) :
      Moves codecType st (.wait answer)
        { st with main := .done x childRes answer, channel := st.channel.dropReceiver }

/-- What a step can be, and when it is possible. -/
theorem step_moves {codecType : String} {st st' : State} {a : Action}
    (h : step codecType st a = some st') : Moves codecType st a st' := by
  cases a with
  | write bytes =>
    simp only [step, Option.ite_none_right_eq_some, Option.some.injEq] at h
    obtain ⟨⟨hwriters, hrunning⟩, rfl⟩ := h
    exact .write hwriters hrunning
  | close => cases h; exact .close
  | exit status =>
    simp only [step, Option.ite_none_right_eq_some, Option.some.injEq] at h
    obtain ⟨hprocess, rfl⟩ := h
    exact .exit hprocess
  | expire => cases h; exact .expire
  | begin =>
    rw [step] at h
    split at h <;> cases h
    exact .begin ‹_›
  | read data =>
    rw [step] at h
    split at h
    · split_ifs at h with hanswers
      cases h
      exact .read ‹_› hanswers
    · cases h
  | fail text =>
    rw [step] at h
    split at h <;> cases h
    exact .fail ‹_›
  | send =>
    rw [step] at h
    split at h <;> cases h
    exact .send ‹_›
  | check =>
    rw [step] at h
    split at h <;> cases h
    exact .check ‹_›
  | take item =>
    rw [step] at h
    split at h
    · split_ifs at h with hitem
      cases h
      subst hitem
      exact .take ‹_› ‹_›
    · cases h
  | timeOut =>
    rw [step] at h
    split at h
    · split_ifs at h with hexpired
      cases h
      exact .timeOut ‹_› hexpired
    · cases h
  | hangUp =>
    rw [step] at h
    split at h
    · split_ifs at h with hdis
      cases h
      exact .hangUp ‹_› hdis
    · cases h
  | kill =>
    rw [step] at h
    split at h <;> cases h
    exact .kill ‹_›
  | wait answer =>
    rw [step] at h
    split at h
    · split_ifs at h with hreaps
      cases h
      exact .wait ‹_› hreaps
    · cases h

/-! ## The history of a run -/

/-- What the child writes in a step. -/
def Action.written : Action → List UInt8
  | .write bytes => bytes
  | _ => []

/-- The answer of `read` in a step. -/
def Action.answers : Action → List (Read String)
  | .read data => [.data data]
  | .fail text => [.failed text]
  | _ => []

/-- The item that the main loop takes in a step. -/
def Action.taken : Action → List (Except String Event)
  | .take item => [item]
  | _ => []

/-- The answer of `wait` in a step. -/
def Action.reaped : Action → List (Except String ExitStatus)
  | .wait answer => [answer]
  | _ => []

/-- The bytes that the child has written. -/
def written (as : List Action) : List UInt8 := as.flatMap Action.written

/-- The answers that the thread has got. -/
def answers (as : List Action) : List (Read String) := as.flatMap Action.answers

/-- The items that the main loop has taken. -/
def taken (as : List Action) : List (Except String Event) := as.flatMap Action.taken

/-- The answers of `wait`. -/
def reaped (as : List Action) : List (Except String ExitStatus) := as.flatMap Action.reaped

theorem flatMap_snoc {α β : Type} (f : α → List β) (as : List α) (a : α) :
    (as ++ [a]).flatMap f = as.flatMap f ++ f a := by
  rw [List.flatMap_append, List.flatMap_cons, List.flatMap_nil, List.append_nil]

/-! ## What the thread has sent -/

/-- The codec behind some reads that it could decode, and their events. -/
inductive Fed (first : HostCodec) : List (Read String) → List Event → HostCodec → Prop
  | none : Fed first [] [] first
  | more {reads : List (Read String)} {evs events : List Event} {codec codec' : HostCodec}
      {data : List UInt8} : Fed first reads evs codec → data ≠ [] →
      codec.decodeFeed data = (codec', .ok events) →
      Fed first (reads ++ [.data data]) (evs ++ events) codec'

theorem Fed.readAll {first codec : HostCodec} {reads : List (Read String)}
    {evs : List Event} (h : Fed first reads evs codec) (more : List (Read String)) :
    Cli.readAll id first (reads ++ more) =
      (evs ++ (Cli.readAll id codec more).1, (Cli.readAll id codec more).2) := by
  induction h generalizing more with
  | none => rfl
  | more _ hne hfeed ih =>
      rw [List.append_assoc, List.singleton_append, ih, Cli.readAll, if_neg hne, hfeed,
        List.append_assoc]

variable {codecType : String} {s : Session} {reads : List (Read String)}
  {items : List (Except String Event)} {evs rest : List Event}

theorem Fed.readerThread {first codec : HostCodec} (hname : HostCodec.ofName codecType = .ok first)
    (h : Fed first reads evs codec) (more : List (Read String)) :
    readerThread codecType (reads ++ more) =
      (evs ++ (Cli.readAll id codec more).1, (Cli.readAll id codec more).2) := by
  unfold Cli.readerThread
  rw [hname]
  exact h.readAll more

/-- The item of an error. -/
def errors : Except String Unit → List (Except String Event)
  | .error e => [.error e]
  | .ok () => []

/-- What the thread has sent, for the answers that it has got.  Once the receiver is
gone, a part of it may be missing. -/
inductive Sent (codecType : String) (receiver : Bool) :
    List (Read String) → Thread → List (Except String Event) → Prop
  | starting : Sent codecType receiver [] .starting []
  | reading {reads : List (Read String)} {evs : List Event} {first codec : HostCodec}
      (hname : HostCodec.ofName codecType = .ok first) (h : Fed first reads evs codec) :
      Sent codecType receiver reads (.reading codec) (evs.map .ok)
  | sending {reads : List (Read String)} {ev : Event} {evs rest : List Event}
      {first codec : HostCodec} (hname : HostCodec.ofName codecType = .ok first)
      (h : Fed first reads (evs ++ ev :: rest) codec) :
      Sent codecType receiver reads (.sending codec (ev :: rest)) (evs.map .ok)
  | ended {reads : List (Read String)} {evs : List Event} {res : Except String Unit}
      (h : readerThread codecType reads = (evs, res)) :
      Sent codecType receiver reads .ended (evs.map .ok ++ errors res)
  | cut {reads : List (Read String)} {evs rest : List Event} {res : Except String Unit}
      (hgone : receiver = false) (h : readerThread codecType reads = (evs ++ rest, res)) :
      Sent codecType receiver reads .ended (evs.map .ok)

theorem Sent.gone {receiver : Bool} {thread : Thread} {sent : List (Except String Event)}
    (h : Sent codecType receiver reads thread sent) : Sent codecType false reads thread sent := by
  cases h with
  | starting => exact .starting
  | reading hname hfed => exact .reading hname hfed
  | sending hname hfed => exact .sending hname hfed
  | ended hread => exact .ended hread
  | cut _ hread => exact .cut rfl hread

/-- What the thread has sent is a part of what `readerThread` says, and an error ends it. -/
theorem Sent.part {receiver : Bool} {thread : Thread} {sent : List (Except String Event)}
    (h : Sent codecType receiver reads thread sent) :
    ∃ front back res, readerThread codecType reads = (front ++ back, res) ∧
      (sent = front.map .ok ∨ ∃ e, sent = front.map .ok ++ [.error e] ∧ res = .error e ∧
        back = []) := by
  have hfed : ∀ {first codec : HostCodec} {evs : List Event},
      HostCodec.ofName codecType = .ok first → Fed first reads evs codec →
      readerThread codecType reads = (evs, .ok ()) := by
    intro first codec evs hname hfed
    have hread := hfed.readerThread hname []
    rw [List.append_nil, readAll, List.append_nil] at hread
    exact hread
  cases h with
  | starting => exact ⟨[], _, _, rfl, .inl rfl⟩
  | @reading _ evs _ _ hname hreads =>
    refine ⟨evs, [], .ok (), ?_, .inl rfl⟩
    rw [hfed hname hreads, List.append_nil]
  | @sending _ ev evs rest _ _ hname hreads =>
    exact ⟨evs, ev :: rest, .ok (), hfed hname hreads, .inl rfl⟩
  | @ended _ evs res hread =>
    refine ⟨evs, [], res, ?_, ?_⟩
    · rw [hread, List.append_nil]
    · cases res with
      | ok u => exact .inl (by simp [errors])
      | error e => exact .inr ⟨e, rfl, rfl, rfl⟩
  | @cut _ evs rest res _ hread => exact ⟨evs, rest, res, hread, .inl rfl⟩

/-- What the thread has sent was taken or is on its way. -/
def Told (codecType : String) (reads : List (Read String))
    (items : List (Except String Event)) (st : State) : Prop :=
  ∃ sent, Sent codecType st.channel.receiver reads st.thread sent ∧
    st.channel.Carries sent items

theorem told_endThread {st : State} (hcarries : st.channel.Carries (evs.map .ok) items)
    (h : readerThread codecType reads = (evs, .ok ())) :
    Told codecType reads items st.endThread := by
  refine ⟨evs.map .ok, ?_, hcarries⟩
  have hended := @Sent.ended codecType st.channel.receiver _ _ _ h
  rw [errors, List.append_nil] at hended
  exact hended

theorem told_sendError {st : State} {e : String}
    (hcarries : st.channel.Carries (evs.map .ok) items)
    (h : readerThread codecType reads = (evs, .error e)) :
    Told codecType reads items (st.sendError e) := by
  unfold State.sendError
  cases hsend : st.channel.send (.error e) with
  | some channel =>
    have hsent := hcarries.send hsend
    exact ⟨_, .ended h, hsent⟩
  | none =>
    have hgone := Channel.send_none hsend
    rw [← List.append_nil evs] at h
    exact ⟨_, .cut hgone h, hcarries⟩

theorem told_sending {st : State} {first codec : HostCodec}
    (hname : HostCodec.ofName codecType = .ok first) (h : Fed first reads (evs ++ rest) codec)
    (hcarries : st.channel.Carries (evs.map .ok) items) :
    Told codecType reads items { st with thread := sendingOr codec rest } := by
  refine ⟨_, ?_, hcarries⟩
  cases rest with
  | nil =>
    rw [List.append_nil] at h
    exact .reading hname h
  | cons ev evs => exact .sending hname h

/-! ## What the main loop has heard -/

/-- The main loop behind some events. -/
def heardState (s : Session) (evs : List Event) : Session × Progress :=
  evs.foldl receive (s, .init)

/-- How the main loop was left, for the events that it has taken. -/
inductive Stopped (codecType : String) (reads : List (Read String)) (expired : Bool)
    (thread : Thread) : List Event → List (Except String Event) → Except String Unit → Prop
  | timeOut (evs : List Event) (h : expired = true) :
      Stopped codecType reads expired thread evs (evs.map .ok) (.error timeoutText)
  | failed (evs : List Event) (e : String) :
      Stopped codecType reads expired thread evs (evs.map .ok ++ [.error e]) (.error e)
  | hungUp {evs : List Event} (h : readerThread codecType reads = (evs, .ok ()))
      (hthread : thread = .ended) :
      Stopped codecType reads expired thread evs (evs.map .ok) (.ok ())

/-- The state of the main loop shows the events that it has taken. -/
def Hears (codecType : String) (s : Session) (reads : List (Read String))
    (items : List (Except String Event)) (expired : Bool) (thread : Thread) : Main → Prop
  | .head x | .polling x => ∃ evs, items = evs.map .ok ∧ x = heardState s evs
  | .left x childRes | .waiting x childRes | .done x childRes _ =>
      ∃ evs, Stopped codecType reads expired thread evs items childRes ∧ x = heardState s evs

/-- The main loop is behind `wait`. -/
def Main.isDone : Main → Bool
  | .done .. => true
  | _ => false

/-- The invariant of the protocol. -/
structure Inv (codecType : String) (s : Session) (reads : List (Read String))
    (items : List (Except String Event)) (st : State) : Prop where
  told : Told codecType reads items st
  sender : st.channel.sender = false ↔ st.thread = .ended
  receiver : st.channel.receiver = false → st.main.isDone = true
  hears : Hears codecType s reads items st.expired st.thread st.main

variable {expired expired' : Bool} {thread thread' : Thread} {reads' : List (Read String)}

/-- The clock and the thread go on without the main loop. -/
theorem Stopped.later {childRes : Except String Unit}
    (h : Stopped codecType reads expired thread evs items childRes)
    (hexpired : expired = true → expired' = true)
    (hthread : thread = .ended → thread' = .ended ∧ reads' = reads) :
    Stopped codecType reads' expired' thread' evs items childRes := by
  cases h with
  | timeOut h => exact .timeOut evs (hexpired h)
  | failed e => exact .failed evs e
  | hungUp h hended =>
    obtain ⟨hended', rfl⟩ := hthread hended
    exact .hungUp h hended'

theorem Hears.later {main : Main} (h : Hears codecType s reads items expired thread main)
    (hexpired : expired = true → expired' = true)
    (hthread : thread = .ended → thread' = .ended ∧ reads' = reads) :
    Hears codecType s reads' items expired' thread' main := by
  cases main with
  | head x => exact h
  | polling x => exact h
  | left x childRes =>
    obtain ⟨evs, hstopped, hx⟩ := h
    exact ⟨evs, hstopped.later hexpired hthread, hx⟩
  | waiting x childRes =>
    obtain ⟨evs, hstopped, hx⟩ := h
    exact ⟨evs, hstopped.later hexpired hthread, hx⟩
  | done x childRes answer =>
    obtain ⟨evs, hstopped, hx⟩ := h
    exact ⟨evs, hstopped.later hexpired hthread, hx⟩

theorem inv_start (codecType : String) (s : Session) :
    Inv codecType s [] [] (.start s) where
  told := ⟨[], .starting, .new⟩
  sender := by simp [State.start, Channel.new]
  receiver h := by cases h
  hears := ⟨[], rfl, rfl⟩

/-! ## The thread keeps the invariant -/

/-- A step of the thread changes the pipe, the thread and the channel. -/
structure ThreadStep (st st' : State) : Prop where
  running : st.thread ≠ .ended
  expired : st'.expired = st.expired
  main : st'.main = st.main
  receiver : st'.channel.receiver = st.channel.receiver
  sender : st'.channel.sender = false ↔ st'.thread = .ended

theorem Inv.threadStep {st st' : State} {reads' : List (Read String)}
    (h : Inv codecType s reads items st) (hstep : ThreadStep st st')
    (htold : Told codecType reads' items st') : Inv codecType s reads' items st' where
  told := htold
  sender := hstep.sender
  receiver := by
    rw [hstep.receiver, hstep.main]
    exact h.receiver
  hears := by
    rw [hstep.main, hstep.expired]
    exact h.hears.later id fun hended => absurd hended hstep.running

/-- While the thread runs, its sender is there. -/
theorem Inv.sender_eq {st : State} (h : Inv codecType s reads items st)
    (hrunning : st.thread ≠ .ended) : st.channel.sender = true := by
  cases hsender : st.channel.sender with
  | true => rfl
  | false => exact absurd (h.sender.mp hsender) hrunning

theorem threadStep_endThread {st : State} (hrunning : st.thread ≠ .ended) :
    ThreadStep st st.endThread where
  running := hrunning
  expired := rfl
  main := rfl
  receiver := rfl
  sender := ⟨fun _ => rfl, fun _ => rfl⟩

theorem threadStep_sendError {st : State} (e : String) (hrunning : st.thread ≠ .ended) :
    ThreadStep st (st.sendError e) := by
  unfold State.sendError
  cases hsend : st.channel.send (.error e) with
  | none => exact threadStep_endThread hrunning
  | some channel =>
    exact ⟨hrunning, rfl, rfl, (Channel.send_ends hsend).2, fun _ => rfl, fun _ => rfl⟩

/-- The sender stays while the thread runs. -/
theorem Inv.goesOn {st st' : State} (h : Inv codecType s reads items st)
    (hrunning : st.thread ≠ .ended) (hexpired : st'.expired = st.expired)
    (hmain : st'.main = st.main) (hreceiver : st'.channel.receiver = st.channel.receiver)
    (hsender : st'.channel.sender = st.channel.sender) (hrunning' : st'.thread ≠ .ended) :
    ThreadStep st st' where
  running := hrunning
  expired := hexpired
  main := hmain
  receiver := hreceiver
  sender := by
    rw [hsender, h.sender_eq hrunning]
    simp [hrunning']

theorem sendingOr_ne_ended (codec : HostCodec) (evs : List Event) :
    sendingOr codec evs ≠ .ended := by
  cases evs with
  | nil => exact nofun
  | cons ev evs => exact nofun

/-- A thread that runs has sent events only. -/
theorem Told.starting {st : State} (h : Told codecType reads items st)
    (hthread : st.thread = .starting) : reads = [] ∧ st.channel.Carries [] items := by
  obtain ⟨sent, hsent, hcarries⟩ := h
  rw [hthread] at hsent
  cases hsent
  exact ⟨rfl, hcarries⟩

theorem Told.reading {st : State} {codec : HostCodec} (h : Told codecType reads items st)
    (hthread : st.thread = .reading codec) :
    ∃ first evs, HostCodec.ofName codecType = .ok first ∧ Fed first reads evs codec ∧
      st.channel.Carries (evs.map .ok) items := by
  obtain ⟨sent, hsent, hcarries⟩ := h
  rw [hthread] at hsent
  cases hsent with
  | reading hname hfed => exact ⟨_, _, hname, hfed, hcarries⟩

theorem Told.sending {st : State} {codec : HostCodec} (h : Told codecType reads items st)
    (hthread : st.thread = .sending codec rest) :
    ∃ first evs, HostCodec.ofName codecType = .ok first ∧
      Fed first reads (evs ++ rest) codec ∧ st.channel.Carries (evs.map .ok) items := by
  obtain ⟨sent, hsent, hcarries⟩ := h
  rw [hthread] at hsent
  cases hsent with
  | sending hname hfed => exact ⟨_, _, hname, hfed, hcarries⟩

theorem inv_begin {st : State} (h : Inv codecType s reads items st)
    (hthread : st.thread = .starting) : Inv codecType s reads items (st.openCodec codecType) := by
  have hrunning : st.thread ≠ .ended := by simp [hthread]
  obtain ⟨rfl, hcarries⟩ := h.told.starting hthread
  unfold State.openCodec
  cases hname : HostCodec.ofName codecType with
  | error e =>
    apply h.threadStep (threadStep_sendError e hrunning)
    refine @told_sendError _ _ _ [] _ _ hcarries ?_
    rw [readerThread, hname]
  | ok codec =>
    show Inv codecType s [] items { st with thread := .reading codec }
    apply h.threadStep
    · exact h.goesOn hrunning rfl rfl rfl rfl (by simp)
    · exact ⟨_, .reading hname .none, hcarries⟩

theorem inv_afterRead {st : State} {codec : HostCodec} (h : Inv codecType s reads items st)
    (hthread : st.thread = .reading codec) (data : List UInt8) :
    Inv codecType s (reads ++ [.data data]) items (st.afterRead codec data) := by
  have hrunning : st.thread ≠ .ended := by simp [hthread]
  obtain ⟨first, evs, hname, hfed, hcarries⟩ := h.told.reading hthread
  have hanswer := hfed.readerThread hname [.data data]
  rw [readAll] at hanswer
  have hpiped : Inv codecType s reads items
      { st with pipe.bytes := st.pipe.bytes.drop data.length } :=
    ⟨h.told, h.sender, h.receiver, h.hears⟩
  unfold State.afterRead
  dsimp only
  split_ifs with hdata
  · rw [if_pos hdata, List.append_nil] at hanswer
    exact hpiped.threadStep (threadStep_endThread hrunning) (told_endThread hcarries hanswer)
  · rw [if_neg hdata] at hanswer
    rcases hfeed : codec.decodeFeed data with ⟨codec', e | events⟩
    · rw [hfeed, List.append_nil] at hanswer
      exact hpiped.threadStep (threadStep_sendError _ hrunning)
        (told_sendError hcarries hanswer)
    · apply hpiped.threadStep
      · exact hpiped.goesOn hrunning rfl rfl rfl rfl (sendingOr_ne_ended codec' events)
      · exact told_sending hname (hfed.more hdata hfeed) hcarries

theorem inv_afterFail {st : State} {codec : HostCodec} (h : Inv codecType s reads items st)
    (hthread : st.thread = .reading codec) (text : String) :
    Inv codecType s (reads ++ [.failed text]) items (st.afterFail text) := by
  have hrunning : st.thread ≠ .ended := by simp [hthread]
  obtain ⟨first, evs, hname, hfed, hcarries⟩ := h.told.reading hthread
  have hanswer := hfed.readerThread hname [.failed text]
  rw [readAll] at hanswer
  unfold State.afterFail
  split_ifs with hos
  · rw [id, if_pos hos, List.append_nil] at hanswer
    exact h.threadStep (threadStep_endThread hrunning) (told_endThread hcarries hanswer)
  · rw [id, if_neg hos, List.append_nil] at hanswer
    exact h.threadStep (threadStep_sendError _ hrunning) (told_sendError hcarries hanswer)

theorem map_ok_snoc (evs : List Event) (ev : Event) :
    evs.map Except.ok ++ [(.ok ev : Except String Event)] = (evs ++ [ev]).map .ok := by
  rw [List.map_append]
  rfl

theorem inv_sendEvent {st : State} {codec : HostCodec} {ev : Event} {evs : List Event}
    (h : Inv codecType s reads items st) (hthread : st.thread = .sending codec (ev :: evs)) :
    Inv codecType s reads items (st.sendEvent codec ev evs) := by
  have hrunning : st.thread ≠ .ended := by simp [hthread]
  obtain ⟨first, before, hname, hfed, hcarries⟩ := h.told.sending hthread
  unfold State.sendEvent
  cases hsend : st.channel.send (.ok ev) with
  | none =>
    apply h.threadStep (threadStep_endThread hrunning)
    have hgone := Channel.send_none hsend
    have hanswer := hfed.readerThread hname []
    rw [List.append_nil, List.append_assoc] at hanswer
    exact ⟨_, .cut hgone hanswer, hcarries⟩
  | some channel =>
    have hends := Channel.send_ends hsend
    apply h.threadStep
    · exact h.goesOn hrunning rfl rfl hends.2 hends.1 (sendingOr_ne_ended codec evs)
    · have hsent := hcarries.send hsend
      rw [map_ok_snoc] at hsent
      rw [← List.singleton_append, ← List.append_assoc] at hfed
      exact @told_sending _ _ _ _ _ { st with channel } _ _ hname hfed hsent

/-! ## The main loop keeps the invariant -/

theorem inv_take {st : State} {x : Session × Progress} {item : Except String Event}
    {queue : List (Except String Event)} (h : Inv codecType s reads items st)
    (hmain : st.main = .polling x) (hqueue : st.channel.queue = item :: queue) :
    Inv codecType s reads (items ++ [item])
      { st with channel := { st.channel with queue }, main := afterItem x item } := by
  have hreceiver : st.channel.receiver ≠ false := by
    intro hgone
    have hdone := h.receiver hgone
    rw [hmain] at hdone
    cases hdone
  obtain ⟨sent, hsent, hcarries⟩ := h.told
  have hhears := h.hears
  rw [hmain] at hhears
  obtain ⟨evs, hitems, hx⟩ := hhears
  refine ⟨⟨sent, hsent, hcarries.take hqueue⟩, h.sender, fun hgone => absurd hgone hreceiver, ?_⟩
  cases item with
  | ok ev =>
    refine ⟨evs ++ [ev], ?_, ?_⟩
    · rw [hitems, map_ok_snoc]
    · rw [hx, heardState, heardState, List.foldl_append]
      rfl
  | error e =>
    refine ⟨evs, ?_, hx⟩
    rw [hitems]
    exact .failed evs e

theorem inv_hangUp {st : State} {x : Session × Progress}
    (h : Inv codecType s reads items st) (hmain : st.main = .polling x)
    (hdis : st.channel.disconnected = true) :
    Inv codecType s reads items { st with main := .left x (.ok ()) } := by
  have hreceiver : st.channel.receiver ≠ false := by
    intro hgone
    have hdone := h.receiver hgone
    rw [hmain] at hdone
    cases hdone
  have hthread : st.thread = .ended := by
    unfold Channel.disconnected at hdis
    simp only [Bool.and_eq_true, Bool.not_eq_true'] at hdis
    exact h.sender.mp hdis.2
  have hhears := h.hears
  rw [hmain] at hhears
  obtain ⟨evs, hitems, hx⟩ := hhears
  refine ⟨h.told, h.sender, fun hgone => absurd hgone hreceiver, evs, ?_, hx⟩
  obtain ⟨sent, hsent, hcarries⟩ := h.told
  have hall : sent = evs.map .ok := (hcarries.disconnected hdis).trans hitems
  rw [hthread] at hsent
  rw [hitems]
  cases hsent with
  | cut hgone _ => exact absurd hgone hreceiver
  | @ended _ evs' res hread =>
    cases res with
    | ok u =>
      rw [errors, List.append_nil] at hall
      have hevs : evs' = evs := List.map_injective_iff.mpr (fun _ _ => Except.ok.inj) hall
      rw [hevs] at hread
      exact .hungUp hread hthread
    | error e =>
      -- an error at the end would have been taken as an item
      have hmem : (Except.error e : Except String Event) ∈ evs.map Except.ok := by
        rw [← hall]
        simp [errors]
      simp at hmem

theorem inv_left {st : State} {x : Session × Progress} {main : Main}
    (h : Inv codecType s reads items st) (hmain : st.main = .head x ∨ st.main = .polling x)
    (hnext : main = .polling x ∨
      st.expired = true ∧ main = .left x (.error timeoutText)) :
    Inv codecType s reads items { st with main } := by
  have hdone : st.main.isDone ≠ true := by
    rcases hmain with hmain | hmain <;> simp [hmain, Main.isDone]
  refine ⟨h.told, h.sender, fun hgone => absurd (h.receiver hgone) hdone, ?_⟩
  have hhears : ∃ evs, items = evs.map .ok ∧ x = heardState s evs := by
    have hold := h.hears
    rcases hmain with hmain | hmain <;> rw [hmain] at hold <;> exact hold
  obtain ⟨evs, hitems, hx⟩ := hhears
  rcases hnext with rfl | ⟨hexpired, rfl⟩
  · exact ⟨evs, hitems, hx⟩
  · refine ⟨evs, ?_, hx⟩
    rw [hitems]
    exact .timeOut evs hexpired

theorem inv_checkClock {st : State} {x : Session × Progress}
    (h : Inv codecType s reads items st) (hmain : st.main = .head x) :
    Inv codecType s reads items (st.checkClock x) := by
  unfold State.checkClock
  split_ifs with hexpired
  · exact inv_left h (.inl hmain) (.inr ⟨hexpired, rfl⟩)
  · exact inv_left h (.inl hmain) (.inl rfl)

theorem inv_kill {st : State} {x : Session × Progress} {childRes : Except String Unit}
    (h : Inv codecType s reads items st) (hmain : st.main = .left x childRes) :
    Inv codecType s reads items { st with main := .waiting x childRes } := by
  have hhears := h.hears
  rw [hmain] at hhears
  have hdone := h.receiver
  rw [hmain] at hdone
  exact ⟨h.told, h.sender, hdone, hhears⟩

theorem inv_wait {st : State} {x : Session × Progress} {childRes : Except String Unit}
    (h : Inv codecType s reads items st) (hmain : st.main = .waiting x childRes)
    (answer : Except String ExitStatus) :
    Inv codecType s reads items
      { st with main := .done x childRes answer, channel := st.channel.dropReceiver } := by
  have hhears := h.hears
  rw [hmain] at hhears
  obtain ⟨sent, hsent, hcarries⟩ := h.told
  exact ⟨⟨sent, hsent.gone, hcarries⟩, h.sender, fun _ => rfl, hhears⟩

/-- A step of the child or of the clock. -/
theorem Inv.env {st : State} (h : Inv codecType s reads items st) (st' : State)
    (hthread : st'.thread = st.thread) (hchannel : st'.channel = st.channel)
    (hmain : st'.main = st.main) (hexpired : st.expired = true → st'.expired = true) :
    Inv codecType s reads items st' := by
  obtain ⟨htold, hsender, hreceiver, hhears⟩ := h
  unfold Told at htold
  have hlater : Hears codecType s reads items st'.expired st'.thread st'.main := by
    rw [hmain]
    exact hhears.later hexpired fun hended => ⟨hthread.trans hended, rfl⟩
  rw [← hthread, ← hchannel] at htold hsender
  rw [← hchannel, ← hmain] at hreceiver
  exact ⟨htold, hsender, hreceiver, hlater⟩

/-- One step of any party. -/
theorem step_inv {st st' : State} {a : Action} (h : Inv codecType s reads items st)
    (hstep : step codecType st a = some st') :
    Inv codecType s (reads ++ a.answers) (items ++ a.taken) st' := by
  cases step_moves hstep <;>
    simp only [Action.answers, Action.taken, List.append_nil]
  case write => exact h.env _ rfl rfl rfl id
  case close => exact h.env _ rfl rfl rfl id
  case exit => exact h.env _ rfl rfl rfl id
  case expire => exact h.env _ rfl rfl rfl fun _ => rfl
  case begin hthread => exact inv_begin h hthread
  case read codec data hthread _ => exact inv_afterRead h hthread data
  case fail codec text hthread => exact inv_afterFail h hthread text
  case send hthread => exact inv_sendEvent h hthread
  case check hmain => exact inv_checkClock h hmain
  case take hmain hqueue => exact inv_take h hmain hqueue
  case timeOut hmain hexpired => exact inv_left h (.inr hmain) (.inr ⟨hexpired, rfl⟩)
  case hangUp hmain hdis => exact inv_hangUp h hmain hdis
  case kill hmain => exact inv_kill h hmain
  case wait answer hmain _ => exact inv_wait h hmain answer

/-! ## Every schedule -/

/-- The invariant holds behind every schedule. -/
theorem schedule_inv {st : State} {as : List Action}
    (h : Scheduled.run (step codecType) (.start s) as = some st) :
    Inv codecType s (answers as) (taken as) st := by
  refine @Scheduled.run_invariant _ _ _ _ _ _
    (fun as st => Inv codecType s (answers as) (taken as) st) (inv_start codecType s) ?_ h
  intro as t a t' hinv hstep
  show Inv codecType s (answers (as ++ [a])) (taken (as ++ [a])) t'
  unfold answers taken
  rw [flatMap_snoc, flatMap_snoc]
  exact step_inv hinv hstep

theorem error_at {front evs : List Event} {e e' : String} {queue : List (Except String Event)}
    (h : front.map .ok ++ [.error e'] = evs.map .ok ++ .error e :: queue) :
    front = evs ∧ e' = e := by
  induction front generalizing evs with
  | nil =>
      cases evs with
      | nil =>
        simp only [List.map_nil, List.nil_append, List.cons.injEq, Except.error.injEq] at h
        exact ⟨rfl, h.1⟩
      | cons ev evs => simp at h
  | cons ev front ih =>
      cases evs with
      | nil => simp at h
      | cons ev' evs =>
        simp only [List.map_cons, List.cons_append, List.cons.injEq, Except.ok.injEq] at h
        obtain ⟨rfl, hrest⟩ := h
        obtain ⟨rfl, he⟩ := ih hrest
        exact ⟨rfl, he⟩

/-- The events that were taken are the first ones that were sent. -/
theorem prefix_of_sent {front evs : List Event} {tail queue : List (Except String Event)}
    (h : front.map .ok ++ tail = evs.map .ok ++ queue) (htail : ∀ ev, .ok ev ∉ tail) :
    evs <+: front := by
  induction front generalizing evs with
  | nil =>
      cases evs with
      | nil => exact List.prefix_rfl
      | cons ev evs =>
        have hmem : .ok ev ∈ tail := by
          rw [List.map_nil, List.nil_append] at h
          rw [h]
          simp
        exact absurd hmem (htail ev)
  | cons ev front ih =>
      cases evs with
      | nil => exact List.nil_prefix
      | cons ev' evs =>
        simp only [List.map_cons, List.cons_append, List.cons.injEq, Except.ok.injEq] at h
        obtain ⟨rfl, hrest⟩ := h
        exact (List.prefix_cons_inj ev).mpr (ih hrest)

/-- What the main loop hears is what `Child.heard` says, for the answers that the thread
has got and for some time limit. -/
theorem Stopped.heard {st : State} {childRes : Except String Unit}
    (h : Stopped codecType reads st.expired st.thread evs items childRes)
    (htold : Told codecType reads items st) (wait : Except String ExitStatus) :
    ∃ deadline, Child.heard codecType ⟨reads, deadline, wait⟩ = (evs, childRes) ∧
      (deadline ≠ none → st.expired = true) := by
  obtain ⟨sent, hsent, hcarries⟩ := htold
  obtain ⟨front, back, res, hread, hcase⟩ := hsent.part
  unfold Channel.Carries at hcarries
  cases h with
  | hungUp h _ =>
    refine ⟨none, ?_, fun hne => absurd rfl hne⟩
    exact h
  | timeOut hexpired =>
    have hfront : evs <+: front := by
      rcases hcase with hcase | ⟨e, hcase, -, -⟩
      · rw [hcase, ← List.append_nil (front.map _)] at hcarries
        exact prefix_of_sent hcarries (by simp)
      · rw [hcase] at hcarries
        exact prefix_of_sent hcarries (by simp)
    have hall : evs <+: front ++ back := hfront.trans (List.prefix_append front back)
    refine ⟨some evs.length, ?_, fun _ => hexpired⟩
    unfold Child.heard
    dsimp only
    rw [hread]
    dsimp only
    rw [if_pos hall.length_le, ← List.prefix_iff_eq_take.mp hall]
    rfl
  | failed e =>
    refine ⟨none, ?_, fun hne => absurd rfl hne⟩
    show readerThread codecType reads = _
    rw [List.append_assoc, List.singleton_append] at hcarries
    rcases hcase with hcase | ⟨e', hcase, rfl, rfl⟩
    · have hmem : (Except.error e : Except String Event) ∈ front.map Except.ok := by
        rw [← hcase, hcarries]
        simp
      simp at hmem
    · rw [hcase] at hcarries
      obtain ⟨rfl, rfl⟩ := error_at hcarries
      rw [hread, List.append_nil]

end Reader

end PolyOnTest.Cli
