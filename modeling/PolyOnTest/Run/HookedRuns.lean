import PolyOnTest.Harness.Hooks
import PolyOnTest.Run.Shape

/-!
# Runs with and without hooks

`Harness.Runner` and `Harness.Hooks` are the same code.  For a binary whose
functions make calls and nothing else, and none of them `pot_protect`, the hooked
run comes to its end, in the state and with the value of the plain run, and the
calls of the writer carry its output (`run_returns`; `runFromEnv_returns` for
`pot_run_from_env`).

There is one lemma for each function, in the order of `Hooks`.
-/

namespace PolyOnTest.Run

open CodeLib CodeLib.CMemory CodeLib.Trace PolyOnTest.Harness PolyOnTest.Harness.Hooks

/-- What a step writes. -/
def written : HookStep → List UInt8
  | .write data => data
  | _ => []

variable {ω α : Type} {k : Setup}

/-- The hooked code does what the plain code does. -/
abbrev Does (k : Setup) (m : Hooked ω α) (s s' : Sys ω) (a : α) : Prop :=
  Returns (fun s => s.g.protectActive = false) written (fun s => output k.mode s.trace) m s s' a

/-! ## Locks and output -/

theorem output_append (mode : Mode) (a b : List Step) :
    output mode (a ++ b) = output mode a ++ output mode b :=
  List.flatMap_append ..

theorem ptLock_does (s : Sys ω) : Does k (ptLock k) s s () := by
  unfold ptLock
  split_ifs
  · exact Returns.log rfl
  · exact Returns.pure ()

theorem ptUnlock_does (s : Sys ω) : Does k (ptUnlock k) s s () := by
  unfold ptUnlock
  split_ifs
  · exact Returns.log rfl
  · exact Returns.pure ()

theorem emitRaw_writes (data : List UInt8) (s : Sys ω) :
    ∃ t, emitRaw k data s = (.ok (), s, t) ∧ t.flatMap written = data := by
  obtain ⟨mode, protect, lock, unlock⟩ := k
  cases lock <;> cases unlock <;> exact ⟨_, rfl, List.append_nil data⟩

theorem forM_emitRaw_writes (datas : List (List UInt8)) (s : Sys ω) :
    ∃ t, datas.forM (emitRaw k) s = (.ok (), s, t) ∧ t.flatMap written = datas.flatten := by
  induction datas with
  | nil => exact ⟨[], rfl, rfl⟩
  | cons data datas ih =>
      obtain ⟨t, hrun, ht⟩ := emitRaw_writes (k := k) data s
      obtain ⟨t', hrun', ht'⟩ := ih
      refine ⟨t ++ t', ?_, ?_⟩
      · exact (bind_ok hrun).trans (by rw [hrun'])
      · rw [List.flatMap_append, ht, ht', List.flatten_cons]

theorem say_does (m : Msg) (s : Sys ω) : Does k (say k m) s (s.say m) () := by
  intro hs
  obtain ⟨t, hrun, ht⟩ := forM_emitRaw_writes (k := k) (emit k.mode m) (s.say m)
  refine ⟨t, ?_, hs, ?_⟩
  · rw [Hooks.say, bind_ok rfl, hrun]
    rfl
  · show output k.mode (s.trace ++ [.msg m]) = output k.mode s.trace ++ t.flatMap written
    rw [ht, output_append]
    simp [output]

/-! ## Calls of test code -/

theorem setFlag_does {f : Sys ω → Sys ω} {s s' : Sys ω} {a : α} {rest : Hooked ω α}
    (hI : s.g.protectActive = false → (f s).g.protectActive = false)
    (htrace : (f s).trace = s.trace) (hrest : Does k rest (f s) s' a) :
    Does k (do ptLock k; change f; ptUnlock k; rest) s s' a :=
  (ptLock_does s).bind <| (Returns.change hI (by rw [htrace])).bind <|
    (ptUnlock_does (f s)).bind hrest

theorem foldl_say (ms : List Msg) (s : Sys ω) :
    ms.foldl Sys.say s = { s with trace := s.trace ++ ms.map .msg } := by
  induction ms generalizing s with
  | nil => simp
  | cons m ms ih => simp [ih, Sys.say]

theorem potFailAt_does (file : Option CStr) (line : Int32) (message : Option CStr)
    (s : Sys ω) :
    Does k (potFailAt k file line message) s
      (Sys.say { s with g := { s.g with currentFailed := true } }
        (.assertFail s.g.cur file line (messageWithParam s.g message))) () :=
  Returns.read.bind (setFlag_does id rfl (say_does _ _))

theorem potIgnore_does (message : Option CStr) (s : Sys ω) :
    Does k (potIgnore k message) s
      (((Call.ignore message).msgs s.g).foldl Sys.say
        { s with g := { s.g with currentSkipped := true } }) () := by
  refine setFlag_does id rfl (Returns.read.bind ?_)
  cases message with
  | none => exact Returns.pure ()
  | some text =>
    unfold Call.msgs
    dsimp only
    split_ifs
    · exact say_does _ _
    · exact Returns.pure ()

/-- Without `pot_protect` in front of it, `pot_abort` returns. -/
theorem potAbort_does {s : Sys ω} (h : s.g.protectActive = false) :
    Does k (potAbort k) s { s with g := { s.g with currentFailed := true } } () := by
  refine setFlag_does id rfl (Returns.read.bind ?_)
  rw [if_neg (by simp [h])]
  exact Returns.pure ()

/-- A call that is not `pot_protect` finds it inactive and leaves it inactive. -/
theorem call_does {c : Call} (hc : c ≠ .protect) {next : Hooked ω Unit} {s s' : Sys ω}
    (hnext : Does k next (s.call c) s' ()) : Does k (call k c next) s s' () := by
  intro hs
  have hnote : Does k (change fun s => { s with trace := s.trace ++ [.call c] }) s
      { s with trace := s.trace ++ [.call c] } () :=
    Returns.change id (by simp [output])
  refine Returns.bind hnote ?_ hs
  cases c with
  | failAt file line message =>
    refine (potFailAt_does file line message _).bind ?_
    simpa [Sys.call, Sys.say, Call.effect, Call.msgs, messageWithParam] using hnext
  | ignore message =>
    refine (potIgnore_does message _).bind ?_
    rw [foldl_say]
    simpa [Sys.call, Call.effect] using hnext
  | abort =>
    refine (potAbort_does (s := { s with trace := s.trace ++ [.call .abort] }) hs).bind ?_
    simpa [Sys.call, Call.effect, Call.msgs, hs] using hnext
  | protect => exact absurd rfl hc
  | _ => exact (Returns.change id rfl).bind (by simpa [Sys.call, Call.msgs] using hnext)

variable {b : TestBinary ω} {go : Script → Hooked ω Unit}

theorem calls_does {cs : List Call} (hcs : ∀ c ∈ cs, c ≠ .protect) (s : Sys ω) :
    Does k (interp k b go (.calls cs .done)) s (cs.foldl Sys.call s) () := by
  induction cs generalizing s with
  | nil => exact Returns.pure ()
  | cons c cs ih =>
      exact call_does (hcs c List.mem_cons_self)
        (ih (fun c hc => hcs c (List.mem_cons_of_mem _ hc)) (s.call c))

/-! ## `run_filtered` -/

variable {p : Program ω}

section Runner

-- `go` makes the calls of a function.
variable (hgo : ∀ f w s, Does k (go (p.binary.code f w).1) s ((p.code f w).1.foldl Sys.call s) ())

include hgo

theorem enter_does (hook : Hook) (f : Option FnId) (s : Sys ω) :
    Does k (enter p.binary go hook f) s (s.enter p hook f) () := by
  cases f with
  | none => exact Returns.pure ()
  | some f =>
      have hnote : Does k (change fun s =>
          { s with
            world := (p.binary.code f s.world).2
            trace := s.trace ++ [.enter hook f] }) s _ () :=
        Returns.change id (by simp [output])
      exact (Returns.log rfl).bind <| Returns.read.bind <| hnote.bind <| hgo f s.world _

theorem closeSuite_does (o : Open) (s : Sys ω) :
    Does k (Hooks.closeSuite k p.binary go o) s (Harness.closeSuite p o s) () := by
  unfold Hooks.closeSuite Harness.closeSuite
  cases o.suite with
  | none => exact Returns.pure ()
  | some suite => exact Returns.read.bind <| (enter_does hgo _ _ s).bind (say_does _ _)

theorem openSuiteEmit_does (name : Option CStr) (s : Sys ω) :
    Does k (Hooks.openSuiteEmit k p.binary go name) s (Harness.openSuiteEmit p name s) () :=
  Returns.read.bind <| (enter_does hgo _ _ s).bind (say_does _ _)

theorem runBody_does (t : Case) (s : Sys ω) :
    Does k (Hooks.runBody p.binary go t) s (Harness.runBody p t s) () :=
  Returns.read.bind <| (enter_does hgo _ _ s).bind <|
    (enter_does hgo _ _ _).bind (enter_does hgo _ _ _)

theorem switchSuite_does (t : Case) (x : Sys ω × Open) :
    Does k (Hooks.switchSuite k p.binary go t x.2) x.1 (Harness.switchSuite p t x).1
      (Harness.switchSuite p t x).2 := by
  unfold Hooks.switchSuite Harness.switchSuite
  split_ifs
  · exact (closeSuite_does hgo x.2 x.1).bind <|
      (openSuiteEmit_does hgo t.suite _).bind (Returns.pure _)
  · exact Returns.pure x.2

theorem runCase_does (t : Case) (x : Sys ω × Open) :
    Does k (Hooks.runCase k p.binary go t x.2) x.1 (Harness.runCase p t x).1
      (Harness.runCase p t x).2 := by
  have hbegin : Does k (change fun s => s.begin t) x.1 (x.1.begin t) () :=
    Returns.change id (by simp [Sys.begin, output])
  have hcount : ∀ (s : Sys ω),
      Does k (change fun s => s.count s.status) s (s.count s.status) () := by
    intro s
    refine Returns.change ?_ ?_ <;> cases s.status <;> intros <;> first | assumption | rfl
  exact hbegin.bind <| (say_does _ _).bind <| (runBody_does hgo t _).bind <| Returns.read.bind <|
    (hcount _).bind <| (say_does _ _).bind (Returns.pure _)

theorem loopBody_does (sel : Env → Case → Bool) (x : Sys ω × Open) (t : Case) :
    Does k (Hooks.loopBody k p.binary go sel x.2 t) x.1 (Harness.loopBody p sel x t).1
      (Harness.loopBody p sel x t).2 := by
  unfold Hooks.loopBody Harness.loopBody
  refine Returns.read.bind ?_
  split_ifs
  · exact (switchSuite_does hgo t x).bind (runCase_does hgo t _)
  · exact Returns.pure x.2

theorem runFiltered_does (sel : Env → Case → Bool) (s : Sys ω) :
    Does k (Hooks.runFiltered k p.binary go sel) s (Harness.runFiltered p sel s).1
      (Harness.runFiltered p sel s).2 := by
  have hprepare : Does k (change fun s => prepare p.binary.sections s) s (prepare p s) () :=
    Returns.change id rfl
  exact hprepare.bind <| (say_does _ _).bind <| Returns.read.bind <|
    (Returns.foldlM (loopBody_does hgo sel) _ (_, _)).bind <| (closeSuite_does hgo _ _).bind <|
      Returns.read.bind <| (say_does _ _).bind (Returns.pure _)

theorem run_does (e : Entry) (s : Sys ω) :
    Does k (Hooks.run k p.binary go e) s (e.run p s).1 (e.run p s).2 := by
  have hfilters : Does k (change fun s => e.filters s) s (e.filters s) () := by
    obtain ⟨group, name, hset⟩ := filters_eq_setFilter s e
    exact Returns.change (fun hs => by rw [hset]; exact hs) (by rw [hset]; rfl)
  rw [Entry.run_matcher]
  exact hfilters.bind (runFiltered_does hgo e.matcher.sel _)

end Runner

/-! ## The public functions that start a run -/

/-- One unit of fuel is enough for functions that start no run. -/
theorem exec_does (hp : CallsOnly p (· ≠ .protect)) (n : Nat) (f : FnId) (w : ω) (s : Sys ω) :
    Does k (exec k p.binary (n + 1) (p.binary.code f w).1) s
      ((p.code f w).1.foldl Sys.call s) () :=
  calls_does (hp f w) s

/-- The hooked run comes to its end as the plain run does, and it writes the output. -/
theorem run_returns (hp : CallsOnly p (· ≠ .protect)) (n : Nat) (e : Entry) {s : Sys ω}
    (hs : s.g.protectActive = false) :
    ∃ t, Hooks.run k p.binary (exec k p.binary (n + 1)) e s =
        (.ok (e.run p s).2, (e.run p s).1, t) ∧
      output k.mode (e.run p s).1.trace = output k.mode s.trace ++ t.flatMap written := by
  obtain ⟨t, hrun, -, hout⟩ := run_does (exec_does hp n) e s hs
  exact ⟨t, hrun, hout⟩

theorem cascade_eq (v : Vars) (s : Sys ω) : cascade p v s = (cascadeEntry v).run p s := by
  unfold cascade cascadeEntry
  split_ifs <;> rfl

theorem runFromEnv_returns (hp : CallsOnly p (· ≠ .protect)) (n : Nat) (v : Vars) {s : Sys ω}
    (hs : s.g.protectActive = false) :
    match potRunFromEnv p v s with
    | .listed writes =>
        ∃ t, Hooks.runFromEnv k p.binary (exec k p.binary (n + 1)) v s =
            (.error .exit, s, t) ∧ t.flatMap written = writes.flatten
    | .ran (s', status) =>
        ∃ t, Hooks.runFromEnv k p.binary (exec k p.binary (n + 1)) v s = (.ok status, s', t) ∧
          output k.mode s'.trace = output k.mode s.trace ++ t.flatMap written := by
  unfold potRunFromEnv Hooks.runFromEnv
  split_ifs
  · obtain ⟨t, hrun, ht⟩ := forM_emitRaw_writes (k := k)
      ((discovered p v s).flatMap fun t => emitLine (discoverLine t)) s
    refine ⟨t ++ [], ?_, by rw [List.append_nil, ht]⟩
    exact bind_ok hrun
  · rw [cascade_eq]
    exact run_returns hp n (cascadeEntry v) hs

end PolyOnTest.Run
