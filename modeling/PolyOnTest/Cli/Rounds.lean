import PolyOnTest.Cli.Schedules

/-!
# Isolated runs under any schedule

`run_isolated` with its threads: each round goes under a schedule of its own, and no party
of a round takes part in another one.

`scheduled_refines` says that a run under schedules is a run of `runIsolated`, so what is
proved there of all machines holds under every interleaving.  `scheduled_deterministic`
says that the schedules do not matter at all in rounds that nothing disturbs: the reports
and the exit code depend on the bytes of the children and on their statuses.
-/

namespace PolyOnTest.Cli

open CodeLib PolyOnTest.Builtins

namespace Reader

/-! ## The run -/

/-- The statements of a round behind `wait`. -/
def settle (c : TestCase) (x : Session × Progress) (childRes : Except String Unit) :
    Except String ExitStatus → Except (Session × String) (Session × Bool)
  | .error e => .error (x.1, e)
  | .ok status =>
      if crashed x.2 childRes status then
        .ok (settleCrash c (errMsg childRes status) x, true)
      else .ok (x.1, false)

/-- One round under a schedule, if the schedule leads it to its end. -/
def runRound (codecType : String) (c : TestCase) (as : List Action) (s : Session) :
    Option (Except (Session × String) (Session × Bool)) :=
  match Scheduled.run (step codecType) (.start s) as with
  | some { main := .done x childRes answer, .. } => some (settle c x childRes answer)
  | _ => none

/-- The environment of a run with threads: the processes, and the order of all steps of
the round with each number. -/
structure Scenario where
  build : Except String Unit
  discover : HostFilter → Except String Output
  spawn : Nat → TestCase → Except String (List Action)

/-- The loop of `run_isolated` with its threads, from the case with the number `k` on. -/
def runRounds (sc : Scenario) (codecType onCrash : String) :
    Nat → List TestCase → Session → Option (Except (Session × String) Session)
  | _, [], s => some (.ok s)
  | k, c :: cs, s =>
      match sc.spawn k c with
      | .error _ => some (.error (s, "failed to spawn case " ++ String.ofList c.name))
      | .ok as =>
          match runRound codecType c as s with
          | none => none
          | some (.error stopped) => some (.error stopped)
          | some (.ok (s, crashed)) =>
              if crashed ∧ onCrash = "abort" then some (.ok s)
              else runRounds sc codecType onCrash (k + 1) cs s

/-- The statements of `run_isolated` behind its loop, or the way out of the loop. -/
def afterLoop (disk : Disk) : Except (Session × String) Session → List Reporter × Exit
  | .error (s, e) => (s.reporters, .error e)
  | .ok s => finishRun disk s

/-- `run_isolated` with its threads. -/
def runScheduled (disk : Disk) (sc : Scenario) (t : TargetConfig) (filter : HostFilter)
    (onCrash : String) : Option (List Reporter × Exit) :=
  match discoverCases ⟨sc.build, sc.discover, fun _ _ => .error ""⟩ filter with
  | .error e => some ([], .error e)
  | .ok [] => some ([], .error "no test cases discovered for isolated run")
  | .ok cases =>
      match makeReporters t with
      | .error e => some ([], .error e)
      | .ok rs => (runRounds sc t.codec onCrash 0 cases (.start rs)).map (afterLoop disk)

variable {codecType onCrash : String} {c : TestCase} {as : List Action} {s : Session}
  {sc sc' : Scenario}

/-! ## Runs under schedules are runs -/

theorem runRound_eq {out : Except (Session × String) (Session × Bool)}
    (h : runRound codecType c as s = some out) :
    ∃ st x childRes answer, Scheduled.run (step codecType) (.start s) as = some st ∧
      st.main = .done x childRes answer ∧ out = settle c x childRes answer := by
  unfold runRound at h
  split at h
  · rename_i hrun
    cases h
    exact ⟨_, _, _, _, hrun, rfl, rfl⟩
  · cases h

/-- What a child does under a schedule: it gives the thread the reads of the schedule, it
has a time limit only where the clock makes its step, and `wait` has the answer that it
has in the schedule. -/
structure Plays (as : List Action) (child : Child) : Prop where
  reads : child.reads = answers as
  deadline : child.deadline ≠ none → .expire ∈ as
  wait : ∀ answer, (reaped as).head? = some answer → child.wait = answer

/-- A round under a schedule is the round of a child that plays it. -/
theorem runRound_refines {out : Except (Session × String) (Session × Bool)}
    (h : runRound codecType c as s = some out) :
    ∃ child, Plays as child ∧ runChild codecType c child s = out := by
  obtain ⟨st, x, childRes, answer, hrun, hdone, rfl⟩ := runRound_eq h
  have hflow := schedule_flow hrun
  have hreaped : reaped as = [answer] := by
    rw [hflow.reaped, hdone]
    rfl
  have hhears := hflow.inv.hears
  rw [hdone] at hhears
  obtain ⟨evs, hstopped, rfl⟩ := hhears
  obtain ⟨deadline, hheard, hexpired⟩ := hstopped.heard hflow.inv.told answer
  refine ⟨⟨answers as, deadline, answer⟩,
    ⟨rfl, fun hne => hflow.expired (hexpired hne), ?_⟩, ?_⟩
  · intro answer' hhead
    rw [hreaped] at hhead
    exact Option.some.inj hhead
  · unfold runChild
    rw [hheard]
    cases answer <;> rfl

/-- The machine has the processes of the scenario, and each child plays its schedule. -/
structure Serves (sc : Scenario) (m : Machine) : Prop where
  build : m.build = sc.build
  discover : m.discover = sc.discover
  spawn : ∀ k c, match sc.spawn k c with
    | .error e => m.spawn k c = .error e
    | .ok as => ∃ child, m.spawn k c = .ok child ∧ Plays as child

/-- The child of a schedule when its round does not matter. -/
def playing (as : List Action) : Child :=
  ⟨answers as, none, (reaped as).head?.getD (.error "")⟩

theorem plays_playing (as : List Action) : Plays as (playing as) where
  reads := rfl
  deadline hne := absurd rfl hne
  wait answer hhead := by
    rw [playing, hhead]
    rfl

/-- A machine of the scenario. -/
def Scenario.machine (sc : Scenario) : Machine where
  build := sc.build
  discover := sc.discover
  spawn k c := (sc.spawn k c).map playing

theorem Scenario.serves_machine (sc : Scenario) : Serves sc sc.machine where
  build := rfl
  discover := rfl
  spawn k c := by
    unfold Scenario.machine
    dsimp only
    cases sc.spawn k c with
    | error e => rfl
    | ok as => exact ⟨playing as, rfl, plays_playing as⟩

/-- The machine with another child for the case with the number `k`. -/
def withChild (m : Machine) (k : Nat) (c : TestCase) (child : Child) : Machine :=
  { m with spawn := fun k' c' => if k' = k ∧ c' = c then .ok child else m.spawn k' c' }

/-- The loop only starts the children from its number on. -/
theorem runCases_withChild (m : Machine) (codec onCrash : String) {k k' : Nat}
    (hk : k < k') (c : TestCase) (child : Child) (cs : List TestCase) (s : Session) :
    runCases (withChild m k c child) codec onCrash k' cs s =
      runCases m codec onCrash k' cs s := by
  induction cs generalizing k' s with
  | nil => rfl
  | cons c' cs ih =>
      have hspawn : (withChild m k c child).spawn k' c' = m.spawn k' c' := by
        have hne : ¬ (k' = k ∧ c' = c) := by omega
        exact if_neg hne
      rw [runCases, runCases, hspawn]
      cases m.spawn k' c' with
      | error e => rfl
      | ok child' =>
        dsimp only
        rcases runChild codec c' child' s with stopped | ⟨s', crashed⟩
        · rfl
        · dsimp only
          rw [ih (by omega)]

theorem withChild_spawn (m : Machine) (k : Nat) (c : TestCase) (child : Child) :
    (withChild m k c child).spawn k c = .ok child := if_pos ⟨rfl, rfl⟩

/-- Another child may play the schedule of its round. -/
theorem Serves.withChild {m : Machine} (h : Serves sc m) {k : Nat}
    (hspawn : sc.spawn k c = .ok as) {child : Child} (hplays : Plays as child) :
    Serves sc (withChild m k c child) where
  build := h.build
  discover := h.discover
  spawn k' c' := by
    unfold Reader.withChild
    dsimp only
    split_ifs with hsame
    · obtain ⟨rfl, rfl⟩ := hsame
      rw [hspawn]
      exact ⟨child, rfl, hplays⟩
    · exact h.spawn k' c'

/-- The loop under schedules is the loop of a machine. -/
theorem runRounds_refines {k : Nat} {cs : List TestCase} {out : Except (Session × String) Session}
    (h : runRounds sc codecType onCrash k cs s = some out) :
    ∃ m, Serves sc m ∧ runCases m codecType onCrash k cs s = out := by
  induction cs generalizing k s with
  | nil =>
      cases h
      exact ⟨sc.machine, sc.serves_machine, rfl⟩
  | cons c cs ih =>
      rw [runRounds] at h
      cases hspawn : sc.spawn k c with
      | error e =>
        rw [hspawn] at h
        cases h
        refine ⟨sc.machine, sc.serves_machine, ?_⟩
        have hfirst : sc.machine.spawn k c = .error e := by
          unfold Scenario.machine
          dsimp only
          rw [hspawn]
          rfl
        rw [runCases, hfirst]
      | ok as =>
        rw [hspawn] at h
        dsimp only at h
        cases hrun : runRound codecType c as s with
        | none =>
          rw [hrun] at h
          cases h
        | some result =>
          obtain ⟨child, hplays, hchild⟩ := runRound_refines hrun
          rw [hrun] at h
          rcases result with stopped | ⟨s', crashed⟩
          · cases h
            refine ⟨_, sc.serves_machine.withChild hspawn hplays, ?_⟩
            rw [runCases, withChild_spawn]
            dsimp only
            rw [hchild]
          · dsimp only at h
            by_cases hstop : crashed ∧ onCrash = "abort"
            · rw [if_pos hstop] at h
              cases h
              refine ⟨_, sc.serves_machine.withChild hspawn hplays, ?_⟩
              rw [runCases, withChild_spawn]
              dsimp only
              rw [hchild]
              exact if_pos hstop
            · rw [if_neg hstop] at h
              -- the machine of the rest, with the child of this round
              obtain ⟨m, hm, hrest⟩ := ih h
              refine ⟨_, hm.withChild hspawn hplays, ?_⟩
              rw [runCases, withChild_spawn]
              dsimp only
              rw [hchild]
              dsimp only
              rw [if_neg hstop, runCases_withChild m codecType onCrash (Nat.lt_succ_self k),
                hrest]

/-- A run under schedules is a run of `runIsolated`, on a machine whose children play the
schedules. -/
theorem scheduled_refines {disk : Disk} {t : TargetConfig} {filter : HostFilter}
    {out : List Reporter × Exit} (h : runScheduled disk sc t filter onCrash = some out) :
    ∃ m, Serves sc m ∧ runIsolated disk m t filter onCrash = out := by
  have hcases : ∀ m, Serves sc m → discoverCases m filter =
      discoverCases ⟨sc.build, sc.discover, fun _ _ => .error ""⟩ filter := by
    intro m hm
    unfold discoverCases
    rw [hm.build, hm.discover]
  unfold runScheduled at h
  rcases hdiscover : discoverCases ⟨sc.build, sc.discover, fun _ _ => .error ""⟩ filter
    with e | _ | ⟨c, cs⟩
  · rw [hdiscover] at h
    cases h
    refine ⟨sc.machine, sc.serves_machine, ?_⟩
    rw [runIsolated, hcases _ sc.serves_machine, hdiscover]
  · rw [hdiscover] at h
    cases h
    refine ⟨sc.machine, sc.serves_machine, ?_⟩
    rw [runIsolated, hcases _ sc.serves_machine, hdiscover]
  · rw [hdiscover] at h
    dsimp only at h
    cases hrs : makeReporters t with
    | error e =>
      rw [hrs] at h
      cases h
      refine ⟨sc.machine, sc.serves_machine, ?_⟩
      rw [runIsolated, hcases _ sc.serves_machine, hdiscover]
      dsimp only
      rw [hrs]
    | ok rs =>
      rw [hrs] at h
      dsimp only at h
      obtain ⟨result, hrun, rfl⟩ := Option.map_eq_some_iff.mp h
      obtain ⟨m, hm, hloop⟩ := runRounds_refines hrun
      refine ⟨m, hm, ?_⟩
      rw [runIsolated, hcases m hm, hdiscover]
      dsimp only
      rw [hrs]
      dsimp only
      rw [hloop]
      rcases result with ⟨s, e⟩ | s <;> rfl

/-! ## The schedules do not matter -/

/-- The start fails in both runs, or the child writes the same bytes and ends with the same
status, and nothing disturbs the two rounds. -/
inductive SameChild (codecType : String) :
    Except String (List Action) → Except String (List Action) → Prop
  | refused {e e' : String} : SameChild codecType (.error e) (.error e')
  | started {as as' : List Action} (h : Undisturbed codecType as)
      (h' : Undisturbed codecType as') (hwritten : written as = written as')
      (hreaped : reaped as = reaped as') : SameChild codecType (.ok as) (.ok as')

/-- The same binary in two runs. -/
structure SameBinary (codecType : String) (sc sc' : Scenario) : Prop where
  build : sc.build = sc'.build
  discover : sc.discover = sc'.discover
  spawn : ∀ k c, SameChild codecType (sc.spawn k c) (sc'.spawn k c)

/-- What a round that nothing disturbs ends with. -/
theorem runRound_undisturbed {out : Except (Session × String) (Session × Bool)}
    (hundisturbed : Undisturbed codecType as) (h : runRound codecType c as s = some out) :
    ∃ answer, reaped as = [answer] ∧
      out = settle c (heardState s (streamEvents codecType (written as))) (.ok ()) answer := by
  obtain ⟨st, x, childRes, answer, hrun, hdone, rfl⟩ := runRound_eq h
  have hflow := schedule_flow hrun
  obtain ⟨rfl, rfl⟩ := hundisturbed.hears_all hflow hdone
  refine ⟨answer, ?_, rfl⟩
  rw [hflow.reaped, hdone]
  rfl

theorem runRound_same {as' : List Action} {out out' : Except (Session × String) (Session × Bool)}
    (h : Undisturbed codecType as) (h' : Undisturbed codecType as')
    (hwritten : written as = written as') (hreaped : reaped as = reaped as')
    (hrun : runRound codecType c as s = some out)
    (hrun' : runRound codecType c as' s = some out') : out = out' := by
  obtain ⟨answer, hanswer, rfl⟩ := runRound_undisturbed h hrun
  obtain ⟨answer', hanswer', rfl⟩ := runRound_undisturbed h' hrun'
  rw [hanswer, hanswer'] at hreaped
  cases hreaped
  rw [hwritten]

theorem runRounds_same (hsame : SameBinary codecType sc sc') {k : Nat} {cs : List TestCase}
    {out out' : Except (Session × String) Session}
    (h : runRounds sc codecType onCrash k cs s = some out)
    (h' : runRounds sc' codecType onCrash k cs s = some out') : out = out' := by
  induction cs generalizing k s with
  | nil =>
      cases h
      cases h'
      rfl
  | cons c cs ih =>
      rw [runRounds] at h h'
      have hchild := hsame.spawn k c
      generalize sc.spawn k c = start at h hchild
      generalize sc'.spawn k c = start' at h' hchild
      cases hchild with
      | refused =>
        cases h
        cases h'
        rfl
      | @started as as' hund hund' hwritten hreaped =>
        dsimp only at h h'
        cases hrun : runRound codecType c as s with
        | none =>
          rw [hrun] at h
          cases h
        | some result =>
          cases hrun' : runRound codecType c as' s with
          | none =>
            rw [hrun'] at h'
            cases h'
          | some result' =>
            have hresult := runRound_same hund hund' hwritten hreaped hrun hrun'
            subst hresult
            rw [hrun] at h
            rw [hrun'] at h'
            rcases result with stopped | ⟨s', crashed⟩
            · cases h
              cases h'
              rfl
            · dsimp only at h h'
              by_cases hstop : crashed ∧ onCrash = "abort"
              · rw [if_pos hstop] at h h'
                cases h
                cases h'
                rfl
              · rw [if_neg hstop] at h h'
                exact ih h h'

/-- Two runs of the same binary whose rounds nothing disturbs give the same reports and
the same exit code, in whatever order the parties make their steps. -/
theorem scheduled_deterministic {disk : Disk} {t : TargetConfig} {filter : HostFilter}
    {out out' : List Reporter × Exit} (hsame : SameBinary t.codec sc sc')
    (h : runScheduled disk sc t filter onCrash = some out)
    (h' : runScheduled disk sc' t filter onCrash = some out') : out = out' := by
  unfold runScheduled at h h'
  rw [← hsame.build, ← hsame.discover] at h'
  generalize discoverCases _ filter = found at h h'
  rcases found with e | _ | ⟨c, cs⟩
  · cases h
    cases h'
    rfl
  · cases h
    cases h'
    rfl
  · dsimp only at h h'
    cases hrs : makeReporters t with
    | error e =>
      rw [hrs] at h h'
      cases h
      cases h'
      rfl
    | ok rs =>
      rw [hrs] at h h'
      obtain ⟨result, hrun, rfl⟩ := Option.map_eq_some_iff.mp h
      obtain ⟨result', hrun', rfl⟩ := Option.map_eq_some_iff.mp h'
      rw [runRounds_same hsame hrun hrun']

/-! ## A child that passes -/

/-- The two parts of an output. -/
def firstPart : List UInt8 := Utf8.encode "SUITE_START Math\nCASE_START Ma".toList

def secondPart : List UInt8 := Utf8.encode "th.ops.add\nPASS Math.ops.add\n".toList

/-- The events of the output. -/
def passStart : Event := .suiteStart "Math".toList

def passBegin : Event := .caseStart "Math".toList "ops.add".toList

def passEnd : Event := .caseEnd "Math".toList "ops.add".toList .passed

/-- The child comes to its end before the main loop takes the first event. -/
def childFirst : List Action :=
  [.write (firstPart ++ secondPart), .close, .exit (.exited 0), .begin,
    .read (firstPart ++ secondPart), .send, .send, .send, .read [], .check, .take (.ok passStart),
    .check, .take (.ok passBegin), .check, .take (.ok passEnd), .check, .hangUp, .kill,
    .wait (.ok (.exited 0))]

/-- The parties make their steps in turns. -/
def inTurns : List Action :=
  [.begin, .check, .write firstPart, .read firstPart, .send, .take (.ok passStart), .check,
    .write secondPart, .read secondPart, .send, .take (.ok passBegin), .send, .check,
    .take (.ok passEnd), .close, .check, .read [], .hangUp, .kill, .exit (.exited 0),
    .wait (.ok (.exited 0))]

/-- A binary with one case, whose process goes under a schedule. -/
def passScenario (as : List Action) : Scenario where
  build := .ok ()
  discover := fun _ => .ok ⟨Utf8.encode "list-case:Math.ops.add\n".toList, .exited 0⟩
  spawn := fun _ _ => .ok as

/-- A target with the text codec and the console. -/
def passTarget : TargetConfig :=
  { TargetConfig.default with codec := "text", reporters := ["console"] }

/-- The report of the console, and the end of the run. -/
def passReport : List Reporter × Exit :=
  ([⟨.console, [passStart, passBegin, passEnd, .done 1 0 0], 1⟩], .returned)

theorem childFirst_run :
    runScheduled (fun _ _ => .ok ()) (passScenario childFirst) passTarget ⟨none, none, none⟩
      "continue" = some passReport := by
  decide +kernel

theorem inTurns_run :
    runScheduled (fun _ _ => .ok ()) (passScenario inTurns) passTarget ⟨none, none, none⟩
      "continue" = some passReport := by
  decide +kernel

/-- The turns as a run of a machine. -/
theorem scheduled_refines_turns :
    ∃ m, Serves (passScenario inTurns) m ∧
      runIsolated (fun _ _ => .ok ()) m passTarget ⟨none, none, none⟩ "continue" = passReport :=
  scheduled_refines inTurns_run

theorem undisturbed_childFirst : Undisturbed "text" childFirst where
  noFail text h := by simp [childFirst] at h
  inTime := by decide +kernel
  decodes := by
    refine ⟨.text .new, _, _, rfl, ?_, rfl⟩
    have hreads : answers childFirst = [.data (firstPart ++ secondPart), .data []] := rfl
    rw [hreads]
    intro data hdata
    simp only [List.mem_cons, Read.data.injEq, List.not_mem_nil, or_false] at hdata
    rcases hdata with rfl | rfl
    · exact ⟨_, (Utf8.encode_append _ _).symm⟩
    · exact ⟨[], rfl⟩

theorem undisturbed_inTurns : Undisturbed "text" inTurns where
  noFail text h := by simp [inTurns] at h
  inTime := by decide +kernel
  decodes := by
    refine ⟨.text .new, _, _, rfl, ?_, rfl⟩
    have hreads : answers inTurns = [.data firstPart, .data secondPart, .data []] := rfl
    rw [hreads]
    intro data hdata
    simp only [List.mem_cons, Read.data.injEq, List.not_mem_nil, or_false] at hdata
    rcases hdata with rfl | rfl | rfl
    · exact ⟨_, rfl⟩
    · exact ⟨_, rfl⟩
    · exact ⟨[], rfl⟩

/-- The turns end as the other order ends. -/
theorem scheduled_deterministic_turns :
    ∃ out,
      runScheduled (fun _ _ => .ok ()) (passScenario inTurns) passTarget ⟨none, none, none⟩
        "continue" = some out ∧
      runScheduled (fun _ _ => .ok ()) (passScenario childFirst) passTarget ⟨none, none, none⟩
        "continue" = some out := by
  obtain ⟨out, hout⟩ := Option.isSome_iff_exists.mp (show (runScheduled (fun _ _ => .ok ())
    (passScenario inTurns) passTarget ⟨none, none, none⟩ "continue").isSome by decide +kernel)
  have hsame : SameBinary passTarget.codec (passScenario inTurns) (passScenario childFirst) :=
    ⟨rfl, rfl, fun _ _ => .started undisturbed_inTurns undisturbed_childFirst rfl rfl⟩
  rw [scheduled_deterministic hsame hout childFirst_run] at hout
  exact ⟨passReport, hout, childFirst_run⟩

end Reader

end PolyOnTest.Cli
