import PolyOnTest.Builtins.CobsCodec
import PolyOnTest.Builtins.Reporter
import PolyOnTest.Builtins.TextCodec

/-!
# Configuration of the CLI

A target of `polyontest.toml`, the filters, and the plugins that its names stand
for.  The parsing of the file and of the command line is not here.
-/

namespace PolyOnTest.Cli

open PolyOnTest.Builtins

/-- `TargetConfig`, without the paths and the time limit. -/
structure TargetConfig where
  board : String
  transport : String
  codec : String
  mode : String
  reporters : List String
  tag : Option Str
  suite : Option Str
  group : Option Str
  isolate : Bool
  onCrash : String
  deriving DecidableEq

/-- The defaults of the fields. -/
def TargetConfig.default : TargetConfig where
  board := "host"
  transport := "stdio"
  codec := "cobs"
  mode := "stream"
  reporters := ["console", "junit"]
  tag := none
  suite := none
  group := none
  isolate := false
  onCrash := "continue"

/-- `HostFilter`. -/
structure HostFilter where
  tag : Option Str
  suite : Option Str
  group : Option Str
  deriving DecidableEq

/-- `merge_filter`. -/
def mergeFilter (t : TargetConfig) (tag suite group : Option Str) : HostFilter where
  tag := tag <|> t.tag
  suite := suite <|> t.suite
  group := group <|> t.group

/-- The test `is_some_and(|s| !s.is_empty())`. -/
def present (s : Option Str) : Bool := s.any fun s => !s.isEmpty

/-- `filter_active`. -/
def filterActive (f : HostFilter) : Bool :=
  present f.tag || present f.suite || present f.group

/-! ## Codecs by name -/

/-- `Box<dyn Codec>` with one of the built-in codecs. -/
inductive HostCodec
  | cobs (codec : CobsCodec)
  | text (codec : TextCodec)
  deriving DecidableEq, Repr

namespace HostCodec

/-- The codec of a name. -/
def ofName (name : String) : Except String HostCodec :=
  if name = "cobs" then .ok (.cobs .new)
  else if name = "text" then .ok (.text .new)
  else .error ("unknown codec '" ++ name ++ "'")

/-- `Codec::decode_feed`. -/
def decodeFeed : HostCodec → List UInt8 → HostCodec × Except PluginError (List Event)
  | .cobs codec, data =>
      let (codec, result) := codec.decodeFeed data
      (.cobs codec, result)
  | .text codec, data =>
      let (codec, result) := codec.decodeFeed data
      (.text codec, result)

end HostCodec

/-! ## Reporters by name -/

/-- The reporter of a name. -/
def reporterOf (name : String) : Except String Reporter :=
  if name = "console" then .ok (.new .console)
  else if name = "junit" then .ok (.new .junit)
  else if name = "json" then .ok (.new .json)
  else .error ("unknown reporter '" ++ name ++ "'")

/-- The reporters of a target. -/
def makeReporters (t : TargetConfig) : Except String (List Reporter) :=
  t.reporters.mapM reporterOf

theorem reporterOf_fresh {name : String} {r : Reporter} (h : reporterOf name = .ok r) :
    r.received = [] := by
  unfold reporterOf at h
  split_ifs at h <;> cases h <;> rfl

/-- New reporters have taken no event. -/
theorem makeReporters_fresh {t : TargetConfig} {rs : List Reporter}
    (h : makeReporters t = .ok rs) : ∀ r ∈ rs, r.received = [] := by
  unfold makeReporters at h
  generalize t.reporters = names at h
  induction names generalizing rs with
  | nil =>
      cases h
      exact fun _ hr => (List.not_mem_nil hr).elim
  | cons name names ih =>
      rw [List.mapM_cons] at h
      cases hname : reporterOf name with
      | error e => rw [hname] at h; cases h
      | ok r =>
        cases hnames : names.mapM reporterOf with
        | error e => rw [hname, hnames] at h; cases h
        | ok rs' =>
          rw [hname, hnames] at h
          cases h
          intro x hx
          rcases List.mem_cons.mp hx with rfl | hx
          · exact reporterOf_fresh hname
          · exact ih hnames x hx

/-! ## How a process ends -/

/-- `ExitStatus`: what `wait` reports for a process. -/
structure ExitStatus where
  raw : Nat
  deriving DecidableEq, Repr

namespace ExitStatus

/-- The status of a process that exits with a code. -/
def exited (code : UInt8) : ExitStatus := ⟨code.toNat * 256⟩

/-- `ExitStatus::success`. -/
def success (status : ExitStatus) : Bool := status.raw == 0

/-- `ExitStatus::code`, which a process that a signal ended has not. -/
def code (status : ExitStatus) : Option Nat :=
  if status.raw % 128 = 0 then some (status.raw / 256 % 256) else none

/-- The `Debug` text. -/
def debug (status : ExitStatus) : String :=
  "ExitStatus(unix_wait_status(" ++ toString status.raw ++ "))"

/-- The test of `run_isolated`: the code 0 or 1. -/
def isOk (status : ExitStatus) : Bool := status.success || status.code == some 1

end ExitStatus

/-- How a command of the CLI ends. -/
inductive Exit
  | returned
  | exited (code : Nat)
  | error (message : String)
  deriving DecidableEq, Repr

/-- The exit code of the CLI. -/
def Exit.code : Exit → Nat
  | .returned => 0
  | .exited code => code
  | .error _ => 1

end PolyOnTest.Cli
