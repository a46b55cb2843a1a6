import PolyOnTest.CodeLib.Utf8

/-!
# The PTWP event model

The events of `polyontest-protocol`, which the codecs serialize and the
reporters consume, and the error type of the plugin traits.  A Rust `String` is
a list of Unicode scalar values, and `CodeLib.Utf8.encode` gives its bytes.
-/

namespace PolyOnTest

/-- A Rust `String`. -/
abbrev Str := List Char

inductive TestStatus
  | passed
  | failed
  | skipped
  deriving DecidableEq, Repr

inductive Event
  | suiteStart (name : Str)
  | caseStart (suite name : Str)
  | assertFail (suite name file : Str) (line : UInt32) (message : Str)
  | caseEnd (suite name : Str) (status : TestStatus)
  | suiteEnd (name : Str) (passed failed skipped : UInt32)
  | log (message : Str)
  | done (passed failed skipped : UInt32)
  deriving DecidableEq, Repr

/-- Every string field of an event. -/
def Event.strings : Event → List Str
  | .suiteStart name => [name]
  | .caseStart suite name => [suite, name]
  | .assertFail suite name file _ message => [suite, name, file, message]
  | .caseEnd suite name _ => [suite, name]
  | .suiteEnd name _ _ _ => [name]
  | .log message => [message]
  | .done .. => []

/-- `AssertFail.file`, which no other event has. -/
def Event.file : Event → Str
  | .assertFail _ _ file _ _ => file
  | _ => []

/-- `Event::is_terminal`. -/
def Event.isTerminal : Event → Bool
  | .done .. => true
  | _ => false

/-- `PTWP_VERSION`. -/
def ptwpVersion : UInt8 := 1

/-- `PTWP_MAGIC`, the two bytes `PT`. -/
def ptwpMagic : List UInt8 := [0x50, 0x54]

/-- The message type tags of a binary frame. -/
inductive MsgType
  | suiteStart
  | caseStart
  | assertFail
  | caseEnd
  | suiteEnd
  | log
  | done
  deriving DecidableEq, Repr

/-- `MsgType as u8`. -/
def MsgType.toU8 : MsgType → UInt8
  | .suiteStart => 1
  | .caseStart => 2
  | .assertFail => 3
  | .caseEnd => 4
  | .suiteEnd => 5
  | .log => 6
  | .done => 7

/-- `MsgType::from_u8`. -/
def MsgType.fromU8 (v : UInt8) : Option MsgType :=
  if v = 1 then some .suiteStart
  else if v = 2 then some .caseStart
  else if v = 3 then some .assertFail
  else if v = 4 then some .caseEnd
  else if v = 5 then some .suiteEnd
  else if v = 6 then some .log
  else if v = 7 then some .done
  else none

@[simp] theorem MsgType.fromU8_toU8 (m : MsgType) : fromU8 m.toU8 = some m := by
  cases m <;> rfl

/-- `PluginError`.  An I/O error carries the text that the system gives it. -/
inductive PluginError
  | io (message : String)
  | codec (message : String)
  | board (message : String)
  | unsupported (message : String)
  | other (message : String)
  deriving DecidableEq, Repr

/-- The `Display` text of an error. -/
def PluginError.text : PluginError → String
  | .io m => "io error: " ++ m
  | .codec m => "codec error: " ++ m
  | .board m => "board error: " ++ m
  | .unsupported m => "unsupported: " ++ m
  | .other m => m

/-- `Codec::decode_feed` called on one chunk after the other, with the events
collected in `out`.  The first error ends it. -/
def decodeChunks {σ : Type}
    (decodeFeed : σ → List UInt8 → σ × Except PluginError (List Event)) :
    σ → List (List UInt8) → List Event → σ × Except PluginError (List Event)
  | codec, [], out => (codec, .ok out)
  | codec, chunk :: chunks, out =>
      match decodeFeed codec chunk with
      | (codec', .ok events) =>
          decodeChunks decodeFeed codec' chunks (out ++ events)
      | (codec', .error e) => (codec', .error e)

end PolyOnTest
