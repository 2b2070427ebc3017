import Xylitol.Memory
import Xylitol.Utf
import Xylitol.Shim.Abi

/-!
# What bionic does and glibc does not

The functions an app calls in the process it is loaded into: reading a system property and writing a
line to the log. They work on pointers. What they do outside of what their callers promise is
undefined, which is `none` here:

    name, tag, message    null, or a C string
    value                 null, or `PROP_VALUE_MAX` bytes

A pointer is null or stands for the bytes of its object from there on.
-/

namespace Xylitol.Shim.Runtime

open Memory

/-! ## Log lines -/

/-- Android log priorities. -/
inductive Priority where
  | unknown
  | default
  | verbose
  | debug
  | info
  | warn
  | error
  | fatal
  | silent
  deriving DecidableEq, Repr

namespace Priority

def fromRaw (value : Int) : Priority :=
  match value with
  | 2 => verbose
  | 3 => debug
  | 4 => info
  | 5 => warn
  | 6 => error
  | 7 => fatal
  | 8 => silent
  | 1 => default
  | _ => unknown

def label : Priority → String
  | verbose => "V"
  | debug => "D"
  | info => "I"
  | warn => "W"
  | error => "E"
  | fatal => "F"
  | silent => "S"
  | _ => "?"

end Priority

/-- The level an app's line is logged at. -/
inductive Level where
  | error
  | warn
  | info
  deriving DecidableEq, Repr

structure Line where
  level : Level
  text : String
  deriving DecidableEq, Repr

/-- The process an app is loaded into: the memory both see, what is in the log, and what the shim has
open at the moment. -/
structure Process where
  mem : Bytes
  loggingEnabled : Bool
  log : List Line
  /-- Argument lists that are not ended. -/
  lists : Nat
  /-- Heap blocks that are not freed. -/
  blocks : Nat
  aborted : Bool
  deriving DecidableEq, Repr

/-- What a pointer of the app points to. -/
def Process.target (p : Process) (pointer : Option Nat) : Option Bytes := pointer.map p.mem.drop

def cstrOr (pointer : Option Bytes) (fallback : String) : Option String :=
  match pointer with
  | none => some fallback
  | some bytes => (cstr bytes).map fromUtf8Lossy

/-- The line of a message, if it is one to be logged. -/
def line (priority : Priority) (tag message : String) : Option Line :=
  match priority with
  | .error | .fatal => some ⟨.error, "[" ++ priority.label ++ "] " ++ tag ++ ": " ++ message⟩
  | .warn => some ⟨.warn, "[W] " ++ tag ++ ": " ++ message⟩
  | .silent => none
  | _ => some ⟨.info, "[" ++ priority.label ++ "] " ++ tag ++ ": " ++ message⟩

/-- `xylitol_log_line`. -/
def xylitolLogLine (p : Process) (priority : Int) (tag message : Option Bytes) : Option Process :=
  if p.loggingEnabled then do
    let tag ← cstrOr tag "<no tag>"
    let message ← cstrOr message ""
    return { p with log := p.log ++ (line (.fromRaw priority) tag message).toList }
  else some p

/-! ## System properties -/

/-- The system properties an app can read. -/
def property (host : Option Abi) (name : String) : Option String :=
  match name with
  | "ro.build.version.sdk" => some "34"
  | "ro.build.version.release" => some "14"
  | "ro.build.version.security_patch" => some "2024-01-01"
  | "ro.product.cpu.abi" => host.map Abi.asStr
  | "ro.product.manufacturer" => some "Xylitol"
  | "ro.product.model" => some "Xylitol"
  | "ro.product.brand" => some "Xylitol"
  | "ro.product.device" => some "xylitol"
  | "ro.product.name" => some "xylitol"
  | "ro.hardware" => some "xylitol"
  | "ro.build.fingerprint" => some "Xylitol/xylitol/xylitol:14/XYL/0.1.0:user/release-keys"
  | "ro.build.type" => some "user"
  | "ro.build.tags" => some "release-keys"
  | "ro.debuggable" => some "0"
  | "ro.secure" => some "1"
  | _ => none

/-- `PROP_VALUE_MAX` from `sys/system_properties.h`. -/
def PROP_VALUE_MAX : Nat := 92

/-- bionic's `__system_property_get`. -/
def systemPropertyGet (host : Option Abi) (p : Process) (name value : Option Nat) :
    Option (Process × Int) :=
  match value with
  | none => some (p, 0)
  | some value => do
    let name ← cstrOr (p.target name) ""
    let found := (property host name).getD ""
    let bytes := utf8Bytes found
    -- truncate rather than overflow
    let length := min bytes.length (PROP_VALUE_MAX - 1)
    let mem ← write p.mem value (bytes.take length)
    let mem ← write mem (value + length) [0]
    return ({ p with mem := mem }, length)

/-! ## What they do for a caller who keeps the promise -/

/-- The pointer is null or to a C string. -/
def Readable (pointer : Option Bytes) : Prop := ∀ bytes, pointer = some bytes → 0 ∈ bytes

/-- The string at a pointer. -/
def stringAt (pointer : Option Bytes) (fallback : String) : String :=
  match pointer with
  | none => fallback
  | some bytes => fromUtf8Lossy (bytes.takeWhile (· ≠ 0))

/-- A message in the log. -/
def Process.told (p : Process) (priority : Int) (tag message : String) : Process :=
  if p.loggingEnabled then
    { p with log := p.log ++ (line (.fromRaw priority) tag message).toList }
  else p

/-- A message changes the log and nothing else. -/
theorem Process.told_same (p : Process) (priority : Int) (tag message : String) :
    (p.told priority tag message).blocks = p.blocks ∧ (p.told priority tag message).lists = p.lists ∧
      (p.told priority tag message).mem = p.mem ∧ p.log <+: (p.told priority tag message).log := by
  unfold Process.told
  split
  · exact ⟨rfl, rfl, rfl, List.prefix_append ..⟩
  · exact ⟨rfl, rfl, rfl, List.prefix_rfl⟩

/-- The value of a property where there is one. -/
def valueOf (host : Option Abi) (name : String) : Bytes := utf8Bytes ((property host name).getD "")

/-- A property in memory. -/
def Process.filled (p : Process) (value : Nat) (bytes : Bytes) : Process :=
  { p with mem := stored p.mem value (bytes ++ [0]) }

theorem cstrOr_eq {pointer : Option Bytes} (h : Readable pointer) (fallback : String) :
    cstrOr pointer fallback = some (stringAt pointer fallback) := by
  cases pointer with
  | none => rfl
  | some bytes =>
    rw [cstrOr, cstr, if_pos (h bytes rfl)]
    rfl

theorem xylitolLogLine_eq {p : Process} {priority : Int} {tag message : Option Bytes}
    (htag : Readable tag) (hmessage : Readable message) : xylitolLogLine p priority tag message
      = some (p.told priority (stringAt tag "<no tag>") (stringAt message "")) := by
  unfold xylitolLogLine Process.told
  split
  · rw [cstrOr_eq htag, cstrOr_eq hmessage]
    rfl
  · rfl

/-- Every property fits into what a caller provides, and is a C string. -/
theorem valueOf_fits (host : Option Abi) (name : String) :
    (valueOf host name).length < PROP_VALUE_MAX ∧ 0 ∉ valueOf host name := by
  unfold valueOf property
  split
  case h_4 =>
    cases host with
    | none => decide
    | some abi => cases abi <;> decide
  all_goals decide

/-- Stored as the value and its zero, which is as stored in one. -/
theorem write_terminated {mem bytes : Bytes} {value : Nat} (hfits : bytes.length < PROP_VALUE_MAX)
    (hvalue : value + PROP_VALUE_MAX ≤ mem.length) :
    (write mem value (bytes.take (min bytes.length (PROP_VALUE_MAX - 1)))).bind
        (write · (value + min bytes.length (PROP_VALUE_MAX - 1)) [0])
      = some (stored mem value (bytes ++ [0])) := by
  have hlength : min bytes.length (PROP_VALUE_MAX - 1) = bytes.length := by omega
  rw [hlength, List.take_length, write_of_le (by omega), Option.bind_some, write_of_le,
    stored_stored]
  · rw [List.length_singleton]
    omega
  · rw [List.length_singleton, length_stored (by omega)]
    omega

theorem systemPropertyGet_eq {host : Option Abi} {p : Process} {name : Option Nat} {value : Nat}
    (hname : Readable (p.target name)) (hvalue : value + PROP_VALUE_MAX ≤ p.mem.length) :
    systemPropertyGet host p name (some value)
      = some (p.filled value (valueOf host (stringAt (p.target name) "")),
        ((valueOf host (stringAt (p.target name) "")).length : Int)) := by
  have hfits := (valueOf_fits host (stringAt (p.target name) "")).1
  have hlength : min (valueOf host (stringAt (p.target name) "")).length (PROP_VALUE_MAX - 1)
      = (valueOf host (stringAt (p.target name) "")).length := by omega
  have hwrite := write_terminated hfits hvalue
  obtain ⟨mem, hfirst, hsecond⟩ := Option.bind_eq_some_iff.mp hwrite
  unfold valueOf at hfirst hsecond hlength
  simp only [systemPropertyGet, cstrOr_eq hname, Option.bind_eq_bind, Option.bind_some, hfirst,
    hsecond, Process.filled, valueOf]
  rw [hlength]
  rfl

end Xylitol.Shim.Runtime
