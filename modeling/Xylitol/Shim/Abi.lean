import Xylitol.Text

/-!
# Android ABIs

The instruction sets an APK's native code comes in, and their names. Which one the machine itself
has is a parameter of the analysis (`host : Option Abi`): there is no translation layer, so only
objects of that ABI can be loaded.
-/

namespace Xylitol.Shim

/-- An Android ABI name, as it appears under `lib/` in an APK. -/
inductive Abi where
  | arm64V8a
  | armeabiV7a
  | x86
  | x86_64
  deriving DecidableEq, Repr, Ord

namespace Abi

def asStr : Abi → String
  | arm64V8a => "arm64-v8a"
  | armeabiV7a => "armeabi-v7a"
  | x86 => "x86"
  | x86_64 => "x86_64"

/-- The `match` of `Abi::parse`, after the trimming. -/
def parseTrimmed (s : String) : Option Abi :=
  if s = "arm64-v8a" ∨ s = "arm64_v8a" then some arm64V8a
  else if s = "armeabi-v7a" ∨ s = "armeabi_v7a" then some armeabiV7a
  else if s = "x86" then some x86
  else if s = "x86_64" then some x86_64
  else none

def parse (s : String) : Option Abi := parseTrimmed (Text.trim s)

instance : Std.TransOrd Abi where
  eq_swap {a b} := by cases a <;> cases b <;> rfl
  isLE_trans {a b c} := by cases a <;> cases b <;> cases c <;> decide

instance : Std.LawfulEqOrd Abi where
  compare_self {a} := by cases a <;> rfl
  eq_of_compare {a b} := by cases a <;> cases b <;> decide

/-- Every ABI is parsed from its own name. -/
theorem parse_asStr (abi : Abi) : parse abi.asStr = some abi := by
  cases abi <;> decide

end Abi

end Xylitol.Shim
