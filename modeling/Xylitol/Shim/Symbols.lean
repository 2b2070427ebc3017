import Xylitol.Shim.Abi

/-!
# Where each imported symbol comes from

Every name an Android object imports takes one of three routes: the shim answers it, the host's libc
answers it, or it is a stub. `resolve` decides by a table kept by hand:

    name ∈ implemented ──▶ shim      else host_provides name ──▶ host      else stub

The table claims to list what the shim answers. What it really answers is what it *exports*: the
`#[no_mangle]` functions of `bionic.rs` and the functions of `native/log.c`, listed here as
`exports`. The names in the table that nothing exports are the `phantoms`.
-/

namespace Xylitol.Shim

/-- How one symbol is satisfied. -/
inductive Route where
  | shim
  | host
  | stub
  deriving DecidableEq, Repr

/-- The Android shared libraries an APK's native code may link against. -/
def ANDROID_SONAMES : List String :=
  ["libc.so", "libm.so", "libdl.so", "libstdc++.so", "libz.so", "liblog.so", "libandroid.so",
    "libnativewindow.so", "libEGL.so", "libGLESv1_CM.so", "libGLESv2.so", "libGLESv3.so",
    "libvulkan.so", "libjnigraphics.so", "libOpenSLES.so", "libOpenMAXAL.so", "libaaudio.so",
    "libmediandk.so", "libcamera2ndk.so", "libbinder_ndk.so", "libnativehelper.so",
    "libandroid_runtime.so", "libneuralnetworks.so", "libsync.so"]

/-- Whether a `DT_NEEDED` name is one the platform is expected to provide. -/
def isAndroidSoname (name : String) : Bool := ANDROID_SONAMES.contains name

/-! ## The table -/

/-- Symbols Xylitol says it implements itself, and what each belongs to. -/
def implemented : List (String × String) :=
  ["__android_log_print", "__android_log_write", "__android_log_vprint", "__android_log_assert",
    "__android_log_buf_write"].map (·, "liblog.so")
  ++ ["__system_property_get", "__system_property_find", "__system_property_read",
    "__system_property_read_callback", "__system_property_get_int64"].map
      (·, "libc.so (bionic properties)")
  ++ ["__errno", "gettid", "tgkill", "__progname"].map (·, "libc.so (bionic deltas)")

def InTable (name : String) : Prop := name ∈ implemented.map Prod.fst

instance (name : String) : Decidable (InTable name) :=
  inferInstanceAs (Decidable (name ∈ implemented.map Prod.fst))

/-- The `#[no_mangle]` functions of `bionic.rs`, then the functions of `native/log.c`. -/
def exports : List String :=
  ["xylitol_log_line", "__system_property_get", "__errno", "gettid", "tgkill"]
  ++ ["__android_log_print", "__android_log_buf_write", "__android_log_vprint",
    "__android_log_write", "__android_log_assert"]

/-- In the table, but nothing exports it. -/
def phantoms : List String :=
  ["__system_property_find", "__system_property_read", "__system_property_read_callback",
    "__system_property_get_int64", "__progname"]

theorem mem_phantoms_iff {name : String} : name ∈ phantoms ↔ InTable name ∧ name ∉ exports := by
  have hsub : ∀ n ∈ phantoms, InTable n ∧ n ∉ exports := by decide
  have hall : ∀ n ∈ implemented.map Prod.fst, n ∈ phantoms ∨ n ∈ exports := by decide
  constructor
  · exact hsub name
  · rintro ⟨htable, hexport⟩
    exact (hall name htable).resolve_right hexport

/-! ## Resolution -/

/-- The decision made about one symbol. -/
structure Resolution where
  symbol : String
  route : Route
  provider : Option String
  deriving DecidableEq, Repr

variable (hostProvides : String → Bool)

/-- The decision about one symbol. -/
def resolveOne (symbol : String) : Resolution :=
  match implemented.lookup symbol with
  | some provider => ⟨symbol, .shim, some provider⟩
  | none =>
    if hostProvides symbol then ⟨symbol, .host, some "host libc"⟩ else ⟨symbol, .stub, none⟩

/-- Classify every symbol; the stable `sort_by` puts them in the order of their names. -/
def resolve (symbols : List String) : List Resolution :=
  (symbols.map (resolveOne hostProvides)).insertionSort (fun a b => a.symbol ≤ b.symbol)

@[simp] theorem resolveOne_symbol (symbol : String) :
    (resolveOne hostProvides symbol).symbol = symbol := by
  unfold resolveOne
  split
  · rfl
  · split <;> rfl

theorem lookup_isSome_iff {name : String} : (implemented.lookup name).isSome ↔ InTable name := by
  rw [List.lookup_isSome_iff, InTable, List.mem_map]
  constructor
  · rintro ⟨kv, hkv, heq⟩
    exact ⟨kv, hkv, (beq_iff_eq.mp heq).symm⟩
  · rintro ⟨kv, hkv, rfl⟩
    exact ⟨kv, hkv, beq_self_eq_true _⟩

/-- The three routes: the table first, then the host. -/
theorem route_eq_shim {name : String} :
    (resolveOne hostProvides name).route = .shim ↔ InTable name := by
  rw [← lookup_isSome_iff]
  unfold resolveOne
  split
  · next provider h => simp [h]
  · next h =>
      split <;> simp [h]

theorem route_eq_stub {name : String} :
    (resolveOne hostProvides name).route = .stub ↔ ¬ InTable name ∧ hostProvides name = false := by
  rw [← lookup_isSome_iff]
  unfold resolveOne
  split
  · next provider h => simp [h]
  · next h =>
      split
      · next hhost => simp [hhost]
      · next hhost => simp [h, hhost]

theorem mem_resolve {symbols : List String} {r : Resolution} :
    r ∈ resolve hostProvides symbols ↔ ∃ s ∈ symbols, resolveOne hostProvides s = r := by
  rw [resolve, List.mem_insertionSort, List.mem_map]

/-- The symbols that are stubs. -/
theorem stub_mem_resolve {symbols : List String} {name : String} :
    (∃ r ∈ resolve hostProvides symbols, r.symbol = name ∧ r.route = .stub) ↔
      name ∈ symbols ∧ ¬ InTable name ∧ hostProvides name = false := by
  simp only [← route_eq_stub]
  constructor
  · rintro ⟨r, hr, rfl, hstub⟩
    obtain ⟨s, hs, rfl⟩ := (mem_resolve hostProvides).mp hr
    rw [resolveOne_symbol]
    exact ⟨hs, hstub⟩
  · rintro ⟨hname, hstub⟩
    exact ⟨resolveOne hostProvides name, (mem_resolve hostProvides).mpr ⟨name, hname, rfl⟩,
      resolveOne_symbol hostProvides name, hstub⟩

/-! ## Counting -/

/-- A count of how the symbols of one object split across the three routes. -/
structure RouteCounts where
  shim : Nat
  host : Nat
  stub : Nat
  deriving DecidableEq, Repr

namespace RouteCounts

def zero : RouteCounts := ⟨0, 0, 0⟩

def count (counts : RouteCounts) (r : Resolution) : RouteCounts :=
  match r.route with
  | .shim => { counts with shim := counts.shim + 1 }
  | .host => { counts with host := counts.host + 1 }
  | .stub => { counts with stub := counts.stub + 1 }

def of (resolutions : List Resolution) : RouteCounts := resolutions.foldl count zero

def add (a b : RouteCounts) : RouteCounts := ⟨a.shim + b.shim, a.host + b.host, a.stub + b.stub⟩

def total (counts : RouteCounts) : Nat := counts.shim + counts.host + counts.stub

end RouteCounts

end Xylitol.Shim
