import Xylitol.Apk.Axml

/-!
# What a package is, from its manifest

`from_manifest` reads the identity of a package off the root element of its manifest: the package
name, the version and the split name are attributes of the root, everything else comes from its
children. `infoOf` is the part that starts from the decoded root, so that

    fromManifest bytes = parse bytes >>= infoOf

and what depends on the root's own attributes only is said once, in `infoOf_identity`.
-/

namespace Xylitol.Apk

/-- Which flavour of package a file turned out to be. -/
inductive PackageKind where
  | apk
  | splitApk
  | bundle
  deriving DecidableEq, Repr

/-- Everything Xylitol reads out of a package file. -/
structure PackageInfo where
  kind : PackageKind
  package : String
  versionName : Option String
  versionCode : Option Int
  label : Option String
  minSdk : Option Int
  targetSdk : Option Int
  split : Option String
  abis : List String
  permissions : List String
  launchableActivities : List String
  containedApks : List String
  fileSize : Nat
  sha256 : String
  deriving DecidableEq, Repr

open Axml

/-- `uses-permission` first, then `uses-permission-sdk-23`, those with a literal name. -/
def permissionsOf (root : Element) : List String :=
  (root.childrenNamed "uses-permission" ++ root.childrenNamed "uses-permission-sdk-23").filterMap
    (·.attrStr "name")

/-- The label is usually a resource reference; only a literal is useful. -/
def labelOf (application : Option Element) : Option String :=
  (application.bind (·.attrStr "label")).filter (fun s => !s.isEmpty)

def isLauncher (activity : Element) : Bool :=
  (activity.childrenNamed "intent-filter").any fun f =>
    (f.childrenNamed "category").any fun c =>
      c.attrStr "name" == some "android.intent.category.LAUNCHER"

/-- Activities, then aliases, that are launchers and have a name. -/
def launchableOf : Option Element → List String
  | none => []
  | some app =>
    ((app.childrenNamed "activity" ++ app.childrenNamed "activity-alias").filter isLauncher).filterMap
      (·.attrStr "name")

/-- What `from_manifest` makes of the decoded root. -/
def infoOf (showFloat : UInt32 → String) (root : Element) : PackageInfo :=
  let split := root.attrStr "split"
  let usesSdk := root.child "uses-sdk"
  let application := root.child "application"
  { kind := if split.isSome then .splitApk else .apk
    package := (root.attrStr "package").getD ""
    versionName := (root.attr "versionName").map (Value.toDisplay showFloat)
    versionCode := root.attrI64 "versionCode"
    label := labelOf application
    minSdk := usesSdk.bind (·.attrI64 "minSdkVersion")
    targetSdk := usesSdk.bind (·.attrI64 "targetSdkVersion")
    split := split
    abis := []
    permissions := permissionsOf root
    launchableActivities := launchableOf application
    containedApks := []
    fileSize := 0
    sha256 := "" }

def fromManifest (w : PtrWidth) (showFloat : UInt32 → String) (manifest : Bytes) :
    Except Error PackageInfo := do
  let root ← Axml.parse w manifest
  return infoOf showFloat root

/-- Read a binary `AndroidManifest.xml` on its own. -/
def parseManifest (w : PtrWidth) (showFloat : UInt32 → String) (manifest : Bytes) :
    Except Error PackageInfo :=
  fromManifest w showFloat manifest

/-- The fields that identify a package and its version. -/
structure SameIdentity (a b : PackageInfo) : Prop where
  package : a.package = b.package
  versionName : a.versionName = b.versionName
  versionCode : a.versionCode = b.versionCode
  split : a.split = b.split

/-- The identity of a package is read off the attributes of the root and nothing else. -/
theorem infoOf_identity {showFloat : UInt32 → String} {a b : Element} (h : a.attrs = b.attrs) :
    SameIdentity (infoOf showFloat a) (infoOf showFloat b) := by
  constructor <;>
    simp only [infoOf, Element.attrStr, Element.attrI64, Element.attr, h]

theorem parseManifest_eq_ok {w : PtrWidth} {showFloat : UInt32 → String} {manifest : Bytes}
    {info : PackageInfo} : parseManifest w showFloat manifest = .ok info ↔
      ∃ root, Axml.parse w manifest = .ok root ∧ infoOf showFloat root = info := by
  unfold parseManifest fromManifest
  rw [bind_eq_ok]
  constructor
  · rintro ⟨root, hroot, hinfo⟩
    exact ⟨root, hroot, Except.ok.inj hinfo⟩
  · rintro ⟨root, hroot, hinfo⟩
    exact ⟨root, hroot, congrArg Except.ok hinfo⟩

end Xylitol.Apk
