import Xylitol.Runs
import Xylitol.Shim.Log

/-!
# What an app's calls do

An app is loaded into the process and calls the shim as often as it likes, and stores into memory in
between. What a call is for can be said without buffers, argument lists and blocks:

    step libc host    what the code does, if it is defined
    does libc host    the line that is logged, or the property that is in memory then

As long as every caller keeps to what is promised, the two are the same over every run.
-/

namespace Xylitol.Shim.Runtime

open Memory

variable {A : Type}

/-- What happens in the process. -/
inductive Call (A : Type) where
  | logPrint (priority : Int) (tag : Option Nat) (fmt : Nat) (args : A) (a : Answers)
  | logBufWrite (bufId priority : Int) (tag text : Option Nat)
  | logVprint (priority : Int) (tag : Option Nat) (fmt : Nat) (args : VaList A) (a : Answers)
  | logWrite (priority : Int) (tag text : Option Nat)
  | logAssert (condition tag fmt : Option Nat) (args : A) (a : Answers)
  | propertyGet (name value : Option Nat)
  | setLoggingEnabled (enabled : Bool)
  /-- The app stores into its own memory. -/
  | stores (q : Nat) (data : Bytes)

section

variable (libc : Libc A) (host : Option Abi) (p : Process)

/-- What the code does, and what it returns. Nothing is called in a process that is gone. -/
def step (c : Call A) : Option (Process × Option Int) :=
  if p.aborted then some (p, none)
  else match c with
    | .logPrint priority tag fmt args a =>
      (androidLogPrint libc a p priority tag fmt args).map fun r => (r.1, some r.2)
    | .logBufWrite bufId priority tag text =>
      (androidLogBufWrite p bufId priority tag text).map fun r => (r.1, some r.2)
    | .logVprint priority tag fmt args a =>
      (androidLogVprint libc a p priority tag fmt args).map fun r => (r.1, some r.2)
    | .logWrite priority tag text =>
      (androidLogWrite p priority tag text).map fun r => (r.1, some r.2)
    | .logAssert condition tag fmt args a =>
      (androidLogAssert libc a p condition tag fmt args).map fun p => (p, none)
    | .propertyGet name value =>
      (systemPropertyGet host p name value).map fun r => (r.1, some r.2)
    | .setLoggingEnabled enabled => some ({ p with loggingEnabled := enabled }, none)
    | .stores q data => (write p.mem q data).map fun mem => ({ p with mem := mem }, none)

/-- The code from one call to the next. -/
def exec (calls : List (Call A)) : Option Process :=
  calls.foldlM (fun p c => (step libc host p c).map Prod.fst) p

/-- What a failed assertion says. -/
def assertion (mem : Bytes) (condition fmt : Option Nat) (args : A) (a : Answers) : String :=
  match fmt, condition with
  | some fmt, _ => message libc a mem fmt args
  | none, some condition => stringAt (some (mem.drop condition)) ""
  | none, none => "assertion failed"

/-- What a call is for. -/
def does (c : Call A) : Process :=
  if p.aborted then p
  else match c with
    | .logPrint priority tag fmt args a =>
      p.told priority (stringAt (p.target tag) "<no tag>") (message libc a p.mem fmt args)
    | .logVprint priority tag fmt args a =>
      p.told priority (stringAt (p.target tag) "<no tag>") (message libc a p.mem fmt args.args)
    | .logBufWrite _ priority tag text | .logWrite priority tag text =>
      p.told priority (stringAt (p.target tag) "<no tag>") (stringAt (p.target text) "")
    | .logAssert condition tag fmt args a =>
      { p.told 7 (stringAt (p.target tag) "<no tag>") (assertion libc p.mem condition fmt args a) with
        aborted := true }
    | .propertyGet _ none => p
    | .propertyGet name (some value) =>
      p.filled value (valueOf host (stringAt (p.target name) ""))
    | .setLoggingEnabled enabled => { p with loggingEnabled := enabled }
    | .stores q data => { p with mem := stored p.mem q data }

/-- What a call returns. -/
def answer (c : Call A) : Option Int :=
  if p.aborted then none
  else match c with
    | .logPrint _ _ fmt args _ => some (written libc p.mem fmt args)
    | .logVprint _ _ fmt args _ => some (written libc p.mem fmt args.args)
    | .logBufWrite .. | .logWrite .. | .propertyGet _ none => some 0
    | .propertyGet name (some _) => some (valueOf host (stringAt (p.target name) "")).length
    | .logAssert .. | .setLoggingEnabled _ | .stores .. => none

end

/-- What the callers promise. -/
def Kept (p : Process) : Call A → Prop
  | .logPrint _ tag _ _ _ => Readable (p.target tag)
  | .logBufWrite _ _ tag text | .logWrite _ tag text =>
    Readable (p.target tag) ∧ Readable (p.target text)
  | .logVprint _ tag _ args _ => Readable (p.target tag) ∧ args.used = false
  | .logAssert condition tag _ _ _ => Readable (p.target condition) ∧ Readable (p.target tag)
  | .propertyGet name value =>
    Readable (p.target name) ∧ ∀ v, value = some v → v + PROP_VALUE_MAX ≤ p.mem.length
  | .setLoggingEnabled _ => True
  | .stores q data => q + data.length ≤ p.mem.length

/-! ## One call -/

section

variable {libc : Libc A} {host : Option Abi} {p : Process} {c : Call A}

/-- On a list that was started for it. -/
theorem formatAndEmit_started {a : Answers} {priority : Int} {tag : Option Nat} {fmt : Nat} {args : A}
    (htag : Readable (p.target tag)) :
    formatAndEmit libc a { p with lists := p.lists + 1 } priority tag fmt ⟨args, false⟩
      = some (({ p with lists := p.lists + 1 } : Process).told priority
          (stringAt (p.target tag) "<no tag>") (message libc a p.mem fmt args),
            written libc p.mem fmt args) :=
  formatAndEmit_eq rfl htag

theorem androidLogPrint_eq {a : Answers} {priority : Int} {tag : Option Nat} {fmt : Nat} {args : A}
    (htag : Readable (p.target tag)) : androidLogPrint libc a p priority tag fmt args
      = some (p.told priority (stringAt (p.target tag) "<no tag>") (message libc a p.mem fmt args),
          written libc p.mem fmt args) := by
  unfold androidLogPrint vaStart
  simp only [formatAndEmit_started htag, Option.bind_eq_bind, Option.bind_some, vaEnd_told]
  rfl

theorem androidLogAssert_eq {a : Answers} {condition tag fmt : Option Nat} {args : A}
    (hcondition : Readable (p.target condition)) (htag : Readable (p.target tag)) :
    androidLogAssert libc a p condition tag fmt args
      = some { p.told 7 (stringAt (p.target tag) "<no tag>")
          (assertion libc p.mem condition fmt args a) with aborted := true } := by
  cases fmt with
  | some fmt =>
    unfold androidLogAssert vaStart
    simp only [formatAndEmit_started htag, Option.bind_eq_bind, Option.bind_some, vaEnd_told]
    rfl
  | none =>
    have hline {message : Bytes} (hmessage : Readable (some message)) :
        xylitolLogLine p 7 (p.target tag) (some message) = some (p.told 7
          (stringAt (p.target tag) "<no tag>") (stringAt (some message) "")) :=
      xylitolLogLine_eq htag hmessage
    unfold androidLogAssert assertion
    cases condition with
    | none =>
      simp only [Process.target, Option.map_none, Option.getD_none] at hline ⊢
      rw [hline (literal_readable _), stringAt_literal (by decide)]
      rfl
    | some condition =>
      simp only [Process.target, Option.map_some, Option.getD_some] at hline ⊢
      rw [hline hcondition]
      rfl

/-- A caller who keeps to what is promised gets what the call is for. -/
theorem step_eq_does (h : Kept p c) :
    step libc host p c = some (does libc host p c, answer libc host p c) := by
  unfold step does answer
  split
  · rfl
  · cases c with
    | logPrint priority tag fmt args a =>
      dsimp only
      rw [androidLogPrint_eq h, Option.map_some]
    | logVprint priority tag fmt args a =>
      dsimp only [androidLogVprint]
      rw [formatAndEmit_eq h.2 h.1, Option.map_some]
    | logBufWrite bufId priority tag text =>
      dsimp only [androidLogBufWrite]
      rw [xylitolLogLine_eq h.1 h.2]
      rfl
    | logWrite priority tag text =>
      dsimp only [androidLogWrite]
      rw [xylitolLogLine_eq h.1 h.2]
      rfl
    | logAssert condition tag fmt args a =>
      dsimp only
      rw [androidLogAssert_eq h.1 h.2, Option.map_some]
    | propertyGet name value =>
      cases value with
      | none => rfl
      | some value =>
        dsimp only
        rw [systemPropertyGet_eq h.1 (h.2 value rfl), Option.map_some]
    | setLoggingEnabled enabled => rfl
    | stores q data =>
      dsimp only
      rw [write_of_le h, Option.map_some]

/-! ## Every run -/

theorem exec_eq_run {calls : List (Call A)} (h : Runs.Along (does libc host) Kept p calls) :
    exec libc host p calls = some (Runs.run (does libc host) p calls) := by
  have hstep : ∀ (p : Process) (c : Call A), Kept p c →
      (step libc host p c).map Prod.fst = some (does libc host p c) := by
    intro p c hc
    rw [step_eq_does hc]
    rfl
  exact Runs.foldlM_eq_run hstep h

/-- Nothing was left open, nothing that was logged is gone, and there is as much memory as before. -/
structure Tidy (p p' : Process) : Prop where
  lists : p'.lists = p.lists
  blocks : p'.blocks = p.blocks
  size : p'.mem.length = p.mem.length
  log : p.log <+: p'.log

theorem Tidy.trans {p p' p'' : Process} (h : Tidy p p') (h' : Tidy p' p'') : Tidy p p'' :=
  ⟨h'.lists.trans h.lists, h'.blocks.trans h.blocks, h'.size.trans h.size, h.log.trans h'.log⟩

theorem tidy_told (priority : Int) (tag message : String) :
    Tidy p (p.told priority tag message) := by
  obtain ⟨hblocks, hlists, hmem, hlog⟩ := p.told_same priority tag message
  exact ⟨hlists, hblocks, congrArg List.length hmem, hlog⟩

theorem tidy_stored {q : Nat} {data : Bytes} (h : q + data.length ≤ p.mem.length) :
    Tidy p { p with mem := stored p.mem q data } :=
  ⟨rfl, rfl, length_stored h, List.prefix_rfl⟩

theorem tidy_does (h : Kept p c) : Tidy p (does libc host p c) := by
  unfold does
  split
  · exact ⟨rfl, rfl, rfl, List.prefix_rfl⟩
  · cases c with
    | logPrint | logVprint | logBufWrite | logWrite => exact tidy_told ..
    | logAssert condition tag fmt args a =>
      have htold := tidy_told (p := p) 7 (stringAt (p.target tag) "<no tag>")
        (assertion libc p.mem condition fmt args a)
      exact ⟨htold.lists, htold.blocks, htold.size, htold.log⟩
    | setLoggingEnabled => exact ⟨rfl, rfl, rfl, List.prefix_rfl⟩
    | stores q data => exact tidy_stored h
    | propertyGet name value =>
      cases value with
      | none => exact ⟨rfl, rfl, rfl, List.prefix_rfl⟩
      | some v =>
        have hfits := (valueOf_fits host (stringAt (p.target name) "")).1
        have hvalue := h.2 v rfl
        refine tidy_stored ?_
        rw [List.length_append, List.length_singleton]
        omega

/-- While every call keeps to what is promised the code is defined, and the process is what the calls
are for: the log has every message in order, the memory every property that was read, and nothing that
a call opened is left open. -/
theorem calls_refine {calls : List (Call A)} (h : Runs.Along (does libc host) Kept p calls) :
    exec libc host p calls = some (Runs.run (does libc host) p calls) ∧
      Tidy p (Runs.run (does libc host) p calls) := by
  have hstep : ∀ (p' : Process) (c : Call A), Tidy p p' → Kept p' c →
      Tidy p (does libc host p' c) := fun _ _ htidy hc => htidy.trans (tidy_does hc)
  exact ⟨exec_eq_run h, Runs.invariant_run hstep ⟨rfl, rfl, rfl, List.prefix_rfl⟩ h⟩

/-! ## Memory over a run -/

/-- A call leaves the bytes of a string and its zero alone. -/
def Spares (v length : Nat) : Call A → Prop
  | .propertyGet _ (some v') => v' + PROP_VALUE_MAX ≤ v ∨ v + length < v'
  | .stores q data => q + data.length ≤ v ∨ v + length < q
  | _ => True

/-- Nothing else is stored to. -/
theorem mem_does {v length q : Nat} (h : Kept p c) (hspares : Spares v length c) (hle : v ≤ q)
    (hlt : q ≤ v + length) : (does libc host p c).mem[q]? = p.mem[q]? := by
  unfold does
  split
  · rfl
  · cases c with
    | logPrint | logVprint | logBufWrite | logWrite | logAssert =>
      dsimp only
      rw [(p.told_same _ _ _).2.2.1]
    | setLoggingEnabled => rfl
    | stores q' data => exact getElem?_stored_of_outside h (by unfold Spares at hspares; omega)
    | propertyGet name value =>
      cases value with
      | none => rfl
      | some v' =>
        have hfits := (valueOf_fits host (stringAt (p.target name) "")).1
        have hvalue := h.2 v' rfl
        unfold Spares at hspares
        refine getElem?_stored_of_outside ?_ ?_
        · rw [List.length_append, List.length_singleton]
          omega
        · rw [List.length_append, List.length_singleton]
          omega

/-- A property that was read is there as a C string, whole, until something is stored over it. -/
theorem property_stays {name : Option Nat} {v : Nat} {calls : List (Call A)}
    (hlive : p.aborted = false) (hkept : Kept p (.propertyGet name (some v) : Call A))
    (h : Runs.Along (does libc host) (fun s c => Kept s c ∧
        Spares v (valueOf host (stringAt (p.target name) "")).length c)
      (does libc host p (.propertyGet name (some v))) calls) :
    ∃ p', exec libc host p (.propertyGet name (some v) :: calls) = some p' ∧
      cstr (p'.mem.drop v) = some (valueOf host (stringAt (p.target name) "")) := by
  obtain ⟨hlength, hzero⟩ := valueOf_fits host (stringAt (p.target name) "")
  set bytes := valueOf host (stringAt (p.target name) "") with hbytes
  have hdoes : does libc host p (.propertyGet name (some v)) = p.filled v bytes := by
    rw [does, hlive, hbytes]
    rfl
  have hstart : cstr ((does libc host p (.propertyGet name (some v))).mem.drop v) = some bytes := by
    rw [hdoes]
    refine cstr_stored hzero ?_
    have hvalue := hkept.2 v rfl
    rw [List.length_append, List.length_singleton]
    omega
  have hstep : ∀ (p : Process) (c : Call A), cstr (p.mem.drop v) = some bytes →
      Kept p c ∧ Spares v bytes.length c → cstr ((does libc host p c).mem.drop v) = some bytes := by
    intro p c hstring hallowed
    refine cstr_congr hstring ?_
    intro q hle hlt
    exact mem_does hallowed.1 hallowed.2 hle hlt
  have hall : Runs.Along (does libc host) Kept p (.propertyGet name (some v) :: calls) :=
    ⟨hkept, Runs.along_imp (fun _ _ hc => hc.1) h⟩
  refine ⟨_, exec_eq_run hall, ?_⟩
  rw [Runs.run_cons]
  exact Runs.invariant_run hstep hstart h

end

/-! ## A small process -/

/-- The name of a property, a message, and room for a value. -/
def smallMemory : Bytes :=
  literal "ro.build.type" ++ (literal "ready" ++ List.replicate PROP_VALUE_MAX 0)

def smallProcess : Process := ⟨smallMemory, true, [], 0, 0, false⟩

/-- A format stands for itself. -/
def smallLibc : Libc Unit := fun mem fmt _ => cstr (mem.drop fmt)

/-- No block is to be had. -/
def noBlocks : Answers := ⟨fun _ => 0, fun _ => none⟩

/-- It says that it is ready, reads the property, says so again through a format, and fails. -/
def smallCalls : List (Call Unit) :=
  [.logWrite 4 none (some 14), .propertyGet (some 0) (some 20), .logPrint 4 none 14 () noBlocks,
    .logAssert none none none () noBlocks]

theorem readable_null (p : Process) : Readable (p.target none) := by
  intro bytes hbytes
  cases hbytes

/-- The name of the property can be read, and there is room for its value. -/
theorem kept_smallProcess :
    Kept smallProcess (.propertyGet (some 0) (some 20) : Call Unit) := by
  constructor
  · intro bytes hbytes
    cases hbytes
    decide
  · intro v hv
    cases hv
    decide

theorem calls_refine_small :
    exec smallLibc none smallProcess smallCalls
        = some (Runs.run (does smallLibc none) smallProcess smallCalls) ∧
      Tidy smallProcess (Runs.run (does smallLibc none) smallProcess smallCalls) := by
  have hmessage : Readable (smallProcess.target (some 14)) := by
    intro bytes hbytes
    cases hbytes
    decide
  exact calls_refine ⟨⟨readable_null _, hmessage⟩, kept_smallProcess, readable_null _,
    ⟨readable_null _, readable_null _⟩, trivial⟩

/-- The type of the build stays where it was read to. -/
theorem property_stays_small : ∃ p', exec smallLibc none smallProcess
      [.propertyGet (some 0) (some 20), .logPrint 4 none 14 () noBlocks] = some p' ∧
    cstr (p'.mem.drop 20) = some (utf8Bytes "user") := by
  have hname : stringAt (smallProcess.target (some 0)) "" = "ro.build.type" := by
    have htarget : smallProcess.target (some 0) = some (holding (utf8Bytes "ro.build.type")
        (literal "ready" ++ List.replicate PROP_VALUE_MAX 0)) := by
      rw [Process.target, smallProcess, smallMemory, literal, List.append_assoc]
      rfl
    rw [htarget, stringAt_holding, stringAt, takeWhile_of_not_mem (by decide),
      fromUtf8Lossy_utf8Bytes]
  have hvalue : valueOf none (stringAt (smallProcess.target (some 0)) "") = utf8Bytes "user" := by
    rw [hname]
    rfl
  have hafter : Runs.Along (does smallLibc none) (fun s c => Kept s c ∧
      Spares 20 (valueOf none (stringAt (smallProcess.target (some 0)) "")).length c)
      (does smallLibc none smallProcess (.propertyGet (some 0) (some 20)))
      [.logPrint 4 none 14 () noBlocks] := ⟨⟨readable_null _, trivial⟩, trivial⟩
  rw [← hvalue]
  exact property_stays rfl kept_smallProcess hafter

end Xylitol.Shim.Runtime
