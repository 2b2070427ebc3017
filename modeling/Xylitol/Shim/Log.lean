import Xylitol.Shim.Bionic

/-!
# Android's logging entry points

The entry points are variadic, so they are in C, and what the format and its arguments stand for goes
back to the Rust side as one string. A message is formatted into a buffer on the stack. One that is
longer is formatted again, into a block of its size, from a copy of the arguments:

    args ──vsnprintf──▶ stack buffer ──────────────────▶ line
    retry ─────────────────────────── vsnprintf ──▶ block ──▶ line

The C library is `Libc`; what a buffer holds before it is written to is whatever was there.
-/

namespace Xylitol.Shim.Runtime

open Memory

variable {A : Type}

/-! ## The C library -/

/-- The text that a format and its arguments stand for in this memory, if they can be formatted. -/
def Libc (A : Type) : Type := Bytes → Nat → A → Option Bytes

/-- A `va_list`. Once it has been read it is indeterminate. -/
structure VaList (A : Type) where
  args : A
  used : Bool

/-- What the machine does in a call: what is on the stack, and the block `malloc` gives for a size. -/
structure Answers where
  stack : Nat → UInt8
  malloc : Nat → Option (Nat → UInt8)

def INT_MAX : Nat := 2 ^ 31 - 1

/-- `size` bytes that nobody has written to. -/
def uninit (size : Nat) (junk : Nat → UInt8) : Bytes := (List.range size).map junk

@[simp] theorem length_uninit (size : Nat) (junk : Nat → UInt8) :
    (uninit size junk).length = size := by
  rw [uninit, List.length_map, List.length_range]

/-- `vsnprintf`: what it returns, the buffer and the argument list after it. -/
def vsnprintf (libc : Libc A) (mem buffer : Bytes) (size fmt : Nat) (args : VaList A) :
    Option (Int × Bytes × VaList A) :=
  if args.used then none
  else match libc mem fmt args.args with
    | none => some (-1, buffer, { args with used := true })
    | some text =>
      if INT_MAX < text.length then some (-1, buffer, { args with used := true })
      else do
        let buffer ← write buffer 0 (text.take (size - 1) ++ [0])
        return (text.length, buffer, { args with used := true })

def vaStart (p : Process) (args : A) : Process × VaList A :=
  ({ p with lists := p.lists + 1 }, ⟨args, false⟩)

def vaCopy (p : Process) (args : VaList A) : Option (Process × VaList A) :=
  if args.used then none else some ({ p with lists := p.lists + 1 }, args)

def vaEnd (p : Process) : Option Process :=
  if p.lists = 0 then none else some { p with lists := p.lists - 1 }

def free (p : Process) : Option Process :=
  if p.blocks = 0 then none else some { p with blocks := p.blocks - 1 }

/-! ## The entry points -/

/-- A string literal, with its zero. -/
def literal (s : String) : Bytes := utf8Bytes s ++ [0]

def STACK_BUFFER : Nat := 1024

def formatAndEmit (libc : Libc A) (a : Answers) (p : Process) (priority : Int) (tag : Option Nat)
    (fmt : Nat) (args : VaList A) : Option (Process × Int) := do
  let (p, retry) ← vaCopy p args
  let (needed, stackBuffer, _args) ←
    vsnprintf libc p.mem (uninit STACK_BUFFER a.stack) STACK_BUFFER fmt args
  if needed < 0 then
    let p ← vaEnd p
    let p ← xylitolLogLine p priority (p.target tag) (some (literal "<unformattable log message>"))
    return (p, -1)
  else if needed.toNat < STACK_BUFFER then
    let p ← vaEnd p
    let p ← xylitolLogLine p priority (p.target tag) (some stackBuffer)
    return (p, needed)
  else match a.malloc (needed.toNat + 1) with
    | none =>
      let p ← vaEnd p
      let p ← xylitolLogLine p priority (p.target tag) (some stackBuffer)
      return (p, needed)
    | some junk =>
      let p := { p with blocks := p.blocks + 1 }
      let (_, heapBuffer, _retry) ←
        vsnprintf libc p.mem (uninit (needed.toNat + 1) junk) (needed.toNat + 1) fmt retry
      let p ← vaEnd p
      let p ← xylitolLogLine p priority (p.target tag) (some heapBuffer)
      let p ← free p
      return (p, needed)

def androidLogPrint (libc : Libc A) (a : Answers) (p : Process) (priority : Int) (tag : Option Nat)
    (fmt : Nat) (args : A) : Option (Process × Int) := do
  let (p, args) := vaStart p args
  let (p, written) ← formatAndEmit libc a p priority tag fmt args
  let p ← vaEnd p
  return (p, written)

def androidLogBufWrite (p : Process) (_bufId priority : Int) (tag text : Option Nat) :
    Option (Process × Int) := do
  let p ← xylitolLogLine p priority (p.target tag) (p.target text)
  return (p, 0)

def androidLogVprint (libc : Libc A) (a : Answers) (p : Process) (priority : Int) (tag : Option Nat)
    (fmt : Nat) (args : VaList A) : Option (Process × Int) :=
  formatAndEmit libc a p priority tag fmt args

def androidLogWrite (p : Process) (priority : Int) (tag text : Option Nat) :
    Option (Process × Int) := do
  let p ← xylitolLogLine p priority (p.target tag) (p.target text)
  return (p, 0)

/-- `abort` does not return. -/
def androidLogAssert (libc : Libc A) (a : Answers) (p : Process) (condition tag fmt : Option Nat)
    (args : A) : Option Process :=
  match fmt with
  | some fmt => do
    let (p, args) := vaStart p args
    let (p, _) ← formatAndEmit libc a p 7 tag fmt args
    let p ← vaEnd p
    return { p with aborted := true }
  | none => do
    let message := (p.target condition).getD (literal "assertion failed")
    let p ← xylitolLogLine p 7 (p.target tag) (some message)
    return { p with aborted := true }

/-! ## The message of a format -/

/-- What is logged of a text: all of it up to its first zero, or what the stack buffer holds when there
is no block for more. -/
def logged (a : Answers) (text : Bytes) : Bytes :=
  if text.length < STACK_BUFFER ∨ (a.malloc (text.length + 1)).isSome then text
  else text.take (STACK_BUFFER - 1)

/-- What is logged for a format and its arguments. -/
def message (libc : Libc A) (a : Answers) (mem : Bytes) (fmt : Nat) (args : A) : String :=
  match libc mem fmt args with
  | none => "<unformattable log message>"
  | some text =>
    if INT_MAX < text.length then "<unformattable log message>"
    else stringAt (some (logged a text)) ""

/-- What the caller is told. -/
def written (libc : Libc A) (mem : Bytes) (fmt : Nat) (args : A) : Int :=
  match libc mem fmt args with
  | none => -1
  | some text => if INT_MAX < text.length then -1 else text.length

/-- A buffer that a text and its zero were written to. -/
def holding (text rest : Bytes) : Bytes := text ++ 0 :: rest

theorem holding_readable (text rest : Bytes) : Readable (some (holding text rest)) := by
  intro bytes hbytes
  cases hbytes
  exact List.mem_append_right _ List.mem_cons_self

/-- What is behind the zero does not matter. -/
theorem stringAt_holding (text rest : Bytes) (fallback : String) :
    stringAt (some (holding text rest)) fallback = stringAt (some text) fallback :=
  congrArg fromUtf8Lossy (takeWhile_append_zero text rest)

theorem literal_readable (s : String) : Readable (some (literal s)) :=
  holding_readable (utf8Bytes s) []

theorem stringAt_literal {s : String} (h : 0 ∉ utf8Bytes s) (fallback : String) :
    stringAt (some (literal s)) fallback = s := by
  have hholding := stringAt_holding (utf8Bytes s) [] fallback
  rw [stringAt, stringAt, takeWhile_of_not_mem h, fromUtf8Lossy_utf8Bytes] at hholding
  exact hholding

theorem vsnprintf_eq {libc : Libc A} {mem buffer text : Bytes} {size fmt : Nat} {args : VaList A}
    (hargs : args.used = false) (htext : libc mem fmt args.args = some text)
    (hlength : text.length ≤ INT_MAX) (hsize : 0 < size) (hbuffer : buffer.length = size) :
    ∃ rest, vsnprintf libc mem buffer size fmt args
      = some ((text.length : Int), holding (text.take (size - 1)) rest,
          { args with used := true }) := by
  have hfits : 0 + (text.take (size - 1) ++ [0]).length ≤ buffer.length := by
    rw [List.length_append, List.length_take, List.length_singleton]
    omega
  refine ⟨buffer.drop (0 + (text.take (size - 1) ++ [0]).length), ?_⟩
  have hdrop := drop_stored hfits
  rw [List.drop_zero, List.append_assoc] at hdrop
  unfold vsnprintf
  rw [if_neg (by rw [hargs]; decide), htext]
  dsimp only
  rw [if_neg (by omega), write_of_le hfits, hdrop]
  rfl

theorem vsnprintf_failed {libc : Libc A} {mem buffer : Bytes} {size fmt : Nat} {args : VaList A}
    (hargs : args.used = false)
    (hfails : ∀ text, libc mem fmt args.args = some text → INT_MAX < text.length) :
    vsnprintf libc mem buffer size fmt args = some (-1, buffer, { args with used := true }) := by
  unfold vsnprintf
  rw [if_neg (by rw [hargs]; decide)]
  cases htext : libc mem fmt args.args with
  | none => rfl
  | some text => exact if_pos (hfails text htext)

/-! ### Messages -/

section

variable {libc : Libc A} {a : Answers} {p : Process} {priority : Int} {tag : Option Nat} {fmt : Nat}
  {args : VaList A}

theorem told_blocks (n : Nat) (tag message : String) :
    ({ p with blocks := n } : Process).told priority tag message
      = { p.told priority tag message with blocks := n } := by
  unfold Process.told
  split <;> rfl

/-- The block that was taken for a line is freed. -/
theorem free_told (p : Process) (tag message : String) :
    free { p.told priority tag message with blocks := p.blocks + 1 }
      = some (p.told priority tag message) := by
  rw [free, if_neg (Nat.succ_ne_zero _)]
  dsimp only
  rw [Nat.add_sub_cancel, ← (p.told_same priority tag message).1]

/-- The list that was started for a line is ended. -/
theorem vaEnd_told (p : Process) (tag message : String) :
    vaEnd (({ p with lists := p.lists + 1 } : Process).told priority tag message)
      = some (p.told priority tag message) := by
  unfold Process.told
  split <;> rfl

theorem message_of_fails (hfails : ∀ text, libc p.mem fmt args.args = some text →
    INT_MAX < text.length) : message libc a p.mem fmt args.args = "<unformattable log message>" ∧
      written libc p.mem fmt args.args = -1 := by
  unfold message written
  cases htext : libc p.mem fmt args.args with
  | none => exact ⟨rfl, rfl⟩
  | some text => exact ⟨if_pos (hfails text htext), if_pos (hfails text htext)⟩

/-- Whatever is formatted, one message is logged, and what was opened for it is closed again. -/
theorem formatAndEmit_eq (hargs : args.used = false) (htag : Readable (p.target tag)) :
    formatAndEmit libc a p priority tag fmt args
      = some (p.told priority (stringAt (p.target tag) "<no tag>")
          (message libc a p.mem fmt args.args), written libc p.mem fmt args.args) := by
  have hcopy : vaCopy p args = some ({ p with lists := p.lists + 1 }, args) := by
    rw [vaCopy, if_neg (by rw [hargs]; decide)]
  -- the copy is ended before the line is written
  have hend : vaEnd { p with lists := p.lists + 1 } = some p := rfl
  have hline (message : Bytes) (hmessage : Readable (some message)) :
      xylitolLogLine p priority (p.target tag) (some message)
        = some (p.told priority (stringAt (p.target tag) "<no tag>") (stringAt (some message) "")) :=
    xylitolLogLine_eq htag hmessage
  unfold formatAndEmit
  simp only [hcopy, Option.bind_eq_bind, Option.bind_some]
  by_cases hfails : ∀ text, libc p.mem fmt args.args = some text → INT_MAX < text.length
  · obtain ⟨hmessage, hwritten⟩ := message_of_fails (a := a) hfails
    simp only [vsnprintf_failed hargs hfails, Option.bind_some,
      if_pos (show (-1 : Int) < 0 by decide), hend, hline _ (literal_readable _)]
    rw [hmessage, hwritten, stringAt_literal (by decide)]
    rfl
  · push Not at hfails
    obtain ⟨text, htext, hlength⟩ := hfails
    have hwritten : written libc p.mem fmt args.args = text.length := by
      rw [written, htext]
      exact if_neg (by omega)
    have hmessage : message libc a p.mem fmt args.args = stringAt (some (logged a text)) "" := by
      rw [message, htext]
      exact if_neg (by omega)
    obtain ⟨rest, hstack⟩ := vsnprintf_eq hargs htext hlength (by decide)
      (length_uninit STACK_BUFFER a.stack)
    simp only [hstack, Option.bind_some, if_neg (show ¬ (text.length : Int) < 0 by omega),
      Int.toNat_natCast]
    rw [hmessage, hwritten]
    split_ifs with hshort
    · -- it fits into the buffer on the stack
      simp only [hend, Option.bind_some, hline _ (holding_readable _ _), stringAt_holding]
      rw [logged, if_pos (Or.inl hshort), List.take_of_length_le (by omega)]
      rfl
    · cases hmalloc : a.malloc (text.length + 1) with
      | none =>
        simp only [hend, Option.bind_some, hline _ (holding_readable _ _), stringAt_holding]
        rw [logged, if_neg (by rw [hmalloc]; simpa using hshort)]
        rfl
      | some junk =>
        obtain ⟨rest', hheap⟩ := vsnprintf_eq hargs htext hlength (Nat.succ_pos _)
          (length_uninit (text.length + 1) junk)
        have hend' : vaEnd { p with lists := p.lists + 1, blocks := p.blocks + 1 }
            = some { p with blocks := p.blocks + 1 } := rfl
        -- the block is freed after the line is written, which leaves what was there before
        have hline' : (xylitolLogLine { p with blocks := p.blocks + 1 } priority (p.target tag)
            (some (holding (text.take (text.length + 1 - 1)) rest'))).bind free
              = some (p.told priority (stringAt (p.target tag) "<no tag>")
                  (stringAt (some text) "")) := by
          rw [xylitolLogLine_eq htag (holding_readable _ _), told_blocks, stringAt_holding,
            Nat.add_sub_cancel, List.take_length, Option.bind_some]
          exact free_told p _ _
        simp only [hheap, Option.bind_some, hend', ← Option.bind_assoc]
        rw [logged, if_pos (Or.inr (by rw [hmalloc]; rfl))]
        exact congrArg (Option.bind · _) hline'

end

end Xylitol.Shim.Runtime
