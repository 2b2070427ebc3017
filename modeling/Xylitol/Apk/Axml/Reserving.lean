import Xylitol.Requests
import Xylitol.Apk.Axml.Locality

/-!
# Binary XML: what the reader makes room for

A string pool says how many strings it has, and `StringPool::parse` makes room for that many offsets
before it reads the first, and for that many strings once it has read the last. Here the reader is
written with these requests:

    offset  0       8              28                28 + 4 * count
            header │ count │ .. │   offsets   │   strings

    count * usize  is asked for here ↑              ↑ and here count * String

`PoolDeclares` says in the bytes of a chunk what is asked for on their account.
-/

namespace Xylitol.Apk.Axml

variable {w : PtrWidth}

/-! ## The pool, by its bytes -/

/-- The double word at `i`. -/
def dwordAt (xs : Bytes) (i : Nat) : UInt32 :=
  u32OfLe (xs.getD i 0) (xs.getD (i + 1) 0) (xs.getD (i + 2) 0) (xs.getD (i + 3) 0)

theorem run_dword {c : Cursor} {k : Nat} (hok : c.Ok w) (hn : k + 4 ≤ c.rest.length) :
    (u32 w).run (c.skip k) = .ok (dwordAt c.rest k, c.skip (k + 4)) := by
  have hlen : 4 ≤ (c.skip k).rest.length := by
    rw [Cursor.rest_skip_eq_drop, List.length_drop]
    omega
  unfold u32
  rw [StateT.run_bind, run_take (hok.skip_of_le (by omega)) hlen, ok_bind, Cursor.skip_skip]
  show Except.ok (u32OfLe _ _ _ _, _) = _
  simp [dwordAt, Cursor.rest_skip_eq_drop, List.getD_eq_getElem?_getD, List.getElem?_drop]

theorem takes_readOffsets (count : Nat) : Takes w Short (readOffsets w count) (4 * count) := by
  induction count with
  | zero => exact .pure _
  | succ count ih =>
    have hsize : 4 * (count + 1) = 4 + (4 * count + 0) := by omega
    rw [hsize]
    exact takes_u32.bind fun _ => ih.bind fun _ => .pure _

namespace Reserving

/-- `size_of::<usize>()`. A `String` is three of them. -/
def wordSize (w : PtrWidth) : Nat := w.bits / 8

/-! ## The reader with its requests -/

/-- The pool header in front of the offset table: the number of strings, the flags and where the
strings start. -/
def readCounts (w : PtrWidth) : AxmlReader (UInt32 × UInt32 × UInt32) := do
  let _ty ← u16 w
  let _headerSize ← u16 w
  let _size ← u32 w
  let stringCount ← u32 w
  let _styleCount ← u32 w
  let flags ← u32 w
  let stringsStart ← u32 w
  let _stylesStart ← u32 w
  return (stringCount, flags, stringsStart)

open Metered (plain withCapacity)

def StringPool.parse (w : PtrWidth) (chunk : Bytes) : Metered Error StringPool := do
  let ((stringCount, flags, stringsStart), c) ← plain ((readCounts w).run (Cursor.new chunk))
  withCapacity w stringCount.toNat (wordSize w)
  let (offsets, _) ← plain ((readOffsets w stringCount.toNat).run c)
  withCapacity w stringCount.toNat (3 * wordSize w)
  let strings ← plain (offsets.mapM (stringAt w chunk (flags &&& UTF8_FLAG ≠ 0) stringsStart.toNat))
  return ⟨strings⟩

def handleChunk (w : PtrWidth) (ty : UInt16) (chunkStart chunkEnd : Nat) (c : Cursor)
    (st : DocState) : Metered Error DocState :=
  if ty = RES_STRING_POOL_TYPE then do
    let pool ← StringPool.parse w ((c.buf.take chunkEnd).drop chunkStart)
    return { st with pool := some pool }
  else plain (Axml.handleChunk w ty chunkStart chunkEnd c st)

def parseChunk (w : PtrWidth) (c : Cursor) (st : DocState) :
    Metered Error (Cursor × DocState) := do
  let ((ty, chunkSize), body) ← plain ((readChunkHeader w).run c)
  let chunkEnd ← plain (checkChunkEnd w c chunkSize)
  let st ← handleChunk w ty c.pos chunkEnd body st
  return ({ c with pos := chunkEnd }, st)

/-! ## What it is asked for -/

/-- What a pool chunk declares: that many offsets, and once they are all there, as many strings. -/
def PoolDeclares (w : PtrWidth) (chunk : Bytes) (r : Request) : Prop :=
  28 ≤ chunk.length ∧
    (r = ⟨(dwordAt chunk 8).toNat, wordSize w⟩ ∨
      28 + 4 * (dwordAt chunk 8).toNat ≤ chunk.length ∧
        r = ⟨(dwordAt chunk 8).toNat, 3 * wordSize w⟩)

/-- The chunk at the cursor is a pool that declares this. -/
def ChunkDeclares (w : PtrWidth) (c : Cursor) (r : Request) : Prop :=
  ∃ chunkSize body chunkEnd,
    (readChunkHeader w).run c = .ok ((RES_STRING_POOL_TYPE, chunkSize), body) ∧
    checkChunkEnd w c chunkSize = .ok chunkEnd ∧
    PoolDeclares w ((c.buf.take chunkEnd).drop c.pos) r

theorem wants_readCounts : Wants w Short (readCounts w) 28 := by
  have hwants : Wants w Short (readCounts w) (2 + (2 + (4 + (4 + (4 + (4 + (4 + (4 + 0)))))))) := by
    unfold readCounts
    exact takes_u16.bind_wants fun _ => takes_u16.bind_wants fun _ => takes_u32.bind_wants fun _ =>
      takes_u32.bind_wants fun _ => takes_u32.bind_wants fun _ => takes_u32.bind_wants fun _ =>
        takes_u32.bind_wants fun _ => takes_u32.bind_wants fun _ => .zero _
  exact hwants

theorem run_readCounts {c : Cursor} (hok : c.Ok w) (h : 28 ≤ c.rest.length) :
    (readCounts w).run c
      = .ok ((dwordAt c.rest 8, dwordAt c.rest 16, dwordAt c.rest 20), c.skip 28) := by
  obtain ⟨_, -, h₀⟩ := run_u16_skip (k := 0) hok (by omega)
  obtain ⟨_, -, h₂⟩ := run_u16_skip (k := 2) hok (by omega)
  have h₄ := run_dword (k := 4) hok (by omega)
  have h₈ := run_dword (k := 8) hok (by omega)
  have h₁₂ := run_dword (k := 12) hok (by omega)
  have h₁₆ := run_dword (k := 16) hok (by omega)
  have h₂₀ := run_dword (k := 20) hok (by omega)
  have h₂₄ := run_dword (k := 24) hok (by omega)
  show (readCounts w).run (c.skip 0) = _
  unfold readCounts
  simp only [StateT.run_bind, h₀, h₂, h₄, h₈, h₁₂, h₁₆, h₂₀, h₂₄, ok_bind]
  rfl

theorem readPoolHeader_eq : readPoolHeader w = (do
    let (stringCount, flags, stringsStart) ← readCounts w
    let offsets ← readOffsets w stringCount.toNat
    return (flags &&& UTF8_FLAG ≠ 0, stringsStart.toNat, offsets)) := by
  simp only [readPoolHeader, readCounts, bind_assoc, pure_bind]

/-- The pool is read in these steps, with the requests between them left out. -/
theorem parse_eq (chunk : Bytes) : Axml.StringPool.parse w chunk = (do
    let ((stringCount, flags, stringsStart), c) ← (readCounts w).run (Cursor.new chunk)
    let (offsets, _) ← (readOffsets w stringCount.toNat).run c
    let strings ← offsets.mapM (stringAt w chunk (flags &&& UTF8_FLAG ≠ 0) stringsStart.toNat)
    return ⟨strings⟩) := by
  rw [Axml.StringPool.parse, readPoolHeader_eq, StateT.run_bind, bind_assoc]
  apply bind_congr
  rintro ⟨⟨stringCount, flags, stringsStart⟩, c⟩
  rw [StateT.run_bind, bind_assoc]
  rfl

theorem meters_pool {chunk : Bytes} (hlen : chunk.length < w.size) :
    Meters w (StringPool.parse w chunk) (Axml.StringPool.parse w chunk)
      (PoolDeclares w chunk) := by
  have hok : (Cursor.new chunk).Ok w := ⟨Nat.zero_le _, hlen⟩
  rw [parse_eq]
  by_cases h28 : 28 ≤ chunk.length
  · have hcounts : (readCounts w).run (Cursor.new chunk)
        = .ok ((dwordAt chunk 8, dwordAt chunk 16, dwordAt chunk 20),
          (Cursor.new chunk).skip 28) := run_readCounts hok h28
    have hrest : ((Cursor.new chunk).skip 28).rest.length = chunk.length - 28 := by
      rw [Cursor.rest_skip_eq_drop, List.length_drop]
      rfl
    have hok' : ((Cursor.new chunk).skip 28).Ok w := hok.skip_of_le h28
    by_cases hoffsets : 28 + 4 * (dwordAt chunk 8).toNat ≤ chunk.length
    · obtain ⟨offsets, hread⟩ := (takes_readOffsets (dwordAt chunk 8).toNat).full _ hok' (by omega)
      refine (Meters.ok_bind hcounts (Meters.withCapacity_bind (Meters.ok_bind hread
        (Meters.withCapacity_bind ((Meters.plain _).bind_pure _))))).congr fun r => ?_
      simp [PoolDeclares, h28, hoffsets]
    · obtain ⟨e, -, hread⟩ := (takes_readOffsets (dwordAt chunk 8).toNat).wants _ hok' (by omega)
      refine (Meters.ok_bind hcounts (Meters.withCapacity_bind
        (Meters.error_bind hread _ _))).congr fun r => ?_
      simp [PoolDeclares, h28, hoffsets]
  · obtain ⟨e, -, hcounts⟩ := wants_readCounts _ hok (Nat.lt_of_not_le h28)
    refine (Meters.error_bind hcounts _ _).congr fun r => ?_
    simp [PoolDeclares, h28]

-- 28 bytes, and 32 GiB of offsets
example : PoolDeclares .w64 (le16 RES_STRING_POOL_TYPE ++ le16 28 ++ le32 28 ++ le32 0xFFFFFFFF
    ++ le32 0 ++ le32 UTF8_FLAG ++ le32 28 ++ le32 0) ⟨2 ^ 32 - 1, 8⟩ :=
  ⟨by decide, Or.inl rfl⟩

/-! ## The document -/

theorem meters_handleChunk {ty : UInt16} {c : Cursor} {chunkEnd : Nat} (body : Cursor)
    (hbody : body.buf = c.buf) (hend : chunkEnd < w.size) (st : DocState) :
    Meters w (handleChunk w ty c.pos chunkEnd body st)
      (Axml.handleChunk w ty c.pos chunkEnd body st)
      fun r => ty = RES_STRING_POOL_TYPE ∧
        PoolDeclares w ((c.buf.take chunkEnd).drop c.pos) r := by
  unfold handleChunk
  by_cases hty : ty = RES_STRING_POOL_TYPE
  · have hlen : ((body.buf.take chunkEnd).drop c.pos).length < w.size := by
      rw [List.length_drop, List.length_take]
      omega
    rw [if_pos hty, Axml.handleChunk, if_pos hty]
    apply ((meters_pool hlen).bind_pure _).congr
    intro r
    rw [hbody, and_iff_right hty]
  · rw [if_neg hty]
    apply (Meters.plain _).congr
    intro r
    simp [hty]

theorem meters_parseChunk (c : Cursor) (st : DocState) :
    Meters w (parseChunk w c st) (Axml.parseChunk w c st) (ChunkDeclares w c) := by
  have hmeters : Meters w (parseChunk w c st) (Axml.parseChunk w c st) _ :=
    (Meters.plain _).bind fun header hheader => (Meters.plain _).bind fun chunkEnd hend =>
      (meters_handleChunk header.2 (Raw.keeps_readChunkHeader c _ _ hheader)
        (checkChunkEnd_eq_ok.mp hend).2.2.2 st).bind_pure _
  apply hmeters.congr
  intro r
  simp only [false_or]
  constructor
  · rintro ⟨⟨⟨ty, chunkSize⟩, body⟩, hheader, chunkEnd, hend, rfl, hpool⟩
    exact ⟨chunkSize, body, chunkEnd, hheader, hend, hpool⟩
  · rintro ⟨chunkSize, body, chunkEnd, hheader, hend, hpool⟩
    exact ⟨_, hheader, chunkEnd, hend, rfl, hpool⟩

theorem parseChunk_remaining {c c' : Cursor} {st st' : DocState}
    (h : (parseChunk w c st).result = .ok (c', st')) (hrem : 8 ≤ c.remaining) :
    c'.remaining < c.remaining :=
  Axml.parseChunk_remaining ((meters_parseChunk c st).eq_ok h) hrem

/-- `while c.remaining() >= 8`. -/
def parseChunks (w : PtrWidth) (c : Cursor) (st : DocState) : Metered Error DocState :=
  if _hrem : 8 ≤ c.remaining then
    match _h : (parseChunk w c st).result with
    | .error e => ⟨(parseChunk w c st).requests, .error e⟩
    | .ok (c', st') => (parseChunks w c' st').after (parseChunk w c st).requests
  else plain (.ok st)
termination_by c.remaining
decreasing_by exact parseChunk_remaining _h _hrem

def parse (w : PtrWidth) (data : Bytes) : Metered Error Element := do
  let (_, c) ← plain ((fileHeader w).run (Cursor.new data))
  let st ← parseChunks w c .init
  plain st.result

theorem parseChunks_bind {c : Cursor} (hrem : 8 ≤ c.remaining) (st : DocState) :
    parseChunks w c st = parseChunk w c st >>= fun next => parseChunks w next.1 next.2 := by
  rw [parseChunks, dif_pos hrem]
  split
  · next e he => rw [Metered.bind_of_error he]
  · next c' st' hnext => rw [Metered.bind_of_ok hnext]

/-- What the loop is asked for from this cursor and state on. -/
inductive LoopDeclares (w : PtrWidth) : Cursor → DocState → Request → Prop where
  | here {c st r} (hrem : 8 ≤ c.remaining) (h : ChunkDeclares w c r) : LoopDeclares w c st r
  | later {c st c' st' r} (hrem : 8 ≤ c.remaining)
      (hchunk : Axml.parseChunk w c st = .ok (c', st')) (h : LoopDeclares w c' st' r) :
      LoopDeclares w c st r

theorem loopDeclares_iff {c : Cursor} {st : DocState} {r : Request} : LoopDeclares w c st r ↔
    8 ≤ c.remaining ∧ (ChunkDeclares w c r ∨ ∃ next, Axml.parseChunk w c st = .ok next ∧
      LoopDeclares w next.1 next.2 r) := by
  constructor
  · intro h
    cases h with
    | here hrem h => exact ⟨hrem, Or.inl h⟩
    | later hrem hchunk h => exact ⟨hrem, Or.inr ⟨_, hchunk, h⟩⟩
  · rintro ⟨hrem, h | ⟨next, hchunk, h⟩⟩
    · exact .here hrem h
    · exact .later hrem hchunk h

-- round by round, as the plain loop goes
theorem meters_parseChunks (c : Cursor) (st : DocState) :
    Meters w (parseChunks w c st) (Axml.parseChunks w c st) (LoopDeclares w c st) := by
  have hround : ∀ (c : Cursor) (st : DocState), 8 ≤ c.remaining →
      (∀ next, Axml.parseChunk w c st = .ok next → Meters w (parseChunks w next.1 next.2)
        (Axml.parseChunks w next.1 next.2) (LoopDeclares w next.1 next.2)) →
      Meters w (parseChunks w c st)
        (Axml.parseChunk w c st >>= fun next => Axml.parseChunks w next.1 next.2)
        (LoopDeclares w c st) := by
    intro c st hrem hnext
    rw [parseChunks_bind hrem]
    apply ((meters_parseChunk c st).bind hnext).congr
    intro r
    rw [loopDeclares_iff, and_iff_right hrem]
  induction c, st using Axml.parseChunks.induct w with
  | case1 c st hrem e he =>
    have hplain := hround c st hrem fun next hnext => by
      rw [he] at hnext
      cases hnext
    rwa [he, error_bind, ← parseChunks_of_error hrem he] at hplain
  | case2 c st hrem c' st' hchunk ih =>
    have hplain := hround c st hrem fun next hnext => by
      rw [hchunk] at hnext
      cases hnext
      exact ih
    rwa [hchunk, ok_bind, ← parseChunks_of_ok hrem hchunk] at hplain
  | case3 c st hrem =>
    rw [parseChunks_of_lt st (Nat.lt_of_not_le hrem), parseChunks, dif_neg hrem]
    apply (Meters.plain _).congr
    intro r
    rw [loopDeclares_iff]
    simp [hrem]

/-! ## What a manifest declares -/

/-- The chunk loop comes to a pool chunk that declares this. -/
def XmlDeclares (w : PtrWidth) (data : Bytes) (r : Request) : Prop :=
  ∃ c st, Reaches w data c st ∧ 8 ≤ c.remaining ∧ ChunkDeclares w c r

theorem LoopDeclares.xml {data : Bytes} {c : Cursor} {st : DocState} {r : Request}
    (h : LoopDeclares w c st r) (hreaches : Reaches w data c st) : XmlDeclares w data r := by
  induction h with
  | here hrem h => exact ⟨_, _, hreaches, hrem, h⟩
  | later hrem hchunk _ ih => exact ih (hreaches.next hrem hchunk)

theorem loopDeclares_of_reaches {data : Bytes} {c : Cursor} {st : DocState} {r : Request}
    (hreaches : Reaches w data c st) (h : LoopDeclares w c st r) :
    ∃ c, (fileHeader w).run (Cursor.new data) = .ok ((), c) ∧ LoopDeclares w c .init r := by
  induction hreaches with
  | start hheader => exact ⟨_, hheader, h⟩
  | next _ hrem hchunk ih => exact ih (.later hrem hchunk h)

theorem meters_parse (data : Bytes) :
    Meters w (parse w data) (Axml.parse w data) (XmlDeclares w data) := by
  have hmeters : Meters w (parse w data) (Axml.parse w data) _ :=
    (Meters.plain _).bind fun header _ => (meters_parseChunks header.2 .init).bind fun st _ =>
      .plain st.result
  apply hmeters.congr
  intro r
  simp only [false_or, and_false, exists_false, or_false]
  constructor
  · rintro ⟨⟨_, c⟩, hheader, h⟩
    exact h.xml (.start hheader)
  · rintro ⟨c, st, hreaches, hrem, h⟩
    obtain ⟨c₀, hheader, hloop⟩ := loopDeclares_of_reaches hreaches (.here hrem h)
    exact ⟨_, hheader, hloop⟩

end Reserving
end Xylitol.Apk.Axml
