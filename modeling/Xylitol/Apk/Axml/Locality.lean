import Xylitol.Apk.Axml.Raw
import Xylitol.Apk.Axml.RoundTrip

/-!
# Binary XML: which bytes an element is made of

The string pool is read from a slice of its own. An element is read by a cursor over the whole file,
and nothing compares what its fields declare with the end of the chunk:

    START chunk, 36 bytes            next chunk
    ... start 28, size 20, count 1 │ header │ attribute record ...
                                   end of the chunk

`decoded_from_own_chunk_iff` says for which chunks this makes no difference.
-/

namespace Xylitol.Apk.Axml

variable {w : PtrWidth}

/-! ## What the readers take -/

/-- The two errors for want of bytes. -/
def Short (e : Error) : Prop :=
  e = .axml "chunk length overflow" ∨ e = .axml "truncated binary XML"

theorem run_take {n : Nat} {c : Cursor} (hok : c.Ok w) (hn : n ≤ c.rest.length) :
    (take w n).run c = .ok (c.rest.take n, c.skip n) := by
  have hrest : c.rest = c.rest.take n ++ c.rest.drop n := (List.take_append_drop n _).symm
  have hlen : (c.rest.take n).length = n := by
    rw [List.length_take]
    omega
  have h := consumes_take (w := w) hlen c _ hok hrest
  rwa [hlen] at h

theorem takes_take (n : Nat) : Takes w Short (take w n) n := by
  refine ⟨fun c hok hn => ⟨_, run_take hok hn⟩, ?_⟩
  intro c hok hn
  show ∃ e, Short e ∧ take w n c = .error e
  have hlen := hok.length_rest
  unfold take
  split
  · exact ⟨_, Or.inl rfl, rfl⟩
  · next stop hstop =>
    have hstop := checkedAdd_eq_some hstop
    rw [if_pos (by omega)]
    exact ⟨_, Or.inr rfl, rfl⟩

theorem takes_u16 : Takes w Short (u16 w) 2 := (takes_take 2).bind fun _ => .pure _

theorem takes_u32 : Takes w Short (u32 w) 4 := (takes_take 4).bind fun _ => .pure _

theorem takes_skipPast (declared base : Nat) :
    Takes w Short (skipPast w declared base) (declared - base) := by
  unfold skipPast
  split
  · exact (takes_take _).bind fun _ => .pure _
  · next hle =>
    rw [Nat.sub_eq_zero_of_le (by omega)]
    exact .pure _

theorem takes_parseAttr (pool : StringPool) {attrSize : Nat} (h : 20 ≤ attrSize) :
    Takes w Short (parseAttr w pool attrSize) attrSize := by
  have htakes : Takes w Short (parseAttr w pool attrSize)
      (4 + (4 + (4 + (2 + (1 + (1 + (4 + ((attrSize - 20) + 0)))))))) := by
    unfold parseAttr
    exact takes_u32.bind fun _ => takes_u32.bind fun _ => takes_u32.bind fun _ =>
      takes_u16.bind fun _ => (takes_take 1).bind fun _ => (takes_take 1).bind fun _ =>
        takes_u32.bind fun _ => (takes_skipPast _ _).bind fun _ => .pure _
  have hsize : 4 + (4 + (4 + (2 + (1 + (1 + (4 + ((attrSize - 20) + 0))))))) = attrSize := by
    omega
  rwa [hsize] at htakes

theorem takes_parseAttrs (pool : StringPool) {attrSize : Nat} (h : 20 ≤ attrSize) (count : Nat)
    (attrs : Attrs) :
    Takes w Short (parseAttrs w pool attrSize count attrs) (count * attrSize) := by
  induction count generalizing attrs with
  | zero =>
    rw [Nat.zero_mul]
    exact .pure _
  | succ count ih =>
    have hsize : (count + 1) * attrSize = attrSize + count * attrSize := by ring
    rw [hsize]
    exact (takes_parseAttr pool h).bind fun attr => ih _

/-! ## What the readers make of some bytes alone -/

theorem stable_take (n : Nat) : Stable w Short (take w n) := by
  constructor
  · intro c d xs suf a hok hrest h
    by_cases hn : n ≤ xs.length
    · have hown : (take w n).run (Cursor.new xs) = .ok (xs.take n, ⟨xs, 0 + n⟩) :=
        run_take (hok.new hrest) hn
      rw [hown] at h
      cases h
      refine ⟨n, hn, by rw [Nat.zero_add], ?_⟩
      rw [run_take hok (by rw [hrest, List.length_append]; omega), hrest,
        List.take_append_of_le_length hn]
    · obtain ⟨e, -, he⟩ := (takes_take n).wants _ (hok.new hrest) (Nat.lt_of_not_le hn)
      rw [he] at h
      cases h
  · intro c xs suf e hok hrest h hshort
    by_cases hn : n ≤ xs.length
    · obtain ⟨a, ha⟩ := (takes_take n).full _ (hok.new hrest) hn
      rw [ha] at h
      cases h
    · obtain ⟨e', hshort', he⟩ := (takes_take n).wants _ (hok.new hrest) (Nat.lt_of_not_le hn)
      rw [he] at h
      cases h
      exact absurd hshort' hshort
  · intro c e hok h _
    have hnew : (Cursor.new c.rest).Ok w := hok.new (List.append_nil _).symm
    by_cases hn : n ≤ c.rest.length
    · obtain ⟨a, ha⟩ := (takes_take n).full _ hnew hn
      rw [ha] at h
      cases h
    · exact (takes_take n).wants c hok (Nat.lt_of_not_le hn)

theorem stable_u16 : Stable w Short (u16 w) := (stable_take 2).bind fun _ => .pure _

theorem stable_u32 : Stable w Short (u32 w) := (stable_take 4).bind fun _ => .pure _

theorem stable_skipPast (declared base : Nat) : Stable w Short (skipPast w declared base) := by
  unfold skipPast
  split
  · exact (stable_take _).bind fun _ => .pure _
  · exact .pure _

theorem stable_parseAttr (pool : StringPool) (attrSize : Nat) :
    Stable w Short (parseAttr w pool attrSize) := by
  unfold parseAttr
  exact stable_u32.bind fun _ => stable_u32.bind fun _ => stable_u32.bind fun _ =>
    stable_u16.bind fun _ => (stable_take 1).bind fun _ => (stable_take 1).bind fun _ =>
      stable_u32.bind fun _ => (stable_skipPast _ _).bind fun _ => .pure _

theorem stable_parseAttrs (pool : StringPool) (attrSize count : Nat) (attrs : Attrs) :
    Stable w Short (parseAttrs w pool attrSize count attrs) := by
  induction count generalizing attrs with
  | zero => exact .pure _
  | succ count ih => exact (stable_parseAttr pool attrSize).bind fun attr => ih _

theorem not_short_tooSmall : ¬ Short (.axml "attribute entry too small") := by
  simp [Short]

theorem stable_parseStartElement (pool : StringPool) :
    Stable w Short (parseStartElement w pool) := by
  unfold parseStartElement
  refine stable_u32.bind fun _ => stable_u32.bind fun _ => stable_u32.bind fun _ =>
    stable_u32.bind fun _ => stable_u16.bind fun _ => stable_u16.bind fun _ =>
      stable_u16.bind fun _ => stable_u16.bind fun _ => stable_u16.bind fun _ =>
        stable_u16.bind fun _ => (stable_skipPast _ _).bind fun _ => ?_
  split
  · exact .throw not_short_tooSmall
  · exact (stable_parseAttrs _ _ _ _).bind fun _ => .pure _

/-! ## How far an element goes -/

/-- The word at `i`. -/
def wordAt (xs : Bytes) (i : Nat) : Nat := (u16OfLe (xs.getD i 0) (xs.getD (i + 1) 0)).toNat

/-- Where the attributes of an element end, by what is declared of their start, size and count. Like
the body, it counts from behind the chunk header. -/
def attrsEnd (body : Bytes) : Nat :=
  28 + (wordAt body 16 - 20) + if wordAt body 18 < 20 then 0 else wordAt body 20 * wordAt body 18

/-- The chunk holds everything that its element declares. -/
def Contained (body : Bytes) : Prop := attrsEnd body ≤ body.length

instance (body : Bytes) : Decidable (Contained body) := inferInstanceAs (Decidable (_ ≤ _))

theorem run_u16 {c : Cursor} (hok : c.Ok w) (hn : 2 ≤ c.rest.length) :
    (u16 w).run c = .ok (u16OfLe (c.rest.getD 0 0) (c.rest.getD 1 0), c.skip 2) := by
  unfold u16
  rw [StateT.run_bind, run_take hok hn, ok_bind]
  show Except.ok (u16OfLe ((c.rest.take 2).getD 0 0) ((c.rest.take 2).getD 1 0), c.skip 2) = _
  simp [List.getD_eq_getElem?_getD]

/-- A word that is read further on. -/
theorem run_u16_skip {c : Cursor} {k : Nat} (hok : c.Ok w) (hn : k + 2 ≤ c.rest.length) :
    ∃ x : UInt16, x.toNat = wordAt c.rest k ∧ (u16 w).run (c.skip k) = .ok (x, c.skip (k + 2)) := by
  have hlen : 2 ≤ (c.skip k).rest.length := by
    rw [Cursor.rest_skip_eq_drop, List.length_drop]
    omega
  refine ⟨_, ?_, (run_u16 (hok.skip_of_le (by omega)) hlen).trans (by rw [Cursor.skip_skip])⟩
  simp [wordAt, Cursor.rest_skip_eq_drop, List.getD_eq_getElem?_getD, List.getElem?_drop]

theorem run_u32_skip {c : Cursor} {k : Nat} (hok : c.Ok w) (hn : k + 4 ≤ c.rest.length) :
    ∃ x : UInt32, (u32 w).run (c.skip k) = .ok (x, c.skip (k + 4)) := by
  have hlen : 4 ≤ (c.skip k).rest.length := by
    rw [Cursor.rest_skip_eq_drop, List.length_drop]
    omega
  obtain ⟨x, hx⟩ := takes_u32.full (c.skip k) (hok.skip_of_le (by omega)) hlen
  exact ⟨x, hx.trans (by rw [Cursor.skip_skip])⟩

/-- The reader behind the fixed fields of an element. -/
def attributesReader (w : PtrWidth) (pool : StringPool) (name : String) (start size count : Nat) :
    AxmlReader Element := do
  skipPast w start 20
  if size < 20 then throw (.axml "attribute entry too small")
  else
    let attrs ← parseAttrs w pool size count ∅
    return ⟨name, attrs, []⟩

theorem run_parseStartElement {c : Cursor} (pool : StringPool) (hok : c.Ok w)
    (h : 28 ≤ c.rest.length) :
    ∃ name, (parseStartElement w pool).run c =
      (attributesReader w pool name (wordAt c.rest 16) (wordAt c.rest 18) (wordAt c.rest 20)).run
        (c.skip 28) := by
  obtain ⟨_, h₀⟩ := run_u32_skip (k := 0) hok (by omega)
  obtain ⟨_, h₄⟩ := run_u32_skip (k := 4) hok (by omega)
  obtain ⟨_, h₈⟩ := run_u32_skip (k := 8) hok (by omega)
  obtain ⟨nameIdx, h₁₂⟩ := run_u32_skip (k := 12) hok (by omega)
  obtain ⟨start, hstart, h₁₆⟩ := run_u16_skip (k := 16) hok (by omega)
  obtain ⟨size, hsize, h₁₈⟩ := run_u16_skip (k := 18) hok (by omega)
  obtain ⟨count, hcount, h₂₀⟩ := run_u16_skip (k := 20) hok (by omega)
  obtain ⟨_, -, h₂₂⟩ := run_u16_skip (k := 22) hok (by omega)
  obtain ⟨_, -, h₂₄⟩ := run_u16_skip (k := 24) hok (by omega)
  obtain ⟨_, -, h₂₆⟩ := run_u16_skip (k := 26) hok (by omega)
  refine ⟨(pool.get nameIdx).getD "", ?_⟩
  rw [← hstart, ← hsize, ← hcount]
  show (parseStartElement w pool).run (c.skip 0) = _
  unfold parseStartElement attributesReader
  simp only [StateT.run_bind, h₀, h₄, h₈, h₁₂, h₁₆, h₁₈, h₂₀, h₂₂, h₂₄, h₂₆, ok_bind]

/-- Behind the fixed fields, the reader is short of bytes exactly when fewer are there than are
declared. -/
theorem attributesReader_short_iff {c : Cursor} (pool : StringPool) (name : String)
    (start size count : Nat) (hok : c.Ok w) :
    (∃ e, Short e ∧ (attributesReader w pool name start size count).run c = .error e) ↔
      c.rest.length < (start - 20) + if size < 20 then 0 else count * size := by
  unfold attributesReader
  by_cases hsize : size < 20
  · simp only [if_pos hsize, Nat.add_zero]
    by_cases hgap : start - 20 ≤ c.rest.length
    · -- the gap is there, and the size is too small
      obtain ⟨_, hskip⟩ := (takes_skipPast start 20).full c hok hgap
      refine iff_of_false ?_ (Nat.not_lt.mpr hgap)
      rintro ⟨e, hshort, he⟩
      rw [StateT.run_bind, hskip, ok_bind] at he
      cases he
      exact not_short_tooSmall hshort
    · have hlt := Nat.lt_of_not_le hgap
      obtain ⟨e, hshort, he⟩ := (takes_skipPast start 20).wants c hok hlt
      refine iff_of_true ⟨e, hshort, ?_⟩ hlt
      rw [StateT.run_bind, he, error_bind]
  · simp only [if_neg hsize]
    have htakes : Takes w Short (skipPast w start 20 >>= fun _ => do
        let attrs ← parseAttrs w pool size count ∅
        return (⟨name, attrs, []⟩ : Element)) ((start - 20) + (count * size + 0)) :=
      (takes_skipPast start 20).bind fun _ =>
        (takes_parseAttrs pool (by omega) count ∅).bind fun _ => .pure _
    by_cases hall : (start - 20) + count * size ≤ c.rest.length
    · obtain ⟨el, hel⟩ := htakes.full c hok hall
      refine iff_of_false ?_ (Nat.not_lt.mpr hall)
      rintro ⟨e, -, he⟩
      rw [hel] at he
      cases he
    · have hlt := Nat.lt_of_not_le hall
      exact iff_of_true (htakes.wants c hok hlt) hlt

/-- The fixed fields of an element. -/
theorem wants_parseStartElement (pool : StringPool) :
    Wants w Short (parseStartElement w pool) 28 := by
  have hwants : Wants w Short (parseStartElement w pool)
      (4 + (4 + (4 + (4 + (2 + (2 + (2 + (2 + (2 + (2 + 0)))))))))) := by
    unfold parseStartElement
    exact takes_u32.bind_wants fun _ => takes_u32.bind_wants fun _ => takes_u32.bind_wants fun _ =>
      takes_u32.bind_wants fun _ => takes_u16.bind_wants fun _ => takes_u16.bind_wants fun _ =>
        takes_u16.bind_wants fun _ => takes_u16.bind_wants fun _ =>
          takes_u16.bind_wants fun _ => takes_u16.bind_wants fun _ => .zero _
  exact hwants

/-- The reader of an element is short of bytes exactly when what is ahead does not hold what the
element declares. -/
theorem parseStartElement_short_iff {c : Cursor} (pool : StringPool) (hok : c.Ok w) :
    (∃ e, Short e ∧ (parseStartElement w pool).run c = .error e) ↔ ¬ Contained c.rest := by
  by_cases h28 : 28 ≤ c.rest.length
  · obtain ⟨name, hrun⟩ := run_parseStartElement (w := w) pool hok h28
    have hlen : (c.skip 28).rest.length = c.rest.length - 28 := by
      rw [Cursor.rest_skip_eq_drop, List.length_drop]
    rw [hrun, attributesReader_short_iff pool name _ _ _ (hok.skip_of_le h28), hlen, Contained,
      attrsEnd]
    omega
  · have hlt := Nat.lt_of_not_le h28
    refine iff_of_true (wants_parseStartElement pool c hok hlt) ?_
    intro hcontained
    rw [Contained, attrsEnd] at hcontained
    omega

/-! ## The chunk in its file -/

/-- The chunk loop of `parse` comes to this cursor in this state. -/
inductive Reaches (w : PtrWidth) (data : Bytes) : Cursor → DocState → Prop where
  | start {c} (hheader : (fileHeader w).run (Cursor.new data) = .ok ((), c)) :
      Reaches w data c .init
  | next {c c' st st'} (h : Reaches w data c st) (hrem : 8 ≤ c.remaining)
      (hchunk : parseChunk w c st = .ok (c', st')) : Reaches w data c' st'

/-- From every cursor and state it comes to, the loop goes on to the result of `parse`. -/
theorem Reaches.parse_eq {data : Bytes} {c : Cursor} {st : DocState} (h : Reaches w data c st) :
    parse w data = parseChunks w c st >>= DocState.result := by
  induction h with
  | start hheader =>
    rw [parse, hheader, ok_bind]
    rfl
  | next _ hrem hchunk ih => rw [ih, parseChunks_of_ok hrem hchunk]

theorem Reaches.buf_eq {data : Bytes} {c : Cursor} {st : DocState} (h : Reaches w data c st) :
    c.buf = data := by
  induction h with
  | start hheader => exact Raw.keeps_fileHeader _ _ _ hheader
  | next _ _ hchunk ih =>
    obtain ⟨hbuf, -⟩ := Raw.parseChunk_advance hchunk
    rw [hbuf, ih]

/-- In these bytes, the loop comes to this chunk with this string pool. -/
structure Meets (w : PtrWidth) (data ch : Bytes) (pool : StringPool) (c : Cursor)
    (st : DocState) : Prop where
  addressable : data.length < w.size
  reached : Reaches w data c st
  pooled : st.pool = some pool
  ahead : ch <+: c.rest

/-- The element that a round of the loop pushes, or why it fails. -/
def yields (w : PtrWidth) (c : Cursor) (st : DocState) : Except Error (Option Element) :=
  (parseChunk w c st).map fun next => next.2.stack.head?

theorem rest_behind_header {c : Cursor} {ty headerSize : UInt16} {body suf : Bytes}
    (hrest : c.rest = chunkBytes ty headerSize body ++ suf) : (c.skip 8).rest = body ++ suf := by
  rw [Cursor.rest_skip_eq_drop, hrest]
  rfl

/-- What a START chunk yields is what the reader of an element makes of what stands behind the chunk
header. -/
theorem Meets.yields_eq {data body : Bytes} {headerSize : UInt16} {pool : StringPool} {c : Cursor}
    {st : DocState} (h : Meets w data (chunkBytes RES_XML_START_ELEMENT headerSize body) pool c st)
    (hlen : 8 + body.length < 2 ^ 32) :
    (c.skip 8).Ok w ∧ body <+: (c.skip 8).rest ∧
      yields w c st
        = ((parseStartElement w pool).run (c.skip 8)).map fun read => some read.1 := by
  obtain ⟨suf, hrest⟩ := h.ahead
  have hok : c.Ok w := by
    have hpos := congrArg List.length hrest
    rw [List.length_append, length_chunkBytes, Cursor.length_rest_eq, Cursor.remaining] at hpos
    refine ⟨by omega, ?_⟩
    rw [h.reached.buf_eq]
    exact h.addressable
  have hbody : (c.skip 8).rest = body ++ suf := rest_behind_header hrest.symm
  refine ⟨hok.skip_of_le ?_, ⟨suf, hbody.symm⟩, ?_⟩
  · rw [← hrest, List.length_append, length_chunkBytes]
    omega
  · have hhandle : handleChunk w RES_XML_START_ELEMENT c.pos (c.pos + (8 + body.length))
        (c.skip 8) st = ((parseStartElement w pool).run (c.skip 8)).map
          fun read => { st with stack := read.1 :: st.stack } := by
      rw [handleChunk, if_neg (by decide), if_pos rfl, h.pooled]
      dsimp only
      cases (parseStartElement w pool).run (c.skip 8) <;> rfl
    rw [yields, parseChunk_chunkBytes st hok hrest.symm hlen, hhandle]
    cases (parseStartElement w pool).run (c.skip 8) <;> rfl

/-- When the chunk holds what its element declares, the element is made of the chunk alone. -/
theorem Meets.yields_of_contained {data body : Bytes} {headerSize : UInt16} {pool : StringPool}
    {c : Cursor} {st : DocState}
    (h : Meets w data (chunkBytes RES_XML_START_ELEMENT headerSize body) pool c st)
    (hlen : 8 + body.length < 2 ^ 32) (hcontained : Contained body) :
    yields w c st
      = ((parseStartElement w pool).run (Cursor.new body)).map fun read => some read.1 := by
  obtain ⟨hok, ⟨suf, hrest⟩, hyields⟩ := h.yields_eq hlen
  have hstable : Stable w Short (parseStartElement w pool) := stable_parseStartElement pool
  rw [hyields]
  cases hown : (parseStartElement w pool).run (Cursor.new body) with
  | ok read =>
    obtain ⟨el, d⟩ := read
    obtain ⟨k, -, -, hrun⟩ := hstable.ok hok hrest.symm hown
    rw [hrun]
    rfl
  | error e =>
    have hshort : ¬ Short e := by
      intro hshort
      have hnot := (parseStartElement_short_iff (w := w) pool (hok.new hrest.symm)).mp
        ⟨e, hshort, hown⟩
      exact hnot hcontained
    rw [hstable.error hok hrest.symm hown hshort]

/-! ## A file around a chunk -/

theorem noExtra_lt : 8 + ([] : Bytes).length < 2 ^ 16 := by decide

/-- A file header, a string pool, the chunk `ch` and whatever stands behind it. -/
def fileAround (poolHeader : UInt16) (poolBody ch suf : Bytes) : Bytes :=
  (⟨3, 0, [], [], noExtra_lt⟩ : Document).header
    ++ (chunkBytes RES_STRING_POOL_TYPE poolHeader poolBody ++ (ch ++ suf))

theorem meets_fileAround {poolHeader : UInt16} {poolBody ch suf : Bytes} {pool : StringPool}
    (hpoolLen : 8 + poolBody.length < 2 ^ 32)
    (hpool : StringPool.parse w (chunkBytes RES_STRING_POOL_TYPE poolHeader poolBody) = .ok pool)
    (hfit : (fileAround poolHeader poolBody ch suf).length < w.size) :
    ∃ c st, Meets w (fileAround poolHeader poolBody ch suf) ch pool c st ∧ c.rest = ch ++ suf := by
  let d : Document := ⟨3, 0, [], [], noExtra_lt⟩
  let poolChunk := chunkBytes RES_STRING_POOL_TYPE poolHeader poolBody
  let c : Cursor := (Cursor.new (fileAround poolHeader poolBody ch suf)).skip d.header.length
  have hnew : (Cursor.new (fileAround poolHeader poolBody ch suf)).Ok w := ⟨Nat.zero_le _, hfit⟩
  have hreached : Reaches w (fileAround poolHeader poolBody ch suf) c .init :=
    .start (consumes_fileHeader d _ _ hnew rfl)
  have hok : c.Ok w := hnew.skip rfl
  have hrest : c.rest = poolChunk ++ (ch ++ suf) := Cursor.rest_skip rfl
  have hlen : poolChunk.length = 8 + poolBody.length := length_chunkBytes _ _ _
  have hslice : (c.buf.take (c.pos + (8 + poolBody.length))).drop c.pos = poolChunk := by
    rw [List.drop_take, Nat.add_sub_cancel_left]
    show c.rest.take _ = _
    rw [hrest, ← hlen, List.take_left]
  have hhandle : handleChunk w RES_STRING_POOL_TYPE c.pos (c.pos + (8 + poolBody.length))
      (c.skip 8) .init = .ok ⟨some pool, [], none⟩ := by
    rw [handleChunk, if_pos rfl, Cursor.buf_skip, hslice, hpool]
    rfl
  have hchunk : parseChunk w c .init = .ok (c.skip poolChunk.length, ⟨some pool, [], none⟩) := by
    rw [parseChunk_chunkBytes .init hok hrest hpoolLen, hhandle, hlen]
    rfl
  have hrem : 8 ≤ c.remaining := by
    rw [← Cursor.length_rest_eq, hrest, List.length_append, hlen]
    omega
  have hahead : (c.skip poolChunk.length).rest = ch ++ suf := Cursor.rest_skip hrest
  exact ⟨_, _, ⟨hfit, .next hreached hrem hchunk, rfl, ⟨suf, hahead.symm⟩⟩, hahead⟩

/-! ## Which elements are made of their own chunk -/

/-- The START chunk with this body yields the same wherever a file has it under the same string pool,
and fails wherever its element declares more than it holds. -/
structure DecodedFromOwnChunk (pool : StringPool) (headerSize : UInt16) (body : Bytes) : Prop where
  same : ∀ {w data₁ data₂ c₁ c₂ st₁ st₂},
    Meets w data₁ (chunkBytes RES_XML_START_ELEMENT headerSize body) pool c₁ st₁ →
    Meets w data₂ (chunkBytes RES_XML_START_ELEMENT headerSize body) pool c₂ st₂ →
    yields w c₁ st₁ = yields w c₂ st₂
  overrun : ¬ Contained body → ∀ {w data c st},
    Meets w data (chunkBytes RES_XML_START_ELEMENT headerSize body) pool c st →
    ∃ e, yields w c st = .error e

/-- With enough bytes behind it, no element is short of bytes. -/
theorem contained_append_replicate (body : Bytes) :
    Contained (body ++ List.replicate (2 ^ 33) 0) := by
  have hword : ∀ (xs : Bytes) (i : Nat), wordAt xs i ≤ 65535 := by
    intro xs i
    have := (u16OfLe (xs.getD i 0) (xs.getD (i + 1) 0)).toNat_lt
    rw [wordAt]
    omega
  have hlen : (body ++ List.replicate (2 ^ 33) (0 : UInt8)).length = body.length + 2 ^ 33 := by
    rw [List.length_append, List.length_replicate]
  generalize body ++ List.replicate (2 ^ 33) (0 : UInt8) = xs at hlen
  have hmul : wordAt xs 20 * wordAt xs 18 ≤ 65535 * 65535 :=
    Nat.mul_le_mul (hword xs 20) (hword xs 18)
  have hstart := hword xs 16
  rw [Contained, attrsEnd, hlen]
  split
  · omega
  · omega

/-- A START chunk is decoded from its own bytes exactly when it holds what its element declares. -/
theorem decoded_from_own_chunk_iff {pool : StringPool} (headerSize : UInt16) {body : Bytes}
    (hlen : 8 + body.length < 2 ^ 32) {poolHeader : UInt16} {poolBody : Bytes}
    (hpoolLen : 8 + poolBody.length < 2 ^ 32)
    (hpool : StringPool.parse .w64 (chunkBytes RES_STRING_POOL_TYPE poolHeader poolBody)
      = .ok pool) :
    DecodedFromOwnChunk pool headerSize body ↔ Contained body := by
  constructor
  · intro hown
    by_contra hnot
    -- the chunk at the end of a file, and with many zeros behind it
    have hfit : ∀ suf : Bytes, suf.length ≤ 2 ^ 33 → (fileAround poolHeader poolBody
        (chunkBytes RES_XML_START_ELEMENT headerSize body) suf).length < PtrWidth.size .w64 := by
      intro suf hsuf
      simp only [fileAround, List.length_append, length_chunkBytes, PtrWidth.size]
      simp only [Document.header, List.length_append, length_le16, length_le32, List.length_nil]
      omega
    obtain ⟨c₁, st₁, hmeets₁, hrest₁⟩ := meets_fileAround hpoolLen hpool (hfit [] (Nat.zero_le _))
    obtain ⟨c₂, st₂, hmeets₂, hrest₂⟩ := meets_fileAround hpoolLen hpool
      (hfit (List.replicate (2 ^ 33) 0) (by rw [List.length_replicate]))
    obtain ⟨hok₁, -, hyields₁⟩ := hmeets₁.yields_eq hlen
    obtain ⟨hok₂, -, hyields₂⟩ := hmeets₂.yields_eq hlen
    have hsame := hown.same hmeets₁ hmeets₂
    have hshort₁ : ¬ Contained (c₁.skip 8).rest := by
      rwa [rest_behind_header hrest₁, List.append_nil]
    obtain ⟨e, hshort, he⟩ := (parseStartElement_short_iff pool hok₁).mpr hshort₁
    rw [hyields₁, hyields₂, he] at hsame
    have he₂ : (parseStartElement .w64 pool).run (c₂.skip 8) = .error e := by
      cases hrun : (parseStartElement .w64 pool).run (c₂.skip 8) with
      | ok read =>
        rw [hrun] at hsame
        cases hsame
      | error e₂ =>
        rw [hrun] at hsame
        cases hsame
        rfl
    have hshort₂ := (parseStartElement_short_iff pool hok₂).mp ⟨e, hshort, he₂⟩
    rw [rest_behind_header hrest₂] at hshort₂
    exact hshort₂ (contained_append_replicate body)
  · intro hcontained
    constructor
    · intro w data₁ data₂ c₁ c₂ st₁ st₂ h₁ h₂
      rw [h₁.yields_of_contained hlen hcontained, h₂.yields_of_contained hlen hcontained]
    · intro hnot
      exact absurd hcontained hnot

/-- The root of the small manifest is made of its own chunk. -/
theorem decoded_from_own_chunk_smallRoot :
    DecodedFromOwnChunk ⟨smallPool.strings⟩ smallRoot.headerSize smallRoot.body :=
  (decoded_from_own_chunk_iff smallRoot.headerSize (by decide) (by decide)
    (parse_pool smallPool_fits (by decide))).mpr (by decide)

/-! ### A package name from the next chunk -/

def borrowedPool : PoolChunk :=
  ⟨28, 0, UTF8_FLAG, 0, ["manifest", "package", "com.shown", "com.other"], []⟩

/-- One attribute, which starts behind the 36 bytes of the chunk and the header of the next one. -/
def borrowingBody : Bytes :=
  le32 1 ++ le32 0xFFFFFFFF ++ le32 0xFFFFFFFF ++ le32 0 ++ le16 28 ++ le16 20 ++ le16 1
    ++ le16 0 ++ le16 0 ++ le16 0

/-- A chunk of no known type that holds an attribute record, and the END chunk. -/
def lender (package : UInt32) : Bytes :=
  chunkBytes 0x0180 8
    (AttrEntry.bytes ⟨0xFFFFFFFF, 1, package, 8, 0, TYPE_STRING, package, []⟩)
    ++ (Chunk.close (smallEnd 0)).bytes

def borrowingFile (package : UInt32) : Bytes :=
  fileAround borrowedPool.headerSize borrowedPool.body
    (chunkBytes RES_XML_START_ELEMENT 16 borrowingBody) (lender package)

/-- Where the chunk stands in such a file, it yields what the reader makes of it together with what
stands behind it. -/
theorem meets_borrowingFile (package : UInt32) (name : String)
    (hfit : (borrowingFile package).length < PtrWidth.size .w64)
    (hown : ((parseStartElement .w64 ⟨borrowedPool.strings⟩).run
      (Cursor.new (borrowingBody ++ lender package))).map (fun read => read.1.attrStr "package")
        = .ok (some name)) :
    ∃ c st el, Meets .w64 (borrowingFile package)
        (chunkBytes RES_XML_START_ELEMENT 16 borrowingBody) ⟨borrowedPool.strings⟩ c st ∧
      yields .w64 c st = .ok (some el) ∧ el.attrStr "package" = some name := by
  have hpool : StringPool.parse .w64
      (chunkBytes RES_STRING_POOL_TYPE borrowedPool.headerSize borrowedPool.body)
        = .ok ⟨borrowedPool.strings⟩ := by
    apply parse_pool
    · show ∀ s ∈ borrowedPool.strings, borrowedPool.encoding.Fits s
      decide
    · decide
  obtain ⟨c, st, hmeets, hrest⟩ := meets_fileAround (by decide) hpool hfit
  obtain ⟨⟨el, d⟩, hread, hname⟩ := map_eq_ok.mp hown
  obtain ⟨hok, -, hyields⟩ := hmeets.yields_eq (by decide)
  have hbehind : (c.skip 8).rest = (borrowingBody ++ lender package) ++ [] := by
    rw [rest_behind_header hrest, List.append_nil]
  obtain ⟨k, -, -, hrun⟩ := (stable_parseStartElement _).ok hok hbehind hread
  refine ⟨c, st, el, hmeets, ?_, hname⟩
  rw [hyields, hrun]
  rfl

/-- The same START chunk gives the manifest two packages, by what follows it. -/
theorem borrowed_package :
    (parse .w64 (borrowingFile 2)).map (·.attrStr "package") = .ok (some "com.shown") ∧
      (parse .w64 (borrowingFile 3)).map (·.attrStr "package") = .ok (some "com.other") ∧
      ¬ DecodedFromOwnChunk ⟨borrowedPool.strings⟩ 16 borrowingBody := by
  refine ⟨by decide +kernel, by decide +kernel, ?_⟩
  intro hown
  obtain ⟨c₁, st₁, el₁, hmeets₁, hyields₁, hname₁⟩ :=
    meets_borrowingFile 2 "com.shown" (by decide +kernel) (by decide)
  obtain ⟨c₂, st₂, el₂, hmeets₂, hyields₂, hname₂⟩ :=
    meets_borrowingFile 3 "com.other" (by decide +kernel) (by decide)
  have hsame := hown.same hmeets₁ hmeets₂
  rw [hyields₁, hyields₂] at hsame
  cases hsame
  rw [hname₁] at hname₂
  exact absurd hname₂ (by decide)

end Xylitol.Apk.Axml
