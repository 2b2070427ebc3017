import Xylitol.Apk.Axml.RoundTrip
import Xylitol.Apk.Manifest

/-!
# Binary XML: a document cut short

What the reader makes of the first `k` bytes of a document. A cut inside a chunk, behind that
chunk's header, is noticed; a cut that leaves fewer than eight bytes ends the chunk loop as if the
document were over, and then the innermost element still open is returned:

    header   pool   START root   START child │ END child   END root
                                             cut here: the child is returned

`Outline` is the loop with everything forgotten but which START chunks are open and which one closed
last at the bottom. The loop's state follows the outline (`DocState.Follows`), the outline of every
prefix of a document is known (`outline_describes`), and together they say exactly which cuts are
harmless: `cutHarmless_iff`.
-/

namespace Xylitol.Apk.Axml

variable {w : PtrWidth} {strings : List String}

/-! ## Where a cut falls -/

/-- The chunks that lie wholly within the first `n` bytes of a chunk sequence, and what is there of
the chunk after them. -/
def wholeChunks : List Chunk → Nat → List Chunk × Bytes
  | [], _ => ([], [])
  | ch :: cs, n =>
    if ch.bytes.length ≤ n then
      (ch :: (wholeChunks cs (n - ch.bytes.length)).1, (wholeChunks cs (n - ch.bytes.length)).2)
    else ([], ch.bytes.take n)

/-- Cutting a chunk sequence leaves its whole chunks and the beginning of one more. -/
theorem take_chunksBytes (cs : List Chunk) (n : Nat) :
    (chunksBytes cs).take n = chunksBytes (wholeChunks cs n).1 ++ (wholeChunks cs n).2 := by
  induction cs generalizing n with
  | nil => exact List.take_nil
  | cons ch cs ih =>
      rw [chunksBytes_cons, wholeChunks]
      split
      · next hle =>
          rw [List.take_append, List.take_of_length_le hle, ih, chunksBytes_cons,
            List.append_assoc]
      · next hlt =>
          rw [List.take_append_of_le_length (by omega)]
          rfl

theorem prefix_wholeChunks (cs : List Chunk) (n : Nat) : (wholeChunks cs n).1 <+: cs := by
  induction cs generalizing n with
  | nil => exact List.prefix_rfl
  | cons ch cs ih =>
      rw [wholeChunks]
      split
      · exact (List.prefix_cons_inj ch).mpr (ih _)
      · exact List.nil_prefix

/-- What is left behind the whole chunks is nothing, or a strict prefix of the next chunk. -/
theorem wholeChunks_rest (cs : List Chunk) (n : Nat) :
    (wholeChunks cs n).2 = [] ∨
      ∃ ch ∈ cs, ∃ r < ch.bytes.length, (wholeChunks cs n).2 = ch.bytes.take r := by
  induction cs generalizing n with
  | nil => exact Or.inl rfl
  | cons ch cs ih =>
      rw [wholeChunks]
      split
      · rcases ih (n - ch.bytes.length) with h | ⟨ch', hmem, r, hr, h⟩
        · exact Or.inl h
        · exact Or.inr ⟨ch', List.mem_cons_of_mem _ hmem, r, hr, h⟩
      · next hlt => exact Or.inr ⟨ch, List.mem_cons_self, n, by omega, rfl⟩

theorem wholeChunks_all (cs : List Chunk) {n : Nat} (h : (chunksBytes cs).length ≤ n) :
    (wholeChunks cs n).1 = cs := by
  induction cs generalizing n with
  | nil => rfl
  | cons ch cs ih =>
      rw [chunksBytes_cons, List.length_append] at h
      rw [wholeChunks, if_pos (by omega), ih (by omega)]

namespace Document

/-- The chunks lying wholly within the first `k` bytes of the document. -/
def wholeAt (d : Document) (k : Nat) : List Chunk :=
  (wholeChunks d.chunks (k - d.header.length)).1

/-- What the first `k` bytes hold of the chunk after those. -/
def leftAt (d : Document) (k : Nat) : Bytes :=
  (wholeChunks d.chunks (k - d.header.length)).2

theorem take_bytes {d : Document} {k : Nat} (h : d.header.length ≤ k) :
    d.bytes.take k = d.header ++ (chunksBytes (d.wholeAt k) ++ d.leftAt k) := by
  rw [bytes, List.take_append, List.take_of_length_le h, take_chunksBytes]
  rfl

end Document

/-! ## The outline of a chunk sequence -/

/-- Which START chunks are open, innermost first, and which one the bottom element that closed last
was opened by. -/
structure Outline where
  opens : List StartChunk
  closed : Option StartChunk

namespace Outline

def init : Outline := ⟨[], none⟩

def apply (o : Outline) : Chunk → Outline
  | .start s => { o with opens := s :: o.opens }
  | .close _ =>
    match o.opens with
    | [] => o
    | [s] => ⟨[], some s⟩
    | _ :: parent :: rest => { o with opens := parent :: rest }
  | _ => o

def run (o : Outline) (cs : List Chunk) : Outline := cs.foldl apply o

@[simp] theorem run_nil (o : Outline) : o.run [] = o := rfl

@[simp] theorem run_cons (o : Outline) (ch : Chunk) (cs : List Chunk) :
    o.run (ch :: cs) = (o.apply ch).run cs := rfl

theorem run_append (o : Outline) (cs ds : List Chunk) :
    o.run (cs ++ ds) = (o.run cs).run ds := List.foldl_append

theorem run_others (o : Outline) {cs : List Chunk} (h : ∀ ch ∈ cs, ∃ x, ch = .other x) :
    o.run cs = o := by
  induction cs with
  | nil => rfl
  | cons ch cs ih =>
      obtain ⟨x, rfl⟩ := h ch List.mem_cons_self
      exact ih (fun ch hch => h ch (List.mem_cons_of_mem _ hch))

end Outline

/-- The element carries the tag and the attributes the START chunk opened it with. -/
structure OpenedBy (strings : List String) (s : StartChunk) (el : Element) : Prop where
  name : el.name = (s.element ⟨strings⟩).name
  attrs : el.attrs = (s.element ⟨strings⟩).attrs

/-- The state of the loop has the elements the outline has START chunks for. -/
structure DocState.Follows (strings : List String) (st : DocState) (o : Outline) : Prop where
  stack : List.Forall₂ (OpenedBy strings) o.opens st.stack
  root : Option.Rel (OpenedBy strings) o.closed st.root

theorem DocState.follows_init : DocState.init.Follows strings .init := ⟨.nil, .none⟩

/-- One chunk of a tree keeps the state following its outline. -/
theorem Chunk.apply_follows {st : DocState} {o : Outline} {ch : Chunk}
    (hpool : st.pool = some ⟨strings⟩) (hst : st.Follows strings o) (hch : ch.Sound strings) :
    ∃ st', ch.apply st = some st' ∧ st'.pool = some ⟨strings⟩ ∧
      st'.Follows strings (o.apply ch) := by
  obtain ⟨pool, stack, root⟩ := st
  obtain rfl : pool = some ⟨strings⟩ := hpool
  cases ch with
  | pool p => exact absurd hch id
  | start s => exact ⟨_, rfl, rfl, .cons ⟨rfl, rfl⟩ hst.stack, hst.root⟩
  | other x => exact ⟨_, rfl, rfl, hst⟩
  | close e =>
      refine ⟨_, rfl, ?_⟩
      obtain ⟨opens, closed⟩ := o
      obtain ⟨hstack, hroot⟩ := hst
      -- nothing open, one element open, or a parent below the closing element
      cases hstack with
      | nil => exact ⟨rfl, .nil, hroot⟩
      | cons hdone hrest =>
          cases hrest with
          | nil => exact ⟨rfl, .nil, .some hdone⟩
          | cons hparent hrest => exact ⟨rfl, .cons ⟨hparent.name, hparent.attrs⟩ hrest, hroot⟩

theorem runChunks_follows {st : DocState} {o : Outline} {cs : List Chunk}
    (hpool : st.pool = some ⟨strings⟩) (hst : st.Follows strings o)
    (hcs : ∀ ch ∈ cs, ch.Sound strings) :
    ∃ st', runChunks st cs = some st' ∧ st'.Follows strings (o.run cs) := by
  induction cs generalizing st o with
  | nil => exact ⟨st, rfl, hst⟩
  | cons ch cs ih =>
      obtain ⟨st₁, happly, hpool₁, hst₁⟩ :=
        Chunk.apply_follows hpool hst (hcs ch List.mem_cons_self)
      obtain ⟨st₂, hrun, hst₂⟩ := ih hpool₁ hst₁ (fun ch hch => hcs ch (List.mem_cons_of_mem _ hch))
      refine ⟨st₂, ?_, hst₂⟩
      rw [runChunks_cons, happly, Option.bind_some, hrun]

/-! ## The outline of a document, cut anywhere -/

theorem prefix_append_cases {α : Type} {pre l₁ l₂ : List α} (h : pre <+: l₁ ++ l₂) :
    pre <+: l₁ ∨ ∃ pre', pre = l₁ ++ pre' ∧ pre' <+: l₂ := by
  rcases List.prefix_or_prefix_of_prefix h (List.prefix_append l₁ l₂) with h₁ | ⟨pre', rfl⟩
  · exact Or.inl h₁
  · exact Or.inr ⟨pre', rfl, (List.prefix_append_right_inj l₁).mp h⟩

mutual

/-- Inside an open element, a child leaves the outline as it was, and a part of a child leaves that
element open. -/
theorem Spells.outline {cs : List Chunk} {el : Element} :
    Spells strings cs el → ∀ (s : StartChunk) (os : List StartChunk) (c : Option StartChunk),
      Outline.run ⟨s :: os, c⟩ cs = ⟨s :: os, c⟩ ∧
        ∀ pre, pre <+: cs → ∃ xs, Outline.run ⟨s :: os, c⟩ pre = ⟨xs ++ s :: os, c⟩
  | @Spells.mk _ s' e body name attrs children _ hall, s, os, c => by
      obtain ⟨hfull, hpre⟩ := SpellsAll.outline hall s' (s :: os) c
      have hall' : Outline.run ⟨s :: os, c⟩ (.start s' :: (body ++ [.close e])) = ⟨s :: os, c⟩ := by
        show Outline.run ⟨s' :: s :: os, c⟩ (body ++ [.close e]) = _
        rw [Outline.run_append, hfull]
        rfl
      refine ⟨hall', ?_⟩
      intro pre h
      rcases List.prefix_cons_iff.mp h with rfl | ⟨pre, rfl, htail⟩
      · exact ⟨[], rfl⟩
      rcases prefix_append_cases htail with hbody | ⟨pre, rfl, hend⟩
      · obtain ⟨xs, hxs⟩ := hpre pre hbody
        refine ⟨xs ++ [s'], ?_⟩
        rw [List.append_assoc]
        exact hxs
      · rcases List.prefix_cons_iff.mp hend with rfl | ⟨pre, rfl, hnil⟩
        · refine ⟨[s'], ?_⟩
          rw [List.append_nil]
          exact hfull
        · rw [List.prefix_nil.mp hnil]
          exact ⟨[], hall'⟩

theorem SpellsAll.outline {cs : List Chunk} {els : List Element} :
    SpellsAll strings cs els → ∀ (s : StartChunk) (os : List StartChunk) (c : Option StartChunk),
      Outline.run ⟨s :: os, c⟩ cs = ⟨s :: os, c⟩ ∧
        ∀ pre, pre <+: cs → ∃ xs, Outline.run ⟨s :: os, c⟩ pre = ⟨xs ++ s :: os, c⟩
  | .nil, s, os, c => by
      refine ⟨rfl, ?_⟩
      intro pre h
      rw [List.prefix_nil.mp h]
      exact ⟨[], rfl⟩
  | .other hcs, s, os, c => by
      obtain ⟨hfull, hpre⟩ := SpellsAll.outline hcs s os c
      refine ⟨hfull, ?_⟩
      intro pre h
      rcases List.prefix_cons_iff.mp h with rfl | ⟨pre, rfl, htail⟩
      · exact ⟨[], rfl⟩
      · exact hpre pre htail
  | .cons hel hels, s, os, c => by
      obtain ⟨hfull₁, hpre₁⟩ := Spells.outline hel s os c
      obtain ⟨hfull₂, hpre₂⟩ := SpellsAll.outline hels s os c
      refine ⟨?_, ?_⟩
      · rw [Outline.run_append, hfull₁, hfull₂]
      · intro pre h
        rcases prefix_append_cases h with hhead | ⟨pre, rfl, htail⟩
        · exact hpre₁ pre hhead
        · rw [Outline.run_append, hfull₁]
          exact hpre₂ pre htail

end

/-- The three stages of reading a tree opened by `root`: not begun, inside it, done. -/
inductive Outline.Stage (root : StartChunk) : Outline → Prop where
  | before : Stage root ⟨[], none⟩
  | inside (xs : List StartChunk) : Stage root ⟨xs ++ [root], none⟩
  | after : Stage root ⟨[], some root⟩

/-- The outline of every part of a tree is at one of the three stages. -/
theorem Spells.stage {cs : List Chunk} {el : Element} (h : Spells strings cs el) :
    ∃ root, Opens strings root el.name el.attrs ∧ Outline.init.run cs = ⟨[], some root⟩ ∧
      ∀ pre, pre <+: cs → (Outline.init.run pre).Stage root := by
  cases h with
  | @mk root e body name attrs children hopen hall =>
      obtain ⟨hfull, hpre⟩ := SpellsAll.outline hall root [] none
      have hrun : Outline.init.run (.start root :: (body ++ [.close e])) = ⟨[], some root⟩ := by
        show Outline.run ⟨[root], none⟩ (body ++ [.close e]) = _
        rw [Outline.run_append, hfull]
        rfl
      refine ⟨root, hopen, hrun, ?_⟩
      intro pre h
      rcases List.prefix_cons_iff.mp h with rfl | ⟨pre, rfl, htail⟩
      · exact .before
      rcases prefix_append_cases htail with hbody | ⟨pre, rfl, hend⟩
      · obtain ⟨xs, hxs⟩ := hpre pre hbody
        show (Outline.run ⟨[root], none⟩ pre).Stage root
        rw [hxs]
        exact .inside xs
      · rcases List.prefix_cons_iff.mp hend with rfl | ⟨pre, rfl, hnil⟩
        · show (Outline.run ⟨[root], none⟩ (body ++ [])).Stage root
          rw [List.append_nil, hfull]
          exact .inside []
        · rw [List.prefix_nil.mp hnil, hrun]
          exact .after

/-- An open START chunk is one of those the outline went over. -/
theorem Outline.mem_opens_run {o : Outline} {cs : List Chunk} {s : StartChunk}
    (h : s ∈ (o.run cs).opens) : s ∈ o.opens ∨ .start s ∈ cs := by
  induction cs generalizing o with
  | nil => exact Or.inl h
  | cons ch cs ih =>
      rcases ih h with h | h
      · cases ch with
        | pool p => exact Or.inl h
        | other x => exact Or.inl h
        | start s' =>
            rcases List.mem_cons.mp h with rfl | h
            · exact Or.inr List.mem_cons_self
            · exact Or.inl h
        | close e =>
            obtain ⟨opens, closed⟩ := o
            match opens, h with
            | [], h => exact Or.inl h
            | _ :: _ :: _, h => exact Or.inl (List.mem_cons_of_mem _ h)
      · exact Or.inr (List.mem_cons_of_mem _ h)

/-- The strings of the document's pool. -/
def Document.pooled (d : Document) : List String :=
  (d.chunks.findSome? fun
    | .pool p => some p.strings
    | _ => none).getD []

theorem Document.pooled_eq {d : Document} {before : List OtherChunk} {p : PoolChunk}
    {cs : List Chunk} (h : d.chunks = before.map .other ++ (.pool p :: cs)) :
    d.pooled = p.strings := by
  have hnone : ∀ os : List OtherChunk, (os.map Chunk.other).findSome? (fun
      | .pool p => some p.strings
      | _ => none) = none := by
    intro os
    rw [List.findSome?_eq_none_iff]
    intro ch hch
    obtain ⟨o, rfl⟩ := others_of_mem_map ch hch
    rfl
  rw [Document.pooled, h, List.findSome?_append, hnone]
  rfl

/-- What holds of the loop after the first chunks of a document. -/
structure CutState (strings : List String) (root : StartChunk) (whole : List Chunk) : Prop where
  stage : (Outline.init.run whole).Stage root
  opens : ∀ s ∈ (Outline.init.run whole).opens, ∃ name attrs, Opens strings s name attrs
  run : ∃ st, runChunks .init whole = some st ∧ st.Follows strings (Outline.init.run whole)

theorem CutState.of_others (root : StartChunk) {whole : List Chunk}
    (h : ∀ ch ∈ whole, ∃ o, ch = .other o) : CutState strings root whole := by
  have hout : Outline.init.run whole = Outline.init := Outline.run_others _ h
  refine ⟨?_, ?_, .init, runChunks_others _ h, ?_⟩
  · rw [hout]
    exact .before
  · intro s hs
    rw [hout] at hs
    exact absurd hs List.not_mem_nil
  · rw [hout]
    exact DocState.follows_init

/-- Behind the pool: the outline of the whole is that of the part of the tree it has. -/
theorem CutState.of_tree {root : StartChunk} {before : List OtherChunk} {p : PoolChunk}
    {pre : List Chunk} (hsound : ∀ ch ∈ pre, ch.Sound p.strings)
    (hstage : (Outline.init.run pre).Stage root) :
    CutState p.strings root (before.map .other ++ (.pool p :: pre)) := by
  have hout : Outline.init.run (before.map .other ++ (.pool p :: pre)) = Outline.init.run pre := by
    rw [Outline.run_append, Outline.run_others _ others_of_mem_map]
    rfl
  have hrun : runChunks .init (before.map .other ++ (.pool p :: pre))
      = runChunks ⟨some ⟨p.strings⟩, [], none⟩ pre := by
    have := runChunks_pool before [] p pre
    simpa using this
  refine ⟨?_, ?_, ?_⟩
  · rw [hout]
    exact hstage
  · intro s hs
    rw [hout] at hs
    rcases Outline.mem_opens_run hs with hs | hs
    · exact absurd hs List.not_mem_nil
    · exact hsound _ hs
  · rw [hout, hrun]
    exact runChunks_follows rfl ⟨.nil, .none⟩ hsound

/-- Every part of a document that describes a tree leaves the loop in a known state, and all of it
leaves nothing open. -/
theorem Document.Describes.cutState {d : Document} {t : Element} (h : d.Describes t) :
    ∃ root, Opens d.pooled root t.name t.attrs ∧ (Outline.init.run d.chunks).opens = [] ∧
      ∀ whole, whole <+: d.chunks → CutState d.pooled root whole := by
  obtain ⟨before, between, after, p, body, hchunks, hp, hspells⟩ := h.shape
  obtain ⟨root, hroot, hdone, hstage⟩ := hspells.stage
  rw [Document.pooled_eq hchunks]
  have hall : Outline.init.run d.chunks = ⟨[], some root⟩ := by
    rw [hchunks, Outline.run_append, Outline.run_others _ others_of_mem_map]
    show Outline.init.run (between.map .other ++ (body ++ after.map .other)) = _
    rw [Outline.run_append, Outline.run_others _ others_of_mem_map, Outline.run_append, hdone,
      Outline.run_others _ others_of_mem_map]
  refine ⟨root, hroot, by rw [hall], ?_⟩
  -- the cut is in front of the pool, right behind it, or further on
  intro whole hwhole
  rw [hchunks] at hwhole
  rcases prefix_append_cases hwhole with hbefore | ⟨whole, rfl, htail⟩
  · exact .of_others root (fun ch hch => others_of_mem_map ch (hbefore.subset hch))
  rcases List.prefix_cons_iff.mp htail with rfl | ⟨pre, rfl, hpre⟩
  · exact .of_others root (fun ch hch => others_of_mem_map ch (by simpa using hch))
  refine .of_tree (fun ch hch => tree_sound hspells ch (hpre.subset hch)) ?_
  -- foreign chunks, then a part of the tree, or the whole tree and foreign chunks again
  rcases prefix_append_cases hpre with hbetween | ⟨pre, rfl, htree⟩
  · rw [Outline.run_others _ (fun ch hch => others_of_mem_map ch (hbetween.subset hch))]
    exact .before
  rw [Outline.run_append, Outline.run_others _ others_of_mem_map]
  rcases prefix_append_cases htree with hbody | ⟨pre, rfl, hafter⟩
  · exact hstage pre hbody
  rw [Outline.run_append, hdone,
    Outline.run_others _ (fun ch hch => others_of_mem_map ch (hafter.subset hch))]
  exact .after

/-! ## What the reader makes of a cut -/

/-- The result of a finished loop, read off its outline: the innermost open element, else the root
that closed, else nothing. -/
theorem result_of_stage {st : DocState} {o : Outline} {root : StartChunk}
    (hst : st.Follows strings o) (h : o.Stage root) :
    (o.opens = [] ∧ ∃ e, st.result = .error e) ∨
      ∃ el, st.result = .ok el ∧ OpenedBy strings (o.opens.headD root) el := by
  obtain ⟨pool, stack, r⟩ := st
  obtain ⟨hstack, hroot⟩ := hst
  cases h with
  | before =>
      cases hstack
      cases hroot
      exact Or.inl ⟨rfl, _, rfl⟩
  | inside xs =>
      cases hroot
      obtain ⟨s, rest, hs⟩ : ∃ s rest, xs ++ [root] = s :: rest := by
        cases xs with
        | nil => exact ⟨root, [], rfl⟩
        | cons x xs => exact ⟨x, xs ++ [root], rfl⟩
      rw [hs] at hstack ⊢
      cases hstack with
      | cons hhead _ => exact Or.inr ⟨_, rfl, hhead⟩
  | after =>
      cases hstack
      cases hroot with
      | some hel => exact Or.inr ⟨_, rfl, hel⟩

theorem starves_take (n : Nat) {xs : Bytes} (h : xs.length = n) : Starves w (take w n) xs := by
  intro c r hok hr hrest
  have hlen := hok.length_rest
  rw [hrest, List.length_take, Nat.min_eq_left (Nat.le_of_lt hr)] at hlen
  show ∃ e, take w n c = .error e
  unfold take
  split
  · exact ⟨_, rfl⟩
  · next stop hstop =>
      have hstop := checkedAdd_eq_some hstop
      rw [if_pos (by omega)]
      exact ⟨_, rfl⟩

theorem starves_u16 (x : UInt16) : Starves w (u16 w) (le16 x) :=
  (starves_take 2 rfl).bind_pure _

theorem starves_u32 (x : UInt32) : Starves w (u32 w) (le32 x) :=
  (starves_take 4 rfl).bind_pure _

theorem starves_skipPast {pad : Bytes} {declared base : Nat} (h : declared = base + pad.length) :
    Starves w (skipPast w declared base) pad := by
  unfold skipPast
  split
  · exact (starves_take _ (by omega)).bind_pure (fun _ => ())
  · have hnil : pad = [] := List.eq_nil_of_length_eq_zero (by omega)
    exact hnil ▸ .nil _

theorem starves_fileHeader (d : Document) : Starves w (fileHeader w) d.header := by
  unfold fileHeader Document.header
  refine .bind (consumes_u16 _) (starves_u16 _) (.bind (consumes_u16 _) (starves_u16 _)
    (.bind (consumes_u32 _) (starves_u32 _) ?_))
  rw [toNat_ofNat16 d.extra_lt]
  exact starves_skipPast rfl

/-- A cut inside the file header is an error. -/
theorem parse_take_header {d : Document} (hfits : d.Fits32) {k : Nat}
    (hk : k < d.header.length) : ∃ e, parse w (d.bytes.take k) = .error e := by
  have htake : d.bytes.take k = d.header.take k := by
    rw [Document.bytes, List.take_append_of_le_length (Nat.le_of_lt hk)]
  have hok : (Cursor.new (d.header.take k)).Ok w := by
    refine ⟨Nat.zero_le _, ?_⟩
    have hlt : d.bytes.length < w.size := Nat.lt_of_lt_of_le hfits w.two_pow_32_le_size
    rw [Document.bytes, List.length_append] at hlt
    show (d.header.take k).length < w.size
    rw [List.length_take]
    omega
  obtain ⟨e, he⟩ := starves_fileHeader d _ k hok hk rfl
  refine ⟨e, ?_⟩
  rw [htake, parse, he, error_bind]

/-- A cut behind the file header: a failed round of the loop when at least eight bytes are left of
the chunk it falls in, else the result of the chunks before it. -/
theorem parse_take_chunks {d : Document} {t : Element} {st : DocState} (h : d.Describes t)
    (hfits : d.Fits32) {k : Nat} (hk : d.header.length ≤ k)
    (hrun : runChunks .init (d.wholeAt k) = some st) :
    if 8 ≤ (d.leftAt k).length then ∃ e, parse w (d.bytes.take k) = .error e
    else parse w (d.bytes.take k) = st.result := by
  have hwhole : d.wholeAt k <+: d.chunks := prefix_wholeChunks _ _
  have hfit : (d.bytes.take k).length < w.size := by
    have hlt : d.bytes.length < w.size := Nat.lt_of_lt_of_le hfits w.two_pow_32_le_size
    rw [List.length_take]
    omega
  have hlen : (chunksBytes (d.wholeAt k)).length < 2 ^ 32 := by
    obtain ⟨suf, hsuf⟩ := hwhole
    have := hfits.length_chunks
    rw [← hsuf, chunksBytes_append, List.length_append] at this
    omega
  rw [Document.take_bytes hk] at hfit ⊢
  obtain ⟨c, hok, hrest, hparse⟩ := parse_chunks d hfit hlen
    (fun ch hch => h.fits ch (hwhole.subset hch)) hrun
  rw [hparse]
  have hrem := c.length_rest_eq
  rw [hrest] at hrem
  split
  · next h8 =>
      -- the cut falls into a chunk, behind its header
      rcases wholeChunks_rest d.chunks (k - d.header.length) with hnil | ⟨ch, hch, r, hr, hleft⟩
      · have : d.leftAt k = [] := hnil
        rw [this] at h8
        exact absurd h8 (by simp)
      · have hleft : d.leftAt k = ch.bytes.take r := hleft
        have hch32 : ch.bytes.length < 2 ^ 32 :=
          Nat.lt_of_le_of_lt (length_le_length_chunksBytes hch) hfits.length_chunks
        have h8r : 8 ≤ r := by
          rw [hleft, List.length_take] at h8
          omega
        have hcut := parseChunk_cut st hok (hrest.trans hleft) h8r hr hch32
        refine ⟨.axml "chunk runs past end of file", ?_⟩
        rw [parseChunks_of_error (by omega) hcut, error_bind]
  · next h8 => rw [parseChunks_of_lt st (by omega), ok_bind]

/-! ## Which cuts are harmless -/

/-- The cut is inside the file header, or leaves eight bytes or more of an unfinished chunk, or the
innermost START chunk still open, if there is one, opens an element with the tag and the attributes
of the root. -/
def Document.CutHarmless (d : Document) (t : Element) (k : Nat) : Prop :=
  k < d.header.length ∨ 8 ≤ (d.leftAt k).length ∨
    ∀ s ∈ (Outline.init.run (d.wholeAt k)).opens.head?, Opens d.pooled s t.name t.attrs

/-- The first `k` bytes are not read as another package: as an element only with the root's tag and
attributes, as a manifest only with the whole manifest's identity. -/
structure ReadsAsRoot (w : PtrWidth) (showFloat : UInt32 → String) (d : Document) (t : Element)
    (k : Nat) : Prop where
  element : ∀ el, parse w (d.bytes.take k) = .ok el → el.name = t.name ∧ el.attrs = t.attrs
  identity : ∀ info whole, parseManifest w showFloat (d.bytes.take k) = .ok info →
    parseManifest w showFloat d.bytes = .ok whole → SameIdentity info whole

/-- An element opened by a START chunk that opens `name` with `attrs` carries those. -/
theorem OpenedBy.of_opens (hlen : strings.length < 2 ^ 32) {s : StartChunk} {el : Element}
    {name : String} {attrs : Attrs} (hel : OpenedBy strings s el)
    (h : Opens strings s name attrs) : el.name = name ∧ el.attrs = attrs := by
  have helement := element_of_opens hlen h
  rw [hel.name, hel.attrs, helement]
  exact ⟨rfl, rfl⟩

theorem Document.Describes.length_pooled {d : Document} {t : Element} (h : d.Describes t)
    (hfits : d.Fits32) : d.pooled.length < 2 ^ 32 := by
  obtain ⟨before, between, after, p, body, hchunks, hp, hspells⟩ := h.shape
  rw [Document.pooled_eq hchunks]
  exact hfits.length_strings (by rw [hchunks]; simp)

/-- A harmless cut is read as the root. -/
theorem Document.Describes.element_of_harmless {d : Document} {t el : Element} {k : Nat}
    (h : d.Describes t) (hfits : d.Fits32) (hcut : d.CutHarmless t k)
    (hel : parse w (d.bytes.take k) = .ok el) : el.name = t.name ∧ el.attrs = t.attrs := by
  have hlen := h.length_pooled hfits
  obtain ⟨root, hroot, -, hstate⟩ := h.cutState
  obtain ⟨hstage, hopens, st, hrun, hst⟩ := hstate (d.wholeAt k) (prefix_wholeChunks _ _)
  by_cases hk : k < d.header.length
  · obtain ⟨e, he⟩ := parse_take_header (w := w) hfits hk
    rw [he] at hel
    cases hel
  have hparse := parse_take_chunks (w := w) h hfits (Nat.le_of_not_lt hk) hrun
  by_cases h8 : 8 ≤ (d.leftAt k).length
  · rw [if_pos h8] at hparse
    obtain ⟨e, he⟩ := hparse
    rw [he] at hel
    cases hel
  rw [if_neg h8, hel] at hparse
  have hhead : ∀ s ∈ (Outline.init.run (d.wholeAt k)).opens.head?,
      Opens d.pooled s t.name t.attrs := (hcut.resolve_left hk).resolve_left h8
  rcases result_of_stage hst hstage with ⟨-, e, he⟩ | ⟨el', hel', hopened⟩
  · rw [he] at hparse
    cases hparse
  rw [hel'] at hparse
  obtain rfl : el = el' := Except.ok.inj hparse
  cases hopen : (Outline.init.run (d.wholeAt k)).opens with
  | nil =>
      rw [hopen] at hopened
      exact hopened.of_opens hlen hroot
  | cons s rest =>
      rw [hopen] at hopened hhead
      exact hopened.of_opens hlen (hhead s rfl)

/-- The whole document is a harmless cut of itself. -/
theorem Document.Describes.harmless_length {d : Document} {t : Element} (h : d.Describes t) :
    d.CutHarmless t d.bytes.length := by
  obtain ⟨root, hroot, hclosed, -⟩ := h.cutState
  refine Or.inr (Or.inr ?_)
  have hall : d.wholeAt d.bytes.length = d.chunks := by
    refine wholeChunks_all _ ?_
    rw [Document.bytes, List.length_append]
    omega
  intro s hs
  rw [hall, hclosed] at hs
  cases hs

/-- Exactly the harmless cuts are never read as another package. -/
theorem cutHarmless_iff {d : Document} {t : Element} (showFloat : UInt32 → String)
    (h : d.Describes t) (hfits : d.Fits32) (k : Nat) :
    ReadsAsRoot w showFloat d t k ↔ d.CutHarmless t k := by
  constructor
  · intro hreads
    by_cases hk : k < d.header.length
    · exact Or.inl hk
    by_cases h8 : 8 ≤ (d.leftAt k).length
    · exact Or.inr (Or.inl h8)
    refine Or.inr (Or.inr ?_)
    intro s hs
    -- the innermost open element is returned, so by assumption it looks like the root
    have hlen := h.length_pooled hfits
    obtain ⟨root, hroot, -, hstate⟩ := h.cutState
    obtain ⟨hstage, hopens, st, hrun, hst⟩ := hstate (d.wholeAt k) (prefix_wholeChunks _ _)
    have hparse := parse_take_chunks (w := w) h hfits (Nat.le_of_not_lt hk) hrun
    rw [if_neg h8] at hparse
    rcases result_of_stage hst hstage with ⟨hnil, -⟩ | ⟨el, hel, hopened⟩
    · rw [hnil] at hs
      cases hs
    obtain ⟨hname, hattrs⟩ := hreads.element el (hparse.trans hel)
    obtain ⟨rest, hopen⟩ : ∃ rest, (Outline.init.run (d.wholeAt k)).opens = s :: rest :=
      List.head?_eq_some_iff.mp hs
    obtain ⟨name, attrs, hs⟩ := hopens s (by rw [hopen]; exact List.mem_cons_self)
    rw [hopen] at hopened
    obtain ⟨hname', hattrs'⟩ := hopened.of_opens hlen hs
    rw [← hname, ← hattrs, hname', hattrs']
    exact hs
  · intro hcut
    refine ⟨fun el hel => h.element_of_harmless hfits hcut hel, ?_⟩
    intro info whole hinfo hwhole
    obtain ⟨el, hel, rfl⟩ := parseManifest_eq_ok.mp hinfo
    obtain ⟨el', hel', rfl⟩ := parseManifest_eq_ok.mp hwhole
    rw [← List.take_length (l := d.bytes)] at hel'
    obtain ⟨-, hattrs⟩ := h.element_of_harmless hfits hcut hel
    obtain ⟨-, hattrs'⟩ := h.element_of_harmless hfits h.harmless_length hel'
    exact infoOf_identity (hattrs.trans hattrs'.symm)

/-- The small manifest cut inside the START chunk of its child. -/
theorem cutHarmless_iff_smallDocument : smallDocument.Describes smallManifest ∧
    smallDocument.Fits32 ∧
    (ReadsAsRoot .w64 (fun _ => "") smallDocument smallManifest 200 ↔
      smallDocument.CutHarmless smallManifest 200) :=
  ⟨smallDocument_describes, smallDocument_fits,
    cutHarmless_iff _ smallDocument_describes smallDocument_fits 200⟩

/-- Cut right behind the START chunk of its child, the small manifest is read as the child: its
package name is gone. -/
theorem smallDocument_cut : smallDocument.Describes smallManifest ∧ smallDocument.Fits32 ∧
    (∃ el, parse .w64 (smallDocument.bytes.take 233) = .ok el ∧ el.name = "uses-sdk") ∧
    (∃ info, parseManifest .w64 (fun _ => "") (smallDocument.bytes.take 233) = .ok info ∧
      info.package = "") ∧
    (∃ whole, parseManifest .w64 (fun _ => "") smallDocument.bytes = .ok whole ∧
      whole.package = "a.b") ∧
    ¬ ReadsAsRoot .w64 (fun _ => "") smallDocument smallManifest 233 := by
  have helement : (parse .w64 (smallDocument.bytes.take 233)).map Element.name
      = .ok "uses-sdk" := by decide +kernel
  have hinfo : (parseManifest .w64 (fun _ => "") (smallDocument.bytes.take 233)).map
      PackageInfo.package = .ok "" := by decide +kernel
  have hwhole : (parseManifest .w64 (fun _ => "") smallDocument.bytes).map
      PackageInfo.package = .ok "a.b" := by decide +kernel
  obtain ⟨el, hel, hname⟩ := map_eq_ok.mp helement
  refine ⟨smallDocument_describes, smallDocument_fits, ⟨el, hel, hname⟩, map_eq_ok.mp hinfo,
    map_eq_ok.mp hwhole, ?_⟩
  intro hreads
  obtain ⟨hroot, -⟩ := hreads.element el hel
  rw [hname] at hroot
  exact absurd hroot (by decide)

end Xylitol.Apk.Axml
