import Xylitol.Dom

/-!
# Pages as text

A page is sent as text. Plain text, with every element written out in full and nothing in it that
would have to be escaped, reads back as the page it was written from:

    nodes ──tokens──▶ tokens ──spell──▶ characters ──lex──▶ tokens ──build──▶ nodes
-/

namespace Xylitol.Markup

open Dom

inductive Token where
  | start (e : Element)
  | stop (name : String)
  | text (s : String)
  | comment (s : String)
  deriving DecidableEq, Repr

/-! ### Writing -/

mutual

def nodeTokens : Node → List Token
  | .text s => [.text s]
  | .comment s => [.comment s]
  | .element e children => .start e :: tokens children ++ [.stop e.name]

def tokens : List Node → List Token
  | [] => []
  | n :: ns => nodeTokens n ++ tokens ns

end

def spellAttr (a : String × String) : List Char :=
  ' ' :: a.1.toList ++ '=' :: '"' :: a.2.toList ++ ['"']

/-- What stands between `<` and `>`. -/
def inside : Token → List Char
  | .start e => e.name.toList ++ e.attrs.flatMap spellAttr
  | .stop name => '/' :: name.toList
  | .text _ => []
  | .comment s => "!--".toList ++ s.toList ++ "--".toList

def spell : Token → List Char
  | .text s => s.toList
  | t => '<' :: inside t ++ ['>']

def write (ns : List Node) : String := String.ofList ((tokens ns).flatMap spell)

/-! ### Reading -/

/-- The attributes, from what stands between the quotation marks. -/
def attrsOf : List (List Char) → List (String × String)
  | key :: value :: rest =>
    (String.ofList (key.drop 1).dropLast, String.ofList value) :: attrsOf rest
  | _ => []

/-- The tag of which this is the inside. -/
def tagOf : List Char → Token
  | '/' :: name => .stop (String.ofList name)
  | cs => .start ⟨String.ofList (cs.takeWhile (· ≠ ' ')),
      attrsOf ((cs.dropWhile (· ≠ ' ')).splitOn '"')⟩

def textOf (cs : List Char) : List Token := if cs = [] then [] else [.text (String.ofList cs)]

/-- What stands between a `<` and the next. -/
def part (cs : List Char) : List Token :=
  tagOf (cs.takeWhile (· ≠ '>')) :: textOf ((cs.dropWhile (· ≠ '>')).drop 1)

def lex (cs : List Char) : List Token :=
  match cs.splitOn '<' with
  | first :: parts => textOf first ++ parts.flatMap part
  | [] => []

/-- The nodes, last first, that have been read at each level that is still open. -/
def build : List Token → List (Element × List Node) → List Node → List Node
  | .text s :: ts, stack, ns => build ts stack (.text s :: ns)
  | .comment s :: ts, stack, ns => build ts stack (.comment s :: ns)
  | .start e :: ts, stack, ns => build ts ((e, ns) :: stack) []
  | .stop _ :: ts, (e, before) :: stack, ns => build ts stack (.element e ns.reverse :: before)
  | .stop _ :: ts, [], ns => build ts [] ns
  | [], _, ns => ns.reverse

def read (s : String) : List Node := build (lex s.toList) [] []

/-! ### Building what was taken apart -/

mutual

theorem build_nodeTokens (n : Node) (ts : List Token) (stack : List (Element × List Node))
    (ns : List Node) : build (nodeTokens n ++ ts) stack ns = build ts stack (n :: ns) := by
  cases n with
  | text s => rfl
  | comment s => rfl
  | element e children =>
    have hchildren := build_tokens children (.stop e.name :: ts) ((e, ns) :: stack) []
    rw [List.append_nil] at hchildren
    rw [nodeTokens, List.cons_append, List.cons_append, List.append_assoc, List.singleton_append,
      build, hchildren, build, List.reverse_reverse]

theorem build_tokens (l : List Node) (ts : List Token) (stack : List (Element × List Node))
    (ns : List Node) : build (tokens l ++ ts) stack ns = build ts stack (l.reverse ++ ns) := by
  cases l with
  | nil => rfl
  | cons n l =>
    rw [tokens, List.append_assoc, build_nodeTokens n, build_tokens l, List.reverse_cons,
      List.append_assoc, List.singleton_append]

end

/-! ### Reading what was written -/

/-- No character of the text is one of these. -/
def Without (cs : List Char) (s : String) : Prop := ∀ c ∈ s.toList, c ∉ cs

instance (cs : List Char) (s : String) : Decidable (Without cs s) :=
  inferInstanceAs (Decidable (∀ c ∈ s.toList, c ∉ cs))

/-- Nothing in the token has to be escaped. -/
def Token.Plain : Token → Prop
  | .start e => e.name.toList.head? ≠ some '/' ∧ Without [' ', '<', '>', '&', '"'] e.name ∧
      ∀ a ∈ e.attrs, Without [' ', '<', '>', '&', '"'] a.1 ∧ Without ['<', '>', '&', '"'] a.2
  | .stop name => Without [' ', '<', '>', '&', '"'] name
  | .text s => s ≠ "" ∧ Without ['<', '>', '&'] s
  | .comment _ => False

instance : DecidablePred Token.Plain
  | .start e => inferInstanceAs (Decidable (e.name.toList.head? ≠ some '/' ∧ Without _ e.name ∧
      ∀ a ∈ e.attrs, Without _ a.1 ∧ Without _ a.2))
  | .stop name => inferInstanceAs (Decidable (Without _ name))
  | .text s => inferInstanceAs (Decidable (s ≠ "" ∧ Without _ s))
  | .comment _ => isFalse id

/-- Two texts in a row would be read as one. -/
def Apart : Token → Token → Prop
  | .text _, .text _ => False
  | _, _ => True

instance : DecidableRel Apart
  | .text _, .text _ => isFalse id
  | .text _, .start _ | .text _, .stop _ | .text _, .comment _ => isTrue trivial
  | .start _, _ | .stop _, _ | .comment _, _ => isTrue trivial

/-- A page that can be written as it is. -/
def Plain (ns : List Node) : Prop := (∀ t ∈ tokens ns, t.Plain) ∧ (tokens ns).IsChain Apart

instance (ns : List Node) : Decidable (Plain ns) :=
  inferInstanceAs (Decidable (_ ∧ List.IsChain _ _))

section

variable {t : Token}

theorem splitOn_append {a : Char} {front : List Char} (h : a ∉ front) (rest : List Char) :
    (front ++ rest).splitOn a = (rest.splitOn a).modifyHead (front ++ ·) := by
  induction front with
  | nil => cases hrest : rest.splitOn a <;> simp [hrest]
  | cons c front ih =>
    rw [List.mem_cons, not_or] at h
    rw [List.cons_append, List.splitOn_cons_eq_if_modifyHead, ih h.2, if_neg]
    · cases rest.splitOn a <;> rfl
    · simpa using Ne.symm h.1

/-- The attributes are what was written, each between its quotation marks. -/
theorem attrsOf_spell {attrs : List (String × String)}
    (h : ∀ a ∈ attrs, '"' ∉ a.1.toList ∧ '"' ∉ a.2.toList) :
    attrsOf ((attrs.flatMap spellAttr).splitOn '"') = attrs := by
  induction attrs with
  | nil => rfl
  | cons a attrs ih =>
    obtain ⟨⟨hkey, hvalue⟩, hattrs⟩ := List.forall_mem_cons.mp h
    have hfront : '"' ∉ ' ' :: a.1.toList ++ ['='] := by simpa using hkey
    have hspell : (a :: attrs).flatMap spellAttr = (' ' :: a.1.toList ++ ['=']) ++ '"' ::
        (a.2.toList ++ '"' :: attrs.flatMap spellAttr) := by
      simp [spellAttr]
    rw [hspell, List.splitOn_append_cons_self_of_not_mem hfront,
      List.splitOn_append_cons_self_of_not_mem hvalue, attrsOf, ih hattrs]
    simp

/-- The tag is what was written between `<` and `>`. -/
theorem tagOf_inside (h : t.Plain) (htext : ∀ s, t ≠ .text s) : tagOf (inside t) = t := by
  cases t with
  | text s => exact absurd rfl (htext s)
  | comment s => exact h.elim
  | stop name => simp [inside, tagOf]
  | start e =>
    obtain ⟨hhead, hname, hattrs⟩ := h
    have hquotes : ∀ a ∈ e.attrs, '"' ∉ a.1.toList ∧ '"' ∉ a.2.toList := by
      intro a ha
      exact ⟨fun hmem => (hattrs a ha).1 _ hmem (by decide),
        fun hmem => (hattrs a ha).2 _ hmem (by decide)⟩
    have hspace : ∀ c ∈ e.name.toList, decide (c ≠ ' ') = true := by
      intro c hc
      rw [decide_eq_true_eq]
      rintro rfl
      exact hname _ hc (by decide)
    have hrest : (e.attrs.flatMap spellAttr).takeWhile (· ≠ ' ') = [] ∧
        (e.attrs.flatMap spellAttr).dropWhile (· ≠ ' ') = e.attrs.flatMap spellAttr := by
      cases e.attrs <;> simp [spellAttr]
    unfold tagOf
    split
    · next name hslash =>
        -- neither a name nor an attribute begins with a slash
        cases hchars : e.name.toList with
        | nil =>
          rw [inside, hchars, List.nil_append] at hslash
          rw [hslash] at hrest
          simp at hrest
        | cons c cs =>
          rw [inside, hchars, List.cons_append] at hslash
          rw [hchars, (List.cons.inj hslash).1] at hhead
          exact absurd rfl hhead
    · rw [inside, List.takeWhile_append_of_pos hspace, List.dropWhile_append_of_pos hspace, hrest.1,
        hrest.2, attrsOf_spell hquotes, List.append_nil, String.ofList_toList]

theorem notMem_inside (h : t.Plain) : '<' ∉ inside t ∧ '>' ∉ inside t := by
  have hboth : ∀ c ∈ inside t, c ≠ '<' ∧ c ≠ '>' := by
    have hof : ∀ {cs : List Char} {s : String}, Without cs s → '<' ∈ cs → '>' ∈ cs →
        ∀ c ∈ s.toList, c ≠ '<' ∧ c ≠ '>' := by
      intro cs s hs hlt hgt c hc
      exact ⟨fun heq => hs c hc (heq ▸ hlt), fun heq => hs c hc (heq ▸ hgt)⟩
    cases t with
    | text s => simp [inside]
    | comment s => exact h.elim
    | stop name =>
      simp only [inside, List.forall_mem_cons]
      exact ⟨by decide, hof h (by decide) (by decide)⟩
    | start e =>
      obtain ⟨-, hname, hattrs⟩ := h
      simp only [inside, List.forall_mem_append, List.forall_mem_flatMap, spellAttr,
        List.forall_mem_cons]
      refine ⟨hof hname (by decide) (by decide), fun a ha => ?_⟩
      obtain ⟨hkey, hvalue⟩ := hattrs a ha
      exact ⟨⟨⟨by decide, hof hkey (by decide) (by decide)⟩, by decide, by decide,
        hof hvalue (by decide) (by decide)⟩, by decide, List.forall_mem_nil _⟩
  exact ⟨fun hmem => (hboth _ hmem).1 rfl, fun hmem => (hboth _ hmem).2 rfl⟩

/-- A tag is read, and then what stands behind it. -/
theorem lex_tag (h : t.Plain) (htext : ∀ s, t ≠ .text s) (rest : List Char) :
    lex (spell t ++ rest) = t :: lex rest := by
  obtain ⟨hlt, hgt⟩ := notMem_inside h
  have hspell : spell t ++ rest = '<' :: (inside t ++ '>' :: rest) := by
    cases t with
    | text s => exact absurd rfl (htext s)
    | _ => simp [spell]
  have hclean : ∀ c ∈ inside t, decide (c ≠ '>') = true := by
    intro c hc
    rw [decide_eq_true_eq]
    rintro rfl
    exact hgt hc
  obtain ⟨first, parts, hparts⟩ := List.exists_cons_of_ne_nil (List.splitOn_ne_nil '<' rest)
  have hfront : '<' ∉ inside t ++ ['>'] := by simpa using hlt
  have hrest : (inside t ++ '>' :: rest).splitOn '<' = (inside t ++ '>' :: first) :: parts := by
    have happend : inside t ++ '>' :: rest = (inside t ++ ['>']) ++ rest := by simp
    rw [happend, splitOn_append hfront, hparts]
    simp
  have hpart : part (inside t ++ '>' :: first) = t :: textOf first := by
    rw [part, List.takeWhile_append_of_pos hclean, List.dropWhile_append_of_pos hclean]
    simp [tagOf_inside h htext]
  rw [hspell, lex, List.splitOn_cons_eq_if_modifyHead, if_pos (by rfl), hrest, lex, hparts]
  simp [textOf, hpart]

/-- A text is read up to the next tag. -/
theorem lex_text {s : String} (h : (Token.text s).Plain) {rest : List Char}
    (hrest : ∀ c ∈ rest.head?, c = '<') : lex (s.toList ++ rest) = .text s :: lex rest := by
  obtain ⟨hne, hs⟩ := h
  have hlt : '<' ∉ s.toList := fun hmem => hs _ hmem (by decide)
  have hnil : s.toList ≠ [] := fun h => hne (String.toList_inj.mp h)
  have hparts : ∃ parts, rest.splitOn '<' = [] :: parts := by
    cases rest with
    | nil => exact ⟨[], rfl⟩
    | cons c rest =>
      obtain rfl := hrest c rfl
      exact ⟨_, by rw [List.splitOn_cons_eq_if_modifyHead, if_pos (by rfl)]⟩
  obtain ⟨parts, hparts⟩ := hparts
  rw [lex, splitOn_append hlt, hparts, lex, hparts]
  simp [textOf, hnil]

theorem head?_spell (htext : ∀ s, t ≠ .text s) : (spell t).head? = some '<' := by
  cases t with
  | text s => exact absurd rfl (htext s)
  | _ => rfl

theorem lex_spell {ts : List Token} (hplain : ∀ t ∈ ts, t.Plain) (hapart : ts.IsChain Apart) :
    lex (ts.flatMap spell) = ts := by
  induction ts with
  | nil => rfl
  | cons t ts ih =>
    obtain ⟨ht, hts⟩ := List.forall_mem_cons.mp hplain
    rw [List.flatMap_cons]
    have hrest := ih hts hapart.tail
    cases t with
    | text s =>
      -- what comes next is no text
      have hhead : ∀ c ∈ (ts.flatMap spell).head?, c = '<' := by
        cases ts with
        | nil => simp
        | cons t' ts =>
          have htext : ∀ s', t' ≠ .text s' := by
            rintro s' rfl
            exact (List.isChain_cons_cons.mp hapart).1
          rw [List.flatMap_cons, List.head?_append, head?_spell htext]
          simp
      rw [show spell (.text s) = s.toList from rfl, lex_text ht hhead, hrest]
    | start | stop | comment => rw [lex_tag ht (by simp), hrest]

/-- A page that can be written as it is reads back. -/
theorem read_write {ns : List Node} (h : Plain ns) : read (write ns) = ns := by
  have hbuild := build_tokens ns [] [] []
  rw [List.append_nil, List.append_nil] at hbuild
  rw [read, write, String.toList_ofList, lex_spell h.1 h.2, hbuild, build, List.reverse_reverse]

end

/-! ### Pages that can be written -/

@[simp] theorem plain_nil : Plain [] := ⟨List.forall_mem_nil _, List.isChain_nil⟩

@[simp] theorem plain_text {s : String} : Plain [.text s] ↔ (Token.text s).Plain := by
  simp [Plain, tokens, nodeTokens]

/-- A tag keeps what is on its two sides apart. -/
theorem isChain_append_tag {t : Token} (ht : ∀ s, t ≠ .text s) (front rest : List Token) :
    (front ++ t :: rest).IsChain Apart ↔ front.IsChain Apart ∧ rest.IsChain Apart := by
  have hleft : ∀ t', Apart t' t := by
    intro t'
    cases t' <;> cases t <;> first | exact trivial | exact absurd rfl (ht _)
  have hright : ∀ t', Apart t t' := by
    intro t'
    cases t <;> first | exact trivial | exact absurd rfl (ht _)
  simp [List.isChain_append, List.isChain_cons, hleft, hright]

/-- An element is plain when its tag and what is in it are, and it has nothing to do with what comes
behind it. -/
@[simp] theorem plain_element_cons {e : Element} {children ns : List Node} :
    Plain (.element e children :: ns) ↔ (Token.start e).Plain ∧ Plain children ∧ Plain ns := by
  have htokens : tokens (.element e children :: ns)
      = .start e :: (tokens children ++ .stop e.name :: tokens ns) := by
    simp [tokens, nodeTokens]
  have hstart := isChain_append_tag (t := .start e) (by simp) []
    (tokens children ++ .stop e.name :: tokens ns)
  have hstop := isChain_append_tag (t := .stop e.name) (by simp) (tokens children) (tokens ns)
  rw [List.nil_append, hstop] at hstart
  have hname : (Token.start e).Plain → (Token.stop e.name).Plain := fun h => h.2.1
  rw [Plain, htokens, hstart, Plain, Plain]
  simp only [List.forall_mem_cons, List.forall_mem_append, List.isChain_nil, true_and]
  tauto

end Xylitol.Markup
