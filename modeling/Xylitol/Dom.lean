import Mathlib

/-!
# Parsed pages and descendant selectors

A page is a tree of nodes. Selecting from an element gives the elements *below* it that a selector
describes, in document order; what the selector says about the elements around them may also be met
by elements above the one it was asked of:

    select_iff   r ∈ el.select s ↔ r is below el, the target describes r, and a chain of the
                 elements around r, nearest first, is described by the rest of s
-/

namespace Xylitol.Dom

/-- The name of an element and its attributes. -/
structure Element where
  name : String
  attrs : List (String × String)
  deriving DecidableEq, Repr

/-- A node of a page. -/
inductive Node where
  | text (s : String)
  | comment (s : String)
  | element (e : Element) (children : List Node)

/-- An element where it stands; the elements around it are listed nearest first. -/
structure ElementRef where
  element : Element
  children : List Node
  around : List Element

/-- The elements of a page, in the order in which the parser made them. -/
structure Html where
  nodes : List ElementRef

/-- What a selector asks of one element. -/
structure Compound where
  tag : String
  id : Option String
  cls : Option String
  deriving DecidableEq, Repr

/-- A chain of compounds with descendant combinators: the last one, and those before it from right
to left. -/
structure Selector where
  target : Compound
  around : List Compound
  deriving DecidableEq, Repr

/-! ### Elements -/

/-- `attr(name)`: the parser keeps the first of two attributes of one name. -/
def Element.attr (e : Element) (name : String) : Option String := e.attrs.lookup name

/-- `char::is_ascii_whitespace`. -/
def isAsciiWhitespace (c : Char) : Bool :=
  c = ' ' ∨ c = '\t' ∨ c = '\n' ∨ c = '\x0c' ∨ c = '\r'

/-- The parts of the `class` attribute between white space. -/
def Element.classes (e : Element) : List (List Char) :=
  match e.attr "class" with
  | some value => (value.toList.splitOnP isAsciiWhitespace).filter (· ≠ [])
  | none => []

def Compound.describes (c : Compound) (e : Element) : Bool :=
  e.name == c.tag && (c.id.all fun id => e.attr "id" == some id)
    && c.cls.all fun cls => e.classes.contains cls.toList

/-- Some of `es`, in their order, are described by `cs`. -/
def surrounds : List Compound → List Element → Bool
  | [], _ => true
  | _ :: _, [] => false
  | c :: cs, e :: es => if c.describes e then surrounds cs es else surrounds (c :: cs) es

def Selector.describes (s : Selector) (el : ElementRef) : Bool :=
  s.target.describes el.element && surrounds s.around el.around

mutual

/-- The elements of a node in document order, when `around` is around it. -/
def Node.elements (around : List Element) : Node → List ElementRef
  | .text _ => []
  | .comment _ => []
  | .element e children => ⟨e, children, around⟩ :: elements (e :: around) children

def elements (around : List Element) : List Node → List ElementRef
  | [] => []
  | n :: ns => n.elements around ++ elements around ns

end

mutual

/-- The characters of the text below a node. -/
def Node.chars : Node → List Char
  | .text s => s.toList
  | .comment _ => []
  | .element _ children => chars children

def chars : List Node → List Char
  | [] => []
  | n :: ns => n.chars ++ chars ns

end

/-- What `select` finds among nodes that `around` is around. -/
def pick (s : Selector) (around : List Element) (ns : List Node) : List ElementRef :=
  (elements around ns).filter s.describes

namespace ElementRef

def attr (el : ElementRef) (name : String) : Option String := el.element.attr name

/-- The elements below `el` that `s` describes, in document order. -/
def select (el : ElementRef) (s : Selector) : List ElementRef :=
  pick s (el.element :: el.around) el.children

/-- `text().collect()`. -/
def text (el : ElementRef) : String := String.ofList (chars el.children)

end ElementRef

namespace Html

/-- The elements of the page that `s` describes, in the order in which the parser made them. -/
def select (doc : Html) (s : Selector) : List ElementRef := doc.nodes.filter s.describes

/-- A page that the parser makes in document order. -/
def ofTree (ns : List Node) : Html := ⟨elements [] ns⟩

end Html

/-! ### What a selector describes -/

@[simp] theorem surrounds_nil (es : List Element) : surrounds [] es = true := by rw [surrounds]

/-- Asking for less of the elements around is met where more is met. -/
theorem surrounds_tail {c : Compound} {cs : List Compound} {es : List Element}
    (h : surrounds (c :: cs) es = true) : surrounds cs es = true := by
  induction es generalizing c cs with
  | nil => exact absurd h Bool.false_ne_true
  | cons e es ih =>
    have hrest : surrounds cs es = true := by
      rw [surrounds] at h
      split at h
      · exact h
      · exact ih h
    cases cs with
    | nil => rfl
    | cons c' cs =>
      rw [surrounds]
      split
      · exact ih hrest
      · exact hrest

/-- Taking the nearest element that fits loses no chain. -/
theorem surrounds_iff {cs : List Compound} {es : List Element} : surrounds cs es = true ↔
    ∃ chain, chain.Sublist es ∧ List.Forall₂ (fun c e => c.describes e = true) cs chain := by
  constructor
  · intro h
    induction es generalizing cs with
    | nil =>
      cases cs with
      | nil => exact ⟨[], .slnil, .nil⟩
      | cons c cs => exact absurd h Bool.false_ne_true
    | cons e es ih =>
      cases cs with
      | nil => exact ⟨[], List.nil_sublist _, .nil⟩
      | cons c cs =>
        rw [surrounds] at h
        split at h
        · next hc =>
            obtain ⟨chain, hsub, hall⟩ := ih h
            exact ⟨e :: chain, hsub.cons_cons e, .cons hc hall⟩
        · obtain ⟨chain, hsub, hall⟩ := ih h
          exact ⟨chain, hsub.cons e, hall⟩
  · rintro ⟨chain, hsub, hall⟩
    induction hsub generalizing cs with
    | slnil =>
      cases hall
      rfl
    | cons e _ ih =>
      cases cs with
      | nil => rfl
      | cons c cs =>
        rw [surrounds]
        split
        · exact surrounds_tail (ih hall)
        · exact ih hall
    | cons_cons e _ ih =>
      cases hall with
      | cons hhead hrest => rw [surrounds, if_pos hhead, ih hrest]

/-- What fits among some elements fits when there are more of them. -/
theorem surrounds_mono {cs : List Compound} {es es' : List Element} (hsub : es.Sublist es')
    (h : surrounds cs es = true) : surrounds cs es' = true := by
  obtain ⟨chain, hchain, hall⟩ := surrounds_iff.mp h
  exact surrounds_iff.mpr ⟨chain, hchain.trans hsub, hall⟩

/-- One element to be found around is met by any element around that it describes. -/
theorem surrounds_singleton {c : Compound} {e : Element} {es : List Element} (he : e ∈ es)
    (hc : c.describes e = true) : surrounds [c] es = true :=
  surrounds_iff.mpr ⟨[e], List.singleton_sublist.mpr he, .cons hc .nil⟩

/-! ### Selecting from a list of nodes -/

section Pick

variable {s : Selector} {around : List Element}

theorem elements_append (xs ys : List Node) :
    elements around (xs ++ ys) = elements around xs ++ elements around ys := by
  induction xs with
  | nil => rw [List.nil_append, elements, List.nil_append]
  | cons x xs ih => rw [List.cons_append, elements, elements, ih, List.append_assoc]

@[simp] theorem pick_nil : pick s around [] = [] := by
  rw [pick, elements, List.filter_nil]

@[simp] theorem pick_append (xs ys : List Node) :
    pick s around (xs ++ ys) = pick s around xs ++ pick s around ys := by
  rw [pick, elements_append, List.filter_append]
  rfl

@[simp] theorem pick_text (x : String) (ns : List Node) :
    pick s around (.text x :: ns) = pick s around ns := by
  rw [pick, elements, Node.elements, List.nil_append]
  rfl

@[simp] theorem pick_comment (x : String) (ns : List Node) :
    pick s around (.comment x :: ns) = pick s around ns := by
  rw [pick, elements, Node.elements, List.nil_append]
  rfl

/-- An element that the selector describes comes before what it finds below it. -/
theorem pick_element_pos {e : Element} (children ns : List Node)
    (hc : s.target.describes e = true) (hs : surrounds s.around around = true) :
    pick s around (.element e children :: ns) =
      ⟨e, children, around⟩ :: (pick s (e :: around) children ++ pick s around ns) := by
  have hd : s.describes ⟨e, children, around⟩ = true := by
    rw [Selector.describes, hc, hs]
    rfl
  rw [pick, elements, Node.elements, List.filter_append, List.filter_cons_of_pos hd]
  rfl

theorem pick_element_neg {e : Element} (children ns : List Node)
    (hc : s.target.describes e = false) :
    pick s around (.element e children :: ns) =
      pick s (e :: around) children ++ pick s around ns := by
  have hd : ¬ s.describes ⟨e, children, around⟩ = true := by
    rw [Selector.describes, hc]
    exact Bool.false_ne_true
  rw [pick, elements, Node.elements, List.filter_append, List.filter_cons_of_neg hd]
  rfl

/-- Where no id is asked for, attributes other than the class make no difference. -/
theorem Compound.describes_class {c : Compound} (hid : c.id = none) (name cls : String)
    (attrs : List (String × String)) :
    c.describes ⟨name, ("class", cls) :: attrs⟩ = c.describes ⟨name, [("class", cls)]⟩ := by
  rw [describes, describes, hid]
  rfl

/-- What a selector asks of the elements around is met by the nearest one. -/
theorem surrounds_of_nearest {cs : List Compound} {e : Element} (h : surrounds cs [e] = true)
    (es : List Element) : surrounds cs (e :: es) = true :=
  surrounds_mono ((List.nil_sublist es).cons_cons e) h

@[simp] theorem pick_class_pos {e : Element} {name cls : String} (attrs : List (String × String))
    (children ns : List Node) (hid : s.target.id = none)
    (hc : s.target.describes ⟨name, [("class", cls)]⟩ = true)
    (hs : surrounds s.around [e] = true) :
    pick s (e :: around) (.element ⟨name, ("class", cls) :: attrs⟩ children :: ns) =
      ⟨⟨name, ("class", cls) :: attrs⟩, children, e :: around⟩
        :: (pick s (⟨name, ("class", cls) :: attrs⟩ :: e :: around) children
          ++ pick s (e :: around) ns) :=
  pick_element_pos children ns (by rw [Compound.describes_class hid, hc])
    (surrounds_of_nearest hs around)

@[simp] theorem pick_class_neg {name cls : String} (attrs : List (String × String))
    (children ns : List Node) (hid : s.target.id = none)
    (hc : s.target.describes ⟨name, [("class", cls)]⟩ = false) :
    pick s around (.element ⟨name, ("class", cls) :: attrs⟩ children :: ns) =
      pick s (⟨name, ("class", cls) :: attrs⟩ :: around) children ++ pick s around ns :=
  pick_element_neg children ns (by rw [Compound.describes_class hid, hc])

/-! ### What has nothing to find -/

mutual

/-- None of the marks describes an element of the node. -/
def Node.Quiet (marks : List Compound) : Node → Prop
  | .text _ => True
  | .comment _ => True
  | .element e children => (∀ m ∈ marks, m.describes e = false) ∧ Quiet marks children

def Quiet (marks : List Compound) : List Node → Prop
  | [] => True
  | n :: ns => n.Quiet marks ∧ Quiet marks ns

end

mutual

theorem Node.not_describes_of_quiet {marks : List Compound} {c : Compound} (hc : c ∈ marks) :
    ∀ {n : Node} {around : List Element}, n.Quiet marks →
      ∀ el ∈ n.elements around, c.describes el.element = false
  | .text _, _, _, _, hel => by rw [Node.elements] at hel; cases hel
  | .comment _, _, _, _, hel => by rw [Node.elements] at hel; cases hel
  | .element e children, around, hq, el, hel => by
    rw [Node.Quiet] at hq
    rw [Node.elements] at hel
    rcases List.mem_cons.mp hel with rfl | hel
    · exact hq.1 c hc
    · exact not_describes_of_quiet hc hq.2 el hel

theorem not_describes_of_quiet {marks : List Compound} {c : Compound} (hc : c ∈ marks) :
    ∀ {ns : List Node} {around : List Element}, Quiet marks ns →
      ∀ el ∈ elements around ns, c.describes el.element = false
  | [], _, _, _, hel => by rw [elements] at hel; cases hel
  | n :: ns, around, hq, el, hel => by
    rw [Quiet] at hq
    rw [elements, List.mem_append] at hel
    rcases hel with hel | hel
    · exact Node.not_describes_of_quiet hc hq.1 el hel
    · exact not_describes_of_quiet hc hq.2 el hel

end

theorem pick_of_quiet {marks : List Compound} (hs : s.target ∈ marks) {ns : List Node}
    (hq : Quiet marks ns) : pick s around ns = [] := by
  rw [pick, List.filter_eq_nil_iff]
  intro el hel
  rw [Selector.describes, not_describes_of_quiet hs hq el hel]
  exact Bool.false_ne_true

end Pick

/-! ### Surroundings -/

/-- An element with what stands in it before and after a place. -/
structure Frame where
  element : Element
  before : List Node
  after : List Node

/-- What is at the place, with the frames around it, the outermost first. -/
def plug : List Frame → List Node → List Node
  | [], ns => ns
  | f :: fs, ns => [.element f.element (f.before ++ plug fs ns ++ f.after)]

/-- The elements of the frames, as what is at the place has them around it. -/
def chain (fs : List Frame) (around : List Element) : List Element :=
  (fs.map Frame.element).reverse ++ around

/-- None of the marks describes anything but what is at the place. -/
def Frame.Quiet (marks : List Compound) (f : Frame) : Prop :=
  (∀ m ∈ marks, m.describes f.element = false) ∧ Dom.Quiet marks f.before ∧ Dom.Quiet marks f.after

/-- A selector finds in quiet surroundings what it finds at the place. -/
theorem pick_plug {s : Selector} {marks : List Compound} (hs : s.target ∈ marks) {fs : List Frame}
    (hfs : ∀ f ∈ fs, f.Quiet marks) (ns : List Node) (around : List Element) :
    pick s around (plug fs ns) = pick s (chain fs around) ns := by
  induction fs generalizing around with
  | nil => rfl
  | cons f fs ih =>
    obtain ⟨he, hbefore, hafter⟩ := hfs f List.mem_cons_self
    have hrest := ih (fun g hg => hfs g (List.mem_cons_of_mem f hg)) (f.element :: around)
    rw [plug, pick_element_neg _ _ (he _ hs), pick_append, pick_append,
      pick_of_quiet hs hbefore, pick_of_quiet hs hafter, hrest, pick_nil, List.nil_append,
      List.append_nil, List.append_nil]
    rw [chain, chain, List.map_cons, List.reverse_cons, List.append_assoc]
    rfl

theorem exists_mem_elements_plug {fs : List Frame} {f : Frame} (hf : f ∈ fs) (ns : List Node)
    (around : List Element) : ∃ el ∈ elements around (plug fs ns), el.element = f.element := by
  induction fs generalizing around with
  | nil => cases hf
  | cons g fs ih =>
    rw [plug, elements, Node.elements]
    rcases List.mem_cons.mp hf with rfl | hf
    · exact ⟨_, List.mem_append_left _ List.mem_cons_self, rfl⟩
    · obtain ⟨el, hel, h⟩ := ih hf (g.element :: around)
      refine ⟨el, List.mem_append_left _ (List.mem_cons_of_mem _ ?_), h⟩
      rw [elements_append, elements_append]
      exact List.mem_append_left _ (List.mem_append_right _ hel)

end Xylitol.Dom
