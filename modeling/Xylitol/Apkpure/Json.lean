import Xylitol.Text

/-!
# JSON documents

The values that the client takes apart. A document is sent as text; one in which nothing would have
to be escaped reads back as the value it was written from:

    value ──valueTokens──▶ tokens ──spell──▶ characters ──lex──▶ tokens ──build──▶ value
-/

namespace Xylitol.Apkpure

/-- A number of a JSON document: the integers of 64 bits are kept apart from everything else. -/
inductive Number where
  | posInt (n : UInt64)
  | negInt (n : Int64)
  | float (text : String)
  deriving DecidableEq, Repr

/-- `serde_json::Value`. -/
inductive Value where
  | null
  | bool (b : Bool)
  | number (n : Number)
  | string (s : String)
  | array (items : List Value)
  | object (fields : List (String × Value))

namespace Value

/-- `value.get(key)`. -/
def get (value : Value) (key : String) : Option Value :=
  match value with
  | object fields => fields.lookup key
  | _ => none

def asArray : Value → Option (List Value)
  | array items => some items
  | _ => none

def asStr : Value → Option String
  | string s => some s
  | _ => none

def asI64 : Value → Option Int
  | number (.posInt n) => if n.toNat < 2 ^ 63 then some n.toNat else none
  | number (.negInt n) => some n.toInt
  | _ => none

def asU64 : Value → Option Nat
  | number (.posInt n) => some n.toNat
  | _ => none

end Value

namespace Json

inductive Token where
  -- a bracket, a comma or a colon
  | mark (c : Char)
  | leaf (v : Value)

/-! ### Writing -/

mutual

def valueTokens : Value → List Token
  | .array items => .mark '[' :: itemTokens items ++ [.mark ']']
  | .object fields => .mark '{' :: fieldTokens fields ++ [.mark '}']
  | v => [.leaf v]

def itemTokens : List Value → List Token
  | [] => []
  | [v] => valueTokens v
  | v :: vs => valueTokens v ++ .mark ',' :: itemTokens vs

def fieldTokens : List (String × Value) → List Token
  | [] => []
  | [f] => fieldToken f
  | f :: fs => fieldToken f ++ .mark ',' :: fieldTokens fs

def fieldToken : String × Value → List Token
  | (key, v) => .leaf (.string key) :: .mark ':' :: valueTokens v

end

/-- A number, `null`, `true` or `false`. -/
def word : Value → String
  | .bool true => "true"
  | .bool false => "false"
  | .number (.posInt n) => n.toNat.repr
  | .number (.negInt n) => n.toInt.repr
  | .number (.float text) => text
  | _ => "null"

def spell : Token → List Char
  | .mark c => [c]
  | .leaf (.string s) => '"' :: s.toList ++ ['"']
  | .leaf v => ' ' :: (word v).toList ++ [' ']

def write (v : Value) : String := String.ofList ((valueTokens v).flatMap spell)

/-! ### Reading -/

def marks : List Char := ['[', ']', '{', '}', ',', ':']

def readNumber (text : String) : Number :=
  match Text.parseU64 text, Text.parseI64 text with
  | some n, _ => .posInt (.ofNat n)
  | none, some x => .negInt (.ofInt x)
  | none, none => .float text

def readWord (text : String) : Value :=
  if text = "null" then .null
  else if text = "true" then .bool true
  else if text = "false" then .bool false
  else .number (readNumber text)

/-- What is being read: a string, or what is between strings. -/
inductive Mode where
  | inString
  | outside
  deriving DecidableEq, Repr

/-- The word that ends here, if there is one; its characters were read last first. -/
def flush (read : List Char) : List Token :=
  if read = [] then [] else [.leaf (readWord (String.ofList read.reverse))]

def lex : Mode → List Char → List Char → List Token
  | .inString, _, [] => []
  | .inString, read, c :: cs =>
    if c = '"' then .leaf (.string (String.ofList read.reverse)) :: lex .outside [] cs
    else lex .inString (c :: read) cs
  | .outside, read, [] => flush read
  | .outside, read, c :: cs =>
    if c = '"' then flush read ++ lex .inString [] cs
    else if c = ' ' then flush read ++ lex .outside [] cs
    else if c ∈ marks then flush read ++ .mark c :: lex .outside [] cs
    else lex .outside (c :: read) cs

/-- A value that is still open, with its items or its fields last first. -/
inductive Frame where
  | array (items : List Value)
  | object (fields : List (String × Value)) (key : Option String)

namespace Frame

def add : Frame → Value → Frame
  | array items, v => array (v :: items)
  | object fields (some key), v => object ((key, v) :: fields) none
  | object fields none, .string key => object fields (some key)
  | object fields none, _ => object fields none

def close : Frame → Value
  | array items => .array items.reverse
  | object fields _ => .object fields.reverse

end Frame

def build : List Token → Frame → List Frame → Frame
  | [], f, _ => f
  | .leaf v :: ts, f, around => build ts (f.add v) around
  | .mark c :: ts, f, around =>
    if c = '[' then build ts (.array []) (f :: around)
    else if c = '{' then build ts (.object [] none) (f :: around)
    else if c = ']' ∨ c = '}' then
      match around with
      | g :: around => build ts (g.add f.close) around
      | [] => build ts f []
    else build ts f around

/-- The value in a text. -/
def read (text : String) : Option Value :=
  match build (lex .outside [] text.toList) (.array []) [] with
  | .array (v :: _) => some v
  | _ => none

/-! ### Building what was taken apart -/

mutual

theorem build_valueTokens (v : Value) (ts : List Token) (f : Frame) (around : List Frame) :
    build (valueTokens v ++ ts) f around = build ts (f.add v) around := by
  cases v with
  | null | bool | number | string => rfl
  | array items =>
    have hitems := build_itemTokens items (.mark ']' :: ts) [] (f :: around)
    rw [List.append_nil] at hitems
    show build (itemTokens items ++ [.mark ']'] ++ ts) (.array []) (f :: around) = _
    rw [List.append_assoc, List.singleton_append, hitems]
    show build ts (f.add (.array items.reverse.reverse)) around = _
    rw [List.reverse_reverse]
  | object fields =>
    have hfields := build_fieldTokens fields (.mark '}' :: ts) [] (f :: around)
    rw [List.append_nil] at hfields
    show build (fieldTokens fields ++ [.mark '}'] ++ ts) (.object [] none) (f :: around) = _
    rw [List.append_assoc, List.singleton_append, hfields]
    show build ts (f.add (.object fields.reverse.reverse)) around = _
    rw [List.reverse_reverse]

theorem build_itemTokens (items : List Value) (ts : List Token) (before : List Value)
    (around : List Frame) : build (itemTokens items ++ ts) (.array before) around =
      build ts (.array (items.reverse ++ before)) around := by
  match items with
  | [] => rfl
  | [v] =>
    rw [itemTokens, build_valueTokens v]
    rfl
  | v :: w :: vs =>
    have hrest := build_itemTokens (w :: vs) ts (v :: before) around
    rw [itemTokens, List.append_assoc, build_valueTokens v]
    · show build (itemTokens (w :: vs) ++ ts) (.array (v :: before)) around = _
      rw [hrest]
      simp
    · simp

theorem build_fieldTokens (fields : List (String × Value)) (ts : List Token)
    (before : List (String × Value)) (around : List Frame) :
    build (fieldTokens fields ++ ts) (.object before none) around =
      build ts (.object (fields.reverse ++ before) none) around := by
  match fields with
  | [] => rfl
  | [f] =>
    rw [fieldTokens, build_fieldToken f]
    rfl
  | f :: g :: fs =>
    have hrest := build_fieldTokens (g :: fs) ts (f :: before) around
    rw [fieldTokens, List.append_assoc, build_fieldToken f]
    · show build (fieldTokens (g :: fs) ++ ts) (.object (f :: before) none) around = _
      rw [hrest]
      simp
    · simp

theorem build_fieldToken (f : String × Value) (ts : List Token)
    (before : List (String × Value)) (around : List Frame) :
    build (fieldToken f ++ ts) (.object before none) around =
      build ts (.object (f :: before) none) around := by
  match f with
  | (key, v) =>
    show build (valueTokens v ++ ts) (.object before (some key)) around = _
    rw [build_valueTokens v]
    rfl

end

/-! ### Reading what was written -/

/-- Nothing in the token has to be escaped. -/
def Token.Plain : Token → Prop
  | .mark c => c ∈ marks
  | .leaf (.array _) | .leaf (.object _) => False
  | .leaf (.string s) => ∀ c ∈ s.toList, c ≠ '"' ∧ c ≠ '\\'
  | .leaf v => readWord (word v) = v ∧ word v ≠ "" ∧
      ∀ c ∈ (word v).toList, c ≠ '"' ∧ c ≠ ' ' ∧ c ∉ marks

/-- A value that can be written as it is. -/
def Plain (v : Value) : Prop := ∀ t ∈ valueTokens v, t.Plain

theorem lex_string {cs : List Char} (h : '"' ∉ cs) (before rest : List Char) :
    lex .inString before (cs ++ '"' :: rest) =
      .leaf (.string (String.ofList (before.reverse ++ cs))) :: lex .outside [] rest := by
  induction cs generalizing before with
  | nil =>
    rw [List.nil_append, lex, if_pos rfl, List.append_nil]
  | cons c cs ih =>
    rw [List.mem_cons, not_or] at h
    rw [List.cons_append, lex, if_neg (Ne.symm h.1), ih h.2]
    simp

theorem lex_word {cs : List Char} (h : ∀ c ∈ cs, c ≠ '"' ∧ c ≠ ' ' ∧ c ∉ marks)
    (before rest : List Char) : lex .outside before (cs ++ ' ' :: rest) =
      flush (cs.reverse ++ before) ++ lex .outside [] rest := by
  induction cs generalizing before with
  | nil =>
    rw [List.nil_append, lex, if_neg (by decide), if_pos rfl]
    rfl
  | cons c cs ih =>
    obtain ⟨⟨hquote, hspace, hmark⟩, hcs⟩ := List.forall_mem_cons.mp h
    rw [List.cons_append, lex, if_neg hquote, if_neg hspace, if_neg hmark, ih hcs]
    simp

theorem lex_spelled {t : Token} (h : t.Plain) (rest : List Char) :
    lex .outside [] (spell t ++ rest) = t :: lex .outside [] rest := by
  have hword : ∀ v : Value, readWord (word v) = v → word v ≠ "" →
      (∀ c ∈ (word v).toList, c ≠ '"' ∧ c ≠ ' ' ∧ c ∉ marks) →
      lex .outside [] (' ' :: (word v).toList ++ [' '] ++ rest) = .leaf v :: lex .outside [] rest := by
    intro v hread hne hchars
    have hnil : (word v).toList ≠ [] := fun hnil => hne (String.toList_inj.mp hnil)
    rw [List.cons_append, List.cons_append, lex, if_neg (by decide), if_pos rfl, List.append_assoc,
      List.singleton_append, lex_word hchars, List.append_nil]
    simp [flush, hnil, hread]
  match t, h with
  | .mark c, hmark =>
    have hc : c ≠ '"' ∧ c ≠ ' ' := by
      have hall : ∀ c ∈ marks, c ≠ '"' ∧ c ≠ ' ' := by simp [marks]
      exact hall c hmark
    rw [spell, List.singleton_append, lex, if_neg hc.1, if_neg hc.2,
      if_pos (show c ∈ marks from hmark)]
    rfl
  | .leaf (.string s), hs =>
    have hquote : '"' ∉ s.toList := fun hmem => (hs _ hmem).1 rfl
    rw [spell, List.cons_append, List.cons_append, lex, if_pos rfl, List.append_assoc,
      List.singleton_append, lex_string hquote, List.reverse_nil, List.nil_append,
      String.ofList_toList]
    rfl
  | .leaf .null, ⟨hread, hne, hchars⟩ => exact hword .null hread hne hchars
  | .leaf (.bool b), ⟨hread, hne, hchars⟩ => exact hword (.bool b) hread hne hchars
  | .leaf (.number n), ⟨hread, hne, hchars⟩ => exact hword (.number n) hread hne hchars

theorem lex_spell {ts : List Token} (h : ∀ t ∈ ts, t.Plain) :
    lex .outside [] (ts.flatMap spell) = ts := by
  induction ts with
  | nil => rfl
  | cons t ts ih =>
    obtain ⟨ht, hts⟩ := List.forall_mem_cons.mp h
    rw [List.flatMap_cons, lex_spelled ht, ih hts]

/-- A value that can be written as it is reads back. -/
theorem read_write {v : Value} (h : Plain v) : read (write v) = some v := by
  have hbuild := build_valueTokens v [] (.array []) []
  rw [List.append_nil] at hbuild
  rw [read, write, String.toList_ofList, lex_spell h, hbuild]
  rfl

/-! ### Values that can be written -/

theorem plain_mark {c : Char} : (Token.mark c).Plain ↔ c ∈ marks := Iff.rfl

theorem plain_leaf {v : Value} (h : valueTokens v = [.leaf v]) :
    Plain v ↔ (Token.leaf v).Plain := by
  rw [Plain, h, List.forall_mem_singleton]

theorem plain_null : Plain .null := by
  rw [plain_leaf rfl]
  exact ⟨rfl, by decide, by simp [word, marks]⟩

theorem plain_string {s : String} : Plain (.string s) ↔ ∀ c ∈ s.toList, c ≠ '"' ∧ c ≠ '\\' := by
  rw [plain_leaf rfl, Token.Plain]

theorem plain_posInt (n : UInt64) : Plain (.number (.posInt n)) := by
  have hdigit : ∀ c ∈ n.toNat.repr.toList, c.isDigit = true := by
    intro c hc
    rw [Nat.toList_repr] at hc
    exact Nat.isDigit_of_mem_toDigits (by decide) (by decide) hc
  have hno : ∀ s : String, (∃ c ∈ s.toList, c.isDigit = false) → n.toNat.repr ≠ s := by
    rintro s ⟨c, hc, hfalse⟩ rfl
    rw [hdigit c hc] at hfalse
    cases hfalse
  have hne : n.toNat.repr ≠ "" := by
    intro hnil
    have hlist := congrArg String.toList hnil
    rw [Nat.toList_repr] at hlist
    exact Nat.toDigits_ne_nil hlist
  rw [plain_leaf rfl]
  refine ⟨?_, hne, ?_⟩
  · show readWord n.toNat.repr = _
    rw [readWord, if_neg (hno _ ⟨'n', by decide, by decide⟩),
      if_neg (hno _ ⟨'t', by decide, by decide⟩), if_neg (hno _ ⟨'f', by decide, by decide⟩),
      readNumber, Text.parseU64_repr n.toNat_lt]
    simp
  · intro c hc
    have hall : ('"' :: ' ' :: marks).all (fun m => !m.isDigit) = true := rfl
    have hmem : c ∉ '"' :: ' ' :: marks := by
      intro hmem
      have hfalse := List.all_eq_true.mp hall c hmem
      rw [hdigit c hc] at hfalse
      cases hfalse
    simpa only [List.mem_cons, not_or] using hmem

/-- An array can be written when all of its items can. -/
theorem plain_array {items : List Value} (h : ∀ v ∈ items, Plain v) : Plain (.array items) := by
  have hitems : ∀ t ∈ itemTokens items, t.Plain := by
    induction items with
    | nil => exact List.forall_mem_nil _
    | cons v vs ih =>
      obtain ⟨hv, hvs⟩ := List.forall_mem_cons.mp h
      cases vs with
      | nil => exact hv
      | cons w vs =>
        rw [itemTokens, List.forall_mem_append, List.forall_mem_cons]
        · exact ⟨hv, by simp [plain_mark, marks], ih hvs⟩
        · simp
  show ∀ t ∈ .mark '[' :: itemTokens items ++ [.mark ']'], t.Plain
  simpa [or_imp, forall_and, plain_mark, marks] using hitems

/-- An object can be written when all of its keys and values can. -/
theorem plain_object {fields : List (String × Value)}
    (h : ∀ f ∈ fields, Plain (.string f.1) ∧ Plain f.2) : Plain (.object fields) := by
  have hfield : ∀ f : String × Value, Plain (.string f.1) ∧ Plain f.2 →
      ∀ t ∈ fieldToken f, t.Plain := by
    rintro ⟨key, v⟩ ⟨hkey, hv⟩
    rw [fieldToken, List.forall_mem_cons, List.forall_mem_cons]
    exact ⟨(plain_leaf rfl).mp hkey, by simp [plain_mark, marks], hv⟩
  have hfields : ∀ t ∈ fieldTokens fields, t.Plain := by
    induction fields with
    | nil => exact List.forall_mem_nil _
    | cons f fs ih =>
      obtain ⟨hf, hfs⟩ := List.forall_mem_cons.mp h
      cases fs with
      | nil => exact hfield f hf
      | cons g fs =>
        rw [fieldTokens, List.forall_mem_append, List.forall_mem_cons]
        · exact ⟨hfield f hf, by simp [plain_mark, marks], ih hfs⟩
        · simp
  show ∀ t ∈ .mark '{' :: fieldTokens fields ++ [.mark '}'], t.Plain
  simpa [or_imp, forall_and, plain_mark, marks] using hfields

end Json

end Xylitol.Apkpure
