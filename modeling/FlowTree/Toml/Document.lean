import FlowTree.Toml.Number
import FlowTree.Toml.Table
import FlowTree.Toml.Text

/-!
# Configuration texts

A text is a list of lines that bind keys and of headers that open tables. `Toml.parse?` reads it
into the table that it describes.
-/

namespace FlowTree.Toml

/-- How many arrays and inline tables may lie around a value, and how many steps a key may have. -/
def nestingLimit : Nat := 79

def dropGaps (s : List Char) : List Char :=
  s.dropWhile isGap

/-! ### Keys -/

def isBare (c : Char) : Bool :=
  c.isAlphanum || c = '-' || c = '_'

/-- One step of a key. -/
def step? : List Char → Option (String × List Char)
  | [] => none
  | c :: s =>
    if c = '\x22' ∨ c = '\'' then string?.line? (c :: s)
    else
      let cs := (c :: s).takeWhile isBare
      if cs = [] then none else some (String.ofList cs, (c :: s).dropWhile isBare)

/-- A key with at most `limit` steps, and the gaps around it. -/
def steps? : Nat → List Char → Option (List String × List Char)
  | 0, _ => none
  | limit + 1, s => do
    let (k, s) ← step? (dropGaps s)
    match dropGaps s with
    | '.' :: s => (steps? limit s).map fun (ks, rest) => (k :: ks, rest)
    | s => some ([k], s)

/-- A key as its path and its last step. -/
def key? (s : List Char) : Option (List String × String × List Char) := do
  let (ks, s) ← steps? nestingLimit s
  return (ks.dropLast, ← ks.getLast?, s)

/-! ### Blanks between lines -/

/-- The text behind a comment, if it starts with one. -/
def dropComment : List Char → List Char
  | '#' :: s => s.dropWhile isPlain
  | s => s

/-- The text behind gaps, comments and line breaks. A comment must end with a line break. Every
line takes one unit of fuel. -/
def dropLines? : Nat → List Char → Option (List Char)
  | 0, _ => none
  | fuel + 1, s =>
    match dropGaps s with
    | '#' :: s => do dropLines? fuel (← dropBreak? (dropComment ('#' :: s)))
    | s => match dropBreak? s with
      | some s => dropLines? fuel s
      | none => some s

/-- The text behind the end of a line. -/
def dropEnd? (s : List Char) : Option (List Char) :=
  match dropComment (dropGaps s) with
  | [] => some []
  | s => dropBreak? s

/-! ### Values -/

def dropWord? (word s : List Char) : Option (List Char) :=
  if word.isPrefixOf s then some (s.drop word.length) else none

/-- A value that holds no other values. -/
def scalar? (s : List Char) : Option (Toml × List Char) :=
  match s with
  | '\x22' :: _ | '\'' :: _ => (string? s).map fun (t, rest) => (str t, rest)
  | _ => match dropWord? ['t', 'r', 'u', 'e'] s with
    | some rest => some (bool true, rest)
    | none => match dropWord? ['f', 'a', 'l', 's', 'e'] s with
      | some rest => some (bool false, rest)
      | none => match Moment.read? s with
        | some (m, rest) => some (moment m, rest)
        | none => number? s

mutual

/-- A value at the front of a text, with at most `levels` arrays and inline tables nested in it.
Every call for a part of a text takes one unit of fuel. -/
def value? : Nat → Nat → List Char → Option (Toml × List Char)
  | 0, _, _ => none
  | fuel + 1, levels, s =>
    match s with
    | '[' :: s => if levels = 0 then none else
      (items? fuel (levels - 1) s).map fun (vs, rest) => (arr vs, rest)
    | '\x7b' :: s => if levels = 0 then none else
      match dropGaps s with
      | '\x7d' :: rest => some (table [], rest)
      | s => do
        let (bs, rest) ← bindings? fuel (levels - 1) s
        return (table (closeSlots (← Slots.bindAll? [] bs)), rest)
    | s => scalar? s

/-- The elements of an array up to its bracket, with gaps, comments and line breaks between them. -/
def items? : Nat → Nat → List Char → Option (List Toml × List Char)
  | 0, _, _ => none
  | fuel + 1, levels, s => do
    match ← dropLines? (s.length + 1) s with
    | ']' :: rest => some ([], rest)
    | s =>
      let (v, s) ← value? fuel levels s
      match ← dropLines? (s.length + 1) s with
      | ',' :: s => (items? fuel levels s).map fun (vs, rest) => (v :: vs, rest)
      | ']' :: rest => some ([v], rest)
      | _ => none

/-- The bindings of an inline table up to its brace, all on one line. -/
def bindings? : Nat → Nat → List Char → Option (List Slots.Binding × List Char)
  | 0, _, _ => none
  | fuel + 1, levels, s => do
    let (path, key, s) ← key? s
    let (value, s) ← value? fuel levels (dropGaps (← dropChar? '=' s))
    match dropGaps s with
    | ',' :: s => (bindings? fuel levels s).map fun (bs, rest) => (⟨path, key, value⟩ :: bs, rest)
    | '\x7d' :: rest => some ([⟨path, key, value⟩], rest)
    | _ => none

end

/-! ### Lines -/

inductive Line
  | binding (b : Slots.Binding)
  | header (path : List String) (key : String)
  | arrayHeader (path : List String) (key : String)

/-- A binding or a header with the end of its line. -/
def line? (s : List Char) : Option (Line × List Char) :=
  match s with
  | '[' :: '[' :: s => do
    let (path, key, s) ← key? s
    let s ← dropChar? ']' (← dropChar? ']' s)
    return (.arrayHeader path key, ← dropEnd? s)
  | '[' :: s => do
    let (path, key, s) ← key? s
    return (.header path key, ← dropEnd? (← dropChar? ']' s))
  | s => do
    let (path, key, s) ← key? s
    let (value, s) ← value? (2 * s.length + 1) nestingLimit (dropGaps (← dropChar? '=' s))
    return (.binding ⟨path, key, value⟩, ← dropEnd? s)

/-- All lines of a text. Every line takes one unit of fuel. -/
def lines? : Nat → List Char → Option (List Line)
  | 0, _ => none
  | fuel + 1, s =>
    match dropGaps s with
    | [] => some []
    | '#' :: s => do lines? fuel (← dropEnd? ('#' :: s))
    | s => match dropBreak? s with
      | some s => lines? fuel s
      | none => do
        let (l, s) ← line? s
        return l :: (← lines? fuel s)

/-! ### Sections -/

/-- The bindings in front of the first header, and what follows them. -/
def splitBindings : List Line → List Slots.Binding × List Line
  | .binding b :: ls => let (bs, rest) := splitBindings ls
    (b :: bs, rest)
  | ls => ([], ls)

/-- The table of a text after its lines, where each header takes the bindings that follow it. -/
def addSections? : List Line → Slots → Option Slots
  | [], slots => some slots
  | .binding _ :: ls, slots => addSections? ls slots
  | .header path key :: ls, slots => do
    addSections? ls (← slots.declare? path key (splitBindings ls).1)
  | .arrayHeader path key :: ls, slots => do
    addSections? ls (← slots.append? path key (splitBindings ls).1)

/-- The table that a text describes. -/
def parse? (text : String) : Option Toml := do
  let s := match text.toList with
    | '\uFEFF' :: s => s
    | s => s
  let lines ← lines? (s.length + 1) s
  let slots ← addSections? lines (← Slots.bindAll? [] (splitBindings lines).1)
  return table (closeSlots slots)

end FlowTree.Toml
