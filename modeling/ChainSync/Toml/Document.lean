import ChainSync.Toml.Number

/-!
# Documents

A document is a sequence of lines: comments, headers of tables, and keys
with their values. Values in brackets may span lines. Nothing may be
nested more than 79 deep, and no key may have more than 79 parts.
-/

namespace ChainSync.Toml

/-- One less than this many parts or levels are the most. -/
def depthLimit : Nat := 80

/-! ## Keys -/

def isBareKey (c : Char) : Bool :=
  c.isAlphanum || c = '-' || c = '_'

def keyPart (cs : List Char) : Option (String × List Char) :=
  match cs.takeWhile isBareKey with
  | [] => Quoted.line cs
  | part => some (String.ofList part, cs.dropWhile isBareKey)

/-- The parts of a key, with the blanks around each of them. -/
def keyParts : Nat → Scan (List String)
  | 0, _ => none
  | n + 1, cs => do
    let (part, rest) ← keyPart (skipBlanks cs)
    match skipBlanks rest with
    | '.' :: rest =>
      let (parts, rest) ← keyParts n rest
      return (part :: parts, rest)
    | rest => return ([part], rest)

/-- A key: the path to its table, and its name there. -/
def key (cs : List Char) : Option ((List String × String) × List Char) := do
  let (parts, rest) ← keyParts (depthLimit - 1) cs
  return ((parts.dropLast, parts.getLastD ""), rest)

/-! ## Values -/

def word (w : List Char) (v : Value) (cs : List Char) : Option (Value × List Char) :=
  if w.isPrefixOf cs then some (v, cs.drop w.length) else none

mutual

/-- A value, with `depth` more levels to nest in. -/
def value : Nat → Nat → Scan Value
  | 0, _, _ => none
  | fuel + 1, depth, cs =>
    match cs with
    | '"' :: _ => (Quoted.text cs).map fun r => (.text r.1, r.2)
    | '\'' :: _ => (Quoted.text cs).map fun r => (.text r.1, r.2)
    | '[' :: rest =>
      if depth = 0 then none
      else (items fuel (depth - 1) (skipLines false rest)).map fun r => (.array r.1, r.2)
    | '{' :: rest =>
      if depth = 0 then none
      else
        match skipBlanks rest with
        | '}' :: rest => some (.table .inline [], rest)
        | rest => do
          let (found, rest) ← pairs fuel (depth - 1) rest
          return (.table .inline (← Fields.ofPairs found), rest)
    | 't' :: _ => word ['t', 'r', 'u', 'e'] (.boolean true) cs
    | 'f' :: _ => word ['f', 'a', 'l', 's', 'e'] (.boolean false) cs
    | _ => Number.value cs

/-- The rest of an array. -/
def items : Nat → Nat → Scan (List Value)
  | 0, _, _ => none
  | fuel + 1, depth, cs =>
    match cs with
    | ']' :: rest => some ([], rest)
    | _ => do
      let (v, rest) ← value fuel depth cs
      match skipLines false rest with
      | ',' :: rest =>
        let (vs, rest) ← items fuel depth (skipLines false rest)
        return (v :: vs, rest)
      | ']' :: rest => return ([v], rest)
      | _ => none

/-- The rest of a table in braces. -/
def pairs : Nat → Nat → Scan (List (List String × String × Value))
  | 0, _, _ => none
  | fuel + 1, depth, cs => do
    let ((path, k), rest) ← key cs
    match rest with
    | '=' :: rest =>
      let (v, rest) ← value fuel depth (skipBlanks rest)
      match skipBlanks rest with
      | ',' :: rest =>
        let (more, rest) ← pairs fuel depth rest
        return ((path, k, v) :: more, rest)
      | '}' :: rest => return ([(path, k, v)], rest)
      | _ => none
    | _ => none

end

/-! ## Lines -/

/-- What has been read, and under which header the next line stands. -/
structure Document where
  fields : Fields
  header : List String

/-- The rest of a header's line. -/
def headerEnd (closing cs : List Char) : Option (List Char) :=
  if closing.isPrefixOf cs then lineRest? (cs.drop closing.length) else none

/-- A line that is neither empty nor a comment alone. -/
def statement (d : Document) (cs : List Char) : Option (Document × List Char) :=
  match cs with
  | '[' :: '[' :: rest => do
    let ((path, k), rest) ← key rest
    let rest ← headerEnd [']', ']'] rest
    return (⟨← Fields.openElement path k d.fields, path ++ [k]⟩, rest)
  | '[' :: rest => do
    let ((path, k), rest) ← key rest
    let rest ← headerEnd [']'] rest
    return (⟨← Fields.openTable path k d.fields, path ++ [k]⟩, rest)
  | _ => do
    let ((path, k), rest) ← key cs
    match rest with
    | '=' :: rest =>
      let (v, rest) ← value (2 * rest.length + 2) (depthLimit - 1) (skipBlanks rest)
      let rest ← lineRest? rest
      let fields ← Fields.within false (Fields.define path k v) d.header .header d.fields
      return ({ d with fields }, rest)
    | _ => none

/-- The lines of a document, of which there are at most `n`. -/
def lines : Nat → Document → List Char → Option Document
  | 0, _, _ => none
  | n + 1, d, cs =>
    match skipBlanks cs with
    | [] => some d
    | '#' :: rest => (lineEnd? (skipComment ('#' :: rest))).bind (lines n d)
    | cs =>
      match newline? cs with
      | some rest => lines n d rest
      | none => do
        let (d, rest) ← statement d cs
        lines n d rest

def parse? (s : String) : Option Fields :=
  let cs := match s.toList with
    | '\uFEFF' :: rest => rest
    | cs => cs
  (lines (cs.length + 1) ⟨[], []⟩ cs).map (·.fields)

end ChainSync.Toml
