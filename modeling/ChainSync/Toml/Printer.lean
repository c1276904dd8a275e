import ChainSync.Text.Hex

/-!
# Writing documents

Text is written in double quotes if nothing in it needs escaping, else in
single quotes, else in three double quotes, else in three single quotes,
whichever is the first that holds it as it is; if none does, with escapes.
-/

namespace ChainSync.Toml.Printer

/-- The most of `q` in a row. -/
def longestRun (q : Char) (cs : List Char) : Nat :=
  (cs.foldl (fun (best, run) c =>
    let run := if c = q then run + 1 else 0
    (max best run, run)) (0, 0)).1

/-- Controls that need an escape wherever they stand. -/
def isControl (c : Char) : Bool :=
  (c < ' ' && c ≠ '\t' && c ≠ '\n') || c = '\x7f'

inductive Style
  | basic
  | literal
  | basicLines
  | literalLines
deriving DecidableEq

/-- The first style that holds the text unescaped, else one that escapes. -/
def style (cs : List Char) : Style :=
  let escapes := cs.any isControl
  let lines := cs.contains '\n'
  let backslash := cs.contains '\\'
  let doubles := longestRun '"' cs
  let singles := longestRun '\'' cs
  if !escapes && !backslash && doubles = 0 && !lines then .basic
  else if !escapes && singles = 0 && !lines then .literal
  else if !escapes && !backslash && doubles ≤ 2 then .basicLines
  else if !escapes && singles ≤ 2 then .literalLines
  else if lines then .basicLines
  else .basic

def escapeControl (c : Char) : String :=
  if c = '\x08' then "\\b"
  else if c = '\t' then "\\t"
  else if c = '\n' then "\\n"
  else if c = '\x0c' then "\\f"
  else if c = '\r' then "\\r"
  else "\\u00" ++ String.ofList ((Hex.encodeByte c.toNat.toUInt8).map Char.toUpper)

/-- Escapes what a text in double quotes cannot hold. Up to `doubles` quotes in a row may stay, of
which there are `run` so far. -/
def escape (lines : Bool) (doubles : Nat) : Nat → List Char → String
  | _, [] => ""
  | run, c :: rest =>
    if c = '"' then
      if run < doubles then "\"" ++ escape lines doubles (run + 1) rest
      else "\\\"" ++ escape lines doubles 0 rest
    else
      let shown :=
        if c = '\\' then "\\\\"
        else if c = '\n' && lines then "\n"
        else if c < ' ' || c = '\x7f' then escapeControl c
        else String.singleton c
      shown ++ escape lines doubles 0 rest

def text (s : String) : String :=
  let cs := s.toList
  let opening := if cs.contains '\n' then "\n" else ""
  match style cs with
  | .basic => "\"" ++ escape false 0 0 cs ++ "\""
  | .literal => "'" ++ s ++ "'"
  | .basicLines => "\"\"\"" ++ opening ++ escape true 2 0 cs ++ "\"\"\""
  | .literalLines => "'''" ++ opening ++ s ++ "'''"

/-- An array; from two elements on each stands on a line of its own. -/
def array (items : List String) : String :=
  match items with
  | [] => "[]"
  | [item] => "[" ++ item ++ "]"
  | items => "[\n" ++ String.join (items.map fun item => "    " ++ item ++ ",\n") ++ "]"

def field (name value : String) : String :=
  name ++ " = " ++ value ++ "\n"

def optional (name : String) (value : Option String) : String :=
  value.elim "" (field name)

def header (name : String) : String :=
  "\n[" ++ name ++ "]\n"

end ChainSync.Toml.Printer
