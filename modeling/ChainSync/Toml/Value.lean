import ChainSync.Assoc

/-!
# Values of a document

Documents are in TOML. Numbers with a fraction and points in time are kept
as they are spelled, since nothing computes with them. A table remembers
how it was defined, because that decides what may still be added to it.
-/

namespace ChainSync.Toml

/-- How a table came to be. -/
inductive Origin
  /-- By its own header; also the document itself. -/
  | header
  /-- By the header of a table inside it. -/
  | implied
  /-- By a dotted key. -/
  | dotted
  /-- In braces, which leaves nothing to add. -/
  | inline
deriving DecidableEq

inductive Value
  | text (s : String)
  | integer (n : Int)
  | real (spelling : String)
  | moment (spelling : String)
  | boolean (b : Bool)
  | array (items : List Value)
  | table (origin : Origin) (fields : List (String × Value))
  /-- Tables defined one by one under a header in double brackets. -/
  | tables (elements : List (List (String × Value)))

abbrev Fields := List (String × Value)

namespace Fields

/-- Applies `f` to the table at a path, which may create tables on the way. Only dotted keys stop
at a table that has a header of its own. -/
def within (isDotted : Bool) (f : Origin → Fields → Option Fields) :
    List String → Origin → Fields → Option Fields
  | [], origin, fields => f origin fields
  | k :: path, _, fields => do
    match Assoc.get? k fields with
    | none =>
      let origin := if isDotted then Origin.dotted else .implied
      return Assoc.set k (.table origin (← within isDotted f path origin [])) fields
    | some (.table origin inner) =>
      if origin = .inline || (isDotted && origin = .header) then none
      else return Assoc.set k (.table origin (← within isDotted f path origin inner)) fields
    | some (.tables elements) =>
      let last ← within isDotted f path .header (elements.getLastD [])
      return Assoc.set k (.tables (elements.dropLast ++ [last])) fields
    | some _ => none

/-- Defines a key of a table. Dotted keys add only to tables that dotted keys made. -/
def define (path : List String) (k : String) (v : Value) : Origin → Fields → Option Fields :=
  within true (fun origin fields =>
    if (origin == .dotted) == path.isEmpty || Assoc.contains k fields then none
    else some (Assoc.set k v fields)) path

/-- Opens the table of a header. -/
def openTable (path : List String) (k : String) (fields : Fields) : Option Fields :=
  within false (fun _ fields =>
    match Assoc.get? k fields with
    | none => some (Assoc.set k (.table .header []) fields)
    | some (.table .implied inner) => some (Assoc.set k (.table .header inner) fields)
    | some _ => none) path .header fields

/-- Opens the next table of a header in double brackets. -/
def openElement (path : List String) (k : String) (fields : Fields) : Option Fields :=
  within false (fun _ fields =>
    match Assoc.get? k fields with
    | none => some (Assoc.set k (.tables [[]]) fields)
    | some (.tables elements) => some (Assoc.set k (.tables (elements ++ [[]])) fields)
    | some _ => none) path .header fields

/-- The table that pairs of dotted keys and values make in braces. -/
def ofPairs : List (List String × String × Value) → Option Fields
  | pairs => pairs.foldlM (fun fields (path, k, v) => define path k v .inline fields) []

end Fields

end ChainSync.Toml
