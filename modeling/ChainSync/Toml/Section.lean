import ChainSync.Toml.Value

/-!
# Sections

A section of a configuration is written as a table or, with its fields in
order, as an array. Fields that are missing take what they have by
default; unknown ones are passed over.
-/

namespace ChainSync.Toml

inductive Section
  | named (fields : Fields)
  | listed (items : List Value)

namespace Value

/-- A point in time has fields of its own, none of which any section knows. -/
def section? : Value → Option Section
  | table _ fields => some (.named fields)
  | array items => some (.listed items)
  | tables elements => some (.listed (elements.map (table .header)))
  | moment _ => some (.named [])
  | _ => none

def text? : Value → Option String
  | text s => some s
  | _ => none

def flag? : Value → Option Bool
  | boolean b => some b
  | _ => none

/-- A whole number up to `max`. -/
def natUpTo? (max : Nat) : Value → Option Nat
  | integer n => if 0 ≤ n ∧ n ≤ max then some n.toNat else none
  | _ => none

def word? (v : Value) : Option UInt32 :=
  (v.natUpTo? 0xFFFFFFFF).map Nat.toUInt32

/-- A whole number in 64 bits. -/
def nat? (v : Value) : Option Nat :=
  v.natUpTo? 0xFFFFFFFFFFFFFFFF

def texts? : Value → Option (List String)
  | array items => items.mapM text?
  | _ => none

end Value

namespace Section

/-- The field of this name, or at this place in an array. -/
def get? (place : Nat) (name : String) : Section → Option Value
  | named fields => Assoc.get? name fields
  | listed items => items[place]?

/-- Reads one field; `none` means that it is there and of the wrong kind. -/
def read {α : Type} (s : Section) (place : Nat) (name : String) (absent : α)
    (kind : Value → Option α) : Option α :=
  match s.get? place name with
  | none => some absent
  | some v => kind v

end Section

end ChainSync.Toml
