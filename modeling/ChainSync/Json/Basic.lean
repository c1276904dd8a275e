import ChainSync.Bytes
import ChainSync.Peer.Rate

/-!
# Structured values

What replies, reports and scripts are made of. Numbers of 64 bits are
written as decimal text and read in either form; whatever is absent reads
as `null`.
-/

namespace ChainSync

inductive Json
  | null
  | bool (b : Bool)
  | int (n : Int)
  | rate (r : Rate)
  | text (s : String)
  | list (items : List Json)
  | record (fields : List (String × Json))
deriving Inhabited

class ToJson (α : Type) where
  toJson : α → Json

export ToJson (toJson)

namespace Json

/-! ## Writing -/

instance : ToJson Json := ⟨id⟩
instance : ToJson Bool := ⟨bool⟩
instance : ToJson Int := ⟨int⟩
instance : ToJson Nat := ⟨fun n => int n⟩
instance : ToJson UInt16 := ⟨fun n => int n.toNat⟩
instance : ToJson UInt32 := ⟨fun n => int n.toNat⟩
instance : ToJson UInt64 := ⟨fun n => text (toString n.toNat)⟩
instance : ToJson Rate := ⟨rate⟩
instance : ToJson String := ⟨text⟩
instance {α : Type} [ToJson α] : ToJson (Option α) := ⟨fun o => o.elim null toJson⟩
instance {α : Type} [ToJson α] : ToJson (List α) := ⟨fun xs => list (xs.map toJson)⟩

/-- A rate, where only finite numbers have a place. -/
def ofFinite (r : Rate) : Json :=
  if r.isFinite then rate r else null

/-! ## Reading -/

def field? (name : String) : Json → Option Json
  | record fields => (fields.find? fun f => f.1 = name).map (·.2)
  | _ => none

def field (j : Json) (name : String) : Json :=
  (j.field? name).getD null

def has (j : Json) (name : String) : Bool :=
  (j.field? name).isSome

def items : Json → List Json
  | list items => items
  | _ => []

def text? : Json → Option String
  | text s => some s
  | _ => none

def bool? : Json → Option Bool
  | bool b => some b
  | _ => none

def int? : Json → Option Int
  | int n => some n
  | text s => s.toInt?
  | _ => none

def nat? (j : Json) : Option Nat :=
  j.int?.bind fun n => if n < 0 then none else some n.toNat

/-- The number in a field, or a given one where the field is absent. -/
def natOr (j : Json) (name : String) (absent : Nat) : Nat :=
  ((j.field name).nat?).getD absent

def nat (j : Json) (name : String) : Nat :=
  j.natOr name 0

def flagOr (j : Json) (name : String) (absent : Bool) : Bool :=
  ((j.field name).bool?).getD absent

def flag (j : Json) (name : String) : Bool :=
  j.flagOr name false

def str (j : Json) (name : String) : String :=
  ((j.field name).text?).getD ""

def listOf (j : Json) (name : String) : List Json :=
  (j.field name).items

end Json

end ChainSync
