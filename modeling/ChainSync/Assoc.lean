/-!
# Association lists

Finite maps as lists of pairs. `set` and `erase` keep each key at most
once; a new key goes to the end, so a list also remembers its order.
-/

namespace ChainSync.Assoc

variable {α β : Type} [DecidableEq α]

def get? (k : α) : List (α × β) → Option β
  | [] => none
  | (a, b) :: rest => if a = k then some b else get? k rest

def contains (k : α) (l : List (α × β)) : Bool :=
  (get? k l).isSome

def erase (k : α) (l : List (α × β)) : List (α × β) :=
  l.filter fun e => e.1 ≠ k

def set (k : α) (b : β) : List (α × β) → List (α × β)
  | [] => [(k, b)]
  | (a, c) :: rest => if a = k then (a, b) :: rest else (a, c) :: set k b rest

def keys (l : List (α × β)) : List α :=
  l.map (·.1)

end ChainSync.Assoc
