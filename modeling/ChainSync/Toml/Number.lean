import ChainSync.Toml.Quoted
import ChainSync.Toml.Value

/-!
# Numbers and points in time of a document

Underscores may stand between digits. Whole numbers have 64 bits with a
sign; in base sixteen, eight and two they have none. Numbers with a
fraction or an exponent only have to be readable as finite ones.
-/

namespace ChainSync.Toml.Number

/-- Digits with single underscores between them; the digits are returned without. -/
def digitsFrom (isDigit : Char → Bool) : List Char → List Char × List Char
  | [] => ([], [])
  | '_' :: c :: rest =>
    if isDigit c then
      let (ds, rest) := digitsFrom isDigit rest
      (c :: ds, rest)
    else ([], '_' :: c :: rest)
  | c :: rest =>
    if isDigit c then
      let (ds, rest) := digitsFrom isDigit rest
      (c :: ds, rest)
    else ([], c :: rest)

def digits (isDigit : Char → Bool) : Scan (List Char)
  | c :: rest =>
    if isDigit c then
      let (ds, rest) := digitsFrom isDigit rest
      some (c :: ds, rest)
    else none
  | [] => none

def whole : Scan (List Char)
  | '0' :: rest => some (['0'], rest)
  | cs => digits Char.isDigit cs

def isRadixDigit (radix : Nat) (c : Char) : Bool :=
  match Quoted.hexValue? c with
  | some n => n < radix
  | none => false

def ofDigits (radix : Nat) (ds : List Char) : Nat :=
  ds.foldl (fun acc c => radix * acc + (Quoted.hexValue? c).getD 0) 0

def sign : List Char → Bool × List Char
  | '-' :: rest => (true, rest)
  | '+' :: rest => (false, rest)
  | cs => (false, cs)

def maxInteger : Nat := 0x7FFFFFFFFFFFFFFF

/-! ## Whole numbers -/

def radixInteger (radix : Nat) (cs : List Char) : Option (Value × List Char) := do
  let (ds, rest) ← digits (isRadixDigit radix) cs
  let n := ofDigits radix ds
  if n ≤ maxInteger then some (.integer n, rest) else none

def decimalInteger (cs : List Char) : Option (Value × List Char) := do
  let (negative, cs) := sign cs
  let (ds, rest) ← whole cs
  let n := ofDigits 10 ds
  if negative then
    if n ≤ maxInteger + 1 then some (.integer (-n), rest) else none
  else if n ≤ maxInteger then some (.integer n, rest)
  else none

def integer : Scan Value
  | '0' :: 'x' :: rest => radixInteger 16 rest
  | '0' :: 'o' :: rest => radixInteger 8 rest
  | '0' :: 'b' :: rest => radixInteger 2 rest
  | cs => decimalInteger cs

/-! ## Numbers with a fraction or an exponent -/

/-- Whether `m * 10 ^ e` is nearer to infinity than to any finite number of double precision. -/
def overflows (m : Nat) (e : Int) : Bool :=
  let size := (Nat.toDigits 10 m).length + e
  let limit := Nat.pow 2 1024 - Nat.pow 2 970
  if m = 0 || size < 300 then false
  else if 320 < size then true
  else if 0 ≤ e then limit ≤ m * Nat.pow 10 e.toNat
  else limit * Nat.pow 10 (-e).toNat ≤ m

/-- The digits behind a point. -/
def fraction : Scan (List Char)
  | '.' :: rest => digits Char.isDigit rest
  | cs => some ([], cs)

def exponent : Scan Int
  | c :: rest =>
    if c = 'e' || c = 'E' then do
      let (negative, cs) := sign rest
      let (ds, rest) ← digits Char.isDigit cs
      let n : Int := ofDigits 10 ds
      return (if negative then -n else n, rest)
    else some (0, c :: rest)
  | [] => some (0, [])

def special : Scan Value := fun cs =>
  match (sign cs).2 with
  | 'i' :: 'n' :: 'f' :: rest => some (.real "inf", rest)
  | 'n' :: 'a' :: 'n' :: rest => some (.real "nan", rest)
  | _ => none

/-- How much of the input was read, given what is left of it. -/
def spelling (cs rest : List Char) : String :=
  String.ofList (cs.take (cs.length - rest.length))

def real : Scan Value := fun cs =>
  let plain := do
    let (negative, body) := sign cs
    let (ds, afterWhole) ← whole body
    let (fs, afterFraction) ← fraction afterWhole
    let (e, rest) ← exponent afterFraction
    if rest.length = afterWhole.length then none
    else if !negative && overflows (ofDigits 10 (ds ++ fs)) (e - fs.length) then none
    else some (.real (spelling cs rest), rest)
  plain <|> special cs

/-! ## Points in time -/

/-- Exactly `n` digits, as a number. -/
def fixed (n : Nat) (cs : List Char) : Option (Nat × List Char) :=
  let ds := cs.take n
  if ds.length = n && ds.all Char.isDigit then some (ofDigits 10 ds, cs.drop n) else none

/-- Two digits in a range. -/
def pair (low high : Nat) (cs : List Char) : Option (Nat × List Char) := do
  let (n, rest) ← fixed 2 cs
  if low ≤ n && n ≤ high then some (n, rest) else none

def char (c : Char) : List Char → Option (List Char)
  | a :: rest => if a = c then some rest else none
  | [] => none

def daysIn (year month : Nat) : Nat :=
  if month = 2 then if year % 4 = 0 && (year % 100 ≠ 0 || year % 400 = 0) then 29 else 28
  else if [4, 6, 9, 11].contains month then 30
  else 31

def date (cs : List Char) : Option (List Char) := do
  let (year, cs) ← fixed 4 cs
  let (month, cs) ← pair 1 12 (← char '-' cs)
  let (_, cs) ← pair 1 (daysIn year month) (← char '-' cs)
  return cs

/-- The digits behind the point of the seconds. -/
def secondsFraction : List Char → Option (List Char)
  | '.' :: c :: rest => if c.isDigit then some (rest.dropWhile Char.isDigit) else none
  | '.' :: [] => none
  | cs => some cs

def time (cs : List Char) : Option (List Char) := do
  let (_, cs) ← pair 0 23 cs
  let (_, cs) ← pair 0 59 (← char ':' cs)
  let (_, cs) ← pair 0 60 (← char ':' cs)
  secondsFraction cs

def zone : List Char → Option (List Char)
  | [] => some []
  | c :: rest =>
    if c = 'Z' || c = 'z' then some rest
    else if c = '+' || c = '-' then do
      let (_, cs) ← pair 0 23 rest
      let (_, cs) ← pair 0 59 (← char ':' cs)
      return cs
    else some (c :: rest)

/-- What may follow a date: a time of that day. -/
def timeOfDay : List Char → Option (List Char)
  | [] => none
  | c :: rest => if c = 'T' || c = 't' || c = ' ' then (time rest).bind zone else none

/-- A date, a date with a time, or a time. -/
def moment : Scan Value := fun cs => do
  let rest ← (do
    let rest ← date cs
    return (timeOfDay rest).getD rest) <|> time cs
  return (.moment (spelling cs rest), rest)

/-! ## Any of them -/

def value : Scan Value := fun cs =>
  moment cs <|> real cs <|> integer cs

end ChainSync.Toml.Number
