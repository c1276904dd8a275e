import ChainSync.Bytes

/-!
# Request bodies

Every endpoint that takes a body takes one text field. The field stands in
a JSON object under its name, or alone in a JSON array. Reading goes from
left to right and stops at the end of that value; a value of another kind
is refused for its shape as soon as its kind is known. Bytes are looked at
as characters of the same number, as all structure is written in ASCII;
texts that are read, and no others, have to be UTF-8.
-/

namespace ChainSync.Api

inductive BodyFault
  | notJson
  | wrongShape
deriving DecidableEq

namespace Body

def isBlank (c : Char) : Bool :=
  c == ' ' || c == '\n' || c == '\t' || c == '\r'

def skipBlanks (cs : List Char) : List Char :=
  cs.dropWhile isBlank

def isControl (c : Char) : Bool :=
  c.toNat < 32

/-! ## Text -/

/-- Each byte as the character of its number. -/
def view (bs : Bytes) : List Char :=
  bs.map fun b => Char.ofNat b.toNat

/-- The text that bytes in view spell in UTF-8, if they spell one. -/
def textOf? (cs : List Char) : Option String :=
  Bytes.toString? (cs.map fun c => UInt8.ofNat c.toNat)

def spell (c : Char) : List Char :=
  view (Bytes.ofString (String.singleton c))

def hexValue? (c : Char) : Option Nat :=
  if c.isDigit then some (c.toNat - 48)
  else if 'a' ≤ c ∧ c ≤ 'f' then some (c.toNat - 87)
  else if 'A' ≤ c ∧ c ≤ 'F' then some (c.toNat - 55)
  else none

/-- The number that four hexadecimal digits write. -/
def hex4? (a b c d : Char) : Option Nat := do
  return (← hexValue? a) * 4096 + (← hexValue? b) * 256 + (← hexValue? c) * 16 + (← hexValue? d)

def escaped? : Char → Option Char
  | '"' => some '"'
  | '\\' => some '\\'
  | '/' => some '/'
  | 'b' => some '\x08'
  | 'f' => some '\x0c'
  | 'n' => some '\n'
  | 'r' => some '\r'
  | 't' => some '\t'
  | _ => none

def isLead (n : Nat) : Bool :=
  0xD800 ≤ n && n < 0xDC00

def isTrail (n : Nat) : Bool :=
  0xDC00 ≤ n && n < 0xE000

/-- The bytes of a text behind its opening quote, and what follows its closing one. -/
def scanBytes : List Char → Option (List Char × List Char)
  | [] => none
  | '"' :: rest => some ([], rest)
  | '\\' :: 'u' :: a :: b :: c :: d :: rest =>
    match hex4? a b c d with
    | none => none
    | some n =>
      if isTrail n then none
      else if isLead n then
        match rest with
        | '\\' :: 'u' :: e :: f :: g :: h :: rest =>
          match hex4? e f g h with
          | none => none
          | some m =>
            if isTrail m then
              (scanBytes rest).map fun r =>
                (spell (Char.ofNat (0x10000 + (n - 0xD800) * 0x400 + (m - 0xDC00))) ++ r.1, r.2)
            else none
        | _ => none
      else (scanBytes rest).map fun r => (spell (Char.ofNat n) ++ r.1, r.2)
  | '\\' :: c :: rest =>
    match escaped? c with
    | none => none
    | some e => (scanBytes rest).map fun r => (e :: r.1, r.2)
  | c :: rest => if isControl c then none else (scanBytes rest).map fun r => (c :: r.1, r.2)

def scanText (cs : List Char) : Option (String × List Char) := do
  let (text, rest) ← scanBytes cs
  return (← textOf? text, rest)

/-- Behind a text whose value does not matter. -/
def skipText : List Char → Option (List Char)
  | [] => none
  | '"' :: rest => some rest
  | '\\' :: 'u' :: a :: b :: c :: d :: rest => if (hex4? a b c d).isSome then skipText rest else none
  | '\\' :: c :: rest => if (escaped? c).isSome then skipText rest else none
  | c :: rest => if isControl c then none else skipText rest

/-! ## Numbers -/

structure Numeral where
  /-- The digits of the whole part, then those of the fraction. -/
  digits : List Char
  /-- The power of ten that the last digit counts. -/
  exponent : Int

def takeDigits (cs : List Char) : List Char × List Char :=
  (cs.takeWhile Char.isDigit, cs.dropWhile Char.isDigit)

def natOf (digits : List Char) : Nat :=
  digits.foldl (fun n c => 10 * n + (c.toNat - 48)) 0

def scanDigits (cs : List Char) : Option (List Char × List Char) :=
  let (digits, rest) := takeDigits cs
  if digits.isEmpty then none else some (digits, rest)

def scanFraction : List Char → Option (List Char × List Char)
  | '.' :: rest => scanDigits rest
  | cs => some ([], cs)

def scanExponent : List Char → Option (Int × List Char)
  | 'e' :: rest | 'E' :: rest =>
    match rest with
    | '-' :: rest => (scanDigits rest).map fun r => (-(natOf r.1 : Int), r.2)
    | '+' :: rest => (scanDigits rest).map fun r => (natOf r.1, r.2)
    | rest => (scanDigits rest).map fun r => (natOf r.1, r.2)
  | cs => some (0, cs)

/-- A number, without a zero in front of other digits. -/
def scanNumber (cs : List Char) : Option (Numeral × List Char) := do
  let cs := match cs with
    | '-' :: rest => rest
    | cs => cs
  let (whole, cs) ← scanDigits cs
  if 1 < whole.length ∧ whole.head? = some '0' then
    none
  let (fraction, cs) ← scanFraction cs
  let (exponent, cs) ← scanExponent cs
  return (⟨whole ++ fraction, exponent - fraction.length⟩, cs)

/-- The least number that rounds to no finite binary64 value. -/
def rateBound : Nat := Nat.pow 2 1024 - Nat.pow 2 970

/-- Whether a number is too large for binary64. The first test keeps the powers small. -/
def Numeral.overflows (n : Numeral) : Bool :=
  let digits := n.digits.dropWhile (· == '0')
  let magnitude := digits.length + n.exponent
  if digits.isEmpty || magnitude < 300 then false
  else if 320 < magnitude then true
  else rateBound * Nat.pow 10 (-n.exponent).toNat ≤ natOf digits * Nat.pow 10 n.exponent.toNat

/-! ## Values -/

def scanWord (cs : List Char) : Option (List Char) :=
  ["null", "true", "false"].findSome? fun word =>
    if word.toList.isPrefixOf cs then some (cs.drop word.length) else none

mutual

/-- Behind a value of any kind. -/
def skipValue : Nat → List Char → Option (List Char)
  | 0, _ => none
  | fuel + 1, cs =>
    match skipBlanks cs with
    | '"' :: rest => skipText rest
    | '[' :: rest =>
      match skipBlanks rest with
      | ']' :: rest => some rest
      | rest => skipItems fuel rest
    | '{' :: rest =>
      match skipBlanks rest with
      | '}' :: rest => some rest
      | rest => skipMembers fuel rest
    | cs => (scanWord cs).or ((scanNumber cs).map (·.2))

/-- Behind the items of an array, at least one, and its end. -/
def skipItems : Nat → List Char → Option (List Char)
  | 0, _ => none
  | fuel + 1, cs =>
    match (skipValue fuel cs).map skipBlanks with
    | some (',' :: rest) => skipItems fuel rest
    | some (']' :: rest) => some rest
    | _ => none

/-- Behind the members of an object, at least one, and its end. -/
def skipMembers : Nat → List Char → Option (List Char)
  | 0, _ => none
  | fuel + 1, cs =>
    match skipBlanks cs with
    | '"' :: rest =>
      match (skipText rest).map skipBlanks with
      | some (':' :: rest) =>
        match (skipValue fuel rest).map skipBlanks with
        | some (',' :: rest) => skipMembers fuel rest
        | some ('}' :: rest) => some rest
        | _ => none
      | _ => none
    | _ => none

end

/-- Enough for every value in a text: each level takes a character and two steps. -/
def fuelFor (cs : List Char) : Nat :=
  2 * cs.length + 2

/-- What is wrong where something else was wanted: the shape, if a value of another kind starts here. -/
def mismatch (cs : List Char) : BodyFault :=
  match cs with
  | '[' :: _ | '{' :: _ => .wrongShape
  | '"' :: rest => if (scanText rest).isSome then .wrongShape else .notJson
  | cs =>
    if (scanWord cs).isSome then .wrongShape
    else
      match scanNumber cs with
      | some (n, _) => if n.overflows then .notJson else .wrongShape
      | none => .notJson

def readText (cs : List Char) : Except BodyFault (String × List Char) :=
  match skipBlanks cs with
  | '"' :: rest =>
    match scanText rest with
    | some (text, rest) => .ok (text, rest)
    | none => .error .notJson
  | cs => .error (mismatch cs)

/-- Reads members from a key on, with the field's text if it was met before. -/
def readMembers (name : String) : Nat → Option String → List Char → Except BodyFault String
  | 0, _, _ => .error .notJson
  | fuel + 1, found, cs =>
    match skipBlanks cs with
    | '"' :: rest =>
      match scanText rest with
      | none => .error .notJson
      | some (key, rest) =>
        if key = name ∧ found.isSome then .error .wrongShape
        else
          match skipBlanks rest with
          | ':' :: rest => do
            let (found, rest) ←
              if key = name then (readText rest).map fun r => (some r.1, r.2)
              else match skipValue (fuelFor rest) rest with
                | some rest => .ok (found, rest)
                | none => .error .notJson
            match skipBlanks rest, found with
            | ',' :: rest, found => readMembers name fuel found rest
            | '}' :: _, some text => .ok text
            | '}' :: _, none => .error .wrongShape
            | _, _ => .error .notJson
          | _ => .error .notJson
    | _ => .error .notJson

def readField (name : String) (body : Bytes) : Except BodyFault String :=
  match skipBlanks (view body) with
  | '{' :: rest =>
    match skipBlanks rest with
    | '}' :: _ => .error .wrongShape
    | rest => readMembers name (rest.length + 1) none rest
  | '[' :: rest =>
    match skipBlanks rest with
    | ']' :: _ => .error .wrongShape
    | rest => do
      let (text, rest) ← readText rest
      match skipBlanks rest with
      | ']' :: _ => .ok text
      | _ => .error .notJson
  | cs => .error (mismatch cs)

end Body

end ChainSync.Api
