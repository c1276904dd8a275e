import ChainSync.Text.Hex
import ChainSync.Toml.Scan

/-!
# Quoted text of a document

Text stands in double quotes, where a backslash escapes, or in single
quotes, where nothing does. In three quotes it may span lines, and up to
two more quotes before the closing three belong to the text.
-/

namespace ChainSync.Toml.Quoted

def hexValue? (c : Char) : Option Nat :=
  if c.toNat < 128 then Hex.digitValue? c.toNat.toUInt8 else none

/-- The character whose number these hexadecimal digits write. -/
def scalar? (digits : List Char) : Option Char := do
  let code ← digits.foldlM (fun acc c => return 16 * acc + (← hexValue? c)) 0
  if code.isValidChar then some (Char.ofNat code) else none

def simpleEscape? : Char → Option Char
  | 'b' => some '\x08'
  | 't' => some '\t'
  | 'n' => some '\n'
  | 'f' => some '\x0c'
  | 'r' => some '\r'
  | '"' => some '"'
  | '\\' => some '\\'
  | _ => none

def consOn (c : Char) (r : List Char × List Char) : List Char × List Char :=
  (c :: r.1, r.2)

/-! ## On one line -/

/-- A text behind its opening double quote. -/
def basic : Scan (List Char)
  | [] => none
  | '"' :: rest => some ([], rest)
  | '\\' :: 'u' :: a :: b :: c :: d :: rest => do
    return consOn (← scalar? [a, b, c, d]) (← basic rest)
  | '\\' :: 'U' :: a :: b :: c :: d :: e :: f :: g :: h :: rest => do
    return consOn (← scalar? [a, b, c, d, e, f, g, h]) (← basic rest)
  | '\\' :: c :: rest => do return consOn (← simpleEscape? c) (← basic rest)
  | c :: rest => if isVisible c then (basic rest).map (consOn c) else none

/-- A text behind its opening single quote. -/
def literal : Scan (List Char)
  | [] => none
  | c :: rest =>
    if c = '\'' then some ([], rest)
    else if isVisible c then (literal rest).map (consOn c)
    else none

/-! ## Over several lines -/

/-- Behind the closing three quotes: those of the next two that are quotes too end the text. -/
def closing (quote : Char) : List Char → List Char × List Char
  | a :: b :: rest =>
    if a = quote && b = quote then ([quote, quote], rest)
    else if a = quote then ([quote], b :: rest)
    else ([], a :: b :: rest)
  | [a] => if a = quote then ([quote], []) else ([], [a])
  | [] => ([], [])

/-- Whether only blanks stand before the end of the line. -/
def endsLine (cs : List Char) : Bool :=
  (newline? (skipBlanks cs)).isSome

/-- A text behind its opening three double quotes; `skipping` tells that blanks and line breaks are
left out, as they are behind a backslash that ends its line. -/
def basicLines (skipping : Bool) : Scan (List Char)
  | [] => none
  | '"' :: '"' :: '"' :: rest => some (closing '"' rest)
  | '\r' :: '\n' :: rest =>
    if skipping then basicLines true rest else (basicLines false rest).map (consOn '\n')
  | '\\' :: 'u' :: a :: b :: c :: d :: rest => do
    return consOn (← scalar? [a, b, c, d]) (← basicLines false rest)
  | '\\' :: 'U' :: a :: b :: c :: d :: e :: f :: g :: h :: rest => do
    return consOn (← scalar? [a, b, c, d, e, f, g, h]) (← basicLines false rest)
  | '\\' :: c :: rest =>
    if endsLine (c :: rest) then
      if c = '\r' then basicLines true (c :: rest) else basicLines true rest
    else do return consOn (← simpleEscape? c) (← basicLines false rest)
  | c :: rest =>
    if skipping && (isBlank c || c = '\n') then basicLines true rest
    else if c = '\n' || isVisible c then (basicLines false rest).map (consOn c)
    else none

/-- A text behind its opening three single quotes. -/
def literalLines : Scan (List Char)
  | [] => none
  | '\'' :: '\'' :: '\'' :: rest => some (closing '\'' rest)
  | '\r' :: '\n' :: rest => (literalLines rest).map (consOn '\n')
  | c :: rest =>
    if c = '\n' || isVisible c then (literalLines rest).map (consOn c) else none

/-- A line break right behind the opening quotes is not part of the text. -/
def afterOpening (cs : List Char) : List Char :=
  (newline? cs).getD cs

/-- A text with its quotes, on one line. -/
def line : Scan String
  | '"' :: rest => (basic rest).map fun r => (String.ofList r.1, r.2)
  | '\'' :: rest => (literal rest).map fun r => (String.ofList r.1, r.2)
  | _ => none

/-- A text with its quotes. -/
def text : Scan String
  | '"' :: '"' :: '"' :: rest =>
    (basicLines false (afterOpening rest)).map fun r => (String.ofList r.1, r.2)
  | '\'' :: '\'' :: '\'' :: rest =>
    (literalLines (afterOpening rest)).map fun r => (String.ofList r.1, r.2)
  | cs => line cs

end ChainSync.Toml.Quoted
