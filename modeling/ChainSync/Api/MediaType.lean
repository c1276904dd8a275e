/-!
# Media types

What a content type has to say for a body to be read as JSON: the type
`application`, and `json` as the subtype or behind its last plus sign.
Parameters must be well formed and are otherwise ignored.
-/

namespace ChainSync.Api.MediaType

/-- Characters of types, names and unquoted values. -/
def isToken (c : Char) : Bool :=
  c.isAlphanum || "!#$%&'+-.^_\x60|~".toList.contains c

/-- Characters that may stand between quotes. -/
def isQuotable (c : Char) : Bool :=
  31 < c.toNat && c.toNat ≠ 127

/-- Takes a quoted value, of at least one character, and what follows it up to the next parameter. -/
def dropQuoted (cs : List Char) : Option (List Char) :=
  match cs with
  | [] => none
  | first :: cs =>
    if ¬ isQuotable first then none
    else
      let value := cs.takeWhile fun c => isQuotable c && c != '"'
      match cs.drop value.length with
      | '"' :: rest =>
        match rest.dropWhile (· == ' ') with
        | [] => some []
        | ';' :: rest => some rest
        | _ => none
      | _ => none

/-- Takes an unquoted value up to the next parameter; only at the end may it be empty. -/
def dropPlain (cs : List Char) : Option (List Char) :=
  let value := cs.takeWhile isToken
  match cs.drop value.length with
  | [] => some []
  | ';' :: rest => if value.isEmpty then none else some rest
  | _ => none

/-- Whether the text behind a type is a list of parameters, each with a name and a value. -/
def areParameters : Nat → List Char → Bool
  | 0, _ => false
  | fuel + 1, cs =>
    let cs := cs.dropWhile (· == ' ')
    if cs.isEmpty then true
    else
      let name := cs.takeWhile isToken
      match cs.drop name.length with
      | '=' :: '"' :: rest => !name.isEmpty && (dropQuoted rest).any (areParameters fuel ·)
      | '=' :: rest => !name.isEmpty && (dropPlain rest).any (areParameters fuel ·)
      | _ => false

/-- The subtype and the suffix behind its last plus sign, which does not stand first. -/
def splitSuffix (subtype : List Char) : List Char × Option (List Char) :=
  let suffix := (subtype.reverse.takeWhile (· ≠ '+')).reverse
  if suffix.length + 1 < subtype.length then
    (subtype.take (subtype.length - suffix.length - 1), some suffix)
  else (subtype, none)

def isJsonSubtype (subtype : List Char) : Bool :=
  let (name, suffix) := splitSuffix subtype
  name == "json".toList || suffix == some "json".toList

def isJson (contentType : String) : Bool :=
  let cs := contentType.toList.map Char.toLower
  let type := cs.takeWhile isToken
  match cs.drop type.length with
  | '/' :: rest =>
    let subtype := rest.takeWhile isToken
    let parameters := match rest.drop subtype.length with
      | [] => true
      | ';' :: rest => !subtype.isEmpty && areParameters (rest.length + 1) rest
      | _ => false
    type == "application".toList && isJsonSubtype subtype && parameters
  | _ => false

end ChainSync.Api.MediaType
