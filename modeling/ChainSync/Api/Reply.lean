import ChainSync.Json.Basic

/-!
# Replies

A reply has a status and, where the API itself words it, a structured
body. Replies without one are worded by the transport.
-/

namespace ChainSync.Api

structure Reply where
  status : Nat
  /-- Whether the content type is that of structured bodies. -/
  isJson : Bool
  body : Option Json

namespace Reply

def plain (status : Nat) : Reply :=
  ⟨status, false, none⟩

def json (body : Json) : Reply :=
  ⟨200, true, some body⟩

def withoutBody (r : Reply) : Reply :=
  { r with body := none }

end Reply

inductive ApiError
  | notFound (text : String)
  | badRequest (text : String)
  | unavailable (text : String)
  | internal (text : String)
  | unauthorized
deriving DecidableEq

namespace ApiError

def message : ApiError → String
  | notFound text => s!"Not found: {text}"
  | badRequest text => s!"Bad request: {text}"
  | unavailable text => s!"Unavailable: {text}"
  | internal text => s!"Internal error: {text}"
  | unauthorized => "Unauthorized"

def status : ApiError → Nat
  | notFound _ => 404
  | badRequest _ => 400
  | unavailable _ => 503
  | internal _ => 500
  | unauthorized => 401

def reason : ApiError → String
  | notFound _ => "Not Found"
  | badRequest _ => "Bad Request"
  | unavailable _ => "Service Unavailable"
  | internal _ => "Internal Server Error"
  | unauthorized => "Unauthorized"

def detail : ApiError → String
  | notFound text | badRequest text | unavailable text | internal text => text
  | unauthorized => "API key required"

def body (e : ApiError) : Json :=
  .record [("error", toJson e.status), ("reason", .text e.reason), ("detail", .text e.detail)]

def reply (e : ApiError) : Reply :=
  ⟨e.status, true, some e.body⟩

end ApiError

def Reply.ofExcept : Except ApiError Json → Reply
  | .ok body => .json body
  | .error e => e.reply

end ChainSync.Api
