import DebugSweep.Server.Tools

/-! Requests and responses. A request is answered by exactly one response, and what was asked is
noted in the journal. -/
namespace DebugSweep

structure Response where
  requestId : String
  ok : Bool
  result : Value
  blocked : Bool := false
  error : Option (String × String × String) := none

namespace Response

def toValue (r : Response) : Value :=
  let error := match r.error with
    | none => []
    | some (code, message, hint) =>
        [("error", Value.record ([("code", .text code), ("message", .text message)] ++
          (if hint == "" then [] else [("hint", .text hint)])))]
  .record ([("request_id", .text r.requestId), ("ok", .bool r.ok), ("result", r.result),
    ("warnings", .list []), ("blocked", .bool r.blocked)] ++ error)

def text (r : Response) : String := Json.write Json.Style.line r.toValue

def success (requestId : String) (result : Value) : Response := { requestId, ok := true, result }

def failure (requestId code message hint : String) : Response :=
  { requestId, ok := false, result := .record [], error := some (code, message, hint) }

def refusal (requestId code reason hint : String) : Response :=
  { requestId, ok := false, blocked := true
    result := .record [("reason", .text reason), ("hint", .text hint)]
    error := some (code, reason, "") }

def ofFault (requestId : String) (fault : Fault) : Response :=
  match fault with
  | .blocked why => refusal requestId "PATH_BLOCKED" why.message why.hint
  | .dispatch code message => failure requestId code message ""
  | fault =>
      match fault.code? with
      | some code => failure requestId code fault.message fault.hint
      | none => failure requestId "INTERNAL_ERROR" "Unhandled server error while executing tool." ""

def limit (r : Response) (bytes : Nat) : Response :=
  if r.text.utf8ByteSize ≤ bytes then r
  else
    refusal r.requestId "RESPONSE_TOO_LARGE" "Response exceeds max_total_bytes_per_response limit."
      "Scan fewer files, disable statement types, or raise the limit."

end Response

structure Request where
  id : String
  method : String
  params : Site.Arguments

namespace Site

def unnamedId (number : Nat) : String :=
  "req-" ++ String.ofList (Time.padded 6 number)

def nextId (s : Site) : String × Site :=
  let number := s.server.unnamed + 1
  (unnamedId number, { s with server := { s.server with unnamed := number } })

def idOf (s : Site) (value : Option Value) : String × Site :=
  match value with
  | some (.text id) => if id == "" then s.nextId else (id, s)
  | some (.int n) => (toString n, s)
  | _ => s.nextId

def parse (s : Site) (payload : Value) : Except Response Request × Site :=
  match payload with
  | .record fields =>
      let (id, s') := s.idOf (Value.fieldIn? "id" fields)
      let bad := fun code message => (Except.error (Response.failure id code message ""), s')
      match Value.fieldIn? "method" fields with
      | some (.text method) =>
          if method == "" then bad "INVALID_REQUEST" "Request method must be a non-empty string."
          else
            match (Value.fieldIn? "params" fields).getD (.record []) with
            | .record params => (.ok { id, method, params }, s')
            | _ => bad "INVALID_PARAMS" "Request params must be an object."
      | _ => bad "INVALID_REQUEST" "Request method must be a non-empty string."
  | _ =>
      let (id, s') := s.nextId
      (.error (Response.failure id "INVALID_REQUEST" "Request must be an object." ""), s')

def target (r : Request) : Except Response (String × Arguments) :=
  let bad := fun message => Except.error (Response.failure r.id "INVALID_PARAMS" message "")
  if r.method == "tools/call" then
    match Value.fieldIn? "name" r.params with
    | some (.text name) =>
        if name == "" then bad "tools/call params.name must be a non-empty string."
        else
          match (Value.fieldIn? "arguments" r.params).getD (.record []) with
          | .record args => .ok (name, args)
          | _ => bad "tools/call params.arguments must be an object."
    | _ => bad "tools/call params.name must be a non-empty string."
  else .ok (r.method, r.params)

def dispatch (s : Site) (now : String) (requestId tool : String) (args : Arguments) :
    Response × Site :=
  match toolRegistry.find tool with
  | .error fault => (.ofFault requestId fault, s)
  | .ok found =>
      match s.call now args found with
      | (.error fault, s') => (.ofFault requestId fault, s')
      | (.ok value, s') =>
          ((Response.success requestId value).limit s.server.settings.limits.maxResponseBytes, s')

def note (s : Site) (now tool : String) (args : Arguments) (r : Response) : Except Fault Site := do
  let event : Journal.Event := {
    timestamp := now
    requestId := r.requestId
    tool
    ok := r.ok
    blocked := r.blocked
    errorCode := r.error.map Prod.fst
    metadata := Journal.metadata args }
  return s.withDisk (← Journal.append s.disk s.server.journal event)

/-- Notes, and keeps the state as it was when that fails. -/
def respond (s : Site) (now tool : String) (args : Arguments) (r : Response) :
    Except Fault Response × Site :=
  match s.note now tool args r with
  | .ok s' => (.ok r, s')
  | .error fault => (.error fault, s)

/-- Answers a payload. A call that names no tool properly is answered without a note. -/
def handle (s : Site) (now : String) (payload : Value) : Except Fault Response × Site :=
  match s.parse payload with
  | (.error response, s') => s'.respond now "invalid_request" [] response
  | (.ok request, s') =>
      match target request with
      | .error response => (.ok response, s')
      | .ok (tool, args) =>
          let (response, s'') := s'.dispatch now request.id tool args
          s''.respond now tool args response

def handleLine (s : Site) (now : String) (line : List Char) : Except Fault Response × Site :=
  match Json.read (String.ofList line) with
  | .ok payload => s.handle now payload
  | .error (.longNumber digits) => (.error (.invalid (.longNumber digits)), s)
  | .error .malformed =>
      let (id, s') := s.nextId
      s'.respond now "invalid_json" [("raw_line_length", .ofNat line.length)]
        (.failure id "INVALID_JSON" "Request must be valid JSON." "")

def serveLines (s : Site) (now : String) (done : List Response) :
    List (List Char) → List Response × Except Fault Unit × Site
  | [] => (done.reverse, .ok (), s)
  | raw :: rest =>
      let line := Text.strip raw
      if line.isEmpty then s.serveLines now done rest
      else
        match s.handleLine now line with
        | (.error fault, s') => (done.reverse, .error fault, s')
        | (.ok response, s') => s'.serveLines now (response :: done) rest

def serve (s : Site) (now : String) (input : List Char) :
    List Response × Except Fault Unit × Site :=
  s.serveLines now [] (Text.lines input)

end Site
end DebugSweep
