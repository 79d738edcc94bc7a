import PendantClient.Batch
import PendantClient.Recording

/-! HTTP uploads (`upload.py`): the requests that are sent, and what becomes of the replies. The server is left open. -/

namespace PendantClient

/-- The `files` argument of a multipart request. -/
structure HttpFile where
  field : String
  name : String
  contentType : String
  content : Bytes
  deriving Repr, DecidableEq

/-- A call of `client.post`. -/
structure HttpRequest where
  url : String
  params : List (String × PyStr) := []
  headers : List (String × String) := []
  content : Bytes := []
  file : Option HttpFile := none
  data : List (String × String) := []
  timeoutSec : Nat
  deriving Repr, DecidableEq

/-- A value of a JSON object. -/
inductive JsonValue
  /-- A number or a truth value: what the format `.1f` takes. -/
  | number (text : String)
  | other (text : String)
  deriving Repr, DecidableEq

/-- Whether the value is formatted as a number. -/
def JsonValue.isNumber : JsonValue → Bool
  | .number _ => true
  | .other _ => false

/-- What `client.post` comes to: an exception, or a response with the fields of the JSON object in its body, if it is one. -/
inductive HttpReply
  | raised
  | response (status : Nat) (json : Option (List (String × JsonValue)))
  deriving Repr, DecidableEq

/-- What raises in an upload. -/
inductive UploadError
  /-- The file cannot be read. -/
  | osError
  /-- The capture to upload cannot be written. -/
  | write (e : PyError)
  | transport
  /-- `raise_for_status`. -/
  | status (code : Nat)
  /-- The body is no JSON object. -/
  | json
  /-- A field of the result that is not there. -/
  | key (name : String)
  deriving Repr, DecidableEq

/-- `resp.raise_for_status()` and `resp.json()`: only a status from 200 to 299 is a success. -/
def HttpReply.result : HttpReply → Except UploadError (List (String × JsonValue))
  | .raised => .error .transport
  | .response status json =>
    if 200 ≤ status ∧ status < 300 then
      match json with
      | some fields => .ok fields
      | none => .error .json
    else .error (.status status)

/-- The requests that have been sent and what the call returns or raises. -/
abbrev Sent := List HttpRequest × Except UploadError (List (String × JsonValue))

/-- A request is sent and its reply awaited. -/
def HttpRequest.post (client : HttpRequest → HttpReply) (request : HttpRequest) : Sent :=
  ([request], (client request).result)

/-- `push_bin`. -/
def pushBin (client : HttpRequest → HttpReply) (files : Files) (binPath : Path) (url : String) (peripheralId : PyStr) : Sent :=
  match files binPath with
  | none => ([], .error .osError)
  | some body =>
    HttpRequest.post client {
      url
      params := [("blePeripheralDeviceId", peripheralId)]
      content := body
      headers := [("Content-Type", "application/octet-stream")]
      timeoutSec := 60 }

/-- `push_messages`: the messages go through a file in a new directory, which holds nothing else. -/
def pushMessages (client : HttpRequest → HttpReply) (messages : List Bytes) (url : String) (peripheralId : PyStr)
    (fault : Option IoFault) : Sent :=
  match writeBatchIngestRequest (fun _ => none) { items := messages } peripheralId "upload.bin" fault with
  | (_, .error e) => ([], .error (.write e))
  | (files, .ok _) => pushBin client files "upload.bin" url peripheralId

/-- `server_url.rstrip("/")`. -/
def rstripSlash (serverUrl : String) : String := String.ofList (serverUrl.toList.reverse.dropWhile (· = '/')).reverse

/-- `_guess_content_type`, by the suffix in small letters. -/
def guessContentType (suffix : String) : String :=
  match suffix with
  | ".opus" | ".ogg" => "audio/ogg"
  | ".wav" => "audio/wav"
  | ".mp3" => "audio/mpeg"
  | ".m4a" => "audio/mp4"
  | _ => "application/octet-stream"

/-- What `enroll_wearer_voice` and `enroll_person_voice` have in common: a recording is posted under a name. -/
def enrollVoice (client : HttpRequest → HttpReply) (files : Files) (base : AudioBase) (index : Nat) (endpoint name : String) : Sent :=
  match files (base.recordingPath index) with
  | none => ([], .error .osError)
  | some content =>
    HttpRequest.post client {
      url := endpoint
      file := some {
        field := "file"
        name := base.recordingName index
        contentType := guessContentType base.recordingSuffix.toLower
        content }
      data := [("name", name)]
      timeoutSec := 120 }

/-- `enroll_wearer_voice`, whose caller leaves the name as it is. -/
def enrollWearerVoice (client : HttpRequest → HttpReply) (files : Files) (base : AudioBase) (index : Nat) (serverUrl : String) : Sent :=
  enrollVoice client files base index (rstripSlash serverUrl ++ "/v3/voices/wearer") "Wearer"

/-- `enroll_person_voice`. -/
def enrollPersonVoice (client : HttpRequest → HttpReply) (files : Files) (base : AudioBase) (index : Nat)
    (serverUrl name : String) : Sent :=
  enrollVoice client files base index (rstripSlash serverUrl ++ "/v3/voices/people") name

end PendantClient
