import Matelib.HttpRequest
import Matelib.ValidBuffer

/-!
# HTTP responses

The response record of the HTTP server and its serialisation into a buffer.
-/

namespace Matelib

inductive HttpStatusCode where
  | kInvalid | k200Ok | k301MovedPermanently | k400BadRequest | k404NotFound
  deriving DecidableEq, Repr

def HttpStatusCode.toInt : HttpStatusCode → ℤ
  | .kInvalid => 0
  | .k200Ok => 200
  | .k301MovedPermanently => 301
  | .k400BadRequest => 400
  | .k404NotFound => 404

def HttpVersion.toInt : HttpVersion → ℤ
  | .kUnknown => -1
  | .kHttp10 => 0
  | .kHttp11 => 1

structure HttpResponse where
  closeConnection : Bool
  version : HttpVersion
  statusCode : HttpStatusCode
  statusMessage : Bytes
  headers : OrderedMap Bytes Bytes
  body : Bytes
  deriving DecidableEq

namespace HttpResponse

def new (close : Bool) (version : HttpVersion) : HttpResponse where
  closeConnection := close
  version := version
  statusCode := .kInvalid
  statusMessage := []
  headers := OrderedMap.empty
  body := []

def setStatusCode (r : HttpResponse) (status : HttpStatusCode) : HttpResponse :=
  { r with statusCode := status }

def setStatusMessage (r : HttpResponse) (message : Bytes) : HttpResponse :=
  { r with statusMessage := message }

def setCloseConnection (r : HttpResponse) (on : Bool) : HttpResponse :=
  { r with closeConnection := on }

def addHeader (r : HttpResponse) (field value : Bytes) : HttpResponse :=
  { r with headers := r.headers.insert field value }

def setContentType (r : HttpResponse) (type : Bytes) : HttpResponse :=
  r.addHeader (ascii "Content-Type") type

def setBody (r : HttpResponse) (body : Bytes) : HttpResponse := { r with body := body }

/-- The size of the array `buf` in `appendToBuffer`. -/
def kLineSize : ℕ := 32

/-- `"HTTP/1.%d %d"`; the status message follows without a blank. -/
def statusLine (r : HttpResponse) : Bytes :=
  snprintf kLineSize
    (ascii "HTTP/1." ++ decimal r.version.toInt ++ ascii " " ++ decimal r.statusCode.toInt)

def contentLength (r : HttpResponse) : Bytes :=
  snprintf kLineSize (ascii "Content-Length: " ++ decimal r.body.length ++ Buffer.kCRLF)

def pieces (r : HttpResponse) : List Bytes :=
  [r.statusLine, r.statusMessage, Buffer.kCRLF] ++
    (if r.closeConnection then [ascii "Connection: close\r\n"]
      else [r.contentLength, ascii "Connection: Keep-Alive\r\n"]) ++
    (r.headers.entries.flatMap fun h => [h.1, ascii ": ", h.2, Buffer.kCRLF]) ++
    [Buffer.kCRLF, r.body]

def appendToBuffer (r : HttpResponse) (buffer : ValidBuffer) : ValidBuffer :=
  r.pieces.foldl ValidBuffer.append buffer

def bytes (r : HttpResponse) : Bytes := r.pieces.flatten

theorem readable_foldl_append (ps : List Bytes) (buffer : ValidBuffer) :
    (ps.foldl ValidBuffer.append buffer).readable = buffer.readable ++ ps.flatten := by
  induction ps generalizing buffer with
  | nil => rw [List.foldl_nil, List.flatten_nil, List.append_nil]
  | cons p ps ih =>
    rw [List.foldl_cons, ih, ValidBuffer.readable_append, List.flatten_cons, List.append_assoc]

@[simp] theorem readable_appendToBuffer (r : HttpResponse) (buffer : ValidBuffer) :
    (r.appendToBuffer buffer).readable = buffer.readable ++ r.bytes :=
  readable_foldl_append r.pieces buffer

end HttpResponse

end Matelib
