import Mathlib.Data.List.DropRight
import Matelib.OrderedMap
import Matelib.Text

/-!
# HTTP requests

The request record of the HTTP server with its setters, and the parser of the request line. The
setters take the text of their iterator ranges.
-/

namespace Matelib

inductive HttpMethod where
  | kInvalid | kGet | kPost | kHead | kPut | kDelete
  deriving DecidableEq, Repr

inductive HttpVersion where
  | kUnknown | kHttp10 | kHttp11
  deriving DecidableEq, Repr

structure HttpRequest where
  method : HttpMethod
  path : Bytes
  version : HttpVersion
  headers : OrderedMap Bytes Bytes
  body : Bytes
  deriving DecidableEq

namespace HttpRequest

def init : HttpRequest where
  method := .kInvalid
  path := []
  version := .kUnknown
  headers := OrderedMap.empty
  body := []

def setVersion (r : HttpRequest) (v : HttpVersion) : HttpRequest := { r with version := v }

def parseMethod (method : Bytes) : HttpMethod :=
  if method = ascii "GET" then .kGet
  else if method = ascii "POST" then .kPost
  else if method = ascii "HEAD" then .kHead
  else if method = ascii "PUT" then .kPut
  else if method = ascii "DELETE" then .kDelete
  else .kInvalid

/-- `setMethod`, which stores the method also when it is not a known one. -/
def setMethod (r : HttpRequest) (method : Bytes) : Bool × HttpRequest :=
  (parseMethod method ≠ .kInvalid, { r with method := parseMethod method })

def setPath (r : HttpRequest) (path : Bytes) : HttpRequest := { r with path := path }

/-- The header value without the blanks on its left and on its right. -/
def trim (value : Bytes) : Bytes := (value.dropWhile isspace).rdropWhile isspace

/-- `addHeader` for the line `field ':' value`; an earlier value of the field is replaced. -/
def addHeader (r : HttpRequest) (field value : Bytes) : HttpRequest :=
  { r with headers := r.headers.insert field (trim value) }

def header (r : HttpRequest) (field : Bytes) : Bytes := (r.headers.find field).getD []

def reset (r : HttpRequest) : HttpRequest :=
  { r with method := .kInvalid, path := [], version := .kUnknown, headers := OrderedMap.empty,
           body := [] }

/-- `processRequestLine`, which stores what it has parsed also when the line turns out wrong. -/
def processRequestLine (r : HttpRequest) (line : Bytes) : Bool × HttpRequest :=
  match cut space line with
  | none => (false, r)
  | some (method, rest) =>
    let (known, r) := r.setMethod method
    if known then
      match cut space rest with
      | none => (false, r)
      | some (path, version) =>
        let r := r.setPath path
        if version.length = 8 ∧ version.take 7 = ascii "HTTP/1." then
          if version.getLast? = some 49 then (true, r.setVersion .kHttp11)
          else if version.getLast? = some 48 then (true, r.setVersion .kHttp10)
          else (false, r)
        else (false, r)
    else (false, r)

/-- The request line touches neither the headers nor the body. -/
theorem processRequestLine_frame (r : HttpRequest) (line : Bytes) :
    (r.processRequestLine line).2.headers = r.headers ∧
      (r.processRequestLine line).2.body = r.body := by
  unfold processRequestLine
  cases cut space line with
  | none => exact ⟨rfl, rfl⟩
  | some first =>
    by_cases hknown : parseMethod first.1 = .kInvalid
    · simp only [setMethod, hknown, ne_eq, not_true_eq_false, decide_false, Bool.false_eq_true,
        if_false, and_self]
    · simp only [setMethod, hknown, ne_eq, not_false_eq_true, decide_true, if_true]
      cases cut space first.2 with
      | none => exact ⟨rfl, rfl⟩
      | some second =>
        simp only [setPath, setVersion]
        split_ifs <;> exact ⟨rfl, rfl⟩

/-- Whether a request line is accepted does not depend on the request it is stored in, and an
accepted one overwrites all that an earlier line can have stored. -/
theorem processRequestLine_congr {r₁ r₂ : HttpRequest} (hheaders : r₁.headers = r₂.headers)
    (hbody : r₁.body = r₂.body) (line : Bytes) :
    (r₁.processRequestLine line).1 = (r₂.processRequestLine line).1 ∧
      ((r₁.processRequestLine line).1 = true →
        (r₁.processRequestLine line).2 = (r₂.processRequestLine line).2) := by
  unfold processRequestLine
  cases cut space line with
  | none => exact ⟨rfl, fun h => absurd h Bool.false_ne_true⟩
  | some first =>
    by_cases hknown : parseMethod first.1 = .kInvalid
    · simp only [setMethod, hknown, ne_eq, not_true_eq_false, decide_false, Bool.false_eq_true,
        if_false, true_and, false_implies]
    · simp only [setMethod, hknown, ne_eq, not_false_eq_true, decide_true, if_true]
      cases cut space first.2 with
      | none => exact ⟨rfl, fun h => absurd h Bool.false_ne_true⟩
      | some second =>
        simp only [setPath, setVersion, hheaders, hbody]
        split_ifs <;> simp only [true_and, false_implies, implies_true]

end HttpRequest

end Matelib
