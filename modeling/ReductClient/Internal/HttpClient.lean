-- SUMMARY: The names of the protocol headers and the requests the batch code hands to the HTTP client.
import ReductClient.Bucket.Types

open Cxx

namespace Reduct

/-! ## Header names -/

def kHeaderPrefix : Bytes := bytes "x-reduct-"
def kHeaderErrorPrefix : Bytes := bytes "x-reduct-error-"
def kHeaderTime : Bytes := bytes "x-reduct-time"
def kHeaderTimePrefix : Bytes := bytes "x-reduct-time-"
def kHeaderLast : Bytes := bytes "x-reduct-last"
def kHeaderLabelPrefix : Bytes := bytes "x-reduct-label-"
def kHeaderEntries : Bytes := bytes "x-reduct-entries"
def kHeaderStartTs : Bytes := bytes "x-reduct-start-ts"
def kHeaderLabels : Bytes := bytes "x-reduct-labels"

/-! ## Requests -/

/-- `IHttpClient::Headers`. -/
abbrev Headers := UnorderedMap Bytes Bytes

/-- The value of a header, empty if it is absent: `headers[name]`. -/
def Headers.get (headers : Headers) (name : Bytes) : Bytes := (headers.find? name).getD []

/-- `IHttpClient::WriteCallback`: the chunk at an offset, of the size asked for. -/
abbrev WriteCallback := Nat → Nat → Except Fault (Bool × Bytes)

/-- A request of the batch code. -/
inductive HttpRequest where
  | post (path mime : Bytes) (contentLength : Nat) (headers : Headers) (callback : WriteCallback)
  | patch (path body : Bytes) (headers : Headers)
  | delete (path : Bytes) (headers : Headers)

/-- The path of a request. -/
def HttpRequest.path : HttpRequest → Bytes
  | .post path _ _ _ _ => path
  | .patch path _ _ => path
  | .delete path _ => path

/-- The headers of a request. -/
def HttpRequest.headers : HttpRequest → Headers
  | .post _ _ _ headers _ => headers
  | .patch _ _ headers => headers
  | .delete _ headers => headers

/-- The length of the body of a request. -/
def HttpRequest.contentLength : HttpRequest → Nat
  | .post _ _ contentLength _ _ => contentLength
  | .patch _ body _ => body.length
  | .delete _ _ => 0

/-- The server behind an `IHttpClient`, for one request. -/
abbrev HttpServer := HttpRequest → Result (Bytes × Headers)

/-- What a call does: the requests it sent, and how it ended. -/
structure Outcome (α : Type) where
  sent : List HttpRequest
  result : Except Fault (Result α)

/-- `enum class BatchType`. -/
inductive BatchType where
  | kWrite
  | kUpdate
  | kRemove
  deriving DecidableEq

end Reduct
