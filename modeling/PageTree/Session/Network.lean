import PageTree.Json.Basic
import PageTree.Text.Basic

/-!
# The network of a page

A page sends requests and gets a value or nothing back. The network keeps what was sent, so an
answer may depend on all requests up to the one that it answers.

## Main definitions

* `Network`, `Network.fetch`
* `Network.ofAnswers`: a network with an answer for each pair of method and address
-/

namespace PageTree

/-- A request. -/
structure Request where
  /-- The method. -/
  method : String
  /-- The address. -/
  url : String
  /-- The value that is sent along. -/
  body : Option Json

/-- The type of what a request sends along. -/
def Request.contentType? (request : Request) : Option String :=
  request.body.map fun _ => "application/json"

/-- What a page talks to. -/
structure Network where
  /-- The answer to a request, given all requests before it. -/
  answer : List Request → Request → Option Json
  /-- The requests that were sent, in order. -/
  sent : List Request := []

namespace Network

/-- Sends a request. -/
def fetch (network : Network) (request : Request) : Option Json × Network :=
  (network.answer network.sent request, { network with sent := network.sent ++ [request] })

/-- How a table of answers names a request. -/
def title (method url : String) : String := method ++ " " ++ url

/-- The network that gives these answers, each to any request with its method, in capitals, and
its address. -/
def ofAnswers (answers : List (String × String × Json)) : Network :=
  let table := OrderedMap.ofEntries (answers.map fun (method, url, body) =>
    (title (String.ofList (Text.upper method.toList)) url, body))
  { answer := fun _ request => table.lookup (title request.method request.url) }

end Network

end PageTree
