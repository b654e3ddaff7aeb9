import PageTree.Tree.Document

/-!
# Prompts

What a generator is asked: the current page, what to do with it, and the request in the user's
words.
-/

namespace PageTree

/-- A request to change a page. -/
structure BuildRequest where
  /-- The pretty text of the current document. -/
  currentPage : String
  /-- What the user asks for. -/
  message : String
  /-- The page has nothing in it yet. -/
  newBuild : Bool
  deriving DecidableEq, Repr

namespace BuildRequest

/-- The request to change a document. -/
def ofDocument (document : Document) (message : String) : BuildRequest where
  currentPage := document.pretty
  message := message
  newBuild := document.isBlank

/-- What is to be done with the page. -/
def task (request : BuildRequest) : String :=
  if request.newBuild then
    "The page is empty. Build it from scratch by inserting nodes under \"app\"."
  else "Edit the existing page. Address nodes by their ids."

/-- The request as a text. -/
def prompt (request : BuildRequest) : String :=
  "<CURRENT_PAGE>\n" ++ request.currentPage ++ "\n</CURRENT_PAGE>\n\n" ++ request.task ++
    "\nRespond with a JSON array of ops, or with plain text if the request is a question." ++
    "\n\n<REQUEST>\n" ++ request.message ++ "\n</REQUEST>"

end BuildRequest

end PageTree
