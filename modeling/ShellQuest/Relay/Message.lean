/-
# Messages of the relay

A client asks for one command per line, as a JSON object with the field `command`.  It is answered
with one line: the session's response, or why the command was not handed to the session.  Of a text
that is no request the answer says what the reader of JSON complains about.  These complaints are
not spelled out here: wherever a reply is written, they are a parameter.
-/
import ShellQuest.InputLine
import ShellQuest.Json.Reader
import ShellQuest.Json.Value
import ShellQuest.Session.Basic

namespace ShellQuest.Relay

/-- The command that a request asks for. -/
def readRequest (text : String) : Option String :=
  ((Json.Value.ofText? text).bind (Json.Value.soleField? "command")).bind Json.Value.string?

def writeRequest (command : String) : String :=
  Json.writeObject [("command", Json.quote command)]

inductive Reply where
  | played (response : Response)
  | badRequest (request : String)
  | refused (why : InputLine.Refusal)
  | requestTooLong
  | serverFull
deriving DecidableEq, Repr

namespace Reply

def responseJson (r : Response) : String :=
  Json.writeObject [
    ("result", Json.quote r.result), ("location", Json.quote r.location),
    ("challenge", Json.quote r.challenge), ("challenge_hint", Json.quote r.challengeHint)]

def errorJson (message : String) : String := Json.writeObject [("error", Json.quote message)]

/-- A reply as JSON, where `complaint` is what is said of a text that is no request. -/
def toJson (complaint : String → String) : Reply → String
  | played response => responseJson response
  | badRequest request => errorJson ("bad json: " ++ complaint request)
  | refused why => errorJson why.message
  | requestTooLong => errorJson "request too long"
  | serverFull => errorJson "server is full, try again later"

def line (complaint : String → String) (r : Reply) : String := r.toJson complaint ++ "\n"

end Reply

end ShellQuest.Relay
