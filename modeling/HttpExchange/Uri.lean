import HttpExchange.Error
import HttpExchange.Numeral
import HttpExchange.Text.Utf8

set_option autoImplicit false

/-! # Targets of a request

A target is one of the literal prefixes `http://` and `https://`, an authority and a path. The
first `/` after the scheme begins the path, and without one the path is `/`. The authority is
kept whole; its host and port are split off on demand: at the first `]` if it begins with `[`,
since such a literal has colons of its own, and otherwise at the last colon that has nothing
but digits after it. -/

namespace HttpExchange

inductive Scheme
  | http
  | https
  deriving DecidableEq

namespace Scheme

def isSecure (s : Scheme) : Bool := s == https

def defaultPort : Scheme → Nat
  | http => 80
  | https => 443

/-- The text that a target of the scheme begins with. -/
def marker : Scheme → List Char
  | http => "http://".toList
  | https => "https://".toList

/-- The scheme that the text begins with, and the text after it. -/
def split? (text : List Char) : Option (Scheme × List Char) :=
  match http.marker.isPrefixOf? text with
  | some rest => some (http, rest)
  | none => (https.marker.isPrefixOf? text).map (https, ·)

end Scheme

structure Uri where
  scheme : Scheme
  /-- Everything between the scheme and the path, with the port if there is one. -/
  authority : String
  /-- Everything from the first `/` on. -/
  path : String
  deriving DecidableEq

namespace Uri

/-- The longest authority, in bytes, that a client can hold. -/
def maxHostLength : Nat := 256

/-- The longest path, in bytes, that a client can hold. -/
def maxPathLength : Nat := 1024

def parse (text : String) : Except Error Uri :=
  match Scheme.split? text.toList with
  | none => .error .invalidUri
  | some (scheme, rest) =>
      let authority := rest.takeWhile (· != '/')
      let path := rest.dropWhile (· != '/')
      if authority = [] then .error .invalidUri
      else .ok {
        scheme := scheme
        authority := String.ofList authority
        path := if path = [] then "/" else String.ofList path }

def splitLastColon? (cs : List Char) : Option (List Char × List Char) :=
  match cs.reverse.dropWhile (· != ':') with
  | [] => none
  | _ :: before => some (before.reverse, (cs.reverse.takeWhile (· != ':')).reverse)

/-- The host and the text of the port, if the authority has a port. -/
def splitPort? (authority : List Char) : Option (List Char × List Char) :=
  match authority with
  | '[' :: _ =>
      match authority.dropWhile (· != ']') with
      | _ :: ':' :: port => some (authority.takeWhile (· != ']') ++ [']'], port)
      | _ => none
  | _ =>
      match splitLastColon? authority with
      | some (host, port) =>
          if port ≠ [] ∧ port.all Char.isDigit then some (host, port) else none
      | none => none

def host (u : Uri) : String :=
  match splitPort? u.authority.toList with
  | some (host, _) => String.ofList host
  | none => u.authority

/-- A port number: digits, after a plus sign if there is one, whose number fits 16 bits. -/
def portNumber? (port : List Char) : Option Nat :=
  Numeral.decimalText? Numeral.shortBound <|
    match port with
    | '+' :: rest => rest
    | _ => port

def port (u : Uri) : Option Nat :=
  (splitPort? u.authority.toList).bind (portNumber? ·.2)

/-- The port to connect to: the explicit one, else the one written in the target, else the
default of the scheme. -/
def effectivePort (u : Uri) (explicit : Option Nat) : Nat :=
  (explicit.or u.port).getD u.scheme.defaultPort

/-- The authority and the path, if a client can hold them. -/
def target (u : Uri) : Except Error (String × String) :=
  if u.authority.utf8ByteSize ≤ maxHostLength ∧ u.path.utf8ByteSize ≤ maxPathLength then
    .ok (u.authority, u.path)
  else .error .memory

end Uri

end HttpExchange
