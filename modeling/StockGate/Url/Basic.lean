import StockGate.Net.Ipv6

namespace StockGate

namespace Url

open Net

abbrev Chars := List Char

inductive Host where
  | domain (name : Chars)
  | ipv4 (address : Ipv4)
  | ipv6 (address : Ipv6)
  deriving DecidableEq

/-- A path is a list of segments, or in a URL without hierarchy one text. -/
inductive Path where
  | segments (segs : List Chars)
  | rootless (text : Chars)
  deriving DecidableEq

inductive Fault where
  | emptyHost
  | domainName
  | port
  | ipv4
  | ipv6
  | hostCharacter
  | relative
  deriving DecidableEq

def Fault.message : Fault → String
  | .emptyHost => "empty host"
  | .domainName => "invalid international domain name"
  | .port => "invalid port number"
  | .ipv4 => "invalid IPv4 address"
  | .ipv6 => "invalid IPv6 address"
  | .hostCharacter => "invalid domain character"
  | .relative => "relative URL without a base"

end Url

/-- All texts are kept percent-encoded, as they are written. -/
structure Url where
  scheme : Url.Chars
  username : Url.Chars
  password : Url.Chars
  host : Option Url.Host
  port : Option Nat
  path : Url.Path
  query : Option Url.Chars
  fragment : Option Url.Chars
  deriving DecidableEq

namespace Url

/-- The port that a scheme implies, for the schemes with special rules other than files. -/
def defaultPorts : List (String × Nat) :=
  [("http", 80), ("https", 443), ("ws", 80), ("wss", 443), ("ftp", 21)]

def defaultPort? (scheme : Chars) : Option Nat :=
  List.lookup (String.ofList scheme) defaultPorts

def isFile (scheme : Chars) : Bool :=
  scheme == "file".toList

def isSpecial (scheme : Chars) : Bool :=
  isFile scheme || (defaultPort? scheme).isSome

def Host.print : Host → Chars
  | .domain name => name
  | .ipv4 a => a.text.toList
  | .ipv6 a => '[' :: a.text.toList ++ [']']

def Path.print : Path → Chars
  | .segments segs => segs.flatMap ('/' :: ·)
  | .rootless text => text

def printCredentials (username password : Chars) : Chars :=
  if username = [] ∧ password = [] then []
  else username ++ (if password = [] then [] else ':' :: password) ++ ['@']

def printPort : Option Nat → Chars
  | none => []
  | some p => ':' :: (toString p).toList

/-- Everything between the scheme and the path. A path that would read as a host gets a dot in
front. -/
def printAuthority (u : Url) : Chars :=
  match u.host, u.path with
  | some h, _ =>
    ['/', '/'] ++ printCredentials u.username u.password ++ h.print ++ printPort u.port
  | none, .segments ([] :: _ :: _) => ['/', '.']
  | none, _ => []

def printTail (mark : Char) : Option Chars → Chars
  | none => []
  | some cs => mark :: cs

def print (u : Url) : Chars :=
  u.scheme ++ ':' :: u.printAuthority ++ u.path.print ++ printTail '?' u.query ++
    printTail '#' u.fragment

def text (u : Url) : String :=
  String.ofList u.print

def target (u : Url) : String :=
  String.ofList (u.path.print ++ printTail '?' u.query)

end Url

end StockGate
