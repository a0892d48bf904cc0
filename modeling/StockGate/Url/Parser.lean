import StockGate.Url.Domain.Basic
import StockGate.Url.Path

namespace StockGate.Url

open Text Net

def isAround (c : Char) : Bool :=
  c.toNat ≤ 0x20

def trim (cs : Chars) : Chars :=
  ((cs.dropWhile isAround).reverse.dropWhile isAround).reverse

def cleaned (s : String) : Chars :=
  (trim s.toList).filter (!isTabOrNewline ·)

def isSchemeChar (c : Char) : Bool :=
  c.isAlphanum || c = '+' || c = '-' || c = '.'

def scheme? (cs : Chars) : Option (Chars × Chars) :=
  let name := cs.takeWhile isSchemeChar
  match cs.head?, cs.drop name.length with
  | some c, ':' :: rest => if c.isAlpha then some (name.map Char.toLower, rest) else none
  | _, _ => none

/-- Characters that end the authority, apart from a backslash in special URLs. -/
def endsAuthority (special : Bool) (c : Char) : Bool :=
  c = '/' || c = '?' || c = '#' || (special && c = '\\')

/-- The host ends at the first colon outside brackets. -/
def hostLength (inside : Bool) : Chars → Nat
  | [] => 0
  | c :: cs =>
    if c = ':' ∧ !inside then 0
    else if c = '[' then hostLength true cs + 1
    else if c = ']' then hostLength false cs + 1
    else hostLength inside cs + 1

def bracketedHost (cs : Chars) : Except Fault Host :=
  if cs.getLast? ≠ some ']' then .error .ipv6
  else
    match Ipv6.parse? cs.dropLast with
    | some a => .ok (.ipv6 a)
    | none => .error .ipv6

/-- The host of a special URL: a domain name, or the address that one stands for. -/
def specialHost (cs : Chars) : Except Fault Host :=
  match cs with
  | '[' :: rest => bracketedHost rest
  | _ =>
    match Domain.toAscii? (decode cs) with
    | none => .error .domainName
    | some name =>
      if name = [] then .error .emptyHost
      else if Ipv4.endsInNumber name then
        match Ipv4.parseLoose? name with
        | some a => .ok (.ipv4 a)
        | none => .error .ipv4
      else .ok (.domain name)

def isForbiddenInHost (c : Char) : Bool :=
  "\x00\t\n\r #/:<>?@[\\]^|".toList.contains c

/-- The host of another URL, which is any text without delimiters. -/
def plainHost (cs : Chars) : Except Fault Host :=
  match cs with
  | '[' :: rest => bracketedHost rest
  | _ =>
    if cs.any isForbiddenInHost then .error .hostCharacter
    else .ok (.domain (encode EncodeSet.control cs))

/-- The port after a host's colon, `none` if it is the scheme's own, and what follows it. -/
def port? (scheme : Chars) (cs : Chars) : Except Fault (Option Nat × Chars) :=
  let ds := cs.takeWhile isDecimal
  let rest := cs.drop ds.length
  let n := numeral 10 ds
  if 65535 < n then .error .port
  else if rest.head?.any (fun c => !endsAuthority true c) then .error .port
  else .ok (if ds = [] ∨ defaultPort? scheme = some n then none else some n, rest)

structure Authority where
  username : Chars := []
  password : Chars := []
  host : Host
  port : Option Nat

def credentials (cs : Chars) : Chars × Chars :=
  let name := cs.takeWhile (· ≠ ':')
  (encode EncodeSet.userinfo name, encode EncodeSet.userinfo (cs.drop (name.length + 1)))

def cutAtLastAt (cs : Chars) : Option Chars × Chars :=
  let tail := (cs.reverse.takeWhile (· ≠ '@')).reverse
  if tail.length = cs.length then (none, cs)
  else (some (cs.take (cs.length - tail.length - 1)), tail)

def authority? (scheme : Chars) (cs : Chars) : Except Fault (Authority × Chars) := do
  let special := isSpecial scheme
  let whole := cs.takeWhile (!endsAuthority special ·)
  let after := cs.drop whole.length
  let (info, hostPort) := cutAtLastAt whole
  if info = some [] ∧ hostPort = [] ∧ after ≠ [] then throw .emptyHost
  let (username, password) := credentials (info.getD [])
  let size := hostLength false hostPort
  let name := hostPort.take size
  if special ∧ name = [] then throw .emptyHost
  let host ← if special then specialHost name else plainHost name
  let rest := hostPort.drop size ++ after
  if host = .domain [] ∧ (rest.head? = some ':' ∨ username ≠ [] ∨ password ≠ []) then
    throw .emptyHost
  match rest with
  | ':' :: rest =>
    let (port, rest) ← port? scheme rest
    return (⟨username, password, host, port⟩, rest)
  | _ => return (⟨username, password, host, none⟩, rest)

def cutTail (cs : Chars) : Chars × Option Chars × Option Chars :=
  let path := cs.takeWhile fun c => c ≠ '?' ∧ c ≠ '#'
  match cs.drop path.length with
  | '?' :: rest =>
    let query := rest.takeWhile (· ≠ '#')
    match rest.drop query.length with
    | _ :: fragment => (path, some query, some fragment)
    | [] => (path, some query, none)
  | _ :: fragment => (path, none, some fragment)
  | [] => (path, none, none)

/-- The path after an authority: always rooted in a special URL, possibly empty in another. -/
def rootedPath (scheme : Chars) (cs : Chars) : Path :=
  let special := isSpecial scheme
  let read := readSegments special (isFile scheme)
  match cs with
  | [] => .segments (if special then [[]] else [])
  | c :: rest => .segments (if c = '/' ∨ (special ∧ c = '\\') then read rest else read cs)

def encodeQuery (scheme : Chars) (cs : Chars) : Chars :=
  encode (if isSpecial scheme then EncodeSet.specialQuery else EncodeSet.query) cs

def assemble (scheme : Chars) (a : Authority) (rest : Chars) : Url :=
  let (path, query, fragment) := cutTail rest
  { scheme
    username := a.username
    password := a.password
    host := some a.host
    port := a.port
    path := rootedPath scheme path
    query := query.map (encodeQuery scheme)
    fragment := fragment.map (encode EncodeSet.fragment) }

def isSlash (c : Char) : Bool :=
  c = '/' || c = '\\'

/-- The host of a file URL after its two slashes; a drive letter and `localhost` are none. -/
def fileHost? (cs : Chars) : Except Fault (Host × Chars) := do
  let name := cs.takeWhile (!endsAuthority true ·)
  if name = [] ∨ isDriveLetter name then return (.domain [], cs)
  let host ← specialHost name
  let rest := cs.drop name.length
  return (if host = .domain "localhost".toList then .domain [] else host, rest)

def startsWithDrive : Path → Bool
  | .segments (seg :: _) => isDriveLetter seg
  | _ => false

def dropDriveHost (u : Url) : Url :=
  if startsWithDrive u.path then { u with host := some (.domain []) } else u

def parseFile (cs : Chars) : Except Fault Url := do
  let scheme := "file".toList
  match cs with
  | a :: b :: rest =>
    if isSlash a ∧ isSlash b then
      let (host, rest) ← fileHost? rest
      return dropDriveHost (assemble scheme { host, port := none } rest)
    else return assemble scheme { host := .domain [], port := none } cs
  | _ => return assemble scheme { host := .domain [], port := none } cs

def parseWithoutHost (scheme : Chars) (cs : Chars) : Url :=
  let (path, query, fragment) := cutTail cs
  { scheme
    username := []
    password := []
    host := none
    port := none
    path := match path with
      | '/' :: rest => .segments (readSegments false false rest)
      | _ => .rootless (encode EncodeSet.control path)
    query := query.map (encodeQuery scheme)
    fragment := fragment.map (encode EncodeSet.fragment) }

/-- Reads an absolute URL. Blanks and controls around it and tabs and line ends inside it
do not count. -/
def parse (s : String) : Except Fault Url :=
  match scheme? (cleaned s) with
  | none => .error .relative
  | some (scheme, rest) =>
    if isFile scheme then parseFile rest
    else if isSpecial scheme then do
      let (a, rest) ← authority? scheme (rest.dropWhile isSlash)
      return assemble scheme a rest
    else
      match rest with
      | '/' :: '/' :: rest => do
        let (a, rest) ← authority? scheme rest
        return assemble scheme a rest
      | _ => .ok (parseWithoutHost scheme rest)

/-- Adds texts as segments after the path; a URL whose path is no list of segments takes none. -/
def push? (u : Url) (segs : List Chars) : Option Url :=
  match u.path with
  | .segments before =>
    some { u with path := .segments (segs.foldl (pushSegment u.scheme) (popIfEmpty before)) }
  | .rootless _ => none

end StockGate.Url
