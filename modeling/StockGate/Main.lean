import Std.Async.DNS
import Std.Async.Select
import Std.Async.TCP
import Std.Async.Timer
import StockGate.Command.LogLine
import StockGate.Command.Run
import StockGate.Http.Wire

namespace StockGate.Command

open Std.Async Std.Net

def readFile? (path : String) : IO (Option Text.Bytes) := do
  try return some (← IO.FS.readBinFile path).toList
  catch _ => return none

def addressOf? (h : Url.Host) : Async (Option IPAddr) := do
  match h with
  | .domain name => return (← DNS.getAddrInfo (String.ofList name) "")[0]?
  | h => return (IPv4Addr.ofString (String.ofList h.print)).map IPAddr.v4

def socketAddress (a : IPAddr) (port : UInt16) : Std.Net.SocketAddress :=
  match a with
  | .v4 addr => .v4 { addr, port }
  | .v6 addr => .v6 { addr, port }

/-- All that comes until the other side closes the connection. -/
partial def receive (client : TCP.Socket.Client) (sofar : ByteArray) : Async ByteArray := do
  match ← client.recv? 65536 with
  | some bytes => receive client (sofar ++ bytes)
  | none => return sofar

/-- Servers are reached without encryption only. -/
def send (r : HttpRequest) : Async Exchange := do
  if r.url.scheme != "http".toList then return .broken
  try
    let some host := r.url.host | return .broken
    let some address ← addressOf? host | return .broken
    let client ← TCP.Socket.Client.mk
    client.connect (socketAddress address (UInt16.ofNat (r.url.port.getD 80)))
    client.send r.wire.toUTF8
    return .ofBytes (← receive client .empty).toList
  catch _ => return .broken

/-- An exchange with its duration, given up after a time. -/
def exchange (r : HttpRequest) (patience : Nat) : IO (Reply Exchange) := do
  let before ← IO.monoMsNow
  let answer ← Async.block do
    Async.race (some <$> send r)
      (do sleep (Std.Time.Millisecond.Offset.ofNat patience); return none)
  let after ← IO.monoMsNow
  return match answer with
    | some x => .after (after - before) x
    | none => .never

def canListen (o : ObservabilitySettings) : IO Bool := do
  match Net.SocketAddress.parse? o.metricsAddress with
  | some (.v4 a port) =>
    match IPv4Addr.ofString a.text with
    | none => return false
    | some address =>
      try
        let server ← TCP.Socket.Server.mk
        server.bind (socketAddress (.v4 address) (UInt16.ofNat port))
        server.listen 1
        return true
      catch _ => return false
  | _ => return false

/-- Exchanges made so far, oldest first. -/
structure Exchanges where
  flags : List (Reply Exchange) := []
  catalog : List (Reply Exchange) := []

def known (xs : List (Reply Exchange)) : Network :=
  fun i _ => xs.getD i .never

/-- The pauses before the lookups of a run. -/
def pauses (r : Report) : List Nat :=
  0 :: r.log.filterMap fun
    | .lookupRetried _ _ _ delay => some delay
    | _ => none

partial def complete (s : Surroundings) (args : List String) (x : Settings) (xs : Exchanges) :
    IO Report := do
  let r := run { s with catalog := known xs.catalog, flags := known xs.flags } args
  match r.flagRequests[xs.flags.length]?, r.catalogRequests[xs.catalog.length]? with
  | some q, _ =>
    let reply ← exchange q x.flag.evaluationTimeoutMs.toNat
    complete s args x { xs with flags := xs.flags ++ [reply] }
  | none, some q =>
    IO.sleep (UInt32.ofNat ((pauses r).getD xs.catalog.length 0))
    let reply ← exchange q x.policy.timeout
    complete s args x { xs with catalog := xs.catalog ++ [reply] }
  | none, none => return r

def randomNat (size : USize) : IO Nat := do
  return (← IO.getRandomBytes size).foldl (fun n b => n * 256 + b.toNat) 0

end StockGate.Command

open StockGate StockGate.Command in
def main (args : List String) : IO UInt32 := do
  let config := (Arguments.parse args).toOption.bind Arguments.config
  let contents ← match config with
    | some path => readFile? path
    | none => pure none
  let x : Settings := match config with
    | some _ => (Settings.load contents).toOption.getD {}
    | none => {}
  let listens ← canListen x.observability
  let jitter ← randomNat 2
  let correlationId := Uuid.ofRandom (← randomNat 16)
  let s : Surroundings := {
    file := fun _ => contents
    logFilter := ← IO.getEnv "RUST_LOG"
    canListen := fun _ => listens
    catalog := known []
    flags := known []
    correlationId
    draws := fun attempt => jitter / (attempt + 1) % 100 }
  let r ← complete s args x {}
  for e in r.shownLog s do
    IO.println (logLine r.observability.logFormat e)
  for line in r.output do
    IO.println line
  if let some text := r.complaint? then
    IO.eprintln text
  return UInt32.ofNat r.code
