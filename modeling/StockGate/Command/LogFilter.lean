import StockGate.Telemetry.Event
import StockGate.Text.Split

namespace StockGate.Command

open Text

def programTarget : String := "inventory_gate"

/-- The most that is shown, `none` being nothing at all. -/
abbrev Verbosity := Option Level

structure Directive where
  /-- The beginning of the targets meant; the empty text means all. -/
  target : List Char
  verbosity : Verbosity
  deriving DecidableEq

abbrev LogFilter := List Directive

def verbosities : List (String × Verbosity) :=
  [("off", none), ("error", some .error), ("warn", some .warn), ("info", some .info),
    ("debug", some .debug), ("trace", some .trace),
    ("0", none), ("1", some .error), ("2", some .warn), ("3", some .info), ("4", some .debug),
    ("5", some .trace)]

def verbosity? (cs : List Char) : Option Verbosity :=
  List.lookup (String.ofList (cs.map Char.toLower)) verbosities

def isTargetChar (c : Char) : Bool :=
  c.isAlphanum || c = '_' || c = ':' || c = '-'

namespace Directive

/-- A target without a level shows everything. -/
def parse? (cs : List Char) : Option Directive :=
  match verbosity? cs with
  | some v => some ⟨[], v⟩
  | none =>
    let target := cs.takeWhile isTargetChar
    match cs.drop target.length with
    | [] => some ⟨target, some .trace⟩
    | '=' :: level =>
      if level = [] then some ⟨target, some .trace⟩
      else (verbosity? level).map fun v => ⟨target, v⟩
    | _ => none

def applies (d : Directive) : Bool :=
  d.target.isPrefixOf programTarget.toList

end Directive

namespace LogFilter

def parts (s : String) : List (List Char) :=
  (splitAt ',' s.toList).filter (· ≠ [])

def orErrors (ds : List Directive) : LogFilter :=
  if ds = [] then [⟨[], some .error⟩] else ds

/-- All directives have to be proper. -/
def parse? (s : String) : Option LogFilter :=
  ((parts s).mapM Directive.parse?).map orErrors

/-- Improper directives are left out. -/
def parseLoose (s : String) : LogFilter :=
  orErrors ((parts s).filterMap Directive.parse?)

/-- The filter given from outside counts if it is proper; else the level from the settings does. -/
def choose (outside : Option String) (level : String) : LogFilter :=
  (outside.bind parse?).getD (parseLoose (programTarget ++ "=" ++ level))

/-- The most specific directive decides, and of two for the same target the later one. -/
def verbosity (f : LogFilter) : Verbosity :=
  let applying := f.filter Directive.applies
  (applying.foldl (fun (best : Option Directive) d =>
    match best with
    | some b => if d.target.length < b.target.length then some b else some d
    | none => some d) none).bind Directive.verbosity

def shows (f : LogFilter) (e : Event) : Bool :=
  match f.verbosity with
  | some most => e.level.rank ≤ most.rank
  | none => false

end LogFilter

end StockGate.Command
