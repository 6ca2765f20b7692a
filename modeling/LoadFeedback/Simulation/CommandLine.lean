import LoadFeedback.Decimal.Reader
import LoadFeedback.Simulation.Options

/-!
The command line of the simulation. Options have long names, some have a letter too; most take a
value, as the next argument or attached. An option may be given once. Anything else is refused.
-/

namespace LoadFeedback.CommandLine

/-- The options. -/
inductive Name where
  | flows | capacity | buffer | rtt | rttSpread | startSpread | duration | controlLaw
  | measurementInterval | smoothing | disablePacing | aiLimiter | packetSize | reportInterval
  | seed | logLevel | logFile
  deriving DecidableEq, Repr

def longNames : List (String × Name) :=
  [("flows", .flows), ("capacity", .capacity), ("buffer", .buffer), ("rtt", .rtt),
    ("rtt-spread", .rttSpread), ("start-spread", .startSpread), ("duration", .duration),
    ("control-law", .controlLaw), ("measurement-interval", .measurementInterval),
    ("smoothing", .smoothing), ("disable-pacing", .disablePacing), ("ai-limiter", .aiLimiter),
    ("packet-size", .packetSize), ("report-interval", .reportInterval), ("seed", .seed),
    ("log-level", .logLevel), ("log-file", .logFile)]

def letters : List (Char × Name) :=
  [('f', .flows), ('c', .capacity), ('d', .duration)]

def Name.takesValue : Name → Bool
  | .smoothing | .disablePacing | .aiLimiter => false
  | _ => true

/-- An option as it was given. -/
structure Setting where
  name : Name
  /-- Its value; empty for an option without one. -/
  value : String
  deriving DecidableEq, Repr

/-- What an argument is when no value is awaited. -/
inductive Argument where
  /-- Nothing may follow. -/
  | finish
  /-- An option, with a value attached or without. -/
  | named (name : Name) (attached : Option String)
  /-- Neither. -/
  | unknown
  deriving DecidableEq, Repr

/-- Splits a text at the first equals sign. -/
def splitEquals (cs : List Char) : List Char × Option String :=
  match cs.dropWhile (· ≠ '=') with
  | '=' :: value => (cs.takeWhile (· ≠ '='), some (String.ofList value))
  | _ => (cs, none)

/-- The value attached to a letter: what follows it, without an equals sign in front. -/
def attachedTo : List Char → Option String
  | [] => none
  | '=' :: value => some (String.ofList value)
  | value => some (String.ofList value)

/-- What an argument is when no value is awaited. -/
def Argument.of (text : String) : Argument :=
  match text.toList with
  | ['-', '-'] => .finish
  | '-' :: '-' :: rest =>
    let (long, attached) := splitEquals rest
    match longNames.lookup (String.ofList long) with
    | some name => .named name attached
    | none => .unknown
  | '-' :: letter :: rest =>
    match letters.lookup letter with
    | some name => .named name (attachedTo rest)
    | none => .unknown
  | _ => .unknown

/-- Whether an argument can be the value of the option before it. A lone hyphen can. -/
def isValue (text : String) : Bool :=
  match text.toList with
  | '-' :: _ :: _ => false
  | _ => true

/-- The options of a command line, in order. -/
def settings? : List String → Option (List Setting)
  | [] => some []
  | argument :: rest =>
    match Argument.of argument with
    | .finish => if rest.isEmpty then some [] else none
    | .unknown => none
    | .named name attached =>
      if name.takesValue then
        match attached, rest with
        | some value, rest => (settings? rest).map (⟨name, value⟩ :: ·)
        | none, value :: rest =>
          if isValue value then (settings? rest).map (⟨name, value⟩ :: ·) else none
        | none, [] => none
      else if attached.isSome then none
      else (settings? rest).map (⟨name, ""⟩ :: ·)

/-- A count of up to sixty-four bits. -/
def count? (text : String) : Option Nat :=
  Decimal.readCount? UInt64.size text

/-- The level of a name, in capital or small letters; a word stands for none at all. -/
def level? (text : String) : Option (Option Level) :=
  let word := String.ofList (text.toList.map Char.toUpper)
  if word = "OFF" then some none
  else (Level.all.find? (·.name = word)).map some

/-- Applies an option. Only simulations without random spreads are supported. -/
def Setting.apply? (s : Setting) (o : Options Float) : Option (Options Float) :=
  match s.name with
  | .flows => (count? s.value).map fun n => { o with flows := n }
  | .capacity => (Decimal.readFloat? s.value).map fun x => { o with capacity := x }
  | .buffer => (count? s.value).map fun n => { o with buffer := n }
  | .rtt => (count? s.value).map fun n => { o with roundTrip := n }
  | .rttSpread | .startSpread =>
    (count? s.value).bind fun n => if n = 0 then some o else none
  | .duration => (count? s.value).map fun n => { o with duration := n }
  | .controlLaw => (ControlLaw.ofName? s.value).map fun law => { o with law := law }
  | .measurementInterval => (count? s.value).map fun n => { o with measurementInterval := n }
  | .smoothing => some { o with smoothing := true }
  | .disablePacing => some { o with pacing := false }
  | .aiLimiter => some { o with limiter := true }
  | .packetSize => (count? s.value).map fun n => { o with packetSize := n }
  | .reportInterval => (count? s.value).map fun n => { o with reportInterval := n }
  | .seed => (count? s.value).map fun _ => o
  | .logLevel => (level? s.value).map fun level => { o with level := level }
  | .logFile => some { o with logFile := some s.value }

def areDistinct : List Setting → Bool
  | [] => true
  | s :: rest => rest.all (·.name ≠ s.name) && areDistinct rest

/-- The settings that a command line asks for, or nothing if it is refused. -/
def parse? (arguments : List String) : Option (Options Float) :=
  match settings? arguments with
  | some settings =>
    if areDistinct settings then settings.foldlM (fun o s => s.apply? o) Options.standard else none
  | none => none

end LoadFeedback.CommandLine
