/-!
# Log records

What the compiler tells the host beside its results. Records have levels; a channel that is set up
with a threshold writes the records at or above it.

## Main definitions

* `Journal.Level`, `Journal.Record`
* `Journal.Channel`, `Journal.Channel.write`
-/

namespace RenderGraph.Journal

/-- How grave a record is. Some levels have names. -/
structure Level where
  gravity : Int
  deriving DecidableEq, Repr

namespace Level

/-- The level of a channel that leaves the choice to the channels around it. -/
def unset : Level :=
  ⟨0⟩

def debug : Level :=
  ⟨10⟩

def info : Level :=
  ⟨20⟩

def warning : Level :=
  ⟨30⟩

def error : Level :=
  ⟨40⟩

def critical : Level :=
  ⟨50⟩

/-- The written name of a level; a level without a name of its own is called by its number. -/
def name (l : Level) : String :=
  match l.gravity with
  | 0 => "NOTSET"
  | 10 => "DEBUG"
  | 20 => "INFO"
  | 30 => "WARNING"
  | 40 => "ERROR"
  | 50 => "CRITICAL"
  | n => "Level " ++ toString n

/-- The level with a given written name; two levels have a second name. -/
def ofName? : String → Option Level
  | "NOTSET" => some unset
  | "DEBUG" => some debug
  | "INFO" => some info
  | "WARNING" | "WARN" => some warning
  | "ERROR" => some error
  | "CRITICAL" | "FATAL" => some critical
  | _ => none

end Level

/-- A message with its level. -/
structure Record where
  level : Level
  message : String
  deriving DecidableEq, Repr

/-- A record that warns. -/
def Record.warn (message : String) : Record :=
  { level := .warning, message }

/-- A record of a failure. -/
def Record.fail (message : String) : Record :=
  { level := .error, message }

/-- Where records are written. Nothing is written before the channel is set up. -/
structure Channel where
  threshold : Option Level := none
  deriving DecidableEq, Repr

namespace Channel

/-- The name of the channel. -/
def name : String :=
  "shader_nodes"

/-- The channel with a threshold. -/
def setUp (_ : Channel) (level : Level) : Channel :=
  { threshold := some level }

/-- How many writers the channel has. -/
def writers (c : Channel) : Nat :=
  if c.threshold.isSome then 1 else 0

/-- Records also go to the channels around this one. -/
def propagates (c : Channel) : Bool :=
  c.threshold.isNone

/-- The least level that is written under a threshold. Where the threshold is unset, the channels around
this one ask for warnings. -/
def leastLevel (threshold : Level) : Level :=
  if threshold = .unset then .warning else threshold

/-- What the channel writes for a record. -/
def write (c : Channel) (r : Record) : String :=
  match c.threshold with
  | none => ""
  | some threshold =>
    if (leastLevel threshold).gravity ≤ r.level.gravity then
      "[" ++ name ++ "] [" ++ r.level.name ++ "] " ++ r.message ++ "\n"
    else ""

end Channel

end RenderGraph.Journal
