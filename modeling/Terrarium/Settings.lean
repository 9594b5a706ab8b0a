import Terrarium.Duration
import Terrarium.Number.Decimal
import Terrarium.Yaml.Node
import Terrarium.Yaml.Number

/-!
Settings of a simulation: how they are checked, written, and read from YAML. What a document does
not give keeps its standard value, and keys that mean nothing are passed over.
-/
namespace Terrarium

/-- How a simulation is run. -/
structure Settings where
  tickMicros : UInt64
  marginMicros : UInt64
  size : UInt32
  warnFactor : Float
  history : UInt64
deriving DecidableEq

/-- What is wrong with settings. -/
inductive Complaint where
  | tickNotPositive
  | marginExceedsTick
  | sizeNotPositive
  | historyNotPositive
  | factorBelowOne
deriving DecidableEq, Repr

def Complaint.message : Complaint → String
  | .tickNotPositive => "tick_interval_us must be positive"
  | .marginExceedsTick => "busywait_margin_us must not exceed tick_interval_us"
  | .sizeNotPositive => "terrain_size must be positive"
  | .historyNotPositive => "frame_history must be positive"
  | .factorBelowOne => "overrun_warn_factor must be at least 1"

/-- Why there are no settings. -/
inductive SettingsError where
  | unreadable
  | malformed
  | invalid (c : Complaint)
deriving DecidableEq, Repr

/-- The wording of an error; only invalid settings have one of their own. -/
def SettingsError.message? : SettingsError → Option String
  | .unreadable => none
  | .malformed => none
  | .invalid c => some ("invalid configuration: " ++ c.message)

namespace Settings

/-- The settings that hold unless others are given. -/
def standard : Settings := ⟨16000, 100, 1921, 2, 120⟩

/-- What is wrong first, if anything is. -/
def complaint? (s : Settings) : Option Complaint :=
  if s.tickMicros = 0 then some .tickNotPositive
  else if s.tickMicros < s.marginMicros then some .marginExceedsTick
  else if s.size = 0 then some .sizeNotPositive
  else if s.history = 0 then some .historyNotPositive
  else if s.warnFactor.isNaN || s.warnFactor < 1 then some .factorBelowOne
  else none

/-- Settings that nothing is wrong with. -/
def check (s : Settings) : Except SettingsError Settings :=
  match s.complaint? with
  | some c => .error (.invalid c)
  | none => .ok s

/-- The time between the starts of frames. -/
def tick (s : Settings) : Duration := Duration.ofMicros s.tickMicros.toNat

/-- How long before a deadline waiting becomes watchful. -/
def margin (s : Settings) : Duration := Duration.ofMicros s.marginMicros.toNat

/-- A frame that takes longer overruns, if that time is a duration at all. -/
def threshold? (s : Settings) : Option Duration := s.tick.times? s.warnFactor

def text (s : Settings) : String :=
  "tick_interval_us: " ++ toString s.tickMicros.toNat ++
    "\nbusywait_margin_us: " ++ toString s.marginMicros.toNat ++
    "\nterrain_size: " ++ toString s.size.toNat ++
    "\noverrun_warn_factor: " ++ Decimal.scientificText s.warnFactor ++
    "\nframe_history: " ++ toString s.history.toNat ++ "\n"

/-- The settings found so far in a document. -/
structure Found where
  tick : Option UInt64
  margin : Option UInt64
  size : Option UInt32
  factor : Option Float
  history : Option UInt64

def Found.nothing : Found := ⟨none, none, none, none, none⟩

/-- The settings that were found, and standard ones for the others. -/
def Found.settings (f : Found) : Settings :=
  ⟨f.tick.getD standard.tickMicros, f.margin.getD standard.marginMicros,
    f.size.getD standard.size, f.factor.getD standard.warnFactor,
    f.history.getD standard.history⟩

/-- The tag of a whole number. -/
def wholeTag : String := "tag:yaml.org,2002:int"

/-- The tag of a number with a point. -/
def realTag : String := "tag:yaml.org,2002:float"

/-- A whole number below a limit. -/
def wholeBelow? (limit : Nat) (s : Yaml.Scalar) : Option Nat := do
  let k ← Yaml.whole? (← s.valueText? wholeTag)
  if k < limit then some k else none

def word? (s : Yaml.Scalar) : Option UInt64 := (wholeBelow? UInt64.size s).map UInt64.ofNat

def word32? (s : Yaml.Scalar) : Option UInt32 := (wholeBelow? UInt32.size s).map UInt32.ofNat

def real? (s : Yaml.Scalar) : Option Float := s.valueText? realTag >>= Yaml.real?

/-- Fills a setting, which may be given only once. -/
def fill {α : Type} (given value : Option α) : Option (Option α) :=
  match given, value with
  | none, some v => some (some v)
  | _, _ => none

/-- Takes an entry of a document. Its key is a scalar in any style, or an alias for one; so is its
value if the key means something. -/
def Found.take (d : Yaml.Document) (f : Found) (entry : Yaml.Node × Yaml.Node) : Option Found := do
  let value := d.scalar? entry.2
  match (← d.scalar? entry.1).text with
  | "tick_interval_us" => (fill f.tick (value >>= word?)).map fun v => { f with tick := v }
  | "busywait_margin_us" => (fill f.margin (value >>= word?)).map fun v => { f with margin := v }
  | "terrain_size" => (fill f.size (value >>= word32?)).map fun v => { f with size := v }
  | "overrun_warn_factor" => (fill f.factor (value >>= real?)).map fun v => { f with factor := v }
  | "frame_history" => (fill f.history (value >>= word?)).map fun v => { f with history := v }
  | _ => some f

/-- The settings in a document, unchecked. There are none but standard ones in an empty one. -/
def ofDocument? (d : Yaml.Document) : Option Settings :=
  match d.root with
  | .mapping entries => (entries.foldlM (Found.take d) Found.nothing).map Found.settings
  | .scalar s => if s.style = .plain && s.text = "" then some standard else none
  | _ => none

def ofText (s : String) : Except SettingsError Settings :=
  match Yaml.document? s >>= ofDocument? with
  | none => .error .malformed
  | some settings => settings.check

/-- The settings in a file, given its bytes if it can be read; they have to be UTF-8. -/
def ofFile (contents : Option (List UInt8)) : Except SettingsError Settings :=
  match contents >>= fun bs => String.fromUTF8? ⟨bs.toArray⟩ with
  | none => .error .unreadable
  | some s => ofText s

end Settings

end Terrarium
