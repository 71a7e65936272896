import Achievements.Memory.Ram
import Achievements.Text.Numeral
import Achievements.Toml.Document

/-!
# Settings

Settings for reading formulas and for verifying plans, read from a configuration file. Each of them
may be missing there and then has its default.
-/

set_option autoImplicit false

namespace Achievements

/-- Settings for reading formulas. -/
structure FormulaSettings where
  /-- How many frames a second of the seconds shorthand stands for. -/
  framesPerSecond : UInt32 := 60
  /-- Is the reading of each token to be logged? -/
  trace : Bool := false
  deriving DecidableEq, Repr, Inhabited

/-- Settings for verifying plans. -/
structure VerifySettings where
  /-- The size of the memory that plans are played on. -/
  ramSize : Nat := Ram.nesSize
  /-- The length of the longest plan that is played. -/
  maxSteps : Nat := 10000
  deriving DecidableEq, Repr, Inhabited

/-- All settings. -/
structure Settings where
  formula : FormulaSettings := {}
  verify : VerifySettings := {}
  deriving DecidableEq, Repr, Inhabited

namespace FormulaSettings

def ofToml? (value : Toml.Value) : Option FormulaSettings := do
  let [rate, trace] ← value.fields? ["frames_per_second", "trace"] | none
  let rate ← Toml.Value.optional (60 : UInt32)
    (fun value => (value.asNat? Text.limit32).map UInt32.ofNat) rate
  let trace ← Toml.Value.optional false Toml.Value.asBool? trace
  some ⟨rate, trace⟩

end FormulaSettings

namespace VerifySettings

def ofToml? (value : Toml.Value) : Option VerifySettings := do
  let [ramSize, maxSteps] ← value.fields? ["ram_size", "max_steps"] | none
  let ramSize ← Toml.Value.optional Ram.nesSize (Toml.Value.asNat? Text.limit64) ramSize
  let maxSteps ← Toml.Value.optional 10000 (Toml.Value.asNat? Text.limit64) maxSteps
  some ⟨ramSize, maxSteps⟩

end VerifySettings

namespace Settings

def ofToml? (value : Toml.Value) : Option Settings := do
  let [formula, verify] ← value.fields? ["compiler", "verify"] | none
  let formula ← Toml.Value.optional {} FormulaSettings.ofToml? formula
  let verify ← Toml.Value.optional {} VerifySettings.ofToml? verify
  some ⟨formula, verify⟩

/-- The settings in the text of a configuration file. -/
def ofText? (text : String) : Option Settings :=
  (Toml.parse? text).bind ofToml?

end Settings

end Achievements
