import Instrumentation.Text.Blank
import Instrumentation.Text.Pieces

/-!
The switch that turns rules off in a running program: a list of rule names with commas between
them, or the one word that stands for all rules.
-/
namespace Instrumentation.Invocation

inductive Switch where
  | allOff
  /-- All rules are on but these. -/
  | off (rules : List String)
  deriving DecidableEq, Repr

namespace Switch

/-- The switch that a setting stands for; names may have blanks around them. -/
def ofSetting (setting : String) : Switch :=
  if Text.trimmed setting == "all" then allOff
  else off (((Text.pieces ',' setting.toList).map fun p => String.ofList (Text.trim p)).filter
    fun s => !s.isEmpty)

/-- Without a setting every rule is on. -/
def ofSetting? : Option String → Switch
  | some s => ofSetting s
  | none => off []

def isOn : Switch → String → Bool
  | allOff, _ => false
  | off rules, rule => !rules.contains rule

end Switch
end Instrumentation.Invocation
