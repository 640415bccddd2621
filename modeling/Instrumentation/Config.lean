import Instrumentation.Injection
import Instrumentation.Json.Decode
import Instrumentation.Toml.Reader

/-!
The settings of a run, which a program keeps in a file beside its manifest.
-/
namespace Instrumentation

structure Config where
  /-- The rule files, in the order in which rules nest. -/
  rules : List Path := []
  disabledRules : List String := []
  /-- The rules that can be switched off in the running program. -/
  runtimeToggle : List String := []
  conflictPolicy : ConflictPolicy := .abort
  pruneUnreachable : Bool := true
  offline : Bool := false
  locked : Bool := false
  targetDir : Option Path := none
  keepWorkDir : Bool := false
  workers : Option Nat := none
  cargoArgs : List String := []
  /-- Where the support package lies. -/
  runtimePath : Option Path := none
  deriving DecidableEq, Repr

def ConflictPolicy.ofName? : String → Option ConflictPolicy
  | "abort" => some .abort
  | "skip" => some .skip
  | _ => none

def ConflictPolicy.name : ConflictPolicy → String
  | .abort => "abort"
  | .skip => "skip"

namespace Config

open Json (Fields fields? listOf? below?)

/-- The name of the settings file. -/
def fileName : String := "hookweave.toml"

def decode? (base : Path) (j : Json) : Option Config := do
  let fs ← fields? ["rules", "disabled_rules", "runtime_toggle", "conflict_policy",
    "prune_unreachable", "offline", "locked", "target_dir", "keep_work_dir", "workers",
    "cargo_args", "runtime_path"] j
  let texts := Fields.defaulted [] (listOf? Json.str?) fs
  let flag := fun default => Fields.defaulted default Json.bool? fs
  let path := Fields.optional (fun j => j.str?.map base.join) fs
  return {
    rules := (← texts "rules").map base.join
    disabledRules := ← texts "disabled_rules"
    runtimeToggle := ← texts "runtime_toggle"
    conflictPolicy := ← Fields.defaulted .abort (fun j => j.str?.bind ConflictPolicy.ofName?) fs
      "conflict_policy"
    pruneUnreachable := ← flag true "prune_unreachable"
    offline := ← flag false "offline"
    locked := ← flag false "locked"
    targetDir := ← path "target_dir"
    keepWorkDir := ← flag false "keep_work_dir"
    workers := ← Fields.optional (below? Json.signedBound) fs "workers"
    cargoArgs := ← texts "cargo_args"
    runtimePath := ← path "runtime_path" }

/-- The settings in a text; paths are seen from the directory `base`. -/
def read? (text : String) (base : Path) : Option Config := (Toml.read? text).bind (decode? base)

/-- What is said of a text that holds no settings. -/
def invalid : String := "invalid hookweave configuration"

/-- How many workers to use, given the number of cores. -/
def workerCount (cores : Nat) (configured : Option Nat) : Nat :=
  max ((configured.filter (· > 0)).getD cores) 1

/-- How much is logged, by how often more was asked for. -/
def logDirective (verbose : Nat) : String :=
  match verbose with
  | 0 => "info"
  | 1 => "hookweave=debug,info"
  | _ => "debug"

end Config
end Instrumentation
