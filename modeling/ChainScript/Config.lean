import ChainScript.Invoke
import ChainScript.Yaml.Reader

/-!
# Settings of a runner

A runner is set up with three settings: whether programs are strict from the start, whether accesses
are traced, and which built-in extensions its registry has. Settings come from a mapping, from a
YAML document, or from the variables of the environment, and every way in refuses what it does not
know.
-/

namespace ChainScript

/-- The settings of a runner. The two flags are truth values unless the host set them directly. -/
structure Config where
  strict : Value := .bool false
  debug : Value := .bool false
  builtins : List Value := Registry.builtinNames.map .str

namespace Config

/-- Refuses extensions that are not built in. -/
def check (config : Config) : Run Config := do
  let known := Registry.builtinNames.map Value.str
  match config.builtins.filter fun v => !known.contains v with
  | [] => return config
  | unknown => Run.fail (.unknownExtensions (← Run.ofPrinted (allTexts unknown)))

/-- The names of the settings. -/
def settingNames : List String := ["strict", "debug", "builtins"]

/-- The setting of a name among slots. -/
def setting? (slots : Slots) (name : String) : Option Value := Slots.value? slots (.str name)

/-- Refuses settings that are not known. -/
def checkNames (slots : Slots) : Run Unit := do
  let known := settingNames.map Value.str
  match (Slots.labels slots).filter fun v => !known.contains v with
  | [] => return
  | unknown =>
    let names ← Run.ofPrinted (allTexts unknown)
    Run.fail (.unknownSettings (names.mergeSort fun a b => !(b < a)))

/-- A flag of a mapping, off where it is missing. -/
def flag (slots : Slots) (name : String) : Run Value := do
  match setting? slots name with
  | none => return .bool false
  | some (.bool b) => return .bool b
  | some v => Run.fail (.flagNotBool name v)

/-- The extensions that a mapping asks for. Null asks for none. -/
def extensions (slots : Slots) : Run (List Value) := do
  match setting? slots "builtins" with
  | none => return Registry.builtinNames.map .str
  | some .null => return []
  | some v =>
    match (← Run.heap).objectOf? v with
    | some (.list items) | some (.tuple items) => return items
    | _ => Run.fail (.extensionsNotList v)

/-- The settings that the values of slots give. The flags come first. -/
def ofValues (slots : Slots) : Run Config := do
  let strict ← flag slots "strict"
  let debug ← flag slots "debug"
  check ⟨strict, debug, ← extensions slots⟩

/-- The settings that a mapping gives. An empty value gives none. -/
def ofMapping (data : Value) : Run Config := do
  let slots ← if (← Run.heap).isTruthy data then Invoke.entriesOf data else pure .empty
  -- Names are checked before values.
  checkNames slots
  ofValues slots

/-- The settings that a host gives directly, by name. -/
def ofSettings (slots : Slots) : Run Config := do
  let known := settingNames.map Value.str
  if (Slots.labels slots).any fun v => !known.contains v then Run.failNative .typeError
  else
    let default : Config := {}
    let builtins ← match setting? slots "builtins" with
      | none => pure default.builtins
      | some v => Run.iterate v
    check ⟨(setting? slots "strict").getD default.strict,
      (setting? slots "debug").getD default.debug, builtins⟩

mutual

/-- A document as a value. -/
def ofDocument : Yaml → Run Value
  | .null => return .null
  | .bool b => return .bool b
  | .int n => return .int n
  | .float x => return .float x
  | .str s => return .str s
  | .list items => do Run.allocList (← ofItems items)
  | .mapping entries => do Run.alloc (.dict (← ofEntries .empty entries))

/-- The items of a list as values. -/
def ofItems : List Yaml → Run (List Value)
  | [] => return []
  | item :: rest => return (← ofDocument item) :: (← ofItems rest)

/-- The entries of a mapping as slots, after those read before. -/
def ofEntries (slots : Slots) : List (Yaml × Yaml) → Run Slots
  | [] => return slots
  | (key, v) :: rest => do
    let label ← ofDocument key
    let v ← ofDocument v
    ofEntries (Slots.put slots (← Run.keyOf label) label v) rest

end

/-- What a text loads to, if it is YAML. -/
def load (text : String) : Run (Option Value) := do
  match Yaml.read? text with
  | none => return none
  | some document =>
    -- A mapping whose keys cannot name entries is refused like a text that is no YAML.
    try pure (some (← ofDocument document))
    catch _ => pure none

/-- The settings that a loaded document gives. Nothing is loaded from a text that is no YAML. -/
def ofLoaded (loaded : Option Value) : Run Config := do
  match loaded with
  | none => Run.fail .badYaml
  | some .null => ofMapping .null
  | some data =>
    match (← Run.heap).objectOf? data with
    | some (.dict _) => ofMapping data
    | _ => Run.fail .yamlNotMapping

/-- The settings that a text gives, by what loads a text. -/
def ofYamlBy (load : String → Run (Option Value)) (text : String) : Run Config := do
  ofLoaded (← load text)

/-- The settings that a YAML document gives. -/
def ofYaml (text : String) : Run Config := ofYamlBy load text

/-- The flag that a variable of the environment sets. -/
def flagOf? (environment : List (String × String)) (name : String) : Run (Option Bool) := do
  match environment.lookup name with
  | none => return none
  | some raw =>
    match Flag.read? raw with
    | some b => return some b
    | none => Run.fail (.badFlag name raw)

/-- The settings with the flags that the environment sets, and whether it sets any. -/
def withEnvironment (config : Config) (environment : List (String × String)) :
    Run (Config × Bool) := do
  let strict ← flagOf? environment "VPROP_STRICT"
  let debug ← flagOf? environment "VPROP_DEBUG"
  if strict.isNone && debug.isNone then return (config, false)
  else
    let config ← check
      { config with
        strict := (strict.map Value.bool).getD config.strict
        debug := (debug.map Value.bool).getD config.debug }
    return (config, true)

end Config

end ChainScript
