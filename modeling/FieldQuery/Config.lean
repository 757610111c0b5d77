import FieldQuery.Json.Reader
import FieldQuery.Policy

/-!
# Configuration

A client has two default policies and a switch for guarding its write-backs.
A default policy that has options, but none that a store call knows, is a
mistake and is refused.

A configuration is written as a JSON map of its settings, or as a list of
their values in order. Settings that are left out take their defaults, and
settings that are not known are passed over unread.
-/

namespace FieldQuery

/-- The settings of a client. -/
structure Config where
  /-- Whether a write-back fails if its record changed since it was read. -/
  generationCheck : Bool
  readPolicy : Option Policy
  writePolicy : Option Policy
deriving DecidableEq

/-- Why a configuration is refused. -/
inductive ConfigError where
  /-- A default policy has options, but none that a store call knows. -/
  | uselessPolicy (setting : String) (options : List String)
  /-- The text is no configuration. -/
  | unreadable
deriving DecidableEq

/-- The wording of a refusal. -/
def ConfigError.message :
    ConfigError → String
  | uselessPolicy setting options =>
      "Invalid policy: " ++ setting ++ " has no recognised options (got " ++
        ", ".intercalate options ++ ")"
  | unreadable => "Invalid configuration document"

namespace Config

/-- Unguarded, and without policies. -/
def default : Config :=
  ⟨false, none, none⟩

/-- The policy of a read: the caller's, or else the default one. -/
def readPolicyFor
    (config : Config)
    (caller : Option Policy) :
    Option Policy :=
  caller <|> config.readPolicy

/-- The policy of a write: the caller's, or else the default one. -/
def writePolicyFor
    (config : Config)
    (caller : Option Policy) :
    Option Policy :=
  caller <|> config.writePolicy

/-- Refuses a default policy of which nothing would reach the store. -/
def checkPolicy
    (setting : String) :
    Option Policy → Except ConfigError Unit
  | none => .ok ()
  | some policy =>
      if policy.isEmpty || !(Policy.forStore policy).isEmpty then
        .ok ()
      else
        .error (.uselessPolicy setting (Policy.dropped policy))

/-- Checks the two default policies. -/
def validate
    (config : Config) :
    Except ConfigError Unit := do
  checkPolicy "default_read_policy" config.readPolicy
  checkPolicy "default_write_policy" config.writePolicy

/-- A configuration that passes its checks. -/
def validated
    (config : Config) :
    Except ConfigError Config :=
  config.validate.map fun _ => config

open Json (Tree)

/-- The switch that a tree stands for. -/
def switch? :
    Tree → Option Bool
  | .bool value => some value
  | _ => none

/-- The policy that a tree stands for, where null is no policy. -/
def policy? :
    Tree → Option (Option Policy)
  | .null => some none
  | .map members =>
      match Tree.value? (Tree.levels - 1) (.map members) with
      | some (.map options) => some (some options)
      | _ => none
  | _ => none

/-- The value of a setting that is given at most once. -/
def setting?
    {α : Type}
    (name : String)
    (otherwise : α)
    (read? : Tree → Option α)
    (settings : List (String × Tree)) :
    Option α :=
  match settings.filter fun entry => entry.1 = name with
  | [] => some otherwise
  | [entry] => read? entry.2
  | _ => none

/-- The settings of a map by their decoded names. -/
def entries? :
    List (List Nat × Tree) → Option (List (String × Tree))
  | [] => some []
  | (key, value) :: rest =>
      match Json.text? key, entries? rest with
      | some name, some entries => some ((name, value) :: entries)
      | _, _ => none

/-- The configuration of some named settings. -/
def ofEntries?
    (entries : List (String × Tree)) :
    Option Config :=
  match setting? "generation_check" false switch? entries,
    setting? "default_read_policy" none policy? entries,
    setting? "default_write_policy" none policy? entries with
  | some generationCheck, some readPolicy, some writePolicy =>
      some ⟨generationCheck, readPolicy, writePolicy⟩
  | _, _, _ => none

/-- The names of the settings in order. -/
def settingNames : List String :=
  ["generation_check", "default_read_policy", "default_write_policy"]

/-- The configuration that a tree stands for. -/
def ofTree? :
    Tree → Option Config
  | .map members => (entries? members).bind ofEntries?
  | .list items =>
      if items.length ≤ settingNames.length then
        ofEntries? (settingNames.zip items)
      else
        none
  | _ => none

/-- Reads a configuration and checks it. -/
def ofJson
    (text : String) :
    Except ConfigError Config :=
  match (Tree.ofText? text).bind ofTree? with
  | none => .error .unreadable
  | some config => config.validated

end Config
end FieldQuery
