import Questline.FileTree
import Questline.LoadError
import Questline.Rates
import Questline.Toml.Decode
import Questline.Toml.Document

/-!
The configuration: where quests lie, whether changes are followed, and the rates. All parts have defaults, so
that a file may leave out any of them, or be missing.
-/

namespace Questline

open Toml (Value)
open Toml.Value (withDefault)

structure Config where
  dataDir : String
  hotReload : Bool
  rates : Rates
  deriving DecidableEq, Repr

def Rates.ofToml? (v : Value) : Option Rates := do
  let [currency] ← v.record? ["quest_reward_currency"] | none
  return { currency := ← withDefault Rates.default.currency Value.float? currency }

namespace Config

def default : Config := ⟨"data", true, .default⟩

def ofToml? (v : Value) : Option Config := do
  let [dataDir, hotReload, rates] ← v.record? ["data_dir", "hot_reload", "rates"] | none
  return {
    dataDir := ← withDefault default.dataDir Value.string? dataDir
    hotReload := ← withDefault default.hotReload Value.boolean? hotReload
    rates := ← withDefault .default Rates.ofToml? rates }

def check (c : Config) : Except LoadError Config :=
  let rate := c.rates.currency
  if rate.isFinite && !rate.isNegative then .ok c else .error (.badRate rate)

def load (file : Option FileTree) : Except LoadError Config :=
  match file with
  | none => .ok default
  | some (.file (some s)) =>
    match (Toml.parse? s).bind ofToml? with
    | none => .error .malformed
    | some c => c.check
  | some _ => .error .unreadable

def questsDir (c : Config) : String :=
  if c.dataDir.isEmpty || c.dataDir.endsWith "/" then c.dataDir ++ "quests" else c.dataDir ++ "/quests"

end Config

end Questline
