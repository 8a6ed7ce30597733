/-!
The kinds of scripts that can drive a quest, by the names under which quest files ask for them.
-/

namespace Questline

inductive ScriptKind where
  /-- The script of `Questline.Hunt`. -/
  | hunt
  deriving DecidableEq, Repr

namespace ScriptKind

def name : ScriptKind → String
  | .hunt => "mutated_kaneus"

def ofName? (s : String) : Option ScriptKind := if s = hunt.name then some .hunt else none

theorem ofName?_eq_some_iff {s : String} {kind : ScriptKind} : ofName? s = some kind ↔ s = kind.name := by
  cases kind
  simp [ofName?]

end ScriptKind

end Questline
