import Questline.Definition.File
import Questline.Hunt
import Questline.LoadError
import Questline.ScriptKind

/-!
From a quest file to the hunt that it describes: the text is read, the rules are checked, and the script is
looked up by name. The first thing that is wrong is reported.
-/

namespace Questline

/-- The draft in a file, whose text is missing when it cannot be read. -/
def Draft.load (text : Option String) : Except LoadError Draft :=
  match text with
  | none => .error .unreadable
  | some s =>
    match Draft.ofText? s with
    | none => .error .malformed
    | some d => .ok d

def Definition.load (d : Draft) : Except LoadError Definition := (Definition.ofDraft d).mapError (.flawed d.id)

namespace Hunt

def ofDefinition (rates : Rates) (d : Definition) : Except LoadError Hunt :=
  match ScriptKind.ofName? d.script with
  | some .hunt => .ok ⟨d, rates⟩
  | none => .error (.unknownScript d.script)

def ofDraft (rates : Rates) (d : Draft) : Except LoadError Hunt := (Definition.load d).bind (ofDefinition rates)

theorem accepted_of_ofDraft {rates : Rates} {d : Draft} {h : Hunt} (hd : ofDraft rates d = .ok h) :
    h.definition.Accepted := by
  unfold ofDraft Definition.load at hd
  cases hc : Definition.ofDraft d with
  | error flaw =>
    rw [hc] at hd
    cases hd
  | ok definition =>
    rw [hc] at hd
    change ofDefinition rates definition = .ok h at hd
    unfold ofDefinition at hd
    split at hd
    · cases hd
      exact ⟨d, hc⟩
    · cases hd

def load (rates : Rates) (text : Option String) : Except LoadError Hunt := (Draft.load text).bind (ofDraft rates)

end Hunt

end Questline
