import Questline.FileTree
import Questline.Hunt.Loading
import Questline.Registry.Index

/-!
A registry: the quests that are served, and the rates at which quests loaded from files pay.
-/

namespace Questline

structure Registry where
  index : Index
  rates : Rates
  deriving DecidableEq, Repr

namespace Registry

def empty (rates : Rates) : Registry := ⟨.empty, rates⟩

def register (r : Registry) (h : Hunt) : Registry := { r with index := r.index.register h }

/-- The quests of all sound files, in the order of their paths; broken files are skipped. -/
def sound (rates : Rates) (files : Table FileTree.Path (Option String)) : List Hunt :=
  files.values.filterMap fun text => (Hunt.load rates text).toOption

/-- Replaces all quests by those of a tree of files, and counts them. Of two files with one quest the later
stands. Without a tree nothing changes, and the count is zero. -/
def load (r : Registry) (tree : Option FileTree) : Except LoadError (Registry × Nat) :=
  match tree with
  | none => .ok (r, 0)
  | some tree =>
    match tree.questFiles? with
    | none => .error .unreadable
    | some files =>
      let index := Index.ofList (sound r.rates files)
      .ok ({ r with index }, index.size)

end Registry

end Questline
