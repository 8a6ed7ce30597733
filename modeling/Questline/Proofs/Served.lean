import Questline.Proofs.Limits
import Questline.Proofs.Loading

/-!
# What is served was accepted

In play, quests come into the registry one by one, with definitions that were accepted, or from files, which are accepted
as they are read. So when all definitions that are served at first have passed the checks, all that are ever served have.
-/

namespace Questline

theorem Registry.checked_load {r r' : Registry} {tree : Option FileTree} {count : Nat} (h : r.load tree = .ok (r', count))
    (hr : r.index.Checked) : r'.index.Checked := by
  rcases load_cases h with ⟨-, rfl, -⟩ | ⟨t, files, -, -, rfl, -⟩
  · exact hr
  · intro quest g hg
    rw [Index.get?_ofList] at hg
    obtain ⟨text, -, hl⟩ := List.mem_filterMap.1 (List.mem_filter.1 (List.mem_of_getLast? hg)).1
    cases hx : Hunt.load r.rates text with
    | error =>
      rw [hx] at hl
      cases hl
    | ok g' =>
      rw [hx] at hl
      cases hl
      obtain ⟨d, -, hd⟩ := bind_eq_ok.1 hx
      exact Hunt.accepted_of_ofDraft hd

theorem Turn.checked_after {t : Turn} (h : t.Performed) (hb : t.before.registry.index.Checked) :
    t.after.registry.index.Checked := by
  by_cases hc : t.command.redefines = true
  · cases ha : t.answer with
    | error fault =>
      rw [(lapses h ha).1]
      exact hb
    | ok a =>
      have hp := h.of_ok ha
      generalize t.before = w, t.after = w', t.now = now, t.command = c at hc hp hb ⊢
      cases c with
      | register hunt accepted =>
        cases hp
        exact hb.register accepted
      | load tree =>
        unfold World.perform at hp
        simp only at hp
        split at hp <;> cases hp
        · next hl => exact Registry.checked_load hl hb
        · exact hb
      | _ => cases hc
  · rw [registry_after h (by simpa using hc)]
    exact hb

theorem Play.checked {start w : World} {turns : List Turn} (h : Play start turns w) (hs : start.registry.index.Checked) :
    w.registry.index.Checked := by
  induction h with
  | nil => exact hs
  | turn _ ht ih => exact Turn.checked_after ht ih

end Questline
