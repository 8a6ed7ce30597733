import Questline.Proofs.Index

/-!
# Loading replaces what was served, if there is anything to load from

Loading is meant to put the quests of a tree of files in the place of whatever was served before. `Replaced` says
what two registries with different pasts then have in common. `load_replaces_iff` says when this is so: always when
there is a tree, and without a tree only when nothing was served, for then the old quests stay.
-/

namespace Questline

namespace Index

theorem get?_foldl_register {hs : List Hunt} {ix : Index} {q : QuestId} {h : Hunt}
    (hq : (hs.foldl register ix).get? q = some h) : h ∈ hs ∨ ix.get? q = some h := by
  rw [get?_foldl_register_getLast?] at hq
  rcases Option.or_eq_some_iff.1 hq with hlast | ⟨-, hold⟩
  · exact .inl (List.mem_filter.1 (List.mem_of_getLast? hlast)).1
  · exact .inr hold

theorem get?_eq_none_of_size {ix : Index} (h : ix.size = 0) (q : QuestId) : ix.get? q = none := by
  have he : ix.quests.entries = [] := List.length_eq_zero_iff.1 h
  unfold get? Table.get?
  rw [he]
  rfl

theorem ids_eq_nil_of_size {ix : Index} (h : ix.size = 0) : ix.ids = [] := by
  have he : ix.quests.entries = [] := List.length_eq_zero_iff.1 h
  unfold ids Table.keys
  rw [he]
  rfl

end Index

namespace Registry

/-- Some sound quest file of the tree describes the hunt. -/
def Describes (rates : Rates) (tree : Option FileTree) (h : Hunt) : Prop :=
  ∃ t files path text, tree = some t ∧ t.questFiles? = some files ∧
    files.get? path = some text ∧ Hunt.load rates text = .ok h

theorem describes_of_mem_sound {rates : Rates} {t : FileTree} {files : Table FileTree.Path (Option String)}
    {h : Hunt} (hf : t.questFiles? = some files) (hm : h ∈ sound rates files) : Describes rates (some t) h := by
  obtain ⟨text, ht, hh⟩ := List.mem_filterMap.1 hm
  obtain ⟨e, he, rfl⟩ := List.mem_map.1 ht
  refine ⟨t, files, e.1, e.2, rfl, hf, Table.mem_toList.1 he, ?_⟩
  cases hl : Hunt.load rates e.2 with
  | error reason => rw [hl] at hh; cases hh
  | ok g => rw [hl] at hh; exact congrArg _ (Option.some.inj hh)

/-- Two registries answer alike, serve as many quests as were counted, and serve none but those that a sound file
of the tree describes. -/
structure Replaced (tree : Option FileTree) (count : Nat) (r₁ r₂ : Registry) : Prop where
  ids : r₁.index.ids = r₂.index.ids
  definition : ∀ q, (r₁.index.get? q).map (·.definition) = (r₂.index.get? q).map (·.definition)
  startedBy : ∀ npc, r₁.index.startedBy npc = r₂.index.startedBy npc
  killedBy : ∀ npc, r₁.index.killedBy npc = r₂.index.killedBy npc
  size : r₁.index.size = count ∧ r₂.index.size = count
  described : ∀ q h, r₁.index.get? q = some h ∨ r₂.index.get? q = some h → Describes r₁.rates tree h

/-- One registry in the place of both: what it serves has to come from the tree. -/
theorem replaced_of_index_eq {tree : Option FileTree} {r₁ r₂ : Registry} (he : r₁.index = r₂.index)
    (hd : ∀ q h, r₁.index.get? q = some h → Describes r₁.rates tree h) : Replaced tree r₁.index.size r₁ r₂ where
  ids := by rw [he]
  definition q := by rw [he]
  startedBy npc := by rw [he]
  killedBy npc := by rw [he]
  size := ⟨rfl, by rw [he]⟩
  described q h hq := by
    rw [← he, or_self] at hq
    exact hd q h hq

theorem replaced_of_size_eq_zero {tree : Option FileTree} {r₁ r₂ : Registry} (h₁ : r₁.Arises) (h₂ : r₂.Arises)
    (hs₁ : r₁.index.size = 0) (hs₂ : r₂.index.size = 0) : Replaced tree 0 r₁ r₂ := by
  have hn : ∀ q, (r₁.index.get? q).map (·.definition) = (r₂.index.get? q).map (·.definition) := fun q => by
    rw [Index.get?_eq_none_of_size hs₁, Index.get?_eq_none_of_size hs₂]
  have ht := h₁.kept.table_ext h₂.kept hn
  refine ⟨?_, hn, fun npc => ?_, fun npc => ?_, ⟨hs₁, hs₂⟩, fun q h hq => ?_⟩
  · rw [Index.ids_eq_nil_of_size hs₁, Index.ids_eq_nil_of_size hs₂]
  · exact congrArg (Index.mentioned · npc) (ht .starts)
  · exact congrArg (Index.mentioned · npc) (ht .kills)
  · rw [Index.get?_eq_none_of_size hs₁, Index.get?_eq_none_of_size hs₂] at hq
    rcases hq with hq | hq <;> cases hq

/-- When a tree can be loaded, it can be loaded whatever was served before, with the same count. Two registries with
the same rates are then replaced, if there is a tree or if neither served anything; and only then. -/
theorem load_replaces_iff {r₁ r₂ r₁' : Registry} {tree : Option FileTree} {count : Nat} (h₁ : r₁.Arises)
    (h₂ : r₂.Arises) (hr : r₁.rates = r₂.rates) (hl : r₁.load tree = .ok (r₁', count)) :
    ∃ r₂', r₂.load tree = .ok (r₂', count) ∧
      (Replaced tree count r₁' r₂' ↔ tree ≠ none ∨ r₁.index.size = 0 ∧ r₂.index.size = 0) := by
  rcases load_cases hl with ⟨rfl, rfl, rfl⟩ | ⟨t, files, rfl, hf, rfl, rfl⟩
  · refine ⟨r₂, rfl, fun hp => .inr hp.size, fun hs => ?_⟩
    obtain ⟨hs₁, hs₂⟩ := hs.resolve_left fun hn => hn rfl
    exact replaced_of_size_eq_zero h₁ h₂ hs₁ hs₂
  · refine ⟨{ r₂ with index := Index.ofList (sound r₁.rates files) }, ?_,
      fun _ => .inl (Option.some_ne_none t), fun _ => ?_⟩
    · unfold load
      simp only [hf, hr]
    · refine replaced_of_index_eq rfl fun q h hq => ?_
      rcases Index.get?_foldl_register hq with hm | hn
      · exact describes_of_mem_sound hf hm
      · cases hn

/-- An empty folder takes the place of a quest that was registered before. -/
theorem load_replaces_iff_empty_folder :
    let r := (Registry.empty .default).register (.schuttgart .default)
    r.Arises ∧ ∃ r', r.load (some (.folder [])) = .ok (r', 0) ∧
      Replaced (some (.folder [])) 0 (.empty .default) r' := by
  intro r
  have hr : r.Arises := .register _ (.empty _)
  have hl₀ : (Registry.empty .default).load (some (.folder [])) = .ok (.empty .default, 0) := rfl
  obtain ⟨r', hl, hp⟩ := load_replaces_iff (.empty .default) hr rfl hl₀
  exact ⟨hr, r', hl, hp.2 (.inl (Option.some_ne_none _))⟩

/-- Without a tree nothing is replaced: a quest that was registered before is still served, while none is counted. -/
theorem load_none_not_replaced :
    let r := (Registry.empty .default).register (.schuttgart .default)
    r.Arises ∧ r.load none = .ok (r, 0) ∧ r.index.ids = [⟨10280⟩] ∧
      (Registry.empty .default).load none = .ok (.empty .default, 0) ∧ ¬ Replaced none 0 (.empty .default) r := by
  intro r
  refine ⟨.register _ (.empty _), rfl, rfl, rfl, fun hp => ?_⟩
  exact absurd hp.size.2 (by decide)

end Registry

end Questline
