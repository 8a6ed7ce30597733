import Questline.Proofs.Deed
import Questline.Proofs.Files
import Questline.Proofs.Index
import Questline.Proofs.Schuttgart

/-!
# What a tree of files serves

A quest file is valid when it can be read, has the form of a quest, obeys the rules and names a script that exists;
`Hunt.Written` says so. Loading a tree serves the quests of its valid files, and of two files with one quest the one
whose path is greater. `World.load_serves_greatest` is stated without the order in which folders are listed and
without the files that are not valid.
-/

namespace Questline

/-- The text is that of a valid quest file, which describes the hunt. -/
structure Hunt.Written (rates : Rates) (text : Option String) (h : Hunt) : Prop where
  sound : ∃ s d, text = some s ∧ Draft.ofText? s = some d ∧ Definition.ofDraft d = .ok h.definition
  script : ∃ kind : ScriptKind, h.definition.script = kind.name
  rates : h.rates = rates

theorem Draft.load_eq_ok_iff {text : Option String} {d : Draft} :
    Draft.load text = .ok d ↔ ∃ s, text = some s ∧ Draft.ofText? s = some d := by
  unfold Draft.load
  cases text with
  | none => simp
  | some s => cases hd : Draft.ofText? s <;> simp [hd]

namespace Hunt

theorem ofDefinition_eq_ok_iff {rates : Rates} {d : Definition} {h : Hunt} :
    ofDefinition rates d = .ok h ↔ (∃ kind : ScriptKind, d.script = kind.name) ∧ h = ⟨d, rates⟩ := by
  unfold ofDefinition
  split
  · next hs =>
    have hk : ∃ kind : ScriptKind, d.script = kind.name := ⟨.hunt, ScriptKind.ofName?_eq_some_iff.1 hs⟩
    simp [hk, eq_comm]
  · next hs =>
    have hk : ¬ ∃ kind : ScriptKind, d.script = kind.name := by
      rintro ⟨kind, hn⟩
      rw [ScriptKind.ofName?_eq_some_iff.2 hn] at hs
      cases hs
    simp [hk]

theorem ofDraft_eq_ok_iff {rates : Rates} {d : Draft} {h : Hunt} :
    ofDraft rates d = .ok h ↔
      Definition.ofDraft d = .ok h.definition ∧ (∃ kind : ScriptKind, h.definition.script = kind.name) ∧ h.rates = rates := by
  unfold ofDraft Definition.load
  constructor
  · intro hd
    obtain ⟨d', hd', hscript⟩ := bind_eq_ok.1 hd
    obtain ⟨hk, rfl⟩ := ofDefinition_eq_ok_iff.1 hscript
    cases hc : Definition.ofDraft d with
    | error flaw => rw [hc] at hd'; cases hd'
    | ok d'' =>
      rw [hc] at hd'
      cases hd'
      exact ⟨rfl, hk, rfl⟩
  · rintro ⟨hd, hk, rfl⟩
    rw [hd]
    exact ofDefinition_eq_ok_iff.2 ⟨hk, rfl⟩

theorem load_eq_ok_iff {rates : Rates} {text : Option String} {h : Hunt} :
    load rates text = .ok h ↔ h.Written rates text := by
  unfold load
  constructor
  · intro hl
    obtain ⟨d, hd, hrest⟩ := bind_eq_ok.1 hl
    obtain ⟨s, rfl, hs⟩ := Draft.load_eq_ok_iff.1 hd
    obtain ⟨hsound, hk, hrates⟩ := ofDraft_eq_ok_iff.1 hrest
    exact ⟨⟨s, d, rfl, hs, hsound⟩, hk, hrates⟩
  · rintro ⟨⟨s, d, rfl, hs, hd⟩, hk, hrates⟩
    exact bind_eq_ok.2 ⟨d, Draft.load_eq_ok_iff.2 ⟨s, rfl, hs⟩, ofDraft_eq_ok_iff.2 ⟨hd, hk, hrates⟩⟩

end Hunt

namespace Index

theorem get?_ofList (hs : List Hunt) (q : QuestId) :
    (ofList hs).get? q = (hs.filter fun h => decide (h.definition.id = q)).getLast? := by
  rw [ofList, get?_foldl_register_getLast?]
  exact Option.or_none

variable {κ : Type} [Ord κ] [Std.TransOrd κ] [Std.LawfulEqOrd κ]

theorem getLast?_eq_some_iff {l : List (κ × Hunt)} (hl : l.Pairwise fun a b => compare a.1 b.1 = .lt) {e : κ × Hunt} :
    l.getLast? = some e ↔ e ∈ l ∧ ∀ e' ∈ l, compare e'.1 e.1 ≠ .gt := by
  constructor
  · intro h
    obtain ⟨front, rfl⟩ := List.getLast?_eq_some_iff.1 h
    refine ⟨List.mem_append_right front (List.mem_singleton_self e), fun e' he' => ?_⟩
    rcases List.mem_append.1 he' with he' | he'
    · rw [(List.pairwise_append.1 hl).2.2 e' he' e (List.mem_singleton_self e)]
      exact Ordering.noConfusion
    · simp [List.mem_singleton.1 he']
  · rintro ⟨hm, hmax⟩
    obtain ⟨last, hlast⟩ := Option.isSome_iff_exists.1 (List.getLast?_isSome.2 (List.ne_nil_of_mem hm))
    obtain ⟨front, rfl⟩ := List.getLast?_eq_some_iff.1 hlast
    rcases List.mem_append.1 hm with hm | hm
    · have hlt := (List.pairwise_append.1 hl).2.2 e hm last (List.mem_singleton_self last)
      have hle := hmax last (List.mem_append_right front (List.mem_singleton_self last))
      exact absurd (Std.OrientedCmp.gt_of_lt hlt) hle
    · rw [List.mem_singleton.1 hm]
      exact hlast

theorem get?_ofList_values {t : Table κ Hunt} {q : QuestId} {h : Hunt} :
    (ofList t.values).get? q = some h ↔
      h.definition.id = q ∧ ∃ k, t.get? k = some h ∧
        ∀ k' h', t.get? k' = some h' → h'.definition.id = q → compare k' k ≠ .gt := by
  have hlast := fun e => getLast?_eq_some_iff (e := e)
    (List.Pairwise.filter (fun e => decide (e.2.definition.id = q)) t.ascending)
  rw [get?_ofList, Table.values, List.filter_map, List.getLast?_map, Option.map_eq_some_iff]
  constructor
  · rintro ⟨e, he, rfl⟩
    obtain ⟨hm, hmax⟩ := (hlast e).1 he
    obtain ⟨hm, hq⟩ := List.mem_filter.1 hm
    refine ⟨of_decide_eq_true hq, e.1, Table.mem_toList.1 hm, fun k' h' hk' hq' => ?_⟩
    exact hmax (k', h') (List.mem_filter.2 ⟨Table.mem_toList.2 hk', decide_eq_true hq'⟩)
  · rintro ⟨hq, k, hk, hmax⟩
    refine ⟨(k, h), (hlast (k, h)).2 ⟨?_, fun e' he' => ?_⟩, rfl⟩
    · exact List.mem_filter.2 ⟨Table.mem_toList.2 hk, decide_eq_true hq⟩
    · obtain ⟨hm', hq'⟩ := List.mem_filter.1 he'
      exact hmax e'.1 e'.2 (Table.mem_toList.1 hm') (of_decide_eq_true hq')

omit [Std.TransOrd κ] in
theorem mem_ids_ofList_values {t : Table κ Hunt} {q : QuestId} :
    q ∈ (ofList t.values).ids ↔ ∃ k h, t.get? k = some h ∧ h.definition.id = q := by
  rw [ids, Table.mem_keys, Table.contains, ← get?, get?_ofList, List.getLast?_isSome]
  constructor
  · intro hne
    obtain ⟨h, hm⟩ := List.exists_mem_of_ne_nil _ hne
    obtain ⟨hm, hq⟩ := List.mem_filter.1 hm
    obtain ⟨e, he, rfl⟩ := List.mem_map.1 hm
    exact ⟨e.1, e.2, Table.mem_toList.1 he, of_decide_eq_true hq⟩
  · rintro ⟨k, h, hk, hq⟩
    have hm : h ∈ t.values := List.mem_map.2 ⟨(k, h), Table.mem_toList.2 hk, rfl⟩
    exact List.ne_nil_of_mem (List.mem_filter.2 ⟨hm, decide_eq_true hq⟩)

theorem ascending_ids (ix : Index) : Ascending ix.ids := List.pairwise_map.2 ix.quests.ascending

end Index

/-- A valid quest file at the path describes the hunt. -/
def FileTree.Serves (t : FileTree) (rates : Rates) (path : FileTree.Path) (h : Hunt) : Prop :=
  ∃ text, t.QuestFile path text ∧ h.Written rates text

namespace Registry

open FileTree (Path)

def valid (rates : Rates) (files : Table Path (Option String)) : Table Path Hunt :=
  files.filterMap fun _ text => (Hunt.load rates text).toOption

theorem sound_eq_values (rates : Rates) (files : Table Path (Option String)) :
    sound rates files = (valid rates files).values :=
  (Table.values_filterMap _ files).symm

theorem get?_valid {entries : List (String × FileTree)} {files : Table Path (Option String)} {rates : Rates}
    (hp : (FileTree.folder entries).Proper) (hf : (FileTree.folder entries).questFiles? = some files) {path : Path}
    {h : Hunt} : (valid rates files).get? path = some h ↔ (FileTree.folder entries).Serves rates path h := by
  have hload : ∀ text, (Hunt.load rates text).toOption = some h ↔ h.Written rates text := fun text => by
    rw [← Hunt.load_eq_ok_iff]
    cases Hunt.load rates text <;> simp [Except.toOption]
  rw [valid, Table.get?_filterMap, Option.bind_eq_some_iff]
  exact exists_congr fun text => and_congr ((FileTree.questFiles?_folder hp).2 files hf path text) (hload text)

/-- A folder whose folders can all be listed is loaded, and what is loaded is made of the hunts of the valid files. -/
theorem load_folder {entries : List (String × FileTree)} (r : Registry) (hp : (FileTree.folder entries).Proper)
    (ho : (FileTree.folder entries).Listable) :
    ∃ hunts : Table Path Hunt,
      (∀ path h, hunts.get? path = some h ↔ (FileTree.folder entries).Serves r.rates path h) ∧
        r.load (some (.folder entries)) =
          .ok ({ r with index := .ofList hunts.values }, (Index.ofList hunts.values).ids.length) := by
  obtain ⟨files, hf⟩ := Option.isSome_iff_exists.1 ((FileTree.questFiles?_folder hp).1.2 ho)
  refine ⟨valid r.rates files, fun path h => get?_valid hp hf, ?_⟩
  rw [← sound_eq_values]
  simp only [load, hf, Index.size, Index.ids, Table.size, Table.keys, List.length_map]

theorem load_of_not_listable {entries : List (String × FileTree)} (r : Registry)
    (hp : (FileTree.folder entries).Proper) (ho : ¬ (FileTree.folder entries).Listable) :
    r.load (some (.folder entries)) = .error .unreadable := by
  have hf : (FileTree.folder entries).questFiles? = none := by
    rw [← Option.not_isSome_iff_eq_none, (FileTree.questFiles?_folder hp).1]
    exact ho
  simp only [load, hf]

end Registry

namespace World

open FileTree (Path)
open Index (Ascending)

/-- A load that is refused changes nothing; it is refused when some folder cannot be listed. Otherwise it succeeds.
Then exactly the quests of the valid files are served, each as the file with the greatest path describes it, and as
many are counted. A tree with the same valid files, in whatever order its folders are listed and whatever else it
holds, leads to the same world with the same answer. -/
theorem load_serves_greatest {w : World} {entries : List (String × FileTree)} (now : Instant)
    (hp : (FileTree.folder entries).Proper) :
    let t := FileTree.folder entries
    let rates := w.registry.rates
    (∀ tree reason w', w.perform now (.load tree) = .ok (.refused reason, w') → w' = w) ∧
    (¬ t.Listable → w.perform now (.load (some t)) = .ok (.refused .unreadable, w)) ∧
    (t.Listable → ∃ index : Index,
      w.perform now (.load (some t)) =
        .ok (.loaded index.ids.length, { w with registry := { w.registry with index } }) ∧
      Ascending index.ids ∧
      (∀ q, q ∈ index.ids ↔ ∃ path h, t.Serves rates path h ∧ h.definition.id = q) ∧
      (∀ q h, index.get? q = some h ↔
        h.definition.id = q ∧ ∃ path, t.Serves rates path h ∧
          ∀ path' h', t.Serves rates path' h' → h'.definition.id = q → compare path' path ≠ .gt) ∧
      ∀ entries', (FileTree.folder entries').Proper → (FileTree.folder entries').Listable →
        (∀ path h, (FileTree.folder entries').Serves rates path h ↔ t.Serves rates path h) →
          w.perform now (.load (some (.folder entries'))) = w.perform now (.load (some t))) := by
  intro t rates
  refine ⟨fun tree reason w' h => ?_, fun ho => ?_, fun ho => ?_⟩
  · unfold perform at h
    dsimp only at h
    split at h <;> cases h
    rfl
  · simp only [perform, t, w.registry.load_of_not_listable hp ho]
  · obtain ⟨hunts, hserves, hload⟩ := w.registry.load_folder hp ho
    refine ⟨.ofList hunts.values, ?_, Index.ascending_ids _, fun q => ?_, fun q h => ?_,
      fun entries' hp' ho' hsame => ?_⟩
    · simp only [perform, t, hload]
    · simp only [Index.mem_ids_ofList_values, hserves]
      rfl
    · simp only [Index.get?_ofList_values, hserves]
      rfl
    · obtain ⟨hunts', hserves', hload'⟩ := w.registry.load_folder hp' ho'
      have heq : hunts' = hunts := Table.ext_get? fun path => Option.ext fun h => by
        rw [hserves', hserves]
        exact hsame path h
      simp only [perform, t, hload, hload', heq]

/-- Two files describe one quest. The one in a folder that has the name of a quest file comes later; a file that
cannot be read and one without a stem are passed over, although they are listed first. -/
theorem load_serves_greatest_of_two :
    let quest := fun level : String =>
      "quest = [7, \"Pelts\", \"\", \"mutated_kaneus\", " ++ level ++ ", [5], [5, 6], [9], [5, 6], [[8, 9]]]"
    let entries : List (String × FileTree) :=
      [("z.toml", .file none), (".toml", .file (some (quest "70"))),
        ("x.toml", .folder [("a.toml", .file (some (quest "60")))]), ("b.toml", .file (some (quest "58")))]
    (FileTree.folder entries).Proper ∧ (FileTree.folder entries).Listable ∧ ∃ index : Index,
      schuttgart.perform .epoch (.load (some (.folder entries))) =
        .ok (.loaded 1, { schuttgart with registry := { schuttgart.registry with index } }) ∧
      index.ids = [⟨7⟩] ∧ (index.get? ⟨7⟩).map (·.definition.levelRequired) = some 60 := by
  intro quest entries
  have hp : (FileTree.folder entries).Proper := by
    refine .folder (by decide) fun e he => ?_
    simp only [entries, List.mem_cons, List.not_mem_nil, or_false] at he
    rcases he with rfl | rfl | rfl | rfl
    · exact .file none
    · exact .file _
    · exact .folder (by decide) fun e he => by
        rw [List.mem_singleton.1 he]
        exact .file _
    · exact .file _
  let found : List (Path × Option String) :=
    [(["z.toml"], none), (["x.toml", "a.toml"], some (quest "60")), (["b.toml"], some (quest "58"))]
  have hf : (FileTree.folder entries).questFiles? = some (.ofList found) := by rfl
  have hn : (found.map (·.1)).Nodup := by decide
  obtain ⟨hlistable, hfiles⟩ := FileTree.questFiles?_folder hp
  have ho : (FileTree.folder entries).Listable := hlistable.1 (by rw [hf]; rfl)
  have hserves : ∀ path h, (FileTree.folder entries).Serves .default path h ↔
      path = ["x.toml", "a.toml"] ∧ h.Written .default (some (quest "60")) ∨
        path = ["b.toml"] ∧ h.Written .default (some (quest "58")) := fun path h => by
    have hbroken : ¬ h.Written .default none := fun hw => by
      obtain ⟨s, d, hs, -⟩ := hw.sound
      cases hs
    unfold FileTree.Serves
    simp only [← hfiles _ hf path, Table.get?_ofList_eq_some_iff hn, found, List.mem_cons, Prod.mk.injEq,
      List.not_mem_nil, or_false, or_and_right, exists_or, and_assoc, exists_and_left, exists_eq_left, hbroken,
      and_false, false_or]
  obtain ⟨late, hlate, hlate'⟩ := exists_ok_of_any (x := Hunt.load .default (some (quest "60")))
    (p := fun h => decide (h.definition.id = ⟨7⟩ ∧ h.definition.levelRequired = 60)) (by decide +kernel)
  obtain ⟨early, hearly, hearly'⟩ := exists_ok_of_any (x := Hunt.load .default (some (quest "58")))
    (p := fun h => decide (h.definition.id = ⟨7⟩)) (by decide +kernel)
  obtain ⟨hid, hlevel⟩ := of_decide_eq_true hlate'
  have hidOf : ∀ path h, (FileTree.folder entries).Serves .default path h → h.definition.id = ⟨7⟩ := fun path h hs => by
    rcases (hserves path h).1 hs with ⟨-, hw⟩ | ⟨-, hw⟩ <;> rw [← Hunt.load_eq_ok_iff] at hw
    · rw [← Except.ok.inj (hlate.symm.trans hw), hid]
    · rw [← Except.ok.inj (hearly.symm.trans hw), of_decide_eq_true hearly']
  have hlast := (hserves _ late).2 (.inl ⟨rfl, Hunt.load_eq_ok_iff.1 hlate⟩)
  obtain ⟨-, -, hloaded⟩ := load_serves_greatest (w := schuttgart) .epoch hp
  obtain ⟨index, hload, hasc, hids, hget, -⟩ := hloaded ho
  have hone : index.ids = [⟨7⟩] := hasc.ext (List.pairwise_singleton _ _) fun q => by
    rw [hids, List.mem_singleton]
    constructor
    · rintro ⟨path, h, hs, rfl⟩
      exact hidOf path h hs
    · rintro rfl
      exact ⟨_, late, hlast, hid⟩
  have hstands : index.get? ⟨7⟩ = some late :=
    (hget _ late).2 ⟨hid, _, hlast, fun path' h' hs' _ => by
      rcases (hserves path' h').1 hs' with ⟨rfl, -⟩ | ⟨rfl, -⟩ <;> decide⟩
  rw [hone] at hload
  exact ⟨hp, ho, index, hload, hone, by rw [hstands, Option.map_some, hlevel]⟩

end World

end Questline
