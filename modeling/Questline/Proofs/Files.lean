import Questline.FileTree

/-!
# The quest files of a tree

Which files a tree has is said without the order in which folders are listed: `Has` is read off the tree alone.
Collecting the files succeeds exactly when every folder can be listed, finds each file once, and leaves out none;
what remains is a table of the quest files by their paths.
-/

namespace Questline

namespace FileTree

inductive Has : FileTree → Path → Option String → Prop where
  | here (text : Option String) : Has (.file text) [] text
  | inside {entries : List (String × FileTree)} {name : String} {t : FileTree} {path : Path} {text : Option String}
      (he : (name, t) ∈ entries) (h : Has t path text) : Has (.folder entries) (name :: path) text

inductive Listable : FileTree → Prop where
  | file (text : Option String) : Listable (.file text)
  | folder {entries : List (String × FileTree)} (h : ∀ e ∈ entries, Listable e.2) : Listable (.folder entries)

/-- The entries of a folder have different names. -/
inductive Proper : FileTree → Prop where
  | file (text : Option String) : Proper (.file text)
  | folder {entries : List (String × FileTree)} (names : (entries.map (·.1)).Nodup) (h : ∀ e ∈ entries, Proper e.2) :
      Proper (.folder entries)
  | locked : Proper .locked

theorem listable_folder_iff {entries : List (String × FileTree)} :
    (FileTree.folder entries).Listable ↔ ∀ e ∈ entries, e.2.Listable :=
  ⟨fun h => by cases h; assumption, .folder⟩

theorem has_folder_iff {entries : List (String × FileTree)} {path : Path} {text : Option String} :
    (FileTree.folder entries).Has path text ↔ ∃ e ∈ entries, ∃ rest, path = e.1 :: rest ∧ e.2.Has rest text := by
  constructor
  · rintro (_ | ⟨he, h⟩)
    exact ⟨_, he, _, rfl, h⟩
  · rintro ⟨e, he, rest, rfl, h⟩
    exact .inside he h

mutual

/-- Induction over trees: what holds of all entries of a folder holds of the folder. -/
@[elab_as_elim]
theorem induction {P : FileTree → Prop} (file : ∀ text, P (.file text)) (locked : P .locked)
    (folder : ∀ entries : List (String × FileTree), (∀ e ∈ entries, P e.2) → P (.folder entries)) : ∀ t, P t
  | .file text => file text
  | .locked => locked
  | .folder entries => folder entries (inductionBelow file locked folder entries)

theorem inductionBelow {P : FileTree → Prop} (file : ∀ text, P (.file text)) (locked : P .locked)
    (folder : ∀ entries : List (String × FileTree), (∀ e ∈ entries, P e.2) → P (.folder entries)) :
    ∀ entries : List (String × FileTree), ∀ e ∈ entries, P e.2
  | [] => fun _ he => absurd he List.not_mem_nil
  | (name, t) :: rest => fun e he => by
    rcases List.mem_cons.1 he with rfl | he
    · exact induction file locked folder t
    · exact inductionBelow file locked folder rest e he

end

theorem filesBelow_cons_eq_some {path : Path} {name : String} {t : FileTree} {rest : List (String × FileTree)}
    {fs : List (Path × Option String)} :
    filesBelow path ((name, t) :: rest) = some fs ↔
      ∃ here there, t.files (path ++ [name]) = some here ∧ filesBelow path rest = some there ∧ fs = here ++ there := by
  rw [filesBelow]
  cases t.files (path ++ [name]) <;> cases filesBelow path rest <;> simp [eq_comm]

theorem filesBelow_isSome {path : Path} {entries : List (String × FileTree)} :
    (filesBelow path entries).isSome ↔ ∀ e ∈ entries, (e.2.files (path ++ [e.1])).isSome := by
  induction entries with
  | nil => simp [filesBelow]
  | cons e rest ih =>
    rw [List.forall_mem_cons, ← ih, filesBelow]
    cases e.2.files (path ++ [e.1]) <;> cases filesBelow path rest <;> simp

theorem mem_filesBelow {path : Path} {entries : List (String × FileTree)} {fs : List (Path × Option String)}
    (h : filesBelow path entries = some fs) {f : Path × Option String} :
    f ∈ fs ↔ ∃ e ∈ entries, ∃ part, e.2.files (path ++ [e.1]) = some part ∧ f ∈ part := by
  induction entries generalizing fs with
  | nil =>
    cases h
    simp
  | cons e rest ih =>
    obtain ⟨here, there, hhere, hthere, rfl⟩ := filesBelow_cons_eq_some.1 h
    simp [ih hthere, hhere]

theorem files_isSome_iff {t : FileTree} {path : Path} : (t.files path).isSome ↔ t.Listable := by
  induction t using FileTree.induction generalizing path with
  | file text => exact iff_of_true rfl (.file text)
  | locked => exact iff_of_false (by simp [files]) (fun h => by cases h)
  | folder entries ih =>
    rw [files, filesBelow_isSome, listable_folder_iff]
    exact forall₂_congr fun e he => ih e he

theorem mem_files {t : FileTree} {above : Path} {fs : List (Path × Option String)} (h : t.files above = some fs)
    {path : Path} {text : Option String} : (path, text) ∈ fs ↔ ∃ rest, path = above ++ rest ∧ t.Has rest text := by
  induction t using FileTree.induction generalizing above fs path with
  | file text' =>
    cases h
    constructor
    · intro hm
      cases List.mem_singleton.1 hm
      exact ⟨[], (List.append_nil _).symm, .here text⟩
    · rintro ⟨rest, rfl, hh⟩
      cases hh
      rw [List.append_nil]
      exact List.mem_singleton_self _
  | locked => cases h
  | folder entries ih =>
    rw [files] at h
    rw [mem_filesBelow h]
    constructor
    · rintro ⟨e, he, part, hpart, hm⟩
      obtain ⟨rest, rfl, hh⟩ := (ih e he hpart).1 hm
      exact ⟨e.1 :: rest, by simp, .inside he hh⟩
    · rintro ⟨rest, rfl, hh⟩
      obtain ⟨e, he, rest, rfl, hrest⟩ := has_folder_iff.1 hh
      have hsome := filesBelow_isSome.1 (Option.isSome_of_eq_some h) e he
      obtain ⟨part, hpart⟩ := Option.isSome_iff_exists.1 hsome
      exact ⟨e, he, part, hpart, (ih e he hpart).2 ⟨rest, by simp, hrest⟩⟩

theorem nodup_filesBelow {path : Path} {entries : List (String × FileTree)} {fs : List (Path × Option String)}
    (h : filesBelow path entries = some fs) (names : (entries.map (·.1)).Nodup)
    (hpart : ∀ e ∈ entries, ∀ part, e.2.files (path ++ [e.1]) = some part → (part.map (·.1)).Nodup) :
    (fs.map (·.1)).Nodup := by
  induction entries generalizing fs with
  | nil =>
    cases h
    exact List.nodup_nil
  | cons e rest ih =>
    obtain ⟨here, there, hhere, hthere, rfl⟩ := filesBelow_cons_eq_some.1 h
    obtain ⟨hname, hnames⟩ := List.nodup_cons.1 names
    obtain ⟨hfirst, hrest⟩ := List.forall_mem_cons.1 hpart
    rw [List.map_append]
    refine List.nodup_append.2 ⟨hfirst here hhere, ih hthere hnames hrest, fun p hp p' hp' hpath => ?_⟩
    obtain ⟨⟨_, text⟩, hf, rfl⟩ := List.mem_map.1 hp
    obtain ⟨⟨_, text'⟩, hf', rfl⟩ := List.mem_map.1 hp'
    obtain ⟨below, hbelow, -⟩ := (mem_files hhere).1 hf
    obtain ⟨e', he', part, hpart', hm⟩ := (mem_filesBelow hthere).1 hf'
    obtain ⟨below', hbelow', -⟩ := (mem_files hpart').1 hm
    rw [hbelow, hbelow', List.append_assoc, List.append_assoc] at hpath
    have hsame : e.1 = e'.1 := (List.cons.inj (List.append_cancel_left hpath)).1
    exact hname (List.mem_map.2 ⟨e', he', hsame.symm⟩)

theorem nodup_files {t : FileTree} (ht : t.Proper) {path : Path} {fs : List (Path × Option String)}
    (h : t.files path = some fs) : (fs.map (·.1)).Nodup := by
  induction ht generalizing path fs with
  | file text =>
    cases h
    exact List.nodup_cons.2 ⟨List.not_mem_nil, List.nodup_nil⟩
  | locked => cases h
  | folder names _ ih =>
    rw [files] at h
    exact nodup_filesBelow h names fun e he part hpart => ih e he hpart

theorem isQuestName_iff {name : String} : isQuestName name ↔ ∃ stem, stem ≠ "" ∧ name = stem ++ ".toml" := by
  unfold isQuestName
  rw [Bool.and_eq_true, List.isSuffixOf_iff_suffix, decide_eq_true_iff]
  constructor
  · rintro ⟨⟨stem, hstem⟩, hlength⟩
    have hname : name = String.ofList stem ++ ".toml" := by
      rw [← String.toList_inj, String.toList_append, String.toList_ofList, hstem]
    refine ⟨String.ofList stem, fun he => ?_, hname⟩
    rw [hname, he] at hlength
    exact absurd hlength (by decide)
  · rintro ⟨stem, hne, rfl⟩
    rw [String.toList_append, String.length_append]
    refine ⟨List.suffix_append _ _, ?_⟩
    have hpos : 0 < stem.length := by
      rw [← String.length_toList]
      exact List.length_pos_iff.2 fun he => hne (String.toList_inj.1 he)
    have hext : ".toml".length = 5 := by decide
    omega

/-- A file at whatever depth, whose name is anything but nothing followed by `.toml`. -/
def QuestFile (t : FileTree) (path : Path) (text : Option String) : Prop :=
  t.Has path text ∧ ∃ folder stem, stem ≠ "" ∧ path = folder ++ [stem ++ ".toml"]

theorem getLast?_any_isQuestName {path : Path} :
    (path.getLast?).any isQuestName ↔ ∃ folder stem, stem ≠ "" ∧ path = folder ++ [stem ++ ".toml"] := by
  rw [Option.any_eq_true]
  constructor
  · rintro ⟨name, hlast, hname⟩
    obtain ⟨stem, hne, rfl⟩ := isQuestName_iff.1 hname
    obtain ⟨folder, rfl⟩ := List.getLast?_eq_some_iff.1 hlast
    exact ⟨folder, stem, hne, rfl⟩
  · rintro ⟨folder, stem, hne, rfl⟩
    exact ⟨stem ++ ".toml", List.getLast?_concat, isQuestName_iff.2 ⟨stem, hne, rfl⟩⟩

/-- A folder with all folders below it can be listed exactly when its quest files can be collected; each is then found
under its path. -/
theorem questFiles?_folder {entries : List (String × FileTree)} (hp : (FileTree.folder entries).Proper) :
    ((FileTree.folder entries).questFiles?.isSome ↔ (FileTree.folder entries).Listable) ∧
      ∀ files, (FileTree.folder entries).questFiles? = some files →
        ∀ path text, files.get? path = some text ↔ (FileTree.folder entries).QuestFile path text := by
  constructor
  · rw [questFiles?, Option.isSome_map]
    · exact files_isSome_iff
    · intro text h
      cases h
  · intro files h path text
    obtain ⟨fs, hfs, rfl⟩ := Option.map_eq_some_iff.1 h
    have hn := (nodup_files hp hfs).sublist ((List.filter_sublist (p := fun f => (f.1.getLast?).any isQuestName)).map _)
    rw [Table.get?_ofList_eq_some_iff hn, List.mem_filter, mem_files hfs, getLast?_any_isQuestName]
    simp [QuestFile]

end FileTree

end Questline
