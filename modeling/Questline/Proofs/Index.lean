import Questline.Proofs.Schuttgart
import Questline.Registry

/-!
# The index says what the definitions say

An index keeps three lists of mentions beside its quests. `Index.Kept` is the invariant that ties them to the
registered definitions; registering keeps it, so every registry that arises by registering and loading has it.
From it follow what the lists hold, that they depend on the definitions alone, and that a quest that is registered
anew leaves no trace of its former characters.
-/

namespace Questline

namespace Index

def Ascending (l : List QuestId) : Prop := l.Pairwise fun a b => compare a b = .lt

theorem mem_insertOnce {quest q : QuestId} {l : List QuestId} :
    q ∈ insertOnce quest l ↔ q = quest ∨ q ∈ l := by
  induction l with
  | nil => simp [insertOnce]
  | cons a rest ih =>
    simp only [insertOnce]
    split
    · simp
    · next hc =>
      have ha : quest = a := Std.LawfulEqCmp.eq_of_compare hc
      simp [ha]
    · simp only [List.mem_cons, ih]
      exact or_left_comm

theorem ascending_insertOnce {quest : QuestId} {l : List QuestId} (h : Ascending l) :
    Ascending (insertOnce quest l) := by
  induction l with
  | nil => simp [insertOnce, Ascending]
  | cons a rest ih =>
    obtain ⟨ha, hrest⟩ := List.pairwise_cons.1 h
    simp only [insertOnce]
    split
    · next hc =>
      refine List.pairwise_cons.2 ⟨fun b hb => ?_, h⟩
      rcases List.mem_cons.1 hb with rfl | hb
      · exact hc
      · exact Std.TransCmp.lt_trans hc (ha b hb)
    · exact h
    · next hc =>
      refine List.pairwise_cons.2 ⟨fun b hb => ?_, ih hrest⟩
      rcases mem_insertOnce.1 hb with rfl | hb
      · exact Std.OrientedCmp.gt_iff_lt.1 hc
      · exact ha b hb

theorem Ascending.filter {l : List QuestId} (h : Ascending l) (p : QuestId → Bool) : Ascending (l.filter p) :=
  List.Pairwise.filter p h

theorem Ascending.nodup {l : List QuestId} (h : Ascending l) : l.Nodup := h.imp fun hab he => by simp [he] at hab

theorem Ascending.ext {l l' : List QuestId} (h : Ascending l) (h' : Ascending l')
    (hm : ∀ q, q ∈ l ↔ q ∈ l') : l = l' := by
  refine ((List.perm_ext_iff_of_nodup h.nodup h'.nodup).2 hm).eq_of_pairwise (fun a b _ _ hab hba => ?_) h h'
  exact absurd hba (Std.OrientedCmp.not_lt_of_lt hab)

/-- No list is empty, and every list is ascending. -/
structure Tidy (m : Mentions) : Prop where
  nonempty : ∀ npc, m.get? npc ≠ some []
  ascending : ∀ npc l, m.get? npc = some l → Ascending l

theorem Tidy.ascending_mentioned {m : Mentions} (h : Tidy m) (npc : NpcId) : Ascending (mentioned m npc) := by
  unfold mentioned
  cases hl : m.get? npc with
  | none => exact List.Pairwise.nil
  | some l => exact h.ascending npc l hl

/-- Without empty lists, a table of mentions is determined by who is mentioned where. -/
theorem Tidy.ext {m m' : Mentions} (h : Tidy m) (h' : Tidy m')
    (hm : ∀ npc q, q ∈ mentioned m npc ↔ q ∈ mentioned m' npc) : m = m' := by
  refine Table.ext_get? fun npc => ?_
  have he : mentioned m npc = mentioned m' npc :=
    (h.ascending_mentioned npc).ext (h'.ascending_mentioned npc) (hm npc)
  have hn := h.nonempty npc
  have hn' := h'.nonempty npc
  unfold mentioned at he
  cases hl : m.get? npc <;> cases hl' : m'.get? npc <;> simp_all

theorem mentioned_mention (quest : QuestId) (m : Mentions) (npc npc' : NpcId) :
    mentioned (mention quest m npc) npc' =
      if npc = npc' then insertOnce quest (mentioned m npc) else mentioned m npc' := by
  unfold mention
  rw [mentioned, Table.get?_insert]
  split <;> rfl

theorem tidy_mention {quest : QuestId} {m : Mentions} (h : Tidy m) (npc : NpcId) : Tidy (mention quest m npc) := by
  have hne : ∀ l : List QuestId, insertOnce quest l ≠ [] := fun l he => by
    have : quest ∈ insertOnce quest l := mem_insertOnce.2 (.inl rfl)
    simp [he] at this
  constructor
  · intro npc' hl
    rw [mention, Table.get?_insert] at hl
    split at hl
    · exact hne _ (Option.some.inj hl)
    · exact h.nonempty npc' hl
  · intro npc' l hl
    rw [mention, Table.get?_insert] at hl
    split at hl
    · rw [← Option.some.inj hl]
      exact ascending_insertOnce (h.ascending_mentioned npc)
    · exact h.ascending npc' l hl

theorem mem_mentioned_foldl {quest q : QuestId} {npcs : List NpcId} {m : Mentions} {npc : NpcId} :
    q ∈ mentioned (npcs.foldl (mention quest) m) npc ↔ q = quest ∧ npc ∈ npcs ∨ q ∈ mentioned m npc := by
  induction npcs generalizing m with
  | nil => simp
  | cons a rest ih =>
    rw [List.foldl_cons, ih, mentioned_mention]
    by_cases ha : a = npc
    · rw [if_pos ha, ha, mem_insertOnce]
      grind
    · have hne : npc ≠ a := fun he => ha he.symm
      rw [if_neg ha, List.mem_cons]
      simp only [hne, false_or]

theorem tidy_foldl {quest : QuestId} {npcs : List NpcId} {m : Mentions} (h : Tidy m) :
    Tidy (npcs.foldl (mention quest) m) := by
  induction npcs generalizing m with
  | nil => exact h
  | cons a rest ih => exact ih (tidy_mention h a)

theorem get?_forget (quest : QuestId) (m : Mentions) (npc : NpcId) :
    (forget quest m).get? npc = (m.get? npc).bind fun l =>
      if (l.filter (· != quest)).isEmpty then none else some (l.filter (· != quest)) :=
  Table.get?_filterMap _ m npc

theorem mem_mentioned_forget {quest q : QuestId} {m : Mentions} {npc : NpcId} :
    q ∈ mentioned (forget quest m) npc ↔ q ≠ quest ∧ q ∈ mentioned m npc := by
  unfold mentioned
  rw [get?_forget]
  cases m.get? npc with
  | none => simp
  | some l =>
    have hm : q ∈ l.filter (· != quest) ↔ q ≠ quest ∧ q ∈ l := by
      rw [List.mem_filter, bne_iff_ne, and_comm]
    rw [Option.bind_some, Option.getD_some, ← hm]
    split
    · next he => simp [List.isEmpty_iff.1 he]
    · rfl

theorem tidy_forget {quest : QuestId} {m : Mentions} (h : Tidy m) : Tidy (forget quest m) := by
  constructor
  · intro npc hl
    rw [get?_forget] at hl
    obtain ⟨l, -, hl⟩ := Option.bind_eq_some_iff.1 hl
    split at hl
    · cases hl
    · next hne => exact hne (by rw [Option.some.inj hl]; rfl)
  · intro npc l hl
    rw [get?_forget] at hl
    obtain ⟨l₀, hl₀, hl⟩ := Option.bind_eq_some_iff.1 hl
    split at hl
    · cases hl
    · rw [← Option.some.inj hl]
      exact (h.ascending npc l₀ hl₀).filter _

theorem get?_foldl_register_getLast? (hs : List Hunt) (ix : Index) (q : QuestId) :
    (hs.foldl register ix).get? q = ((hs.filter fun h => decide (h.definition.id = q)).getLast?).or (ix.get? q) := by
  induction hs generalizing ix with
  | nil => rfl
  | cons h rest ih =>
    rw [List.foldl_cons, ih, get?_register]
    by_cases hq : h.definition.id = q
    · rw [if_pos hq, List.filter_cons_of_pos (by simpa using hq), List.getLast?_cons]
      cases (rest.filter fun h => decide (h.definition.id = q)).getLast? <;> rfl
    · rw [if_neg hq, List.filter_cons_of_neg (by simpa using hq)]

inductive Concern where
  | starts
  | talks
  | kills
  deriving DecidableEq, Repr

def Concern.names : Concern → Definition → List NpcId
  | .starts, d => d.startNpcs
  | .talks, d => d.talkNpcs
  | .kills, d => d.killNpcs

def table (ix : Index) : Concern → Mentions
  | .starts => ix.starts
  | .talks => ix.talks
  | .kills => ix.kills

/-- The lists hold exactly what the registered definitions say, and every quest stands under its own number. -/
structure Kept (ix : Index) : Prop where
  own : ∀ q h, ix.get? q = some h → h.definition.id = q
  mem_iff : ∀ c npc q, q ∈ mentioned (ix.table c) npc ↔ ∃ h, ix.get? q = some h ∧ npc ∈ c.names h.definition
  tidy : ∀ c, Tidy (ix.table c)

theorem table_remove (ix : Index) (quest : QuestId) (c : Concern) :
    (ix.remove quest).table c = forget quest (ix.table c) := by
  cases c <;> rfl

/-- The index to which a quest is added: without an earlier registration of it. -/
def cleared (ix : Index) (quest : QuestId) : Index := if ix.quests.contains quest then ix.remove quest else ix

theorem table_register (ix : Index) (h : Hunt) (c : Concern) :
    (ix.register h).table c =
      (c.names h.definition).foldl (mention h.definition.id) ((ix.cleared h.definition.id).table c) := by
  cases c <;> rfl

theorem kept_empty : Kept empty where
  own q h hq := by cases hq
  mem_iff c npc q := by
    have hn : mentioned (empty.table c) npc = [] := by cases c <;> rfl
    rw [hn]
    constructor
    · intro hm
      cases hm
    · rintro ⟨h, hq, -⟩
      cases hq
  tidy c := by
    have hn : ∀ npc, (empty.table c).get? npc = none := fun npc => by cases c <;> rfl
    constructor
    · intro npc hl
      cases (hn npc).symm.trans hl
    · intro npc l hl
      cases (hn npc).symm.trans hl

namespace Kept

variable {ix : Index}

theorem mem_mentioned_cleared (hk : Kept ix) (quest : QuestId) (c : Concern) (npc : NpcId) (q : QuestId) :
    q ∈ mentioned ((ix.cleared quest).table c) npc ↔ q ≠ quest ∧ q ∈ mentioned (ix.table c) npc := by
  unfold cleared
  split
  · rw [table_remove, mem_mentioned_forget]
  · next hn =>
    have hq : q ∈ mentioned (ix.table c) npc → q ≠ quest := fun hm he => by
      obtain ⟨h, hq, -⟩ := (hk.mem_iff c npc q).1 hm
      rw [he] at hq
      exact hn (Option.isSome_iff_exists.2 ⟨h, hq⟩)
    exact ⟨fun hm => ⟨hq hm, hm⟩, fun hm => hm.2⟩

theorem mem_mentioned_register (hk : Kept ix) (h : Hunt) (c : Concern) (npc : NpcId) (q : QuestId) :
    q ∈ mentioned ((ix.register h).table c) npc ↔
      if q = h.definition.id then npc ∈ c.names h.definition else q ∈ mentioned (ix.table c) npc := by
  rw [table_register, mem_mentioned_foldl, hk.mem_mentioned_cleared]
  split
  · next he => simp [he]
  · next hne => simp [hne]

protected theorem register (hk : Kept ix) (h : Hunt) : Kept (ix.register h) where
  own q g hq := by
    rw [get?_register] at hq
    split at hq
    · next he => rw [← Option.some.inj hq, he]
    · exact hk.own q g hq
  mem_iff c npc q := by
    rw [hk.mem_mentioned_register, get?_register]
    by_cases he : q = h.definition.id
    · simp [he]
    · have hne : h.definition.id ≠ q := fun hc => he hc.symm
      rw [if_neg he, if_neg hne, hk.mem_iff]
  tidy c := by
    rw [table_register]
    apply tidy_foldl
    unfold cleared
    split
    · rw [table_remove]
      exact tidy_forget (hk.tidy c)
    · exact hk.tidy c

theorem foldl_register (hk : Kept ix) (hs : List Hunt) : Kept (hs.foldl register ix) := by
  induction hs generalizing ix with
  | nil => exact hk
  | cons h rest ih => exact ih (hk.register h)

/-- No mentioned quest is lost when the hunts of a character are looked up. -/
theorem huntsFor_ids (hk : Kept ix) (c : Concern) (npc : NpcId) :
    (ix.huntsFor (ix.table c) npc).map (·.definition.id) = mentioned (ix.table c) npc := by
  have hl : ∀ l : List QuestId, (∀ q ∈ l, (ix.get? q).isSome) →
      (l.filterMap ix.get?).map (·.definition.id) = l := by
    intro l hs
    induction l with
    | nil => rfl
    | cons q rest ih =>
      obtain ⟨h, hq⟩ := Option.isSome_iff_exists.1 (hs q List.mem_cons_self)
      rw [List.filterMap_cons_some hq, List.map_cons, hk.own q h hq,
        ih fun q' hq' => hs q' (List.mem_cons_of_mem q hq')]
  refine hl _ fun q hm => ?_
  obtain ⟨h, hq, -⟩ := (hk.mem_iff c npc q).1 hm
  exact Option.isSome_iff_exists.2 ⟨h, hq⟩

theorem ascending_huntsFor (hk : Kept ix) (c : Concern) (npc : NpcId) :
    Ascending ((ix.huntsFor (ix.table c) npc).map (·.definition.id)) := by
  rw [hk.huntsFor_ids]
  exact (hk.tidy c).ascending_mentioned npc

theorem mem_huntsFor (hk : Kept ix) (c : Concern) (npc : NpcId) (h : Hunt) :
    h ∈ ix.huntsFor (ix.table c) npc ↔
      ix.get? h.definition.id = some h ∧ npc ∈ c.names h.definition := by
  unfold huntsFor
  rw [List.mem_filterMap]
  constructor
  · rintro ⟨q, hm, hq⟩
    have ho := hk.own q h hq
    obtain ⟨g, hg, hn⟩ := (hk.mem_iff c npc q).1 hm
    rw [hq] at hg
    rw [Option.some.inj hg]
    rw [Option.some.inj hg] at ho hq
    exact ⟨ho ▸ hq, hn⟩
  · rintro ⟨hq, hn⟩
    exact ⟨h.definition.id, (hk.mem_iff c npc _).2 ⟨h, hq, hn⟩, hq⟩

/-- The lists depend on the registered definitions alone. -/
theorem table_ext {ix' : Index} (hk : Kept ix) (hk' : Kept ix')
    (he : ∀ q, (ix.get? q).map (·.definition) = (ix'.get? q).map (·.definition)) (c : Concern) :
    ix.table c = ix'.table c := by
  refine (hk.tidy c).ext (hk'.tidy c) fun npc q => ?_
  have hd : ∀ jx : Index, (∃ h, jx.get? q = some h ∧ npc ∈ c.names h.definition) ↔
      ∃ d, (jx.get? q).map (·.definition) = some d ∧ npc ∈ c.names d := fun jx => by
    cases jx.get? q <;> simp
  rw [hk.mem_iff, hk'.mem_iff, hd, hd, he]

/-- Registering a quest leaves what is listed of the other quests as it was. -/
theorem filter_mentioned_register (hk : Kept ix) (h : Hunt) (c : Concern) (npc : NpcId) :
    (mentioned ((ix.register h).table c) npc).filter (· != h.definition.id) =
      (mentioned (ix.table c) npc).filter (· != h.definition.id) := by
  have ha := ((hk.register h).tidy c).ascending_mentioned npc
  refine (ha.filter _).ext (((hk.tidy c).ascending_mentioned npc).filter _) fun q => ?_
  rw [List.mem_filter, List.mem_filter, hk.mem_mentioned_register, bne_iff_ne]
  exact and_congr_left fun hne => by rw [if_neg hne]

end Kept

end Index

namespace Registry

/-- What registering and loading make of an empty registry, in any order and with any files. -/
inductive Arises : Registry → Prop where
  | empty (rates : Rates) : Arises (.empty rates)
  | register {r : Registry} (h : Hunt) : Arises r → Arises (r.register h)
  | load {r r' : Registry} {tree : Option FileTree} {count : Nat} :
      Arises r → r.load tree = .ok (r', count) → Arises r'

/-- Loading leaves the registry as it is, or gives it the index of the sound files. -/
theorem load_cases {r r' : Registry} {tree : Option FileTree} {count : Nat} (h : r.load tree = .ok (r', count)) :
    tree = none ∧ r' = r ∧ count = 0 ∨
      ∃ t files, tree = some t ∧ t.questFiles? = some files ∧
        r' = { r with index := Index.ofList (sound r.rates files) } ∧ count = r'.index.size := by
  unfold load at h
  cases tree with
  | none =>
    cases h
    exact .inl ⟨rfl, rfl, rfl⟩
  | some t =>
    cases hf : t.questFiles? with
    | none => simp [hf] at h
    | some files =>
      simp only [hf, Except.ok.injEq, Prod.mk.injEq] at h
      obtain ⟨rfl, rfl⟩ := h
      exact .inr ⟨t, files, rfl, hf, rfl, rfl⟩

theorem Arises.kept {r : Registry} (hr : r.Arises) : r.index.Kept := by
  induction hr with
  | empty rates => exact Index.kept_empty
  | register h _ ih => exact ih.register h
  | load _ hl ih =>
    rcases load_cases hl with ⟨-, rfl, -⟩ | ⟨t, files, -, -, rfl, -⟩
    · exact ih
    · exact Index.kept_empty.foldl_register _

open Index in
/-- However a registry arises, each of its three tables lists a quest for a character exactly when the definition
that is registered now names the character; the lists are strictly ascending and none is empty. So looking up the
hunts of a character loses none and meets each once, in ascending order; the definitions alone determine the tables;
and registering a quest replaces all that was listed of it and nothing else. -/
theorem mentions_exact {r : Registry} (hr : r.Arises) (c : Concern) :
    (∀ npc q, q ∈ mentioned (r.index.table c) npc ↔
      ∃ h, r.index.get? q = some h ∧ npc ∈ c.names h.definition) ∧
    (∀ npc l, (r.index.table c).get? npc = some l → Ascending l ∧ l ≠ []) ∧
    (∀ npc, (r.index.huntsFor (r.index.table c) npc).map (·.definition.id) = mentioned (r.index.table c) npc) ∧
    (∀ npc h, h ∈ r.index.huntsFor (r.index.table c) npc ↔
      r.index.get? h.definition.id = some h ∧ npc ∈ c.names h.definition) ∧
    (∀ r' : Registry, r'.Arises →
      (∀ q, (r.index.get? q).map (·.definition) = (r'.index.get? q).map (·.definition)) →
        r.index.table c = r'.index.table c) ∧
    ∀ h : Hunt,
      (∀ npc, h.definition.id ∈ mentioned ((r.register h).index.table c) npc ↔ npc ∈ c.names h.definition) ∧
      (∀ npc, (mentioned ((r.register h).index.table c) npc).filter (· != h.definition.id) =
        (mentioned (r.index.table c) npc).filter (· != h.definition.id)) ∧
      ∀ q, q ≠ h.definition.id → (r.register h).index.get? q = r.index.get? q := by
  have hk := hr.kept
  refine ⟨hk.mem_iff c, fun npc l hl => ?_, hk.huntsFor_ids c, hk.mem_huntsFor c, fun r' hr' he => ?_, fun h => ?_⟩
  · refine ⟨(hk.tidy c).ascending npc l hl, fun hn => ?_⟩
    rw [hn] at hl
    exact (hk.tidy c).nonempty npc hl
  · exact hk.table_ext hr'.kept he c
  · refine ⟨fun npc => ?_, hk.filter_mentioned_register h c, fun q hq => ?_⟩
    · exact (hk.mem_mentioned_register h c npc _).trans (by rw [if_pos rfl])
    · exact (get?_register r.index h q).trans (if_neg fun he => hq he.symm)

/-- A quest that moves to another giver is no longer listed for the first one. -/
theorem mentions_exact_moved :
    let h := Hunt.schuttgart .default
    let moved : Hunt := { h with definition := { h.definition with startNpcs := [⟨5⟩] } }
    let r := (Registry.empty .default |>.register h).register moved
    r.Arises ∧ h.definition.id ∉ Index.mentioned r.index.starts ⟨31981⟩ ∧
      Index.mentioned r.index.starts ⟨5⟩ = [h.definition.id] := by
  intro h moved r
  have hr : r.Arises := .register _ (.register _ (.empty _))
  refine ⟨hr, fun hm => ?_, rfl⟩
  obtain ⟨g, hg, hn⟩ := ((mentions_exact hr .starts).1 ⟨31981⟩ h.definition.id).1 hm
  have hserved : r.index.get? h.definition.id = some moved := rfl
  have hd : g = moved := Option.some.inj (hg.symm.trans hserved)
  rw [hd] at hn
  exact absurd hn (by decide)

end Registry

end Questline
