/-!
Finite tables, kept as lists of entries in strictly ascending key order.

`get?` is the view: each operation has one law that says what it does to `get?`, and `ext_get?` says that
tables with equal views are equal. So no history of a table can be read off it.
-/

namespace Questline

/-- Entries in strictly ascending key order; in particular no key occurs twice. -/
structure Table (κ : Type) (ν : Type) [Ord κ] where
  entries : List (κ × ν)
  ascending : entries.Pairwise fun a b => compare a.1 b.1 = .lt
  deriving DecidableEq, Repr

namespace Table

variable {κ ν μ : Type} [Ord κ]

def lookup (k : κ) : List (κ × ν) → Option ν
  | [] => none
  | e :: rest => if compare k e.1 = .eq then some e.2 else lookup k rest

def place (k : κ) (v : ν) : List (κ × ν) → List (κ × ν)
  | [] => [(k, v)]
  | e :: rest =>
    match compare k e.1 with
    | .lt => (k, v) :: e :: rest
    | .eq => (k, v) :: rest
    | .gt => e :: place k v rest

/-- Changes the value of every entry, and drops those for which `f` has none. -/
def keep (f : κ → ν → Option μ) : List (κ × ν) → List (κ × μ)
  | [] => []
  | e :: rest =>
    match f e.1 e.2 with
    | some v => (e.1, v) :: keep f rest
    | none => keep f rest

theorem mem_place {k : κ} {v : ν} {l : List (κ × ν)} {e : κ × ν} (h : e ∈ place k v l) :
    e = (k, v) ∨ e ∈ l := by
  induction l with
  | nil => simpa [place] using h
  | cons a rest ih =>
    simp only [place] at h
    split at h <;> simp only [List.mem_cons] at h ⊢ <;> grind

omit [Ord κ] in
theorem mem_keep {f : κ → ν → Option μ} {l : List (κ × ν)} {e : κ × μ} :
    e ∈ keep f l ↔ ∃ v, (e.1, v) ∈ l ∧ f e.1 v = some e.2 := by
  induction l with
  | nil => simp [keep]
  | cons a rest ih =>
    simp only [keep]
    split <;> grind

section Lawful

variable [Std.TransOrd κ] [Std.LawfulEqOrd κ]

theorem ascending_place {k : κ} {v : ν} {l : List (κ × ν)}
    (h : l.Pairwise fun a b => compare a.1 b.1 = .lt) :
    (place k v l).Pairwise fun a b => compare a.1 b.1 = .lt := by
  induction l with
  | nil => simp [place]
  | cons a rest ih =>
    rw [List.pairwise_cons] at h
    simp only [place]
    split
    · next hc =>
      refine List.pairwise_cons.2 ⟨fun b hb => ?_, List.pairwise_cons.2 h⟩
      rcases List.mem_cons.1 hb with rfl | hb
      · exact hc
      · exact Std.TransCmp.lt_trans hc (h.1 b hb)
    · next hc =>
      have hk : k = a.1 := Std.LawfulEqCmp.eq_of_compare hc
      exact List.pairwise_cons.2 ⟨fun b hb => hk ▸ h.1 b hb, h.2⟩
    · next hc =>
      refine List.pairwise_cons.2 ⟨fun b hb => ?_, ih h.2⟩
      rcases mem_place hb with rfl | hb
      · exact Std.OrientedCmp.gt_iff_lt.1 hc
      · exact h.1 b hb

omit [Std.TransOrd κ] [Std.LawfulEqOrd κ] in
theorem ascending_keep {f : κ → ν → Option μ} {l : List (κ × ν)}
    (h : l.Pairwise fun a b => compare a.1 b.1 = .lt) :
    (keep f l).Pairwise fun a b => compare a.1 b.1 = .lt := by
  induction l with
  | nil => simp [keep]
  | cons a rest ih =>
    rw [List.pairwise_cons] at h
    simp only [keep]
    split
    · refine List.pairwise_cons.2 ⟨fun b hb => ?_, ih h.2⟩
      obtain ⟨w, hw, -⟩ := mem_keep.1 hb
      exact h.1 (b.1, w) hw
    · exact ih h.2

omit [Std.TransOrd κ] in
theorem lookup_place [DecidableEq κ] (k k' : κ) (v : ν) (l : List (κ × ν)) :
    lookup k' (place k v l) = if k = k' then some v else lookup k' l := by
  induction l with
  | nil =>
    by_cases h : k = k'
    · subst h; simp [place, lookup]
    · have : compare k' k ≠ .eq := fun hc => h (Std.LawfulEqCmp.eq_of_compare hc).symm
      simp [place, lookup, h, this]
  | cons a rest ih =>
    simp only [place]
    split
    · by_cases h : k = k'
      · subst h; simp [lookup]
      · have : compare k' k ≠ .eq := fun hc => h (Std.LawfulEqCmp.eq_of_compare hc).symm
        simp [lookup, h, this]
    · next hc =>
      have hk : k = a.1 := Std.LawfulEqCmp.eq_of_compare hc
      by_cases h : k = k'
      · subst h; simp [lookup]
      · have : compare k' k ≠ .eq := fun hc => h (Std.LawfulEqCmp.eq_of_compare hc).symm
        simp [lookup, h, this, ← hk]
    · next hc =>
      by_cases h : k = k'
      · subst h; simp [lookup, hc, ih]
      · simp [lookup, ih, h]

omit [Std.TransOrd κ] in
theorem lookup_eq_some_iff {k : κ} {v : ν} {l : List (κ × ν)}
    (h : l.Pairwise fun a b => compare a.1 b.1 = .lt) : lookup k l = some v ↔ (k, v) ∈ l := by
  induction l with
  | nil => simp [lookup]
  | cons a rest ih =>
    rw [List.pairwise_cons] at h
    by_cases hc : compare k a.1 = .eq
    · have hk : k = a.1 := Std.LawfulEqCmp.eq_of_compare hc
      subst hk
      have hn : (a.1, v) ∉ rest := fun hm => by
        have := h.1 _ hm
        simp at this
      simp only [lookup, hc, if_true, Option.some.injEq, List.mem_cons, hn, or_false]
      exact ⟨fun hv => by rw [← hv], fun hv => by rw [← hv]⟩
    · have hn : (k, v) ≠ a := fun he => hc (by rw [← he]; simp)
      simp [lookup, hc, ih h.2, hn]

end Lawful

def empty : Table κ ν := ⟨[], .nil⟩

instance : Inhabited (Table κ ν) := ⟨empty⟩

def get? (t : Table κ ν) (k : κ) : Option ν := lookup k t.entries

def contains (t : Table κ ν) (k : κ) : Bool := (t.get? k).isSome

def toList (t : Table κ ν) : List (κ × ν) := t.entries

def keys (t : Table κ ν) : List κ := t.entries.map (·.1)

def values (t : Table κ ν) : List ν := t.entries.map (·.2)

def size (t : Table κ ν) : Nat := t.entries.length

def isEmpty (t : Table κ ν) : Bool := t.entries.isEmpty

variable [Std.TransOrd κ] [Std.LawfulEqOrd κ]

def insert (t : Table κ ν) (k : κ) (v : ν) : Table κ ν :=
  ⟨place k v t.entries, ascending_place t.ascending⟩

def filterMap (f : κ → ν → Option μ) (t : Table κ ν) : Table κ μ :=
  ⟨keep f t.entries, ascending_keep t.ascending⟩

def mapValues (f : ν → μ) (t : Table κ ν) : Table κ μ := t.filterMap fun _ v => some (f v)

def erase (t : Table κ ν) (k : κ) : Table κ ν :=
  t.filterMap fun k' v => if compare k k' = .eq then none else some v

def modify (t : Table κ ν) (k : κ) (f : ν → ν) : Table κ ν :=
  match t.get? k with
  | some v => t.insert k (f v)
  | none => t

/-- Entries from left to right; of two with one key the later stands. -/
def ofList (l : List (κ × ν)) : Table κ ν := l.foldl (fun t e => t.insert e.1 e.2) empty

omit [Std.TransOrd κ] [Std.LawfulEqOrd κ] in
@[simp] theorem get?_empty (k : κ) : (empty : Table κ ν).get? k = none := rfl

theorem get?_insert [DecidableEq κ] (t : Table κ ν) (k k' : κ) (v : ν) :
    (t.insert k v).get? k' = if k = k' then some v else t.get? k' :=
  lookup_place k k' v t.entries

omit [Std.TransOrd κ] in
theorem mem_toList {t : Table κ ν} {e : κ × ν} : e ∈ t.toList ↔ t.get? e.1 = some e.2 :=
  (lookup_eq_some_iff t.ascending).symm

omit [Std.TransOrd κ] in
theorem get?_filterMap (f : κ → ν → Option μ) (t : Table κ ν) (k : κ) :
    (t.filterMap f).get? k = (t.get? k).bind (f k) := by
  refine Option.ext fun v => ?_
  rw [← mem_toList (e := (k, v))]
  show (k, v) ∈ keep f t.entries ↔ _
  simp only [mem_keep, Option.bind_eq_some_iff]
  exact exists_congr fun w => and_congr_left fun _ => mem_toList (t := t) (e := (k, w))

omit [Std.TransOrd κ] in
theorem get?_mapValues (f : ν → μ) (t : Table κ ν) (k : κ) :
    (t.mapValues f).get? k = (t.get? k).map f := by
  rw [mapValues, get?_filterMap, Option.map_eq_bind]
  rfl

omit [Std.TransOrd κ] in
theorem get?_erase [DecidableEq κ] (t : Table κ ν) (k k' : κ) :
    (t.erase k).get? k' = if k = k' then none else t.get? k' := by
  rw [erase, get?_filterMap]
  by_cases h : k = k'
  · subst h
    simp
  · have : compare k k' ≠ .eq := fun hc => h (Std.LawfulEqCmp.eq_of_compare hc)
    simp [h, this]

theorem get?_modify [DecidableEq κ] (t : Table κ ν) (k k' : κ) (f : ν → ν) :
    (t.modify k f).get? k' = if k = k' then (t.get? k').map f else t.get? k' := by
  unfold modify
  by_cases h : k = k'
  · subst h
    split
    · next v hv => simp [get?_insert, hv]
    · next hv => simp [hv]
  · split
    · simp [get?_insert, h]
    · simp [h]

theorem get?_ofList_const [DecidableEq κ] (ks : List κ) (v : ν) (k : κ) :
    (ofList (ks.map (·, v))).get? k = if k ∈ ks then some v else none := by
  have hfold : ∀ t : Table κ ν, ((ks.map (·, v)).foldl (fun t e => t.insert e.1 e.2) t).get? k =
      if k ∈ ks then some v else t.get? k := by
    induction ks with
    | nil => exact fun t => rfl
    | cons a rest ih =>
      intro t
      rw [List.map_cons, List.foldl_cons, ih, get?_insert]
      by_cases ha : a = k
      · simp [ha]
      · have hne : k ≠ a := fun he => ha he.symm
        simp [ha, hne]
  exact hfold empty

omit [Std.TransOrd κ] in
theorem mem_keys {t : Table κ ν} {k : κ} : k ∈ t.keys ↔ t.contains k := by
  unfold keys contains
  rw [List.mem_map, Option.isSome_iff_exists]
  constructor
  · rintro ⟨e, he, rfl⟩
    exact ⟨e.2, mem_toList.1 he⟩
  · rintro ⟨v, hv⟩
    exact ⟨(k, v), mem_toList.2 hv, rfl⟩

theorem ext_get? {s t : Table κ ν} (h : ∀ k, s.get? k = t.get? k) : s = t := by
  have hm : ∀ e, e ∈ s.entries ↔ e ∈ t.entries := fun e => by
    have hs := mem_toList (t := s) (e := e)
    have ht := mem_toList (t := t) (e := e)
    rw [h] at hs
    exact hs.trans ht.symm
  have hs : s.entries.Nodup := s.ascending.imp fun hab hne => by simp [hne] at hab
  have ht : t.entries.Nodup := t.ascending.imp fun hab hne => by simp [hne] at hab
  have he : s.entries = t.entries :=
    ((List.perm_ext_iff_of_nodup hs ht).2 hm).eq_of_pairwise
      (fun a b _ _ hab hba => by
        have := Std.OrientedCmp.not_lt_of_lt hab
        exact absurd hba this)
      s.ascending t.ascending
  cases s
  cases t
  simp_all

/-- When no key comes twice, a table made of a list holds just the list. -/
theorem get?_ofList_eq_some_iff [DecidableEq κ] {l : List (κ × ν)} (h : (l.map (·.1)).Nodup) (k : κ) (v : ν) :
    (ofList l).get? k = some v ↔ (k, v) ∈ l := by
  have hfold : ∀ t : Table κ ν, (l.foldl (fun t e => t.insert e.1 e.2) t).get? k = some v ↔
      (k, v) ∈ l ∨ k ∉ l.map (·.1) ∧ t.get? k = some v := by
    induction l with
    | nil => simp
    | cons a rest ih =>
      intro t
      obtain ⟨hnew, hrest⟩ := List.nodup_cons.1 h
      have hmem : (k, v) ∈ rest → k ∈ rest.map (·.1) := fun hm => List.mem_map_of_mem hm
      rw [List.foldl_cons, ih hrest, get?_insert]
      by_cases ha : a.1 = k
      · subst ha
        have hn : (a.1, v) ∉ rest := fun hm => hnew (hmem hm)
        simp [hn, hnew, Prod.ext_iff, eq_comm]
      · have hne : k ≠ a.1 := fun he => ha he.symm
        have hne' : (k, v) ≠ a := fun he => ha (by rw [← he])
        simp [ha, hne, hne']
  rw [ofList, hfold]
  simp

omit [Std.TransOrd κ] [Std.LawfulEqOrd κ] in
theorem values_filterMap (f : ν → Option μ) (t : Table κ ν) :
    (t.filterMap fun _ v => f v).values = t.values.filterMap f := by
  show (keep (fun _ v => f v) t.entries).map (·.2) = (t.entries.map (·.2)).filterMap f
  induction t.entries with
  | nil => rfl
  | cons e rest ih =>
    rw [keep, List.map_cons]
    split
    · next v hv => rw [List.filterMap_cons_some hv, List.map_cons, ih]
    · next hv => rw [List.filterMap_cons_none hv, ih]

omit [Std.LawfulEqOrd κ] in
theorem nodup_keys (t : Table κ ν) : t.keys.Nodup :=
  List.pairwise_map.2 (t.ascending.imp fun hab he => by simp [he] at hab)

theorem ofList_toList [DecidableEq κ] (t : Table κ ν) : ofList t.toList = t :=
  ext_get? fun k => Option.ext fun v => by
    rw [get?_ofList_eq_some_iff (l := t.toList) t.nodup_keys, mem_toList]

end Table

end Questline
