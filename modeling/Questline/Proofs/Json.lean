import Questline.Json.Decode

/-!
# Reading JSON that was written here

What is written is of a plain form: its numbers are integers, and its strings and keys are spelled as `escape` spells
them. `Plain.parse?_render` says that the reader finds a plain value again in its text. The reader counts its calls, so
the induction is over the values with the text that follows and the calls that are left: two calls for each character
suffice. The rest of the module reads numbers, names and fields off the values that hold them; `Tagged` puts this together
for variants that carry a record.
-/

namespace Questline.Json

open Numeral

theorem readSpelling_escapeChar (c : Char) (rest : List Char) :
    readSpelling (escapeChar c ++ rest) = (readSpelling rest).map fun p => (escapeChar c ++ p.1, p.2) := by
  unfold escapeChar
  repeat' split
  any_goals (subst_vars; rfl)
  case isTrue h =>
    have hv : (Hex.value? ['0', '0', Hex.digit (c.toNat / 16), Hex.digit (c.toNat % 16)]).isSome := by
      rw [value?_control h]
      rfl
    simp only [List.cons_append, List.nil_append, readSpelling, hv, if_true]
  case isFalse =>
    rw [List.singleton_append, readSpelling]
    all_goals grind

theorem readSpelling_escape (cs rest : List Char) :
    readSpelling (escape cs ++ '"' :: rest) = some (escape cs, rest) := by
  induction cs with
  | nil => rfl
  | cons c cs ih =>
    rw [escape, List.flatMap_cons, ← escape, List.append_assoc, readSpelling_escapeChar, ih]
    rfl

/-- Nothing follows, or a mark that no number can go on with. -/
def Stops (rest : List Char) : Prop := ∀ c ∈ rest.head?, c = ',' ∨ c = ']' ∨ c = '}'

theorem Stops.noDigit {rest : List Char} (h : Stops rest) : NoDigit rest := by
  intro c hc
  rcases h c hc with rfl | rfl | rfl <;> rfl

theorem Stops.readFraction {rest : List Char} (h : Stops rest) : readFraction rest = some ([], rest) := by
  cases rest with
  | nil => rfl
  | cons c rest => rcases h c rfl with rfl | rfl | rfl <;> rfl

theorem Stops.readExponent {rest : List Char} (h : Stops rest) : readExponent rest = some ([], rest) := by
  cases rest with
  | nil => rfl
  | cons c rest => rcases h c rfl with rfl | rfl | rfl <;> rfl

theorem readDigits_append {ds rest : List Char} (hd : ∀ c ∈ ds, c.isDigit = true) (hn : ds ≠ []) (hr : NoDigit rest) :
    readDigits (ds ++ rest) = some (ds, rest) := by
  unfold readDigits
  rw [takeWhile_digits hd hr, dropWhile_digits hd hr]
  simp [hn]

theorem readWhole_digits (n : Nat) {rest : List Char} (hr : NoDigit rest) :
    readWhole (digits n ++ rest) = some (digits n, rest) := by
  have hread := readDigits_append (fun c => isDigit_of_mem_digits (n := n)) (digits_ne_nil n) hr
  rcases digits_cases n with hz | ⟨d, ds, hd, hne⟩
  · rw [hz]
    rfl
  · rw [hd] at hread ⊢
    rw [List.cons_append, readWhole]
    · exact hread
    · intro rest' he
      exact hne (List.cons.inj he).1

theorem readMinus_digits (n : Nat) (rest : List Char) : readMinus (digits n ++ rest) = ([], digits n ++ rest) := by
  obtain ⟨d, ds, hd⟩ := List.exists_cons_of_ne_nil (digits_ne_nil n)
  have hdigit : d.isDigit = true := isDigit_of_mem_digits (n := n) (hd ▸ List.mem_cons_self)
  rw [hd, List.cons_append, readMinus]
  rintro rest' he
  rw [(List.cons.inj he).1] at hdigit
  cases hdigit

theorem readNumber_ofInt (i : Int) {rest : List Char} (h : Stops rest) :
    readNumber (Numeral.ofInt i ++ rest) = some (Numeral.ofInt i, rest) := by
  cases i with
  | ofNat n =>
    simp only [Numeral.ofInt, readNumber, readMinus_digits, readWhole_digits n h.noDigit]
    simp [h.readFraction, h.readExponent]
  | negSucc n =>
    simp only [Numeral.ofInt, List.cons_append, readNumber, readMinus, readWhole_digits (n + 1) h.noDigit]
    simp [h.readFraction, h.readExponent]

/-- Values as they are written here: the numbers are integers, and strings and keys are spelled as they denote. -/
inductive Plain : Json → Prop where
  | null : Plain .null
  | bool (b : Bool) : Plain (.bool b)
  | int (i : Int) : Plain (.ofInt i)
  | string (s : String) : Plain (.ofString s)
  | array {vs : List Json} (elements : ∀ v ∈ vs, Plain v) : Plain (.array vs)
  | object {fs : List (List Char × Json)} (keys : ∀ f ∈ fs, ∃ cs, f.1 = escape cs) (values : ∀ f ∈ fs, Plain f.2) :
      Plain (.object fs)

/-- With two calls for each character, the reader finds the value and what follows it. -/
def Reads (v : Json) : Prop :=
  ∀ fuel rest, 2 * (write v).length ≤ fuel → Stops rest → readValue fuel (write v ++ rest) = some (v, rest)

theorem skipSpace_cons {c : Char} (h : isSpace c = false) (cs : List Char) : skipSpace (c :: cs) = c :: cs :=
  List.dropWhile_cons_of_neg (by simp [h])

def IsNumberHead (c : Char) : Prop := c = '-' ∨ c.isDigit = true

theorem isNumberHead_ofInt (i : Int) : ∃ c cs, Numeral.ofInt i = c :: cs ∧ IsNumberHead c := by
  cases i with
  | ofNat n =>
    obtain ⟨d, ds, hd⟩ := List.exists_cons_of_ne_nil (digits_ne_nil n)
    exact ⟨d, ds, hd, .inr (isDigit_of_mem_digits (n := n) (hd ▸ List.mem_cons_self))⟩
  | negSucc n => exact ⟨'-', _, rfl, .inl rfl⟩

theorem IsNumberHead.notMem {c : Char} (h : IsNumberHead c) :
    c ∉ [' ', '\n', '\t', '\r', 'n', 't', 'f', '"', '[', '{'] := by
  intro hm
  rcases h with rfl | hdigit
  · exact absurd hm (by decide)
  · have hnone : [' ', '\n', '\t', '\r', 'n', 't', 'f', '"', '[', '{'].all (fun m => !m.isDigit) = true := by decide
    have hc := List.all_eq_true.1 hnone c hm
    rw [hdigit] at hc
    cases hc

theorem readValue_of_isNumberHead {c : Char} (h : IsNumberHead c) (fuel : Nat) (cs : List Char) :
    readValue (fuel + 1) (c :: cs) = (readNumber (c :: cs)).map fun (s, rest) => (.number s, rest) := by
  have hc := h.notMem
  simp only [List.mem_cons, List.not_mem_nil, or_false, not_or] at hc
  have hspace : isSpace c = false := by simp [isSpace, hc]
  rw [readValue, skipSpace_cons hspace]
  split
  case h_7 => rfl
  all_goals
    next he =>
      have hhead := (List.cons.inj he).1
      simp [hhead] at hc

theorem reads_int (i : Int) : Reads (.ofInt i) := by
  intro fuel rest hf hr
  have hread := readNumber_ofInt i hr
  obtain ⟨c, cs, hc, hhead⟩ := isNumberHead_ofInt i
  simp only [Json.ofInt, write] at hf ⊢
  rw [hc] at hread hf ⊢
  cases fuel with
  | zero => simp at hf
  | succ fuel =>
    rw [List.cons_append] at hread ⊢
    rw [readValue_of_isNumberHead hhead, hread]
    rfl

theorem reads_string (s : String) : Reads (.ofString s) := by
  intro fuel rest hf hr
  cases fuel with
  | zero => simp [Json.ofString, write] at hf
  | succ fuel =>
    simp only [Json.ofString, write, List.cons_append, List.append_assoc, List.nil_append]
    rw [readValue, skipSpace_cons rfl]
    simp only [readSpelling_escape]
    rfl

/-- Neither a space nor a closing bracket begins a value. -/
theorem Plain.head {v : Json} (h : Plain v) : ∃ c cs, write v = c :: cs ∧ isSpace c = false ∧ c ≠ ']' := by
  cases h with
  | null => exact ⟨'n', _, rfl, rfl, by decide⟩
  | bool b =>
    cases b with
    | false => exact ⟨'f', _, rfl, rfl, by decide⟩
    | true => exact ⟨'t', _, rfl, rfl, by decide⟩
  | int i =>
    obtain ⟨c, cs, hc, hhead⟩ := isNumberHead_ofInt i
    have hm := hhead.notMem
    refine ⟨c, cs, hc, by simp_all [isSpace], ?_⟩
    rintro rfl
    rcases hhead with hd | hd <;> cases hd
  | string s => exact ⟨'"', _, rfl, rfl, by decide⟩
  | array => exact ⟨'[', _, rfl, rfl, by decide⟩
  | object => exact ⟨'{', _, rfl, rfl, by decide⟩

/-- One element, when it is the last one and when others follow. -/
theorem readElements_element {v : Json} (hv : Reads v) {fuel : Nat} (hf : 2 * (write v).length ≤ fuel)
    (rest : List Char) :
    readElements (fuel + 1) (write v ++ ']' :: rest) = some ([v], rest) ∧
      readElements (fuel + 1) (write v ++ ',' :: rest) =
        (readElements fuel rest).map fun (vs, rest) => (v :: vs, rest) := by
  constructor
  all_goals
    rw [readElements, hv fuel _ hf (by simp [Stops])]
    simp only
    rw [skipSpace_cons rfl]
    rfl

theorem readElements_write {vs : List Json} (hv : ∀ v ∈ vs, Reads v) (hn : vs ≠ []) (fuel : Nat)
    (hf : 2 * (writeElements vs).length ≤ fuel) (rest : List Char) :
    readElements fuel (writeElements vs ++ rest) = some (vs, rest) := by
  induction vs generalizing fuel with
  | nil => exact absurd rfl hn
  | cons v vs ih =>
    obtain ⟨hfirst, hothers⟩ := List.forall_mem_cons.1 hv
    cases fuel with
    | zero => cases vs <;> simp [writeElements] at hf
    | succ fuel =>
      cases vs with
      | nil =>
        simp only [writeElements, List.length_append, List.length_singleton] at hf
        rw [writeElements, List.append_assoc]
        exact (readElements_element hfirst (by omega) rest).1
      | cons v' vs =>
        simp only [writeElements, List.length_append, List.length_cons] at hf
        rw [writeElements, List.append_assoc]
        · rw [List.cons_append, (readElements_element hfirst (by omega) _).2,
            ih hothers (List.cons_ne_nil _ _) fuel (by omega)]
          rfl
        · exact List.cons_ne_nil _ _

theorem readFields_field {v : Json} (hv : Reads v) (cs : List Char) {fuel : Nat} (hf : 2 * (write v).length ≤ fuel)
    (rest : List Char) :
    readFields (fuel + 1) ('"' :: (escape cs ++ '"' :: ':' :: (write v ++ '}' :: rest))) =
        some ([(escape cs, v)], rest) ∧
      readFields (fuel + 1) ('"' :: (escape cs ++ '"' :: ':' :: (write v ++ ',' :: rest))) =
        (readFields fuel rest).map fun (fs, rest) => ((escape cs, v) :: fs, rest) := by
  constructor
  all_goals
    rw [readFields, skipSpace_cons rfl]
    simp only [readSpelling_escape]
    rw [skipSpace_cons rfl]
    simp only
    rw [hv fuel _ hf (by simp [Stops])]
    simp only
    rw [skipSpace_cons rfl]
    rfl

theorem readFields_write {fs : List (List Char × Json)} (hk : ∀ f ∈ fs, ∃ cs, f.1 = escape cs)
    (hv : ∀ f ∈ fs, Reads f.2) (hn : fs ≠ []) (fuel : Nat) (hf : 2 * (writeFields fs).length ≤ fuel)
    (rest : List Char) : readFields fuel (writeFields fs ++ rest) = some (fs, rest) := by
  induction fs generalizing fuel with
  | nil => exact absurd rfl hn
  | cons f fs ih =>
    obtain ⟨key, v⟩ := f
    obtain ⟨⟨cs, rfl⟩, hkeys⟩ := List.forall_mem_cons.1 hk
    obtain ⟨hfirst, hothers⟩ := List.forall_mem_cons.1 hv
    simp only at hfirst
    cases fuel with
    | zero => cases fs <;> simp [writeFields] at hf
    | succ fuel =>
      cases fs with
      | nil =>
        simp only [writeFields, List.length_append, List.length_cons, List.length_nil] at hf
        simp only [writeFields, List.cons_append, List.append_assoc, List.nil_append]
        exact (readFields_field hfirst cs (by omega) rest).1
      | cons f' fs =>
        simp only [writeFields, List.length_append, List.length_cons] at hf
        simp only [writeFields, List.cons_append, List.append_assoc]
        rw [(readFields_field hfirst cs (by omega) _).2, ih hkeys hothers (List.cons_ne_nil _ _) fuel (by omega)]
        rfl

theorem reads_array {vs : List Json} (hp : ∀ v ∈ vs, Plain v) (hv : ∀ v ∈ vs, Reads v) : Reads (.array vs) := by
  intro fuel rest hf hr
  rw [write] at hf ⊢
  rw [List.length_cons] at hf
  cases fuel with
  | zero => omega
  | succ fuel =>
    rw [List.cons_append, readValue, skipSpace_cons rfl]
    simp only
    cases vs with
    | nil => rfl
    | cons v vs =>
      have hread := readElements_write hv (List.cons_ne_nil v vs) fuel (by omega) rest
      obtain ⟨c, cs, hc, hspace, hne⟩ := (hp v List.mem_cons_self).head
      have hhead : ∃ cs, writeElements (v :: vs) ++ rest = c :: cs := by
        cases vs <;> simp [writeElements, hc]
      obtain ⟨cs, hcs⟩ := hhead
      rw [hcs] at hread ⊢
      rw [skipSpace_cons hspace]
      split
      · next he => exact absurd (List.cons.inj he).1 hne
      · rw [hread]
        rfl

theorem reads_object {fs : List (List Char × Json)} (hk : ∀ f ∈ fs, ∃ cs, f.1 = escape cs)
    (hv : ∀ f ∈ fs, Reads f.2) : Reads (.object fs) := by
  intro fuel rest hf hr
  rw [write] at hf ⊢
  rw [List.length_cons] at hf
  cases fuel with
  | zero => omega
  | succ fuel =>
    rw [List.cons_append, readValue, skipSpace_cons rfl]
    simp only
    cases fs with
    | nil => rfl
    | cons f fs =>
      have hread := readFields_write hk hv (List.cons_ne_nil f fs) fuel (by omega) rest
      have hhead : ∃ cs, writeFields (f :: fs) ++ rest = '"' :: cs := by
        cases fs <;> simp [writeFields]
      obtain ⟨cs, hcs⟩ := hhead
      rw [hcs] at hread ⊢
      rw [skipSpace_cons rfl]
      split
      · next he => cases (List.cons.inj he).1
      · rw [hread]
        rfl

theorem Plain.reads {v : Json} (h : Plain v) : Reads v := by
  induction h with
  | null => 
    intro fuel rest hf hr
    cases fuel with
    | zero => simp [write] at hf
    | succ fuel => rfl
  | bool b =>
    intro fuel rest hf hr
    cases fuel with
    | zero => cases b <;> simp [write] at hf
    | succ fuel => cases b <;> rfl
  | int i => exact reads_int i
  | string s => exact reads_string s
  | array elements ih => exact reads_array elements ih
  | object keys _ ih => exact reads_object keys ih

theorem Plain.parse?_render {v : Json} (h : Plain v) : parse? v.render = some v := by
  unfold parse? render
  have hread := h.reads (2 * (write v).length + 2) [] (by omega) nofun
  rw [List.append_nil] at hread
  simp only [String.toList_ofList, hread]
  rfl

theorem escape_digits (n : Nat) : escape (digits n) = digits n := by
  have hc : ∀ c ∈ digits n, escapeChar c = [c] := by
    intro c hc
    have hd : c.isDigit = true := isDigit_of_mem_digits hc
    have hlow : ¬ c.toNat < 0x20 := by
      have h48 : 48 ≤ c.toNat := (Char.isDigit_iff_toNat.1 hd).1
      omega
    unfold escapeChar
    rw [if_neg hlow]
    repeat' split
    any_goals (subst_vars; cases hd)
    rfl
  generalize digits n = ds at hc ⊢
  induction ds with
  | nil => rfl
  | cons d ds ih =>
    obtain ⟨hd, hds⟩ := List.forall_mem_cons.1 hc
    rw [escape, List.flatMap_cons, hd, ← escape, ih hds]
    rfl

@[simp] theorem string?_ofString (s : String) : (Json.ofString s).string? = some s := by
  unfold Json.ofString string?
  simp only [unescape_escape, Option.map_some, String.ofList_toList]

@[simp] theorem tag?_ofString (s : String) : (Json.ofString s).tag? = some s := by
  unfold Json.ofString tag? variant?
  simp only [unescape_escape, Option.map_some, String.ofList_toList]

theorem int?_ofNat (n : Nat) : (Json.ofNat n).int? = some (n : Int) := by
  have hall : (digits n).all Char.isDigit := List.all_eq_true.2 fun c => isDigit_of_mem_digits
  obtain ⟨d, ds, hd⟩ := List.exists_cons_of_ne_nil (digits_ne_nil n)
  have hdigit : d.isDigit = true := isDigit_of_mem_digits (n := n) (hd ▸ List.mem_cons_self)
  have hv := value_digits n
  unfold Json.ofNat int?
  rw [hd] at hall hv ⊢
  split
  · next he =>
    rw [Json.number.injEq, List.cons.injEq] at he
    rw [he.1] at hdigit
    cases hdigit
  · next he =>
    rw [Json.number.injEq] at he
    rw [← he, if_pos hall, hv]
  · next he => exact absurd rfl (he _)

theorem int?_ofInt (i : Int) : (Json.ofInt i).int? = some i := by
  cases i with
  | ofNat n => exact int?_ofNat n
  | negSucc n =>
    have hall : (digits (n + 1)).all Char.isDigit := List.all_eq_true.2 fun c => isDigit_of_mem_digits
    have hzero : digits (n + 1) ≠ ['0'] := by
      intro he
      have hv := value_digits (n + 1)
      rw [he] at hv
      cases hv
    simp [Json.ofInt, Numeral.ofInt, int?, hall, hzero, value_digits, Int.negSucc_eq]

theorem intIn?_ofNat {n high : Nat} (h : n ≤ high) : (Json.ofNat n).intIn? 0 high = some (n : Int) := by
  unfold intIn?
  rw [int?_ofNat]
  simp [Option.filter, h]

@[simp] theorem uint8?_ofNat (n : UInt8) : (Json.ofNat n.toNat).uint8? = some n := by
  have hlt := n.toNat_lt_size
  have hin : (Json.ofNat n.toNat).intIn? 0 255 = some (n.toNat : Int) := intIn?_ofNat (Nat.le_of_lt_succ hlt)
  unfold uint8?
  rw [hin]
  simp

@[simp] theorem uint32?_ofNat (n : UInt32) : (Json.ofNat n.toNat).uint32? = some n := by
  have hlt := n.toNat_lt_size
  have hin : (Json.ofNat n.toNat).intIn? 0 4294967295 = some (n.toNat : Int) := intIn?_ofNat (Nat.le_of_lt_succ hlt)
  unfold uint32?
  rw [hin]
  simp

@[simp] theorem int64?_ofInt (n : Int64) : (Json.ofInt n.toInt).int64? = some n := by
  have hlow := n.minValue_le_toInt
  have hhigh := n.toInt_le
  simp only [int64?, intIn?, int?_ofInt, Option.filter, hlow, hhigh, decide_true, Bool.and_self, if_true,
    Option.map_some, Int64.ofInt_toInt]

theorem named?_map_escape (fields : List (String × Json)) :
    named? (fields.map fun f => (escape f.1.toList, f.2)) = some fields := by
  unfold named?
  induction fields with
  | nil => rfl
  | cons f fs ih =>
    rw [List.map_cons, List.mapM_cons, ih]
    simp only [unescape_escape, Option.map_some, String.ofList_toList]
    rfl

theorem single?_eq_some {fields : List (String × Json)} (h : (fields.map (·.1)).Nodup) {f : String × Json}
    (hf : f ∈ fields) : single? fields f.1 = some (some f.2) := by
  have hfilter : fields.filter (·.1 = f.1) = [f] := by
    induction fields with
    | nil => cases hf
    | cons a rest ih =>
      obtain ⟨hnew, hrest⟩ := List.nodup_cons.1 h
      rcases List.mem_cons.1 hf with rfl | hf
      · rw [List.filter_cons_of_pos (by simp)]
        congr 1
        refine List.filter_eq_nil_iff.2 fun b hb he => hnew ?_
        have hb' : b.1 ∈ rest.map (·.1) := List.mem_map_of_mem hb
        rwa [of_decide_eq_true he] at hb'
      · have hf' : f.1 ∈ rest.map (·.1) := List.mem_map_of_mem hf
        have hne : a.1 ≠ f.1 := fun he => hnew (show a.1 ∈ rest.map (·.1) from he ▸ hf')
        rw [List.filter_cons_of_neg (by simpa using hne)]
        exact ih hrest hf
  unfold single?
  rw [hfilter]

theorem record?_ofFields {fields : List (String × Json)} (h : (fields.map (·.1)).Nodup) :
    (Json.ofFields fields).record? (fields.map (·.1)) = some (fields.map fun f => some f.2) := by
  have hsub : ∀ fs : List (String × Json), (∀ f ∈ fs, f ∈ fields) →
      (fs.map (·.1)).mapM (single? fields) = some (fs.map fun f => some f.2) := by
    intro fs hfs
    induction fs with
    | nil => rfl
    | cons f fs ih =>
      obtain ⟨hf, hrest⟩ := List.forall_mem_cons.1 hfs
      rw [List.map_cons, List.mapM_cons, single?_eq_some h hf, ih hrest]
      rfl
  unfold Json.ofFields record?
  simp only [named?_map_escape]
  exact hsub fields fun _ hf => hf

theorem plain_ofNat (n : Nat) : Plain (.ofNat n) := .int n

theorem plain_ofFields {fields : List (String × Json)} (h : ∀ f ∈ fields, Plain f.2) : Plain (.ofFields fields) := by
  refine .object (fun f hf => ?_) fun f hf => ?_
  all_goals obtain ⟨g, hg, rfl⟩ := List.mem_map.1 hf
  · exact ⟨_, rfl⟩
  · exact h g hg

@[simp] theorem variant?_ofFields (name : String) (body : Json) :
    (ofFields [(name, body)]).variant? = some (name, some body) := by
  simp [ofFields, variant?, unescape_escape]

/-- A variant with its tag over a record: the fields are plain, and no two of them have the same name. -/
structure Tagged (v : Json) (tag : String) (fields : List (String × Json)) : Prop where
  eq : v = .ofFields [(tag, .ofFields fields)]
  plain : ∀ f ∈ fields, Plain f.2
  nodup : (fields.map (·.1)).Nodup

namespace Tagged

variable {v v' : Json} {tag tag' : String} {fields fields' : List (String × Json)}

theorem parse?_render (h : Tagged v tag fields) : parse? v.render = some v := by
  apply Plain.parse?_render
  rw [h.eq]
  apply plain_ofFields
  simpa using plain_ofFields h.plain

theorem variant?_eq (h : Tagged v tag fields) : v.variant? = some (tag, some (.ofFields fields)) := by
  rw [h.eq, variant?_ofFields]

theorem record?_eq (h : Tagged v tag fields) :
    (ofFields fields).record? (fields.map (·.1)) = some (fields.map fun f => some f.2) :=
  record?_ofFields h.nodup

theorem tag_eq (h : Tagged v tag fields) (h' : Tagged v' tag' fields') (he : v.render = v'.render) : tag = tag' := by
  have hparse := congrArg parse? he
  rw [h.parse?_render, h'.parse?_render, Option.some.injEq] at hparse
  have hvariant := congrArg variant? hparse
  rw [h.variant?_eq, h'.variant?_eq] at hvariant
  exact (Prod.mk.inj (Option.some.inj hvariant)).1

end Tagged

end Questline.Json
