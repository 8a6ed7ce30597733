import Mathlib
import Questline.Table

/-!
# Totals over a table

`total` sums a measure over the values of a table. Setting one key changes it by the difference of two values, and
the part of a sum that belongs to one key is the value under that key.
-/

namespace Questline.Table

variable {κ ν : Type} [Ord κ]

def total (g : ν → Nat) (t : Table κ ν) : Nat := (t.values.map g).sum

def part (g : ν → Nat) (t : Table κ ν) (k : κ) : Nat := ((t.get? k).map g).getD 0

theorem lookup_eq_none {k : κ} {l : List (κ × ν)} (h : ∀ e ∈ l, compare k e.1 ≠ .eq) : lookup k l = none := by
  induction l with
  | nil => rfl
  | cons a rest ih =>
    rw [lookup, if_neg (h a List.mem_cons_self)]
    exact ih fun e he => h e (List.mem_cons_of_mem a he)

variable [Std.TransOrd κ]

theorem lookup_rest_eq_none {k : κ} {a : κ × ν} {rest : List (κ × ν)}
    (h : (a :: rest).Pairwise fun a b => compare a.1 b.1 = .lt) (hk : (compare k a.1).isLE) :
    lookup k rest = none := by
  refine lookup_eq_none fun e he hc => ?_
  have ha : compare a.1 e.1 = .lt := (List.pairwise_cons.1 h).1 e he
  have hlt : compare k e.1 = .lt := Std.TransCmp.lt_of_isLE_of_lt hk ha
  rw [hc] at hlt
  cases hlt

theorem sum_place {k : κ} {v : ν} {l : List (κ × ν)} (g : ν → Nat)
    (h : l.Pairwise fun a b => compare a.1 b.1 = .lt) :
    ((place k v l).map fun e => g e.2).sum + ((lookup k l).map g).getD 0 = (l.map fun e => g e.2).sum + g v := by
  induction l with
  | nil => simp [place, lookup]
  | cons a rest ih =>
    have hrest := ih (List.pairwise_cons.1 h).2
    rw [place]
    split
    · next hc =>
      have hn : lookup k rest = none := lookup_rest_eq_none h (by rw [hc]; rfl)
      simp only [lookup, hc, List.map_cons, List.sum_cons]
      rw [if_neg (by decide), hn]
      simp only [Option.map_none, Option.getD_none]
      omega
    · next hc =>
      simp only [lookup, hc, if_true, List.map_cons, List.sum_cons, Option.map_some, Option.getD_some]
      omega
    · next hc =>
      simp only [lookup, hc, List.map_cons, List.sum_cons]
      rw [if_neg (by decide)]
      omega

theorem sum_key [Std.LawfulEqOrd κ] [DecidableEq κ] {k : κ} {l : List (κ × ν)} (g : ν → Nat)
    (h : l.Pairwise fun a b => compare a.1 b.1 = .lt) :
    (l.map fun e => if e.1 = k then g e.2 else 0).sum = ((lookup k l).map g).getD 0 := by
  induction l with
  | nil => rfl
  | cons a rest ih =>
    have hrest := ih (List.pairwise_cons.1 h).2
    rw [List.map_cons, List.sum_cons, hrest, lookup]
    by_cases hk : a.1 = k
    · subst hk
      have hn : lookup a.1 rest = none := lookup_rest_eq_none h (by simp)
      simp [hn]
    · have hc : compare k a.1 ≠ .eq := fun hc => hk (Std.LawfulEqCmp.eq_of_compare hc).symm
      rw [if_neg hk, if_neg hc, Nat.zero_add]

section

variable [Std.LawfulEqOrd κ] (g : ν → Nat) (t : Table κ ν) (k : κ)

theorem total_insert (v : ν) : (t.insert k v).total g + t.part g k = t.total g + g v := by
  have hp := sum_place (k := k) (v := v) g t.ascending
  simpa [total, part, values, insert, get?, Function.comp_def] using hp

omit [Std.TransOrd κ] in
theorem le_total {v : ν} (h : t.get? k = some v) : g v ≤ t.total g := by
  have hm : (k, v) ∈ t.entries := mem_toList.2 h
  exact List.le_sum_of_mem (List.mem_map_of_mem (List.mem_map_of_mem (f := (·.2)) hm))

theorem total_modify {v v' : ν} (h : t.get? k = some v) :
    (t.modify k fun _ => v').total g + g v = t.total g + g v' := by
  have hi := t.total_insert g k v'
  unfold modify
  rw [part, h] at hi
  rw [h]
  exact hi

theorem sum_toList_key [DecidableEq κ] :
    (t.toList.map fun e => if e.1 = k then g e.2 else 0).sum = t.part g k :=
  sum_key g t.ascending

end

end Questline.Table
