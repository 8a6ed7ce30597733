import Questline.Proofs.Parties

/-!
# When parties are made of different players

A party is meant to have two players or more and to list each of them once. What is left of such a party is such a
party, or is dissolved, so only forming one can go wrong. Names are counted as they are given: who is named twice
counts twice, and may even be a party alone. `composed_iff` says that nothing else goes wrong.
-/

namespace Questline

namespace Sessions

/-- Every party has two different players and lists no player twice. -/
def Composed (s : Sessions) : Prop :=
  ∀ k ms, s.parties.get? k = some ms → ms.Nodup ∧ ∃ a ∈ ms, ∃ b ∈ ms, a ≠ b

theorem exists_ne_of_nodup {ms : List PlayerId} (h : ms.Nodup) (htwo : 2 ≤ ms.length) (a : PlayerId) :
    ∃ b ∈ ms, b ≠ a := by
  match ms, htwo with
  | x :: y :: rest, _ =>
    have hxy : x ≠ y := (List.nodup_cons.1 h).1 ∘ fun he => he ▸ List.mem_cons_self
    by_cases hx : x = a
    · exact ⟨y, by simp, fun hy => hxy (hx.trans hy.symm)⟩
    · exact ⟨x, by simp, hx⟩

theorem composed_empty : empty.Composed := by
  intro k ms hk
  cases hk

theorem members?_eq (s : Sessions) (player : PlayerId) : s.members? player = (s.party? player).bind s.parties.get? := by
  unfold members? party?
  rw [Option.bind_assoc]

theorem SameParties.members? {s s' : Sessions} (h : SameParties s s') (player : PlayerId) :
    s'.members? player = s.members? player := by
  rw [members?_eq, members?_eq, h.party?, h.parties]

namespace Aligned

variable {s s' : Sessions}

/-- With two names in every party, it is enough that none is listed twice. -/
theorem composed_iff_nodup (h : s.Aligned) : s.Composed ↔ ∀ k ms, s.parties.get? k = some ms → ms.Nodup := by
  refine ⟨fun hc k ms hk => (hc k ms hk).1, fun hn k ms hk => ⟨hn k ms hk, ?_⟩⟩
  obtain ⟨a, ha⟩ := List.exists_mem_of_length_pos (Nat.lt_of_lt_of_le Nat.zero_lt_two (h.two k ms hk))
  obtain ⟨b, hb, hne⟩ := exists_ne_of_nodup (hn k ms hk) (h.two k ms hk) a
  exact ⟨a, ha, b, hb, hne.symm⟩

theorem composed_iff_members? (h : s.Aligned) : s.Composed ↔
    ∀ player ms, s.members? player = some ms → ms.Nodup ∧ ∃ other ∈ ms, other ≠ player := by
  constructor
  · intro hc player ms hms
    rw [members?_eq] at hms
    obtain ⟨k, -, hk⟩ := Option.bind_eq_some_iff.1 hms
    exact ⟨(hc k ms hk).1, exists_ne_of_nodup (hc k ms hk).1 (h.two k ms hk) player⟩
  · refine fun hv => h.composed_iff_nodup.2 fun k ms hk => ?_
    obtain ⟨player, hp⟩ := List.exists_mem_of_length_pos (Nat.lt_of_lt_of_le Nat.zero_lt_two (h.two k ms hk))
    have hparty := (h.listed player k).2 ⟨ms, hk, hp⟩
    refine (hv player ms ?_).1
    rw [members?_eq, hparty]
    exact hk

theorem composed_of_leaves (h : s.Aligned) {players : List PlayerId} (hl : Leaves players s s') (hc : s.Composed) :
    s'.Composed := by
  refine (h.of_leaves hl).composed_iff_nodup.2 fun k rest hk => ?_
  obtain ⟨ms, hms, rfl, -⟩ := hl.get?_parties_eq_some_iff.1 hk
  exact (hc k ms hms).1.filter _

theorem composed_of_forms (h : s.Aligned) {members : List PlayerId} (hf : Forms members s s') (hc : s.Composed) :
    s'.Composed ↔ members.Nodup := by
  rw [(hf.aligned h).composed_iff_nodup]
  constructor
  · exact fun hn => hn s.nextParty members (by rw [hf.parties, if_pos rfl])
  · intro hm k ms hk
    rw [hf.parties] at hk
    split at hk
    · rwa [← Option.some.inj hk]
    · obtain ⟨ms', hms', hr⟩ := Option.bind_eq_some_iff.1 hk
      rw [(remainder_eq_some_iff.1 hr).1]
      exact (hc k ms' hms').1.filter _

end Aligned

end Sessions

/-- Nobody who is present is named twice to a party that is formed. -/
def Turn.NamesOnce (t : Turn) : Prop :=
  ∀ names, t.command = .formParty names → t.formed?.isSome → (t.before.sessions.known names).Nodup

theorem Turn.namesOnce_of_none {t : Turn} (h : t.formed? = none) : t.NamesOnce := by
  intro names _ hformed
  rw [h] at hformed
  cases hformed

/-- From proper parties a turn leads to proper parties, unless somebody is named twice. -/
theorem Turn.composed_iff_namesOnce {t : Turn} (h : t.Performed) (ha : t.before.sessions.Aligned)
    (hc : t.before.sessions.Composed) : t.after.sessions.Composed ↔ t.NamesOnce := by
  rcases party_cases h ha with ⟨player, -, hn, hl⟩ | ⟨names, party, hcommand, hformed, hf⟩ | ⟨names, -, hn, hl⟩ |
    ⟨-, hn, hs⟩
  · exact iff_of_true (ha.composed_of_leaves hl hc) (namesOnce_of_none hn)
  · rcases ha.formParty_cases hf with ⟨-, rfl, he⟩ | ⟨rfl, hforms⟩
    · rw [he]
      exact iff_of_true hc (namesOnce_of_none hformed)
    · rw [ha.composed_of_forms hforms hc]
      refine ⟨fun hm names' he _ => ?_, fun honce => honce names hcommand (by rw [hformed]; rfl)⟩
      rw [hcommand] at he
      cases he
      exact hm
  · exact iff_of_true (ha.composed_of_leaves hl hc) (namesOnce_of_none hn)
  · exact iff_of_true (fun k ms hk => hc k ms (hs.parties ▸ hk)) (namesOnce_of_none hn)

namespace Play

variable {start w : World} {turns : List Turn}

theorem forall_composed_iff (h : Play start turns w) (ha : start.sessions.Aligned) (hc : start.sessions.Composed) :
    (∀ t ∈ turns, t.after.sessions.Composed) ↔ ∀ t ∈ turns, t.NamesOnce :=
  h.forall_after_iff (P := fun w => w.sessions.Composed) hc fun _ _ hplay ht hbefore =>
    Turn.composed_iff_namesOnce ht (hplay.aligned ha) hbefore

/-- Whatever is played from an empty start: all parties ever have two different players and list nobody twice, if and
only if nobody who is present is ever named twice to a new party. The same can be said of what the members see. And
all the same two names are in every party. -/
theorem composed_iff {registry : Registry} {dice : Dice} (h : Play ⟨registry, .empty, dice⟩ turns w) :
    ((∀ t ∈ turns, t.after.sessions.Composed) ↔ ∀ t ∈ turns, t.NamesOnce) ∧
    (w.sessions.Composed ↔
      ∀ player ms, w.sessions.members? player = some ms → ms.Nodup ∧ ∃ other ∈ ms, other ≠ player) ∧
    ∀ k ms, w.sessions.parties.get? k = some ms → 2 ≤ ms.length := by
  have ha := h.aligned Sessions.aligned_empty
  exact ⟨h.forall_composed_iff Sessions.aligned_empty Sessions.composed_empty, ha.composed_iff_members?, ha.two⟩

/-- Who is not present may be named twice. -/
theorem composed_iff_ghosts :
    ∃ turns w, Play .schuttgart turns w ∧ (∀ t ∈ turns, t.NamesOnce) ∧
      w.sessions.members? "a" = some ["a", "b"] ∧ ∀ t ∈ turns, t.after.sessions.Composed := by
  obtain ⟨⟨turns, w⟩, hc, hk⟩ : ∃ q, carryOut [] .schuttgart [(.epoch, .join "a" 60), (.epoch, .join "b" 60),
      (.epoch, .formParty ["a", "ghost", "ghost", "b"])] = q ∧
        (q.1.map (·.before.sessions.known ["a", "ghost", "ghost", "b"]) = [["a", "b"], ["a"], []]) ∧
        (q.2.sessions.members? "a" = some ["a", "b"]) :=
    ⟨_, rfl, by decide +kernel⟩
  obtain ⟨hknown, hmembers⟩ := hk
  have hplay := of_carryOut .nil hc
  have hnames : ∀ t ∈ turns, t.NamesOnce := by
    intro t ht names hcommand _
    have hm : t.command ∈ turns.map (·.command) := List.mem_map_of_mem ht
    rw [commands_of_carryOut hc, hcommand] at hm
    obtain rfl : names = ["a", "ghost", "ghost", "b"] := by simpa using hm
    have hm : t.before.sessions.known ["a", "ghost", "ghost", "b"] ∈
        turns.map (·.before.sessions.known ["a", "ghost", "ghost", "b"]) := List.mem_map_of_mem ht
    rw [hknown] at hm
    simp only [List.mem_cons, List.not_mem_nil, or_false] at hm
    rcases hm with hm | hm | hm <;> rw [hm] <;> decide
  exact ⟨turns, w, hplay, hnames, hmembers, (composed_iff hplay).1.2 hnames⟩

/-- Named twice, a player alone makes a party. -/
theorem not_composed_twice :
    ∃ turns w, Play .schuttgart turns w ∧
      turns.map (·.command) = [.formParty ["a", "a"], .join "a" 60] ∧
      w.sessions.members? "a" = some ["a", "a"] ∧ ¬ w.sessions.Composed := by
  obtain ⟨⟨turns, w⟩, hc, hk⟩ : ∃ q, carryOut [] .schuttgart [(.epoch, .join "a" 60), (.epoch, .formParty ["a", "a"])] = q ∧
        (q.2.sessions.parties.get? ⟨1⟩ = some ["a", "a"]) ∧
        (q.2.sessions.members? "a" = some ["a", "a"]) :=
    ⟨_, rfl, by decide +kernel⟩
  obtain ⟨hparty, hmembers⟩ := hk
  refine ⟨turns, w, of_carryOut .nil hc, commands_of_carryOut hc, hmembers, fun hcomposed => ?_⟩
  exact absurd (hcomposed ⟨1⟩ _ hparty).1 (by decide)

end Play

end Questline
