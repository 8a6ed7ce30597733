import Questline.Proofs.Deed

/-!
# Leaving and forming parties

Who is in which party is kept twice, as a number with each player and as a list of members under that number.
`Sessions.Aligned` says that the two agree. As long as they do, `Leaves` and `Forms` say all that leaving and forming
do to parties, and from these laws it follows that the two stay aligned, and who is concerned (`Confined`).
-/

namespace Questline

namespace Sessions

def party? (s : Sessions) (player : PlayerId) : Option PartyId := (s.players.get? player).bind (·.party)

/-- The names of players who are present, in order and as often as they are given. -/
def known (s : Sessions) (names : List PlayerId) : List PlayerId := names.filter fun n => s.players.contains n

theorem party?_modifyPlayer (s : Sessions) (player player' : PlayerId) (f : Session → Session) :
    (s.modifyPlayer player f).party? player' =
      if player = player' then (s.players.get? player').bind (fun p => (f p).party) else s.party? player' := by
  unfold party?
  rw [get?_modifyPlayer]
  split
  · rw [Option.bind_map]
    rfl
  · rfl

theorem party?_clearParty (s : Sessions) (player player' : PlayerId) :
    (s.clearParty player).party? player' = if player = player' then none else s.party? player' := by
  unfold clearParty
  rw [party?_modifyPlayer]
  split
  · cases s.players.get? player' <;> rfl
  · rfl

theorem party?_foldl_clearParty (players : List PlayerId) (s : Sessions) (player : PlayerId) :
    (players.foldl clearParty s).party? player = if player ∈ players then none else s.party? player := by
  induction players generalizing s with
  | nil => rfl
  | cons a rest ih =>
    rw [List.foldl_cons, ih, party?_clearParty]
    by_cases ha : a = player
    · simp [ha]
    · have hne : player ≠ a := fun he => ha he.symm
      simp [ha, hne]

theorem foldl_unchanged {α : Type} {f : Sessions → PlayerId → Sessions} (view : Sessions → α)
    (hf : ∀ s player, view (f s player) = view s) (players : List PlayerId) (s : Sessions) :
    view (players.foldl f s) = view s := by
  induction players generalizing s with
  | nil => rfl
  | cons a rest ih => exact (ih (f s a)).trans (hf s a)

theorem party?_foldl_enterParty (party : PartyId) (players : List PlayerId) (s : Sessions) (player : PlayerId) :
    (players.foldl (enterParty party) s).party? player =
      if player ∈ players then (s.players.get? player).map fun _ => party else s.party? player := by
  induction players generalizing s with
  | nil => rfl
  | cons a rest ih =>
    rw [List.foldl_cons, ih]
    unfold enterParty
    rw [get?_modifyPlayer, party?_modifyPlayer]
    by_cases ha : a = player
    · simp only [ha, if_true, List.mem_cons, true_or]
      cases s.players.get? player <;> simp
    · have hne : player ≠ a := fun he => ha he.symm
      simp [ha, hne]

/-- The players, their parties and the number of the next one are the same. -/
structure SameParties (s s' : Sessions) : Prop where
  party? : ∀ player, s'.party? player = s.party? player
  parties : s'.parties = s.parties
  nextParty : s'.nextParty = s.nextParty

namespace SameParties

theorem refl (s : Sessions) : SameParties s s := ⟨fun _ => rfl, rfl, rfl⟩

theorem trans {s t u : Sessions} (h : SameParties s t) (h' : SameParties t u) : SameParties s u :=
  ⟨fun player => (h'.party? player).trans (h.party? player), h'.parties.trans h.parties,
    h'.nextParty.trans h.nextParty⟩

theorem of_chain {R : Sessions → List Effect → Sessions → Prop} {s s' : Sessions} {es : List Effect}
    (hR : ∀ s es t, R s es t → SameParties s t) (h : Chain R s es s') : SameParties s s' := by
  induction h with
  | nil s => exact refl s
  | cons hs _ ih => exact (hR _ _ _ hs).trans ih

end SameParties

/-- A player has the number of a party exactly when the party is there and lists the player; every party lists two
names or more, and has a number that was given out. -/
structure Aligned (s : Sessions) : Prop where
  listed : ∀ player k, s.party? player = some k ↔ ∃ ms, s.parties.get? k = some ms ∧ player ∈ ms
  two : ∀ k ms, s.parties.get? k = some ms → 2 ≤ ms.length
  below : ∀ k ms, s.parties.get? k = some ms → k.number < s.nextParty.number

theorem aligned_empty : empty.Aligned where
  listed player k := by
    constructor
    · intro h
      cases h
    · rintro ⟨ms, h, -⟩
      cases h
  two k ms h := by cases h
  below k ms h := by cases h

namespace Aligned

variable {s s' : Sessions} {player : PlayerId} {k : PartyId}

theorem of_same (h : s.Aligned) (hs : SameParties s s') : s'.Aligned where
  listed player k := by
    rw [hs.party?, hs.parties]
    exact h.listed player k
  two k ms hk := h.two k ms (hs.parties ▸ hk)
  below k ms hk := by
    rw [hs.parties] at hk
    rw [hs.nextParty]
    exact h.below k ms hk

theorem below_of_party? (h : s.Aligned) (hp : s.party? player = some k) : k.number < s.nextParty.number := by
  obtain ⟨ms, hk, -⟩ := (h.listed player k).1 hp
  exact h.below k ms hk

/-- The number of the next party is free. -/
theorem get?_nextParty (h : s.Aligned) : s.parties.get? s.nextParty = none := by
  cases hk : s.parties.get? s.nextParty with
  | none => rfl
  | some ms => exact absurd (h.below _ ms hk) (UInt32.lt_irrefl _)

end Aligned

/-- What is left of a list of members without some players; fewer than two names are no party. -/
def remainder (players ms : List PlayerId) : Option (List PlayerId) :=
  let rest := ms.filter (· ∉ players)
  if rest.length < 2 then none else some rest

theorem remainder_eq_some_iff {players ms rest : List PlayerId} :
    remainder players ms = some rest ↔ rest = ms.filter (· ∉ players) ∧ 2 ≤ rest.length := by
  unfold remainder
  simp only
  split
  · next hlt =>
    refine ⟨nofun, ?_⟩
    rintro ⟨rfl, h⟩
    omega
  · next hge =>
    refine ⟨fun h => ?_, fun h => by rw [h.1]⟩
    obtain rfl := Option.some.inj h
    exact ⟨rfl, by omega⟩

/-- Players may leave one after the other, for a list that got too short does not grow again. -/
theorem remainder_append (players players' ms : List PlayerId) :
    (remainder players ms).bind (remainder players') = remainder (players ++ players') ms := by
  have hfilter : ms.filter (· ∉ players ++ players') = (ms.filter (· ∉ players)).filter (· ∉ players') := by
    rw [List.filter_filter]
    refine List.filter_congr fun x _ => ?_
    simp [not_or, Bool.and_comm]
  refine Option.ext fun rest => ?_
  rw [Option.bind_eq_some_iff, remainder_eq_some_iff, hfilter]
  constructor
  · rintro ⟨ms', h, h'⟩
    rw [remainder_eq_some_iff] at h h'
    exact ⟨h.1 ▸ h'.1, h'.2⟩
  · rintro ⟨he, hlen⟩
    have hle : rest.length ≤ (ms.filter (· ∉ players)).length := he ▸ List.length_filter_le _ _
    exact ⟨_, remainder_eq_some_iff.2 ⟨rfl, by omega⟩, remainder_eq_some_iff.2 ⟨he, hlen⟩⟩

/-- Some players leave their parties: every party goes on with the others as long as two names are left, and everybody
else stays in a party that goes on. -/
structure Leaves (players : List PlayerId) (s s' : Sessions) : Prop where
  parties : ∀ k, s'.parties.get? k = (s.parties.get? k).bind (remainder players)
  party? : ∀ p, s'.party? p = if p ∈ players then none else (s.party? p).filter s'.parties.contains
  nextParty : s'.nextParty = s.nextParty

namespace Leaves

variable {players players' : List PlayerId} {s s' t u : Sessions}

theorem trans (h : Leaves players s t) (h' : Leaves players' t u) : Leaves (players ++ players') s u where
  parties k := by rw [h'.parties, h.parties, Option.bind_assoc, ← funext (remainder_append players players')]
  party? p := by
    have hcontains : ∀ k, u.parties.contains k = true → t.parties.contains k = true := fun k hk => by
      unfold Table.contains at hk ⊢
      rw [h'.parties] at hk
      exact Option.isSome_of_isSome_bind hk
    rw [h'.party?, h.party?]
    by_cases hp : p ∈ players <;> by_cases hp' : p ∈ players'
    · simp [hp]
    · simp [hp]
    · simp [hp']
    · simp only [hp, hp', List.mem_append, or_self, if_false]
      rw [Option.filter_filter]
      refine congrArg (Option.filter · (s.party? p)) (funext fun k => ?_)
      cases hk : u.parties.contains k with
      | false => exact Bool.and_false _
      | true => rw [hcontains k hk, Bool.and_true]
  nextParty := h'.nextParty.trans h.nextParty

theorem same (h : Leaves players s t) (hs : SameParties t u) : Leaves players s u where
  parties k := by rw [hs.parties, h.parties]
  party? p := by rw [hs.party?, h.party?, hs.parties]
  nextParty := hs.nextParty.trans h.nextParty

end Leaves

theorem Aligned.bind_remainder {s : Sessions} (h : s.Aligned) {players : List PlayerId} {k : PartyId}
    (hn : ∀ p ∈ players, s.party? p ≠ some k) : (s.parties.get? k).bind (remainder players) = s.parties.get? k := by
  cases hk : s.parties.get? k with
  | none => rfl
  | some ms =>
    refine remainder_eq_some_iff.2 ⟨(List.filter_eq_self.2 fun p hp => ?_).symm, h.two k ms hk⟩
    exact decide_eq_true fun hm => hn p hm ((h.listed p k).2 ⟨ms, hk, hp⟩)

theorem Aligned.leaves_of_outside {s : Sessions} (h : s.Aligned) {players : List PlayerId}
    (hp : ∀ p ∈ players, s.party? p = none) : Leaves players s s where
  parties k := (h.bind_remainder fun p hm => by rw [hp p hm]; nofun).symm
  party? p := by
    split
    · next hm => exact hp p hm
    · cases hk : s.party? p with
      | none => rfl
      | some k =>
        obtain ⟨ms, hms, -⟩ := (h.listed p k).1 hk
        rw [Option.filter_some, Table.contains, hms]
        rfl
  nextParty := rfl

/-- One party loses the player, and with it everybody if it is dissolved. -/
theorem Aligned.leaves_of_member {s s' : Sessions} (h : s.Aligned) {player : PlayerId} {k : PartyId}
    {ms : List PlayerId} (hp : s.party? player = some k) (hk : s.parties.get? k = some ms)
    (hparties : ∀ k', s'.parties.get? k' = if k = k' then remainder [player] ms else s.parties.get? k')
    (hself : s'.party? player = none)
    (hparty : ∀ p, p ≠ player → s'.party? p =
      if s.party? p = some k ∧ remainder [player] ms = none then none else s.party? p)
    (hnext : s'.nextParty = s.nextParty) : Leaves [player] s s' where
  parties k' := by
    rw [hparties]
    split
    · next he => rw [← he, hk, Option.bind_some]
    · next hne =>
      refine (h.bind_remainder fun p hm => ?_).symm
      rw [List.mem_singleton.1 hm, hp]
      exact fun he => hne (Option.some.inj he)
  party? p := by
    by_cases he : p = player
    · rw [if_pos (List.mem_singleton.2 he), he, hself]
    · rw [if_neg fun hm => he (List.mem_singleton.1 hm), hparty p he]
      cases hk' : s.party? p with
      | none => simp
      | some k' =>
        obtain ⟨ms', hms', -⟩ := (h.listed p k').1 hk'
        rw [Option.filter_some]
        unfold Table.contains
        rw [hparties]
        by_cases hkk : k = k'
        · subst hkk
          cases remainder [player] ms <;> simp
        · have hne : k' ≠ k := fun he => hkk he.symm
          simp [hkk, hne, hms']
  nextParty := hnext

theorem Aligned.leaves_leaveParty {s : Sessions} (h : s.Aligned) (player : PlayerId) :
    Leaves [player] s (s.leaveParty player) := by
  unfold leaveParty
  cases hp : (s.players.get? player).bind (·.party) with
  | none => exact h.leaves_of_outside fun p hm => by rw [List.mem_singleton.1 hm]; exact hp
  | some k =>
    obtain ⟨ms, hk, hm⟩ := (h.listed player k).1 hp
    have hk' : (s.clearParty player).parties.get? k = some ms := hk
    have hrest : ms.filter (· != player) = ms.filter (· ∉ [player]) :=
      List.filter_congr fun x _ => by rw [Bool.eq_iff_iff]; simp
    simp only [hk', hrest]
    split
    · next hlt =>
      have hdissolved : remainder [player] ms = none := if_pos hlt
      have hparties : ((ms.filter (· ∉ [player])).foldl clearParty (s.clearParty player)).parties = s.parties :=
        foldl_unchanged (f := clearParty) parties (fun _ _ => rfl) _ _
      have hparty : ∀ p, ((ms.filter (· ∉ [player])).foldl clearParty (s.clearParty player)).party? p =
          if p ∈ ms.filter (· ∉ [player]) then none else if player = p then none else s.party? p := fun p => by
        rw [party?_foldl_clearParty, party?_clearParty]
      refine h.leaves_of_member hp hk (fun k' => ?_) ((hparty player).trans ?_) (fun p hne => (hparty p).trans ?_)
        (foldl_unchanged (f := clearParty) nextParty (fun _ _ => rfl) _ _)
      · show (Table.erase _ k).get? k' = _
        rw [Table.get?_erase, hparties, hdissolved]
      · simp
      · have hne' : player ≠ p := fun he => hne he.symm
        have hmem : s.party? p = some k ↔ p ∈ ms := by
          rw [h.listed, hk]
          simp
        simp [hne, hne', hdissolved, hmem]
    · next hge =>
      have hgoes : remainder [player] ms = some (ms.filter (· ∉ [player])) := if_neg hge
      refine h.leaves_of_member hp hk (fun k' => ?_) ((party?_clearParty s player player).trans (if_pos rfl))
        (fun p hne => (party?_clearParty s player p).trans ?_) rfl
      · rw [hgoes]
        exact Table.get?_insert s.parties k k' _
      · have hne' : player ≠ p := fun he => hne he.symm
        simp [hne', hgoes]

theorem Leaves.get?_parties_eq_some_iff {players rest : List PlayerId} {s s' : Sessions} {k : PartyId}
    (h : Leaves players s s') : s'.parties.get? k = some rest ↔
      ∃ ms, s.parties.get? k = some ms ∧ rest = ms.filter (· ∉ players) ∧ 2 ≤ rest.length := by
  rw [h.parties, Option.bind_eq_some_iff]
  exact exists_congr fun ms => and_congr_right fun _ => remainder_eq_some_iff

theorem Aligned.of_leaves {s s' : Sessions} {players : List PlayerId} (h : s.Aligned) (hl : Leaves players s s') :
    s'.Aligned where
  listed p k := by
    constructor
    · intro hp
      rw [hl.party?] at hp
      split at hp
      · cases hp
      · next hout =>
        obtain ⟨hp, hk⟩ := Option.filter_eq_some_iff.1 hp
        obtain ⟨rest, hrest⟩ := Option.isSome_iff_exists.1 hk
        obtain ⟨ms, hms, rfl, -⟩ := hl.get?_parties_eq_some_iff.1 hrest
        obtain ⟨ms', hms', hm⟩ := (h.listed p k).1 hp
        obtain rfl := Option.some.inj (hms.symm.trans hms')
        exact ⟨_, hrest, List.mem_filter.2 ⟨hm, decide_eq_true hout⟩⟩
    · rintro ⟨rest, hrest, hm⟩
      obtain ⟨ms, hms, rfl, -⟩ := hl.get?_parties_eq_some_iff.1 hrest
      obtain ⟨hm, hout⟩ := List.mem_filter.1 hm
      rw [hl.party?, if_neg (of_decide_eq_true hout)]
      exact Option.filter_eq_some_iff.2 ⟨(h.listed p k).2 ⟨ms, hms, hm⟩, Option.isSome_iff_exists.2 ⟨_, hrest⟩⟩
  two k rest hrest := by
    obtain ⟨-, -, -, htwo⟩ := hl.get?_parties_eq_some_iff.1 hrest
    exact htwo
  below k rest hrest := by
    obtain ⟨ms, hms, -, -⟩ := hl.get?_parties_eq_some_iff.1 hrest
    rw [hl.nextParty]
    exact h.below k ms hms

theorem Aligned.leaves_foldl {s : Sessions} (h : s.Aligned) (players : List PlayerId) :
    Leaves players s (players.foldl leaveParty s) := by
  induction players generalizing s with
  | nil => exact h.leaves_of_outside nofun
  | cons a rest ih =>
    have ha := h.leaves_leaveParty a
    exact ha.trans (ih (h.of_leaves ha))

/-- Who leaves the game leaves the party, and then nobody's party depends on the one who is gone. -/
theorem Aligned.leaves_leave {s : Sessions} (h : s.Aligned) (player : PlayerId) :
    Leaves [player] s (s.leave player).1 := by
  have hl := h.leaves_leaveParty player
  refine hl.same ⟨fun p => ?_, rfl, rfl⟩
  show ((Table.erase _ player).get? p).bind _ = _
  rw [Table.get?_erase]
  split
  · next he => rw [← he, hl.party?, if_pos (List.mem_singleton_self player)]; rfl
  · rfl

theorem Regroups.contains {s s' : Sessions} (h : Regroups s s') (player : PlayerId) :
    s'.players.contains player = s.players.contains player := by
  have ha := congrArg Option.isSome (h.alone player)
  rwa [Option.isSome_map, Option.isSome_map] at ha

/-- The members enter a new party. -/
def found (s : Sessions) (members : List PlayerId) : Sessions :=
  let t := members.foldl (enterParty s.nextParty) { s with nextParty := ⟨s.nextParty.number + 1⟩ }
  { t with parties := t.parties.insert s.nextParty members }

theorem formParty_eq (s : Sessions) (names : List PlayerId) : s.formParty names =
    if (s.known names).length < 2 then .ok (s, none)
    else if ((s.known names).foldl leaveParty s).nextParty.number.toNat + 1 < UInt32.size then
      .ok (((s.known names).foldl leaveParty s).found (s.known names),
        some ((s.known names).foldl leaveParty s).nextParty)
    else .error (.partyNumber, (s.known names).foldl leaveParty s) := rfl

theorem parties_found (s : Sessions) (members : List PlayerId) :
    (s.found members).parties = s.parties.insert s.nextParty members :=
  congrArg (Table.insert · _ _) (foldl_unchanged (f := enterParty _) parties (fun _ _ => rfl) _ _)

theorem nextParty_found (s : Sessions) (members : List PlayerId) :
    (s.found members).nextParty = ⟨s.nextParty.number + 1⟩ :=
  foldl_unchanged (f := enterParty _) nextParty (fun _ _ => rfl) _ _

theorem party?_found {s : Sessions} {members : List PlayerId} (h : ∀ p ∈ members, s.players.contains p)
    (player : PlayerId) :
    (s.found members).party? player = if player ∈ members then some s.nextParty else s.party? player := by
  refine (party?_foldl_enterParty _ _ _ player).trans ?_
  split
  · next hm =>
    obtain ⟨p, hp⟩ := Option.isSome_iff_exists.1 (h player hm)
    exact congrArg (Option.map _) hp
  · rfl

theorem Aligned.found {s : Sessions} (h : s.Aligned) {members : List PlayerId}
    (hm : ∀ p ∈ members, s.players.contains p) (hout : ∀ p ∈ members, s.party? p = none) (htwo : 2 ≤ members.length)
    (hsize : s.nextParty.number.toNat + 1 < UInt32.size) : (s.found members).Aligned where
  listed p k := by
    rw [party?_found hm, parties_found, Table.get?_insert]
    by_cases hp : p ∈ members <;> by_cases hk : s.nextParty = k
    · simp [hp, hk]
    · have hn : ∀ ms, s.parties.get? k = some ms → p ∉ ms := fun ms hms hin => by
        have hparty := (h.listed p k).2 ⟨ms, hms, hin⟩
        rw [hout p hp] at hparty
        cases hparty
      simpa [hp, hk] using hn
    · have hn : s.party? p ≠ some k := fun hparty => by
        have hlt := h.below_of_party? hparty
        rw [hk] at hlt
        exact UInt32.lt_irrefl _ hlt
      simp [hp, hk, hn]
    · simp only [hp, hk, if_false]
      exact h.listed p k
  two k ms hk := by
    rw [parties_found, Table.get?_insert] at hk
    split at hk
    · obtain rfl := Option.some.inj hk
      exact htwo
    · exact h.two k ms hk
  below k ms hk := by
    have hnext : (s.nextParty.number + 1).toNat = s.nextParty.number.toNat + 1 := by
      rw [UInt32.toNat_add]
      exact Nat.mod_eq_of_lt hsize
    rw [parties_found, Table.get?_insert] at hk
    rw [nextParty_found, UInt32.lt_iff_toNat_lt, hnext]
    split at hk
    · next he =>
      rw [← he]
      exact Nat.lt_succ_self _
    · exact Nat.lt_succ_of_lt (UInt32.lt_iff_toNat_lt.1 (h.below k ms hk))

/-- The members leave their parties, if they are in any, and then they have a new one. -/
inductive Forms (members : List PlayerId) (s : Sessions) : Sessions → Prop where
  | intro {t : Sessions} (two : 2 ≤ members.length) (leaves : Leaves members s t)
      (present : ∀ p ∈ members, t.players.contains p) (size : t.nextParty.number.toNat + 1 < UInt32.size) :
      Forms members s (t.found members)

namespace Forms

variable {members : List PlayerId} {s s' : Sessions}

theorem two (h : Forms members s s') : 2 ≤ members.length := by
  obtain ⟨two, -, -, -⟩ := h
  exact two

theorem parties (h : Forms members s s') (k : PartyId) : s'.parties.get? k =
    if s.nextParty = k then some members else (s.parties.get? k).bind (remainder members) := by
  obtain ⟨-, leaves, -, -⟩ := h
  rw [parties_found, Table.get?_insert, leaves.parties, leaves.nextParty]

theorem nextParty (h : Forms members s s') : s'.nextParty.number.toNat = s.nextParty.number.toNat + 1 := by
  obtain ⟨-, leaves, -, size⟩ := h
  rw [nextParty_found, UInt32.toNat_add, ← leaves.nextParty]
  exact Nat.mod_eq_of_lt size

theorem party?_of_notMem (h : Forms members s s') (ha : s.Aligned) {player : PlayerId} (hp : player ∉ members) :
    s'.party? player = (s.party? player).filter s'.parties.contains := by
  obtain ⟨-, leaves, present, -⟩ := h
  rw [party?_found present, if_neg hp, leaves.party?, if_neg hp]
  cases hk : s.party? player with
  | none => rfl
  | some k =>
    have hne : s.nextParty ≠ k := fun he => UInt32.lt_irrefl k.number <| by
      have hlt := ha.below_of_party? hk
      rwa [he] at hlt
    rw [Option.filter_some, Option.filter_some, parties_found, Table.contains, Table.contains, Table.get?_insert,
      leaves.nextParty, if_neg hne]

theorem aligned (h : Forms members s s') (ha : s.Aligned) : s'.Aligned := by
  obtain ⟨two, leaves, present, size⟩ := h
  refine (ha.of_leaves leaves).found present (fun p hp => ?_) two size
  rw [leaves.party?, if_pos hp]

end Forms

theorem Aligned.formParty_cases {s s' : Sessions} {names : List PlayerId} {party : Option PartyId} (h : s.Aligned)
    (hf : s.formParty names = .ok (s', party)) :
    (s.known names).length < 2 ∧ party = none ∧ s' = s ∨ party = some s.nextParty ∧ Forms (s.known names) s s' := by
  have hl := h.leaves_foldl (s.known names)
  rw [formParty_eq] at hf
  split at hf
  · next hlt =>
    cases hf
    exact .inl ⟨hlt, rfl, rfl⟩
  · next hge =>
    split at hf
    · next hsize =>
      cases hf
      refine .inr ⟨by rw [hl.nextParty], .intro (by omega) hl (fun p hm => ?_) hsize⟩
      rw [(regroups_foldl regroups_leaveParty (s.known names) s).contains p]
      exact (List.mem_filter.1 hm).2
    · cases hf

/-- When there is no number left, the members have left their parties for nothing. -/
theorem Aligned.leaves_of_unnumbered {s s' : Sessions} {names : List PlayerId} {fault : Fault} (h : s.Aligned)
    (hf : s.formParty names = .error (fault, s')) : Leaves (s.known names) s s' := by
  rw [formParty_eq] at hf
  split at hf
  · cases hf
  · split at hf
    · cases hf
    · cases hf
      exact h.leaves_foldl (s.known names)

theorem Aligned.exists_formParty {s : Sessions} (h : s.Aligned) (names : List PlayerId)
    (hn : s.nextParty.number.toNat + 1 < UInt32.size) : ∃ s' party, s.formParty names = .ok (s', party) := by
  have hl := h.leaves_foldl (s.known names)
  rw [formParty_eq, hl.nextParty, if_pos hn]
  split <;> exact ⟨_, _, rfl⟩

/-- Besides the players named only the members of parties that are dissolved lose their party, and a party without a
named member stays as it is. -/
structure Confined (named : List PlayerId) (s s' : Sessions) : Prop where
  party? : ∀ player, player ∉ named → s'.party? player = s.party? player ∨
    s'.party? player = none ∧ ∃ k ms, s.parties.get? k = some ms ∧ player ∈ ms ∧ s'.parties.get? k = none
  parties : ∀ k ms, s.parties.get? k = some ms → (∀ player ∈ named, player ∉ ms) → s'.parties.get? k = some ms

namespace Aligned

variable {s s' : Sessions} {named : List PlayerId}

theorem stays_or_dissolved (h : s.Aligned) {player : PlayerId}
    (hp : s'.party? player = (s.party? player).filter s'.parties.contains) :
    s'.party? player = s.party? player ∨
      s'.party? player = none ∧ ∃ k ms, s.parties.get? k = some ms ∧ player ∈ ms ∧ s'.parties.get? k = none := by
  cases hk : s.party? player with
  | none =>
    rw [hk] at hp
    exact .inl hp
  | some k =>
    rw [hk, Option.filter_some] at hp
    obtain ⟨ms, hms, hm⟩ := (h.listed player k).1 hk
    split at hp
    · exact .inl hp
    · next hgone => exact .inr ⟨hp, k, ms, hms, hm, Option.not_isSome_iff_eq_none.1 hgone⟩

theorem bind_remainder_of_notMem (h : s.Aligned) {k : PartyId} {ms : List PlayerId} (hk : s.parties.get? k = some ms)
    (hn : ∀ p ∈ named, p ∉ ms) : (s.parties.get? k).bind (remainder named) = some ms := by
  refine (h.bind_remainder fun p hp hparty => ?_).trans hk
  obtain ⟨ms', hk', hm⟩ := (h.listed p k).1 hparty
  obtain rfl := Option.some.inj (hk.symm.trans hk')
  exact hn p hp hm

theorem confined_of_leaves (h : s.Aligned) (hl : Leaves named s s') : Confined named s s' where
  party? player hp := h.stays_or_dissolved (by rw [hl.party?, if_neg hp])
  parties k ms hk hn := by rw [hl.parties, h.bind_remainder_of_notMem hk hn]

theorem confined_of_forms (h : s.Aligned) {names : List PlayerId} (hf : Forms (s.known names) s s') :
    Confined names s s' where
  party? player hp := h.stays_or_dissolved (hf.party?_of_notMem h fun hm => hp (List.mem_filter.1 hm).1)
  parties k ms hk hn := by
    have hne : s.nextParty ≠ k := fun he => by
      rw [← he, h.get?_nextParty] at hk
      cases hk
    have hmembers : ∀ p ∈ s.known names, p ∉ ms := fun p hp => hn p (List.mem_filter.1 hp).1
    rw [hf.parties, if_neg hne, h.bind_remainder_of_notMem hk hmembers]

end Aligned

theorem Confined.refl (named : List PlayerId) (s : Sessions) : Confined named s s :=
  ⟨fun _ _ => .inl rfl, fun _ _ hk _ => hk⟩

theorem Confined.mono {named named' : List PlayerId} {s s' : Sessions} (h : Confined named s s')
    (hsub : ∀ player ∈ named, player ∈ named') : Confined named' s s' where
  party? player hp := h.party? player fun hm => hp (hsub player hm)
  parties k ms hk hn := h.parties k ms hk fun player hm => hn player (hsub player hm)

end Sessions

end Questline
