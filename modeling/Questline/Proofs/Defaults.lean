import Mathlib.Data.List.Forall2
import Questline.Definition.File
import Questline.Proofs.Drafts

/-!
# Parts that quest files leave out

A part of a quest table may be left out where it holds its default: in the table itself, in a drop and in the reward. All
that is read stays the same, but for one thing. A reward all of which is left out is still paid in the base currency as long
as its table is there; without the table it is paid in item 0.
-/

namespace Questline

open Toml (Value)
open Toml.Value (required withDefault)

namespace Toml

variable {α : Type}

/-- A part that may be missing is abridged within, or it is dropped because it reads as the default. -/
inductive Abridges (default : α) (read : Value → Option α) (within : Value → Value → Prop) :
    Option Value → Option Value → Prop
  | missing : Abridges default read within none none
  | kept {v v' : Value} (h : within v v') : Abridges default read within (some v) (some v')
  | dropped {v : Value} (h : read v = some default) : Abridges default read within (some v) none

inductive Elementwise (within : Value → Value → Prop) : Value → Value → Prop
  | array {vs vs' : List Value} (h : List.Forall₂ within vs vs') : Elementwise within (.array vs) (.array vs')

variable {default : α} {read : Value → Option α} {within : Value → Value → Prop} {f f' : Option Value}

theorem Abridges.kept_or_dropped (h : Abridges default read within f f')
    (hwithin : ∀ {v v'}, within v v' → read v' = read v) :
    (∀ other, withDefault other read f' = withDefault other read f) ∧ (f.isSome → f'.isSome) ∨
      ∃ v, f = some v ∧ f' = none ∧ read v = some default := by
  cases h with
  | missing => exact .inl ⟨fun _ => rfl, fun h => h⟩
  | kept h => exact .inl ⟨fun _ => hwithin h, fun _ => rfl⟩
  | dropped h => exact .inr ⟨_, rfl, rfl, h⟩

/-- Nothing is lost if the same default is taken for a part that is missing. -/
theorem Abridges.withDefault_eq (h : Abridges default read within f f')
    (hwithin : ∀ {v v'}, within v v' → read v' = read v) : withDefault default read f' = withDefault default read f := by
  obtain ⟨hkept, -⟩ | ⟨v, rfl, rfl, hv⟩ := h.kept_or_dropped hwithin
  · exact hkept default
  · exact hv.symm

theorem Abridges.withDefault_eq_of_whole (h : Abridges default read Eq f f') :
    withDefault default read f' = withDefault default read f :=
  h.withDefault_eq fun he => congrArg read he.symm

theorem Elementwise.list?_eq {v v' : Value} (h : Elementwise within v v')
    (hwithin : ∀ {v v'}, within v v' → read v' = read v) : v'.list? read = v.list? read := by
  obtain ⟨h⟩ := h
  show List.mapM read _ = List.mapM read _
  induction h with
  | nil => rfl
  | cons h _ ih => rw [List.mapM_cons, List.mapM_cons, hwithin h, ih]

theorem parse?_ofList {cs : List Char} (h : cs.head? ≠ some '\ufeff') :
    parse? (String.ofList cs) = (readStatements (cs.length + 1) cs).bind assemble := by
  unfold parse?
  rw [String.toList_ofList]
  split
  · exact absurd rfl h
  · rfl

end Toml

open Toml (Elementwise)

namespace Drop

inductive Abridges : Value → Value → Prop
  | intro {v v' : Value} {npc item count count' max max' : Option Value}
      (before : v.record? ["npc", "item", "count", "max"] = some [npc, item, count, max])
      (after : v'.record? ["npc", "item", "count", "max"] = some [npc, item, count', max'])
      (count : Toml.Abridges 1 Value.uint32? Eq count count') (max : Toml.Abridges 1 Value.uint32? Eq max max') :
      Abridges v v'

theorem Abridges.ofToml?_eq {v v' : Value} (h : Abridges v v') : ofToml? v' = ofToml? v := by
  obtain ⟨hv, hv', hcount, hmax⟩ := h
  unfold ofToml?
  rw [hv, hv']
  dsimp only [Option.bind_eq_bind, Option.bind_some]
  rw [hcount.withDefault_eq_of_whole, hmax.withDefault_eq_of_whole]

end Drop

namespace Reward

def unstated : Reward := ⟨baseCurrency, 0, false⟩

inductive Abridges : Value → Value → Prop
  | intro {v v' : Value} {currency currency' amount amount' repeatable repeatable' : Option Value}
      (before : v.record? ["currency", "amount", "repeatable"] = some [currency, amount, repeatable])
      (after : v'.record? ["currency", "amount", "repeatable"] = some [currency', amount', repeatable'])
      (currency : Toml.Abridges baseCurrency readId? Eq currency currency')
      (amount : Toml.Abridges 0 Value.int64? Eq amount amount')
      (repeatable : Toml.Abridges false Value.boolean? Eq repeatable repeatable') :
      Abridges v v'

theorem Abridges.ofToml?_eq {v v' : Value} (h : Abridges v v') : ofToml? v' = ofToml? v := by
  obtain ⟨hv, hv', hcurrency, hamount, hrepeatable⟩ := h
  unfold ofToml?
  rw [hv, hv']
  dsimp only [Option.bind_eq_bind, Option.bind_some]
  rw [hcurrency.withDefault_eq_of_whole, hamount.withDefault_eq_of_whole, hrepeatable.withDefault_eq_of_whole]

end Reward

namespace Draft

/-- The parts of a quest table before they are read. -/
structure Parts where
  id : Option Value
  name : Option Value
  description : Option Value
  script : Option Value
  levelRequired : Option Value
  startNpcs : Option Value
  talkNpcs : Option Value
  questItems : Option Value
  npcs : Option Value
  drops : Option Value
  rewards : Option Value

def parts? (v : Value) : Option Parts := do
  let [id, name, description, script, levelRequired, startNpcs, talkNpcs, questItems, npcs, drops, rewards] ←
    v.record? ["id", "name", "description", "script", "level_required", "start_npcs", "talk_npcs",
      "quest_items", "npcs", "drops", "rewards"] | none
  return ⟨id, name, description, script, levelRequired, startNpcs, talkNpcs, questItems, npcs, drops, rewards⟩

/-- Each part reads as the draft has it. -/
structure Parts.Read (p : Parts) (d : Draft) : Prop where
  id : required readId? p.id = some d.id
  name : required Value.string? p.name = some d.name
  description : withDefault "" Value.string? p.description = some d.description
  script : required Value.string? p.script = some d.script
  levelRequired : withDefault 0 Value.int32? p.levelRequired = some d.levelRequired
  startNpcs : withDefault [] (Value.list? readId?) p.startNpcs = some d.startNpcs
  talkNpcs : withDefault [] (Value.list? readId?) p.talkNpcs = some d.talkNpcs
  questItems : withDefault [] (Value.list? readId?) p.questItems = some d.questItems
  npcs : required readEnds? p.npcs = some (d.giver, d.turnIn)
  drops : withDefault [] (Value.list? Drop.ofToml?) p.drops = some d.drops
  reward : withDefault .nothing Reward.ofToml? p.rewards = some d.reward

/-- Parts with their defaults are dropped, and drops and rewards that stay are abridged themselves. -/
structure Parts.Abridges (p p' : Parts) : Prop where
  id : p'.id = p.id
  name : p'.name = p.name
  description : Toml.Abridges "" Value.string? Eq p.description p'.description
  script : p'.script = p.script
  levelRequired : Toml.Abridges 0 Value.int32? Eq p.levelRequired p'.levelRequired
  startNpcs : Toml.Abridges ([] : List NpcId) (Value.list? readId?) Eq p.startNpcs p'.startNpcs
  talkNpcs : Toml.Abridges ([] : List NpcId) (Value.list? readId?) Eq p.talkNpcs p'.talkNpcs
  questItems : Toml.Abridges ([] : List ItemId) (Value.list? readId?) Eq p.questItems p'.questItems
  npcs : p'.npcs = p.npcs
  drops : Toml.Abridges [] (Value.list? Drop.ofToml?) (Elementwise Drop.Abridges) p.drops p'.drops
  rewards : Toml.Abridges .unstated Reward.ofToml? Reward.Abridges p.rewards p'.rewards

/-- The reward as a whole is not dropped. -/
def Parts.KeepsReward (p p' : Parts) : Prop := p.rewards.isSome → p'.rewards.isSome

theorem ofToml?_eq_some_iff {v : Value} {d : Draft} : ofToml? v = some d ↔ ∃ p, parts? v = some p ∧ p.Read d := by
  unfold ofToml? parts?
  simp only [Option.bind_eq_bind]
  cases v.record? _ with
  | none => simp
  | some fields =>
    simp only [Option.bind_some]
    split
    · constructor
      · intro h
        simp only [Option.bind_eq_some_iff] at h
        obtain ⟨⟨giver, turnIn⟩, hnpcs, _, hid, _, hname, _, hdescription, _, hscript, _, hlevel, _, hstarts, _, htalks,
          _, hitems, _, hdrops, _, hreward, h⟩ := h
        obtain rfl := Option.some.inj h
        exact ⟨_, rfl, hid, hname, hdescription, hscript, hlevel, hstarts, htalks, hitems, hnpcs, hdrops, hreward⟩
      · rintro ⟨p, hp, h⟩
        obtain rfl := Option.some.inj hp
        obtain ⟨hid, hname, hdescription, hscript, hlevel, hstarts, htalks, hitems, hnpcs, hdrops, hreward⟩ := h
        dsimp only at *
        simp only [hid, hname, hdescription, hscript, hlevel, hstarts, htalks, hitems, hnpcs, hdrops, hreward,
          Option.bind_some]
        rfl
    · simp

variable {v v' : Value} {d : Draft} {p p' : Parts}

/-- The reward as a whole has a default of its own. -/
theorem Parts.Abridges.reward (ha : p.Abridges p') (h : p.Read d) :
    ∃ reward, withDefault .nothing Reward.ofToml? p'.rewards = some reward ∧
      (p.KeepsReward p' ∧ reward = d.reward ∨ ¬ p.KeepsReward p' ∧ reward = .nothing ∧ d.reward = .unstated) := by
  have hreward := h.reward
  obtain ⟨hkept, hkeeps⟩ | ⟨v, hbefore, hafter, hv⟩ := ha.rewards.kept_or_dropped Reward.Abridges.ofToml?_eq
  · exact ⟨d.reward, (hkept _).trans hreward, .inl ⟨hkeeps, rfl⟩⟩
  · rw [hbefore] at hreward
    rw [Parts.KeepsReward, hbefore, hafter]
    exact ⟨.nothing, rfl, .inr ⟨fun hkeeps => Bool.false_ne_true (hkeeps rfl), rfl, Option.some.inj (hreward.symm.trans hv)⟩⟩

theorem Parts.Abridges.read (ha : p.Abridges p') (h : p.Read d) {reward : Reward}
    (hr : withDefault .nothing Reward.ofToml? p'.rewards = some reward) : p'.Read { d with reward } where
  id := ha.id ▸ h.id
  name := ha.name ▸ h.name
  description := ha.description.withDefault_eq_of_whole.trans h.description
  script := ha.script ▸ h.script
  levelRequired := ha.levelRequired.withDefault_eq_of_whole.trans h.levelRequired
  startNpcs := ha.startNpcs.withDefault_eq_of_whole.trans h.startNpcs
  talkNpcs := ha.talkNpcs.withDefault_eq_of_whole.trans h.talkNpcs
  questItems := ha.questItems.withDefault_eq_of_whole.trans h.questItems
  npcs := ha.npcs ▸ h.npcs
  drops := (ha.drops.withDefault_eq fun he => he.list?_eq Drop.Abridges.ofToml?_eq).trans h.drops
  reward := hr

end Draft

namespace Definition

theorem ofDraft_reward (d : Draft) (reward : Reward) :
    ofDraft { d with reward } = (ofDraft d).map fun q => { q with reward } := by
  unfold ofDraft
  dsimp only
  repeat (split; · rfl)
  cases assignMonsters d.questItems [] ((Table.empty.insert d.giver .giver).insert d.turnIn .turnIn) d.drops with
  | error => rfl
  | ok => rfl

theorem ofDraft_reward_eq_iff (d : Draft) (reward : Reward) :
    ofDraft { d with reward } = ofDraft d ↔ reward = d.reward ∨ ∃ flaw, ofDraft d = .error flaw := by
  rw [ofDraft_reward]
  cases hd : ofDraft d with
  | error flaw => exact iff_of_true rfl (.inr ⟨flaw, rfl⟩)
  | ok q =>
    obtain rfl := toDraft_of_ofDraft hd
    constructor
    · intro h
      exact .inl (congrArg (·.reward) (Except.ok.inj h))
    · rintro (rfl | ⟨flaw, h⟩)
      · rfl
      · cases h

end Definition

namespace Draft

/-- However a quest table that can be read is abridged, it can still be read, and all but the reward is the same. The draft
is the same exactly when the reward as a whole is not dropped, and so is what the checks make of it, unless it is refused.
When the reward is dropped, the quest pays in item 0 what it paid in the base currency. -/
theorem abridged_same_iff {v v' : Value} {d : Draft} {p p' : Parts} (hd : ofToml? v = some d) (hp : parts? v = some p)
    (hp' : parts? v' = some p') (ha : p.Abridges p') :
    ∃ d', ofToml? v' = some d' ∧ { d' with reward := d.reward } = d ∧
      (Definition.ofDraft d' = (Definition.ofDraft d).map fun q => { q with reward := d'.reward }) ∧
      (d' = d ↔ p.KeepsReward p') ∧
      (Definition.ofDraft d' = Definition.ofDraft d ↔ p.KeepsReward p' ∨ ∃ flaw, Definition.ofDraft d = .error flaw) ∧
      (¬ p.KeepsReward p' → d'.reward = .nothing ∧ d.reward = .unstated) := by
  obtain ⟨_, hparts, hread⟩ := ofToml?_eq_some_iff.1 hd
  obtain rfl := Option.some.inj (hp.symm.trans hparts)
  obtain ⟨reward, hreward, hcases⟩ := ha.reward hread
  have hsame : reward = d.reward ↔ p.KeepsReward p' := by
    rcases hcases with ⟨hkeeps, he⟩ | ⟨hkeeps, hnothing, hunstated⟩
    · exact iff_of_true he hkeeps
    · refine iff_of_false ?_ hkeeps
      rw [hnothing, hunstated]
      decide
  refine ⟨{ d with reward }, ofToml?_eq_some_iff.2 ⟨p', hp', ha.read hread hreward⟩, rfl,
    Definition.ofDraft_reward d reward, ?_, ?_, fun hdropped => ?_⟩
  · rw [← hsame]
    exact ⟨congrArg Draft.reward, fun he => he ▸ rfl⟩
  · rw [← hsame]
    exact Definition.ofDraft_reward_eq_iff d reward
  · exact (hcases.resolve_left fun h => hdropped h.1).2

/-- A quest that anybody may take, for which nothing but the amount of the reward and what has no default is said. -/
theorem abridged_same_iff_sparse :
    let drop (rest : List (String × Value)) : Value := .table (("npc", .integer 18571) :: ("item", .integer 13838) :: rest)
    let quest (drop rewards : Value) (rest : List (String × Value)) : Value :=
      .table ([("id", .integer 10280), ("name", .string "Kaneus"), ("script", .string "mutated_kaneus"),
        ("start_npcs", .array [.integer 31981]), ("talk_npcs", .array [.integer 31981, .integer 31972]),
        ("quest_items", .array [.integer 13838]), ("npcs", .array [.integer 31981, .integer 31972]),
        ("drops", .array [drop]), ("rewards", rewards)] ++ rest)
    let v := quest (drop [("count", .integer 1), ("max", .integer 1)])
      (.table [("currency", .integer 57), ("amount", .integer 210000), ("repeatable", .boolean false)])
      [("description", .string ""), ("level_required", .integer 0)]
    let v' := quest (drop []) (.table [("amount", .integer 210000)]) []
    let d : Draft := ⟨⟨10280⟩, "Kaneus", "", "mutated_kaneus", 0, [⟨31981⟩], [⟨31981⟩, ⟨31972⟩], [⟨13838⟩], ⟨31981⟩, ⟨31972⟩,
      [⟨⟨18571⟩, ⟨13838⟩, 1, 1⟩], ⟨⟨57⟩, 210000, false⟩⟩
    ofToml? v = some d ∧ ofToml? v' = some d ∧ ∃ p p', parts? v = some p ∧ parts? v' = some p' ∧ p.Abridges p' := by
  intro drop quest v v' d
  have hd : ofToml? v = some d := by decide +kernel
  have hdrop : Drop.Abridges (drop [("count", .integer 1), ("max", .integer 1)]) (drop []) :=
    .intro rfl rfl (.dropped rfl) (.dropped rfl)
  have hreward : Reward.Abridges
      (.table [("currency", .integer 57), ("amount", .integer 210000), ("repeatable", .boolean false)])
      (.table [("amount", .integer 210000)]) :=
    .intro rfl rfl (.dropped rfl) (.kept rfl) (.dropped rfl)
  have hp' : parts? v' = some ((parts? v').get rfl) := rfl
  have ha : ((parts? v).get rfl).Abridges ((parts? v').get rfl) := {
    id := rfl
    name := rfl
    description := .dropped rfl
    script := rfl
    levelRequired := .dropped rfl
    startNpcs := .kept rfl
    talkNpcs := .kept rfl
    questItems := .kept rfl
    npcs := rfl
    drops := .kept (Elementwise.array (.cons hdrop .nil))
    rewards := .kept hreward }
  obtain ⟨d', hd', -, -, hsame, -⟩ := abridged_same_iff hd rfl hp' ha
  exact ⟨hd, hsame.2 (fun _ => rfl) ▸ hd', _, _, rfl, hp', ha⟩

def bareText : String :=
  "[quest]\nid=1\nname=\"k\"\nscript=\"mutated_kaneus\"\nstart_npcs=[2]\ntalk_npcs=[2,3]\nquest_items=[5]\nnpcs=[2,3]\ndrops=[[4,5]]\n"

/-- Whether the table of the reward is there and empty or not there at all, the quest is accepted. It pays in the base
currency in the one case and in item 0 in the other. -/
theorem ofText?_without_rewards :
    let d (currency : ItemId) : Draft :=
      ⟨⟨1⟩, "k", "", "mutated_kaneus", 0, [⟨2⟩], [⟨2⟩, ⟨3⟩], [⟨5⟩], ⟨2⟩, ⟨3⟩, [⟨⟨4⟩, ⟨5⟩, 1, 1⟩], ⟨currency, 0, false⟩⟩
    ofText? (bareText ++ "[quest.rewards]\n") = some (d ⟨57⟩) ∧ ofText? bareText = some (d ⟨0⟩) ∧
      (Definition.ofDraft (d ⟨57⟩)).map (·.reward.currency) = .ok ⟨57⟩ ∧
      (Definition.ofDraft (d ⟨0⟩)).map (·.reward.currency) = .ok ⟨0⟩ := by
  intro d
  refine ⟨?_, ?_, rfl, rfl⟩
  · rw [ofText?, bareText, ← String.ofList_append, Toml.parse?_ofList (by decide)]
    decide +kernel
  · rw [ofText?, bareText, Toml.parse?_ofList (by decide)]
    decide +kernel

end Draft

end Questline
