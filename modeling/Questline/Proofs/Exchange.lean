import Questline.Effect
import Questline.Event
import Questline.Proofs.Json
import Mathlib.Logic.Function.Basic

/-!
# Events and effects survive being exchanged

Events come in and effects go out as texts. A value is one key, its tag, over a record whose fields have different
names; so what is written is of the plain form that the reader takes back, the tag tells which kind of value it is,
and the fields are found under their names. Everything else follows from reading back what was written.
-/

namespace Questline

open Json (Plain)

/-- What is written is read back unchanged. So different values are written differently, and a text that came from
elsewhere and was accepted may be replaced by the one that is written for its value: it is read as the same value, and
is written again as it stands. -/
structure Faithful {α : Type} (write : α → String) (read : String → Option α) : Prop where
  read_write : ∀ a, read (write a) = some a
  write_injective : Function.Injective write
  rewritten : ∀ text a, read text = some a →
    read (write a) = read text ∧ (read (write a)).map write = some (write a)

theorem Faithful.of_read_write {α : Type} {write : α → String} {read : String → Option α}
    (h : ∀ a, read (write a) = some a) : Faithful write read where
  read_write := h
  write_injective a b he := by
    have hread := congrArg read he
    simpa [h] using hread
  rewritten text a ha := by simp [h, ha]

namespace Event

def tag : Event → String
  | .npcTalk .. => "NpcTalk"
  | .dialogueChoice .. => "DialogueChoice"
  | .npcKilled .. => "NpcKilled"

def fields : Event → List (String × Json)
  | .npcTalk player npc => [("player_id", .ofString player), ("npc_id", .ofNat npc.number.toNat)]
  | .dialogueChoice player quest token =>
    [("player_id", .ofString player), ("quest_id", .ofNat quest.number.toNat), ("token", .ofString token)]
  | .npcKilled player npc => [("player_id", .ofString player), ("npc_id", .ofNat npc.number.toNat)]

theorem tagged (e : Event) : e.toJson.Tagged e.tag e.fields := by
  cases e
  all_goals exact {
    eq := rfl
    plain := by simp [fields, Plain.string, Json.plain_ofNat]
    nodup := by simp [fields] }

theorem ofJson?_toJson (e : Event) : ofJson? e.toJson = some e := by
  have hrecord := e.tagged.record?_eq
  rw [ofJson?, e.tagged.variant?_eq]
  cases e
  all_goals
    simp only [fields, List.map_cons, List.map_nil] at hrecord
    simp [tag, fields, hrecord]

theorem ofText?_toText (e : Event) : ofText? e.toText = some e := by
  simp [ofText?, toText, e.tagged.parse?_render, ofJson?_toJson]

end Event

namespace Effect

theorem readSound_name (sound : Sound) : readSound (.ofString sound.name) = some sound := by
  cases sound <;> simp [readSound, Sound.name, Sound.ofName?]

theorem readPair_writePair (e : ItemId × UInt32) : readPair (writePair e) = some e := by
  simp [readPair, writePair]

theorem readPairs_writePairs (items : List (ItemId × UInt32)) :
    readPairs (.array (items.map writePair)) = some items := by
  show (items.map writePair).mapM readPair = some items
  induction items with
  | nil => rfl
  | cons e items ih => simp [readPair_writePair, ih]

theorem plain_writePairs (items : List (ItemId × UInt32)) : Plain (.array (items.map writePair)) := by
  refine .array fun v hv => ?_
  obtain ⟨e, -, rfl⟩ := List.mem_map.1 hv
  refine .array fun v hv => ?_
  simp only [List.mem_cons, List.not_mem_nil, or_false] at hv
  rcases hv with rfl | rfl
  all_goals exact Json.plain_ofNat _

def tag : Effect → String
  | .playSound .. => "PlaySound"
  | .itemGiven .. => "QuestItemGiven"
  | .itemsRemoved .. => "QuestItemsRemoved"
  | .reward .. => "RewardItems"

def fields : Effect → List (String × Json)
  | .playSound player sound => [("player_id", .ofString player), ("sound", .ofString sound.name)]
  | .itemGiven player quest item count =>
    [("player_id", .ofString player), ("quest_id", .ofNat quest.number.toNat), ("item", .ofNat item.number.toNat),
      ("count", .ofNat count.toNat)]
  | .itemsRemoved player quest items =>
    [("player_id", .ofString player), ("quest_id", .ofNat quest.number.toNat), ("items", .array (items.map writePair))]
  | .reward player item amount =>
    [("player_id", .ofString player), ("item", .ofNat item.number.toNat), ("amount", .ofInt amount.toInt)]

theorem tagged (e : Effect) : e.toJson.Tagged e.tag e.fields := by
  cases e
  all_goals exact {
    eq := rfl
    plain := by simp [fields, Plain.string, Plain.int, Json.plain_ofNat, plain_writePairs]
    nodup := by simp [fields] }

theorem ofJson?_toJson (e : Effect) : ofJson? e.toJson = some e := by
  have hrecord := e.tagged.record?_eq
  rw [ofJson?, e.tagged.variant?_eq]
  cases e
  all_goals
    simp only [fields, List.map_cons, List.map_nil] at hrecord
    simp [tag, fields, hrecord, readSound_name, readPairs_writePairs]

theorem ofText?_toText (e : Effect) : ofText? e.toText = some e := by
  simp [ofText?, toText, e.tagged.parse?_render, ofJson?_toJson]

end Effect

theorem Event.toText_ne_toText (e : Event) (f : Effect) : e.toText ≠ f.toText := by
  intro he
  have htag := e.tagged.tag_eq f.tagged he
  cases e <;> cases f <;> simp [Event.tag, Effect.tag] at htag

/-- Whatever an event or an effect holds, its text gives it back; no two of them have the same text, not even an event
and an effect; and an accepted text may be replaced by the one that is written for what it says. -/
theorem exchanged_unchanged :
    Faithful Event.toText Event.ofText? ∧ Faithful Effect.toText Effect.ofText? ∧
      ∀ (e : Event) (f : Effect), e.toText ≠ f.toText :=
  ⟨.of_read_write Event.ofText?_toText, .of_read_write Effect.ofText?_toText, Event.toText_ne_toText⟩

/-- A record given as an array, a letter that needs no escape beside a control character that does, and an item that is
listed twice: the written text is another one, and says the same. -/
theorem exchanged_unchanged_respelled :
    ∃ f text, Effect.ofText? text = some f ∧
      text = "\x7b \"QuestItemsRemoved\" : [\"b\\u00f6b\\u0007\", 10280, [[13838, 1], [13838, 0]]] \x7d" ∧
      f.toText = "\x7b\"QuestItemsRemoved\":\x7b\"player_id\":\"b\u00f6b\\u0007\",\"quest_id\":10280," ++
        "\"items\":[[13838,1],[13838,0]]\x7d\x7d" ∧
      Effect.ofText? f.toText = Effect.ofText? text ∧ (Effect.ofText? f.toText).map Effect.toText = some f.toText ∧
      (Event.npcKilled "b\u00f6b\x07" ⟨18571⟩).toText ≠ f.toText := by
  have hread : Effect.ofText? "\x7b \"QuestItemsRemoved\" : [\"b\\u00f6b\\u0007\", 10280, [[13838, 1], [13838, 0]]] \x7d" =
      some (.itemsRemoved "b\u00f6b\x07" ⟨10280⟩ [(⟨13838⟩, 1), (⟨13838⟩, 0)]) := by
    decide +kernel
  obtain ⟨-, heffect, hne⟩ := exchanged_unchanged
  obtain ⟨hvalue, htext⟩ := heffect.rewritten _ _ hread
  exact ⟨_, _, hread, rfl, by decide +kernel, hvalue, htext, hne _ _⟩

end Questline
