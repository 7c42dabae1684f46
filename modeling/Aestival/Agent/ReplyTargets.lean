import Aestival.Agent.Controller
import Aestival.EncodeUtils
import Aestival.Platform.Dispatch

/-!
# Where a reply goes

`plugin_context::reply` chooses one of the four calls of `bot_messaging` from the flags and ids of
the message, and `actor_id_of` chooses the conversation. Both choices are functions of the origin of
the message (`place_of_from`, `actorIdOf_of_from`), and the conversation determines the origin as
long as ids have no colon (`Origin.key_inj`). So one conversation is answered into one place.
-/

namespace Aestival

open Bytes

/-! ### Replies -/

/-- The call of `bot_messaging` that delivers a text, and to whom. -/
inductive Place where
  | dmsMd (guildId : Bytes)
  | channelMd (channelId : Bytes)
  | groupMd (groupId : Bytes)
  | privateMd (openid : Bytes)
  deriving DecidableEq, Repr

/-- The routing of `plugin_context::reply`. -/
def placeOf (m : MessageEvent) : Place :=
  -- a direct message inside a guild has both flags, so it is asked for first
  if m.isGuild && m.isPrivate && m.guildId ≠ [] then .dmsMd m.guildId
  else if m.isGuild && m.channelId ≠ [] then .channelMd m.channelId
  else if m.isGroup then .groupMd m.groupId
  else .privateMd m.userOpenid

def maxReplyLength : Nat := 4096

/-- `sanitize_reply`. -/
def sanitizeReply (content : Bytes) : Bytes :=
  sanitizeUtf8 ((content.filter (· ≠ 0)).take maxReplyLength)

/-- `message_receipt`. -/
structure MessageReceipt where
  attempted : Bool := false
  delivered : Bool := false
  detail : Bytes := []
  deriving DecidableEq, Repr

/-- What `plugin_context::reply` does: the text it sends and where to, if it sends one, and the
receipt. Its result is `delivered`. -/
structure Replied where
  sent : Option (Place × Bytes)
  receipt : MessageReceipt
  deriving DecidableEq, Repr

/-- `plugin_context::reply`, where `delivers` says which calls of the platform succeed. -/
def contextReply (delivers : Place → Bytes → Bool) (m : MessageEvent) (content : Bytes) : Replied :=
  let safeContent := sanitizeReply content
  if safeContent = [] then
    { sent := none, receipt := ⟨true, false, utf8 "empty reply blocked"⟩ }
  else
    let sent := delivers (placeOf m) safeContent
    { sent := some (placeOf m, safeContent)
      receipt := ⟨true, sent, if sent then utf8 "sent (md)" else utf8 "send failed"⟩ }

theorem contextReply_sent {delivers : Place → Bytes → Bool} {m : MessageEvent} {content : Bytes}
    (h : sanitizeReply content ≠ []) :
    (contextReply delivers m content).sent = some (placeOf m, sanitizeReply content) := by
  simp only [contextReply, if_neg h]

/-! ### Conversations and places of an origin -/

namespace Origin

/-- The conversation of an origin. -/
def key : Origin → Bytes
  | c2c u => utf8 "c2c:" ++ u
  | group g => utf8 "group:" ++ g
  | guild g c => utf8 "guild:" ++ g ++ utf8 ":" ++ c
  | dm g u => utf8 "dm:" ++ g ++ utf8 ":" ++ u

/-- The place of an origin. A message without the id of its guild or channel is answered in
private. -/
def place : Origin → Place
  | c2c u => .privateMd u
  | group g => .groupMd g
  | guild _ c => if c = [] then .privateMd [] else .channelMd c
  | dm g u => if g = [] then .privateMd u else .dmsMd g

/-- The first id of an origin has no colon. -/
def Separable : Origin → Prop
  | guild g _ => (58 : UInt8) ∉ g
  | dm g _ => (58 : UInt8) ∉ g
  | _ => True

end Origin

/-- **The conversation determines the origin.** -/
theorem Origin.key_inj {o o' : Origin} (ho : o.Separable) (ho' : o'.Separable)
    (h : o.key = o'.key) : o = o' := by
  -- the four kinds of keys differ in their first letters
  cases o with
  | c2c u =>
    cases o' with
    | c2c u' => rw [List.append_cancel_left h]
    | group g' => exact nomatch h
    | guild g' c' => exact nomatch h
    | dm g' u' => exact nomatch h
  | group g =>
    cases o' with
    | c2c u' => exact nomatch h
    | group g' => rw [List.append_cancel_left h]
    | guild g' c' => exact nomatch h
    | dm g' u' => exact nomatch h
  | guild g c =>
    cases o' with
    | c2c u' => exact nomatch h
    | group g' => exact nomatch h
    | guild g' c' =>
      simp only [key, List.append_assoc] at h
      -- the first colon behind the prefix separates the two ids
      obtain ⟨rfl, rfl⟩ := separator_inj ho ho' (List.append_cancel_left h)
      rfl
    | dm g' u' => exact nomatch h
  | dm g u =>
    cases o' with
    | c2c u' => exact nomatch h
    | group g' => exact nomatch h
    | guild g' c' => exact nomatch h
    | dm g' u' =>
      simp only [key, List.append_assoc] at h
      obtain ⟨rfl, rfl⟩ := separator_inj ho ho' (List.append_cancel_left h)
      rfl

/-! ### Messages of an origin -/

theorem actorIdOf_of_from {pm : ParsedMessage} {o : Origin} (h : pm.From o) :
    actorIdOf pm.event = o.key := by
  cases o with
  | c2c u =>
    obtain ⟨hp, -, hg, hu⟩ := h
    simp [actorIdOf, ParsedMessage.event, Origin.key, hp, hg, hu]
  | group g =>
    obtain ⟨hp, hgr, hg, hid⟩ := h
    simp [actorIdOf, ParsedMessage.event, Origin.key, hp, hgr, hg, hid]
  | guild g c =>
    obtain ⟨hp, hgr, hg, hid, hch, -⟩ := h
    simp [actorIdOf, ParsedMessage.event, Origin.key, hp, hgr, hg, hid, hch]
  | dm g u =>
    obtain ⟨hp, -, hg, hid, hs, -⟩ := h
    simp [actorIdOf, ParsedMessage.event, Origin.key, hp, hg, hid, hs]

theorem placeOf_of_from {pm : ParsedMessage} {o : Origin} (h : pm.From o) :
    placeOf pm.event = o.place := by
  cases o with
  | c2c u =>
    obtain ⟨hp, hgr, hg, hu⟩ := h
    simp [placeOf, ParsedMessage.event, Origin.place, hgr, hg, hu]
  | group g =>
    obtain ⟨hp, hgr, hg, hid⟩ := h
    simp [placeOf, ParsedMessage.event, Origin.place, hgr, hg, hid]
  | guild g c =>
    obtain ⟨hp, hgr, hg, -, hch, hu⟩ := h
    -- without a channel id the reply falls through to the private route
    by_cases hc : c = []
    · simp [placeOf, ParsedMessage.event, Origin.place, hp, hgr, hg, hch, hu, hc]
    · simp [placeOf, ParsedMessage.event, Origin.place, hp, hg, hch, hc]
  | dm g u =>
    obtain ⟨hp, hgr, hg, hid, -, hu, hch⟩ := h
    -- and so it does without a guild id
    by_cases hne : g = []
    · simp [placeOf, ParsedMessage.event, Origin.place, hgr, hid, hu, hch, hne]
    · simp [placeOf, ParsedMessage.event, Origin.place, hp, hg, hid, hne]

theorem separable_of_from {pm : ParsedMessage} {o : Origin} (h : pm.From o)
    (hids : ∀ id ∈ pm.ids, (58 : UInt8) ∉ id) : o.Separable := by
  cases o with
  | c2c u => trivial
  | group g => trivial
  | guild g c =>
    obtain ⟨-, -, -, rfl, -⟩ := h
    exact hids pm.guildId (by simp [ParsedMessage.ids])
  | dm g u =>
    obtain ⟨-, -, -, rfl, -⟩ := h
    exact hids pm.guildId (by simp [ParsedMessage.ids])

/-- **One conversation is answered into one place.** The messages of two gateway events that belong
to the same conversation are replied to through the same call with the same target. -/
theorem replies_to_one_place {event event' : Bytes} {data data' : Json.Text}
    {pm pm' : ParsedMessage} (h : dispatchEvent event data = some pm)
    (h' : dispatchEvent event' data' = some pm') (hids : ∀ id ∈ pm.ids, (58 : UInt8) ∉ id)
    (hids' : ∀ id ∈ pm'.ids, (58 : UInt8) ∉ id)
    (hsame : actorIdOf pm.event = actorIdOf pm'.event) (delivers : Place → Bytes → Bool)
    {content content' : Bytes} (hcontent : sanitizeReply content ≠ [])
    (hcontent' : sanitizeReply content' ≠ []) :
    ∃ place, (contextReply delivers pm.event content).sent = some (place, sanitizeReply content) ∧
      (contextReply delivers pm'.event content').sent = some (place, sanitizeReply content') := by
  obtain ⟨o, ho⟩ := from_of_dispatchEvent h
  obtain ⟨o', ho'⟩ := from_of_dispatchEvent h'
  -- same conversation, so same origin, so same place
  have hkey : o.key = o'.key := by rw [← actorIdOf_of_from ho, hsame, actorIdOf_of_from ho']
  obtain rfl := Origin.key_inj (separable_of_from ho hids) (separable_of_from ho' hids') hkey
  refine ⟨o.place, ?_, ?_⟩
  · rw [contextReply_sent hcontent, placeOf_of_from ho]
  · rw [contextReply_sent hcontent', placeOf_of_from ho']

/-- A direct message of the user `u` inside a guild whose id is missing. -/
def dmMessage (content : Bytes) : ParsedMessage where
  content := content
  senderId := utf8 "u"
  userOpenid := utf8 "u"
  isPrivate := true
  isGuild := true

/-- Two direct messages of one user: both are answered in private. -/
theorem replies_to_one_place_dm :
    ∃ place,
      (contextReply (fun _ _ => true) (dmMessage (utf8 "hi")).event (utf8 "hello")).sent =
        some (place, sanitizeReply (utf8 "hello")) ∧
      (contextReply (fun _ _ => true) (dmMessage (utf8 "bye")).event (utf8 "see you")).sent =
        some (place, sanitizeReply (utf8 "see you")) := by
  have h : dispatchEvent (utf8 "DIRECT_MESSAGE_CREATE") (.document ⟨.obj [
      (utf8 "content", .str (utf8 "hi")), (utf8 "author", .obj [(utf8 "id", .str (utf8 "u"))])],
      by decide +kernel⟩) = some (dmMessage (utf8 "hi")) := by rfl
  have h' : dispatchEvent (utf8 "DIRECT_MESSAGE_CREATE") (.document ⟨.obj [
      (utf8 "content", .str (utf8 "bye")), (utf8 "author", .obj [(utf8 "id", .str (utf8 "u"))])],
      by decide +kernel⟩) = some (dmMessage (utf8 "bye")) := by rfl
  exact replies_to_one_place h h' (by decide) (by decide) rfl _ (by decide) (by decide)

end Aestival
