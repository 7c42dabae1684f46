import Aestival.Agent.Effects
import Aestival.Config.BotConfig

/-!
# Gateway events

`dispatch_event` turns an event of the QQ gateway into a `parsed_message`, and the adapter of the
registry turns that into the `message_event` the controller sees. Four kinds of events carry a
message: a private one, one in a group, one in a channel of a guild, and a direct one inside a
guild. An id the payload does not have is the empty text.

What every parsed message looks like is said once, by `Origin`: where it comes from, with the ids
that name the place.
-/

namespace Aestival

open Bytes Json

/-! ### Payloads -/

/-- The author of a message, if the payload has one. -/
def author? (j : Json) : Option Json := objectField? j (utf8 "author")

/-- A text field of the author; it is empty where there is no author. -/
def authorField (j : Json) (key : Bytes) : Except AccessError Bytes :=
  match author? j with
  | some a => a.value getStr key []
  | none => .ok []

/-- A text field of the payload. -/
def payloadField (j : Json) (key : Bytes) : Except AccessError Bytes := j.value getStr key []

structure C2cMessagePayload where
  id : Bytes
  content : Bytes
  userOpenid : Bytes

structure GroupMessagePayload where
  id : Bytes
  groupOpenid : Bytes
  content : Bytes
  memberOpenid : Bytes
  senderNick : Bytes

structure GuildMessagePayload where
  id : Bytes
  content : Bytes
  channelId : Bytes
  guildId : Bytes
  userId : Bytes
  username : Bytes

structure DmMessagePayload where
  id : Bytes
  content : Bytes
  guildId : Bytes
  userId : Bytes

def C2cMessagePayload.fromJson (j : Json) : Except AccessError C2cMessagePayload := do
  let id ← payloadField j (utf8 "id")
  let content ← payloadField j (utf8 "content")
  let userOpenid ← authorField j (utf8 "user_openid")
  return { id, content, userOpenid }

/-- The name of a group member. One without a name is called after the first octets of the id. -/
def memberNick (j : Json) (memberOpenid : Bytes) : Except AccessError Bytes :=
  match author? j with
  | some a => do
    let nick ← a.value getStr (utf8 "username") []
    return if nick = [] then utf8 "用户" ++ memberOpenid.take 8 else nick
  | none => .ok []

def GroupMessagePayload.fromJson (j : Json) : Except AccessError GroupMessagePayload := do
  let id ← payloadField j (utf8 "id")
  let groupOpenid ← payloadField j (utf8 "group_openid")
  let content ← payloadField j (utf8 "content")
  let memberOpenid ← authorField j (utf8 "member_openid")
  let senderNick ← memberNick j memberOpenid
  return { id, groupOpenid, content, memberOpenid, senderNick }

def GuildMessagePayload.fromJson (j : Json) : Except AccessError GuildMessagePayload := do
  let id ← payloadField j (utf8 "id")
  let content ← payloadField j (utf8 "content")
  let channelId ← payloadField j (utf8 "channel_id")
  let guildId ← payloadField j (utf8 "guild_id")
  let userId ← authorField j (utf8 "id")
  let username ← authorField j (utf8 "username")
  return { id, content, channelId, guildId, userId, username }

def DmMessagePayload.fromJson (j : Json) : Except AccessError DmMessagePayload := do
  let id ← payloadField j (utf8 "id")
  let content ← payloadField j (utf8 "content")
  let guildId ← payloadField j (utf8 "guild_id")
  let userId ← authorField j (utf8 "id")
  return { id, content, guildId, userId }

/-! ### Messages -/

/-- `parsed_message`. -/
structure ParsedMessage where
  messageId : Bytes := []
  content : Bytes := []
  senderId : Bytes := []
  senderNick : Bytes := []
  userOpenid : Bytes := []
  groupId : Bytes := []
  channelId : Bytes := []
  guildId : Bytes := []
  isPrivate : Bool := false
  isGroup : Bool := false
  isGuild : Bool := false
  wasAtMentioned : Bool := false
  deriving DecidableEq, Repr

def C2cMessagePayload.message (p : C2cMessagePayload) : ParsedMessage where
  isPrivate := true
  messageId := p.id
  content := p.content
  userOpenid := p.userOpenid
  senderId := p.userOpenid

def GroupMessagePayload.message (p : GroupMessagePayload) (mentioned : Bool) : ParsedMessage where
  isGroup := true
  wasAtMentioned := mentioned
  messageId := p.id
  groupId := p.groupOpenid
  content := p.content
  senderId := p.memberOpenid
  senderNick := p.senderNick

def GuildMessagePayload.message (p : GuildMessagePayload) : ParsedMessage where
  isGuild := true
  messageId := p.id
  content := p.content
  senderId := p.userId
  senderNick := p.username
  guildId := p.guildId
  channelId := p.channelId

/-- A direct message inside a guild counts as private and as one of the guild; its sender is also
the one who is replied to. -/
def DmMessagePayload.message (p : DmMessagePayload) : ParsedMessage where
  isPrivate := true
  isGuild := true
  messageId := p.id
  content := p.content
  senderId := p.userId
  userOpenid := p.userId
  guildId := p.guildId

/-- The message of an event, or why its payload is refused. -/
def parseEvent (event : Bytes) (j : Json) : Option (Except AccessError ParsedMessage) :=
  if event = utf8 "C2C_MESSAGE_CREATE" then
    some ((C2cMessagePayload.fromJson j).map (·.message))
  -- the two events of a group differ in one flag: whether the bot was mentioned
  else if event = utf8 "GROUP_AT_MESSAGE_CREATE" then
    some ((GroupMessagePayload.fromJson j).map (·.message true))
  else if event = utf8 "GROUP_MESSAGE_CREATE" then
    some ((GroupMessagePayload.fromJson j).map (·.message false))
  else if event = utf8 "PUBLIC_GUILD_MESSAGE_CREATE" then
    some ((GuildMessagePayload.fromJson j).map (·.message))
  else if event = utf8 "DIRECT_MESSAGE_CREATE" then
    some ((DmMessagePayload.fromJson j).map (·.message))
  else none

/-- `dispatch_event`: the message the handler is called with. A payload that cannot be read is
logged, and so are the events that carry no message. -/
def dispatchEvent (event : Bytes) (data : Text) : Option ParsedMessage :=
  match data with
  | .malformed => none
  | .document d =>
    match parseEvent event d.json with
    | some (.ok msg) => some msg
    -- what reading a payload throws is caught here, and the handler is not called
    | _ => none

/-- `wire_events`: the event the controller handles. -/
def ParsedMessage.event (pm : ParsedMessage) : MessageEvent where
  content := pm.content
  senderId := pm.senderId
  senderNick := pm.senderNick
  userOpenid := pm.userOpenid
  groupId := pm.groupId
  channelId := pm.channelId
  guildId := pm.guildId
  isPrivate := pm.isPrivate
  isGroup := pm.isGroup
  isGuild := pm.isGuild
  wasAtMentioned := pm.wasAtMentioned

/-- All ids of a message. -/
def ParsedMessage.ids (pm : ParsedMessage) : List Bytes :=
  [pm.senderId, pm.userOpenid, pm.groupId, pm.channelId, pm.guildId]

/-! ### Origins -/

/-- Where a message comes from. -/
inductive Origin where
  | c2c (userOpenid : Bytes)
  | group (groupId : Bytes)
  | guild (guildId channelId : Bytes)
  | dm (guildId senderId : Bytes)
  deriving DecidableEq, Repr

/-- The flags and ids that messages from `o` have. -/
def ParsedMessage.From (pm : ParsedMessage) : Origin → Prop
  | .c2c u => pm.isPrivate = true ∧ pm.isGroup = false ∧ pm.isGuild = false ∧ pm.userOpenid = u
  | .group g => pm.isPrivate = false ∧ pm.isGroup = true ∧ pm.isGuild = false ∧ pm.groupId = g
  | .guild g c => pm.isPrivate = false ∧ pm.isGroup = false ∧ pm.isGuild = true ∧
      pm.guildId = g ∧ pm.channelId = c ∧ pm.userOpenid = []
  | .dm g u => pm.isPrivate = true ∧ pm.isGroup = false ∧ pm.isGuild = true ∧
      pm.guildId = g ∧ pm.senderId = u ∧ pm.userOpenid = u ∧ pm.channelId = []

theorem of_map_eq_ok {ε α β : Type} {f : α → β} {x : Except ε α} {b : β}
    (h : x.map f = .ok b) : ∃ a, f a = b := by
  cases x with
  | error e => exact nomatch h
  | ok a => exact ⟨a, Except.ok.inj h⟩

theorem from_of_parseEvent {event : Bytes} {j : Json} {pm : ParsedMessage}
    (h : parseEvent event j = some (.ok pm)) : ∃ o, pm.From o := by
  -- the events one by one; an event whose payload was refused is no hypothesis here
  rw [parseEvent] at h
  split at h
  · obtain ⟨p, rfl⟩ := of_map_eq_ok (Option.some.inj h)
    exact ⟨.c2c p.userOpenid, rfl, rfl, rfl, rfl⟩
  split at h
  · obtain ⟨p, rfl⟩ := of_map_eq_ok (Option.some.inj h)
    exact ⟨.group p.groupOpenid, rfl, rfl, rfl, rfl⟩
  split at h
  · obtain ⟨p, rfl⟩ := of_map_eq_ok (Option.some.inj h)
    exact ⟨.group p.groupOpenid, rfl, rfl, rfl, rfl⟩
  split at h
  · obtain ⟨p, rfl⟩ := of_map_eq_ok (Option.some.inj h)
    exact ⟨.guild p.guildId p.channelId, rfl, rfl, rfl, rfl, rfl, rfl⟩
  split at h
  · obtain ⟨p, rfl⟩ := of_map_eq_ok (Option.some.inj h)
    exact ⟨.dm p.guildId p.userId, rfl, rfl, rfl, rfl, rfl, rfl, rfl⟩
  · exact nomatch h

/-- **Every dispatched message has an origin.** -/
theorem from_of_dispatchEvent {event : Bytes} {data : Text} {pm : ParsedMessage}
    (h : dispatchEvent event data = some pm) : ∃ o, pm.From o := by
  cases data with
  | malformed => exact nomatch h
  | document d =>
    rw [dispatchEvent] at h
    split at h
    · next msg hparse =>
      rw [← Option.some.inj h]
      exact from_of_parseEvent hparse
    · exact nomatch h

end Aestival
