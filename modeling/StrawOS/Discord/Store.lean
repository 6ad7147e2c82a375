import StrawOS.Vfs.Path
import StrawOS.Lib.Machine
import Mathlib

/-!
# JSON values

What the chat client reads from a parsed document: `json_get` and the functions
on it.  A document is any value, so that nothing is assumed about a payload.
-/

namespace Discord

open Vfs (CString ofAscii)

/-- An id of a user, a guild, a channel or a message. -/
abbrev Snowflake := UInt64

/-- `Json`.  A number has its text, and `num` is the integer part of its double. -/
inductive Json
  | null
  | bool (b : Bool)
  | number (text : CString) (num : Int)
  | string (str : CString)
  | array (items : List Json)
  | object (fields : List (CString × Json))

/-- `parse_snowflake`: the digits in front, modulo `2 ^ 64`. -/
def parseSnowflake (s : CString) : Snowflake :=
  (s.takeWhile fun c => 48 ≤ c && c ≤ 57).foldl (fun v c => v * 10 + (c - 48).toUInt64) 0

/-- `strtoll` to base 10: blanks, a sign, digits modulo `2 ^ 64`. -/
def strtoll (s : CString) : Int :=
  let s := s.dropWhile fun c => c == 32 || (9 ≤ c && c ≤ 13)
  let val := match s with
    | 45 :: digits => - parseSnowflake digits
    | 43 :: digits => parseSnowflake digits
    | digits => parseSnowflake digits
  val.toInt64.toInt

/-- `json_get`; the first field with the key counts. -/
def jsonGet (key : String) : Json → Option Json
  | .object fields => (fields.find? (·.1 == ofAscii key)).map (·.2)
  | _ => none

def jsonStr (key : String) (j : Json) : Option CString :=
  match jsonGet key j with
  | some (.string s) => some s
  | _ => none

def jsonInt (key : String) (default : Int) (j : Json) : Int :=
  match jsonGet key j with
  | some (.number text _) => strtoll text
  | some (.string s) => strtoll s
  | _ => default

def jsonBool (key : String) (j : Json) : Bool :=
  match jsonGet key j with
  | some (.bool b) => b
  | _ => false

def jsonAsId : Json → Snowflake
  | .string s => parseSnowflake s
  | .number text _ => parseSnowflake text
  | _ => 0

/-- `json_id`; 0 when the field is missing or no id. -/
def jsonId (key : String) (j : Json) : Snowflake := ((jsonGet key j).map jsonAsId).getD 0

/-- The items of an array field; nothing when the field is missing or no array. -/
def jsonItems (key : String) (j : Json) : List Json :=
  match jsonGet key j with
  | some (.array items) => items
  | _ => []

/-- A C `int` made of a 64-bit integer. -/
def toInt32 (x : Int) : Int := x.bmod (2 ^ 32)

end Discord

/-!
# The chat store

The guilds and channels that the client keeps, with the functions the gateway
calls on them.  Channels live in a heap: the lists of the store hold addresses,
so that a list can keep the address of a channel that was freed.  Every
allocation succeeds.

Of a channel only what these functions read is kept.
-/

namespace Discord

/-- `Channel`.  `messages` are the ids of the messages it has, and `room` is how many
entries its array really has: none when the pointer is null. -/
structure Channel where
  id : Snowflake := 0
  guildId : Snowflake := 0
  type : Int := 0
  position : Int := 0
  lastMessageId : Snowflake := 0
  messages : List Snowflake := []
  room : Nat := 0
  messageCap : Nat := 0
  loaded : Bool := false
  hasMore : Bool := false
  deriving DecidableEq, Repr

/-- `Guild`: the addresses of its channels. -/
structure Guild where
  id : Snowflake
  channels : List Nat := []
  deriving DecidableEq, Repr

/-- `Store`, with the heap of its channels; no channel is at `next` or above. -/
structure Store where
  heap : Nat → Option Channel := fun _ => none
  next : Nat := 0
  guilds : List Guild := []
  dms : List Nat := []
  ready : Bool := false

namespace Store

/-- The channel at an address; what a freed one has is not known. -/
def chan (s : Store) (a : Nat) : Channel := (s.heap a).getD {}

/-- The addresses in the lists of the store, in the order of `store_channel`. -/
def listed (s : Store) : List Nat := s.dms ++ s.guilds.flatMap Guild.channels

/-- A channel is changed. -/
def put (s : Store) (a : Nat) (ch : Channel) : Store :=
  { s with heap := Function.update s.heap a (some ch) }

/-- The first guild that equals `g` has other channels. -/
def setChannels (s : Store) (g : Guild) (channels : List Nat) : Store :=
  { s with guilds := s.guilds.replace g ⟨g.id, channels⟩ }

/-- `channel_free` on each of a list of channels. -/
def free (s : Store) (as : List Nat) : Store :=
  { s with heap := fun a => if a ∈ as then none else s.heap a }

end Store

def storeGuild (s : Store) (id : Snowflake) : Option Guild := s.guilds.find? (·.id == id)

def storeChannel (s : Store) (id : Snowflake) : Option Nat :=
  s.listed.find? fun a => (s.chan a).id == id

def storeReset (s : Store) : Store :=
  { s.free s.listed with guilds := [], dms := [], ready := false }

/-! ## Channels and guilds -/

def channelFill (ch : Channel) (j : Json) : Channel :=
  let gid := jsonId "guild_id" j
  let last := jsonId "last_message_id" j
  { ch with
    id := jsonId "id" j
    type := toInt32 (jsonInt "type" ch.type j)
    guildId := if gid ≠ 0 then gid else ch.guildId
    position := toInt32 (jsonInt "position" ch.position j)
    lastMessageId := if last ≠ 0 then last else ch.lastMessageId }

/-- The channel of a payload. -/
def newChannel (guildId : Snowflake) (j : Json) : Channel :=
  channelFill { guildId := guildId, hasMore := true } j

/-- `channel_new`: its address. -/
def channelNew (s : Store) (j : Json) (guildId : Snowflake) : Nat × Store :=
  (s.next, { s.put s.next (newChannel guildId j) with next := s.next + 1 })

/-- `channel_order`: a channel with voice comes behind one without. -/
def channelOrder (x y : Channel) : Bool :=
  let voice (ch : Channel) : Bool := ch.type == 2 || ch.type == 13
  if voice x != voice y then voice y
  else if x.position ≠ y.position then x.position < y.position
  else x.id ≤ y.id

def guildSortChannels (s : Store) (channels : List Nat) : List Nat :=
  channels.mergeSort fun a b => channelOrder (s.chan a) (s.chan b)

/-- `dm_order`: the latest message first. -/
def dmOrder (x y : Channel) : Bool :=
  let last (ch : Channel) : Snowflake := if ch.lastMessageId ≠ 0 then ch.lastMessageId else ch.id
  last y ≤ last x

/-- The private channels in their order. -/
def sortDms (s : Store) : Store :=
  { s with dms := s.dms.mergeSort fun a b => dmOrder (s.chan a) (s.chan b) }

/-- `dm_add` on a new channel. -/
def dmNew (s : Store) (c : Json) : Store :=
  let made := channelNew s c 0
  { made.2 with dms := made.2.dms ++ [made.1] }

/-- The channels of a payload, made one after the other. -/
def parseChannels (guildId : Snowflake) : List Json → Store → List Nat × Store
  | [], s => ([], s)
  | c :: cs, s =>
      let made := channelNew s c guildId
      let rest := parseChannels guildId cs made.2
      (made.1 :: rest.1, rest.2)

def guildParse (s : Store) (j : Json) : Option Guild × Store :=
  if jsonBool "unavailable" j then (none, s)
  else
    let id := jsonId "id" j
    let made := parseChannels id (jsonItems "channels" j) s
    (some ⟨id, guildSortChannels made.2 made.1⟩, made.2)

/-- The messages of a channel of the old guild go to the new one with its id. -/
def moveMessages (s : Store) (nc oc : Nat) : Store :=
  if (s.chan oc).id = (s.chan nc).id then
    let old := s.chan oc
    let s := s.put nc { s.chan nc with
      messages := old.messages
      room := old.room
      messageCap := old.messageCap
      loaded := old.loaded
      hasMore := old.hasMore }
    s.put oc { s.chan oc with messages := [], room := 0 }
  else s

/-- The guild with the id is replaced, and its channels are freed. -/
def guildReplace (s : Store) (g old : Guild) : Store :=
  let moved := g.channels.foldl (fun s nc => old.channels.foldl (fun s oc => moveMessages s nc oc) s) s
  { moved.free old.channels with guilds := moved.guilds.replace old g }

/-- `guild_store`; every caller gives the hint -1. -/
def guildStore (s : Store) (g : Guild) : Store :=
  match storeGuild s g.id with
  | some old => guildReplace s g old
  | none => { s with guilds := s.guilds ++ [g] }

/-! ## Messages -/

/-- `find_index`: how far the ids below `id` reach; they are in order. -/
def findIndexLoop (ids : List Snowflake) (id : Snowflake) : (left lo hi : Nat) → Nat
  | 0, lo, _ => lo
  | left + 1, lo, hi =>
      if lo < hi then
        let mid := (lo + hi) / 2
        if ids.getD mid 0 < id then findIndexLoop ids id left (mid + 1) hi
        else findIndexLoop ids id left lo mid
      else lo

def findIndex (ids : List Snowflake) (id : Snowflake) : Nat :=
  findIndexLoop ids id ids.length 0 ids.length

def channelInsert (ch : Channel) (id : Snowflake) : Channel :=
  let i := findIndex ch.messages id
  if ch.messages[i]? = some id then ch
  else
    let cap := if ch.messages.length = ch.messageCap then
        if ch.messageCap ≠ 0 then ch.messageCap * 2 else 64
      else ch.messageCap
    { ch with
      messages := ch.messages.insertIdx i id
      room := if ch.messages.length = ch.messageCap then cap else ch.room
      messageCap := cap }

/-- `store_load_messages` on the channel with an id. -/
def storeLoadMessages (s : Store) (id : Snowflake) (arr : Json) (older : Bool) : Store :=
  match storeChannel s id, arr with
  | some a, .array items =>
      let ch := items.foldl (fun ch j => channelInsert ch (jsonId "id" j)) (s.chan a)
      s.put a { ch with
        hasMore := if !older || items.length < 50 then 50 ≤ items.length else ch.hasMore
        loaded := true }
  | _, _ => s

/-! ## Dispatches -/

def storeOnGuildCreate (s : Store) (j : Json) : Store :=
  let parsed := guildParse s j
  match parsed.1 with
  | some g => guildStore parsed.2 g
  | none => parsed.2

def storeOnGuildDelete (s : Store) (j : Json) : Store :=
  if jsonBool "unavailable" j then s
  else match storeGuild s (jsonId "id" j) with
    | none => s
    | some g => { s.free g.channels with guilds := s.guilds.erase g }

/-- `store_on_channel` for a channel that is deleted. -/
def storeOnChannelDelete (s : Store) (c : Json) : Store :=
  match storeChannel s (jsonId "id" c) with
  | none => s
  | some a =>
      let unlinked : Store :=
        if (s.chan a).guildId ≠ 0 then
          match storeGuild s (s.chan a).guildId with
          | none => s
          | some g => s.setChannels g (g.channels.erase a)
        else { s with dms := s.dms.erase a }
      unlinked.free [a]

/-- `store_on_channel` for a channel that is new or changed. -/
def storeOnChannel (s : Store) (c : Json) : Store :=
  match storeChannel s (jsonId "id" c) with
  | some a =>
      let s := s.put a (channelFill (s.chan a) c)
      match storeGuild s (s.chan a).guildId with
      | none => s
      | some g => s.setChannels g (guildSortChannels s g.channels)
  | none =>
      let gid := jsonId "guild_id" c
      if gid ≠ 0 then
        match storeGuild s gid with
        | none => s
        | some g =>
            let made := channelNew s c gid
            made.2.setChannels g (guildSortChannels made.2 (g.channels ++ [made.1]))
      else sortDms (dmNew s c)

/-- The ids that `order_guilds` collects: at most 1024, from the folders or, without
folders, from the positions. -/
def guildOrder (settings : Json) : List Snowflake :=
  let ids := match jsonGet "guild_folders" settings with
    | some (.array folders) => folders.flatMap (jsonItems "guild_ids")
    | _ => jsonItems "guild_positions" settings
  (ids.take 1024).map jsonAsId

/-- The loop of `order_guilds`: each id in the order takes the next place. -/
def placeGuilds : (order : List Snowflake) → (placed : Nat) → List Guild → List Guild
  | [], _, guilds => guilds
  | id :: order, placed, guilds =>
      match (guilds.drop placed).findIdx? (·.id == id) with
      | none => placeGuilds order placed guilds
      | some k =>
          match guilds[placed]?, guilds[placed + k]? with
          | some t, some g =>
              placeGuilds order (placed + 1) ((guilds.set placed g).set (placed + k) t)
          | _, _ => guilds

def orderGuilds (s : Store) (settings : Json) : Store :=
  { s with guilds := placeGuilds (guildOrder settings) 0 s.guilds }

/-- The settings of a READY payload. -/
def readySettings (s : Store) (d : Json) : Store :=
  match jsonGet "user_settings" d with
  | some (.object fields) => orderGuilds s (.object fields)
  | _ => s

def storeOnReady (s : Store) (d : Json) : Store :=
  let stored := (jsonItems "guilds" d).foldl storeOnGuildCreate s
  let placed := readySettings stored d
  { sortDms ((jsonItems "private_channels" d).foldl dmNew placed) with ready := true }

end Discord
