import StrawOS.Discord.Store
import StrawOS.Lib.Owned

/-!
# The store and its lists

`Store.Integrity` is what the store is meant to keep: every live channel stands in
one list, the one that its own guild id names, under an id of its own.  The rows
of `Owned` are the lists with their owners, 0 for the private channels.

A payload may contradict the list it arrives in; `EventConsistent` says which
payloads do not.
-/

namespace Discord

/-- The messages have room. -/
def Channel.Fits (ch : Channel) : Prop :=
  ch.messages.length ≤ ch.messageCap ∧ ch.messageCap ≤ ch.room

/-- What the store is meant to keep. -/
structure Store.Integrity (s : Store) : Prop where
  live : ∀ a, (s.heap a).isSome = true ↔ a ∈ s.listed
  once : s.listed.Nodup
  home : ∀ g ∈ s.guilds, ∀ a ∈ g.channels, (s.chan a).guildId = g.id
  direct : ∀ a ∈ s.dms, (s.chan a).guildId = 0
  guildIds : (s.guilds.map Guild.id).Nodup
  ids : (s.listed.map fun a => (s.chan a).id).Nodup
  room : ∀ a ∈ s.listed, (s.chan a).messageCap ≤ (s.chan a).room

/-! ## Rows -/

/-- The channels of a guild, with their owner. -/
def Guild.rows (g : Guild) : List (Snowflake × Nat) := g.channels.map (g.id, ·)

def rowsOf (dms : List Nat) (guilds : List Guild) : List (Snowflake × Nat) :=
  dms.map (0, ·) ++ guilds.flatMap Guild.rows

/-- The rows of a store. -/
def Store.rows (s : Store) : List (Snowflake × Nat) := rowsOf s.dms s.guilds

theorem map_snd_rowsOf (dms : List Nat) (guilds : List Guild) :
    (rowsOf dms guilds).map Prod.snd = dms ++ guilds.flatMap Guild.channels := by
  rw [rowsOf, List.map_append, List.map_map, List.map_flatMap]
  congr 1
  · exact List.map_id'' (fun _ => rfl) dms
  · congr 1
    funext g
    rw [Guild.rows, List.map_map]
    exact List.map_id'' (fun _ => rfl) g.channels

theorem Store.map_snd_rows (s : Store) : s.rows.map Prod.snd = s.listed := map_snd_rowsOf _ _

theorem rowsOf_perm (dms : List Nat) (g : Guild) (l₁ l₂ : List Guild) :
    (rowsOf dms (l₁ ++ g :: l₂)).Perm (g.rows ++ rowsOf dms (l₁ ++ l₂)) := by
  simp only [rowsOf, List.flatMap_append, List.flatMap_cons]
  exact (List.Perm.append_left _ (List.perm_append_comm_assoc _ _ _)).trans
    (List.perm_append_comm_assoc _ _ _)

/-- The invariant. -/
structure Store.Inv (s : Store) : Prop where
  owned : Owned Channel.guildId Channel.id Channel.Fits s.heap s.next s.rows
  guildIds : (s.guilds.map Guild.id).Nodup

theorem Store.Inv.integrity {s : Store} (h : s.Inv) : s.Integrity := by
  have hchan : ∀ r ∈ s.rows, s.heap r.2 = some (s.chan r.2) := by
    intro r hr
    obtain ⟨x, hx, -⟩ := h.owned.held r hr
    rw [Store.chan, hx, Option.getD_some]
  have howner : ∀ r ∈ s.rows, (s.chan r.2).guildId = r.1 ∧ (s.chan r.2).Fits := by
    intro r hr
    obtain ⟨x, hx, hown, hfits⟩ := h.owned.held r hr
    rw [Store.chan, hx, Option.getD_some]
    exact ⟨hown, hfits⟩
  constructor
  · intro a
    rw [h.owned.live_iff, s.map_snd_rows]
  · rw [← s.map_snd_rows]
    exact h.owned.once
  · intro g hg a ha
    refine (howner (g.id, a) (List.mem_append_right _ ?_)).1
    exact List.mem_flatMap.mpr ⟨g, hg, List.mem_map_of_mem ha⟩
  · intro a ha
    exact (howner (0, a) (List.mem_append_left _ (List.mem_map_of_mem ha))).1
  · exact h.guildIds
  · rw [← s.map_snd_rows, List.map_map]
    exact h.owned.keys_nodup s.chan hchan
  · intro a ha
    rw [← s.map_snd_rows] at ha
    obtain ⟨r, hr, rfl⟩ := List.mem_map.mp ha
    exact (howner r hr).2.2

/-! ## Looking up -/

section
variable {s : Store} {id : Snowflake} {a : Nat} {x : Channel} {g : Guild}

theorem Store.chan_of (h : s.heap a = some x) : s.chan a = x := by
  rw [Store.chan, h, Option.getD_some]

theorem storeChannel_some (h : storeChannel s id = some a) :
    a ∈ s.listed ∧ (s.chan a).id = id := by
  refine ⟨List.mem_of_find?_eq_some h, ?_⟩
  simpa using List.find?_some h

theorem storeChannel_none (h : storeChannel s id = none) : ∀ a ∈ s.listed, (s.chan a).id ≠ id := by
  intro a ha
  simpa using List.find?_eq_none.mp h a ha

theorem storeGuild_split (h : storeGuild s id = some g) :
    ∃ l₁ l₂, s.guilds = l₁ ++ g :: l₂ ∧ g.id = id ∧ (∀ g', s.guilds.replace g g' = l₁ ++ g' :: l₂) ∧
      s.guilds.erase g = l₁ ++ l₂ := by
  obtain ⟨hid, l₁, l₂, hsplit, hbefore⟩ := List.find?_eq_some_iff_append.mp h
  have hnot : g ∉ l₁ := by grind
  refine ⟨l₁, l₂, hsplit, by simpa using hid, fun g' => ?_, ?_⟩
  · rw [hsplit, List.replace_append_right hnot]
    simp
  · rw [hsplit, List.erase_append_right _ hnot]
    simp

theorem storeGuild_none (h : storeGuild s id = none) : id ∉ s.guilds.map Guild.id := by
  intro hmem
  obtain ⟨g, hg, rfl⟩ := List.mem_map.mp hmem
  simpa using List.find?_eq_none.mp h g hg

theorem Store.Inv.row (h : s.Inv) (ha : a ∈ s.listed) :
    ((s.chan a).guildId, a) ∈ s.rows ∧ s.heap a = some (s.chan a) ∧ (s.chan a).Fits := by
  rw [← s.map_snd_rows] at ha
  obtain ⟨r, hr, rfl⟩ := List.mem_map.mp ha
  obtain ⟨x, hx, hown, hfits⟩ := h.owned.held r hr
  rw [Store.chan_of hx]
  exact ⟨by rw [hown]; exact hr, hx, hfits⟩

end

/-! ## The lists in another order -/

theorem Store.Inv.reorder {s : Store} (h : s.Inv) {dms : List Nat} {guilds : List Guild} {ready : Bool}
    (hdms : dms.Perm s.dms) (hguilds : (guilds.flatMap Guild.rows).Perm (s.guilds.flatMap Guild.rows))
    (hids : (guilds.map Guild.id).Nodup) :
    Store.Inv { s with dms := dms, guilds := guilds, ready := ready } :=
  ⟨h.owned.perm ((hdms.map _).append hguilds), hids⟩

theorem Store.Inv.sortDms {s : Store} (h : s.Inv) : (sortDms s).Inv :=
  h.reorder (List.mergeSort_perm _ _) (List.Perm.refl _) h.guildIds

theorem Store.Inv.setChannels_perm {s : Store} (h : s.Inv) {id : Snowflake} {g : Guild}
    (hg : storeGuild s id = some g) {channels : List Nat} (hperm : channels.Perm g.channels) :
    (s.setChannels g channels).Inv := by
  obtain ⟨l₁, l₂, hsplit, -, hreplace, -⟩ := storeGuild_split hg
  have hids := h.guildIds
  have hrows : ((l₁ ++ ⟨g.id, channels⟩ :: l₂).flatMap Guild.rows).Perm
      ((l₁ ++ g :: l₂).flatMap Guild.rows) := by
    simp only [List.flatMap_append, List.flatMap_cons]
    exact List.Perm.append_left _ ((hperm.map _).append_right _)
  rw [Store.setChannels, hreplace]
  refine h.reorder (List.Perm.refl _) ?_ ?_
  · rw [hsplit]
    exact hrows
  · rw [hsplit] at hids
    simpa using hids

theorem placeGuilds_perm (order : List Snowflake) (placed : Nat) (guilds : List Guild) :
    (placeGuilds order placed guilds).Perm guilds := by
  induction order generalizing placed guilds with
  | nil => exact List.Perm.refl _
  | cons id order ih =>
    rw [placeGuilds]
    split
    · exact ih placed guilds
    · grind

theorem Store.Inv.readySettings {s : Store} (h : s.Inv) (d : Json) : (readySettings s d).Inv := by
  unfold Discord.readySettings
  split
  · have hperm := placeGuilds_perm (guildOrder (.object ‹_›)) 0 s.guilds
    exact h.reorder (List.Perm.refl _) (hperm.flatMap_right _) ((hperm.map _).nodup_iff.mpr h.guildIds)
  · exact h

/-! ## A channel changes -/

theorem Store.Inv.put {s : Store} (h : s.Inv) {a : Nat} (ha : a ∈ s.listed) {ch : Channel}
    (hid : ch.id = (s.chan a).id) (hown : ch.guildId = (s.chan a).guildId) (hfits : ch.Fits) :
    (s.put a ch).Inv := by
  obtain ⟨hrow, hheap, -⟩ := h.row ha
  exact ⟨h.owned.put hrow hheap hown hid hfits, h.guildIds⟩

/-- `channel_insert` keeps the room, and leaves the other fields alone. -/
theorem channelInsert_spec {ch : Channel} (h : ch.Fits) (id : Snowflake) :
    (channelInsert ch id).Fits ∧ (channelInsert ch id).id = ch.id ∧
      (channelInsert ch id).guildId = ch.guildId := by
  unfold channelInsert
  dsimp only
  split
  · exact ⟨h, rfl, rfl⟩
  · refine ⟨?_, rfl, rfl⟩
    obtain ⟨hcount, hroom⟩ := h
    constructor
    · grind
    · grind

theorem foldl_channelInsert_spec (items : List Json) {ch : Channel} (h : ch.Fits) :
    let ch' := items.foldl (fun ch j => channelInsert ch (jsonId "id" j)) ch
    ch'.Fits ∧ ch'.id = ch.id ∧ ch'.guildId = ch.guildId := by
  induction items generalizing ch with
  | nil => exact ⟨h, rfl, rfl⟩
  | cons j items ih =>
    obtain ⟨hfits, hid, hown⟩ := channelInsert_spec h (jsonId "id" j)
    obtain ⟨hfits', hid', hown'⟩ := ih hfits
    exact ⟨hfits', hid'.trans hid, hown'.trans hown⟩

theorem Store.Inv.storeLoadMessages {s : Store} (h : s.Inv) (id : Snowflake) (arr : Json)
    (older : Bool) : (storeLoadMessages s id arr older).Inv := by
  unfold Discord.storeLoadMessages
  split
  · rename_i a items ha
    obtain ⟨hlisted, -⟩ := storeChannel_some ha
    obtain ⟨-, -, hfits⟩ := h.row hlisted
    obtain ⟨hfits', hid, hown⟩ := foldl_channelInsert_spec items hfits
    exact h.put hlisted hid hown hfits'
  · exact h

/-! ## A channel comes -/

theorem newChannel_spec (gid : Snowflake) (c : Json) :
    (newChannel gid c).Fits ∧ (newChannel gid c).id = jsonId "id" c ∧
      (newChannel gid c).guildId = if jsonId "guild_id" c ≠ 0 then jsonId "guild_id" c else gid :=
  ⟨⟨Nat.le_refl 0, Nat.le_refl 0⟩, rfl, rfl⟩

/-- `channel_new` with an id that no channel has. -/
theorem Store.Inv.channelNew {s : Store} (h : s.Inv) {c : Json} {gid : Snowflake}
    (hgid : jsonId "guild_id" c = 0 ∨ jsonId "guild_id" c = gid)
    (hnew : ∀ a ∈ s.listed, (s.chan a).id ≠ jsonId "id" c) :
    Owned Channel.guildId Channel.id Channel.Fits (channelNew s c gid).2.heap
      (channelNew s c gid).2.next ((gid, s.next) :: s.rows) := by
  obtain ⟨hfits, hid, hown⟩ := newChannel_spec gid c
  have howner : (newChannel gid c).guildId = gid := by
    grind
  have hcons := h.owned.cons hfits (fun r hr x hx heq => ?_)
  · rw [howner] at hcons
    exact hcons
  · apply hnew r.2
    · rw [← s.map_snd_rows]
      exact List.mem_map_of_mem hr
    · rw [Store.chan_of hx, ← heq, hid]

theorem Store.Inv.dmNew {s : Store} (h : s.Inv) {c : Json} (hgid : jsonId "guild_id" c = 0)
    (hnew : ∀ a ∈ s.listed, (s.chan a).id ≠ jsonId "id" c) : (dmNew s c).Inv := by
  refine ⟨(h.channelNew (.inl hgid) hnew).perm ?_, h.guildIds⟩
  have hrows : (Discord.dmNew s c).rows =
      (s.dms ++ [s.next]).map (0, ·) ++ s.guilds.flatMap Guild.rows := rfl
  rw [hrows, List.map_append, List.append_assoc]
  exact List.perm_middle

theorem Store.Inv.guildAddChannel {s : Store} (h : s.Inv) {c : Json} {g : Guild}
    (hg : storeGuild s (jsonId "guild_id" c) = some g)
    (hnew : ∀ a ∈ s.listed, (s.chan a).id ≠ jsonId "id" c) {channels : List Nat}
    (hperm : channels.Perm (g.channels ++ [s.next])) :
    ((Discord.channelNew s c (jsonId "guild_id" c)).2.setChannels g channels).Inv := by
  obtain ⟨l₁, l₂, hsplit, hid, hreplace, -⟩ := storeGuild_split hg
  have hids := h.guildIds
  have howned := h.channelNew (.inr rfl) hnew
  have hrows : (rowsOf s.dms (l₁ ++ ⟨g.id, channels⟩ :: l₂)).Perm
      ((jsonId "guild_id" c, s.next) :: s.rows) := by
    have hguild : (Guild.rows ⟨g.id, channels⟩).Perm ((g.id, s.next) :: g.rows) := by
      refine (hperm.map _).trans ?_
      rw [List.map_append]
      exact List.perm_append_comm
    rw [Store.rows, hsplit, ← hid]
    exact (rowsOf_perm _ _ _ _).trans
      ((hguild.append_right _).trans ((rowsOf_perm _ g _ _).symm.cons _))
  have hguilds : ((Discord.channelNew s c (jsonId "guild_id" c)).2.setChannels g channels).guilds =
      l₁ ++ ⟨g.id, channels⟩ :: l₂ := hreplace _
  refine ⟨howned.perm ?_, ?_⟩
  · rw [Store.rows, hguilds]
    exact hrows
  · rw [hguilds]
    rw [hsplit] at hids
    simpa using hids

/-! ## Channels go -/

/-- The channels of some rows are freed, and the lists are those of the other rows. -/
theorem Store.Inv.free {s : Store} (h : s.Inv) {gone rest : List (Snowflake × Nat)} {as dms : List Nat}
    {guilds : List Guild} {ready : Bool} (hgone : gone.map Prod.snd = as)
    (hsplit : s.rows.Perm (gone ++ rest)) (hrest : (rowsOf dms guilds).Perm rest)
    (hids : (guilds.map Guild.id).Nodup) :
    Store.Inv { s.free as with dms := dms, guilds := guilds, ready := ready } := by
  have howned := h.owned.perm hsplit.symm
  have honce := howned.once
  rw [List.map_append, List.nodup_append, hgone] at honce
  refine ⟨(howned.drop ?_ ?_).perm hrest, hids⟩
  · intro r hr
    have hnot : r.2 ∉ as := fun hmem => honce.2.2 _ hmem _ (List.mem_map_of_mem hr) rfl
    exact if_neg hnot
  · intro a ha
    dsimp only [Store.free]
    split
    · rfl
    · rename_i hnot
      apply howned.dead
      rw [List.map_append, List.mem_append, hgone]
      exact not_or.mpr ⟨hnot, ha⟩

theorem Store.Inv.storeReset {s : Store} (h : s.Inv) : (storeReset s).Inv :=
  h.free s.map_snd_rows (by rw [List.append_nil]) (List.Perm.refl []) List.nodup_nil

theorem Store.Inv.storeOnGuildDelete {s : Store} (h : s.Inv) (j : Json) :
    (storeOnGuildDelete s j).Inv := by
  unfold Discord.storeOnGuildDelete
  split
  · exact h
  · split
    · exact h
    · rename_i g hg
      obtain ⟨l₁, l₂, hsplit, -, -, herase⟩ := storeGuild_split hg
      have hids := h.guildIds
      have hgone : g.rows.map Prod.snd = g.channels := by simp [Guild.rows, Function.comp_def]
      rw [hsplit, List.map_append, List.map_cons] at hids
      rw [herase]
      refine h.free hgone ?_ (List.Perm.refl _) ?_
      · rw [Store.rows, hsplit]
        exact rowsOf_perm _ _ _ _
      · rw [List.map_append]
        exact (List.nodup_middle.mp hids).of_cons

theorem Store.Inv.guild_of {s : Store} (h : s.Inv) {a : Nat} (ha : a ∈ s.listed)
    (hne : (s.chan a).guildId ≠ 0) :
    ∃ g, storeGuild s (s.chan a).guildId = some g ∧ a ∈ g.channels := by
  have hint := h.integrity
  rcases List.mem_append.mp ha with ha | ha
  · exact absurd (hint.direct a ha) hne
  · obtain ⟨g₀, hg₀, ha₀⟩ := List.mem_flatMap.mp ha
    have hown := hint.home g₀ hg₀ a ha₀
    cases hg : storeGuild s (s.chan a).guildId with
    | none =>
      exact absurd (List.mem_map_of_mem hg₀) (hown ▸ storeGuild_none hg)
    | some g =>
      obtain ⟨l₁, l₂, hsplit, hid, -⟩ := storeGuild_split hg
      have hmem : g ∈ s.guilds := by simp [hsplit]
      -- Two guilds with one id are one.
      have hsame := List.inj_on_of_nodup_map h.guildIds hg₀ hmem (hown.symm.trans hid.symm)
      exact ⟨g, rfl, hsame ▸ ha₀⟩

/-- `store_on_channel` unlinks the channel that it frees, unless the channel is one of
a guild whose id is 0. -/
theorem Store.Inv.storeOnChannelDelete {s : Store} (h : s.Inv) {c : Json}
    (hzero : ∀ g ∈ s.guilds, g.id = 0 → ∀ a ∈ g.channels, (s.chan a).id ≠ jsonId "id" c) :
    (storeOnChannelDelete s c).Inv := by
  unfold Discord.storeOnChannelDelete
  split
  · exact h
  rename_i a ha
  obtain ⟨hlisted, hid⟩ := storeChannel_some ha
  have hids := h.guildIds
  split
  · rename_i hne
    obtain ⟨g, hg, hag⟩ := h.guild_of hlisted hne
    obtain ⟨l₁, l₂, hsplit, -, hreplace, -⟩ := storeGuild_split hg
    have hrow : g.rows.Perm ((g.id, a) :: Guild.rows ⟨g.id, g.channels.erase a⟩) :=
      (List.perm_cons_erase hag).map _
    rw [hg]
    dsimp only [Store.setChannels]
    rw [hreplace]
    apply h.free (show [(g.id, a)].map Prod.snd = [a] from rfl) _ (List.Perm.refl _)
    · rw [hsplit] at hids
      simpa using hids
    · rw [Store.rows, hsplit]
      exact (rowsOf_perm _ _ _ _).trans
        ((hrow.append_right _).trans ((rowsOf_perm _ ⟨g.id, _⟩ _ _).symm.cons _))
  · rename_i hno
    rw [not_not] at hno
    have hdm : a ∈ s.dms := by
      rcases List.mem_append.mp hlisted with hdm | hguild
      · exact hdm
      · obtain ⟨g, hg, hag⟩ := List.mem_flatMap.mp hguild
        have hown := h.integrity.home g hg a hag
        exact absurd hid (hzero g hg (hown.symm.trans hno) a hag)
    apply h.free (show [((0 : Snowflake), a)].map Prod.snd = [a] from rfl) _ (List.Perm.refl _) hids
    exact ((List.perm_cons_erase hdm).map _).append_right _

end Discord
