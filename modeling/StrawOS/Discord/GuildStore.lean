import StrawOS.Discord.Integrity

/-!
# Storing a guild

`guild_parse` makes the channels of a payload, and `guild_store` replaces the guild
with its id, if there is one: the messages go from the old channels to the new
ones, and the old ones are freed.
-/

namespace Discord

/-! ## Parsing -/

/-- The channels of a payload, at the addresses from the next one on. -/
structure Parsed (gid : Snowflake) (cs : List Json) (s : Store) (as : List Nat) (s' : Store) : Prop where
  addresses : as = List.range' s.next cs.length
  next : s'.next = s.next + cs.length
  lists : s'.guilds = s.guilds ∧ s'.dms = s.dms ∧ s'.ready = s.ready
  made : ∀ i (h : i < cs.length), s'.heap (s.next + i) = some (newChannel gid cs[i])
  other : ∀ a, a ∉ as → s'.heap a = s.heap a

theorem parseChannels_spec (gid : Snowflake) (cs : List Json) (s : Store) :
    Parsed gid cs s (parseChannels gid cs s).1 (parseChannels gid cs s).2 := by
  induction cs generalizing s with
  | nil =>
    exact ⟨rfl, rfl, ⟨rfl, rfl, rfl⟩, fun i h => absurd h (Nat.not_lt_zero i), fun _ _ => rfl⟩
  | cons c cs ih =>
    have hrest := ih (channelNew s c gid).2
    have hnext : (channelNew s c gid).2.next = s.next + 1 := rfl
    have hheap : (channelNew s c gid).2.heap =
        Function.update s.heap s.next (some (newChannel gid c)) := rfl
    obtain ⟨haddr, hnext', hlists, hmade, hother⟩ := hrest
    rw [hheap] at hother
    rw [parseChannels]
    refine ⟨?_, ?_, hlists, fun i hi => ?_, fun a ha => ?_⟩
    · rw [haddr, List.length_cons, List.range'_succ]
      rfl
    · rw [hnext', List.length_cons]
      omega
    · grind
    · rw [List.mem_cons, not_or] at ha
      rw [hother a ha.2]
      exact Function.update_of_ne ha.1 _ _

/-! ## Moving the messages -/

/-- Between the old channels of a guild and its new ones: ids and owners stay, every new
channel has room, and so has every old one whose id was not taken. -/
structure Moved (s₀ : Store) (news olds : List Nat) (taken : Snowflake → Prop) (s : Store) : Prop where
  lists : s.guilds = s₀.guilds ∧ s.dms = s₀.dms ∧ s.next = s₀.next
  other : ∀ a, a ∉ news → a ∉ olds → s.heap a = s₀.heap a
  same : ∀ a x, s₀.heap a = some x → ∃ y, s.heap a = some y ∧ y.id = x.id ∧ y.guildId = x.guildId
  news : ∀ a ∈ news, (s.chan a).Fits
  olds : ∀ a ∈ olds, ¬ taken (s.chan a).id → (s.chan a).Fits

section
variable {s₀ s : Store} {news olds : List Nat} {taken : Snowflake → Prop}

theorem Moved.chan_id (h : Moved s₀ news olds taken s) {a : Nat} {x : Channel}
    (hx : s₀.heap a = some x) : (s.chan a).id = x.id := by
  obtain ⟨y, hy, hid, -⟩ := h.same a x hx
  rw [Store.chan_of hy, hid]

/-- One pair of channels: the old one must have room if the new one takes its messages. -/
theorem Moved.move (h : Moved s₀ news olds taken s) (hdisj : ∀ n ∈ news, n ∉ olds) {nc oc : Nat}
    (hnc : nc ∈ news) (hoc : oc ∈ olds) {x o : Channel} (hx : s₀.heap nc = some x)
    (ho : s₀.heap oc = some o) (htaken : taken x.id) (hfits : o.id = x.id → (s.chan oc).Fits) :
    Moved s₀ news olds taken (moveMessages s nc oc) ∧
      ∀ a ∈ olds, a ≠ oc → (moveMessages s nc oc).heap a = s.heap a := by
  obtain ⟨y, hy, hyid, hyown⟩ := h.same nc x hx
  obtain ⟨p, hp, hpid, hpown⟩ := h.same oc o ho
  have hne : oc ≠ nc := fun heq => hdisj nc hnc (heq ▸ hoc)
  have hyc := Store.chan_of hy
  have hpc := Store.chan_of hp
  unfold moveMessages
  rw [hyc, hpc]
  split
  swap
  · exact ⟨h, fun _ _ _ => rfl⟩
  rename_i heq
  dsimp only
  generalize hy' : ({ y with
      messages := p.messages
      room := p.room
      messageCap := p.messageCap
      loaded := p.loaded
      hasMore := p.hasMore } : Channel) = y'
  have hput : (s.put nc y').chan oc = p := Store.chan_of ((Function.update_of_ne hne _ _).trans hp)
  rw [hput]
  generalize hp' : ({ p with messages := [], room := 0 } : Channel) = p'
  have hheap : ∀ a, ((s.put nc y').put oc p').heap a =
      if a = oc then some p' else if a = nc then some y' else s.heap a := by
    intro a
    simp only [Store.put, Function.update_apply]
  have hkeep : ∀ a, a ≠ oc → a ≠ nc → ((s.put nc y').put oc p').chan a = s.chan a := by
    intro a h1 h2
    rw [Store.chan, hheap, if_neg h1, if_neg h2, ← Store.chan]
  refine ⟨⟨h.lists, fun a hn ho' => ?_, fun a z hz => ?_, fun a ha => ?_, fun a ha hno => ?_⟩, ?_⟩
  · have h1 : a ≠ oc := fun heq => ho' (heq ▸ hoc)
    have h2 : a ≠ nc := fun heq => hn (heq ▸ hnc)
    rw [hheap, if_neg h1, if_neg h2]
    exact h.other a hn ho'
  · rw [hheap]
    split
    · grind
    · split
      · grind
      · exact h.same a z hz
  · have hao : a ≠ oc := fun heq => hdisj a ha (heq ▸ hoc)
    by_cases han : a = nc
    · -- The new channel has the array of the old one.
      have hold := hfits (hpid.symm.trans (heq.trans hyid))
      rw [hpc] at hold
      rw [Store.chan, hheap, if_neg hao, if_pos han, Option.getD_some, ← hy']
      exact hold
    · rw [hkeep a hao han]
      exact h.news a ha
  · have han : a ≠ nc := fun heq => hdisj nc hnc (heq ▸ ha)
    by_cases hao : a = oc
    · have hid : (((s.put nc y').put oc p').chan a).id = x.id := by
        rw [Store.chan, hheap, if_pos hao, Option.getD_some, ← hp']
        exact heq.trans hyid
      rw [hid] at hno
      exact absurd htaken hno
    · rw [hkeep a hao han] at hno ⊢
      exact h.olds a ha hno
  · grind

/-- One new channel with all old ones, `os` of them to come. -/
theorem Moved.inner (hdisj : ∀ n ∈ news, n ∉ olds) {nc : Nat} (hnc : nc ∈ news) {x : Channel}
    (hx : s₀.heap nc = some x) (hlive : ∀ o ∈ olds, (s₀.heap o).isSome = true) (htaken : taken x.id)
    {os : List Nat} (hsub : ∀ o ∈ os, o ∈ olds) (honce : os.Nodup) (h : Moved s₀ news olds taken s)
    (hfits : ∀ o ∈ os, (s.chan o).id = x.id → (s.chan o).Fits) :
    Moved s₀ news olds taken (os.foldl (fun s oc => moveMessages s nc oc) s) := by
  induction os generalizing s with
  | nil => exact h
  | cons o os ih =>
    have ho := hsub o List.mem_cons_self
    obtain ⟨y, hy⟩ := Option.isSome_iff_exists.mp (hlive o ho)
    have hid := h.chan_id hy
    obtain ⟨hmoved, hrest⟩ := h.move hdisj hnc ho hx hy htaken
      (fun heq => hfits o List.mem_cons_self (hid.trans heq))
    rw [List.nodup_cons] at honce
    refine ih (fun o' ho' => hsub o' (List.mem_cons_of_mem _ ho')) honce.2 hmoved (fun o' ho' => ?_)
    have hne : o' ≠ o := fun heq => honce.1 (heq ▸ ho')
    have hsame : (moveMessages s nc o).chan o' = s.chan o' := by
      rw [Store.chan, hrest o' (hsub o' (List.mem_cons_of_mem _ ho')) hne, ← Store.chan]
    rw [hsame]
    exact hfits o' (List.mem_cons_of_mem _ ho')

/-- All new channels, `ns` of them to come; no two have one id. -/
theorem Moved.outer (hdisj : ∀ n ∈ news, n ∉ olds) (hlive : ∀ o ∈ olds, (s₀.heap o).isSome = true)
    (honce : olds.Nodup) {ns : List Nat} (hsub : ∀ n ∈ ns, n ∈ news)
    (hnews : ∀ n ∈ ns, (s₀.heap n).isSome = true) (hids : (ns.map fun n => (s₀.chan n).id).Nodup)
    (hfree : ∀ n ∈ ns, ¬ taken (s₀.chan n).id) (h : Moved s₀ news olds taken s) :
    ∃ taken', Moved s₀ news olds taken'
      (ns.foldl (fun s nc => olds.foldl (fun s oc => moveMessages s nc oc) s) s) := by
  induction ns generalizing s taken with
  | nil => exact ⟨taken, h⟩
  | cons n ns ih =>
    obtain ⟨x, hx⟩ := Option.isSome_iff_exists.mp (hnews n List.mem_cons_self)
    have hxc := Store.chan_of hx
    have hn := hfree n List.mem_cons_self
    rw [hxc] at hn
    rw [List.map_cons, List.nodup_cons, hxc] at hids
    -- The id of this channel is taken from now on.
    have hmore : Moved s₀ news olds (fun i => taken i ∨ i = x.id) s :=
      ⟨h.lists, h.other, h.same, h.news, fun a ha hno => h.olds a ha (not_or.mp hno).1⟩
    have hinner := hmore.inner hdisj (hsub n List.mem_cons_self) hx hlive (.inr rfl)
      (fun _ ho => ho) honce (fun o ho heq => h.olds o ho (heq ▸ hn))
    refine ih (fun m hm => hsub m (List.mem_cons_of_mem _ hm))
      (fun m hm => hnews m (List.mem_cons_of_mem _ hm)) hids.2 (fun m hm => ?_) hinner
    rw [not_or]
    refine ⟨hfree m (List.mem_cons_of_mem _ hm), fun heq => hids.1 ?_⟩
    exact heq ▸ List.mem_map_of_mem hm

end

/-! ## The guild in the store -/

/-- A guild payload agrees with its own guild id, has no id twice, and none of a channel
outside the guild it replaces. -/
structure GuildConsistent (s : Store) (j : Json) : Prop where
  home : ∀ c ∈ jsonItems "channels" j, jsonId "guild_id" c = 0 ∨ jsonId "guild_id" c = jsonId "id" j
  once : ((jsonItems "channels" j).map (jsonId "id")).Nodup
  dms : ∀ c ∈ jsonItems "channels" j, ∀ a ∈ s.dms, (s.chan a).id ≠ jsonId "id" c
  guilds : ∀ c ∈ jsonItems "channels" j, ∀ g ∈ s.guilds, g.id ≠ jsonId "id" j →
    ∀ a ∈ g.channels, (s.chan a).id ≠ jsonId "id" c

section
variable {s s' : Store} {gid : Snowflake} {cs : List Json} {as : List Nat}

theorem Parsed.made_of_mem (hp : Parsed gid cs s as s') {a : Nat} (ha : a ∈ as) :
    ∃ i, ∃ hi : i < cs.length, a = s.next + i ∧ s'.heap a = some (newChannel gid cs[i]) := by
  rw [hp.addresses, List.mem_range'_1] at ha
  obtain ⟨i, rfl⟩ := Nat.exists_eq_add_of_le ha.1
  exact ⟨i, by omega, rfl, hp.made i (by omega)⟩

theorem Parsed.notMem (hp : Parsed gid cs s as s') {a : Nat} (ha : a < s.next) : a ∉ as := by
  rw [hp.addresses, List.mem_range'_1]
  omega

theorem Parsed.ids_nodup (hp : Parsed gid cs s as s') (honce : (cs.map (jsonId "id")).Nodup)
    {channels : List Nat} (hperm : channels.Perm as) :
    (channels.map fun n => (s'.chan n).id).Nodup := by
  apply (hperm.map _).nodup_iff.mpr
  have heq : as.map (fun n => (s'.chan n).id) = cs.map (jsonId "id") := by
    rw [hp.addresses]
    apply List.ext_getElem
    · simp
    · intro i h1 h2
      have hi : i < cs.length := by simpa using h2
      rw [List.getElem_map, List.getElem_map, List.getElem_range', Nat.one_mul,
        Store.chan_of (hp.made i hi)]
      rfl
  rw [heq]
  exact honce

/-- The new channels of a guild that replaces one with these old channels. -/
theorem Parsed.moved (hp : Parsed gid cs s as s') (honce : (cs.map (jsonId "id")).Nodup)
    {channels olds : List Nat} (hperm : channels.Perm as) (holds : olds.Nodup)
    (hlive : ∀ o ∈ olds, o < s.next ∧ ∃ x, s.heap o = some x ∧ x.Fits) :
    ∃ taken, Moved s' channels olds taken
      (channels.foldl (fun s nc => olds.foldl (fun s oc => moveMessages s nc oc) s) s') := by
  have hold : ∀ o ∈ olds, ∃ x, s'.heap o = some x ∧ x.Fits := by
    intro o ho
    obtain ⟨hlt, x, hx, hfits⟩ := hlive o ho
    exact ⟨x, (hp.other o (hp.notMem hlt)).trans hx, hfits⟩
  have hnew : ∀ n ∈ channels, ∃ x, s'.heap n = some x ∧ x.Fits := by
    intro n hn
    obtain ⟨i, hi, -, hx⟩ := hp.made_of_mem (hperm.mem_iff.mp hn)
    exact ⟨_, hx, (newChannel_spec _ _).1⟩
  have hfits : ∀ a, (∃ x, s'.heap a = some x ∧ x.Fits) → (s'.chan a).Fits := by
    rintro a ⟨x, hx, hfits⟩
    rw [Store.chan_of hx]
    exact hfits
  have hsome : ∀ a, (∃ x, s'.heap a = some x ∧ x.Fits) → (s'.heap a).isSome = true := by
    rintro a ⟨x, hx, -⟩
    rw [hx]
    rfl
  -- Before the first pair nothing is taken.
  have hstart : Moved s' channels olds (fun _ => False) s' :=
    ⟨⟨rfl, rfl, rfl⟩, fun _ _ _ => rfl, fun a x hx => ⟨x, hx, rfl, rfl⟩,
      fun a ha => hfits a (hnew a ha), fun a ha _ => hfits a (hold a ha)⟩
  exact hstart.outer (fun n hn ho => hp.notMem (hlive n ho).1 (hperm.mem_iff.mp hn))
    (fun o ho => hsome o (hold o ho)) holds (fun _ hn => hn) (fun n hn => hsome n (hnew n hn))
    (hp.ids_nodup honce hperm) (fun _ _ hno => hno)

theorem Parsed.owned (hp : Parsed gid cs s as s') {old rest : List (Snowflake × Nat)}
    (h : Owned Channel.guildId Channel.id Channel.Fits s.heap s.next (old ++ rest))
    (hhome : ∀ c ∈ cs, jsonId "guild_id" c = 0 ∨ jsonId "guild_id" c = gid)
    (honce : (cs.map (jsonId "id")).Nodup)
    (hclash : ∀ c ∈ cs, ∀ r ∈ rest, ∀ x, s.heap r.2 = some x → x.id ≠ jsonId "id" c)
    {heap : Nat → Option Channel} {channels : List Nat} (hperm : channels.Perm as)
    (hkeep : ∀ r ∈ rest, heap r.2 = s.heap r.2)
    (hdead : ∀ a, a ∉ as → a ∉ rest.map Prod.snd → heap a = none)
    (hnew : ∀ a x, s'.heap a = some x → a ∈ as →
      ∃ y, heap a = some y ∧ y.id = x.id ∧ y.guildId = x.guildId ∧ y.Fits) :
    Owned Channel.guildId Channel.id Channel.Fits heap s'.next (channels.map (gid, ·) ++ rest) := by
  have hsnd : (channels.map ((gid, ·) : Nat → Snowflake × Nat)).map Prod.snd = channels := by
    rw [List.map_map]
    exact List.map_id'' (fun _ => rfl) channels
  -- Each row is the one of a payload channel.
  have hrow : ∀ r ∈ channels.map ((gid, ·) : Nat → Snowflake × Nat), r.1 = gid ∧ r.2 ∈ as ∧
      ∃ i, ∃ hi : i < cs.length, r.2 = s.next + i ∧
        ∃ y, heap r.2 = some y ∧ y.id = jsonId "id" cs[i] ∧ y.guildId = gid ∧ y.Fits := by
    intro r hr
    obtain ⟨a, ha, rfl⟩ := List.mem_map.mp hr
    have has := hperm.mem_iff.mp ha
    obtain ⟨i, hi, heq, hmade⟩ := hp.made_of_mem has
    obtain ⟨y, hy, hid, hown, hfits⟩ := hnew _ _ hmade has
    obtain ⟨-, hid', hown'⟩ := newChannel_spec gid cs[i]
    grind
  apply h.exchange
  · rw [hp.next]
    omega
  · intro r hr
    obtain ⟨-, -, i, hi, heq, -⟩ := hrow r hr
    rw [hp.next, heq]
    omega
  · rw [hsnd]
    apply hperm.nodup_iff.mpr
    rw [hp.addresses]
    exact List.nodup_range'
  · exact hkeep
  · grind
  · intro r hr
    obtain ⟨hgid, -, i, hi, -, y, hy, -, hown, hfits⟩ := hrow r hr
    exact ⟨y, hy, hown.trans hgid.symm, hfits⟩
  · intro r hr x hx
    obtain ⟨-, -, i, hi, heq, y, hy, hid, -⟩ := hrow r hr
    rw [hx] at hy
    obtain rfl := Option.some.inj hy
    constructor
    · intro r' hr' x' hx' hkey
      obtain ⟨-, -, i', hi', heq', y', hy', hid', -⟩ := hrow r' hr'
      rw [hx'] at hy'
      obtain rfl := Option.some.inj hy'
      rw [heq, heq']
      rw [hid, hid'] at hkey
      have hmap : ∀ k (hk : k < cs.length),
          (cs.map (jsonId "id")).get ⟨k, by rwa [List.length_map]⟩ = jsonId "id" cs[k] := by simp
      rw [← hmap i hi, ← hmap i' hi'] at hkey
      have hsame := List.nodup_iff_injective_get.mp honce hkey
      rw [Fin.mk.inj hsame]
    · grind

/-- No channel of a consistent payload has the id of one that stays. -/
theorem GuildConsistent.clash {j : Json} (h : GuildConsistent s j) {guilds : List Guild}
    (hsub : ∀ g ∈ guilds, g ∈ s.guilds ∧ g.id ≠ jsonId "id" j) :
    ∀ c ∈ jsonItems "channels" j, ∀ r ∈ rowsOf s.dms guilds, ∀ x, s.heap r.2 = some x →
      x.id ≠ jsonId "id" c := by
  intro c hc r hr x hx
  rw [← Store.chan_of hx]
  rcases List.mem_append.mp hr with hr | hr
  · obtain ⟨a, ha, rfl⟩ := List.mem_map.mp hr
    exact h.dms c hc a ha
  · obtain ⟨g, hg, hr⟩ := List.mem_flatMap.mp hr
    obtain ⟨a, ha, rfl⟩ := List.mem_map.mp hr
    exact h.guilds c hc g (hsub g hg).1 (hsub g hg).2 a ha

theorem Store.Inv.guildAppend (h : s.Inv) {j : Json} (hj : GuildConsistent s j)
    (hp : Parsed (jsonId "id" j) (jsonItems "channels" j) s as s')
    (hnone : storeGuild s (jsonId "id" j) = none) {channels : List Nat} (hperm : channels.Perm as) :
    Store.Inv { s' with guilds := s'.guilds ++ [⟨jsonId "id" j, channels⟩] } := by
  have hnot := storeGuild_none hnone
  have hids := h.guildIds
  have howned := @Parsed.owned s s' _ _ as hp [] s.rows h.owned hj.home hj.once
    (hj.clash fun g hg => ⟨hg, fun heq => hnot (heq ▸ List.mem_map_of_mem hg)⟩) s'.heap channels hperm
    (fun r hr => hp.other _ (hp.notMem (h.owned.bound r hr)))
    (fun a ha hr => (hp.other a ha).trans (h.owned.dead a hr))
    (fun a x hx ha => ⟨x, hx, rfl, rfl, ?_⟩)
  · refine ⟨howned.perm ?_, ?_⟩
    · have hrows := rowsOf_perm s.dms ⟨jsonId "id" j, channels⟩ s.guilds []
      rw [List.append_nil] at hrows
      rw [hp.lists.1, hp.lists.2.1]
      exact hrows
    · rw [hp.lists.1, List.map_append, List.map_cons, List.map_nil, List.nodup_append]
      refine ⟨hids, List.nodup_singleton _, ?_⟩
      rintro a ha b hb rfl
      rw [List.mem_singleton] at hb
      rw [hb] at ha
      exact hnot ha
  · -- A new channel has no messages.
    obtain ⟨i, hi, -, hmade⟩ := hp.made_of_mem ha
    rw [hmade] at hx
    obtain rfl := Option.some.inj hx
    exact (newChannel_spec _ _).1

theorem Store.Inv.guildReplace (h : s.Inv) {j : Json} (hj : GuildConsistent s j)
    (hp : Parsed (jsonId "id" j) (jsonItems "channels" j) s as s') {old : Guild}
    (hold : storeGuild s (jsonId "id" j) = some old) {channels : List Nat}
    (hperm : channels.Perm as) : (guildReplace s' ⟨jsonId "id" j, channels⟩ old).Inv := by
  obtain ⟨l₁, l₂, hsplit, hid, hreplace, -⟩ := storeGuild_split hold
  have hids := h.guildIds
  have howned : Owned Channel.guildId Channel.id Channel.Fits s.heap s.next
      (old.rows ++ rowsOf s.dms (l₁ ++ l₂)) := by
    have hrows := h.owned
    rw [Store.rows, hsplit] at hrows
    exact hrows.perm (rowsOf_perm _ _ _ _).symm
  have hsnd : old.rows.map Prod.snd = old.channels := by simp [Guild.rows, Function.comp_def]
  have honce := howned.once
  rw [List.map_append, List.nodup_append, hsnd] at honce
  have hlive : ∀ o ∈ old.channels, o < s.next ∧ ∃ x, s.heap o = some x ∧ x.Fits := by
    intro o ho
    have hrow : (old.id, o) ∈ old.rows ++ rowsOf s.dms (l₁ ++ l₂) :=
      List.mem_append_left _ (List.mem_map_of_mem ho)
    obtain ⟨x, hx, -, hfits⟩ := howned.held _ hrow
    exact ⟨howned.bound _ hrow, x, hx, hfits⟩
  have hrest : ∀ r ∈ rowsOf s.dms (l₁ ++ l₂), r.2 ∉ old.channels ∧ r.2 ∉ as := by
    intro r hr
    exact ⟨fun ho => honce.2.2 _ ho _ (List.mem_map_of_mem hr) rfl,
      hp.notMem (howned.bound r (List.mem_append_right _ hr))⟩
  obtain ⟨taken, hmoved⟩ := hp.moved hj.once hperm honce.1 hlive
  unfold Discord.guildReplace
  dsimp only
  generalize channels.foldl (fun s nc => old.channels.foldl (fun s oc => moveMessages s nc oc) s) s' = m
    at hmoved ⊢
  have hguilds : m.guilds = s.guilds := hmoved.lists.1.trans hp.lists.1
  have hdms : m.dms = s.dms := hmoved.lists.2.1.trans hp.lists.2.1
  have hother : ∀ a, a ∉ old.channels → a ∉ as → (m.free old.channels).heap a = s.heap a := by
    intro a hno has
    dsimp only [Store.free]
    rw [if_neg hno, hmoved.other a (fun hn => has (hperm.mem_iff.mp hn)) hno, hp.other a has]
  have hothers : ∀ g ∈ l₁ ++ l₂, g ∈ s.guilds ∧ g.id ≠ jsonId "id" j := by grind
  have hfinal := @Parsed.owned s s' _ _ as hp _ _ howned hj.home hj.once (hj.clash hothers)
    (m.free old.channels).heap channels hperm (fun r hr => hother _ (hrest r hr).1 (hrest r hr).2)
    (fun a has hr => ?_) (fun a x hx ha => ?_)
  · rw [hguilds, hreplace]
    refine ⟨?_, ?_⟩
    · dsimp only [Store.rows, Store.free] at hfinal ⊢
      rw [hdms, hmoved.lists.2.2]
      exact hfinal.perm (rowsOf_perm _ _ _ _)
    · rw [hsplit] at hids
      simpa [hid] using hids
  · -- What is in no row is dead, also if it was an old channel.
    by_cases ho : a ∈ old.channels
    · exact if_pos ho
    · rw [hother a ho has]
      apply howned.dead
      rw [List.map_append, List.mem_append, hsnd]
      exact not_or.mpr ⟨ho, hr⟩
  · obtain ⟨y, hy, hyid, hyown⟩ := hmoved.same a x hx
    have hfits := hmoved.news a (hperm.mem_iff.mpr ha)
    have hno : a ∉ old.channels := fun ho => hp.notMem (hlive a ho).1 ha
    rw [Store.chan_of hy] at hfits
    exact ⟨y, (if_neg hno).trans hy, hyid, hyown, hfits⟩

/-- **`guild_parse` and `guild_store`.** -/
theorem Store.Inv.storeOnGuildCreate (h : s.Inv) {j : Json}
    (hj : jsonBool "unavailable" j = false → GuildConsistent s j) : (storeOnGuildCreate s j).Inv := by
  unfold Discord.storeOnGuildCreate guildParse
  by_cases hun : jsonBool "unavailable" j = true
  · rw [if_pos hun]
    exact h
  rw [if_neg hun]
  dsimp only
  have hcons := hj (Bool.not_eq_true _ ▸ hun)
  have hp := parseChannels_spec (jsonId "id" j) (jsonItems "channels" j) s
  have hsort := List.mergeSort_perm (parseChannels (jsonId "id" j) (jsonItems "channels" j) s).1
    fun a b => channelOrder ((parseChannels (jsonId "id" j) (jsonItems "channels" j) s).2.chan a)
      ((parseChannels (jsonId "id" j) (jsonItems "channels" j) s).2.chan b)
  have hsame : storeGuild (parseChannels (jsonId "id" j) (jsonItems "channels" j) s).2 (jsonId "id" j) =
      storeGuild s (jsonId "id" j) := by
    rw [storeGuild, hp.lists.1, storeGuild]
  unfold guildStore
  rw [hsame]
  cases hg : storeGuild s (jsonId "id" j) with
  | none => exact h.guildAppend hcons hp hg hsort
  | some old => exact h.guildReplace hcons hp hg hsort

end

end Discord

/-!
# Runs of dispatches

A dispatch is a row of events, one for each guild and each private channel of a
payload.  `EventConsistent` says that the payload of an event does not contradict
the store it meets, and `reachable_integrity` that the store keeps its integrity
as long as none does.
-/

namespace Discord

/-- What a dispatch does to the store, one list change after the other. -/
inductive StoreEvent
  | reset
  | guild (j : Json)
  | settings (d : Json)
  | dm (c : Json)
  | ready
  | guildDelete (j : Json)
  | channel (c : Json)
  | channelDelete (c : Json)
  | messages (id : Snowflake) (arr : Json) (older : Bool)

def applyEvent (s : Store) : StoreEvent → Store
  | .reset => storeReset s
  | .guild j => storeOnGuildCreate s j
  | .settings d => readySettings s d
  | .dm c => dmNew s c
  | .ready => { sortDms s with ready := true }
  | .guildDelete j => storeOnGuildDelete s j
  | .channel c => storeOnChannel s c
  | .channelDelete c => storeOnChannelDelete s c
  | .messages id arr older => storeLoadMessages s id arr older

/-- A dispatch that changes the lists, or an answer with messages. -/
inductive Dispatch
  | ready (d : Json)
  | guildCreate (j : Json)
  | guildDelete (j : Json)
  | channelCreate (c : Json)
  | channelUpdate (c : Json)
  | channelDelete (c : Json)
  | messages (id : Snowflake) (arr : Json) (older : Bool)

/-- `dispatch`, and `on_messages`. -/
def dispatch (s : Store) : Dispatch → Store
  | .ready d => storeOnReady (if s.ready then storeReset s else s) d
  | .guildCreate j => storeOnGuildCreate s j
  | .guildDelete j => storeOnGuildDelete s j
  | .channelCreate c => storeOnChannel s c
  | .channelUpdate c => storeOnChannel s c
  | .channelDelete c => storeOnChannelDelete s c
  | .messages id arr older => storeLoadMessages s id arr older

/-- The events of a dispatch. -/
def eventsOf (s : Store) : Dispatch → List StoreEvent
  | .ready d =>
      (if s.ready then [.reset] else []) ++ (jsonItems "guilds" d).map .guild ++ [.settings d] ++
        (jsonItems "private_channels" d).map .dm ++ [.ready]
  | .guildCreate j => [.guild j]
  | .guildDelete j => [.guildDelete j]
  | .channelCreate c => [.channel c]
  | .channelUpdate c => [.channel c]
  | .channelDelete c => [.channelDelete c]
  | .messages id arr older => [.messages id arr older]

/-- The events as a machine. -/
def eventMachine : Machine Store StoreEvent Empty where
  start s := s = {}
  step s e := (applyEvent s e, [])

/-- The dispatches as a machine; the store is empty at first. -/
def dispatchMachine : Machine Store Dispatch Empty where
  start s := s = {}
  step s d := (dispatch s d, [])

theorem eventMachine_run (s : Store) (es : List StoreEvent) :
    eventMachine.run s es = es.foldl applyEvent s := by
  induction es generalizing s with
  | nil => rfl
  | cons e es ih => exact ih (applyEvent s e)

theorem dispatch_run (s : Store) (d : Dispatch) :
    dispatch s d = eventMachine.run s (eventsOf s d) := by
  rw [eventMachine_run]
  cases d with
  | ready d =>
    simp only [eventsOf, List.foldl_append, List.foldl_map, List.foldl_cons, List.foldl_nil]
    by_cases hr : s.ready = true
    · simp [dispatch, storeOnReady, applyEvent, hr]
    · simp [dispatch, storeOnReady, applyEvent, hr]
  | _ => rfl

/-! ## Consistent payloads -/

/-- The payload of an event does not contradict the store: a channel does not name
another guild than the one it is in, no id comes twice, and no channel of a guild
with the id 0 is deleted. -/
def EventConsistent (s : Store) : StoreEvent → Prop
  | .guild j => jsonBool "unavailable" j = false → GuildConsistent s j
  | .dm c => jsonId "guild_id" c = 0 ∧ ∀ a ∈ s.listed, (s.chan a).id ≠ jsonId "id" c
  | .channel c => ∀ a ∈ s.listed, (s.chan a).id = jsonId "id" c →
      jsonId "guild_id" c = 0 ∨ jsonId "guild_id" c = (s.chan a).guildId
  | .channelDelete c =>
      ∀ g ∈ s.guilds, g.id = 0 → ∀ a ∈ g.channels, (s.chan a).id ≠ jsonId "id" c
  | _ => True

/-- Each event of a dispatch is consistent with the store before it. -/
def Consistent (s : Store) (d : Dispatch) : Prop :=
  ∀ pre e post, eventsOf s d = pre ++ e :: post → EventConsistent (eventMachine.run s pre) e

theorem Store.Inv.storeOnChannel {s : Store} (h : s.Inv) {c : Json}
    (hc : EventConsistent s (.channel c)) : (storeOnChannel s c).Inv := by
  unfold Discord.storeOnChannel
  split
  · rename_i a ha
    obtain ⟨hlisted, hid⟩ := storeChannel_some ha
    obtain ⟨-, -, hfits⟩ := h.row hlisted
    have hown : (channelFill (s.chan a) c).guildId = (s.chan a).guildId := by
      have hgid := hc a hlisted hid
      dsimp only [channelFill]
      grind
    have hput := h.put hlisted hid.symm hown hfits
    dsimp only
    split
    · exact hput
    · rename_i g hg
      exact hput.setChannels_perm hg (List.mergeSort_perm _ _)
  · rename_i hnone
    have hnew := storeChannel_none hnone
    dsimp only
    split
    · split
      · exact h
      · rename_i g hg
        exact h.guildAddChannel hg hnew (List.mergeSort_perm _ _)
    · rename_i hno
      rw [not_not] at hno
      exact (h.dmNew hno hnew).sortDms

/-- **One event.** -/
theorem Store.Inv.applyEvent {s : Store} (h : s.Inv) {e : StoreEvent} (he : EventConsistent s e) :
    (applyEvent s e).Inv := by
  cases e with
  | reset => exact h.storeReset
  | guild j => exact h.storeOnGuildCreate he
  | settings d => exact h.readySettings d
  | dm c => exact h.dmNew he.1 he.2
  | ready => exact ⟨h.sortDms.owned, h.guildIds⟩
  | guildDelete j => exact h.storeOnGuildDelete j
  | channel c => exact h.storeOnChannel he
  | channelDelete c => exact h.storeOnChannelDelete he
  | messages id arr older => exact h.storeLoadMessages id arr older

theorem Store.Inv.empty : Store.Inv {} := ⟨Owned.empty, List.nodup_nil⟩

/-- **Integrity of the store.**  Along every run of consistent dispatches the store keeps
its integrity. -/
theorem reachable_integrity {s : Store} (h : dispatchMachine.Reachable Consistent s) : s.Integrity := by
  refine Store.Inv.integrity (h.invariant (P := Store.Inv) ?_ ?_)
  · rintro s rfl
    exact Store.Inv.empty
  · intro s d hs hd
    have hrun : (dispatchMachine.step s d).1 = eventMachine.run s (eventsOf s d) := dispatch_run s d
    rw [hrun]
    exact @Machine.run_invariant _ _ _ eventMachine EventConsistent Store.Inv
      (fun _ _ h he => h.applyEvent he) s hs _ hd

/-! ## Two READY payloads -/

/-- An id field. -/
def idField (key : String) (digits : String) : Vfs.CString × Json :=
  (Vfs.ofAscii key, .string (Vfs.ofAscii digits))

def arrayField (key : String) (items : List Json) : Vfs.CString × Json :=
  (Vfs.ofAscii key, .array items)

/-- Guild 1 with channel 7. -/
def guildPayload : Json :=
  .object [idField "id" "1", arrayField "channels" [.object [idField "id" "7"]]]

/-- READY with it, and nothing else. -/
def readyPayload : Json := .object [arrayField "guilds" [guildPayload]]

/-- READY, then the deletion of channel 7. -/
theorem reachable_integrity_deleted :
    (dispatch (dispatch {} (.ready readyPayload))
      (.channelDelete (.object [idField "id" "7"]))).Integrity := by
  have hready : Consistent {} (.ready readyPayload) := by
    have hevents : eventsOf {} (.ready readyPayload) =
        [.guild guildPayload, .settings readyPayload, .ready] := rfl
    unfold Consistent
    rw [hevents, Machine.guarded_cons, Machine.guarded_cons, Machine.guarded_cons]
    refine ⟨fun _ => ⟨?_, ?_, ?_, ?_⟩, trivial, trivial, Machine.guarded_nil⟩ <;> decide
  have hdelete : Consistent (dispatch {} (.ready readyPayload))
      (.channelDelete (.object [idField "id" "7"])) := by
    unfold Consistent
    rw [eventsOf, Machine.guarded_cons]
    refine ⟨?_, Machine.guarded_nil⟩
    show ∀ g ∈ (dispatch {} (.ready readyPayload)).guilds, _
    decide +kernel
  exact reachable_integrity (.step (m := dispatchMachine) _
    (.step (m := dispatchMachine) _ (.start rfl) hready) hdelete)

/-- A private channel that names guild 5. -/
def strayPayload : Json :=
  .object [arrayField "private_channels" [.object [idField "id" "7", idField "guild_id" "5"]]]

/-- Its deletion frees it and leaves it in the list. -/
theorem freed_channel_listed :
    ¬ ∀ s, dispatchMachine.Reachable (fun _ _ => True) s → s.Integrity := by
  intro hall
  have hint := hall (dispatch (dispatch {} (.ready strayPayload))
      (.channelDelete (.object [idField "id" "7"])))
    (.step (m := dispatchMachine) (.channelDelete (.object [idField "id" "7"]))
      (.step (m := dispatchMachine) (.ready strayPayload) (.start rfl) trivial) trivial)
  have hlisted : 0 ∈ (dispatch (dispatch {} (.ready strayPayload))
      (.channelDelete (.object [idField "id" "7"]))).listed := by decide +kernel
  have hfreed : (dispatch (dispatch {} (.ready strayPayload))
      (.channelDelete (.object [idField "id" "7"]))).heap 0 = none := by decide +kernel
  have hlive := (hint.live 0).mpr hlisted
  rw [hfreed] at hlive
  cases hlive

end Discord
