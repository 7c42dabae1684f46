import Aestival.Web.ConversationList
import Mathlib.Data.List.Dedup

/-!
# The limit of the list

`respectsLimit_iff` says when `GET /api/ui/conversations` answers with the most recent conversations
of all agents. Nothing is cut off behind the sort, so no more may be listed than are wanted
(`recent_of_few` is why that is enough for the databases that are opened). A directory whose name is
no id is found, and then another one is opened, so its database is not read (`Contexts.Reads`), and
must not matter (`UnreadNegligible`).
-/

namespace Aestival

variable {orderBy : List ConvoRow → List ConvoRow} {contexts : Contexts}
  {query : Option JsString} {limit : Int}

/-! ### The most recent ones -/

/-- Everything that is not listed. -/
def unlisted (orderBy : List ConvoRow → List ConvoRow) (limit : Int)
    (agents : List (JsString × List MessageRow)) : List (JsString × ConvoRow) :=
  (agents.map (orderedConversations orderBy)).flatMap (dropLimit limit)

theorem perm_listed_unlisted (hsort : SortsByLast orderBy) :
    (listedConversations orderBy limit (openedAgents contexts) ++
      unlisted orderBy limit (openedAgents contexts)).Perm
        (conversationsIn (openedAgents contexts)) := by
  refine (perm_takeLimit_dropLimit _).trans ?_
  rw [List.flatten_eq_flatMap, List.flatMap_map, conversationsIn]
  exact List.Perm.flatMap_left _ fun agent _ => (hsort _).1.map _

theorem sorted_orderedConversations (hsort : SortsByLast orderBy)
    (agent : JsString × List MessageRow) :
    StableSort.SortedBy (fun c : JsString × ConvoRow => c.2.lastAt)
      (orderedConversations orderBy agent) :=
  List.pairwise_map.mpr (hsort (conversationsOf agent.2)).2

/-- A limit that is used as one is the one that is wanted, or larger. -/
theorem limitOf_spec (query : Option JsString) :
    limitOf query ≠ 0 ∧ 0 < wantedLimit query ∧
      (0 ≤ limitOf query → (wantedLimit query : Int) ≤ limitOf query) := by
  rw [wantedLimit, limitOf]
  cases query.bind parseInt with
  | none => decide
  | some n =>
    dsimp only
    split <;> omega

/-- **If no more than the limit are listed, they are the most recent ones** of the databases that
are opened. -/
theorem recent_of_few {wanted : Nat} (hsort : SortsByLast orderBy) (hne : limit ≠ 0)
    (hle : 0 ≤ limit → (wanted : Int) ≤ limit)
    (hfew : (listedConversations orderBy limit (openedAgents contexts)).length ≤ wanted) :
    (listedConversations orderBy limit (openedAgents contexts)).length =
        min wanted (conversationsIn (openedAgents contexts)).length ∧
      ∀ c ∈ listedConversations orderBy limit (openedAgents contexts),
        ∀ d ∈ unlisted orderBy limit (openedAgents contexts), d.2.lastAt ≤ c.2.lastAt := by
  have hperm : (listedConversations orderBy limit (openedAgents contexts) ++
      unlisted orderBy limit (openedAgents contexts)).Perm
        (conversationsIn (openedAgents contexts)) :=
    perm_listed_unlisted hsort
  have hlength := hperm.length_eq
  rw [List.length_append] at hlength
  -- when nothing is cut off
  have hnone (h : unlisted orderBy limit (openedAgents contexts) = []) :
      (listedConversations orderBy limit (openedAgents contexts)).length =
          min wanted (conversationsIn (openedAgents contexts)).length ∧
        ∀ c ∈ listedConversations orderBy limit (openedAgents contexts),
          ∀ d ∈ unlisted orderBy limit (openedAgents contexts), d.2.lastAt ≤ c.2.lastAt := by
    rw [h, List.length_nil] at hlength
    rw [h]
    exact ⟨by omega, fun _ _ => List.forall_mem_nil _⟩
  by_cases hneg : limit < 0
  · -- everything is listed
    refine hnone (List.flatMap_eq_nil_iff.mpr fun part _ => ?_)
    rw [dropLimit, if_pos hneg]
  · have htake : listedConversations orderBy limit (openedAgents contexts) =
        ((openedAgents contexts).map (orderedConversations orderBy)).flatMap
          (·.take limit.toNat) :=
      List.flatMap_congr fun part _ => if_neg hneg
    have hdrop : unlisted orderBy limit (openedAgents contexts) =
        ((openedAgents contexts).map (orderedConversations orderBy)).flatMap
          (·.drop limit.toNat) :=
      List.flatMap_congr fun part _ => if_neg hneg
    -- otherwise each agent lists at most the limit, and all together no more
    have hshort : (((openedAgents contexts).map (orderedConversations orderBy)).flatMap
        (·.take limit.toNat)).length ≤ limit.toNat := by
      rw [← htake]
      exact hfew.trans (by omega)
    rcases taken_from_one (by omega) hshort with hempty | ⟨part, hpart, hlisted, hunlisted, hlong⟩
    · exact hnone (hdrop.trans hempty)
    · -- all are from one agent, whose database has them in order
      obtain ⟨agent, -, rfl⟩ := List.mem_map.mp hpart
      have hsorted := sorted_orderedConversations hsort agent
      rw [← List.take_append_drop limit.toNat (orderedConversations orderBy agent)] at hsorted
      have hcount := congrArg List.length (htake.trans hlisted)
      rw [List.length_take] at hcount
      refine ⟨by omega, ?_⟩
      rw [htake, hlisted, hdrop, hunlisted]
      exact fun c hc d hd => (List.pairwise_append.mp hsorted).2.2 c hc d hd

/-- The number of conversations that are listed. -/
def listedCount (limit : Int) (contexts : Contexts) : Nat :=
  ((openedAgents contexts).map fun agent => countUnder limit (conversationsOf agent.2).length).sum

theorem length_listedConversations (hsort : SortsByLast orderBy) :
    (listedConversations orderBy limit (openedAgents contexts)).length =
      listedCount limit contexts := by
  rw [listedConversations, List.length_flatMap, List.map_map, listedCount]
  refine congrArg List.sum (List.map_congr_left fun agent _ => ?_)
  rw [Function.comp_apply, length_takeLimit, orderedConversations, List.length_map,
    (hsort _).1.length_eq]

/-- The texts of two times are in the order of the times. -/
def TextsInOrder (l : List (JsString × ConvoRow)) : Prop :=
  ∀ c ∈ l, ∀ d ∈ l, c.2.lastAt < d.2.lastAt → timeText c < timeText d

/-- Sorting by the texts sorts by the times exactly if the texts are in the order of the times. -/
theorem sortedBy_lastAt_iff {l : List (JsString × ConvoRow)} (hdated : ∀ c ∈ l, c.2.Dated) :
    StableSort.SortedBy (fun c : JsString × ConvoRow => c.2.lastAt)
      (StableSort.stableSort timeText l) ↔ TextsInOrder l := by
  have hsorted : StableSort.SortedBy timeText (StableSort.stableSort timeText l) :=
    StableSort.sortedBy_stableSort l
  constructor
  · intro htimes c hc d hd hlt
    -- the list is in order of the texts, and of the times as well
    have hboth : (StableSort.stableSort timeText l).Pairwise fun c d =>
        (timeText d ≤ timeText c ∧ d.2.lastAt ≤ c.2.lastAt) ∨
          (timeText c ≤ timeText d ∧ c.2.lastAt ≤ d.2.lastAt) :=
      hsorted.imp₂ (fun _ _ htext htime => .inl ⟨htext, htime⟩) htimes
    have hall := List.Pairwise.forall_of_forall_of_flip (fun _ _ => .inl ⟨le_rfl, le_rfl⟩) hboth
      (hboth.imp Or.symm)
    rcases hall (StableSort.mem_stableSort.mpr hc) (StableSort.mem_stableSort.mpr hd) with
      ⟨-, hge⟩ | ⟨hle, -⟩
    · exact absurd hlt (Int.not_lt.mpr hge)
    · -- the texts of different times differ
      refine lt_of_le_of_ne hle fun heq => ?_
      obtain ⟨s, hs⟩ := Option.isSome_iff_exists.mp (hdated c hc).2
      obtain ⟨s', hs'⟩ := Option.isSome_iff_exists.mp (hdated d hd).2
      rw [timeText, timeText, hs, hs'] at heq
      exact hlt.ne (JsDate.eq_of_collate_toISOString hs hs' heq)
  -- a list in order of the texts is one of the times, if texts tell the times
  · intro htexts
    refine hsorted.imp_of_mem fun hc hd hle => ?_
    rw [StableSort.mem_stableSort] at hc hd
    exact Int.not_lt.mp fun hlt => absurd hle (not_le_of_gt (htexts _ hc _ hd hlt))

/-! ### The databases that are read -/

/-- The database of the agent is the one that is opened: it is found, and its name is an id. -/
def Contexts.Reads (contexts : Contexts) (agentId : JsString) : Prop :=
  agentId ∈ discoverAgents contexts ∧ sanitizeAgentId agentId = agentId

theorem mem_agentDatabases_iff {agentId : JsString} {rows : List MessageRow} :
    (agentId, rows) ∈ agentDatabases contexts ↔
      (∃ e ∈ contexts.entries, e.name = agentId ∧ e.database = some rows) ∨
        agentId = js "default" ∧ contexts.root = some rows ∧
          ∀ e ∈ contexts.entries, e.name = js "default" → e.database = none := by
  have hown : ∀ {agentId rows}, (agentId, rows) ∈ (contexts.entries.filterMap fun e =>
      e.database.map (e.name, ·)) ↔
        ∃ e ∈ contexts.entries, e.name = agentId ∧ e.database = some rows := by
    intro agentId rows
    simp only [List.mem_filterMap, Option.map_eq_some_iff, Prod.mk.injEq]
    constructor
    · rintro ⟨e, he, _, hrows, hname, rfl⟩
      exact ⟨e, he, hname, hrows⟩
    · rintro ⟨e, he, hname, hrows⟩
      exact ⟨e, he, _, hrows, hname, rfl⟩
  rw [agentDatabases]
  split
  · next hdefault =>
    -- `default` has a database, so `root` does not count
    obtain ⟨⟨_, rows'⟩, hmem, rfl⟩ := List.mem_map.mp hdefault
    obtain ⟨e, he, hname, hrows⟩ := hown.mp hmem
    rw [hown]
    refine (or_iff_left fun h => ?_).symm
    rw [h.2.2 e he hname] at hrows
    exact nomatch hrows
  · next hdefault =>
    rw [List.mem_append, hown, Option.mem_toList, Option.map_eq_some_iff]
    refine or_congr_right ⟨?_, ?_⟩
    · rintro ⟨rows', hroot, heq⟩
      obtain ⟨rfl, rfl⟩ := Prod.mk.inj heq
      refine ⟨rfl, hroot, fun e he hname => Option.eq_none_iff_forall_ne_some.mpr fun rows
        hrows => ?_⟩
      exact hdefault (List.mem_map.mpr ⟨_, hown.mpr ⟨e, he, hname, hrows⟩, rfl⟩)
    · rintro ⟨rfl, hroot, -⟩
      exact ⟨rows, hroot, rfl⟩

/-- For an id, the database on the disk is opened. -/
theorem openDb_eq_some_iff {agentId : JsString} {rows : List MessageRow}
    (hid : sanitizeAgentId agentId = agentId) :
    openDb contexts agentId = some rows ↔ (agentId, rows) ∈ agentDatabases contexts := by
  rw [openDb, mem_agentDatabases_iff, hid]
  cases hfind : contexts.entries.find? (·.name = agentId) with
  -- no directory of this name: only the default agent has another database
  | none =>
    have hnone := List.find?_eq_none.mp hfind
    simp only [decide_eq_true_eq] at hnone
    rw [Option.bind_none, Option.none_or, or_iff_right fun ⟨e, he, hname, _⟩ => hnone e he hname]
    split
    · next hdefault =>
      subst hdefault
      exact ⟨fun h => ⟨rfl, h, fun e he hname => absurd hname (hnone e he)⟩, fun h => h.2.1⟩
    · next hother => exact iff_of_false (fun h => nomatch h) fun h => hother h.1
  | some e =>
    have he := List.mem_of_find?_eq_some hfind
    have hname : e.name = agentId := by simpa using List.find?_some hfind
    -- names of directories are unique
    have hunique : ∀ e' ∈ contexts.entries, e'.name = agentId → e' = e := fun e' he' hname' =>
      List.inj_on_of_nodup_map contexts.names he' he (hname'.trans hname.symm)
    rw [Option.bind_some, Option.or_eq_some_iff]
    constructor
    · rintro (hrows | ⟨hnone, hroot⟩)
      · exact Or.inl ⟨e, he, hname, hrows⟩
      · split at hroot
        · next hdefault =>
          refine Or.inr ⟨hdefault, hroot, fun e' he' hname' => ?_⟩
          rw [hunique e' he' (hname'.trans hdefault.symm), hnone]
        · exact nomatch hroot
    -- the directory's own database comes before that of the root
    · rintro (⟨e', he', hname', hrows⟩ | ⟨rfl, hroot, hnone⟩)
      · rw [hunique e' he' hname'] at hrows
        exact Or.inl hrows
      · exact Or.inr ⟨hnone e he hname, (if_pos rfl).trans hroot⟩

theorem mem_conversationsIn_iff {databases : List (JsString × List MessageRow)}
    {c : JsString × ConvoRow} :
    c ∈ conversationsIn databases ↔ ∃ rows, (c.1, rows) ∈ databases ∧
      c.2 ∈ conversationsOf rows := by
  simp only [conversationsIn, List.mem_flatMap, List.mem_map, Prod.exists]
  constructor
  · rintro ⟨agentId, rows, hmem, r, hr, rfl⟩
    exact ⟨rows, hmem, hr⟩
  · rintro ⟨rows, hmem, hr⟩
    exact ⟨c.1, rows, hmem, c.2, hr, rfl⟩

/-- What is read is what is there. -/
theorem mem_openedConversations_iff {c : JsString × ConvoRow} (h : contexts.Reads c.1) :
    c ∈ conversationsIn (openedAgents contexts) ↔ c ∈ allConversations contexts := by
  have hopened : ∀ rows, (c.1, rows) ∈ openedAgents contexts ↔ openDb contexts c.1 = some rows := by
    intro rows
    simp only [openedAgents, List.mem_filterMap, Option.map_eq_some_iff, Prod.mk.injEq]
    constructor
    · rintro ⟨_, -, _, hrows, rfl, rfl⟩
      exact hrows
    · intro hrows
      exact ⟨c.1, h.1, rows, hrows, rfl, rfl⟩
  rw [allConversations, mem_conversationsIn_iff, mem_conversationsIn_iff]
  simp only [hopened, openDb_eq_some_iff h.2]

/-! ### One entry for each conversation -/

theorem nodup_convoIds (rows : List MessageRow) :
    ((conversationsOf rows).map (·.convoId)).Nodup := by
  rw [conversationsOf, List.map_map]
  have hids : (fun r : ConvoRow => r.convoId) ∘ convoRow rows = id := rfl
  rw [hids, List.map_id]
  exact List.nodup_dedup _

/-- An agent has a conversation once, so all entries differ. -/
theorem nodup_entries {databases : List (JsString × List MessageRow)}
    (hnames : (databases.map Prod.fst).Nodup) :
    ((conversationsIn databases).map fun c => (c.1, c.2.convoId)).Nodup := by
  induction databases with
  | nil => exact List.nodup_nil
  | cons database databases ih =>
    obtain ⟨hnew, hnames⟩ := List.nodup_cons.mp hnames
    rw [conversationsIn, List.flatMap_cons, List.map_append, List.map_map]
    refine List.Nodup.append ?_ (ih hnames) fun key hkey hother => ?_
    · refine List.Nodup.of_map Prod.snd ?_
      rw [List.map_map]
      exact nodup_convoIds database.2
    · -- the agent of a key tells the databases apart
      obtain ⟨r, -, rfl⟩ := List.mem_map.mp hkey
      obtain ⟨c, hc, heq⟩ := List.mem_map.mp hother
      obtain ⟨rows, hmem, -⟩ := mem_conversationsIn_iff.mp hc
      have hname : c.1 = database.1 := congrArg Prod.fst heq
      exact hnew (List.mem_map.mpr ⟨_, hmem, hname⟩)

theorem nodup_agentDatabases (contexts : Contexts) :
    ((agentDatabases contexts).map Prod.fst).Nodup := by
  -- each directory has one database at most
  have hown : ((contexts.entries.filterMap fun e => e.database.map (e.name, ·)).map
      Prod.fst).Sublist (contexts.entries.map (·.name)) := by
    induction contexts.entries with
    | nil => exact List.Sublist.refl _
    | cons e entries ih =>
      rw [List.filterMap_cons, List.map_cons]
      cases e.database with
      | none => exact ih.cons _
      | some rows => exact ih.cons_cons _
  have hnodup := hown.nodup contexts.names
  rw [agentDatabases]
  -- that of the root is for the default agent, if no directory has one for it
  split
  · exact hnodup
  · next hdefault =>
    rw [List.map_append]
    cases contexts.root with
    | none => exact (List.append_nil _).symm ▸ hnodup
    | some rows => exact List.concat_eq_append ▸ hnodup.concat hdefault

theorem nodup_openedAgents (contexts : Contexts) :
    ((openedAgents contexts).map Prod.fst).Nodup := by
  have hfound : (discoverAgents contexts).Nodup := by
    have hagents : ((contexts.entries.filter fun e => e.isDirectory && e.database.isSome).map
        (·.name)).Nodup := (List.filter_sublist.map _).nodup contexts.names
    rw [discoverAgents]
    split
    · next hdefault => exact List.concat_eq_append ▸ hagents.concat hdefault.1
    · exact hagents
  refine List.Sublist.nodup ?_ hfound
  rw [openedAgents]
  induction discoverAgents contexts with
  | nil => exact List.Sublist.refl _
  | cons agentId agentIds ih =>
    rw [List.filterMap_cons]
    cases openDb contexts agentId with
    | none => exact ih.cons _
    | some rows => exact ih.cons_cons _

/-- A list of conversations of different agents, or with different ids, has different entries. -/
theorem nodup_map_entryOf {l : List (JsString × ConvoRow)}
    (h : (l.map fun c => (c.1, c.2.convoId)).Nodup) : (l.map entryOf).Nodup := by
  refine List.Nodup.of_map (fun item => (item.agentId, item.convoId)) ?_
  rw [List.map_map]
  exact h

theorem mem_opened_of_listed (hsort : SortsByLast orderBy) {c : JsString × ConvoRow}
    (h : c ∈ listedConversations orderBy limit (openedAgents contexts)) :
    c ∈ conversationsIn (openedAgents contexts) :=
  (perm_listed_unlisted hsort).subset (List.mem_append_left _ h)

/-! ### When the limit is respected -/

/-- The databases that are not read make no difference. What is listed under such a name, out of
`_invalid_`, is a conversation of its own, and what is not listed of its own is no more recent than
what is, of which there is as much as is wanted. -/
structure UnreadNegligible (orderBy : List ConvoRow → List ConvoRow) (contexts : Contexts)
    (query : Option JsString) : Prop where
  own : ∀ c ∈ listedConversations orderBy (limitOf query) (openedAgents contexts),
    ¬ contexts.Reads c.1 → ∃ d ∈ allConversations contexts, listEntry d.1 d.2 = listEntry c.1 c.2
  old : ∀ d ∈ allConversations contexts, ¬ contexts.Reads d.1 →
    (∃ c ∈ listedConversations orderBy (limitOf query) (openedAgents contexts),
      listEntry d.1 d.2 = listEntry c.1 c.2) ∨
    listedCount (limitOf query) contexts = wantedLimit query ∧
      ∀ c ∈ listedConversations orderBy (limitOf query) (openedAgents contexts),
        d.2.lastAt ≤ c.2.lastAt

/-- The rows that an answer shows, beside those that are listed. -/
theorem RespectsLimit.exists_chosen (h : RespectsLimit orderBy contexts query) :
    (openedAgents contexts = [] ∨ isLimit (limitOf query) = true) ∧
      (∀ c ∈ listedConversations orderBy (limitOf query) (openedAgents contexts), c.2.Dated) ∧
      ∃ chosen, (∀ c ∈ chosen, c.2.Dated) ∧
        chosen.map entryOf = (StableSort.stableSort timeText (listedConversations orderBy
          (limitOf query) (openedAgents contexts))).map entryOf ∧
        MostRecent (wantedLimit query) (allConversations contexts) chosen := by
  obtain ⟨chosen, answer, hanswer, hchosen, hrecent⟩ := h
  obtain ⟨hlimit, hdated, hlisted⟩ := listConversations_eq_ok_iff.mp hanswer
  obtain ⟨hdated', hentries⟩ := mapM_listEntry_eq_ok_iff.mp hchosen
  exact ⟨hlimit, hdated, chosen, hdated', hentries.symm.trans hlisted, hrecent⟩

/-- The answer is never longer than the wanted limit, where it respects it. -/
theorem RespectsLimit.listedCount_le (hsort : SortsByLast orderBy)
    (h : RespectsLimit orderBy contexts query) :
    listedCount (limitOf query) contexts ≤ wantedLimit query := by
  obtain ⟨-, -, chosen, -, hsame, hrecent⟩ := h.exists_chosen
  have hlength := congrArg List.length hsame
  rw [List.length_map, List.length_map, (StableSort.perm_stableSort _).length_eq,
    length_listedConversations hsort, hrecent.length_eq] at hlength
  omega

/-- Of two conversations with the same entry, the one is dated as the other. -/
theorem same_of_listEntry {c d : JsString × ConvoRow} (hc : c.2.Dated)
    (h : listEntry d.1 d.2 = listEntry c.1 c.2) :
    d.2.Dated ∧ entryOf d = entryOf c ∧ d.2.lastAt = c.2.lastAt := by
  obtain ⟨hd, hentry⟩ := listEntry_eq_ok_iff.mp (h.trans (listEntry_eq_ok_iff.mpr ⟨hc, rfl⟩))
  refine ⟨hd, hentry.symm, ?_⟩
  have htimes := lastAt_eq_of_entryOf (List.forall_mem_singleton.mpr hd)
    (List.forall_mem_singleton.mpr hc) (congrArg (fun item => [item]) hentry.symm)
  exact List.head_eq_of_cons_eq htimes

/-- Lists with the same entries have them from each other. -/
theorem exists_same_entry {l l' : List (JsString × ConvoRow)} (hdated : ∀ c ∈ l, c.2.Dated)
    (hdated' : ∀ c ∈ l', c.2.Dated) (h : l.map entryOf = l'.map entryOf) :
    ∀ c ∈ l, ∃ d ∈ l', listEntry d.1 d.2 = listEntry c.1 c.2 := by
  intro c hc
  have hmem : entryOf c ∈ l'.map entryOf := h ▸ List.mem_map_of_mem hc
  obtain ⟨d, hd, heq⟩ := List.mem_map.mp hmem
  refine ⟨d, hd, ?_⟩
  rw [listEntry_eq_ok_iff.mpr ⟨hdated' d hd, rfl⟩, listEntry_eq_ok_iff.mpr ⟨hdated c hc, rfl⟩, heq]

/-- The entry of the conversation is among those that are listed. -/
def isShown (listed : List (JsString × ConvoRow)) (d : JsString × ConvoRow) : Bool :=
  listed.any fun c => listEntry d.1 d.2 = listEntry c.1 c.2

theorem isShown_iff {listed : List (JsString × ConvoRow)} {d : JsString × ConvoRow} :
    isShown listed d = true ↔ ∃ c ∈ listed, listEntry d.1 d.2 = listEntry c.1 c.2 := by
  simp only [isShown, List.any_eq_true, decide_eq_true_eq]

/-- The entries that are listed are those of conversations that are there, each once. -/
theorem shown_perm_listed (hsort : SortsByLast orderBy)
    (hdated : ∀ c ∈ listedConversations orderBy (limitOf query) (openedAgents contexts), c.2.Dated)
    (hunread : UnreadNegligible orderBy contexts query) :
    (((allConversations contexts).filter (isShown (listedConversations orderBy (limitOf query)
      (openedAgents contexts)))).map entryOf).Perm
      ((listedConversations orderBy (limitOf query) (openedAgents contexts)).map entryOf) := by
  have hlisted : ((listedConversations orderBy (limitOf query) (openedAgents contexts)).map
      entryOf).Nodup := by
    have hopened := nodup_map_entryOf (nodup_entries (nodup_openedAgents contexts))
    have hperm : (listedConversations orderBy (limitOf query) (openedAgents contexts) ++
        unlisted orderBy (limitOf query) (openedAgents contexts)).Perm
          (conversationsIn (openedAgents contexts)) :=
      perm_listed_unlisted hsort
    have hentries := hperm.map entryOf
    rw [List.map_append] at hentries
    exact (hentries.nodup_iff.mpr hopened).of_append_left
  have hshown : (((allConversations contexts).filter (isShown (listedConversations orderBy
      (limitOf query) (openedAgents contexts)))).map entryOf).Nodup :=
    (List.filter_sublist.map entryOf).nodup
      (nodup_map_entryOf (nodup_entries (nodup_agentDatabases contexts)))
  refine (List.perm_ext_iff_of_nodup hshown hlisted).mpr fun item => ⟨fun h => ?_, fun h => ?_⟩
  · obtain ⟨d, hd, rfl⟩ := List.mem_map.mp h
    obtain ⟨c, hc, heq⟩ := isShown_iff.mp (List.mem_filter.mp hd).2
    exact List.mem_map.mpr ⟨c, hc, (same_of_listEntry (hdated c hc) heq).2.1.symm⟩
  · obtain ⟨c, hc, rfl⟩ := List.mem_map.mp h
    -- the conversation itself, or one with its entry if its database is not read
    obtain ⟨d, hd, heq⟩ : ∃ d ∈ allConversations contexts, listEntry d.1 d.2 =
      listEntry c.1 c.2 := by
      by_cases hreads : contexts.Reads c.1
      · exact ⟨c, (mem_openedConversations_iff hreads).mp (mem_opened_of_listed hsort hc), rfl⟩
      · exact hunread.own c hc hreads
    exact List.mem_map.mpr ⟨d, List.mem_filter.mpr ⟨hd, isShown_iff.mpr ⟨c, hc, heq⟩⟩,
      (same_of_listEntry (hdated c hc) heq).2.1⟩

/-- A conversation that is not listed is no more recent than those that are, of which there are as
many as are wanted. -/
theorem old_of_unlisted (hsort : SortsByLast orderBy)
    (hfew : listedCount (limitOf query) contexts ≤ wantedLimit query)
    (hunread : UnreadNegligible orderBy contexts query) {d : JsString × ConvoRow}
    (hd : d ∈ allConversations contexts)
    (hnot : ¬ ∃ c ∈ listedConversations orderBy (limitOf query) (openedAgents contexts),
      listEntry d.1 d.2 = listEntry c.1 c.2) :
    listedCount (limitOf query) contexts = wantedLimit query ∧
      ∀ c ∈ listedConversations orderBy (limitOf query) (openedAgents contexts),
        d.2.lastAt ≤ c.2.lastAt := by
  by_cases hreads : contexts.Reads d.1
  · -- its database is opened, and what a limit cuts off is no more recent than the rest
    obtain ⟨hne, -, hle⟩ := limitOf_spec query
    rw [← length_listedConversations hsort] at hfew ⊢
    -- as few as are wanted are listed, so they are the most recent
    obtain ⟨hlength, hrecent⟩ := recent_of_few hsort hne hle hfew
    have hperm : (listedConversations orderBy (limitOf query) (openedAgents contexts) ++
        unlisted orderBy (limitOf query) (openedAgents contexts)).Perm
          (conversationsIn (openedAgents contexts)) :=
      perm_listed_unlisted hsort
    have hopened := (mem_openedConversations_iff hreads).mpr hd
    have hcut : d ∈ unlisted orderBy (limitOf query) (openedAgents contexts) :=
      (List.mem_append.mp (hperm.symm.subset hopened)).resolve_left fun h => hnot ⟨d, h, rfl⟩
    refine ⟨?_, fun c hc => hrecent c hc d hcut⟩
    have hcount := hperm.length_eq
    have hpos := List.length_pos_of_mem hcut
    rw [List.length_append] at hcount
    omega
  -- its database is not opened
  · exact (hunread.old d hd hreads).resolve_left hnot

/-- The conversations that are shown, in the order of the answer. -/
theorem exists_shown (hsort : SortsByLast orderBy)
    (hdated : ∀ c ∈ listedConversations orderBy (limitOf query) (openedAgents contexts), c.2.Dated)
    (hunread : UnreadNegligible orderBy contexts query) :
    ∃ chosen : List (JsString × ConvoRow),
      (StableSort.stableSort timeText (listedConversations orderBy (limitOf query)
        (openedAgents contexts))).map entryOf = chosen.map entryOf ∧
      chosen.Perm ((allConversations contexts).filter (isShown (listedConversations orderBy
        (limitOf query) (openedAgents contexts)))) := by
  have hsorted : (StableSort.stableSort timeText (listedConversations orderBy (limitOf query)
      (openedAgents contexts))).Perm
      (listedConversations orderBy (limitOf query) (openedAgents contexts)) :=
    StableSort.perm_stableSort _
  have hperm := (hsorted.map entryOf).trans (shown_perm_listed hsort hdated hunread).symm
  rw [← congrFun₂ (List.eq_map_comp_perm entryOf) _ _] at hperm
  exact hperm

/-- What is not listed is old, so some conversations with the entries of the answer are the most
recent ones. -/
theorem exists_mostRecent (hsort : SortsByLast orderBy)
    (hfew : listedCount (limitOf query) contexts ≤ wantedLimit query)
    (hdated : ∀ c ∈ listedConversations orderBy (limitOf query) (openedAgents contexts), c.2.Dated)
    (htexts : TextsInOrder (listedConversations orderBy (limitOf query) (openedAgents contexts)))
    (hunread : UnreadNegligible orderBy contexts query) :
    ∃ chosen, (∀ c ∈ chosen, c.2.Dated) ∧
      (StableSort.stableSort timeText (listedConversations orderBy (limitOf query)
        (openedAgents contexts))).map entryOf = chosen.map entryOf ∧
      MostRecent (wantedLimit query) (allConversations contexts) chosen := by
  have hcount : (listedConversations orderBy (limitOf query) (openedAgents contexts)).length =
      listedCount (limitOf query) contexts :=
    length_listedConversations hsort
  have hsorted := (sortedBy_lastAt_iff hdated).mpr htexts
  have hold := fun d hd => old_of_unlisted (d := d) hsort hfew hunread hd
  obtain ⟨chosen, hentries, hchosen⟩ := exists_shown hsort hdated hunread
  have hdatedSort : ∀ c ∈ StableSort.stableSort timeText
      (listedConversations orderBy (limitOf query) (openedAgents contexts)), c.2.Dated :=
    fun c hc => hdated c (StableSort.mem_stableSort.mp hc)
  generalize hlisted : listedConversations orderBy (limitOf query) (openedAgents contexts) = listed
    at *
  have hsortPerm : (StableSort.stableSort timeText listed).Perm listed :=
    StableSort.perm_stableSort listed
  have hshown : ∀ c ∈ chosen, ∃ c' ∈ listed, listEntry c.1 c.2 = listEntry c'.1 c'.2 := fun c hc =>
    isShown_iff.mp (List.mem_filter.mp (hchosen.subset hc)).2
  have hdatedChosen : ∀ c ∈ chosen, c.2.Dated := fun c hc =>
    have ⟨c', hc', heq⟩ := hshown c hc
    (same_of_listEntry (hdated c' hc') heq).1
  let others := (allConversations contexts).filter fun d => !isShown listed d
  have hothers : ∀ d ∈ others, listedCount (limitOf query) contexts = wantedLimit query ∧
      ∀ c ∈ listed, d.2.lastAt ≤ c.2.lastAt := by
    intro d hd
    obtain ⟨hmem, hnot⟩ := List.mem_filter.mp hd
    refine hold d hmem fun hshown => ?_
    rw [isShown_iff.mpr hshown] at hnot
    exact nomatch hnot
  have hall : (chosen ++ others).Perm (allConversations contexts) :=
    (hchosen.append_right others).trans (List.filter_append_perm _ _)
  refine ⟨chosen, hdatedChosen, hentries, ?_, ⟨others, hall, fun c hc d hd => ?_⟩, ?_⟩
  · -- as many as are listed, and fewer than are wanted only if there are no others
    have hlength := congrArg List.length hentries
    rw [List.length_map, List.length_map, hsortPerm.length_eq] at hlength
    have htotal := hall.length_eq
    rw [List.length_append] at htotal
    rcases Nat.eq_zero_or_pos others.length with hnone | hpos
    · omega
    · obtain ⟨d, hd⟩ := List.exists_mem_of_length_pos hpos
      have hfull := (hothers d hd).1
      omega
  · obtain ⟨c', hc', heq⟩ := hshown c hc
    rw [(same_of_listEntry (hdated c' hc') heq).2.2]
    exact (hothers d hd).2 c' hc'
  · have htimes := lastAt_eq_of_entryOf hdatedSort hdatedChosen hentries
    have hmap : (chosen.map (·.2.lastAt)).Pairwise fun s t => t ≤ s := by
      rw [← htimes]
      exact List.pairwise_map.mpr hsorted
    exact List.pairwise_map.mp hmap

/-- The answer is in the order of the times, so the texts are in that order. -/
theorem RespectsLimit.textsInOrder (h : RespectsLimit orderBy contexts query) :
    TextsInOrder (listedConversations orderBy (limitOf query) (openedAgents contexts)) := by
  obtain ⟨-, hdated, chosen, hdated', hsame, hrecent⟩ := h.exists_chosen
  refine (sortedBy_lastAt_iff hdated).mp ?_
  -- the answer has the times of the rows it is made of
  have htimes := lastAt_eq_of_entryOf hdated'
    (fun c hc => hdated c (StableSort.mem_stableSort.mp hc)) hsame
  have hsorted : (chosen.map (·.2.lastAt)).Pairwise fun s t => t ≤ s :=
    List.pairwise_map.mpr hrecent.newest_first
  rw [htimes] at hsorted
  exact List.pairwise_map.mp hsorted

/-- What is not read is shown by another row, or is old. -/
theorem RespectsLimit.unreadNegligible (hsort : SortsByLast orderBy)
    (h : RespectsLimit orderBy contexts query) : UnreadNegligible orderBy contexts query := by
  obtain ⟨-, hdated, chosen, hdated', hsame, hrecent⟩ := h.exists_chosen
  obtain ⟨others, hperm, holder⟩ := hrecent.recent
  have hdatedSort : ∀ c ∈ StableSort.stableSort timeText (listedConversations orderBy
      (limitOf query) (openedAgents contexts)), c.2.Dated :=
    fun c hc => hdated c (StableSort.mem_stableSort.mp hc)
  have hlistedOf := exists_same_entry hdated' hdatedSort hsame
  have hchosenOf := exists_same_entry hdatedSort hdated' hsame.symm
  refine ⟨fun c hc _ => ?_, fun d hd _ => ?_⟩
  · obtain ⟨d, hd, heq⟩ := hchosenOf c (StableSort.mem_stableSort.mpr hc)
    exact ⟨d, hperm.subset (List.mem_append_left _ hd), heq⟩
  · rcases List.mem_append.mp (hperm.symm.subset hd) with hd | hd
    · obtain ⟨c, hc, heq⟩ := hlistedOf d hd
      exact Or.inl ⟨c, StableSort.mem_stableSort.mp hc, heq.symm⟩
    · refine Or.inr ⟨?_, fun c hc => ?_⟩
      · -- there is another one, so as many are chosen as are wanted
        have hlength := congrArg List.length hsame
        rw [List.length_map, List.length_map, (StableSort.perm_stableSort _).length_eq,
          length_listedConversations hsort, hrecent.length_eq] at hlength
        have hall := hperm.length_eq
        rw [List.length_append, hrecent.length_eq] at hall
        have hpos := List.length_pos_of_mem hd
        omega
      · obtain ⟨d', hd', heq⟩ := hchosenOf c (StableSort.mem_stableSort.mpr hc)
        rw [← (same_of_listEntry (hdated c hc) heq).2.2]
        exact holder d' hd' d hd

/-- **The answer has the most recent conversations exactly** if the statements take the limit, no
more conversations than wanted are listed, their times have texts that are in the same order, and
the databases that are not read make no difference. -/
theorem respectsLimit_iff (hsort : SortsByLast orderBy) :
    RespectsLimit orderBy contexts query ↔
      (openedAgents contexts = [] ∨ isLimit (limitOf query) = true) ∧
        listedCount (limitOf query) contexts ≤ wantedLimit query ∧
        (∀ c ∈ listedConversations orderBy (limitOf query) (openedAgents contexts), c.2.Dated) ∧
        TextsInOrder (listedConversations orderBy (limitOf query) (openedAgents contexts)) ∧
        UnreadNegligible orderBy contexts query := by
  constructor
  · intro h
    obtain ⟨hlimit, hdated, -⟩ := h.exists_chosen
    exact ⟨hlimit, h.listedCount_le hsort, hdated, h.textsInOrder, h.unreadNegligible hsort⟩
  · rintro ⟨hlimit, hfew, hdated, htexts, hunread⟩
    obtain ⟨chosen, hdated', hentries, hrecent⟩ :=
      exists_mostRecent hsort hfew hdated htexts hunread
    exact ⟨chosen, _, listConversations_eq_ok_iff.mpr ⟨hlimit, hdated, rfl⟩,
      mapM_listEntry_eq_ok_iff.mpr ⟨hdated', hentries⟩, hrecent⟩

/-- The times of the years 0 to 9999 have texts, which are in the order of the times. -/
theorem textsInOrder_of_years {l : List (JsString × ConvoRow)} (hdated : ∀ c ∈ l, c.2.Dated)
    (hyears : ∀ c ∈ l, 0 ≤ JsDate.year c.2.lastAt ∧ JsDate.year c.2.lastAt ≤ 9999) :
    TextsInOrder l := by
  intro c hc d hd hlt
  obtain ⟨s, hs⟩ := Option.isSome_iff_exists.mp (hdated c hc).2
  obtain ⟨s', hs'⟩ := Option.isSome_iff_exists.mp (hdated d hd).2
  rw [timeText, timeText, hs, hs']
  exact JsDate.collate_toISOString_lt hs hs' (hyears c hc).1 (hyears d hd).2 hlt

theorem sortsByLast_stableSort : SortsByLast (StableSort.stableSort (·.lastAt)) := fun rows =>
  ⟨StableSort.perm_stableSort rows, StableSort.sortedBy_stableSort rows⟩

/-- An agent with two messages in one conversation. -/
def oneConversation (name : JsString) (firstAt : Int) : ContextEntry where
  name
  isDirectory := true
  database := some [⟨js "c2c:1", js "user", js "bob", firstAt⟩,
    ⟨js "c2c:1", js "assistant", [], firstAt + 1000⟩]

/-- Beside `default` there is a directory whose name is no id, with an older conversation. -/
def defaultAndHidden : Contexts where
  entries := [oneConversation (js "default") 1700000000000,
    oneConversation (js "my.bot") 1600000000000]
  root := none

/-- One conversation is listed as it should be. -/
theorem limit_respected_by_one_agent : SortsByLast (StableSort.stableSort (·.lastAt)) ∧
    RespectsLimit (StableSort.stableSort (·.lastAt)) defaultAndHidden (some (js "1")) := by
  let bob (firstAt : Int) : ConvoRow := ⟨js "c2c:1", 2, firstAt, firstAt + 1000, some (js "bob")⟩
  -- the default agent lists its conversation
  have hlisted : listedConversations (StableSort.stableSort (·.lastAt)) (limitOf (some (js "1")))
      (openedAgents defaultAndHidden) = [(js "default", bob 1700000000000)] := by
    decide +kernel
  have hall : allConversations defaultAndHidden =
      [(js "default", bob 1700000000000), (js "my.bot", bob 1600000000000)] := by
    decide +kernel
  have hcount : listedCount (limitOf (some (js "1"))) defaultAndHidden =
      wantedLimit (some (js "1")) := by
    decide +kernel
  -- the other directory has no web id
  have hreads : defaultAndHidden.Reads (js "default") := ⟨by decide +kernel, by decide +kernel⟩
  refine ⟨sortsByLast_stableSort, (respectsLimit_iff sortsByLast_stableSort).mpr ⟨?_, ?_, ?_⟩⟩
  · exact .inr (by decide)
  · exact hcount.le
  · rw [hlisted]
    refine ⟨List.forall_mem_singleton.mpr ⟨rfl, rfl⟩, List.forall_mem_singleton.mpr ?_, ?_⟩
    · exact List.forall_mem_singleton.mpr fun hlt => absurd hlt (lt_irrefl _)
    · refine ⟨fun c hc hunread => ?_, fun d hd hunread => Or.inr ⟨hcount, fun c hc => ?_⟩⟩
      · rw [hlisted, List.mem_singleton] at hc
        subst hc
        exact absurd hreads hunread
      · -- the other directory is not read, and its conversation is older
        rw [hlisted, List.mem_singleton] at hc
        rw [hall] at hd
        subst hc
        rcases List.mem_cons.mp hd with rfl | hd
        · exact absurd hreads hunread
        · rw [List.mem_singleton.mp hd]
          decide

/-- Two agents with a conversation each. -/
def defaultAndWork : Contexts where
  entries :=
    [oneConversation (js "default") 1700000000000, oneConversation (js "work") 1700000000000]
  root := none

/-- **Two agents are listed with a conversation each under a limit of one.** -/
theorem limit_exceeded : ¬ ∀ (orderBy : List ConvoRow → List ConvoRow) (contexts : Contexts)
    (query : Option JsString), SortsByLast orderBy → RespectsLimit orderBy contexts query := by
  intro hall
  have h := (hall _ defaultAndWork (some (js "1")) sortsByLast_stableSort).listedCount_le
    sortsByLast_stableSort
  exact absurd h (by decide +kernel)

end Aestival
