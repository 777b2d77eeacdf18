import ArmyRs.Storage.RedisIndex
import Mathlib.Data.List.DropRight

/-!
# Searching the index by a prefix

`search_by_prefix` puts the bare prefix into the sorted set as a probe, takes the
range after it and removes the probe.  All entries have the score 0, so they stand in
the order of their texts: the entries that begin like the probe come right after it,
and the first entry of the range that does not ends them.

In every run over ids without a colon the sorted set holds the entry `prefix:id` of
every id that has a prefix, and nothing else (`Indexed`).  So the search answers with
the first of these entries, and the index is what it was.
-/

namespace ArmyRs
namespace Storage

open Foundation

/-- `split(':')`, which drops empty fields at the end. -/
def splitColon (v : Text) : List Text :=
  (v.splitOn ':').rdropWhile List.isEmpty

/-- The script of `search_by_prefix`, for a positive count. -/
def luaSearchPrefix (index : SortedSet ℤ Text) (pre : Text) (count : Nat) :
    List Text × SortedSet ℤ Text :=
  match index.zrank pre with
  | some rank => ((index.zrange rank (rank + count - 1)).map member, index)
  | none =>
      let probed := index.zadd 0 pre
      -- the probe has just been put in, so that it has a rank
      let rank := (probed.zrank pre).getD 0
      ((probed.zrange (rank + 1) (rank + count)).map member, probed.zrem [pre])

namespace RedisIndex

/-- `search_by_prefix`, with the index that it leaves. -/
def searchByPrefix (r : RedisIndex) (pre : Text) (count : ℤ) :
    Except Text (List (Option Text) × RedisIndex) :=
  if count ≤ 0 then .ok ([], r)
  else if pre = [] then .ok ([], r)
  else if ':' ∈ pre then .error ("invalid prefix: ".toList ++ pre)
  else
    let found := luaSearchPrefix r.index pre count.toNat
    .ok ((found.1.filter (pre.isPrefixOf ·)).map fun v => (splitColon v)[1]?,
      { r with index := found.2 })

/-- `read_by_prefix`. -/
def readByPrefix (r : RedisIndex) (pre : Text) : Except Text (Option Text × RedisIndex) :=
  if pre = [] then .ok (none, r)
  else if ':' ∈ pre then .error ("invalid prefix: ".toList ++ pre)
  else
    let found := luaSearchPrefix r.index (pre ++ [':']) 1
    .ok ((found.1.filter ((pre ++ [':']).isPrefixOf ·)).head?.bind fun v => (splitColon v)[1]?,
      { r with index := found.2 })

/-- The prefixes and ids that the index should find. -/
def current (r : RedisIndex) : List (Text × Text) :=
  r.prefixes.entries.map fun entry => (entry.2, entry.1)

/-- The order of the entries by their texts. -/
def entryLe (e f : Text × Text) : Prop :=
  named e.1 e.2 ≤ named f.1 f.2

instance entryLe.decidable : DecidableRel entryLe :=
  fun e f => inferInstanceAs (Decidable (named e.1 e.2 ≤ named f.1 f.2))

/-- The entries whose prefix begins with the text, in the order of their texts. -/
def matching (r : RedisIndex) (pre : Text) : List (Text × Text) :=
  (r.current.filter fun entry => pre.isPrefixOf entry.1).insertionSort entryLe

end RedisIndex

/-- The calls are about ids that a search can tell. -/
def ValidId (_ : RedisIndex) (event : IndexEvent) : Prop :=
  event.id ≠ [] ∧ ':' ∉ event.id

instance ValidId.decidable (r : RedisIndex) (event : IndexEvent) : Decidable (ValidId r event) :=
  inferInstanceAs (Decidable (_ ∧ _))

/-- The sorted set holds the entries of the ids that have a prefix, and these can be
told apart. -/
structure Indexed (r : RedisIndex) : Prop where
  valid : ∀ id pre, r.prefixes.lookup id = some pre → ':' ∉ pre ∧ id ≠ [] ∧ ':' ∉ id
  entries : ∀ entry, entry ∈ r.index.entries ↔
    ∃ pre id, entry = toLex (0, named pre id) ∧ r.prefixes.lookup id = some pre

section

variable {r next : RedisIndex} {id id' pre pre' old v : Text} {event : IndexEvent}
  {events : List IndexEvent} {set : SortedSet ℤ Text}

/-! ## Entries -/

theorem named_inj (hpre : ':' ∉ pre) (hpre' : ':' ∉ pre') :
    named pre id = named pre' id' ↔ pre = pre' ∧ id = id' := by
  constructor
  · intro heq
    have hstart : ∀ {p i : Text}, ':' ∉ p → (named p i).takeWhile (· ≠ ':') = p := by
      intro p i hp
      have hall : ∀ c ∈ p, decide (c ≠ ':') = true := by
        intro c hc
        simpa using fun heq : c = ':' => hp (heq ▸ hc)
      rw [named, List.takeWhile_append_of_pos hall]
      simp
    have hsame : pre = pre' := by
      rw [← hstart hpre (i := id), heq, hstart hpre']
    subst hsame
    exact ⟨rfl, (List.cons.inj (List.append_cancel_left heq)).2⟩
  · rintro ⟨rfl, rfl⟩
    rfl

theorem split_named (hpre : ':' ∉ pre) (hid : ':' ∉ id) (hne : id ≠ []) :
    (splitColon (named pre id))[1]? = some id := by
  have hsplit : (named pre id).splitOn ':' = [pre, id] := by
    rw [named, List.splitOn_append_cons_self_of_not_mem hpre, List.splitOn_eq_singleton hid]
  have hlast : ¬ id.isEmpty = true := by simpa using hne
  rw [splitColon, hsplit, show [pre, id] = [pre] ++ [id] from rfl,
    List.rdropWhile_concat_neg _ _ _ hlast]
  rfl

/-- A text without a colon begins an entry exactly when it begins the prefix. -/
theorem isPrefix_named (hpre : ':' ∉ pre) : pre <+: named pre' id ↔ pre <+: pre' := by
  induction pre generalizing pre' with
  | nil => simp
  | cons c pre ih =>
      rw [List.mem_cons, not_or] at hpre
      cases pre' with
      | nil =>
          have hne : c ≠ ':' := Ne.symm hpre.1
          simp [named, List.cons_prefix_cons, hne]
      | cons c' pre' =>
          have hnamed : named (c' :: pre') id = c' :: named pre' id := rfl
          rw [hnamed, List.cons_prefix_cons, List.cons_prefix_cons, ih hpre.2]

/-! ## The sorted set in every run -/

theorem indexed_new : Indexed .new where
  valid id pre h := by
    have hnone : (∅ : AList fun _ : Text => Text).lookup id = some pre := h
    simp at hnone
  entries entry := by
    have hnone : ∀ i, RedisIndex.new.prefixes.lookup i = none := fun i => AList.lookup_empty i
    simp [RedisIndex.new, SortedSet.empty, AList.lookup_empty]

theorem Indexed.score (h : Indexed r) : ∀ entry ∈ r.index.entries, score entry = 0 := by
  intro entry hentry
  obtain ⟨pre, id, rfl, -⟩ := (h.entries entry).mp hentry
  rfl

theorem Indexed.mem_members (h : Indexed r) :
    v ∈ r.index.members ↔ ∃ pre id, v = named pre id ∧ r.prefixes.lookup id = some pre := by
  rw [SortedSet.mem_members]
  constructor
  · rintro ⟨s, hentry⟩
    obtain ⟨pre, id, heq, hlookup⟩ := (h.entries _).mp hentry
    exact ⟨pre, id, congrArg member heq, hlookup⟩
  · rintro ⟨pre, id, rfl, hlookup⟩
    exact ⟨0, (h.entries _).mpr ⟨pre, id, rfl, hlookup⟩⟩

/-- The scripts remove the entry of the id and no other. -/
theorem Indexed.mem_withoutEntry (h : Indexed r) (id : Text) (entry : ℤ ×ₗ Text) :
    entry ∈ (r.withoutEntry id).entries ↔
      ∃ pre i, entry = toLex (0, named pre i) ∧ r.prefixes.lookup i = some pre ∧ i ≠ id := by
  unfold RedisIndex.withoutEntry
  cases hid : r.prefixes.lookup id with
  | none =>
      rw [h.entries]
      constructor
      · rintro ⟨pre, i, rfl, hi⟩
        refine ⟨pre, i, rfl, hi, ?_⟩
        rintro rfl
        rw [hid] at hi
        cases hi
      · rintro ⟨pre, i, rfl, hi, -⟩
        exact ⟨pre, i, rfl, hi⟩
  | some old =>
      have hold := (h.valid id old hid).1
      rw [SortedSet.mem_entries_zrem, h.entries]
      constructor
      · rintro ⟨⟨pre, i, rfl, hi⟩, hne⟩
        refine ⟨pre, i, rfl, hi, ?_⟩
        rintro rfl
        rw [hid] at hi
        cases hi
        exact hne (by simp)
      · rintro ⟨pre, i, rfl, hi, hne⟩
        refine ⟨⟨pre, i, rfl, hi⟩, ?_⟩
        rw [member_toLex, List.mem_singleton, named_inj (h.valid i pre hi).1 hold]
        exact fun hsame => hne hsame.2

theorem Indexed.update (h : Indexed r) (hpre : ':' ∉ pre) (hne : id ≠ []) (hid : ':' ∉ id) :
    Indexed (r.luaUpdatePrefix id pre) where
  valid i p hi := by
    rw [prefixes_luaUpdatePrefix] at hi
    split at hi
    · next heq =>
      cases hi
      exact ⟨hpre, heq ▸ hne, heq ▸ hid⟩
    · exact h.valid i p hi
  entries entry := by
    show entry ∈ ((r.withoutEntry id).zadd 0 (named pre id)).entries ↔ _
    rw [SortedSet.mem_entries_zadd, h.mem_withoutEntry]
    simp only [prefixes_luaUpdatePrefix]
    constructor
    · rintro (rfl | ⟨⟨p, i, rfl, hi, hother⟩, -⟩)
      · exact ⟨pre, id, rfl, if_pos rfl⟩
      · exact ⟨p, i, rfl, by rwa [if_neg hother]⟩
    · rintro ⟨p, i, rfl, hi⟩
      by_cases heq : i = id
      · rw [if_pos heq] at hi
        cases hi
        exact .inl (by rw [heq])
      · rw [if_neg heq] at hi
        refine .inr ⟨⟨p, i, rfl, hi, heq⟩, ?_⟩
        rw [member_toLex, ne_eq, named_inj (h.valid i p hi).1 hpre]
        exact fun hsame => heq hsame.2

theorem Indexed.remove (h : Indexed r) (id : Text) : Indexed (r.removePrefix id) where
  valid i p hi := by
    rw [prefixes_removePrefix] at hi
    split at hi
    · cases hi
    · exact h.valid i p hi
  entries entry := by
    show entry ∈ (r.withoutEntry id).entries ↔ _
    rw [h.mem_withoutEntry]
    simp only [prefixes_removePrefix]
    constructor
    · rintro ⟨p, i, rfl, hi, hother⟩
      exact ⟨p, i, rfl, by rwa [if_neg hother]⟩
    · rintro ⟨p, i, rfl, hi⟩
      by_cases heq : i = id
      · rw [if_pos heq] at hi
        cases hi
      · rw [if_neg heq] at hi
        exact ⟨p, i, rfl, hi, heq⟩

theorem Indexed.step (h : Indexed r) (hvalid : ValidId r event)
    (hstep : indexStep r event = some next) : Indexed next := by
  rcases indexStep_cases hstep with
    ⟨id, pre, rfl, -, rfl⟩ | ⟨id, pre, rfl, hpre, rfl⟩ | ⟨id, rfl, rfl⟩
  · exact h
  · exact h.update (fun hcolon => hpre (.inr hcolon)) hvalid.1 hvalid.2
  · exact h.remove id

theorem indexed_of_run (hrun : Run indexStep ValidId .new events r) : Indexed r :=
  hrun.invariant indexed_new fun _ _ _ h => h.step

/-! ## The script -/

/-- Without the probe in it, the script answers with the entries after the probe and
leaves the sorted set as it is. -/
theorem luaSearchPrefix_of_not_mem (hpre : pre ∉ set.members)
    (hscore : ∀ entry ∈ set.entries, score entry = 0) (count : Nat) :
    luaSearchPrefix set pre count = ((set.membersAfter pre).take count, set) := by
  have hrank : set.zrank pre = none := SortedSet.zrank_eq_none.mpr hpre
  unfold luaSearchPrefix
  rw [hrank]
  simp only [SortedSet.zrank_zadd, Option.getD_some, SortedSet.zrange_zadd,
    SortedSet.zrem_zadd hpre, List.map_take, SortedSet.members_above hscore hpre]

/-- The filter keeps the first of the entries that begin with the text. -/
theorem filter_range (hscore : ∀ entry ∈ set.entries, score entry = 0)
    (hpre : pre ∉ set.members) (count : Nat) :
    ((set.membersAfter pre).take count).filter (pre.isPrefixOf ·) =
      (set.members.filter (pre.isPrefixOf ·)).take count := by
  have hinitial : (set.membersAfter pre).Pairwise
      fun v w => pre.isPrefixOf w = true → pre.isPrefixOf v = true := by
    refine ((SortedSet.members_sorted hscore).filter _).imp_of_mem fun {v w} hv _ hlt hw => ?_
    by_contra hnot
    rw [List.isPrefixOf_iff_prefix] at hnot hw
    have habove : pre < v := by simpa using (List.mem_filter.mp hv).2
    exact hlt.asymm (lt_of_not_isPrefix habove hnot hw)
  rw [filter_take_of_initial hinitial, SortedSet.membersAfter, List.filter_filter]
  congr 1
  refine List.filter_congr fun v hv => ?_
  cases hprefix : pre.isPrefixOf v with
  | false => rfl
  | true =>
      rw [List.isPrefixOf_iff_prefix] at hprefix
      have hne : pre ≠ v := fun heq => hpre (heq ▸ hv)
      simpa using lt_of_isPrefix hprefix hne

/-! ## The search -/

theorem mem_current {entry : Text × Text} :
    entry ∈ r.current ↔ r.prefixes.lookup entry.2 = some entry.1 := by
  have hentries : (⟨entry.2, entry.1⟩ : Σ _ : Text, Text) ∈ r.prefixes.entries ↔
      r.prefixes.lookup entry.2 = some entry.1 := AList.mem_lookup_iff.symm
  rw [← hentries]
  unfold RedisIndex.current
  rw [List.mem_map]
  constructor
  · rintro ⟨e, he, rfl⟩
    exact he
  · intro he
    exact ⟨_, he, rfl⟩

theorem mem_matching {entry : Text × Text} :
    entry ∈ r.matching pre ↔ r.prefixes.lookup entry.2 = some entry.1 ∧ pre <+: entry.1 := by
  unfold RedisIndex.matching
  rw [(List.perm_insertionSort _ _).mem_iff, List.mem_filter, mem_current,
    List.isPrefixOf_iff_prefix]

theorem nodup_matching (r : RedisIndex) (pre : Text) : (r.matching pre).Nodup := by
  unfold RedisIndex.matching
  rw [(List.perm_insertionSort _ _).nodup_iff]
  refine List.Nodup.filter _ ?_
  unfold RedisIndex.current
  refine r.prefixes.nodupKeys.nodup.map fun e f heq => ?_
  cases e
  cases f
  simpa [and_comm] using heq

/-- The texts of the matching entries, in the order in which they are found. -/
theorem matching_named (h : Indexed r) (hpre : ':' ∉ pre) :
    r.index.members.filter (pre.isPrefixOf ·) =
      (r.matching pre).map fun entry => named entry.1 entry.2 := by
  have hperm : (r.index.members.filter (pre.isPrefixOf ·)).Perm
      ((r.matching pre).map fun entry => named entry.1 entry.2) := by
    rw [List.perm_ext_iff_of_nodup]
    · intro v
      rw [List.mem_filter, h.mem_members, List.mem_map, List.isPrefixOf_iff_prefix]
      constructor
      · rintro ⟨⟨p, i, rfl, hlookup⟩, hbegins⟩
        exact ⟨(p, i), mem_matching.mpr ⟨hlookup, (isPrefix_named hpre).mp hbegins⟩, rfl⟩
      · rintro ⟨⟨p, i⟩, hmatching, rfl⟩
        obtain ⟨hlookup, hbegins⟩ := mem_matching.mp hmatching
        exact ⟨⟨p, i, rfl, hlookup⟩, (isPrefix_named hpre).mpr hbegins⟩
    · exact r.index.nodup.filter _
    · refine (nodup_matching r pre).map_on fun e he f hf heq => ?_
      have hcolon : ∀ {e : Text × Text}, e ∈ r.matching pre → ':' ∉ e.1 :=
        fun he => (h.valid _ _ (mem_matching.mp he).1).1
      obtain ⟨hfst, hsnd⟩ := (named_inj (hcolon he) (hcolon hf)).mp heq
      exact Prod.ext hfst hsnd
  refine hperm.eq_of_pairwise' (r := (· ≤ ·)) ?_ ?_
  · exact ((SortedSet.members_sorted h.score).imp le_of_lt).filter _
  · rw [List.pairwise_map]
    have htotal : Std.Total RedisIndex.entryLe := ⟨fun e f => le_total (named e.1 e.2) _⟩
    have htrans : IsTrans (Text × Text) RedisIndex.entryLe := ⟨fun _ _ _ => le_trans⟩
    exact List.pairwise_insertionSort RedisIndex.entryLe _

/-- The bare prefix is no entry. -/
theorem Indexed.not_mem_members (h : Indexed r) (hpre : ':' ∉ pre) : pre ∉ r.index.members := by
  rw [h.mem_members]
  rintro ⟨p, i, rfl, -⟩
  exact hpre (by simp [named])

/-- The search finds the first of the matching entries, and leaves the index as it is. -/
theorem Indexed.searchByPrefix (h : Indexed r) (hne : pre ≠ []) (hpre : ':' ∉ pre) (count : ℤ) :
    r.searchByPrefix pre count =
      .ok (((r.matching pre).take count.toNat).map fun entry => some entry.2, r) := by
  unfold RedisIndex.searchByPrefix
  split
  · next hcount =>
    rw [Int.toNat_of_nonpos hcount]
    rfl
  · rw [luaSearchPrefix_of_not_mem (h.not_mem_members hpre) h.score]
    dsimp only
    rw [filter_range h.score (h.not_mem_members hpre), matching_named h hpre, ← List.map_take,
      List.map_map]
    congr 2
    refine List.map_congr_left fun entry hentry => ?_
    -- what the entry is split into
    have hmatching := mem_matching.mp (List.mem_of_mem_take hentry)
    obtain ⟨hcolon, hid, hidColon⟩ := h.valid _ _ hmatching.1
    exact split_named hcolon hidColon hid

/-- What is read by a whole prefix is an id that has one. -/
theorem Indexed.of_readByPrefix (h : Indexed r)
    (hread : r.readByPrefix pre = .ok (some id, next)) : ∃ p, r.prefixes.lookup id = some p := by
  unfold RedisIndex.readByPrefix at hread
  split at hread
  · cases hread
  · split at hread
    · cases hread
    · next hcolon =>
      have hprobe : pre ++ [':'] ∉ r.index.members := by
        rw [h.mem_members]
        rintro ⟨p, i, heq, hlookup⟩
        obtain ⟨hp, hi, -⟩ := h.valid i p hlookup
        -- the probe is an entry without an id
        exact hi ((named_inj hcolon hp).mp heq).2.symm
      rw [luaSearchPrefix_of_not_mem hprobe h.score] at hread
      simp only [Except.ok.injEq, Prod.mk.injEq, Option.bind_eq_some_iff] at hread
      obtain ⟨⟨v, hhead, hsplit⟩, -⟩ := hread
      have hfound := (List.mem_filter.mp (List.mem_of_head? hhead)).1
      have hmember : v ∈ r.index.members :=
        (List.mem_filter.mp (List.mem_of_mem_take hfound)).1
      obtain ⟨p, i, rfl, hlookup⟩ := h.mem_members.mp hmember
      obtain ⟨hp, hi, hidColon⟩ := h.valid i p hlookup
      rw [split_named hp hidColon hi] at hsplit
      cases hsplit
      exact ⟨p, hlookup⟩

/-- Over any history of calls about ids without a colon, the search finds the ids of
the first entries whose prefix begins with the text, and leaves the index as it is. -/
theorem searchByPrefix_of_run (hrun : Run indexStep ValidId .new events r) (hne : pre ≠ [])
    (hpre : ':' ∉ pre) (count : ℤ) :
    r.searchByPrefix pre count =
      .ok (((r.matching pre).take count.toNat).map fun entry => some entry.2, r) :=
  (indexed_of_run hrun).searchByPrefix hne hpre count

end

/-! ## Examples -/

/-- Three players, of whom one is renamed and one leaves. -/
def threePlayers : List IndexEvent :=
  [.update ['1'] ['a', 'b'], .update ['2'] ['a', 'b', 'c'], .update ['3'] ['a', 'b'],
    .update ['2'] ['a', 'd'], .remove ['1']]

theorem searchByPrefix_threePlayers :
    ((exec indexStep ValidId .new threePlayers).getD .new).searchByPrefix ['a'] 1 =
      .ok ([some ['3']], (exec indexStep ValidId .new threePlayers).getD .new) := by
  have hrun : Run indexStep ValidId .new threePlayers
      ((exec indexStep ValidId .new threePlayers).getD .new) :=
    run_exec_getD RedisIndex.new (by decide)
  have hfound : ((((exec indexStep ValidId .new threePlayers).getD .new).matching ['a']).take
      (Int.toNat 1)).map (fun entry => some entry.2) = [some ['3']] := by decide
  rw [searchByPrefix_of_run hrun (by decide) (by decide) 1, hfound]

end Storage
end ArmyRs
