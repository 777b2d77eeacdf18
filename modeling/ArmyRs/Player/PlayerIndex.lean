import ArmyRs.Storage.RedisIndexSearch

/-!
# The players of a zone and their lookups

A stored player stands in a hash, in the name index and in a sorted set of levels,
all of which `update` writes.  `delete` takes one player out of the hash and then
deletes the keys of the whole name index and of the levels of the zone.

So the player is found no more, and no one else is: `deleted_iff` says that the
others keep their results exactly when there are no others in the levels.
-/

namespace ArmyRs
namespace Player

open Foundation Storage

/-- The id of a player, which the code makes up as `zone_cid_i1`. -/
structure PlayerId where
  text : Text
  ne_nil : text ≠ []
  no_colon : ':' ∉ text

/-- What the indices use of a stored player. -/
structure PlayerData where
  uid : ℤ
  name : Text
  level : ℤ
  deriving DecidableEq, Repr

/-- The redis keys of the players of a zone: the hash, the index key `:name`, and the
index keys that hold scores. -/
structure PlayerDb where
  hash : AList fun _ : Text => PlayerData
  name : RedisIndex
  scores : Text → SortedSet ℤ Text

def levelKey : Text := ['l', 'e', 'v', 'e', 'l']

def uidKey (uid : ℤ) : Text := ['u', 'i', 'd', ':'] ++ (toString uid).toList

/-- The script of `update_scores`. -/
def updateScores (scores : Text → SortedSet ℤ Text) (id : Text) :
    List (Text × ℤ) → Text → SortedSet ℤ Text
  | [] => scores
  | (key, value) :: rest =>
      updateScores (Function.update scores key ((scores key).zadd value id)) id rest

/-- `str.gsub!(/:.+/, '')`; the flag tells that a match is being skipped. -/
def dropAfterColon : Bool → Text → Text
  | _, [] => []
  | true, c :: rest => if c = '\n' then c :: dropAfterColon false rest else dropAfterColon true rest
  | false, c :: rest =>
      -- a match needs a character after the colon on the same line
      if c = ':' ∧ rest ≠ [] ∧ rest.head? ≠ some '\n' then dropAfterColon true rest
      else c :: dropAfterColon false rest

/-- The characters of `/[\@\!\#\$\%\^\&\(\)\*:\s]/`. -/
def special : Text :=
  ['@', '!', '#', '$', '%', '^', '&', '(', ')', '*', ':', ' ', '\t', '\r', '\n', Char.ofNat 12,
    Char.ofNat 11]

/-- What `search_by_name` looks for. -/
def cleaned (str : Text) : Text :=
  (dropAfterColon false str).filter (· ∉ special)

namespace PlayerDb

def new : PlayerDb where
  hash := ∅
  name := .new
  scores := fun _ => .empty

/-- `update`, with the error that it raises. -/
def update (db : PlayerDb) (id : Text) : Option PlayerData → Option Text × PlayerDb
  | none => (none, db)
  | some player =>
      let db := { db with hash := db.hash.insert id player }
      match db.name.updatePrefix id player.name with
      | .error e => (some e, db)
      | .ok name =>
          (none,
            { db with
              name := name
              scores := updateScores db.scores id
                [(levelKey, player.level), (uidKey player.uid, player.uid)] })

/-- `delete`. -/
def delete (db : PlayerDb) (id : Text) : PlayerDb where
  hash := db.hash.erase id
  name := db.name.delete
  scores := Function.update db.scores levelKey .empty

/-- `read_id_by_name`. -/
def readIdByName (db : PlayerDb) (name : Text) : Except Text (Option Text × RedisIndex) :=
  db.name.readByPrefix name

/-- `search_by_name`. -/
def searchByName (db : PlayerDb) (str : Option Text) (count : ℤ) :
    Except Text (List (Option Text) × RedisIndex) :=
  match str with
  | none => .ok ([], db.name)
  | some str =>
      if (cleaned str).length = 0 then .ok ([], db.name)
      else db.name.searchByPrefix (cleaned str) count

/-- `search_by_level`: without a count there is no limit. -/
def searchByLevel (db : PlayerDb) (levelMin levelMax count : ℤ) (offset : Nat) : List Text :=
  let found := (db.scores levelKey).zrangebyscore levelMin levelMax
  if 0 < count then (found.drop offset).take count.toNat else found

end PlayerDb

inductive PlayerEvent
  | update (id : PlayerId) (player : Option PlayerData)
  | delete (id : PlayerId)

def PlayerDb.step (db : PlayerDb) : PlayerEvent → Option PlayerDb
  | .update id player => some (db.update id.text player).2
  | .delete id => some (db.delete id.text)

/-! ## Lookups -/

inductive Lookup
  | name (name : Text)
  | namePrefix (str : Option Text) (count : ℤ)
  | level (levelMin levelMax count : ℤ) (offset : Nat)

/-- The lookup answers with the player. -/
def Finds (db : PlayerDb) (id : Text) : Lookup → Prop
  | .name name => ∃ index, db.readIdByName name = .ok (some id, index)
  | .namePrefix str count =>
      ∃ found index, db.searchByName str count = .ok (found, index) ∧ some id ∈ found
  | .level levelMin levelMax count offset => id ∈ db.searchByLevel levelMin levelMax count offset

/-- The player is gone from the hash and from all lookups; the others are in the hash
and are found as before. -/
structure Deleted (id : Text) (before after : PlayerDb) : Prop where
  gone : after.hash.lookup id = none
  notFound : ∀ lookup, ¬ Finds after id lookup
  kept : ∀ other, other ≠ id → after.hash.lookup other = before.hash.lookup other
  found : ∀ other, other ≠ id → ∀ lookup, Finds after other lookup ↔ Finds before other lookup

/-- The name index is in order, and whoever has a name in it has a level. -/
structure Kept (db : PlayerDb) : Prop where
  indexed : Indexed db.name
  levels : ∀ id name, db.name.prefixes.lookup id = some name →
    id ∈ (db.scores levelKey).members

section

variable {db next : PlayerDb} {id other : Text} {event : PlayerEvent} {lookup : Lookup}
  {events : List PlayerEvent}

theorem levelKey_ne_uidKey (uid : ℤ) : levelKey ≠ uidKey uid := by
  simp [levelKey, uidKey]

theorem mem_updateScores (scores : Text → SortedSet ℤ Text) (level uid : ℤ) :
    other ∈ (updateScores scores id [(levelKey, level), (uidKey uid, uid)] levelKey).members ↔
      other = id ∨ other ∈ (scores levelKey).members := by
  simp only [updateScores]
  rw [Function.update_of_ne (levelKey_ne_uidKey uid), Function.update_self,
    SortedSet.mem_members_zadd]

/-! ## What is found -/

theorem cleaned_no_colon (str : Text) : ':' ∉ cleaned str := by
  intro hmem
  have hnot : ':' ∉ special := by simpa using (List.mem_filter.mp hmem).2
  exact hnot (by decide)

theorem mem_of_searchByLevel {levelMin levelMax count : ℤ} {offset : Nat}
    (h : id ∈ db.searchByLevel levelMin levelMax count offset) :
    id ∈ (db.scores levelKey).members := by
  have hrange : id ∈ (db.scores levelKey).zrangebyscore levelMin levelMax := by
    unfold PlayerDb.searchByLevel at h
    split at h
    · exact List.mem_of_mem_drop (List.mem_of_mem_take h)
    · exact h
  obtain ⟨s, hentry, -⟩ := SortedSet.mem_zrangebyscore.mp hrange
  exact SortedSet.mem_members.mpr ⟨s, hentry⟩

/-- Whoever is found has a level. -/
theorem Kept.mem_of_finds (h : Kept db) (hfinds : Finds db id lookup) :
    id ∈ (db.scores levelKey).members := by
  cases lookup with
  | name name =>
      obtain ⟨index, hread⟩ := hfinds
      obtain ⟨p, hlookup⟩ := h.indexed.of_readByPrefix hread
      exact h.levels id p hlookup
  | namePrefix str count =>
      obtain ⟨found, index, hsearch, hid⟩ := hfinds
      unfold PlayerDb.searchByName at hsearch
      split at hsearch
      · cases hsearch
        cases hid
      · next str =>
        split at hsearch
        · cases hsearch
          cases hid
        · next hlength =>
          have hne : cleaned str ≠ [] := fun hnil => hlength (by rw [hnil]; rfl)
          rw [h.indexed.searchByPrefix hne (cleaned_no_colon str)] at hsearch
          cases hsearch
          obtain ⟨entry, hentry, hsome⟩ := List.mem_map.mp hid
          cases hsome
          exact h.levels _ _ (mem_matching.mp (List.mem_of_mem_take hentry)).1
  | level levelMin levelMax count offset => exact mem_of_searchByLevel hfinds

/-- Whoever has a level is found by it. -/
theorem finds_of_mem (hid : id ∈ (db.scores levelKey).members) :
    ∃ lookup, Finds db id lookup := by
  obtain ⟨s, hentry⟩ := SortedSet.mem_members.mp hid
  refine ⟨.level s s 0 0, ?_⟩
  show id ∈ (db.scores levelKey).zrangebyscore s s
  exact SortedSet.mem_zrangebyscore.mpr ⟨s, hentry, le_rfl, le_rfl⟩

/-! ## Steps and runs -/

theorem kept_new : Kept .new where
  indexed := indexed_new
  levels id name h := by
    have hnone : (∅ : AList fun _ : Text => Text).lookup id = some name := h
    simp at hnone

/-- Nothing is left of the name index and of the levels, whatever was in them. -/
theorem kept_delete (db : PlayerDb) (id : Text) : Kept (db.delete id) where
  indexed := by
    have hnone : ∀ i, (db.delete id).name.prefixes.lookup i = none := AList.lookup_empty
    constructor
    · intro i p h
      rw [hnone] at h
      cases h
    · intro entry
      simp only [hnone]
      simp [PlayerDb.delete, RedisIndex.delete, SortedSet.empty]
  levels i name h := by
    have hnone : (∅ : AList fun _ : Text => Text).lookup i = some name := h
    simp at hnone

theorem not_mem_levels_delete : other ∉ ((db.delete id).scores levelKey).members := by
  have hempty : (db.delete id).scores levelKey = .empty := by simp [PlayerDb.delete]
  rw [hempty]
  exact SortedSet.not_mem_members_empty other

theorem Kept.update (h : Kept db) (id : PlayerId) (player : Option PlayerData) :
    Kept (db.update id.text player).2 := by
  cases player with
  | none => exact h
  | some player =>
      unfold PlayerDb.update
      dsimp only
      split
      · exact ⟨h.indexed, h.levels⟩
      · next name hname =>
        unfold RedisIndex.updatePrefix at hname
        split at hname
        · -- the name is empty and the index as it was
          cases hname
          refine ⟨h.indexed, fun i p hi => ?_⟩
          rw [mem_updateScores]
          exact .inr (h.levels i p hi)
        · split at hname
          · cases hname
          · next hcolon =>
            cases hname
            refine ⟨h.indexed.update hcolon id.ne_nil id.no_colon, fun i p hi => ?_⟩
            rw [mem_updateScores]
            dsimp only at hi
            rw [prefixes_luaUpdatePrefix] at hi
            split at hi
            · next heq => exact .inl heq
            · exact .inr (h.levels i p hi)

theorem Kept.step (h : Kept db) (hstep : db.step event = some next) : Kept next := by
  cases event with
  | update id player =>
      cases hstep
      exact h.update id player
  | delete id =>
      cases hstep
      exact kept_delete db id.text

/-- However the players of the zone were stored: deleting one takes him away and
leaves the others as they are exactly when nobody else has a level. -/
theorem deleted_iff (hrun : Run PlayerDb.step free .new events db) (id : Text) :
    Deleted id db (db.delete id) ↔ ∀ other ∈ (db.scores levelKey).members, other = id := by
  have hkept : Kept db := hrun.invariant kept_new fun _ _ _ h _ hstep => h.step hstep
  -- nobody is found after the deletion
  have hnone : ∀ other lookup, ¬ Finds (db.delete id) other lookup :=
    fun other lookup hfinds => not_mem_levels_delete ((kept_delete db id).mem_of_finds hfinds)
  constructor
  · intro deleted other hother
    by_contra hne
    obtain ⟨lookup, hfinds⟩ := finds_of_mem hother
    exact hnone other lookup ((deleted.found other hne lookup).mpr hfinds)
  · intro hothers
    refine ⟨AList.lookup_erase id db.hash, hnone id, ?_, ?_⟩
    · intro other hne
      exact AList.lookup_erase_ne hne
    · intro other hne lookup
      refine iff_of_false (hnone other lookup) fun hfinds => ?_
      exact hne (hothers other (hkept.mem_of_finds hfinds))

end

/-! ## Examples -/

/-- One player. -/
def firstId : PlayerId := ⟨['1'], by decide, by decide⟩

/-- Another one. -/
def secondId : PlayerId := ⟨['2'], by decide, by decide⟩

/-- Two players of one zone. -/
def twoPlayers : List PlayerEvent :=
  [.update firstId (some ⟨1, ['a'], 10⟩), .update secondId (some ⟨2, ['b'], 20⟩)]

/-- The only player of a zone is deleted. -/
theorem deleted_onePlayer :
    Deleted ['1'] ((exec PlayerDb.step free .new (twoPlayers.take 1)).getD .new)
      (((exec PlayerDb.step free .new (twoPlayers.take 1)).getD .new).delete ['1']) := by
  have hrun : Run PlayerDb.step free .new (twoPlayers.take 1)
      ((exec PlayerDb.step free .new (twoPlayers.take 1)).getD .new) :=
    run_exec_getD PlayerDb.new (by decide)
  exact (deleted_iff hrun ['1']).mpr (by decide)

/-- With the first of two players the second can be found no more. -/
theorem not_deleted_twoPlayers :
    ¬ ∀ (events : List PlayerEvent) (db : PlayerDb), Run PlayerDb.step free .new events db →
      ∀ id, Deleted id db (db.delete id) := by
  intro hall
  have deleted := hall twoPlayers _ (run_exec_getD PlayerDb.new (by decide)) ['1']
  have hfound := (deleted.found ['2'] (by decide) (.level 20 20 0 0)).mpr (by
    show ['2'] ∈ _
    decide)
  exact absurd hfound (by
    show ['2'] ∉ _
    decide)

end Player
end ArmyRs
