import ArmyRs.Foundation.SortedSets
import ArmyRs.Foundation.Tables
import ArmyRs.Foundation.Transition

/-!
# The index over prefixes

An index key has three redis keys: a sorted set of `prefix:id` entries, a hash from
ids to their prefixes and a hash from prefixes to ids, which `get_by_prefix` reads.
`update_prefix` and `remove_prefix` are scripts, so each is one step.

`update_prefix` writes the new prefix into the second hash and leaves the old one
there, and it writes over an id that has the prefix already.  `Mapped` says of a step
that the second hash follows the first and that no id but the one of the call loses
its prefix.  In every run this is so exactly as long as no id changes its prefix
and no two ids have one prefix (`Careful`).

Texts are lists of characters; redis compares bytes, and the bytes of UTF-8 are in
the order of the characters.
-/

namespace ArmyRs
namespace Storage

open Foundation

abbrev Text := List Char

/-- The keys of one index key: `index_key`, `prefix_key` and `id_prefix_key`. -/
structure RedisIndex where
  index : SortedSet ℤ Text
  prefixes : AList fun _ : Text => Text
  ids : AList fun _ : Text => Text

def RedisIndex.new : RedisIndex where
  index := .empty
  prefixes := ∅
  ids := ∅

/-- The entry `prefix:id`. -/
def named (pre id : Text) : Text :=
  pre ++ ':' :: id

namespace RedisIndex

/-- `delete`, which leaves the hash from prefixes to ids. -/
def delete (r : RedisIndex) : RedisIndex :=
  { r with index := .empty, prefixes := ∅ }

/-- The sorted set once the scripts have removed the entry of the id. -/
def withoutEntry (r : RedisIndex) (id : Text) : SortedSet ℤ Text :=
  match r.prefixes.lookup id with
  | some old => r.index.zrem [named old id]
  | none => r.index

/-- The script of `update_prefix`. -/
def luaUpdatePrefix (r : RedisIndex) (id pre : Text) : RedisIndex where
  index := (r.withoutEntry id).zadd 0 (named pre id)
  prefixes := r.prefixes.insert id pre
  ids := r.ids.insert pre id

/-- `update_prefix`. -/
def updatePrefix (r : RedisIndex) (id pre : Text) : Except Text RedisIndex :=
  if pre.length = 0 then .ok r
  else if ':' ∈ pre then .error ("invalid prefix: ".toList ++ pre)
  else .ok (r.luaUpdatePrefix id pre)

/-- `remove_prefix`. -/
def removePrefix (r : RedisIndex) (id : Text) : RedisIndex where
  index := r.withoutEntry id
  prefixes := r.prefixes.erase id
  ids :=
    match r.prefixes.lookup id with
    | some old => r.ids.erase old
    | none => r.ids

/-- `get_by_prefix`. -/
def getByPrefix (r : RedisIndex) (pre : Text) : Option Text :=
  r.ids.lookup pre

end RedisIndex

inductive IndexEvent
  | update (id pre : Text)
  | remove (id : Text)
  deriving DecidableEq, Repr

/-- The id that a call is about. -/
def IndexEvent.id : IndexEvent → Text
  | .update id _ => id
  | .remove id => id

/-- A call that raises leaves the index as it is. -/
def indexStep (r : RedisIndex) : IndexEvent → Option RedisIndex
  | .update id pre =>
      match r.updatePrefix id pre with
      | .ok next => some next
      | .error _ => some r
  | .remove id => some (r.removePrefix id)

/-! ## What the two hashes should say -/

/-- A prefix leads to an id exactly when some id has it, and to an id that has it. -/
structure Leads (r : RedisIndex) : Prop where
  found : ∀ pre, (∃ id, r.getByPrefix pre = some id) ↔ ∃ id, r.prefixes.lookup id = some pre
  recorded : ∀ pre id, r.getByPrefix pre = some id → r.prefixes.lookup id = some pre

/-- The call leads to such a state again, and the ids it is not about keep the
prefixes that lead to them. -/
def Mapped (r : RedisIndex) (event : IndexEvent) : Prop :=
  ∀ next, indexStep r event = some next →
    Leads next ∧ ∀ pre other, other ≠ event.id → r.getByPrefix pre = some other →
      next.getByPrefix pre = some other

/-- An id gets a prefix for the first time or the same one again, and no other id
has it. -/
def Careful (r : RedisIndex) : IndexEvent → Prop
  | .update id pre =>
      pre = [] ∨ ':' ∈ pre ∨
        (∀ old, r.prefixes.lookup id = some old → old = pre) ∧
          ∀ other, r.prefixes.lookup other = some pre → other = id
  | .remove _ => True

/-- The two hashes are the inverses of each other. -/
def Mirrored (r : RedisIndex) : Prop :=
  ∀ pre id, r.getByPrefix pre = some id ↔ r.prefixes.lookup id = some pre

section

variable {r next : RedisIndex} {id other pre old : Text} {event : IndexEvent}
  {events : List IndexEvent}

theorem mirrored_new : Mirrored .new := by
  intro pre id
  show (∅ : AList fun _ : Text => Text).lookup pre = some id ↔
    (∅ : AList fun _ : Text => Text).lookup id = some pre
  simp

theorem Mirrored.leads (h : Mirrored r) : Leads r where
  found pre := exists_congr fun id => h pre id
  recorded pre id := (h pre id).mp

/-- No two ids have one prefix. -/
theorem Mirrored.unique (h : Mirrored r) (hid : r.prefixes.lookup id = some pre)
    (hother : r.prefixes.lookup other = some pre) : other = id := by
  rw [← h] at hid hother
  rw [hid] at hother
  exact (Option.some.inj hother).symm

/-! ## Calls of `update_prefix` -/

theorem updatePrefix_of_colon (hcolon : ':' ∈ pre) :
    r.updatePrefix id pre = .error ("invalid prefix: ".toList ++ pre) := by
  have hne : pre.length ≠ 0 := by
    have := List.length_pos_of_mem hcolon
    omega
  simp [RedisIndex.updatePrefix, hne, hcolon]

theorem updatePrefix_of_valid (hne : pre ≠ []) (hcolon : ':' ∉ pre) :
    r.updatePrefix id pre = .ok (r.luaUpdatePrefix id pre) := by
  simp [RedisIndex.updatePrefix, hne, hcolon]

/-- A call that writes nothing. -/
theorem indexStep_of_invalid (h : pre = [] ∨ ':' ∈ pre) :
    indexStep r (.update id pre) = some r := by
  rcases h with rfl | hcolon
  · rfl
  · simp [indexStep, updatePrefix_of_colon hcolon]

theorem indexStep_of_valid (h : ¬ (pre = [] ∨ ':' ∈ pre)) :
    indexStep r (.update id pre) = some (r.luaUpdatePrefix id pre) := by
  rw [not_or] at h
  simp [indexStep, updatePrefix_of_valid h.1 h.2]

@[simp] theorem getByPrefix_luaUpdatePrefix (p : Text) :
    (r.luaUpdatePrefix id pre).getByPrefix p = if p = pre then some id else r.getByPrefix p :=
  lookup_insert_apply r.ids pre id p

@[simp] theorem prefixes_luaUpdatePrefix (i : Text) :
    (r.luaUpdatePrefix id pre).prefixes.lookup i =
      if i = id then some pre else r.prefixes.lookup i :=
  lookup_insert_apply r.prefixes id pre i

/-- The old prefix of the id still leads to it, and a prefix of another id is
redirected. -/
theorem careful_of_mapped (h : Mirrored r) (hmapped : Mapped r event) : Careful r event := by
  cases event with
  | remove id => trivial
  | update id pre =>
      by_cases hinvalid : pre = [] ∨ ':' ∈ pre
      · rcases hinvalid with hnil | hcolon
        · exact .inl hnil
        · exact .inr (.inl hcolon)
      obtain ⟨leads, hothers⟩ := hmapped _ (indexStep_of_valid hinvalid)
      refine .inr (.inr ⟨fun old hold => ?_, fun other hother => ?_⟩)
      · by_contra hne
        -- the old prefix is recorded for the id no more
        have hget : (r.luaUpdatePrefix id pre).getByPrefix old = some id := by
          simpa [hne] using (h old id).mpr hold
        have hrecorded := leads.recorded old id hget
        simp only [prefixes_luaUpdatePrefix, if_pos, Option.some.injEq] at hrecorded
        exact hne hrecorded.symm
      · by_contra hne
        have hget := hothers pre other hne ((h pre other).mpr hother)
        simp only [getByPrefix_luaUpdatePrefix, if_pos, Option.some.injEq] at hget
        exact hne hget.symm

theorem Mirrored.update (h : Mirrored r)
    (hsame : ∀ old, r.prefixes.lookup id = some old → old = pre)
    (hfree : ∀ other, r.prefixes.lookup other = some pre → other = id) :
    Mirrored (r.luaUpdatePrefix id pre) := by
  intro p i
  simp only [getByPrefix_luaUpdatePrefix, prefixes_luaUpdatePrefix]
  split
  · next hp =>
    subst hp
    split
    · next hi => simp [hi]
    · next hi =>
      -- another id does not have this prefix
      have hnot : r.prefixes.lookup i ≠ some p := fun hlookup => hi (hfree i hlookup)
      simp [Ne.symm hi, hnot]
  · next hp =>
    split
    · next hi =>
      subst hi
      have hnot : r.getByPrefix p ≠ some i := fun hget => hp (hsame p ((h p i).mp hget))
      simp [Ne.symm hp, hnot]
    · exact h p i

/-! ## Calls of `remove_prefix` -/

theorem getByPrefix_removePrefix (hid : r.prefixes.lookup id = some old) (p : Text) :
    (r.removePrefix id).getByPrefix p = if p = old then none else r.getByPrefix p := by
  unfold RedisIndex.removePrefix RedisIndex.getByPrefix
  rw [hid]
  exact lookup_erase_apply r.ids old p

theorem getByPrefix_removePrefix_of_none (hid : r.prefixes.lookup id = none) (p : Text) :
    (r.removePrefix id).getByPrefix p = r.getByPrefix p := by
  simp [RedisIndex.removePrefix, RedisIndex.getByPrefix, hid]

@[simp] theorem prefixes_removePrefix (i : Text) :
    (r.removePrefix id).prefixes.lookup i = if i = id then none else r.prefixes.lookup i :=
  lookup_erase_apply r.prefixes id i

theorem Mirrored.remove (h : Mirrored r) (id : Text) : Mirrored (r.removePrefix id) := by
  intro p i
  rw [prefixes_removePrefix]
  cases hid : r.prefixes.lookup id with
  | none =>
      rw [getByPrefix_removePrefix_of_none hid, h p i]
      split
      · next heq =>
        rw [heq, hid]
      · rfl
  | some old =>
      rw [getByPrefix_removePrefix hid]
      by_cases hp : p = old
      · -- no other id has the prefix that goes
        subst hp
        by_cases hi : i = id
        · simp [hi]
        · have hnot : r.prefixes.lookup i ≠ some p := fun hlookup => hi (h.unique hid hlookup)
          simp [hi, hnot]
      · by_cases hi : i = id
        · subst hi
          simpa [hp, h p i, hid] using Ne.symm hp
        · simpa [hp, hi] using h p i

/-! ## Steps and runs -/

/-- What a call does: nothing, or one of the scripts. -/
theorem indexStep_cases (hstep : indexStep r event = some next) :
    (∃ id pre, event = .update id pre ∧ (pre = [] ∨ ':' ∈ pre) ∧ next = r) ∨
    (∃ id pre, event = .update id pre ∧ ¬ (pre = [] ∨ ':' ∈ pre) ∧
      next = r.luaUpdatePrefix id pre) ∨
    ∃ id, event = .remove id ∧ next = r.removePrefix id := by
  cases event with
  | remove id => exact .inr (.inr ⟨id, rfl, (Option.some.inj hstep).symm⟩)
  | update id pre =>
      by_cases hinvalid : pre = [] ∨ ':' ∈ pre
      · rw [indexStep_of_invalid hinvalid] at hstep
        exact .inl ⟨id, pre, rfl, hinvalid, (Option.some.inj hstep).symm⟩
      · rw [indexStep_of_valid hinvalid] at hstep
        exact .inr (.inl ⟨id, pre, rfl, hinvalid, (Option.some.inj hstep).symm⟩)

theorem Mirrored.step (h : Mirrored r) (hcareful : Careful r event)
    (hstep : indexStep r event = some next) : Mirrored next := by
  rcases indexStep_cases hstep with
    ⟨id, pre, rfl, -, rfl⟩ | ⟨id, pre, rfl, hvalid, rfl⟩ | ⟨id, rfl, rfl⟩
  · exact h
  · rw [Careful, ← or_assoc] at hcareful
    obtain ⟨hsame, hfree⟩ := hcareful.resolve_left hvalid
    exact h.update hsame hfree
  · exact h.remove id

/-- The prefixes of other ids are not touched. -/
theorem lookup_of_step (hother : other ≠ event.id) (hstep : indexStep r event = some next) :
    next.prefixes.lookup other = r.prefixes.lookup other := by
  rcases indexStep_cases hstep with
    ⟨id, pre, rfl, -, rfl⟩ | ⟨id, pre, rfl, -, rfl⟩ | ⟨id, rfl, rfl⟩
  · rfl
  · rw [prefixes_luaUpdatePrefix]
    exact if_neg hother
  · rw [prefixes_removePrefix]
    exact if_neg hother

theorem mapped_of_careful (h : Mirrored r) (hcareful : Careful r event) : Mapped r event := by
  intro next hstep
  have hnext : Mirrored next := h.step hcareful hstep
  refine ⟨hnext.leads, fun pre other hother hget => ?_⟩
  rw [hnext pre other, lookup_of_step hother hstep]
  exact (h pre other).mp hget

/-- Over any history: every call keeps the prefixes leading to the ids that have
them, and to the ids that it is not about, exactly when no call changes the prefix of
an id or gives an id the prefix of another. -/
theorem run_mapped_iff :
    Run indexStep Mapped .new events r ↔ Run indexStep Careful .new events r := by
  constructor
  · intro hrun
    exact hrun.mono_of_invariant mirrored_new (fun _ _ h => careful_of_mapped h)
      fun _ _ _ h hmapped => h.step (careful_of_mapped h hmapped)
  · intro hrun
    exact hrun.mono_of_invariant mirrored_new (fun _ _ h => mapped_of_careful h)
      fun _ _ _ h => h.step

/-- The state after a careful run. -/
theorem leads_of_run (hrun : Run indexStep Careful .new events r) : Leads r :=
  (hrun.invariant mirrored_new fun _ _ _ h => h.step).leads

end

/-! ## Examples -/

/-- A player is renamed. -/
def renamed : List IndexEvent :=
  [.update ['1'] ['a', 'b'], .update ['1'] ['c', 'd']]

/-- The old name still leads to the player, who does not have it. -/
theorem not_leads_renamed :
    ¬ ∀ (events : List IndexEvent) (r : RedisIndex), Run indexStep free .new events r →
      Leads r := by
  intro hall
  have leads := hall renamed _ (run_exec_getD .new (by decide))
  have hrecorded := leads.recorded ['a', 'b'] ['1'] (by decide)
  revert hrecorded
  decide

end Storage
end ArmyRs
