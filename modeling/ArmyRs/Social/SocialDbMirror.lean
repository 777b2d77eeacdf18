import ArmyRs.Social.SocialDb

/-!
# The two sets of a pair of players

`b` is in the set of whom `a` follows exactly when `a` is in the set of who follows
`b`: each of these is an edge from `a` to `b`, kept twice.  While operations run,
the two sides of an edge may differ, but only as long as a command that evens them
out has yet to be sent (`Mirrored.covered`).

This is lost when an edge is added and removed by operations that overlap: the
four commands can interleave so that one side is added last and the other removed
last.  `Careful` lets an operation start only when no running operation has a
command left that works against it.
-/

namespace ArmyRs
namespace Social

open Foundation

variable {Id : Type*}

/-- The edge that an entry of a set stands for. -/
def edge : Key Id → Id → Id × Id
  | .follows a, b => (a, b)
  | .follower b, a => (a, b)

/-- The two sets agree on every pair. -/
def Symmetric (db : SocialDb Id) : Prop :=
  ∀ a b, b ∈ db.sets (.follows a) ↔ a ∈ db.sets (.follower b)

/-- No operation has a command left. -/
def Quiescent (db : SocialDb Id) : Prop :=
  ∀ operation ∈ db.running, operation = []

/-- The command may remove the edge. -/
def Removes (pair : Id × Id) : Command Id → Prop
  | .sadd _ _ => False
  | .srem key member => edge key member = pair
  | .del (.follows id) => pair.1 = id
  | .del (.follower id) => pair.2 = id
  | .removeEach _ id => pair.1 = id ∨ pair.2 = id

/-- The first command adds an edge that the second may remove. -/
def Conflict (adding removing : Command Id) : Prop :=
  match adding with
  | .sadd key member => Removes (edge key member) removing
  | _ => False

/-- An operation starts when no command of a running operation conflicts with one
of its own. -/
def Careful [DecidableEq Id] (db : SocialDb Id) : Event Id → Prop
  | .call operation =>
      ∀ other ∈ db.running, ∀ c ∈ commands operation, ∀ d ∈ other, ¬ Conflict c d ∧ ¬ Conflict d c
  | .send _ _ => True

/-! ## Commands and edges -/

/-- The other entry for the same edge. -/
def mirror : Key Id → Id → Key Id × Id
  | .follows a, b => (.follower b, a)
  | .follower b, a => (.follows a, b)

@[simp] theorem edge_mirror (key : Key Id) (member : Id) :
    edge (mirror key member).1 (mirror key member).2 = edge key member := by
  cases key <;> rfl

@[simp] theorem mirror_mirror (key : Key Id) (member : Id) :
    mirror (mirror key member).1 (mirror key member).2 = (key, member) := by
  cases key <;> rfl

theorem removes_del (key : Key Id) (member : Id) : Removes (edge key member) (.del key) := by
  cases key <;> rfl

section

variable [DecidableEq Id] {sets : Key Id → Finset Id} {command : Command Id} {key : Key Id}
  {member : Id}

/-- An entry that is new was added by the command. -/
theorem eq_sadd_of_mem_execute (hmem : member ∈ execute sets command key)
    (hold : member ∉ sets key) : command = .sadd key member := by
  cases command with
  | sadd key' member' =>
      by_cases hkey : key = key'
      · subst hkey
        simp only [execute, Function.update_self, Finset.mem_insert] at hmem
        rw [hmem.resolve_right hold]
      · simp only [execute, Function.update_of_ne hkey] at hmem
        exact absurd hmem hold
  | srem key' member' =>
      by_cases hkey : key = key'
      · subst hkey
        simp only [execute, Function.update_self] at hmem
        exact absurd (Finset.mem_of_mem_erase hmem) hold
      · simp only [execute, Function.update_of_ne hkey] at hmem
        exact absurd hmem hold
  | del key' =>
      by_cases hkey : key = key'
      · subst hkey
        simp [execute] at hmem
      · simp only [execute, Function.update_of_ne hkey] at hmem
        exact absurd hmem hold
  | removeEach key' id => exact absurd hmem hold

/-- An entry that is gone was removed by the command. -/
theorem eq_srem_or_del_of_notMem_execute (hmem : member ∉ execute sets command key)
    (hold : member ∈ sets key) : command = .srem key member ∨ command = .del key := by
  cases command with
  | sadd key' member' =>
      by_cases hkey : key = key'
      · subst hkey
        simp only [execute, Function.update_self] at hmem
        exact absurd (Finset.mem_insert_of_mem hold) hmem
      · simp only [execute, Function.update_of_ne hkey] at hmem
        exact absurd hold hmem
  | srem key' member' =>
      by_cases hkey : key = key'
      · subst hkey
        simp only [execute, Function.update_self, Finset.mem_erase, not_and] at hmem
        have hmember : member = member' := by
          by_contra hne
          exact hmem hne hold
        exact .inl (by rw [hmember])
      · simp only [execute, Function.update_of_ne hkey] at hmem
        exact absurd hold hmem
  | del key' =>
      by_cases hkey : key = key'
      · exact .inr (by rw [hkey])
      · simp only [execute, Function.update_of_ne hkey] at hmem
        exact absurd hold hmem
  | removeEach key' id => exact absurd hold hmem

theorem removes_of_notMem_execute (hmem : member ∉ execute sets command key)
    (hold : member ∈ sets key) : Removes (edge key member) command := by
  rcases eq_srem_or_del_of_notMem_execute hmem hold with rfl | rfl
  · rfl
  · exact removes_del key member

theorem mem_execute_sadd : member ∈ execute sets (.sadd key member) key := by
  simp [execute]

theorem notMem_execute_srem : member ∉ execute sets (.srem key member) key := by
  simp [execute]

end

/-! ## Running operations -/

/-- The command deletes a key. -/
def IsDel : Command Id → Prop
  | .del _ => True
  | _ => False

/-- A running operation: what its commands rely on.

* An entry that is to be removed has its mirror removed too, or the mirror is gone.
* `add_friend` adds the entry of the follower last.
* Before a key is deleted, its members are removed one by one. -/
structure Running (sets : Key Id → Finset Id) (operation : List (Command Id)) : Prop where
  mirrors : ∀ key member, .srem key member ∈ operation →
    .srem (mirror key member).1 (mirror key member).2 ∈ operation ∨
      (mirror key member).2 ∉ sets (mirror key member).1
  follower_last : ∀ a b, .sadd (.follows a) b ∈ operation → .sadd (.follower b) a ∈ operation
  follows_first : ∀ a b, .sadd (.follower b) a ∈ operation →
    .sadd (.follows a) b ∈ operation ∨ b ∈ sets (.follows a)
  emptied : ∀ key, .del key ∈ operation → ∀ member ∈ sets key,
    .srem key member ∈ operation ∨ ∃ id, .removeEach key id ∈ operation
  dels_last : operation.Pairwise fun c d => IsDel c → IsDel d
  adds_ordered : operation.Pairwise fun c d =>
    ∀ a b, c = .sadd (.follower b) a → d ≠ .sadd (.follows a) b
  reads_own : ∀ key id, .removeEach key id ∈ operation → key = .follows id ∨ key = .follower id

/-- What the steps keep. -/
structure Mirrored (db : SocialDb Id) : Prop where
  running : ∀ operation ∈ db.running, Running db.sets operation
  no_conflict : ∀ c ∈ db.running.flatten, ∀ d ∈ db.running.flatten, ¬ Conflict c d
  covered_follows : ∀ a b, b ∈ db.sets (.follows a) → a ∉ db.sets (.follower b) →
    .sadd (.follower b) a ∈ db.running.flatten ∨ .srem (.follows a) b ∈ db.running.flatten
  covered_follower : ∀ a b, a ∈ db.sets (.follower b) → b ∉ db.sets (.follows a) →
    .srem (.follower b) a ∈ db.running.flatten

theorem mirrored_new : Mirrored (SocialDb.new : SocialDb Id) := by
  constructor <;> simp [SocialDb.new]

/-- Without commands left the sets are symmetric. -/
theorem Mirrored.symmetric {db : SocialDb Id} (h : Mirrored db) (hquiet : Quiescent db) :
    Symmetric db := by
  have hnone : db.running.flatten = [] := List.flatten_eq_nil_iff.mpr hquiet
  intro a b
  constructor
  · intro hfollows
    by_contra hfollower
    have hcovered := h.covered_follows a b hfollows hfollower
    simp [hnone] at hcovered
  · intro hfollower
    by_contra hfollows
    have hcovered := h.covered_follower a b hfollower hfollows
    simp [hnone] at hcovered

/-! ## The commands of a new operation -/

/-- The commands that remove a pair come with their mirrors. -/
theorem mem_removeCommands_mirror {id friendId member : Id} {key : Key Id}
    (h : .srem key member ∈ removeCommands id friendId) :
    .srem (mirror key member).1 (mirror key member).2 ∈ removeCommands id friendId := by
  simp only [removeCommands, List.mem_cons, Command.srem.injEq, List.not_mem_nil, or_false] at h ⊢
  rcases h with ⟨rfl, rfl⟩ | ⟨rfl, rfl⟩ | ⟨rfl, rfl⟩ | ⟨rfl, rfl⟩ <;> simp [mirror]

theorem exists_srem_of_mem_removeCommands {id friendId : Id} {command : Command Id}
    (h : command ∈ removeCommands id friendId) :
    ∃ key member, command = .srem key member ∧
      (edge key member = (id, friendId) ∨ edge key member = (friendId, id)) := by
  simp only [removeCommands, List.mem_cons, List.not_mem_nil, or_false] at h
  rcases h with rfl | rfl | rfl | rfl <;> simp [edge]

theorem running_removeCommands (sets : Key Id → Finset Id) (id friendId : Id) :
    Running sets (removeCommands id friendId) where
  mirrors := fun _ _ hmem => .inl (mem_removeCommands_mirror hmem)
  follower_last := by simp [removeCommands]
  follows_first := by simp [removeCommands]
  emptied := by simp [removeCommands]
  dels_last := by simp [removeCommands, IsDel]
  adds_ordered := by simp [removeCommands]
  reads_own := by simp [removeCommands]

theorem running_nil (sets : Key Id → Finset Id) : Running sets [] := by
  constructor <;> simp

theorem running_addCommands (sets : Key Id → Finset Id) (id friendId : Id) :
    Running sets [.sadd (.follows id) friendId, .sadd (.follower friendId) id] where
  mirrors := by simp
  follower_last := by
    intro a b hmem
    simp only [List.mem_cons, Command.sadd.injEq, Key.follows.injEq, List.not_mem_nil,
      or_false, reduceCtorEq, false_and] at hmem
    obtain ⟨rfl, rfl⟩ := hmem
    simp
  follows_first := by
    intro a b hmem
    simp only [List.mem_cons, Command.sadd.injEq, Key.follower.injEq, List.not_mem_nil,
      or_false, reduceCtorEq, false_and, false_or] at hmem
    obtain ⟨rfl, rfl⟩ := hmem
    simp
  emptied := by simp
  dels_last := by simp [IsDel]
  adds_ordered := by simp
  reads_own := by simp

section

variable [DecidableEq Id]

theorem running_commands (sets : Key Id → Finset Id) (operation : Operation Id) :
    Running sets (commands operation) := by
  cases operation with
  | addFriend id friendId =>
      cases id with
      | none => exact running_nil sets
      | some id =>
          cases friendId with
          | none => exact running_nil sets
          | some friendId =>
              dsimp only [commands]
              split
              · exact running_addCommands sets id friendId
              · exact running_nil sets
  | removeFriend id friendId =>
      cases id with
      | none => exact running_nil sets
      | some id =>
          cases friendId with
          | none => exact running_nil sets
          | some friendId => exact running_removeCommands sets id friendId
  | clearFriends id =>
      constructor
      · simp [commands]
      · simp [commands]
      · simp [commands]
      · intro key hkey member _
        right
        simp only [commands, List.mem_cons, Command.del.injEq, List.not_mem_nil, or_false,
          reduceCtorEq, false_or] at hkey
        rcases hkey with rfl | rfl
        · exact ⟨id, by simp [commands]⟩
        · exact ⟨id, by simp [commands]⟩
      · simp [commands, IsDel]
      · simp [commands]
      · intro key other hmem
        simp only [commands, List.mem_cons, Command.removeEach.injEq, List.not_mem_nil,
          or_false, reduceCtorEq] at hmem
        rcases hmem with ⟨rfl, rfl⟩ | ⟨rfl, rfl⟩
        · exact .inr rfl
        · exact .inl rfl

/-- An operation adds or removes, and never both. -/
theorem commands_no_conflict (operation : Operation Id) :
    ∀ c ∈ commands operation, ∀ d ∈ commands operation, ¬ Conflict c d := by
  have hremove : ∀ id friendId : Id, ∀ c ∈ removeCommands id friendId, ∀ d, ¬ Conflict c d := by
    intro id friendId c hc d hconflict
    obtain ⟨key, member, rfl, -⟩ := exists_srem_of_mem_removeCommands hc
    exact hconflict
  intro c hc d hd
  cases operation with
  | addFriend id friendId =>
      cases id with
      | none => cases hc
      | some id =>
          cases friendId with
          | none => cases hc
          | some friendId =>
              dsimp only [commands] at hc hd
              split at hd
              · simp only [List.mem_cons, List.not_mem_nil, or_false] at hd
                rcases hd with rfl | rfl <;> cases c <;> simp [Conflict, Removes]
              · cases hd
  | removeFriend id friendId =>
      cases id with
      | none => cases hc
      | some id =>
          cases friendId with
          | none => cases hc
          | some friendId => exact hremove id friendId c hc d
  | clearFriends id =>
      simp only [commands, List.mem_cons, List.not_mem_nil, or_false] at hc
      rcases hc with rfl | rfl | rfl | rfl <;> simp [Conflict]

end

/-- The commands of a loop over a reply remove pairs of the player. -/
theorem exists_of_mem_expand {order : List Id} {command next : Command Id}
    (h : next ∈ expand order command) :
    ∃ key id friendId, command = .removeEach key id ∧ friendId ∈ order ∧
      next ∈ removeCommands id friendId := by
  cases command with
  | removeEach key id =>
      obtain ⟨friendId, hfriend, hnext⟩ := List.mem_flatMap.mp h
      exact ⟨key, id, friendId, rfl, hfriend, hnext⟩
  | _ => cases h

theorem exists_srem_of_mem_expand {order : List Id} {command next : Command Id}
    (h : next ∈ expand order command) : ∃ key member, next = .srem key member := by
  obtain ⟨-, id, friendId, -, -, hmem⟩ := exists_of_mem_expand h
  obtain ⟨key, member, hnext, -⟩ := exists_srem_of_mem_removeCommands hmem
  exact ⟨key, member, hnext⟩

/-- A loop over a reply removes nothing that its reading does not stand for. -/
theorem not_conflict_expand {order : List Id} {command next other : Command Id}
    (hnext : next ∈ expand order command) (hother : ¬ Conflict other command) :
    ¬ Conflict other next ∧ ¬ Conflict next other := by
  obtain ⟨key, id, friendId, rfl, -, hmem⟩ := exists_of_mem_expand hnext
  obtain ⟨key', member, rfl, hedge⟩ := exists_srem_of_mem_removeCommands hmem
  refine ⟨?_, fun hconflict => hconflict⟩
  intro hconflict
  apply hother
  cases other with
  | sadd otherKey otherMember =>
      have hsame : edge key' member = edge otherKey otherMember := hconflict
      unfold Conflict Removes
      dsimp only
      rcases hedge with hedge | hedge
      · exact .inl (by rw [← hsame, hedge])
      · exact .inr (by rw [← hsame, hedge])
  | srem _ _ => exact hconflict
  | del _ => exact hconflict
  | removeEach _ _ => exact hconflict

/-! ## A command is sent -/

section

variable [DecidableEq Id] {sets : Key Id → Finset Id} {command : Command Id}
  {operation later : List (Command Id)} {order : List Id}

/-- What an operation relies on stays true when a command is sent that does not
conflict with it. -/
theorem Running.execute (h : Running sets operation)
    (hadding : ∀ c ∈ operation, ¬ Conflict c command)
    (hremoving : ∀ c ∈ operation, ¬ Conflict command c) :
    Running (execute sets command) operation where
  mirrors := by
    intro key member hmem
    rcases h.mirrors key member hmem with hmirror | habsent
    · exact .inl hmirror
    · right
      intro hpresent
      apply hremoving _ hmem
      rw [eq_sadd_of_mem_execute hpresent habsent]
      exact (edge_mirror key member).symm
  follower_last := h.follower_last
  follows_first := by
    intro a b hmem
    rcases h.follows_first a b hmem with hfirst | hpresent
    · exact .inl hfirst
    · right
      by_contra habsent
      have hremoves : Removes (edge (.follows a) b) command :=
        removes_of_notMem_execute habsent hpresent
      exact hadding _ hmem hremoves
  emptied := by
    intro key hmem member hmember
    by_cases hold : member ∈ sets key
    · exact h.emptied key hmem member hold
    · exfalso
      apply hremoving _ hmem
      rw [eq_sadd_of_mem_execute hmember hold]
      exact removes_del key member
  dels_last := h.dels_last
  adds_ordered := h.adds_ordered
  reads_own := h.reads_own

/-- The operation that sent its first command goes on with the others. -/
theorem Running.rest (h : Running (Social.execute sets command) (command :: later))
    (hreply : IsReply sets order command) :
    Running (Social.execute sets command) (expand order command ++ later) where
  mirrors := by
    intro key member hmem
    rcases List.mem_append.mp hmem with hloop | hrest
    · obtain ⟨key', id, friendId, rfl, hfriend, hnext⟩ := exists_of_mem_expand hloop
      exact .inl (List.mem_append_left _
        (List.mem_flatMap.mpr ⟨friendId, hfriend, mem_removeCommands_mirror hnext⟩))
    · rcases h.mirrors key member (List.mem_cons_of_mem _ hrest) with hmirror | habsent
      · rcases List.mem_cons.mp hmirror with hsent | hlater
        · right
          rw [← hsent]
          exact notMem_execute_srem
        · exact .inl (List.mem_append_right _ hlater)
      · exact .inr habsent
  follower_last := by
    intro a b hmem
    rcases List.mem_append.mp hmem with hloop | hrest
    · obtain ⟨otherKey, other, heq⟩ := exists_srem_of_mem_expand hloop
      cases heq
    · rcases List.mem_cons.mp (h.follower_last a b (List.mem_cons_of_mem _ hrest)) with
        hsent | hlater
      · exact absurd rfl ((List.pairwise_cons.mp h.adds_ordered).1 _ hrest a b hsent.symm)
      · exact List.mem_append_right _ hlater
  follows_first := by
    intro a b hmem
    rcases List.mem_append.mp hmem with hloop | hrest
    · obtain ⟨otherKey, other, heq⟩ := exists_srem_of_mem_expand hloop
      cases heq
    · rcases h.follows_first a b (List.mem_cons_of_mem _ hrest) with hfirst | hpresent
      · rcases List.mem_cons.mp hfirst with hsent | hlater
        · right
          rw [← hsent]
          exact mem_execute_sadd
        · exact .inl (List.mem_append_right _ hlater)
      · exact .inr hpresent
  emptied := by
    intro key hmem member hmember
    rcases List.mem_append.mp hmem with hloop | hrest
    · obtain ⟨otherKey, other, heq⟩ := exists_srem_of_mem_expand hloop
      cases heq
    · rcases h.emptied key (List.mem_cons_of_mem _ hrest) member hmember with hsrem | hread
      · rcases List.mem_cons.mp hsrem with hsent | hlater
        · rw [← hsent] at hmember
          exact absurd hmember notMem_execute_srem
        · exact .inl (List.mem_append_right _ hlater)
      · obtain ⟨id, hread⟩ := hread
        rcases List.mem_cons.mp hread with hsent | hlater
        · -- the reply names the member, and the loop removes it
          subst hsent
          have hlist : member ∈ order := by
            rw [← List.mem_toFinset, show order.toFinset = sets key from hreply]
            exact hmember
          left
          apply List.mem_append_left
          refine List.mem_flatMap.mpr ⟨member, hlist, ?_⟩
          rcases h.reads_own key id List.mem_cons_self with rfl | rfl <;> simp [removeCommands]
        · exact .inr ⟨id, List.mem_append_right _ hlater⟩
  dels_last := by
    rw [List.pairwise_append]
    refine ⟨?_, (List.pairwise_cons.mp h.dels_last).2, ?_⟩
    · apply List.pairwise_of_forall_mem_list
      intro c hc d _ hdel
      obtain ⟨key, member, rfl⟩ := exists_srem_of_mem_expand hc
      cases hdel
    · intro c hc d _ hdel
      obtain ⟨key, member, rfl⟩ := exists_srem_of_mem_expand hc
      cases hdel
  adds_ordered := by
    rw [List.pairwise_append]
    refine ⟨?_, (List.pairwise_cons.mp h.adds_ordered).2, ?_⟩
    · apply List.pairwise_of_forall_mem_list
      intro c hc d _ a b heq
      obtain ⟨key, member, rfl⟩ := exists_srem_of_mem_expand hc
      cases heq
    · intro c hc d _ a b heq
      obtain ⟨key, member, rfl⟩ := exists_srem_of_mem_expand hc
      cases heq
  reads_own := by
    intro key id hmem
    rcases List.mem_append.mp hmem with hloop | hrest
    · obtain ⟨otherKey, other, heq⟩ := exists_srem_of_mem_expand hloop
      cases heq
    · exact h.reads_own key id (List.mem_cons_of_mem _ hrest)

end

/-! ## Steps and runs -/

/-- After a list among some lists has lost its first element, the other elements
are still there. -/
theorem mem_flatten_set {α : Type*} {lists : List (List α)} {index : Nat} {first : α}
    {tail new : List α} (hindex : lists[index]? = some (first :: tail)) (hsub : tail ⊆ new) {a : α}
    (ha : a ∈ lists.flatten) : a ∈ (lists.set index new).flatten ∨ a = first := by
  obtain ⟨list, hlist, hmem⟩ := List.mem_flatten.mp ha
  obtain ⟨place, hplace⟩ := List.mem_iff_getElem?.mp hlist
  by_cases hsame : index = place
  · subst hsame
    rw [hindex] at hplace
    cases hplace
    rcases List.mem_cons.mp hmem with rfl | htail
    · exact .inr rfl
    · left
      have hnew : new ∈ lists.set index new :=
        List.mem_set (List.getElem?_eq_some_iff.mp hindex).1 new
      exact List.mem_flatten.mpr ⟨new, hnew, hsub htail⟩
  · left
    have hlist' : list ∈ lists.set index new := by
      rw [List.mem_iff_getElem?]
      exact ⟨place, by rw [List.getElem?_set_ne hsame, hplace]⟩
    exact List.mem_flatten.mpr ⟨list, hlist', hmem⟩

section

variable [DecidableEq Id] {db next : SocialDb Id}

/-- Starting an operation. -/
theorem Mirrored.call (h : Mirrored db) {operation : Operation Id}
    (hcareful : Careful db (.call operation)) :
    Mirrored { db with running := db.running ++ [commands operation] } := by
  have hflatten : (db.running ++ [commands operation]).flatten =
      db.running.flatten ++ commands operation := by simp
  constructor
  · intro other hother
    rcases List.mem_append.mp hother with hold | hnew
    · exact h.running other hold
    · rw [List.mem_singleton.mp hnew]
      exact running_commands db.sets operation
  · intro c hc d hd
    dsimp only at hc hd
    rw [hflatten, List.mem_append] at hc hd
    rcases hc with hc | hc
    · rcases hd with hd | hd
      · exact h.no_conflict c hc d hd
      · obtain ⟨other, hother, hmem⟩ := List.mem_flatten.mp hc
        exact (hcareful other hother d hd c hmem).2
    · rcases hd with hd | hd
      · obtain ⟨other, hother, hmem⟩ := List.mem_flatten.mp hd
        exact (hcareful other hother c hc d hmem).1
      · exact commands_no_conflict operation c hc d hd
  · intro a b hfollows hfollower
    dsimp only
    rw [hflatten]
    rcases h.covered_follows a b hfollows hfollower with hadd | hremove
    · exact .inl (List.mem_append_left _ hadd)
    · exact .inr (List.mem_append_left _ hremove)
  · intro a b hfollower hfollows
    dsimp only
    rw [hflatten]
    exact List.mem_append_left _ (h.covered_follower a b hfollower hfollows)

variable {index : Nat} {order : List Id} {command : Command Id} {later : List (Command Id)}

omit [DecidableEq Id] in
/-- A key is empty when it is deleted. -/
theorem Running.sets_eq_empty {sets : Key Id → Finset Id} {key : Key Id}
    (h : Running sets (.del key :: later)) : sets key = ∅ := by
  have hlast := (List.pairwise_cons.mp h.dels_last).1
  apply Finset.eq_empty_of_forall_notMem
  intro member hmember
  rcases h.emptied key List.mem_cons_self member hmember with hsrem | ⟨id, hread⟩
  · rcases List.mem_cons.mp hsrem with heq | hlater
    · cases heq
    · exact hlast _ hlater trivial
  · rcases List.mem_cons.mp hread with heq | hlater
    · cases heq
    · exact hlast _ hlater trivial

/-- Sending a command. -/
theorem Mirrored.send (h : Mirrored db) (hindex : db.running[index]? = some (command :: later))
    (hreply : IsReply db.sets order command) :
    Mirrored
      { sets := execute db.sets command
        running := db.running.set index (expand order command ++ later) } := by
  have hmem : (command :: later) ∈ db.running := List.mem_of_getElem? hindex
  have hcommand : command ∈ db.running.flatten :=
    List.mem_flatten.mpr ⟨_, hmem, List.mem_cons_self⟩
  have hoperation : Running db.sets (command :: later) := h.running _ hmem
  have hpending : ∀ {c}, c ∈ later →
      c ∈ (db.running.set index (expand order command ++ later)).flatten := by
    intro c hc
    have hset : (expand order command ++ later) ∈ db.running.set index _ :=
      List.mem_set (List.getElem?_eq_some_iff.mp hindex).1 _
    exact List.mem_flatten.mpr ⟨_, hset, List.mem_append_right _ hc⟩
  have hkept : ∀ {c}, c ∈ db.running.flatten →
      c ∈ (db.running.set index (expand order command ++ later)).flatten ∨ c = command :=
    fun hc => mem_flatten_set hindex (List.subset_append_right _ _) hc
  have hold : ∀ operation ∈ db.running, Running (execute db.sets command) operation := by
    intro operation hoperation
    apply (h.running operation hoperation).execute
    · exact fun c hc =>
        h.no_conflict c (List.mem_flatten.mpr ⟨operation, hoperation, hc⟩) command hcommand
    · exact fun c hc =>
        h.no_conflict command hcommand c (List.mem_flatten.mpr ⟨operation, hoperation, hc⟩)
  have hnew : ∀ {c}, c ∈ (db.running.set index (expand order command ++ later)).flatten →
      c ∈ db.running.flatten ∨ c ∈ expand order command := by
    intro c hc
    obtain ⟨operation, hset, hc⟩ := List.mem_flatten.mp hc
    rcases List.mem_or_eq_of_mem_set hset with hrunning | rfl
    · exact .inl (List.mem_flatten.mpr ⟨operation, hrunning, hc⟩)
    · rcases List.mem_append.mp hc with hloop | hlater
      · exact .inr hloop
      · exact .inl (List.mem_flatten.mpr ⟨_, hmem, List.mem_cons_of_mem _ hlater⟩)
  constructor
  · intro operation hset
    rcases List.mem_or_eq_of_mem_set hset with hrunning | rfl
    · exact hold operation hrunning
    · exact (hold _ hmem).rest hreply
  · intro c hc d hd
    rcases hnew hc with hc | hc
    · rcases hnew hd with hd | hd
      · exact h.no_conflict c hc d hd
      · exact (not_conflict_expand hd (h.no_conflict c hc command hcommand)).1
    · obtain ⟨key, member, rfl⟩ := exists_srem_of_mem_expand hc
      exact fun hconflict => hconflict
  · intro a b hfollows hfollower
    by_cases hbefore : b ∈ db.sets (.follows a)
    · by_cases hother : a ∈ db.sets (.follower b)
      · -- the entry of the follower was removed by this command
        rcases eq_srem_or_del_of_notMem_execute hfollower hother with rfl | rfl
        · right
          rcases hoperation.mirrors _ _ List.mem_cons_self with hmirror | habsent
          · rcases List.mem_cons.mp hmirror with heq | hlater
            · cases heq
            · exact hpending hlater
          · exact absurd hbefore habsent
        · rw [hoperation.sets_eq_empty] at hother
          simp at hother
      · rcases h.covered_follows a b hbefore hother with hadd | hremove
        · rcases hkept hadd with hkept | rfl
          · exact .inl hkept
          · exact absurd mem_execute_sadd hfollower
        · rcases hkept hremove with hkept | rfl
          · exact .inr hkept
          · exact absurd hfollows notMem_execute_srem
    · -- the entry was added by this command, and the other one is added next
      have hadded := eq_sadd_of_mem_execute hfollows hbefore
      subst hadded
      left
      rcases List.mem_cons.mp (hoperation.follower_last a b List.mem_cons_self) with heq | hlater
      · cases heq
      · exact hpending hlater
  · intro a b hfollower hfollows
    by_cases hbefore : a ∈ db.sets (.follower b)
    · by_cases hother : b ∈ db.sets (.follows a)
      · rcases eq_srem_or_del_of_notMem_execute hfollows hother with rfl | rfl
        · rcases hoperation.mirrors _ _ List.mem_cons_self with hmirror | habsent
          · rcases List.mem_cons.mp hmirror with heq | hlater
            · cases heq
            · exact hpending hlater
          · exact absurd hbefore habsent
        · rw [hoperation.sets_eq_empty] at hother
          simp at hother
      · rcases hkept (h.covered_follower a b hbefore hother) with hkept | rfl
        · exact hkept
        · exact absurd hfollower notMem_execute_srem
    · -- the follower is added last, when he follows already
      exfalso
      have hadded := eq_sadd_of_mem_execute hfollower hbefore
      subst hadded
      rcases hoperation.follows_first a b List.mem_cons_self with hfirst | hpresent
      · rcases List.mem_cons.mp hfirst with heq | hlater
        · cases heq
        · exact (List.pairwise_cons.mp hoperation.adds_ordered).1 _ hlater a b rfl rfl
      · exact removes_of_notMem_execute hfollows hpresent

theorem Mirrored.step {event : Event Id} (h : Mirrored db) (hcareful : Careful db event)
    (hstep : step db event = some next) : Mirrored next := by
  cases event with
  | call operation =>
      cases hstep
      exact h.call hcareful
  | send index order =>
      dsimp only [Social.step] at hstep
      split at hstep
      · next command later hindex =>
        split at hstep
        · next hreply =>
          cases hstep
          exact h.send hindex hreply
        · cases hstep
      · cases hstep

end

/-- In a run in which no operation starts while a conflicting one is running, the
two sets agree on every pair whenever no operation is in progress. -/
theorem symmetric_of_run [DecidableEq Id] {events : List (Event Id)} {db : SocialDb Id}
    (hrun : Run step Careful .new events db) (hquiet : Quiescent db) : Symmetric db := by
  have hmirrored : Mirrored db :=
    hrun.invariant mirrored_new fun _ _ _ h hcareful hstep => h.step hcareful hstep
  exact hmirrored.symmetric hquiet

/-! ## Examples -/

instance Removes.decidable [DecidableEq Id] (pair : Id × Id) (command : Command Id) :
    Decidable (Removes pair command) :=
  match command with
  | .del (.follows _) | .del (.follower _) => inferInstanceAs (Decidable (_ = _))
  | .removeEach _ _ => inferInstanceAs (Decidable (_ ∨ _))
  | .srem _ _ => inferInstanceAs (Decidable (_ = _))
  | .sadd _ _ => inferInstanceAs (Decidable False)

instance Conflict.decidable [DecidableEq Id] (adding removing : Command Id) :
    Decidable (Conflict adding removing) :=
  match adding with
  | .sadd _ _ => inferInstanceAs (Decidable (Removes _ _))
  | .del _ | .removeEach _ _ | .srem _ _ => inferInstanceAs (Decidable False)

instance Careful.decidable [DecidableEq Id] (db : SocialDb Id) (event : Event Id) :
    Decidable (Careful db event) :=
  match event with
  | .call _ => inferInstanceAs (Decidable (∀ other ∈ db.running, _))
  | .send _ _ => inferInstanceAs (Decidable True)

/-- Two players follow each other at the same time, and one of them clears his
friends. -/
def cleared : List (Event Nat) :=
  [.call (.addFriend (some 1) (some 2)), .call (.addFriend (some 2) (some 1)), .send 0 [],
    .send 1 [], .send 1 [], .send 0 [], .call (.clearFriends 1), .send 2 [2], .send 2 [],
    .send 2 [], .send 2 [], .send 2 [], .send 2 [], .send 2 [], .send 2 []]

theorem symmetric_cleared :
    Symmetric ((exec step Careful (.new : SocialDb Nat) cleared).getD .new) := by
  have hrun : Run step Careful .new cleared
      ((exec step Careful (.new : SocialDb Nat) cleared).getD .new) :=
    run_exec_getD SocialDb.new (by decide +kernel)
  exact symmetric_of_run hrun
    (by unfold Quiescent; decide +kernel)

/-- A player is removed between the two commands that add him. -/
def removedBetween : List (Event Nat) :=
  [.call (.addFriend (some 1) (some 2)), .call (.removeFriend (some 1) (some 2)), .send 0 [],
    .send 1 [], .send 1 [], .send 1 [], .send 1 [], .send 0 []]

theorem not_symmetric_removedBetween :
    Run step free (.new : SocialDb Nat) removedBetween
        ((exec step free .new removedBetween).getD .new) ∧
      Quiescent ((exec step free (.new : SocialDb Nat) removedBetween).getD .new) ∧
      ¬ Symmetric ((exec step free (.new : SocialDb Nat) removedBetween).getD .new) := by
  refine ⟨run_exec_getD SocialDb.new (by decide +kernel), by unfold Quiescent; decide +kernel, ?_⟩
  intro hsymmetric
  have hpair := hsymmetric 1 2
  revert hpair
  decide +kernel

end Social
end ArmyRs
