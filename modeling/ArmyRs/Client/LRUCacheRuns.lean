import ArmyRs.Client.LRUCache

/-!
# What a cache answers over a whole run

`Traced` follows a cache and remembers of every name its last value and which other
names have been used since.  A cache is in order (`InOrder`) when it is not too large,
its hash and its list hold the same names once each, and it answers with the last value
of a name unless as many other names have been used since as it has room for.

`set` of a name that the cache holds leaves the old node in the list.  Unless that
node is the one that `set` pops, the list then holds the name twice; a later `pop` of
the old node takes the name of the new one out of the hash.  In every run the cache
stays in order exactly as long as no such call is made (`run_keeps_iff`).
-/

namespace ArmyRs
namespace Client

open Foundation

namespace LRUCache

variable {Name V : Type*} [DecidableEq Name]

/-- The hash and the list hold the same names once each. -/
def SameNames (c : LRUCache Name V) : Prop :=
  ∃ refs, c.list.Represents refs ∧ (refs.map c.name).Nodup ∧
    ∀ name, (c.hasht name).isSome ↔ some name ∈ refs.map c.name

/-- The nodes of the list are those of the hash, each under its name, and there are
not too many. -/
structure Holds (c : LRUCache Name V) (refs : List Nat) : Prop where
  list : c.list.Represents refs
  size : refs.length ≤ c.maxSize
  fresh : ∀ r ∈ refs, r < c.fresh
  named : ∀ r ∈ refs, ∃ name, c.name r = some name
  hash : ∀ name r, c.hasht name = some r ↔ r ∈ refs ∧ c.name r = some name

end LRUCache

/-- A cache, with the last value of each name and the other names used since. -/
structure Traced (Name V : Type*) where
  cache : LRUCache Name V
  last : Name → Option (V × Finset Name)

inductive CacheEvent (Name V : Type*)
  | get (name : Name)
  | set (name : Name) (value : V)
  deriving DecidableEq, Repr

namespace Traced

variable {Name V : Type*} [DecidableEq Name]

def new (maxSize : Nat) : Traced Name V where
  cache := .new maxSize
  last := fun _ => none

/-- The name has been used once more. -/
def touch (last : Name → Option (V × Finset Name)) (used : Name) :
    Name → Option (V × Finset Name) :=
  fun name =>
    if name = used then last name
    else (last name).map fun pair => (pair.1, Insert.insert used pair.2)

/-- A call of the cache; one that raises changes nothing. -/
def step (t : Traced Name V) : CacheEvent Name V → Option (Traced Name V)
  | .get name =>
      let answer := t.cache.get name
      some ⟨answer.2, if answer.1.2 then touch t.last name else t.last⟩
  | .set name value =>
      match t.cache.set name value with
      | some cache =>
          some ⟨cache, Function.update (touch t.last name) name (some (value, ∅))⟩
      | none => some t

/-- The last value of a name is the answer, unless too many other names have been used
since. -/
def Answers (t : Traced Name V) : Prop :=
  ∀ name value others, t.last name = some (value, others) → others.card < t.cache.maxSize →
    (t.cache.get name).1 = (some value, true)

structure InOrder (t : Traced Name V) : Prop where
  size : t.cache.size ≤ t.cache.maxSize
  names : t.cache.SameNames
  answers : t.Answers

/-- The call leaves the cache in order. -/
def Keeps (t : Traced Name V) (event : CacheEvent Name V) : Prop :=
  ∀ next, t.step event = some next → next.InOrder

/-- A name is set that the cache does not hold, or that of the node to be popped. -/
def Careful (t : Traced Name V) : CacheEvent Name V → Prop
  | .get _ => True
  | .set name _ =>
      t.cache.hasht name = none ∨
        t.cache.maxSize ≤ t.cache.list.length ∧ ∃ r, t.cache.list.last = some r ∧
          t.cache.name r = some name

/-- Where a name is: in the list behind nodes of names used since, or no more, as
enough others have been used. -/
def Recent (t : Traced Name V) (refs : List Nat) : Prop :=
  ∀ name value others, t.last name = some (value, others) →
    (∃ ahead r behind, refs = ahead ++ r :: behind ∧ t.cache.name r = some name ∧
      t.cache.value r = some value ∧ ∀ x ∈ ahead, ∃ other ∈ others, t.cache.name x = some other) ∨
    (∀ r ∈ refs, t.cache.name r ≠ some name) ∧ t.cache.maxSize ≤ others.card

end Traced

namespace LRUCache

variable {Name V : Type*} {c : LRUCache Name V} {refs : List Nat} {name : Name} {i r : Nat}

/-! ## The operations -/

theorem Holds.name_inj (h : Holds c refs) {r s : Nat} (hr : r ∈ refs) (hs : s ∈ refs)
    (hsame : c.name r = c.name s) : r = s := by
  obtain ⟨name, hname⟩ := h.named r hr
  have hfirst := (h.hash name r).mpr ⟨hr, hname⟩
  have hsecond := (h.hash name s).mpr ⟨hs, hsame ▸ hname⟩
  rw [hfirst] at hsecond
  exact Option.some.inj hsecond

theorem Holds.sameNames (h : Holds c refs) : c.SameNames := by
  refine ⟨refs, h.list, ?_, fun name => ?_⟩
  · exact h.list.nodup.map_on fun r hr s hs => h.name_inj hr hs
  · rw [Option.isSome_iff_exists, List.mem_map]
    exact exists_congr fun r => h.hash name r

theorem Holds.size_le (h : Holds c refs) : c.size ≤ c.maxSize := by
  show c.list.length ≤ c.maxSize
  rw [h.list.length]
  exact h.size

theorem holds_new (maxSize : Nat) : Holds (new maxSize : LRUCache Name V) [] where
  list := LuaList.represents_new
  size := Nat.zero_le _
  fresh := by simp
  named := by simp
  hash := by simp [new]

theorem get_of_none (hname : c.hasht name = none) :
    c.get name = ((none, false), { c with statsGet := c.statsGet + 1 }) := by
  simp [get, hname]

theorem get_of_some (hname : c.hasht name = some i) :
    c.get name =
      ((c.value i, true),
        { c with
          list := (c.list.remove i).unshift i
          statsGet := c.statsGet + 1
          statsHit := c.statsHit + 1 }) := by
  simp [get, hname]

/-- A hit moves the node to the front. -/
theorem Holds.hit (h : Holds c refs) (hname : c.hasht name = some i) :
    Holds (c.get name).2 (i :: refs.erase i) := by
  have hmem : i ∈ refs := ((h.hash name i).mp hname).1
  have hperm : (i :: refs.erase i).Perm refs := (List.perm_cons_erase hmem).symm
  have hlist : (c.list.remove i).Represents (refs.erase i) := by
    obtain ⟨xs, ys, hi, rfl, herase⟩ := List.exists_erase_eq hmem
    rw [herase]
    exact h.list.remove
  rw [get_of_some hname]
  exact {
    list := hlist.unshift h.list.nodup.not_mem_erase
    size := hperm.length_eq ▸ h.size
    fresh := fun r hr => h.fresh r (hperm.mem_iff.mp hr)
    named := fun r hr => h.named r (hperm.mem_iff.mp hr)
    hash := fun name r => by
      rw [hperm.mem_iff]
      exact h.hash name r }

variable [DecidableEq Name]

/-- A new node comes to the front. -/
theorem Holds.insert (h : Holds c refs) (hroom : refs.length < c.maxSize)
    (hname : c.hasht name = none) (value : V) :
    Holds (c.insert name value) (c.fresh :: refs) := by
  have hfresh : c.fresh ∉ refs := fun hmem => lt_irrefl _ (h.fresh _ hmem)
  have hne : ∀ r ∈ refs, r ≠ c.fresh := fun r hr heq => hfresh (heq ▸ hr)
  have hold : ∀ r ∈ refs, (c.insert name value).name r = c.name r := fun r hr =>
    Function.update_of_ne (hne r hr) _ _
  have hnew : (c.insert name value).name c.fresh = some name := Function.update_self ..
  refine ⟨h.list.unshift hfresh, hroom, ?_, ?_, ?_⟩
  · intro r hr
    rcases List.mem_cons.mp hr with rfl | hr
    · exact Nat.lt_succ_self _
    · exact Nat.lt_succ_of_lt (h.fresh r hr)
  · intro r hr
    rcases List.mem_cons.mp hr with rfl | hr
    · exact ⟨name, hnew⟩
    · rw [hold r hr]
      exact h.named r hr
  · intro n r
    have hasht : (c.insert name value).hasht n = if n = name then some c.fresh else c.hasht n :=
      Function.update_apply ..
    rw [hasht, List.mem_cons]
    split
    · next heq =>
      subst heq
      constructor
      · rintro ⟨⟩
        exact ⟨.inl rfl, hnew⟩
      · rintro ⟨rfl | hr, hsame⟩
        · rfl
        · rw [hold r hr] at hsame
          have hhash := (h.hash n r).mpr ⟨hr, hsame⟩
          rw [hname] at hhash
          cases hhash
    · next hother =>
      rw [h.hash]
      constructor
      · rintro ⟨hr, hsame⟩
        exact ⟨.inr hr, by rw [hold r hr, hsame]⟩
      · rintro ⟨rfl | hr, hsame⟩
        · rw [hnew] at hsame
          exact absurd (Option.some.inj hsame).symm hother
        · exact ⟨hr, by rw [← hold r hr, hsame]⟩

/-- The last node is popped, and its name leaves the hash. -/
theorem Holds.pop {xs : List Nat} {popped : Name} (h : Holds c (xs ++ [r]))
    (hpopped : c.name r = some popped) :
    Holds { c with list := c.list.pop.2, hasht := Function.update c.hasht popped none } xs := by
  have hr : r ∉ xs := by
    have hnodup := h.list.nodup
    rw [← List.concat_eq_append, List.nodup_concat] at hnodup
    exact hnodup.1
  refine ⟨h.list.pop.2, ?_, fun s hs => h.fresh s (by simp [hs]),
    fun s hs => h.named s (by simp [hs]), fun n s => ?_⟩
  · have hsize := h.size
    rw [List.length_append] at hsize
    exact le_trans (Nat.le_add_right _ _) hsize
  · have hasht : Function.update c.hasht popped none n =
        if n = popped then none else c.hasht n := Function.update_apply ..
    show Function.update c.hasht popped none n = some s ↔ s ∈ xs ∧ c.name s = some n
    rw [hasht]
    split
    · next heq =>
      subst heq
      -- the popped node was the only one of its name
      refine iff_of_false (by simp) ?_
      rintro ⟨hs, hsame⟩
      have heq := h.name_inj (by simp [hs]) (by simp) (hsame.trans hpopped.symm)
      exact hr (heq ▸ hs)
    · next hne =>
      rw [h.hash, List.mem_append, List.mem_singleton]
      constructor
      · rintro ⟨hs | rfl, hsame⟩
        · exact ⟨hs, hsame⟩
        · rw [hpopped] at hsame
          exact absurd (Option.some.inj hsame).symm hne
      · rintro ⟨hs, hsame⟩
        exact ⟨.inl hs, hsame⟩

/-- What `makeRoom` leaves: nothing was popped, nothing could be, or the last node. -/
theorem Holds.makeRoom_cases (h : Holds c refs) :
    (refs.length < c.maxSize ∧ c.makeRoom = some c) ∨
    (c.maxSize = 0 ∧ refs = [] ∧ c.makeRoom = none) ∨
    ∃ xs r popped e, refs = xs ++ [r] ∧ c.name r = some popped ∧ c.maxSize = refs.length ∧
      c.makeRoom = some e ∧ Holds e xs ∧ e.hasht = Function.update c.hasht popped none ∧
      e.name = c.name ∧ e.value = c.value ∧ e.fresh = c.fresh ∧ e.maxSize = c.maxSize := by
  by_cases hfull : c.maxSize ≤ c.list.length
  · have hlength : c.maxSize = refs.length := by
      have hsize := h.size
      rw [h.list.length] at hfull
      omega
    refine .inr ?_
    rcases List.eq_nil_or_concat' refs with rfl | ⟨xs, r, rfl⟩
    · have hlast : c.list.last = none := h.list.last
      have hpop : c.list.pop = (none, c.list) := by simp [LuaList.pop, hlast]
      exact .inl ⟨hlength, rfl, by simp [makeRoom, hfull, hpop]⟩
    · obtain ⟨popped, hpopped⟩ := h.named r (by simp)
      have hpop : c.list.pop = (some r, c.list.pop.2) := by rw [← h.list.pop.1]
      have hroom : c.makeRoom = some
          { c with list := c.list.pop.2, hasht := Function.update c.hasht popped none } := by
        unfold makeRoom
        rw [if_pos hfull, hpop]
        simp [hpopped]
      exact .inr ⟨xs, r, popped, _, rfl, hpopped, hlength, hroom, h.pop hpopped, rfl, rfl, rfl, rfl,
        rfl⟩
  · refine .inl ⟨?_, by simp [makeRoom, hfull]⟩
    rw [← h.list.length]
    exact Nat.lt_of_not_le hfull

/-- A second node of one name. -/
theorem Holds.not_sameNames_insert (h : Holds c refs) (hname : c.hasht name = some r) (value : V) :
    ¬ (c.insert name value).SameNames := by
  obtain ⟨hr, hold⟩ := (h.hash name r).mp hname
  have hfresh : c.fresh ∉ refs := fun hmem => lt_irrefl _ (h.fresh _ hmem)
  have hlist : (c.insert name value).list.Represents (c.fresh :: refs) := h.list.unshift hfresh
  rintro ⟨others, hothers, hnodup, -⟩
  rw [← hlist.eq hothers, List.map_cons, List.nodup_cons] at hnodup
  refine hnodup.1 (List.mem_map.mpr ⟨r, hr, ?_⟩)
  have hne : r ≠ c.fresh := fun heq => hfresh (heq ▸ hr)
  show Function.update c.name c.fresh (some name) r = Function.update c.name c.fresh _ c.fresh
  rw [Function.update_of_ne hne, Function.update_self, hold]

end LRUCache

namespace Traced

variable {Name V : Type*} [DecidableEq Name] {t next : Traced Name V} {c e : LRUCache Name V}
  {last : Name → Option (V × Finset Name)} {refs xs : List Nat} {name used : Name} {value : V}
  {others : Finset Name} {event : CacheEvent Name V} {events : List (CacheEvent Name V)}

/-! ## What has been used -/

theorem touch_self (last : Name → Option (V × Finset Name)) (used : Name) :
    touch last used used = last used := if_pos rfl

theorem touch_of_ne (hne : name ≠ used) (h : touch last used name = some (value, others)) :
    ∃ before, last name = some (value, before) ∧ others = Insert.insert used before := by
  rw [touch, if_neg hne, Option.map_eq_some_iff] at h
  obtain ⟨⟨v, before⟩, hlast, heq⟩ := h
  cases heq
  exact ⟨before, hlast, rfl⟩

/-- A hit brings the node of its name to the front, and puts it before the others. -/
theorem Recent.hit (hrecent : Recent ⟨c, last⟩ refs) (h : c.Holds refs) {i : Nat}
    (hname : c.hasht used = some i) :
    Recent ⟨(c.get used).2, touch last used⟩ (i :: refs.erase i) := by
  obtain ⟨hi, hused⟩ := (h.hash used i).mp hname
  rw [LRUCache.get_of_some hname]
  intro name value others hlast
  dsimp only at hlast ⊢
  by_cases heq : name = used
  · subst heq
    rw [touch_self] at hlast
    rcases hrecent name value others hlast with
      ⟨ahead, r, behind, hrefs, hr, hvalue, -⟩ | ⟨hnone, -⟩
    · have hmem : r ∈ refs := by simp [hrefs]
      have hsame : r = i := h.name_inj hmem hi (hr.trans hused.symm)
      subst hsame
      exact .inl ⟨[], r, refs.erase r, rfl, hr, hvalue, by simp⟩
    · exact absurd hused (hnone i hi)
  · obtain ⟨before, hbefore, rfl⟩ := touch_of_ne heq hlast
    rcases hrecent name value before hbefore with
      ⟨ahead, r, behind, rfl, hr, hvalue, hahead⟩ | ⟨hnone, hcard⟩
    · have hne : r ≠ i := by
        rintro rfl
        exact heq (Option.some.inj (hr.symm.trans hused))
      -- whether the node of the hit was ahead or behind, it is ahead now
      have hfront : ∀ front : List Nat, (∀ x ∈ front, x ∈ ahead) → ∀ x ∈ i :: front,
          ∃ other ∈ Insert.insert used before, c.name x = some other := by
        intro front hsub x hx
        rcases List.mem_cons.mp hx with rfl | hx
        · exact ⟨used, Finset.mem_insert_self _ _, hused⟩
        · obtain ⟨other, hother, hsame⟩ := hahead x (hsub x hx)
          exact ⟨other, Finset.mem_insert_of_mem hother, hsame⟩
      by_cases hmem : i ∈ ahead
      · refine .inl ⟨i :: ahead.erase i, r, behind, ?_, hr, hvalue, ?_⟩
        · rw [List.erase_append_left _ hmem, List.cons_append]
        · exact hfront _ fun x hx => List.mem_of_mem_erase hx
      · refine .inl ⟨i :: ahead, r, behind.erase i, ?_, hr, hvalue, hfront _ fun x hx => hx⟩
        rw [List.erase_append_right _ hmem, List.erase_cons_tail (by simpa using hne),
          List.cons_append]
    · refine .inr ⟨fun r hr => hnone r ?_, ?_⟩
      · exact (List.perm_cons_erase hi).mem_iff.mpr hr
      · exact hcard.trans (Finset.card_le_card (Finset.subset_insert _ _))

/-- Nodes whose names have been used are no more than these. -/
theorem length_lt_card (h : e.Holds xs) (hnone : e.hasht used = none)
    (hxs : ∀ x ∈ xs, ∃ other ∈ others, e.name x = some other) :
    xs.length + 1 ≤ (Insert.insert used others).card := by
  have hnames : (some used :: xs.map e.name).Nodup := by
    refine List.nodup_cons.mpr ⟨?_, h.list.nodup.map_on fun r hr s hs => h.name_inj hr hs⟩
    intro hmem
    obtain ⟨r, hr, hsame⟩ := List.mem_map.mp hmem
    rw [(h.hash used r).mpr ⟨hr, hsame⟩] at hnone
    cases hnone
  have hsub : (some used :: xs.map e.name).toFinset ⊆
      (Insert.insert used others).image some := by
    intro n hn
    rw [List.mem_toFinset, List.mem_cons, List.mem_map] at hn
    rcases hn with rfl | ⟨x, hx, rfl⟩
    · simp
    · obtain ⟨other, hother, hsame⟩ := hxs x hx
      simp [hsame, hother]
  have hcard := Finset.card_le_card hsub
  rw [List.toFinset_card_of_nodup hnames,
    Finset.card_image_of_injective _ (Option.some_injective _)] at hcard
  simpa using hcard

/-- The beginning of a list comes to an element or it does not. -/
theorem isPrefix_middle {ahead behind : List Nat} {r : Nat} (h : xs <+: ahead ++ r :: behind) :
    xs <+: ahead ∨ ∃ rest, xs = ahead ++ r :: rest := by
  obtain ⟨dropped, hdropped⟩ := h
  rcases List.append_eq_append_iff.mp hdropped with ⟨more, rfl, -⟩ | ⟨rest, rfl, hrest⟩
  · exact .inl (List.prefix_append xs more)
  · cases rest with
    | nil => exact .inl (by simp)
    | cons s rest =>
        cases hrest
        exact .inr ⟨rest, rfl⟩

/-- A new node comes to the front of what is left of the list. -/
theorem Recent.set (hrecent : Recent ⟨c, last⟩ refs) (hc : c.Holds refs) (h : e.Holds xs)
    (hrest : xs <+: refs)
    (hfull : xs = refs ∨ e.maxSize ≤ xs.length + 1) (hnone : e.hasht used = none)
    (hname : e.name = c.name) (hvalue : e.value = c.value) (hmax : e.maxSize = c.maxSize)
    (value : V) :
    Recent ⟨e.insert used value,
      Function.update (touch last used) used (some (value, ∅))⟩ (e.fresh :: xs) := by
  have hnew : (e.insert used value).name e.fresh = some used := Function.update_self ..
  have hne : ∀ r ∈ xs, r ≠ e.fresh := fun r hr heq => lt_irrefl _ (heq ▸ h.fresh r hr)
  have hold : ∀ r ∈ xs, (e.insert used value).name r = c.name r := fun r hr =>
    (Function.update_of_ne (hne r hr) _ _).trans (congrFun hname r)
  intro name v others hlast
  dsimp only at hlast ⊢
  by_cases heq : name = used
  · subst heq
    rw [Function.update_self] at hlast
    cases hlast
    exact .inl ⟨[], e.fresh, xs, rfl, hnew, Function.update_self .., by simp⟩
  · rw [Function.update_of_ne heq] at hlast
    obtain ⟨before, hbefore, rfl⟩ := touch_of_ne heq hlast
    have hfresh : (e.insert used value).name e.fresh ≠ some name := by
      rw [hnew]
      exact fun hsame => heq (Option.some.inj hsame).symm
    rcases hrecent name v before hbefore with
      ⟨ahead, r, behind, rfl, hr, hv, hahead⟩ | ⟨hgone, hcard⟩
    · rcases isPrefix_middle hrest with hahead' | ⟨rest, rfl⟩
      · -- the node was popped: all that are left have been used since
        have hr' : r ∉ xs := by
          intro hmem
          exact List.disjoint_of_nodup_append hc.list.nodup (hahead'.subset hmem)
            List.mem_cons_self
        have hlength : e.maxSize ≤ xs.length + 1 := by
          refine hfull.resolve_left fun heq => hr' ?_
          rw [heq]
          simp
        refine .inr ⟨fun x hx => ?_, hlength.trans (length_lt_card h hnone fun x hx => ?_)⟩
        · rcases List.mem_cons.mp hx with rfl | hx
          · exact hfresh
          · rw [hold x hx]
            intro hsame
            have heq := hc.name_inj (hrest.subset hx) (by simp) (hsame.trans hr.symm)
            exact hr' (heq ▸ hx)
        · rw [hname]
          exact hahead x (hahead'.subset hx)
      · refine .inl ⟨e.fresh :: ahead, r, rest, rfl, ?_, ?_, fun x hx => ?_⟩
        · rw [hold r (by simp)]
          exact hr
        · show Function.update e.value e.fresh (some value) r = some v
          rw [Function.update_of_ne (hne r (by simp)), hvalue]
          exact hv
        · rcases List.mem_cons.mp hx with rfl | hx
          · exact ⟨used, Finset.mem_insert_self _ _, hnew⟩
          · obtain ⟨other, hother, hsame⟩ := hahead x hx
            rw [hold x (by simp [hx])]
            exact ⟨other, Finset.mem_insert_of_mem hother, hsame⟩
    · refine .inr ⟨fun r hr => ?_, ?_⟩
      · rcases List.mem_cons.mp hr with rfl | hr
        · exact hfresh
        · rw [hold r hr]
          exact hgone r (hrest.subset hr)
      · show e.maxSize ≤ _
        rw [hmax]
        exact hcard.trans (Finset.card_le_card (Finset.subset_insert _ _))

/-! ## Steps and runs -/

/-- The nodes of the cache, and what has been used since. -/
structure Follows (t : Traced Name V) (refs : List Nat) : Prop where
  holds : t.cache.Holds refs
  recent : t.Recent refs

omit [DecidableEq Name] in
theorem follows_new (maxSize : Nat) : Follows (new maxSize : Traced Name V) [] where
  holds := LRUCache.holds_new maxSize
  recent := fun name value others hlast => by cases hlast

omit [DecidableEq Name] in
theorem Follows.inOrder (h : Follows t refs) : t.InOrder where
  size := h.holds.size_le
  names := h.holds.sameNames
  answers name value others hlast hcard := by
    rcases h.recent name value others hlast with
      ⟨ahead, r, behind, rfl, hr, hvalue, -⟩ | ⟨-, hmax⟩
    · have hhash := (h.holds.hash name r).mpr ⟨by simp, hr⟩
      rw [LRUCache.get_of_some hhash, hvalue]
    · omega

/-- What `set` leaves, by what is popped. -/
theorem Follows.set (h : Follows t refs) (hcareful : Careful t (.set used value)) :
    ∃ refs, Follows
      (match t.cache.set used value with
      | some cache => ⟨cache, Function.update (touch t.last used) used (some (value, ∅))⟩
      | none => t) refs := by
  have hlength := h.holds.list.length
  unfold LRUCache.set
  rcases h.holds.makeRoom_cases with
    ⟨hroom, hmake⟩ | ⟨-, -, hmake⟩ |
    ⟨xs, r, popped, e, rfl, hpopped, hsize, hmake, he, hasht, hname, hvalue, -, hmax⟩
  · have hnone : t.cache.hasht used = none := by
      refine hcareful.resolve_right ?_
      rintro ⟨hfull, -⟩
      omega
    rw [hmake]
    exact ⟨_, h.holds.insert hroom hnone value,
      h.recent.set h.holds h.holds List.prefix_rfl (.inl rfl) hnone rfl rfl rfl value⟩
  · rw [hmake]
    exact ⟨refs, h⟩
  · rw [List.length_append, List.length_singleton] at hsize
    have hnone : e.hasht used = none := by
      rw [hasht, Function.update_apply]
      split
      · rfl
      · next hne =>
        refine hcareful.resolve_right ?_
        rintro ⟨-, last, hlast, hused⟩
        rw [h.holds.list.last, List.getLast?_concat] at hlast
        cases hlast
        exact hne (Option.some.inj (hused.symm.trans hpopped))
    rw [hmake]
    exact ⟨_, he.insert (by omega) hnone value,
      h.recent.set h.holds he (List.prefix_append xs [r]) (.inr (by omega)) hnone hname hvalue hmax
        value⟩

theorem Follows.get (h : Follows t refs) (used : Name) :
    ∃ refs, Follows
      ⟨(t.cache.get used).2,
        if (t.cache.get used).1.2 then touch t.last used else t.last⟩ refs := by
  cases hname : t.cache.hasht used with
  | none =>
      rw [LRUCache.get_of_none hname]
      refine ⟨refs, ?_, h.recent⟩
      exact ⟨h.holds.list, h.holds.size, h.holds.fresh, h.holds.named, h.holds.hash⟩
  | some i =>
      have hhit : (t.cache.get used).1.2 = true := by rw [LRUCache.get_of_some hname]
      rw [if_pos hhit]
      exact ⟨_, h.holds.hit hname, h.recent.hit h.holds hname⟩

theorem Follows.step (h : Follows t refs) (hcareful : Careful t event)
    (hstep : t.step event = some next) : ∃ refs, Follows next refs := by
  cases event with
  | get used =>
      cases hstep
      exact h.get used
  | set used value =>
      obtain ⟨refs', hset⟩ := h.set hcareful
      unfold Traced.step at hstep
      dsimp only at hstep
      refine ⟨refs', ?_⟩
      split at hstep
      · next cache hcache =>
        cases hstep
        rw [hcache] at hset
        exact hset
      · next hcache =>
        cases hstep
        rw [hcache] at hset
        exact hset

/-- A call that is not careful leaves two nodes of one name. -/
theorem Follows.careful (h : Follows t refs) (hkeeps : Keeps t event) : Careful t event := by
  cases event with
  | get used => trivial
  | set used value =>
      by_contra hnot
      rw [Careful, not_or] at hnot
      obtain ⟨hsome, hkept⟩ := hnot
      obtain ⟨q, hq⟩ := Option.ne_none_iff_exists'.mp hsome
      obtain ⟨hmem, hused⟩ := (h.holds.hash used q).mp hq
      have hlength := h.holds.list.length
      rcases h.holds.makeRoom_cases with
        ⟨hroom, hmake⟩ | ⟨-, rfl, hmake⟩ |
        ⟨xs, r, popped, e, rfl, hpopped, hsize, hmake, he, hasht, -⟩
      · have hset : t.cache.set used value = some (t.cache.insert used value) := by
          simp [LRUCache.set, hmake]
        have hnext := hkeeps _ (by simp only [Traced.step, hset]; rfl)
        exact h.holds.not_sameNames_insert hq value hnext.names
      · cases hmem
      · have hset : t.cache.set used value = some (e.insert used value) := by
          simp [LRUCache.set, hmake]
        have hnext := hkeeps _ (by simp only [Traced.step, hset]; rfl)
        have hne : used ≠ popped := by
          rintro rfl
          refine hkept ⟨by omega, r, ?_, hpopped⟩
          rw [h.holds.list.last, List.getLast?_concat]
        refine he.not_sameNames_insert (r := q) ?_ value hnext.names
        rw [hasht, Function.update_of_ne hne]
        exact hq

/-- The cache is followed by some list of nodes. -/
def Followed (t : Traced Name V) : Prop := ∃ refs, Follows t refs

/-- Over any sequence of calls: the cache stays in order exactly when no name is set
that the cache holds under another node than the one to be popped. -/
theorem run_keeps_iff (maxSize : Nat) :
    Run step Keeps (new maxSize) events t ↔ Run step Careful (new maxSize) events t := by
  have hstart : Followed (new maxSize : Traced Name V) := ⟨[], follows_new maxSize⟩
  constructor
  · refine Run.mono_of_invariant hstart ?_ ?_
    · rintro state event ⟨refs, h⟩ hkeeps
      exact h.careful hkeeps
    · rintro state event next ⟨refs, h⟩ hkeeps hstep
      exact h.step (h.careful hkeeps) hstep
  · refine Run.mono_of_invariant hstart ?_ ?_
    · rintro state event ⟨refs, h⟩ hcareful next hstep
      obtain ⟨refs', hnext⟩ := h.step hcareful hstep
      exact hnext.inOrder
    · rintro state event next ⟨refs, h⟩ hcareful hstep
      exact h.step hcareful hstep

/-! ## Examples -/

/-- A name is set twice, and then another one. -/
def setTwice : List (CacheEvent Nat Nat) := [.set 1 1, .set 1 2, .set 2 5]

/-- The old node of the name is popped, and the name is gone from the hash. -/
theorem not_inOrder_setTwice :
    ¬ ∀ (maxSize : Nat) (events : List (CacheEvent Nat Nat)) (t : Traced Nat Nat),
      Run step free (new maxSize) events t → t.InOrder := by
  intro hall
  have hinOrder := hall 2 setTwice _ (run_exec_getD (new 2) (by decide))
  have hanswer := hinOrder.answers 1 2 {2} (by decide) (by decide)
  revert hanswer
  decide

end Traced
end Client
end ArmyRs
