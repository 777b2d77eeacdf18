import ArmyRs.Mail.MailStore

/-!
# Marks and counts of a mail box

`MarksPresent` says that only mails of the box are marked, and `CountsAgree` that
the count of a sub type is the number of its mails in the box.  `KeepsCounts` says when
an operation keeps both.

The count that is lowered for a mail that is popped is that of the mail that is
delivered; `remove` lowers a count whether it removed the mail or not, and leaves
the count of mails without a sub type as it is; a permanent mail is looked for in
the list of the system mails when it is removed under its shown type; and marking a
mail does not look whether it is there.
-/

namespace ArmyRs
namespace Mail

open Foundation

/-- The mails of a sub type in the box. -/
def MailStore.present (store : MailStore) (subType : String) : Nat :=
  (contents store.types store.mails).countP fun m => decide (countedAs m.subType = subType)

/-- Every mark is the mark of a mail in the box. -/
def MarksPresent (store : MailStore) : Prop :=
  ∀ type id, store.readMarks type id ≠ none ∨ store.redeemMarks type id ≠ none →
    ∃ m ∈ store.mails type, m.id = id

/-- Every count is the number of mails in the box. -/
def CountsAgree (store : MailStore) : Prop :=
  ∀ subType, store.totals subType = store.present subType

/-- The mail is in the list of the type, and has a sub type; or neither. -/
def RemovedWithCount (store : MailStore) (type : String) (m : StoredMail) : Prop :=
  m ∈ store.mails type ↔ m.subType ≠ none

instance RemovedWithCount.decidable (store : MailStore) (type : String) (m : StoredMail) :
    Decidable (RemovedWithCount store type m) :=
  inferInstanceAs (Decidable (_ ↔ _))

/-- What an operation has to meet.

* A mail that is delivered to a full list is of the sub type of the oldest mail.
* A mail that is marked is in the list.
* A mail that is removed is in the list and has a sub type, or neither. -/
def KeepsCounts (store : MailStore) : Operation → Prop
  | .deliver _ mailType sendType subType =>
      limit ≤ (store.mails (keptType mailType sendType)).length →
        ∀ m ∈ (store.mails (keptType mailType sendType)).getLast?,
          countedAs m.subType = countedAs subType
  | .setRead mailId mailType sendType =>
      mailId ∈ (store.mails (keptType mailType sendType)).map StoredMail.id
  | .setRedeem mailId mailType sendType =>
      mailId ∈ (store.mails (keptType mailType sendType)).map StoredMail.id
  | .remove mailId mailType sendType =>
      ∀ m ∈ (store.readMails (keptType mailType sendType)).find? fun m => m.id = mailId,
        RemovedWithCount store (keptType mailType sendType) m
  | .expired now mailType =>
      ∀ m ∈ store.readMails mailType, MailStore.isExpired now m →
        RemovedWithCount store mailType m

instance KeepsCounts.decidable (store : MailStore) :
    (operation : Operation) → Decidable (KeepsCounts store operation)
  | .deliver _ _ _ _ => inferInstanceAs (Decidable (_ → ∀ m ∈ (_ : Option StoredMail), _))
  | .setRead _ _ _ => inferInstanceAs (Decidable (_ ∈ (_ : List Nat)))
  | .setRedeem _ _ _ => inferInstanceAs (Decidable (_ ∈ (_ : List Nat)))
  | .remove _ _ _ => inferInstanceAs (Decidable (∀ m ∈ (_ : Option StoredMail), _))
  | .expired _ _ => inferInstanceAs (Decidable (∀ m ∈ (_ : List StoredMail), _ → _))

/-! ## Invariants -/

/-- What holds of the lists alone. -/
structure Stored (store : MailStore) : Prop where
  types_nodup : store.types.Nodup
  mem_types : ∀ type, type ∉ store.types → store.mails type = []
  length_le : ∀ type, (store.mails type).length ≤ limit
  typed : ∀ type, ∀ m ∈ store.mails type, m.type = type
  id_le : ∀ type, ∀ m ∈ store.mails type, m.id ≤ store.lastId
  ids_nodup : ∀ type, ((store.mails type).map StoredMail.id).Nodup
  ids_apart : ∀ type other, type ≠ other →
    ∀ m ∈ store.mails type, ∀ n ∈ store.mails other, m.id ≠ n.id

/-- What the operations keep. -/
structure Kept (store : MailStore) : Prop where
  stored : Stored store
  marks : MarksPresent store
  counts : CountsAgree store

theorem kept_new : Kept .new where
  stored :=
    { types_nodup := List.nodup_nil
      mem_types := fun _ _ => rfl
      length_le := fun _ => Nat.zero_le _
      typed := by simp [MailStore.new]
      id_le := by simp [MailStore.new]
      ids_nodup := fun _ => List.nodup_nil
      ids_apart := by simp [MailStore.new] }
  marks := by simp [MarksPresent, MailStore.new]
  counts := fun _ => rfl

/-- Marks and counts play no part in it. -/
theorem Stored.of_eq {store other : MailStore} (h : Stored store)
    (hlastId : other.lastId = store.lastId) (htypes : other.types = store.types)
    (hmails : other.mails = store.mails) : Stored other where
  types_nodup := htypes ▸ h.types_nodup
  mem_types := by
    rw [htypes, hmails]
    exact h.mem_types
  length_le := hmails ▸ h.length_le
  typed := hmails ▸ h.typed
  id_le := by
    rw [hmails, hlastId]
    exact h.id_le
  ids_nodup := hmails ▸ h.ids_nodup
  ids_apart := hmails ▸ h.ids_apart

/-! ## A list that is replaced -/

section

variable {store : MailStore} {type : String} {list : List StoredMail}

/-- A list that loses mails. -/
theorem Stored.sublist (h : Stored store) (hsub : list.Sublist (store.mails type)) :
    Stored { store with mails := Function.update store.mails type list } := by
  have hsubset : ∀ other, ∀ m ∈ Function.update store.mails type list other,
      m ∈ store.mails other := by
    intro other m hm
    by_cases hother : other = type
    · subst hother
      rw [Function.update_self] at hm
      exact hsub.subset hm
    · rwa [Function.update_of_ne hother] at hm
  have hsublist : ∀ other,
      (Function.update store.mails type list other).Sublist (store.mails other) := by
    intro other
    by_cases hother : other = type
    · subst hother
      rwa [Function.update_self]
    · simp [Function.update_of_ne hother]
  exact
    { types_nodup := h.types_nodup
      mem_types := by
        intro other hother
        have hnil := hsublist other
        rw [h.mem_types other hother] at hnil
        exact List.sublist_nil.mp hnil
      length_le := fun other => (hsublist other).length_le.trans (h.length_le other)
      typed := fun other m hm => h.typed other m (hsubset other m hm)
      id_le := fun other m hm => h.id_le other m (hsubset other m hm)
      ids_nodup := fun other => (h.ids_nodup other).sublist ((hsublist other).map _)
      ids_apart := fun other another hne m hm n hn =>
        h.ids_apart other another hne m (hsubset other m hm) n (hsubset another n hn) }

/-- The mails of a type count in the box, whether the type was used or not. -/
theorem Stored.present_update (h : Stored store) (htype : type ∈ store.types)
    (list : List StoredMail) (subType : String) :
    ({ store with mails := Function.update store.mails type list } : MailStore).present subType +
        (store.mails type).countP (fun m => decide (countedAs m.subType = subType)) =
      store.present subType +
        list.countP (fun m => decide (countedAs m.subType = subType)) :=
  countP_contents_update h.types_nodup htype list _

end

/-! ## Marks -/

section

variable {marks : String → Nat → Option Nat} {type other : String} {id otherId value : Nat}

@[simp]
theorem hset_ne_none : hset marks type id value other otherId ≠ none ↔
    (other = type ∧ otherId = id) ∨ marks other otherId ≠ none := by
  by_cases hother : other = type
  · subst hother
    by_cases hid : otherId = id <;> simp [hset, hid]
  · simp [hset, hother]

@[simp]
theorem hdel_ne_none : hdel marks type id other otherId ≠ none ↔
    ¬(other = type ∧ otherId = id) ∧ marks other otherId ≠ none := by
  by_cases hother : other = type
  · subst hother
    by_cases hid : otherId = id <;> simp [hdel, hid]
  · simp [hdel, hother]

end

/-! ## Delivering -/

section

variable {store : MailStore} {type : String} {mail : StoredMail} {rest : List StoredMail}

/-- The store after a mail is pushed; `rest` is what stays of the list. -/
def pushed (store : MailStore) (type : String) (mail : StoredMail) (rest : List StoredMail) :
    MailStore :=
  { store with
    lastId := mail.id
    types := if type ∈ store.types then store.types else type :: store.types
    mails := Function.update store.mails type (mail :: rest) }

theorem mem_useType (type : String) (types : List String) :
    type ∈ (if type ∈ types then types else type :: types) := by
  split
  · next hmem => exact hmem
  · exact List.mem_cons_self

theorem Stored.nodup_useType (h : Stored store) (type : String) :
    (if type ∈ store.types then store.types else type :: store.types).Nodup := by
  split
  · exact h.types_nodup
  · next hmem => exact List.nodup_cons.mpr ⟨hmem, h.types_nodup⟩

/-- The mail is new, so its id is apart from all others. -/
theorem Stored.pushed (h : Stored store) (hsub : rest.Sublist (store.mails type))
    (hroom : rest.length < limit) (htype : mail.type = type) (hid : mail.id = store.lastId + 1) :
    Stored (pushed store type mail rest) := by
  have hnew : ∀ other, ∀ m ∈ store.mails other, m.id ≠ mail.id := by
    intro other m hm
    have := h.id_le other m hm
    omega
  -- a mail of the new store is the new mail under its type, or was there
  have hmem : ∀ other, ∀ m ∈ (Mail.pushed store type mail rest).mails other,
      (other = type ∧ m = mail) ∨ m ∈ store.mails other := by
    intro other m hm
    by_cases hother : other = type
    · subst hother
      simp only [Mail.pushed, Function.update_self, List.mem_cons] at hm
      rcases hm with rfl | hm
      · exact Or.inl ⟨rfl, rfl⟩
      · exact Or.inr (hsub.subset hm)
    · simp only [Mail.pushed, Function.update_of_ne hother] at hm
      exact Or.inr hm
  exact
    { types_nodup := h.nodup_useType type
      mem_types := by
        intro other hother
        have hne : other ≠ type := by
          rintro rfl
          exact hother (mem_useType other store.types)
        have hnot : other ∉ store.types := by
          intro hin
          apply hother
          simp only [Mail.pushed]
          split
          · exact hin
          · exact List.mem_cons_of_mem _ hin
        simp [Mail.pushed, Function.update_of_ne hne, h.mem_types other hnot]
      length_le := by
        intro other
        by_cases hother : other = type
        · subst hother
          simpa [Mail.pushed] using hroom
        · simpa [Mail.pushed, Function.update_of_ne hother] using h.length_le other
      typed := by
        intro other m hm
        rcases hmem other m hm with ⟨rfl, rfl⟩ | hold
        · exact htype
        · exact h.typed other m hold
      id_le := by
        intro other m hm
        rcases hmem other m hm with ⟨rfl, rfl⟩ | hold
        · exact Nat.le_refl _
        · have := h.id_le other m hold
          simp only [Mail.pushed]
          omega
      ids_nodup := by
        intro other
        by_cases hother : other = type
        · subst hother
          simp only [Mail.pushed, Function.update_self, List.map_cons, List.nodup_cons]
          constructor
          · intro hin
            obtain ⟨m, hm, heq⟩ := List.mem_map.mp hin
            exact hnew other m (hsub.subset hm) heq
          · exact (h.ids_nodup other).sublist (hsub.map _)
        · simpa [Mail.pushed, Function.update_of_ne hother] using h.ids_nodup other
      ids_apart := by
        intro other another hne m hm n hn
        rcases hmem other m hm with ⟨rfl, rfl⟩ | hold
        · rcases hmem another n hn with ⟨rfl, _⟩ | holdn
          · exact absurd rfl hne
          · exact (hnew another n holdn).symm
        · rcases hmem another n hn with ⟨rfl, rfl⟩ | holdn
          · exact hnew other m hold
          · exact h.ids_apart other another hne m hold n holdn }

/-- The mails of a sub type after a mail is pushed. -/
theorem Stored.present_pushed (h : Stored store) (type : String) (mail : StoredMail)
    (rest : List StoredMail) (subType : String) :
    (Mail.pushed store type mail rest).present subType +
        (store.mails type).countP (fun m => decide (countedAs m.subType = subType)) =
      store.present subType +
        (mail :: rest).countP (fun m => decide (countedAs m.subType = subType)) := by
  have hused : (contents (if type ∈ store.types then store.types else type :: store.types)
      store.mails) = contents store.types store.mails := by
    split
    · rfl
    · next hmem => simp [contents, h.mem_types type hmem]
  have hcount : (contents _ (Function.update store.mails type (mail :: rest))).countP _ + _ = _ :=
    countP_contents_update (h.nodup_useType type) (mem_useType type store.types) (mail :: rest)
      fun m => decide (countedAs m.subType = subType)
  rw [hused] at hcount
  exact hcount

/-- What is not dropped is still there. -/
theorem mem_pushed {m : StoredMail} {other : String} (hm : m ∈ store.mails other)
    (hrest : other = type → m ∈ rest) : m ∈ (Mail.pushed store type mail rest).mails other := by
  by_cases hother : other = type
  · subst hother
    simp [Mail.pushed, hrest rfl]
  · simpa [Mail.pushed, Function.update_of_ne hother] using hm

/-- A mail for a list with room. -/
theorem addMail_room (subType : String) (hroom : (store.mails type).length < limit) :
    MailStore.addMail { store with lastId := mail.id } type subType mail =
      { Mail.pushed store type mail (store.mails type) with
        readMarks := hset store.readMarks type mail.id 1
        redeemMarks := hset store.redeemMarks type mail.id 1
        totals := Function.update store.totals subType (store.totals subType + 1) } := by
  have hexcess : (store.mails type).length + 1 - limit = 0 := by omega
  simp [MailStore.addMail, MailStore.addTotal, hexcess, MailStore.popOldest, Mail.pushed]

/-- A mail for a full list: the oldest mail is popped, and the count is as before. -/
theorem addMail_full {old : StoredMail} (subType : String)
    (hlist : store.mails type = rest ++ [old]) (hfull : rest.length + 1 = limit) :
    MailStore.addMail { store with lastId := mail.id } type subType mail =
      { Mail.pushed store type mail rest with
        readMarks := hdel (hset store.readMarks type mail.id 1) type old.id
        redeemMarks := hdel (hset store.redeemMarks type mail.id 1) type old.id } := by
  have hexcess : rest.length + 1 + 1 - limit = 1 := by omega
  have hlast : (mail :: (rest ++ [old])).getLast? = some old := by
    rw [← List.cons_append, List.getLast?_concat]
  have hdrop : (mail :: (rest ++ [old])).dropLast = mail :: rest := by
    rw [← List.cons_append, List.dropLast_concat]
  simp [MailStore.addMail, MailStore.addTotal, hlist, hexcess, MailStore.popOldest, hlast, hdrop,
    Mail.pushed]

/-- A mail that is delivered leaves the marks and counts in order; one for a full
list has to be of the sub type of the oldest mail. -/
theorem Kept.addMail (h : Kept store) (mail : StoredMail) (htype : mail.type = type)
    (hid : mail.id = store.lastId + 1)
    (hcareful : limit ≤ (store.mails type).length → ∀ m ∈ (store.mails type).getLast?,
      countedAs m.subType = countedAs mail.subType) :
    Kept (MailStore.addMail { store with lastId := mail.id } type (countedAs mail.subType)
      mail) := by
  by_cases hroom : (store.mails type).length < limit
  · rw [addMail_room _ hroom]
    constructor
    · exact (h.stored.pushed (List.Sublist.refl _) hroom htype hid).of_eq rfl rfl rfl
    · intro other id hmark
      simp only [hset_ne_none] at hmark
      by_cases hnew : other = type ∧ id = mail.id
      · obtain ⟨rfl, rfl⟩ := hnew
        exact ⟨mail, by simp [Mail.pushed], rfl⟩
      · have hold : store.readMarks other id ≠ none ∨ store.redeemMarks other id ≠ none := by tauto
        obtain ⟨m, hm, rfl⟩ := h.marks other id hold
        exact ⟨m, mem_pushed hm fun hother => hother ▸ hm, rfl⟩
    · intro subType
      have hpresent := h.stored.present_pushed type mail (store.mails type) subType
      have hold := h.counts subType
      rw [List.countP_cons] at hpresent
      by_cases hsub : countedAs mail.subType = subType
      · subst hsub
        simp [MailStore.present, Mail.pushed] at hpresent hold ⊢
        omega
      · simp [MailStore.present, Mail.pushed, hsub, Ne.symm hsub] at hpresent hold ⊢
        omega
  · have hlength := h.stored.length_le type
    obtain ⟨rest, old, hlist⟩ : ∃ rest old, store.mails type = rest ++ [old] := by
      rcases List.eq_nil_or_concat (store.mails type) with hnil | ⟨rest, old, hlist⟩
      · rw [hnil] at hroom
        exact absurd (by decide) hroom
      · exact ⟨rest, old, by simpa using hlist⟩
    have hfull : rest.length + 1 = limit := by
      rw [hlist, List.length_append, List.length_singleton] at hlength hroom
      omega
    have hsame : countedAs old.subType = countedAs mail.subType :=
      hcareful (by omega) old (by simp [hlist])
    have hsub : rest.Sublist (store.mails type) := by
      rw [hlist]
      exact List.sublist_append_left rest [old]
    rw [addMail_full _ hlist hfull]
    constructor
    · exact (h.stored.pushed hsub (by omega) htype hid).of_eq rfl rfl rfl
    · intro other id hmark
      simp only [hdel_ne_none, hset_ne_none] at hmark
      by_cases hnew : other = type ∧ id = mail.id
      · obtain ⟨rfl, rfl⟩ := hnew
        exact ⟨mail, by simp [Mail.pushed], rfl⟩
      · have hnotOld : ¬(other = type ∧ id = old.id) := by tauto
        have hold : store.readMarks other id ≠ none ∨ store.redeemMarks other id ≠ none := by tauto
        obtain ⟨m, hm, rfl⟩ := h.marks other id hold
        refine ⟨m, mem_pushed hm ?_, rfl⟩
        -- it is not the oldest mail, whose mark was taken away
        rintro rfl
        rw [hlist, List.mem_append, List.mem_singleton] at hm
        rcases hm with hm | rfl
        · exact hm
        · exact absurd ⟨rfl, rfl⟩ hnotOld
    · intro subType
      have hpresent := h.stored.present_pushed type mail rest subType
      have hold := h.counts subType
      rw [hlist, List.countP_append, List.countP_singleton, List.countP_cons, hsame] at hpresent
      have hsamePresent : (Mail.pushed store type mail rest).present subType =
          store.present subType := by omega
      simp only [MailStore.present, Mail.pushed] at hsamePresent hold ⊢
      omega

end

/-! ## Marking -/

section

variable {store : MailStore} {type : String} {id : Nat}

/-- A mark for a mail that is there. -/
theorem Kept.mark (h : Kept store) (hid : id ∈ (store.mails type).map StoredMail.id)
    (readMarks redeemMarks : String → Nat → Option Nat)
    (hmarks : ∀ other otherId, readMarks other otherId ≠ none ∨ redeemMarks other otherId ≠ none →
      (other = type ∧ otherId = id) ∨
        store.readMarks other otherId ≠ none ∨ store.redeemMarks other otherId ≠ none) :
    Kept { store with readMarks := readMarks, redeemMarks := redeemMarks } := by
  constructor
  · exact h.stored.of_eq rfl rfl rfl
  · intro other otherId hmark
    rcases hmarks other otherId hmark with ⟨rfl, rfl⟩ | hold
    · obtain ⟨m, hm, heq⟩ := List.mem_map.mp hid
      exact ⟨m, hm, heq⟩
    · exact h.marks other otherId hold
  · exact h.counts

theorem Kept.setRead {mailType sendType : String} (h : Kept store)
    (hid : id ∈ (store.mails (keptType mailType sendType)).map StoredMail.id) :
    Kept (store.setRead id mailType sendType) := by
  apply h.mark hid
  intro other otherId hmark
  rw [hset_ne_none] at hmark
  tauto

theorem Kept.setRedeem {mailType sendType : String} (h : Kept store)
    (hid : id ∈ (store.mails (keptType mailType sendType)).map StoredMail.id) :
    Kept (store.setRedeem id mailType sendType) := by
  apply h.mark hid
  intro other otherId hmark
  rw [hset_ne_none, hset_ne_none] at hmark
  tauto

end

/-! ## Removing -/

section

variable {store : MailStore} {type : String} {m n : StoredMail}

@[simp]
theorem removeFound_mails : (store.removeFound type m).mails =
    Function.update store.mails type ((store.mails type).erase m) := by
  cases hsub : m.subType <;> simp [MailStore.removeFound, MailStore.addTotal, hsub, lrem_one]

theorem Stored.removeFound (h : Stored store) (type : String) (m : StoredMail) :
    Stored (store.removeFound type m) := by
  apply (h.sublist (List.erase_sublist (a := m) (l := store.mails type))).of_eq
  · cases hsub : m.subType <;> simp [MailStore.removeFound, MailStore.addTotal, hsub]
  · cases hsub : m.subType <;> simp [MailStore.removeFound, MailStore.addTotal, hsub]
  · exact removeFound_mails

/-- Mails of one list with one id are the same. -/
theorem Stored.eq_of_id (h : Stored store) (hm : m ∈ store.mails type) (hn : n ∈ store.mails type)
    (hid : m.id = n.id) : m = n :=
  List.inj_on_of_nodup_map (h.ids_nodup type) hm hn hid

/-- A mail that is found and removed: it leaves the list and is counted no more, or
it was not in the list and was not counted. -/
theorem Kept.removeFound (h : Kept store) (hcareful : RemovedWithCount store type m) :
    Kept (store.removeFound type m) := by
  constructor
  · exact h.stored.removeFound type m
  · intro other id hmark
    have hold : ¬(other = type ∧ id = m.id) ∧
        (store.readMarks other id ≠ none ∨ store.redeemMarks other id ≠ none) := by
      cases hsub : m.subType <;>
        simp only [MailStore.removeFound, MailStore.addTotal, hsub, hdel_ne_none] at hmark <;> tauto
    obtain ⟨n, hn, rfl⟩ := h.marks other id hold.2
    refine ⟨n, ?_, rfl⟩
    rw [removeFound_mails]
    by_cases hother : other = type
    · subst hother
      rw [Function.update_self]
      apply (List.mem_erase_of_ne ?_).mpr hn
      rintro rfl
      exact hold.1 ⟨rfl, rfl⟩
    · rwa [Function.update_of_ne hother]
  · intro subType
    have hold := h.counts subType
    by_cases hm : m ∈ store.mails type
    · obtain ⟨counted, hcounted⟩ := Option.ne_none_iff_exists'.mp (hcareful.mp hm)
      have htype : type ∈ store.types := by
        by_contra hnot
        rw [h.stored.mem_types type hnot] at hm
        cases hm
      have hpresent := h.stored.present_update htype ((store.mails type).erase m) subType
      have hperm := (List.perm_cons_erase hm).countP_eq
        fun m => decide (countedAs m.subType = subType)
      rw [List.countP_cons, hcounted] at hperm
      by_cases hsub : counted = subType
      · subst hsub
        simp [countedAs, MailStore.present, MailStore.removeFound, MailStore.addTotal, hcounted,
          lrem_one] at hpresent hperm hold ⊢
        omega
      · simp [countedAs, MailStore.present, MailStore.removeFound, MailStore.addTotal, hcounted,
          lrem_one, hsub, Ne.symm hsub] at hpresent hperm hold ⊢
        omega
    · have hnone : m.subType = none := by
        by_contra hsome
        exact hm (hcareful.mpr hsome)
      simpa [MailStore.removeFound, MailStore.addTotal, hnone, MailStore.present, lrem_one,
        List.erase_of_not_mem hm] using hold

/-- The mails that are shown under a type. -/
theorem Stored.mem_readMails (h : Stored store) : m ∈ store.readMails type ↔
    m ∈ store.mails type ∨ type = "system" ∧
      ∃ permanent ∈ store.mails "system_permanent", m = { permanent with type := "system" } := by
  have hwhole : ∀ other, (store.mails other).take (limit + 1) = store.mails other :=
    fun other => List.take_of_length_le ((h.length_le other).trans (Nat.le_succ _))
  unfold MailStore.readMails
  split
  · next htype => simp [hwhole, htype, eq_comm]
  · next htype => simp [hwhole, htype]

/-- The mails that are shown under a type have different ids. -/
theorem Stored.eq_of_shown (h : Stored store) (hm : m ∈ store.readMails type)
    (hn : n ∈ store.readMails type) (hid : m.id = n.id) : m = n := by
  rw [h.mem_readMails] at hm hn
  rcases hm with hm | ⟨rfl, permanent, hm, rfl⟩
  · rcases hn with hn | ⟨rfl, permanent, hn, rfl⟩
    · exact h.eq_of_id hm hn hid
    · exact absurd hid (h.ids_apart "system" "system_permanent" (by decide) m hm permanent hn)
  · rcases hn with hn | ⟨-, other, hn, rfl⟩
    · exact absurd hid.symm (h.ids_apart "system" "system_permanent" (by decide) n hn permanent hm)
    · rw [h.eq_of_id hm hn hid]

/-- A mail that is still shown after a removal was shown, and keeps its place. -/
theorem Stored.shown_removeFound (h : Stored store)
    (hn : n ∈ (store.removeFound type m).readMails type) :
    n ∈ store.readMails type ∧
      (n ∈ (store.removeFound type m).mails type ↔ n ∈ store.mails type) := by
  rw [(h.removeFound type m).mem_readMails, removeFound_mails] at hn
  rw [h.mem_readMails, removeFound_mails, Function.update_self]
  rcases hn with hn | ⟨rfl, permanent, hpermanent, rfl⟩
  · rw [Function.update_self] at hn
    have hold := List.mem_of_mem_erase hn
    exact ⟨Or.inl hold, iff_of_true hn hold⟩
  · rw [Function.update_of_ne (by decide)] at hpermanent
    refine ⟨Or.inr ⟨rfl, permanent, hpermanent, rfl⟩, iff_of_false ?_ ?_⟩
    · intro hn
      exact h.ids_apart "system" "system_permanent" (by decide) _ (List.mem_of_mem_erase hn)
        permanent hpermanent rfl
    · intro hn
      exact h.ids_apart "system" "system_permanent" (by decide) _ hn permanent hpermanent rfl

theorem Kept.remove (h : Kept store) {mailId : Nat} {mailType sendType : String}
    (hcareful : KeepsCounts store (.remove mailId mailType sendType)) :
    Kept (store.remove mailId mailType sendType) := by
  unfold MailStore.remove
  dsimp only
  split
  · exact h
  · next m hfind => exact h.removeFound (hcareful m hfind)

/-- The loop of `expired`.  The mails that are left to look at were shown at the
start, and those that have expired can still be removed with their count. -/
theorem Kept.removeExpired {now : Nat} {mailType : String} (mails : List StoredMail)
    (h : Kept store) (hcareful : KeepsCounts store (.expired now mailType))
    (hmails : ∀ m ∈ mails, ∀ n ∈ store.readMails mailType, n.id = m.id → n = m) :
    Kept (MailStore.removeExpired now mailType mails store) := by
  induction mails generalizing store with
  | nil => exact h
  | cons m mails ih =>
      have hlater : ∀ m ∈ mails, ∀ n ∈ store.readMails mailType, n.id = m.id → n = m :=
        fun m hm => hmails m (List.mem_cons_of_mem _ hm)
      unfold MailStore.removeExpired
      split
      · next hexpired =>
        have htype : keptType mailType "all_mail" = mailType := by simp [keptType, typePermanent]
        unfold MailStore.remove
        rw [htype]
        dsimp only
        split
        · exact ih h hcareful hlater
        · next found hfind =>
          have hshown := List.mem_of_find?_eq_some hfind
          have hid : found.id = m.id := by simpa using List.find?_some hfind
          have hsame : found = m := hmails m List.mem_cons_self found hshown hid
          subst hsame
          apply ih (h.removeFound (hcareful found hshown hexpired))
          · intro n hn hold
            obtain ⟨hn, hplace⟩ := h.stored.shown_removeFound hn
            unfold RemovedWithCount
            rw [hplace]
            exact hcareful n hn hold
          · intro other hother n hn
            exact hlater other hother n (h.stored.shown_removeFound hn).1
      · exact ih h hcareful hlater

end

/-! ## Runs -/

theorem kept_operate {store next : MailStore} {operation : Operation} (h : Kept store)
    (hcareful : KeepsCounts store operation) (hstep : operate store operation = some next) :
    Kept next := by
  cases operation with
  | deliver now mailType sendType subType =>
      cases hstep
      exact h.addMail ⟨store.lastId + 1, _, subType, now⟩ rfl rfl hcareful
  | setRead mailId mailType sendType =>
      cases hstep
      exact h.setRead hcareful
  | setRedeem mailId mailType sendType =>
      cases hstep
      exact h.setRedeem hcareful
  | remove mailId mailType sendType =>
      cases hstep
      exact h.remove hcareful
  | expired now mailType =>
      cases hstep
      exact h.removeExpired _ hcareful fun m hm n hn hid => h.stored.eq_of_shown hn hm hid

/-- In every run of operations that meet the condition, only mails of the box are
marked, and every count is the number of mails of its sub type. -/
theorem marks_and_counts_of_run {operations : List Operation} {store : MailStore}
    (hrun : Run operate KeepsCounts .new operations store) :
    MarksPresent store ∧ CountsAgree store := by
  have hkept : Kept store :=
    hrun.invariant kept_new fun _ _ _ h hcareful hstep => kept_operate h hcareful hstep
  exact ⟨hkept.marks, hkept.counts⟩

/-- A mail is read and redeemed, another one expires, and a permanent mail is removed
under its own send type. -/
def tidied : List Operation :=
  [.deliver 0 "system" "specify_mail" (some "gift"), .deliver 5000000 "social" "specify_mail" none,
    .deliver 0 "system" typePermanent (some "notice"), .setRead 1 "system" "specify_mail",
    .setRedeem 3 "system" typePermanent, .remove 3 "system" typePermanent,
    .expired 2592001 "system"]

theorem marks_and_counts_tidied :
    MarksPresent ((exec operate KeepsCounts .new tidied).getD .new) ∧
      CountsAgree ((exec operate KeepsCounts .new tidied).getD .new) := by
  have hrun : Run operate KeepsCounts .new tidied
      ((exec operate KeepsCounts .new tidied).getD .new) :=
    run_exec_getD MailStore.new (by decide +kernel)
  exact marks_and_counts_of_run hrun

/-- A permanent mail expires under the type that it is shown with: its count is gone,
but it is still there. -/
def shownExpired : List Operation :=
  [.deliver 0 "system" typePermanent (some "notice"), .expired 2592001 "system"]

theorem not_countsAgree_shownExpired :
    Run operate free .new shownExpired ((exec operate free .new shownExpired).getD .new) ∧
      ¬ CountsAgree ((exec operate free .new shownExpired).getD .new) := by
  refine ⟨run_exec_getD MailStore.new (by decide +kernel), ?_⟩
  intro hcounts
  have hnotice := hcounts "notice"
  revert hnotice
  decide +kernel

end Mail
end ArmyRs
