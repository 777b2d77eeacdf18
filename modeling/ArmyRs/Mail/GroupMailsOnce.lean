import ArmyRs.Mail.GroupMailDb

/-!
# Group mails are delivered once and in order

`DeliveredRight` says that no group mail is delivered twice, that a call delivers in
increasing order of the ids, and that a mail which a player is to have is only left
out when the list that it would be kept in is full.

A call works through the list that it made when it started.  Nothing keeps another
call from delivering the same mails, the list is in the order of the ids as strings,
and the loop ends for all mails when the list under the type of one of them is full.
`Careful` says when this does no harm.
-/

namespace ArmyRs
namespace Mail

open Foundation

namespace Call

/-- The mails that a call still has to deliver or to record. -/
def pending (c : Call) : List GroupMail :=
  match c.stage with
  | .checking mails => mails
  | .delivering m mails => m :: mails
  | .recording m mails => m :: mails
  | _ => []

/-- The mails of its list that a call has not delivered. -/
def undelivered (c : Call) : List GroupMail :=
  match c.stage with
  | .checking mails => mails
  | .delivering m mails => m :: mails
  | .recording _ mails => mails
  | .left mails _ => mails
  | _ => []

/-- The call has ended. -/
def Ended (c : Call) : Prop :=
  c.stage = .finished ∨ ∃ mails box, c.stage = .left mails box

/-- The loop was left when the list of the mail's own type was full. -/
def LeftFull (c : Call) (m : GroupMail) : Prop :=
  ∃ mails box, c.stage = .left mails box ∧ box.full m.keptType

/-- The player is to have the mail: it is published, and meant for his level, his zone
and himself; if it is not a permanent mail, it is also meant for this time. -/
structure Eligible (c : Call) (zone : Int) (m : GroupMail) : Prop where
  published : ∃ value, m.published = some value ∧ value ≠ 0
  level : toI m.minLv ≤ c.lv ∧ c.lv ≤ toI m.maxLv
  time : m.sendType = some typePermanent ∨ toI m.startTime ≤ c.now ∧ c.now ≤ toI m.endTime
  zone : ∀ list, m.zones = some (.only list) → zone ∈ list
  player : ∀ list, m.toPid = some (.only list) → c.pid ∈ list

end Call

/-- Who is to have a mail does not depend on how far the call is. -/
theorem Call.Eligible.congr {c d : Call} {zone : Int} {m : GroupMail} (h : c.Eligible zone m)
    (hlv : d.lv = c.lv) (hpid : d.pid = c.pid) (hnow : d.now = c.now) : d.Eligible zone m where
  published := h.published
  level := hlv ▸ h.level
  time := hnow ▸ h.time
  zone := h.zone
  player := hpid ▸ h.player

/-- A mail has been delivered by one of the calls. -/
def GroupMails.Delivered (s : GroupMails) (id : Nat) : Prop :=
  ∃ c ∈ s.calls, id ∈ c.deliverMails.map GroupMail.id

/-- No mail is delivered twice, every call delivers in order, and an eligible mail is
left out only when the list of its own type is full. -/
structure DeliveredRight (s : GroupMails) : Prop where
  once : ((s.calls.flatMap Call.deliverMails).map GroupMail.id).Nodup
  ordered : ∀ c ∈ s.calls, (c.deliverMails.map GroupMail.id).Pairwise (· < ·)
  withheld : ∀ c ∈ s.calls, c.Ended → ∀ m ∈ c.mails, c.Eligible s.zone m →
    m ∈ c.deliverMails ∨ (m.id ∈ c.ids ∧ s.Delivered m.id) ∨ c.LeftFull m

/-- What a call has to meet when it sends its next command.

* When it makes its list, no mail of the list has been recorded in the meantime or is
  still to be delivered or recorded by a call, and the order of the ids as strings is
  that of the ids.
* When the list under the type of the next mail is full, all mails left are kept in
  that list. -/
def CarefulAt (s : GroupMails) (c : Call) : Stage → Prop
  | .listing =>
      (∀ m ∈ c.select s.zone s.groupMails,
        m.id ∉ s.acquired ∧ ∀ d ∈ s.calls, m.id ∉ d.pending.map GroupMail.id) ∧
      ∀ a ∈ c.select s.zone s.groupMails, ∀ b ∈ c.select s.zone s.groupMails,
        a.id < b.id → idText a.id < idText b.id
  | .checking (m :: mails) => s.store.full m.type → ∀ n ∈ m :: mails, n.keptType = m.type
  | _ => True

def GroupCareful (s : GroupMails) : GroupEvent → Prop
  | .advance i _ => ∀ c ∈ s.calls[i]?, CarefulAt s c c.stage
  | _ => True

instance CarefulAt.decidable (s : GroupMails) (c : Call) :
    (stage : Stage) → Decidable (CarefulAt s c stage)
  | .listing =>
      inferInstanceAs (Decidable ((∀ m ∈ (_ : List GroupMail), _ ∧ ∀ d ∈ (_ : List Call), _) ∧
        ∀ a ∈ (_ : List GroupMail), ∀ b ∈ (_ : List GroupMail), _ → _))
  | .checking (_ :: _) => inferInstanceAs (Decidable (_ → ∀ n ∈ (_ : List GroupMail), _))
  | .checking [] => isTrue trivial
  | .reading => isTrue trivial
  | .delivering _ _ => isTrue trivial
  | .recording _ _ => isTrue trivial
  | .finished => isTrue trivial
  | .left _ _ => isTrue trivial

instance GroupCareful.decidable (s : GroupMails) :
    (event : GroupEvent) → Decidable (GroupCareful s event)
  | .advance _ _ => inferInstanceAs (Decidable (∀ c ∈ (_ : Option Call), _))
  | .start _ _ _ => isTrue trivial
  | .addMail _ => isTrue trivial
  | .updateMail _ => isTrue trivial
  | .delMail _ => isTrue trivial
  | .operate _ => isTrue trivial

/-! ## The list of a call -/

section

variable {c : Call} {zone : Int} {m : GroupMail} {mails : List GroupMail}

theorem excludes_eq_false_iff {α : Type} [DecidableEq α] {targets : Option (Targets α)}
    {target : α} : excludes targets target = false ↔
      ∀ list, targets = some (.only list) → target ∈ list := by
  rcases targets with - | - | list
  · simp [excludes]
  · simp [excludes]
  · simp [excludes]

/-- `delete_if` deletes exactly the mails that are not for the player. -/
theorem unfit_eq_false_iff : c.unfit zone m = false ↔ c.Eligible zone m := by
  constructor
  · intro hfit
    simp only [Call.unfit, Bool.or_eq_false_iff, Bool.and_eq_false_iff, decide_eq_false_iff_not,
      excludes_eq_false_iff, not_not, not_lt] at hfit
    obtain ⟨⟨⟨⟨⟨⟨hsome, hnonzero⟩, hmin⟩, hmax⟩, htime⟩, hzone⟩, hplayer⟩ := hfit
    obtain ⟨value, hvalue⟩ : ∃ value, m.published = some value := by
      cases hpublished : m.published with
      | none => simp [hpublished] at hsome
      | some value => exact ⟨value, rfl⟩
    exact
      { published := ⟨value, hvalue, by simpa [toI, hvalue] using hnonzero⟩
        level := ⟨hmin, hmax⟩
        time := htime
        zone := hzone
        player := hplayer }
  · intro h
    obtain ⟨value, hvalue, hnonzero⟩ := h.published
    simp only [Call.unfit, Bool.or_eq_false_iff, Bool.and_eq_false_iff, decide_eq_false_iff_not,
      excludes_eq_false_iff, not_not, not_lt]
    exact ⟨⟨⟨⟨⟨⟨by simp [hvalue], by simpa [toI, hvalue] using hnonzero⟩, h.level.1⟩, h.level.2⟩,
      h.time⟩, h.zone⟩, h.player⟩

theorem mem_select : m ∈ c.select zone mails ↔ m ∈ mails ∧ c.Eligible zone m ∧ m.id ∉ c.ids := by
  unfold Call.select
  rw [List.mem_insertionSort, List.mem_filter]
  simp [unfit_eq_false_iff]

theorem select_nodup (c : Call) (zone : Int) (hmails : (mails.map GroupMail.id).Nodup) :
    ((c.select zone mails).map GroupMail.id).Nodup := by
  unfold Call.select
  apply ((List.perm_insertionSort _ _).map GroupMail.id).nodup_iff.mpr
  exact hmails.sublist (List.filter_sublist.map _)

/-- The list is in the order of the ids, when that is the order of their strings. -/
theorem select_ordered (hmails : (mails.map GroupMail.id).Nodup)
    (horder : ∀ a ∈ c.select zone mails, ∀ b ∈ c.select zone mails,
      a.id < b.id → idText a.id < idText b.id) :
    ((c.select zone mails).map GroupMail.id).Pairwise (· < ·) := by
  have htotal : Std.Total fun a b : GroupMail => idText a.id ≤ idText b.id :=
    ⟨fun a b => le_total (idText a.id) (idText b.id)⟩
  have htrans : IsTrans GroupMail fun a b => idText a.id ≤ idText b.id :=
    ⟨fun _ _ _ => le_trans⟩
  have hsorted : (c.select zone mails).Pairwise fun a b => idText a.id ≤ idText b.id :=
    List.pairwise_insertionSort _ _
  have hdistinct := List.pairwise_map.mp (select_nodup c zone hmails)
  rw [List.pairwise_map]
  apply (hsorted.and hdistinct).imp_of_mem
  intro a b ha hb hab
  rcases Nat.lt_trichotomy a.id b.id with hlt | heq | hlt
  · exact hlt
  · exact absurd heq hab.2
  · exact absurd (horder b hb a ha hlt) (not_lt.mpr hab.1)

end

/-! ## What the calls keep -/

/-- The mails that a call delivers or records, sooner or later. -/
def Call.touched (c : Call) : List GroupMail :=
  c.deliverMails ++ c.pending

/-- Two calls have nothing to do with the same mail. -/
def Apart (c d : Call) : Prop :=
  ∀ m ∈ c.touched, ∀ n ∈ d.touched, m.id ≠ n.id

theorem Apart.symm (c d : Call) (h : Apart c d) : Apart d c :=
  fun m hm n hn => (h n hn m hm).symm

/-- What holds of a call, given the recorded ids. -/
structure CallKept (zone : Int) (acquired : List Nat) (c : Call) : Prop where
  unread : c.stage = .reading ∨ c.stage = .listing → c.mails = [] ∧ c.deliverMails = []
  ordered : ((c.deliverMails ++ c.undelivered).map GroupMail.id).Pairwise (· < ·)
  accounted : ∀ m ∈ c.mails, c.Eligible zone m →
    m.id ∈ c.ids ∨ m ∈ c.deliverMails ++ c.undelivered
  recorded : ∀ m ∈ c.deliverMails, m.id ∈ acquired ∨ m.id ∈ c.pending.map GroupMail.id
  fresh : ∀ m ∈ c.pending, m.id ∉ acquired
  delivered : ∀ m mails, c.stage = .recording m mails → m ∈ c.deliverMails
  leftFull : ∀ mails box, c.stage = .left mails box → ∀ m ∈ mails, box.full m.keptType

/-- What the steps keep. -/
structure GroupKept (s : GroupMails) : Prop where
  ids_nodup : (s.groupMails.map GroupMail.id).Nodup
  acquired : ∀ id ∈ s.acquired, s.Delivered id
  read : ∀ c ∈ s.calls, ∀ id ∈ c.ids, s.Delivered id
  call : ∀ c ∈ s.calls, CallKept s.zone s.acquired c
  apart : s.calls.Pairwise Apart

theorem groupKept_new (zone : Int) : GroupKept (.new zone) where
  ids_nodup := List.nodup_nil
  acquired := by simp [GroupMails.new]
  read := by simp [GroupMails.new]
  call := by simp [GroupMails.new]
  apart := List.Pairwise.nil

/-- The invariant gives the property. -/
theorem GroupKept.deliveredRight {s : GroupMails} (h : GroupKept s) : DeliveredRight s := by
  have hordered : ∀ c ∈ s.calls, (c.deliverMails.map GroupMail.id).Pairwise (· < ·) := by
    intro c hc
    have hwhole := (h.call c hc).ordered
    rw [List.map_append, List.pairwise_append] at hwhole
    exact hwhole.1
  constructor
  · rw [List.map_flatMap, List.nodup_flatMap]
    constructor
    · intro c hc
      exact (hordered c hc).imp Nat.ne_of_lt
    · apply h.apart.imp
      intro c d hapart id hidc hidd
      obtain ⟨m, hm, rfl⟩ := List.mem_map.mp hidc
      obtain ⟨n, hn, heq⟩ := List.mem_map.mp hidd
      exact hapart m (List.mem_append_left _ hm) n (List.mem_append_left _ hn) heq.symm
  · exact hordered
  · intro c hc hended m hm heligible
    have hcall := h.call c hc
    rcases hcall.accounted m hm heligible with hid | hmem
    · exact Or.inr (Or.inl ⟨hid, h.read c hc m.id hid⟩)
    · rcases List.mem_append.mp hmem with hdelivered | hleft
      · exact Or.inl hdelivered
      · rcases hended with hfinished | ⟨mails, box, hstage⟩
        · simp [Call.undelivered, hfinished] at hleft
        · have hmails : m ∈ mails := by simpa [Call.undelivered, hstage] using hleft
          exact Or.inr (Or.inr ⟨mails, box, hstage, hcall.leftFull mails box hstage m hmails⟩)

/-! ## A call moves on -/

section

variable {s next : GroupMails} {i : Nat} {c c' : Call}

/-- What has been delivered stays delivered. -/
theorem GroupMails.Delivered.set (hc : s.calls[i]? = some c)
    (hnext : next.calls = s.calls.set i c') (hsub : c.deliverMails ⊆ c'.deliverMails) {id : Nat}
    (h : s.Delivered id) : next.Delivered id := by
  obtain ⟨d, hd, hid⟩ := h
  obtain ⟨j, hj, hget⟩ := List.mem_iff_getElem.mp hd
  have hi : i < s.calls.length := (List.getElem?_eq_some_iff.mp hc).1
  by_cases hij : i = j
  · subst hij
    have hdc : d = c := by
      rw [List.getElem?_eq_getElem hj, hget] at hc
      exact Option.some.inj hc
    refine ⟨c', ?_, ?_⟩
    · rw [hnext]
      exact List.mem_set hi c'
    · rw [hdc] at hid
      exact List.map_subset _ hsub hid
  · refine ⟨d, ?_, hid⟩
    rw [hnext]
    apply List.mem_of_getElem? (i := j)
    rw [List.getElem?_set_ne hij, List.getElem?_eq_getElem hj, hget]

/-- A call that moves on keeps the invariant, when it keeps its own part and the
others are not affected. -/
theorem GroupKept.move (h : GroupKept s) (hc : s.calls[i]? = some c)
    (hcalls : next.calls = s.calls.set i c') (hmails : next.groupMails = s.groupMails)
    (hzone : next.zone = s.zone) (hsub : c.deliverMails ⊆ c'.deliverMails)
    (hacquired : ∀ id ∈ next.acquired, next.Delivered id)
    (hread : ∀ id ∈ c'.ids, next.Delivered id)
    (hself : CallKept s.zone next.acquired c')
    (hothers : ∀ j d, j ≠ i → s.calls[j]? = some d → Apart c' d ∧ CallKept s.zone next.acquired d) :
    GroupKept next := by
  have hdelivered : ∀ {id}, s.Delivered id → next.Delivered id :=
    fun h => h.set hc hcalls hsub
  have hcase : ∀ d ∈ next.calls, d = c' ∨ ∃ j, j ≠ i ∧ s.calls[j]? = some d := by
    -- a call is this one or one of the others
    intro d hd
    rw [hcalls] at hd
    obtain ⟨j, hj⟩ := List.mem_iff_getElem?.mp hd
    rcases getElem?_set_some hj with ⟨-, rfl⟩ | ⟨hne, hold⟩
    · exact Or.inl rfl
    · exact Or.inr ⟨j, hne, hold⟩
  constructor
  · rw [hmails]
    exact h.ids_nodup
  · exact hacquired
  · intro d hd id hid
    rcases hcase d hd with rfl | ⟨j, -, hold⟩
    · exact hread id hid
    · exact hdelivered (h.read d (List.mem_of_getElem? hold) id hid)
  · intro d hd
    rw [hzone]
    rcases hcase d hd with rfl | ⟨j, hne, hold⟩
    · exact hself
    · exact (hothers j d hne hold).2
  · rw [hcalls]
    exact pairwise_set Apart.symm h.apart fun j d hne hd => (hothers j d hne hd).1

/-- The same, when nothing is recorded and the call touches no other mails. -/
theorem GroupKept.moveWithin (h : GroupKept s) (hc : s.calls[i]? = some c)
    (hcalls : next.calls = s.calls.set i c') (hmails : next.groupMails = s.groupMails)
    (hzone : next.zone = s.zone) (hsame : next.acquired = s.acquired)
    (hsub : c.deliverMails ⊆ c'.deliverMails) (htouched : c'.touched ⊆ c.touched)
    (hids : ∀ id ∈ c'.ids, id ∈ c.ids ∨ id ∈ s.acquired)
    (hself : CallKept s.zone s.acquired c') : GroupKept next := by
  have hdelivered : ∀ {id}, s.Delivered id → next.Delivered id :=
    fun h => h.set hc hcalls hsub
  apply h.move hc hcalls hmails hzone hsub
  · rw [hsame]
    exact fun id hid => hdelivered (h.acquired id hid)
  · intro id hid
    rcases hids id hid with hold | hnew
    · exact hdelivered (h.read c (List.mem_of_getElem? hc) id hold)
    · exact hdelivered (h.acquired id hnew)
  · rwa [hsame]
  · intro j d hne hd
    rw [hsame]
    constructor
    · intro m hm
      exact pairwise_getElem? Apart.symm h.apart hc hd (Ne.symm hne) m (htouched hm)
    · exact h.call d (List.mem_of_getElem? hd)

/-- A call that goes through the same mails still accounts for them in their order,
whichever of them it has delivered. -/
theorem CallKept.goesOn {zone : Int} {acquired : List Nat} (h : CallKept zone acquired c)
    (delivered : List GroupMail) (stage : Stage)
    (hsame : delivered ++ { c with deliverMails := delivered, stage := stage }.undelivered =
      c.deliverMails ++ c.undelivered) :
    ((delivered ++ { c with deliverMails := delivered, stage := stage }.undelivered).map
        GroupMail.id).Pairwise (· < ·) ∧
      ∀ m ∈ c.mails, { c with deliverMails := delivered, stage := stage }.Eligible zone m →
        m.id ∈ c.ids ∨
          m ∈ delivered ++ { c with deliverMails := delivered, stage := stage }.undelivered := by
  rw [hsame]
  exact ⟨h.ordered, fun m hm heligible => h.accounted m hm (heligible.congr rfl rfl rfl)⟩

/-- The ids are read. -/
theorem GroupKept.readIds (h : GroupKept s) (hc : s.calls[i]? = some c)
    (hstage : c.stage = .reading) :
    GroupKept (s.goTo i { c with ids := s.acquired, stage := .listing }) := by
  obtain ⟨hmails, hdeliver⟩ := (h.call c (List.mem_of_getElem? hc)).unread (Or.inl hstage)
  refine h.moveWithin hc rfl rfl rfl rfl ?_ ?_ ?_ ?_
  · exact List.Subset.refl _
  · simp [Call.touched, Call.pending, hdeliver]
  · exact fun id hid => Or.inr hid
  · exact
      { unread := fun _ => ⟨hmails, hdeliver⟩
        ordered := by simp [Call.undelivered, hdeliver]
        accounted := by simp [hmails]
        recorded := by simp [hdeliver]
        fresh := by simp [Call.pending]
        delivered := by simp
        leftFull := by simp }

/-- The list is made.  It has no mail in common with what the other calls touch. -/
theorem GroupKept.list (h : GroupKept s) (hc : s.calls[i]? = some c)
    (hstage : c.stage = .listing) (hcareful : CarefulAt s c .listing) :
    GroupKept (s.goTo i
      { c with mails := s.groupMails, stage := .checking (c.select s.zone s.groupMails) }) := by
  obtain ⟨hmails, hdeliver⟩ := (h.call c (List.mem_of_getElem? hc)).unread (Or.inr hstage)
  obtain ⟨hapart, horder⟩ := hcareful
  have hdelivered : ∀ {id}, s.Delivered id → (s.goTo i
      { c with mails := s.groupMails
               stage := .checking (c.select s.zone s.groupMails) }).Delivered id := by
    intro id hid
    refine hid.set hc rfl ?_
    exact List.Subset.refl _
  refine h.move hc rfl rfl rfl ?_ ?_ ?_ ?_ ?_
  · exact List.Subset.refl _
  · exact fun id hid => hdelivered (h.acquired id hid)
  · exact fun id hid => hdelivered (h.read c (List.mem_of_getElem? hc) id hid)
  · exact
      { unread := by simp
        ordered := by
          simpa [Call.undelivered, hdeliver] using select_ordered h.ids_nodup horder
        accounted := by
          intro m hm heligible
          by_cases hid : m.id ∈ c.ids
          · exact Or.inl hid
          · refine Or.inr (List.mem_append_right _ ?_)
            exact mem_select.mpr ⟨hm, heligible.congr rfl rfl rfl, hid⟩
        recorded := by simp [hdeliver]
        fresh := fun m hm => (hapart m hm).1
        delivered := by simp
        leftFull := by simp }
  · intro j d hne hd
    have hmem := List.mem_of_getElem? hd
    refine ⟨?_, h.call d hmem⟩
    intro m hm n hn heq
    have hselect : m ∈ c.select s.zone s.groupMails := by
      simpa [Call.touched, Call.pending, hdeliver] using hm
    obtain ⟨hfresh, hpending⟩ := hapart m hselect
    rcases List.mem_append.mp hn with hn | hn
    -- what another call has delivered it has recorded, or is about to record
    · rcases (h.call d hmem).recorded n hn with hrecorded | hlater
      · exact hfresh (heq ▸ hrecorded)
      · exact hpending d hmem (heq ▸ hlater)
    · exact hpending d hmem (heq ▸ List.mem_map_of_mem hn)

/-- The loop ends with the list. -/
theorem GroupKept.finish (h : GroupKept s) (hc : s.calls[i]? = some c)
    (hstage : c.stage = .checking []) : GroupKept (s.goTo i { c with stage := .finished }) := by
  have hcall := h.call c (List.mem_of_getElem? hc)
  have hgoesOn := hcall.goesOn c.deliverMails .finished
    (by simp [Call.undelivered, hstage])
  refine h.moveWithin hc rfl rfl rfl rfl ?_ ?_ ?_ ?_
  · exact List.Subset.refl _
  · simp [Call.touched, Call.pending]
  · exact fun id hid => Or.inl hid
  · exact
      { unread := by simp
        ordered := hgoesOn.1
        accounted := hgoesOn.2
        recorded := by simpa [Call.pending, hstage] using hcall.recorded
        fresh := by simp [Call.pending]
        delivered := by simp
        leftFull := by simp }

/-- The loop is left. -/
theorem GroupKept.leave {m : GroupMail} {mails : List GroupMail} (h : GroupKept s)
    (hc : s.calls[i]? = some c) (hstage : c.stage = .checking (m :: mails))
    (hfull : s.store.full m.type) (hcareful : CarefulAt s c (.checking (m :: mails))) :
    GroupKept (s.goTo i { c with stage := .left (m :: mails) s.store }) := by
  have hcall := h.call c (List.mem_of_getElem? hc)
  have hgoesOn := hcall.goesOn c.deliverMails (.left (m :: mails) s.store)
    (by simp [Call.undelivered, hstage])
  have hpending := hcall.fresh
  simp only [Call.pending, hstage] at hpending
  refine h.moveWithin hc rfl rfl rfl rfl ?_ ?_ ?_ ?_
  · exact List.Subset.refl _
  · simp [Call.touched, Call.pending]
  · exact fun id hid => Or.inl hid
  · exact
      { unread := by simp
        ordered := hgoesOn.1
        accounted := hgoesOn.2
        recorded := by
          -- a mail that this call has delivered comes before the mails that are left
          intro n hn
          rcases hcall.recorded n hn with hrecorded | hlater
          · exact Or.inl hrecorded
          · exfalso
            have hordered := hcall.ordered
            simp only [Call.undelivered, hstage, List.map_append, List.pairwise_append] at hordered
            simp only [Call.pending, hstage] at hlater
            exact Nat.lt_irrefl _ (hordered.2.2 n.id (List.mem_map_of_mem hn) n.id hlater)
        fresh := by simp [Call.pending]
        delivered := by simp
        leftFull := by
          rintro _ _ hleft n hn
          cases hleft
          rw [hcareful hfull n hn]
          exact hfull }

/-- The next mail is to be delivered. -/
theorem GroupKept.check {m : GroupMail} {mails : List GroupMail} (h : GroupKept s)
    (hc : s.calls[i]? = some c) (hstage : c.stage = .checking (m :: mails)) :
    GroupKept (s.goTo i { c with stage := .delivering m mails }) := by
  have hcall := h.call c (List.mem_of_getElem? hc)
  have hgoesOn := hcall.goesOn c.deliverMails (.delivering m mails)
    (by simp [Call.undelivered, hstage])
  refine h.moveWithin hc rfl rfl rfl rfl ?_ ?_ ?_ ?_
  · exact List.Subset.refl _
  · simp [Call.touched, Call.pending, hstage]
  · exact fun id hid => Or.inl hid
  · exact
      { unread := by simp
        ordered := hgoesOn.1
        accounted := hgoesOn.2
        recorded := by simpa [Call.pending, hstage] using hcall.recorded
        fresh := by simpa [Call.pending, hstage] using hcall.fresh
        delivered := by simp
        leftFull := by simp }

/-- A mail is delivered. -/
theorem GroupKept.deliver {m : GroupMail} {mails : List GroupMail} (h : GroupKept s)
    (hc : s.calls[i]? = some c) (hstage : c.stage = .delivering m mails) (store : MailStore) :
    GroupKept ({ s with store := store }.goTo i
      { c with deliverMails := c.deliverMails ++ [m], stage := .recording m mails }) := by
  have hcall := h.call c (List.mem_of_getElem? hc)
  have hgoesOn := hcall.goesOn (c.deliverMails ++ [m]) (.recording m mails)
    (by simp [Call.undelivered, hstage])
  refine h.moveWithin hc rfl rfl rfl rfl ?_ ?_ ?_ ?_
  · exact List.subset_append_left _ _
  · -- the mail goes over from those to deliver to the delivered ones
    intro n hn
    simp only [Call.touched, Call.pending, hstage, List.mem_append, List.mem_cons,
      List.not_mem_nil, or_false] at hn ⊢
    tauto
  · exact fun id hid => Or.inl hid
  · exact
      { unread := by simp
        ordered := hgoesOn.1
        accounted := hgoesOn.2
        recorded := by
          intro n hn
          rcases List.mem_append.mp hn with hold | hnew
          · simpa [Call.pending, hstage] using hcall.recorded n hold
          · rw [List.mem_singleton.mp hnew]
            exact Or.inr List.mem_cons_self
        fresh := by simpa [Call.pending, hstage] using hcall.fresh
        delivered := by
          rintro _ _ hrecording
          cases hrecording
          exact List.mem_append_right _ List.mem_cons_self
        leftFull := by simp }

/-- A mail is recorded.  No other call still has it to deliver or to record. -/
theorem GroupKept.record {m : GroupMail} {mails : List GroupMail} (h : GroupKept s)
    (hc : s.calls[i]? = some c) (hstage : c.stage = .recording m mails) :
    GroupKept ({ s with acquired := s.acquired.insert m.id }.goTo i
      { c with stage := .checking mails }) := by
  have hmem := List.mem_of_getElem? hc
  have hcall := h.call c hmem
  have hgoesOn := hcall.goesOn c.deliverMails (.checking mails)
    (by simp [Call.undelivered, hstage])
  have hdelivered := hcall.delivered m mails hstage
  have hgrow : ∀ {id}, s.Delivered id →
      ({ s with acquired := s.acquired.insert m.id }.goTo i
        { c with stage := .checking mails }).Delivered id := by
    intro id hid
    refine hid.set hc rfl ?_
    exact List.Subset.refl _
  refine h.move hc rfl rfl rfl ?_ ?_ ?_ ?_ ?_
  · exact List.Subset.refl _
  · intro id hid
    -- the id that is recorded is that of a mail this call has delivered
    rcases List.mem_insert_iff.mp hid with rfl | hold
    · exact hgrow ⟨c, hmem, List.mem_map_of_mem hdelivered⟩
    · exact hgrow (h.acquired id hold)
  · exact fun id hid => hgrow (h.read c hmem id hid)
  · have hordered := hcall.ordered
    simp only [Call.undelivered, hstage, List.map_append, List.pairwise_append] at hordered
    exact
      { unread := by simp
        ordered := hgoesOn.1
        accounted := hgoesOn.2
        recorded := by
          intro n hn
          rcases hcall.recorded n hn with hrecorded | hlater
          · exact Or.inl (List.mem_insert_of_mem hrecorded)
          · simp only [Call.pending, hstage, List.map_cons, List.mem_cons] at hlater
            rcases hlater with heq | hlater
            · exact Or.inl (List.mem_insert_iff.mpr (Or.inl heq))
            · exact Or.inr hlater
        fresh := by
          intro n hn hid
          -- the mails of a call have ascending ids, so this id is none of those that follow
          have hlt := hordered.2.2 m.id (List.mem_map_of_mem hdelivered) n.id
            (List.mem_map_of_mem hn)
          rcases List.mem_insert_iff.mp hid with heq | hold
          · omega
          · exact hcall.fresh n (by simp [Call.pending, hstage, show n ∈ mails from hn]) hold
        delivered := by simp
        leftFull := by simp }
  · intro j d hne hd
    have hapart := pairwise_getElem? Apart.symm h.apart hc hd (Ne.symm hne)
    have hother := h.call d (List.mem_of_getElem? hd)
    constructor
    · intro n hn
      apply hapart n
      simp only [Call.touched, Call.pending, hstage, List.mem_append, List.mem_cons] at hn ⊢
      tauto
    · exact
        { unread := hother.unread
          ordered := hother.ordered
          accounted := hother.accounted
          recorded := fun n hn => (hother.recorded n hn).imp_left List.mem_insert_of_mem
          fresh := by
            intro n hn hid
            -- another call has no mail with this id to deliver: the calls are apart
            rcases List.mem_insert_iff.mp hid with heq | hold
            · exact hapart m (List.mem_append_left _ hdelivered) n (List.mem_append_right _ hn)
                heq.symm
            · exact hother.fresh n hn hold
          delivered := hother.delivered
          leftFull := hother.leftFull }

end

/-! ## Runs -/

theorem groupKept_advance {s next : GroupMails} {i time : Nat} (h : GroupKept s)
    (hcareful : GroupCareful s (.advance i time)) (hstep : s.advance i time = some next) :
    GroupKept next := by
  unfold GroupMails.advance at hstep
  split at hstep
  · cases hstep
  · next c hc =>
    -- one case for each stage that a call can be in
    have hat := hcareful c hc
    split at hstep
    · next hstage =>
      cases hstep
      exact h.readIds hc hstage
    · next hstage =>
      cases hstep
      exact h.list hc hstage (hstage ▸ hat)
    · next hstage =>
      cases hstep
      exact h.finish hc hstage
    · next m mails hstage =>
      split at hstep
      · next hfull =>
        cases hstep
        exact h.leave hc hstage hfull (hstage ▸ hat)
      · cases hstep
        exact h.check hc hstage
    · next m mails hstage =>
      cases hstep
      exact h.deliver hc hstage _
    · next m mails hstage =>
      cases hstep
      exact h.record hc hstage
    · cases hstep
    · cases hstep

/-- A change of the group mails alone. -/
theorem GroupKept.ofMails {s : GroupMails} (h : GroupKept s) (lastId : Nat)
    {mails : List GroupMail} (hmails : (mails.map GroupMail.id).Nodup) :
    GroupKept { s with lastId := lastId, groupMails := mails } where
  ids_nodup := hmails
  acquired := h.acquired
  read := h.read
  call := h.call
  apart := h.apart

/-- A call that has not sent anything yet. -/
theorem GroupKept.start {s : GroupMails} (h : GroupKept s) (lv : Int) (pid : String)
    (now : Int) : GroupKept { s with calls := s.calls ++ [.new lv pid now] } := by
  have hold : ∀ {id}, s.Delivered id →
      GroupMails.Delivered { s with calls := s.calls ++ [.new lv pid now] } id := by
    -- a new call has delivered nothing and takes nothing away
    rintro id ⟨c, hc, hid⟩
    exact ⟨c, List.mem_append_left _ hc, hid⟩
  constructor
  · exact h.ids_nodup
  · exact fun id hid => hold (h.acquired id hid)
  · intro c hc id hid
    rcases List.mem_append.mp hc with hc | hc
    · exact hold (h.read c hc id hid)
    · rw [List.mem_singleton.mp hc] at hid
      cases hid
  · intro c hc
    rcases List.mem_append.mp hc with hc | hc
    · exact h.call c hc
    · rw [List.mem_singleton.mp hc]
      exact
        { unread := fun _ => ⟨rfl, rfl⟩
          ordered := List.Pairwise.nil
          accounted := by simp [Call.new]
          recorded := by simp [Call.new]
          fresh := by simp [Call.new, Call.pending]
          delivered := by simp [Call.new]
          leftFull := by simp [Call.new] }
  · rw [List.pairwise_append]
    refine ⟨h.apart, List.pairwise_singleton _ _, ?_⟩
    intro c _ d hd m _ n hn
    rw [List.mem_singleton.mp hd] at hn
    cases hn

theorem groupKept_step {s next : GroupMails} {event : GroupEvent} (h : GroupKept s)
    (hcareful : GroupCareful s event) (hstep : groupStep s event = some next) :
    GroupKept next := by
  cases event with
  | start lv pid now =>
      cases hstep
      exact h.start lv pid now
  | advance i time => exact groupKept_advance h hcareful hstep
  | addMail m =>
      cases hstep
      exact h.ofMails _ (put_nodup h.ids_nodup _)
  | updateMail m =>
      cases hstep
      exact h.ofMails _ (put_nodup h.ids_nodup m)
  | delMail id =>
      cases hstep
      exact h.ofMails _ (h.ids_nodup.sublist (List.filter_sublist.map _))
  | operate operation =>
      dsimp only [groupStep] at hstep
      split at hstep
      · cases hstep
      · cases hstep
        exact ⟨h.ids_nodup, h.acquired, h.read, h.call, h.apart⟩

/-- In every run in which the calls meet the condition, the mails are delivered as they
should be. -/
theorem deliveredRight_of_run {zone : Int} {events : List GroupEvent} {s : GroupMails}
    (hrun : Run groupStep GroupCareful (.new zone) events s) : DeliveredRight s := by
  have hkept : GroupKept s :=
    hrun.invariant (groupKept_new zone) fun _ _ _ h hcareful hstep =>
      groupKept_step h hcareful hstep
  exact hkept.deliveredRight

/-- A published mail for everybody. -/
def notice (id : Nat) (sendType : String) : GroupMail where
  id := id
  published := some 1
  minLv := some 1
  maxLv := some 70
  startTime := some 0
  endTime := some 1000
  zones := some .all
  toPid := some .all
  type := "system"
  sendType := some sendType
  subType := some "gift"

/-- Two mails are published, and a call delivers both; a second call has nothing to do. -/
def deliveredBoth : List GroupEvent :=
  [.addMail (notice 0 "all_mail"), .addMail (notice 0 typePermanent),
    .updateMail (notice 1 "all_mail"), .updateMail (notice 2 typePermanent), .start 5 "i1" 10] ++
    List.replicate 9 (.advance 0 10) ++
    [.operate (.setRead 1 "system" "specify_mail"), .start 5 "i1" 20] ++
    List.replicate 3 (.advance 1 20)

theorem deliveredRight_deliveredBoth :
    DeliveredRight ((exec groupStep GroupCareful (.new 1) deliveredBoth).getD (.new 1)) := by
  have hrun : Run groupStep GroupCareful (.new 1) deliveredBoth
      ((exec groupStep GroupCareful (.new 1) deliveredBoth).getD (.new 1)) :=
    run_exec_getD (GroupMails.new 1) (by decide +kernel)
  exact deliveredRight_of_run hrun

/-- Two calls make their lists before either has recorded anything. -/
def overlapping : List GroupEvent :=
  [.updateMail (notice 1 "all_mail"), .start 5 "i1" 10, .start 5 "i1" 10, .advance 0 10,
    .advance 1 10, .advance 0 10, .advance 1 10, .advance 0 10, .advance 1 10, .advance 0 10,
    .advance 1 10]

theorem not_deliveredRight_overlapping :
    Run groupStep free (.new 1) overlapping
        ((exec groupStep free (.new 1) overlapping).getD (.new 1)) ∧
      ¬ DeliveredRight ((exec groupStep free (.new 1) overlapping).getD (.new 1)) := by
  refine ⟨run_exec_getD (GroupMails.new 1) (by decide +kernel), ?_⟩
  intro hright
  have honce := hright.once
  revert honce
  decide +kernel

/-- A single call delivers two mails. -/
def tenBeforeTwo : List GroupEvent :=
  [.updateMail (notice 2 "all_mail"), .updateMail (notice 10 "all_mail"), .start 5 "i1" 10] ++
    List.replicate 9 (.advance 0 10)

/-- Also without another call at the same time the order can be wrong. -/
theorem not_deliveredRight_tenBeforeTwo :
    Run groupStep free (.new 1) tenBeforeTwo
        ((exec groupStep free (.new 1) tenBeforeTwo).getD (.new 1)) ∧
      ¬ DeliveredRight ((exec groupStep free (.new 1) tenBeforeTwo).getD (.new 1)) := by
  refine ⟨run_exec_getD (GroupMails.new 1) (by decide +kernel), ?_⟩
  intro hright
  have hordered := hright.ordered
  revert hordered
  decide +kernel

end Mail
end ArmyRs
