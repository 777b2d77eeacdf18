import ArmyRs.Mail.RedeemItems

/-!
# Each mail is redeemed once

The handler looks for redeemed mails in what `redeem_infos` shows for system
mails before the request, and `set_redeem` marks a mail under the type and the
send type of the request.  A mark can stay unseen: when the mail is named a
second time in the same request, when its type is not a system type, and when a
permanent mail is named without its send type, since then the mark of the
permanent mail is merged over it.

`Careful` requests are those that do not redeem a mail in the presence of an
unseen mark.  In runs of careful requests no mail is granted twice
(`once_of_run`).
-/

namespace ArmyRs
namespace Mail

open Foundation

variable {Instance : Type*} {addBonus : Instance → String → Int → String → Instance × Bonus}
  {now : Nat} {redeemList : Nat → Option Nat} {box : MailBox} {type : String} {id : Nat}
  {s : Redeeming Instance} {info : MailInfo}

/-! ## Mails and marks -/

/-- The mail has been marked as redeemed, under any type. -/
def MailBox.Marked (box : MailBox) (id : Nat) : Prop := ∃ type, box.redeemMarks type id = some 0

/-- The mail is in the box. -/
def MailBox.Keeps (box : MailBox) (type : String) (id : Nat) : Prop :=
  ∃ mail ∈ box.mails type, mail.id = id

theorem MailBox.keeps_of_readMails {mail : MailMessage} (h : mail ∈ box.readMails type) :
    ∃ kept, box.Keeps kept mail.id := by
  unfold MailBox.readMails at h
  split at h
  · rcases List.mem_append.mp h with h | h
    · exact ⟨type, mail, List.mem_of_mem_take h, rfl⟩
    · exact ⟨"system_permanent", mail, List.mem_of_mem_take h, rfl⟩
  · exact ⟨type, mail, List.mem_of_mem_take h, rfl⟩

/-- The condition under which the loop gives the things of a mail. -/
def MailBox.grantable (box : MailBox) (now : Nat) (redeemList : Nat → Option Nat)
    (info : MailInfo) : Bool :=
  ((box.readMails info.mailType).any fun m => m.id = info.mailId) &&
    decide (redeemList info.mailId ≠ some 0) &&
    !box.mailExpired now info.mailType info.mailId &&
    ((box.readMail info.mailId info.mailType info.sendType).any fun ms2 =>
      ms2.things.any fun things => !things.isEmpty)

/-- The mails stay where they are. -/
structure MailBox.SameMails (box next : MailBox) : Prop where
  mails : next.mails = box.mails
  lastId : next.lastId = box.lastId

theorem MailBox.SameMails.refl (box : MailBox) : box.SameMails box := ⟨rfl, rfl⟩

theorem MailBox.SameMails.trans {middle next : MailBox} (h : box.SameMails middle)
    (h' : middle.SameMails next) : box.SameMails next :=
  ⟨h'.mails.trans h.mails, h'.lastId.trans h.lastId⟩

theorem MailBox.SameMails.grantable {next : MailBox} (h : box.SameMails next) :
    next.grantable now redeemList = box.grantable now redeemList := by
  funext info
  unfold MailBox.grantable MailBox.mailExpired MailBox.readMail MailBox.readMails
  rw [h.mails]

theorem MailBox.sameMails_setRedeem (box : MailBox) (mailId : Nat) (mailType sendType : String) :
    box.SameMails (box.setRedeem mailId mailType sendType) := ⟨rfl, rfl⟩

theorem MailBox.marked_setRedeem (box : MailBox) (mailId : Nat) (mailType sendType : String) :
    (box.setRedeem mailId mailType sendType).Marked id ↔ box.Marked id ∨ id = mailId := by
  have hmark : ∀ type, (box.setRedeem mailId mailType sendType).redeemMarks type id =
      if type = keptType mailType sendType ∧ id = mailId then some 0
      else box.redeemMarks type id := by
    intro type
    unfold MailBox.setRedeem hset
    dsimp only
    by_cases htype : type = keptType mailType sendType
    · subst htype
      by_cases hid : id = mailId
      · simp [hid]
      · simp [hid]
    · simp [htype]
  constructor
  · rintro ⟨type, hzero⟩
    rw [hmark] at hzero
    split at hzero
    · next h => exact Or.inr h.2
    · exact Or.inl ⟨type, hzero⟩
  · rintro (⟨type, hzero⟩ | rfl)
    · refine ⟨type, ?_⟩
      rw [hmark]
      split
      · rfl
      · exact hzero
    · refine ⟨keptType mailType sendType, ?_⟩
      rw [hmark, if_pos ⟨rfl, rfl⟩]

/-! ## The loop -/

/-- Giving things changes neither the mails nor the record. -/
theorem giveThings_box (things : List Thing) (s : Redeeming Instance) :
    (giveThings addBonus things s).2.box = s.box ∧
      (giveThings addBonus things s).2.granted = s.granted := by
  induction things generalizing s with
  | nil => exact ⟨rfl, rfl⟩
  | cons thing things ih =>
      unfold giveThings
      dsimp only
      split
      · exact ih _
      · exact ih _
      · exact ⟨rfl, rfl⟩

/-- The mails that a list of entries grants. -/
def MailBox.grants (box : MailBox) (now : Nat) (redeemList : Nat → Option Nat)
    (infos : List MailInfo) : List Nat :=
  (infos.filter (box.grantable now redeemList)).map MailInfo.mailId

theorem MailBox.grants_cons (box : MailBox) (info : MailInfo) (infos : List MailInfo) :
    box.grants now redeemList (info :: infos) =
      box.grants now redeemList [info] ++ box.grants now redeemList infos := by
  unfold MailBox.grants
  rw [← List.map_append, ← List.filter_append]
  rfl

theorem MailBox.SameMails.grants {next : MailBox} (h : box.SameMails next)
    (infos : List MailInfo) :
    next.grants now redeemList infos = box.grants now redeemList infos := by
  unfold MailBox.grants
  rw [h.grantable]

/-- The mails in `ids` have been granted: they are recorded and marked, and
nothing else changes in the box. -/
structure Redeeming.Grants (s next : Redeeming Instance) (ids : List Nat) : Prop where
  same : s.box.SameMails next.box
  granted : next.granted = s.granted ++ ids
  marked : ∀ id, next.box.Marked id ↔ s.box.Marked id ∨ id ∈ ids

theorem Redeeming.Grants.trans {s middle next : Redeeming Instance} {ids others : List Nat}
    (h : s.Grants middle ids) (h' : middle.Grants next others) :
    s.Grants next (ids ++ others) where
  same := h.same.trans h'.same
  granted := by rw [h'.granted, h.granted, List.append_assoc]
  marked := fun id => by rw [h'.marked, h.marked, List.mem_append, or_assoc]

/-- An entry of the list grants its mail when that is grantable. -/
theorem redeemOne_grants (s : Redeeming Instance) (info : MailInfo) :
    s.Grants (redeemOne addBonus now redeemList s info).2 (s.box.grants now redeemList [info]) := by
  have hnothing : s.box.grantable now redeemList info = false → ∀ r : Redeeming Instance,
      r.box = s.box → r.granted = s.granted → s.Grants r (s.box.grants now redeemList [info]) := by
    intro hno r hbox hgranted
    have hnone : s.box.grants now redeemList [info] = [] := by
      unfold MailBox.grants
      rw [List.filter_cons_of_neg (by simp [hno])]
      rfl
    rw [hnone]
    exact
      { same := by
          rw [hbox]
          exact .refl _
        granted := hgranted.trans (List.append_nil _).symm
        marked := fun id => by simp [hbox] }
  unfold redeemOne
  split
  · next hfound =>
    split
    · next hunmarked =>
      split
      · next hexpired =>
        exact hnothing (by simp [MailBox.grantable, hexpired]) _ rfl rfl
      · next hcurrent =>
        split
        · next hnone => exact hnothing (by simp [MailBox.grantable, hnone]) _ rfl rfl
        · next ms2 hmail =>
          split
          · next hthings => exact hnothing (by simp [MailBox.grantable, hmail, hthings]) _ rfl rfl
          · next hthings => exact hnothing (by simp [MailBox.grantable, hmail, hthings]) _ rfl rfl
          · next thing things hthings =>
            have hgrantable : s.box.grantable now redeemList info = true := by
              unfold MailBox.grantable
              rw [hfound, hmail]
              simp [hunmarked, hcurrent, hthings]
            have hone : s.box.grants now redeemList [info] = [info.mailId] := by
              unfold MailBox.grants
              rw [List.filter_cons_of_pos hgrantable]
              rfl
            -- the things are given after the mail has been marked and recorded
            have hgiven : ∀ r : Redeeming Instance,
                r.box = s.box.setRedeem info.mailId info.mailType info.sendType →
                r.granted = s.granted ++ [info.mailId] →
                s.Grants r (s.box.grants now redeemList [info]) := by
              intro r hbox hgranted
              rw [hone]
              exact
                { same := by
                    rw [hbox]
                    exact s.box.sameMails_setRedeem _ _ _
                  granted := hgranted
                  marked := fun id => by rw [hbox, MailBox.marked_setRedeem, List.mem_singleton] }
            dsimp only
            split
            · exact hgiven _ (giveThings_box _ _).1 (giveThings_box _ _).2
            · exact hgiven _ (giveThings_box _ _).1 (giveThings_box _ _).2
    · next hmarked => exact hnothing (by simp [MailBox.grantable, hmarked]) _ rfl rfl
  · next habsent => exact hnothing (by simp [MailBox.grantable, habsent]) _ rfl rfl

/-- The loop grants the mails of the entries it comes to. -/
theorem redeemEach_grants (infos : List MailInfo) (s : Redeeming Instance) :
    ∃ processed, processed <+: infos ∧
      ((redeemEach addBonus now redeemList infos s).1 = none → processed = infos) ∧
      s.Grants (redeemEach addBonus now redeemList infos s).2
        (s.box.grants now redeemList processed) := by
  induction infos generalizing s with
  | nil =>
      exact ⟨[], List.prefix_refl [], fun _ => rfl, .refl _, (List.append_nil _).symm,
        by simp [redeemEach, MailBox.grants]⟩
  | cons info infos ih =>
      have hone := @redeemOne_grants _ addBonus now redeemList s info
      unfold redeemEach
      dsimp only
      split
      · -- the loop is left here
        exact ⟨[info], List.prefix_iff_eq_take.mpr rfl, fun h => (by cases h), hone⟩
      · obtain ⟨processed, hpre, hall, hrest⟩ :=
          ih (redeemOne addBonus now redeemList s info).2
        rw [hone.same.grants] at hrest
        refine ⟨info :: processed, List.cons_prefix_cons.mpr ⟨rfl, hpre⟩,
          fun h => congrArg _ (hall h), ?_⟩
        rw [MailBox.grants_cons]
        exact hone.trans hrest

/-! ## Requests -/

variable {player next : Player Instance}

/-- A request that redeems each mail once, and none that has been marked. -/
def Careful (player : Player Instance) : Event → Prop
  | .deliver _ _ _ _ _ => True
  | .redeemItems now mailIds =>
      (player.box.grants now (player.box.redeemInfos "system") mailIds).Nodup ∧
        ∀ id ∈ player.box.grants now (player.box.redeemInfos "system") mailIds,
          ¬ player.box.Marked id

/-- The mails in `ids` have been granted to the player. -/
structure Player.Grants (player next : Player Instance) (ids : List Nat) : Prop where
  same : player.box.SameMails next.box
  granted : next.granted = player.granted ++ ids
  marked : ∀ id, next.box.Marked id ↔ player.box.Marked id ∨ id ∈ ids

/-- A request grants some of the grantable mails of its list, and all of them when
it succeeds. -/
theorem doProcess_grants (player : Player Instance) (mailIds : List MailInfo) :
    ∃ ids, ids.Sublist (player.box.grants now (player.box.redeemInfos "system") mailIds) ∧
      ((doProcess addBonus now mailIds player).1.succeeded = true →
        ids = player.box.grants now (player.box.redeemInfos "system") mailIds) ∧
      player.Grants (doProcess addBonus now mailIds player).2 ids := by
  obtain ⟨processed, hpre, hall, hgrants⟩ :=
    @redeemEach_grants _ addBonus now (player.box.redeemInfos "system") mailIds
      { box := player.box
        instance_ := player.instance_
        bonuses := []
        reason := "mail_bonus"
        setTypes := []
        granted := player.granted }
  refine ⟨player.box.grants now (player.box.redeemInfos "system") processed, ?_, ?_,
    hgrants.same, hgrants.granted, hgrants.marked⟩
  · exact (hpre.sublist.filter _).map _
  · intro hsuccess
    have hnone : (redeemEach addBonus now (player.box.redeemInfos "system") mailIds
        { box := player.box
          instance_ := player.instance_
          bonuses := []
          reason := "mail_bonus"
          setTypes := []
          granted := player.granted }).1 = none := by
      unfold doProcess at hsuccess
      dsimp only at hsuccess
      split at hsuccess
      · cases hsuccess
      · cases hsuccess
      · next hnone => exact hnone
    rw [hall hnone]

/-- A grantable mail is in the box. -/
theorem MailBox.keeps_of_grants {infos : List MailInfo}
    (h : id ∈ box.grants now redeemList infos) : ∃ type, box.Keeps type id := by
  unfold MailBox.grants at h
  obtain ⟨info, hinfo, rfl⟩ := List.mem_map.mp h
  have hgrantable := (List.mem_filter.mp hinfo).2
  unfold MailBox.grantable at hgrantable
  simp only [Bool.and_eq_true, List.any_eq_true, decide_eq_true_eq] at hgrantable
  obtain ⟨mail, hmail, hid⟩ := hgrantable.1.1.1
  rw [← hid]
  exact MailBox.keeps_of_readMails hmail

/-! ## All runs -/

/-- The ids of the mails are fresh, and a mail that is still in the box is marked
exactly when it has been granted. -/
structure Player.Sound (player : Player Instance) : Prop where
  bounded : ∀ type id, player.box.Keeps type id → id ≤ player.box.lastId
  nodup : ∀ type, ((player.box.mails type).map MailMessage.id).Nodup
  unique : ∀ type other id, player.box.Keeps type id → player.box.Keeps other id → type = other
  once : player.granted.Nodup
  grantedBounded : ∀ id ∈ player.granted, id ≤ player.box.lastId
  granted : ∀ id, player.box.Marked id → id ∈ player.granted
  marked : ∀ id ∈ player.granted, ∀ type, player.box.Keeps type id → player.box.Marked id

theorem sound_new (instance_ : Instance) : (Player.new instance_).Sound where
  bounded := by
    rintro type id ⟨mail, hmail, -⟩
    cases hmail
  nodup := fun _ => List.nodup_nil
  unique := by
    rintro type other id ⟨mail, hmail, -⟩
    cases hmail
  once := List.nodup_nil
  grantedBounded := fun _ h => (by cases h)
  granted := by
    rintro id ⟨type, hzero⟩
    cases hzero
  marked := fun _ h => (by cases h)

/-- What a delivery leaves in the box. -/
theorem MailBox.keeps_deliver {mailType sendType : String} {reason : Option String}
    {things : Option (List Thing)}
    (h : (box.deliver now mailType sendType reason things).Keeps type id) :
    id = box.lastId + 1 ∧ type = keptType mailType sendType ∨ box.Keeps type id := by
  obtain ⟨mail, hmail, rfl⟩ := h
  unfold MailBox.deliver MailBox.addMail at hmail
  dsimp only at hmail
  by_cases htype : type = keptType mailType sendType
  · subst htype
    rw [Function.update_self] at hmail
    rcases List.mem_cons.mp (List.mem_of_mem_take hmail) with rfl | hold
    · exact Or.inl ⟨rfl, rfl⟩
    · exact Or.inr ⟨mail, hold, rfl⟩
  · rw [Function.update_of_ne htype] at hmail
    exact Or.inr ⟨mail, hmail, rfl⟩

/-- A delivery marks no mail as redeemed, and unmarks only mails that it pops. -/
theorem MailBox.redeemMarks_deliver (box : MailBox) (now : Nat) (mailType sendType : String)
    (reason : Option String) (things : Option (List Thing)) (type : String) (id : Nat)
    (hold : id ≤ box.lastId) :
    (box.deliver now mailType sendType reason things).redeemMarks type id =
      if type = keptType mailType sendType ∧
        id ∈ (((⟨box.lastId + 1, now, reason, things⟩ : MailMessage) ::
          box.mails (keptType mailType sendType)).drop limit).map MailMessage.id
      then none else box.redeemMarks type id := by
  unfold MailBox.deliver MailBox.addMail hdelAll hset
  dsimp only
  by_cases htype : type = keptType mailType sendType
  · subst htype
    rw [Function.update_self]
    simp only [true_and]
    split
    · rfl
    · rw [Function.update_self, Function.update_of_ne (by omega)]
  · rw [Function.update_of_ne htype, Function.update_of_ne htype, if_neg fun h => htype h.1]

theorem MailBox.marked_of_deliver {mailType sendType : String} {reason : Option String}
    {things : Option (List Thing)}
    (h : (box.deliver now mailType sendType reason things).Marked id) : box.Marked id := by
  obtain ⟨type, hzero⟩ := h
  refine ⟨type, ?_⟩
  unfold MailBox.deliver MailBox.addMail hdelAll hset at hzero
  dsimp only at hzero
  by_cases htype : type = keptType mailType sendType
  · subst htype
    rw [Function.update_self] at hzero
    split at hzero
    · cases hzero
    · rw [Function.update_self] at hzero
      by_cases hid : id = box.lastId + 1
      · rw [hid, Function.update_self] at hzero
        cases hzero
      · rwa [Function.update_of_ne hid] at hzero
  · rwa [Function.update_of_ne htype, Function.update_of_ne htype] at hzero

/-- A mail with the next id is none of the box. -/
theorem Player.Sound.nodup_cons (sound : player.Sound) (type : String) {mail : MailMessage}
    (hmail : mail.id = player.box.lastId + 1) :
    ((mail :: player.box.mails type).map MailMessage.id).Nodup := by
  refine List.nodup_cons.mpr ⟨fun hmem => ?_, sound.nodup type⟩
  obtain ⟨other, hother, hid⟩ := List.mem_map.mp hmem
  have := sound.bounded type _ ⟨other, hother, hid⟩
  omega

theorem Player.Sound.deliver (sound : player.Sound) (now : Nat) (mailType sendType : String)
    (reason : Option String) (things : Option (List Thing)) :
    Player.Sound
      { player with box := player.box.deliver now mailType sendType reason things } where
  bounded := by
    intro type id h
    show id ≤ player.box.lastId + 1
    rcases MailBox.keeps_deliver h with ⟨hid, -⟩ | hold
    · omega
    · have := sound.bounded type id hold
      omega
  nodup := by
    intro type
    unfold MailBox.deliver MailBox.addMail
    dsimp only
    by_cases htype : type = keptType mailType sendType
    · subst htype
      rw [Function.update_self]
      exact (sound.nodup_cons _ rfl).sublist ((List.take_sublist limit _).map MailMessage.id)
    · rw [Function.update_of_ne htype]
      exact sound.nodup type
  unique := by
    intro type other id h h'
    rcases MailBox.keeps_deliver h with ⟨hid, htype⟩ | hold
    · rcases MailBox.keeps_deliver h' with ⟨-, hother⟩ | hold'
      · exact htype.trans hother.symm
      · have := sound.bounded _ _ hold'
        omega
    · rcases MailBox.keeps_deliver h' with ⟨hid, -⟩ | hold'
      · have := sound.bounded _ _ hold
        omega
      · exact sound.unique type other id hold hold'
  once := sound.once
  grantedBounded := fun id hid => (sound.grantedBounded id hid).trans (Nat.le_succ _)
  granted := fun id h => sound.granted id (MailBox.marked_of_deliver h)
  marked := by
    intro id hgranted type hkeeps
    have hle := sound.grantedBounded id hgranted
    have hold : player.box.Keeps type id := by
      rcases MailBox.keeps_deliver hkeeps with ⟨hid, -⟩ | hold
      · omega
      · exact hold
    obtain ⟨marked, hzero⟩ := sound.marked id hgranted type hold
    refine ⟨marked, ?_⟩
    show (player.box.deliver now mailType sendType reason things).redeemMarks marked id = some 0
    rw [MailBox.redeemMarks_deliver _ _ _ _ _ _ _ _ hle, if_neg ?_, hzero]
    -- a popped mail is not in the box any more
    rintro ⟨-, hpopped⟩
    have hnew := @Player.Sound.nodup_cons _ _ sound (keptType mailType sendType)
      ⟨player.box.lastId + 1, now, reason, things⟩ rfl
    obtain ⟨popped, hdrop, hid⟩ := List.mem_map.mp hpopped
    have hlist : player.box.Keeps (keptType mailType sendType) id := by
      rcases List.mem_cons.mp (List.mem_of_mem_drop hdrop) with rfl | hmem
      · dsimp only at hid
        omega
      · exact ⟨popped, hmem, hid⟩
    obtain rfl := sound.unique _ _ _ hold hlist
    obtain ⟨mail, hmail, hmailId⟩ := hkeeps
    unfold MailBox.deliver MailBox.addMail at hmail
    dsimp only at hmail
    rw [Function.update_self] at hmail
    rw [← List.take_append_drop limit (_ :: _), List.map_append, List.nodup_append] at hnew
    exact hnew.2.2 _ (List.mem_map_of_mem hmail) _ (List.mem_map_of_mem hdrop)
      (hmailId.trans hid.symm)

theorem Player.Sound.redeemItems (sound : player.Sound) {ids : List Nat}
    (hgrants : player.Grants next ids) (hkept : ∀ id ∈ ids, ∃ type, player.box.Keeps type id)
    (hnodup : ids.Nodup) (hunmarked : ∀ id ∈ ids, ¬ player.box.Marked id) : next.Sound := by
  have hkeeps : next.box.Keeps = player.box.Keeps := by
    unfold MailBox.Keeps
    rw [hgrants.same.mails]
  exact
    { bounded := by
        rw [hkeeps, hgrants.same.lastId]
        exact sound.bounded
      nodup := by
        rw [hgrants.same.mails]
        exact sound.nodup
      unique := by
        rw [hkeeps]
        exact sound.unique
      once := by
        rw [hgrants.granted]
        refine List.nodup_append.mpr ⟨sound.once, hnodup, ?_⟩
        rintro id hgranted other hnew rfl
        obtain ⟨type, htype⟩ := hkept id hnew
        exact hunmarked id hnew (sound.marked id hgranted type htype)
      grantedBounded := by
        rw [hgrants.granted, hgrants.same.lastId]
        intro id hid
        rcases List.mem_append.mp hid with hold | hnew
        · exact sound.grantedBounded id hold
        · obtain ⟨type, htype⟩ := hkept id hnew
          exact sound.bounded type id htype
      granted := by
        intro id h
        rw [hgrants.granted, List.mem_append]
        exact ((hgrants.marked id).mp h).imp_left (sound.granted id)
      marked := by
        intro id hid type htype
        rw [hgrants.granted, List.mem_append] at hid
        rw [hkeeps] at htype
        rw [hgrants.marked]
        exact hid.imp_left fun hold => sound.marked id hold type htype }

theorem sound_step {event : Event} (sound : player.Sound) (hcareful : Careful player event)
    (hstep : step addBonus player event = some next) : next.Sound := by
  cases event with
  | deliver now mailType sendType reason things =>
      cases hstep
      exact sound.deliver now mailType sendType reason things
  | redeemItems now mailIds =>
      cases hstep
      obtain ⟨hnodup, hunmarked⟩ := hcareful
      obtain ⟨ids, hsub, -, hgrants⟩ := @doProcess_grants _ addBonus now player mailIds
      apply sound.redeemItems hgrants
      · exact fun id hid => MailBox.keeps_of_grants (hsub.subset hid)
      · exact hnodup.sublist hsub
      · exact fun id hid => hunmarked id (hsub.subset hid)

/-- In a run of careful requests no mail is granted twice.  And after such a run a
request that succeeds grants some mail twice exactly when it is not careful. -/
theorem once_of_run {instance_ : Instance} {events : List Event}
    (hrun : Run (step addBonus) Careful (Player.new instance_) events player) :
    player.granted.Nodup ∧
      ∀ now mailIds, (doProcess addBonus now mailIds player).1.succeeded = true →
        ((doProcess addBonus now mailIds player).2.granted.Nodup ↔
          Careful player (.redeemItems now mailIds)) := by
  have sound : player.Sound :=
    hrun.invariant (sound_new instance_) fun _ _ _ sound hcareful hstep =>
      sound_step sound hcareful hstep
  refine ⟨sound.once, fun now mailIds hsuccess => ?_⟩
  obtain ⟨ids, -, hall, hgrants⟩ := @doProcess_grants _ addBonus now player mailIds
  obtain rfl := hall hsuccess
  rw [hgrants.granted, List.nodup_append]
  constructor
  · rintro ⟨-, hnodup, hdisjoint⟩
    exact ⟨hnodup, fun id hid hmarked => hdisjoint id (sound.granted id hmarked) id hid rfl⟩
  · rintro ⟨hnodup, hunmarked⟩
    refine ⟨sound.once, hnodup, ?_⟩
    rintro id hgranted other hnew rfl
    obtain ⟨type, htype⟩ := MailBox.keeps_of_grants hnew
    exact hunmarked id hnew (sound.marked id hgranted type htype)

/-! ## A mail that is granted once -/

/-- An instance that counts the items of one kind. -/
def keepItem (total : Int) (tid : String) (count : Int) (_reason : String) : Int × Bonus :=
  (total + count, .object ⟨tid, total + count⟩)

def award : Option (List Thing) := some [⟨"ite1000002", 10⟩]

/-- The player has got a system mail. -/
def delivered : Player Int :=
  { Player.new 0 with box := MailBox.new.deliver 100 "system" "all_mail" none award }

/-- The player has redeemed it. -/
def redeemed : Player Int := (doProcess keepItem 200 [⟨1, "system", "all_mail"⟩] delivered).2

theorem redeemed_run :
    Run (step keepItem) Careful (Player.new 0)
      [.deliver 100 "system" "all_mail" none award,
        .redeemItems 200 [⟨1, "system", "all_mail"⟩]] redeemed := by
  have hunmarked : ∀ id, ¬ delivered.box.Marked id := by
    intro id hmarked
    cases ((sound_new (0 : Int)).deliver 100 "system" "all_mail" none award).granted id hmarked
  exact .snoc (.snoc .refl trivial rfl) ⟨by decide +kernel, fun id _ => hunmarked id⟩ rfl

theorem once_redeemed : redeemed.granted.Nodup := (once_of_run redeemed_run).1

/-! ## Mails that are granted twice -/

/-- The player after some events. -/
def played (events : List Event) : Player Int :=
  (exec (step keepItem) free (Player.new 0) events).getD (Player.new 0)

/-- A system mail that is named twice in one request. -/
def sameRequest : List Event :=
  [.deliver 100 "system" "all_mail" none award,
    .redeemItems 200 [⟨1, "system", "all_mail"⟩, ⟨1, "system", "all_mail"⟩]]

/-- A mail of another type that is named in two requests. -/
def otherType : List Event :=
  [.deliver 100 "message" "all_mail" none award,
    .redeemItems 200 [⟨1, "message", "all_mail"⟩], .redeemItems 300 [⟨1, "message", "all_mail"⟩]]

/-- A permanent mail that is named without its send type in two requests. -/
def permanentMail : List Event :=
  [.deliver 100 "system" "permanent_mail" none award,
    .redeemItems 200 [⟨1, "system", "all_mail"⟩], .redeemItems 300 [⟨1, "system", "all_mail"⟩]]

/-- A run of the events grants the mail twice. -/
def GrantsTwice (events : List Event) : Prop :=
  Run (step keepItem) free (Player.new 0) events (played events) ∧
    (played events).granted = [1, 1] ∧ (played events).instance_ = 20

theorem grantsTwice_of_exec {events : List Event}
    (hrun : (exec (step keepItem) free (Player.new 0) events).isSome = true)
    (hgranted : (played events).granted = [1, 1]) (hinstance : (played events).instance_ = 20) :
    GrantsTwice events :=
  ⟨run_exec_getD (Player.new 0) hrun, hgranted, hinstance⟩

theorem granted_twice :
    GrantsTwice sameRequest ∧ GrantsTwice otherType ∧ GrantsTwice permanentMail := by
  refine ⟨?_, ?_, ?_⟩
  all_goals
    apply grantsTwice_of_exec
    · decide +kernel
    · decide +kernel
    · decide +kernel

end Mail
end ArmyRs
