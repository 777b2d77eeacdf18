import ArmyRs.Foundation.Transition
import ArmyRs.Mail.MailBox

/-!
# Redeeming the attachments of mails

The request `RedeemItems` names mails with their types.  The handler reads which
mails have been redeemed once, before it goes over the list, and for each mail
that has not it marks the mail and gives its things to the player's instance.

What the instance does with a thing is a parameter, `addBonus`: it answers with
the changed instance and a `Bonus`.  `granted` records the ids of the mails whose
things were given; nothing reads it.
-/

namespace ArmyRs
namespace Mail

open Foundation

/-- An entry of `mail_ids`. -/
structure MailInfo where
  mailId : Nat
  mailType : String
  sendType : String
  deriving DecidableEq, Repr

/-- A bonus as the client gets it. -/
structure BonusHash where
  tid : String
  count : Int
  deriving DecidableEq, Repr

/-- What `add_bonus` answers. -/
inductive Bonus
  /-- An object that answers `tid`, such as an item. -/
  | object (hash : BonusHash)
  /-- The hash of a currency. -/
  | currency (tid : String)
  /-- Nothing, for an unknown thing; asking it for its `tid` raises. -/
  | unknown
  deriving DecidableEq, Repr

/-- Why the loop is left before the end of the list. -/
inductive Stop
  | ng (reason : String)
  | raised
  deriving DecidableEq, Repr

variable {Instance : Type*}

/-- The variables of the loop. -/
structure Redeeming (Instance : Type*) where
  box : MailBox
  instance_ : Instance
  bonuses : List BonusHash
  reason : String
  setTypes : List String
  granted : List Nat

/-- `b[bonus.tid] = bonus.to_hash`: a key that is there keeps its place. -/
def setBonus (bonuses : List BonusHash) (hash : BonusHash) : List BonusHash :=
  if bonuses.any fun b => b.tid = hash.tid then
    bonuses.map fun b => if b.tid = hash.tid then hash else b
  else bonuses ++ [hash]

/-- `b[bonus[:tid]]['count'] += count`. -/
def countBonus (bonuses : List BonusHash) (tid : String) (count : Int) : List BonusHash :=
  if bonuses.any fun b => b.tid = tid then
    bonuses.map fun b => if b.tid = tid then { b with count := b.count + count } else b
  else bonuses ++ [⟨tid, count⟩]

/-- The loop over the things of a mail. -/
def giveThings (addBonus : Instance → String → Int → String → Instance × Bonus) :
    List Thing → Redeeming Instance → Option Stop × Redeeming Instance
  | [], s => (none, s)
  | thing :: things, s =>
      let given := addBonus s.instance_ thing.params1 thing.params2 s.reason
      let s := { s with instance_ := given.1 }
      match given.2 with
      | .object hash =>
          giveThings addBonus things { s with bonuses := setBonus s.bonuses hash }
      | .currency tid =>
          giveThings addBonus things { s with bonuses := countBonus s.bonuses tid thing.params2 }
      | .unknown => (some .raised, s)

/-- `set_types[info.mail_type] = info.mail_type`. -/
def Redeeming.setType (s : Redeeming Instance) (type : String) : Redeeming Instance :=
  { s with setTypes := if type ∈ s.setTypes then s.setTypes else s.setTypes ++ [type] }

/-- The body of the loop over `mail_ids`.  The lists of mails do not change in
the loop, so that reading them once for each type is reading them each time. -/
def redeemOne (addBonus : Instance → String → Int → String → Instance × Bonus) (now : Nat)
    (redeemList : Nat → Option Nat) (s : Redeeming Instance) (info : MailInfo) :
    Option Stop × Redeeming Instance :=
  if (s.box.readMails info.mailType).any fun m => m.id = info.mailId then
    if redeemList info.mailId ≠ some 0 then
      if s.box.mailExpired now info.mailType info.mailId then (none, s)
      else
        match s.box.readMail info.mailId info.mailType info.sendType with
        | none => (some .raised, s)
        | some ms2 =>
            match ms2.things with
            | none => (some .raised, s)
            | some [] => (some (.ng "donot_have_bonus"), s)
            | some (thing :: things) =>
                let s :=
                  { s with
                    box := s.box.setRedeem info.mailId info.mailType info.sendType
                    reason := ms2.reason.getD s.reason
                    granted := s.granted ++ [info.mailId] }
                let given := giveThings addBonus (thing :: things) s
                match given.1 with
                | some stop => (some stop, given.2)
                | none => (none, given.2.setType info.mailType)
    else (some (.ng "have_redeem_yet"), s)
  else (none, s.setType info.mailType)

/-- The loop over `mail_ids`. -/
def redeemEach (addBonus : Instance → String → Int → String → Instance × Bonus) (now : Nat)
    (redeemList : Nat → Option Nat) :
    List MailInfo → Redeeming Instance → Option Stop × Redeeming Instance
  | [], s => (none, s)
  | info :: infos, s =>
      let one := redeemOne addBonus now redeemList s info
      match one.1 with
      | some stop => (some stop, one.2)
      | none => redeemEach addBonus now redeemList infos one.2

/-- What the client gets. -/
inductive Reply
  | ng (reason : String)
  | raised
  | success (bonuses : List BonusHash) (redeemInfos readInfos : List (String × (Nat → Option Nat)))

def Reply.succeeded : Reply → Bool
  | .success _ _ _ => true
  | _ => false

/-- A player: the mail box, the instance, and the record of the grants. -/
structure Player (Instance : Type*) where
  box : MailBox
  instance_ : Instance
  granted : List Nat

/-- `RedeemItems.do_process`. -/
def doProcess (addBonus : Instance → String → Int → String → Instance × Bonus) (now : Nat)
    (mailIds : List MailInfo) (player : Player Instance) : Reply × Player Instance :=
  let redeemList := player.box.redeemInfos "system"
  let result := redeemEach addBonus now redeemList mailIds
    { box := player.box
      instance_ := player.instance_
      bonuses := []
      reason := "mail_bonus"
      setTypes := []
      granted := player.granted }
  let s := result.2
  let reply :=
    match result.1 with
    | some (.ng reason) => .ng reason
    | some .raised => .raised
    | none =>
        if s.bonuses.length = 0 then .ng "mail_expired"
        else .success s.bonuses (s.setTypes.map fun k => (k, s.box.redeemInfos k))
          (s.setTypes.map fun k => (k, s.box.readInfos k))
  (reply, { box := s.box, instance_ := s.instance_, granted := s.granted })

/-! ## Runs -/

def Player.new (instance_ : Instance) : Player Instance where
  box := .new
  instance_ := instance_
  granted := []

inductive Event
  | deliver (now : Nat) (mailType sendType : String) (reason : Option String)
      (things : Option (List Thing))
  | redeemItems (now : Nat) (mailIds : List MailInfo)
  deriving DecidableEq, Repr

def step (addBonus : Instance → String → Int → String → Instance × Bonus)
    (player : Player Instance) : Event → Option (Player Instance)
  | .deliver now mailType sendType reason things =>
      some { player with box := player.box.deliver now mailType sendType reason things }
  | .redeemItems now mailIds => some (doProcess addBonus now mailIds player).2

end Mail
end ArmyRs
