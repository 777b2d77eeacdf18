import ArmyRs.Foundation.Queues
import ArmyRs.Foundation.RedisLists
import ArmyRs.Foundation.Transition
import ArmyRs.Mail.MailBox

/-!
# The keys of a mail box

All the Redis keys of a player's mails: for each type the list of the mails and
the two hashes of marks, and for each sub type a count of all its mails.  A mail is
stored with its type, and removing it from its list is by its whole text, as the
list was read.

`types` lists the types that a mail was delivered under.
-/

namespace ArmyRs
namespace Mail

open Foundation

/-- A mail as it is stored. -/
structure StoredMail where
  id : Nat
  type : String
  subType : Option String
  time : Nat
  deriving DecidableEq, Repr

/-- The keys `mail_id`, `mail`, `mail_read`, `mail_redeem` and
`mail_sub_type_total_count` of a player. -/
structure MailStore where
  lastId : Nat
  types : List String
  mails : String → List StoredMail
  readMarks : String → Nat → Option Nat
  redeemMarks : String → Nat → Option Nat
  totals : String → Int

def MailStore.new : MailStore where
  lastId := 0
  types := []
  mails := fun _ => []
  readMarks := fun _ _ => none
  redeemMarks := fun _ _ => none
  totals := fun _ => 0

/-- The sub type that a mail is counted under. -/
def countedAs (subType : Option String) : String :=
  subType.getD "normal"

/-- `hdel`. -/
def hdel (marks : String → Nat → Option Nat) (type : String) (id : Nat) :
    String → Nat → Option Nat :=
  Function.update marks type (Function.update (marks type) id none)

namespace MailStore

/-- `incr` and `decr` of a count. -/
def addTotal (store : MailStore) (subType : String) (change : Int) : MailStore :=
  { store with totals := Function.update store.totals subType (store.totals subType + change) }

/-- The loop of `ADD_MAIL` that pops the oldest mails, so many times.  The count that
is lowered is that of the new mail. -/
def popOldest (type subType : String) : Nat → MailStore → MailStore
  | 0, store => store
  | excess + 1, store =>
      match (store.mails type).getLast? with
      | none => store
      | some m =>
          popOldest type subType excess
            (addTotal
              { store with
                mails := Function.update store.mails type (store.mails type).dropLast
                readMarks := hdel store.readMarks type m.id
                redeemMarks := hdel store.redeemMarks type m.id }
              subType (-1))

/-- `ADD_MAIL`. -/
def addMail (store : MailStore) (type subType : String) (mail : StoredMail) : MailStore :=
  let pushed :=
    addTotal
      { store with
        types := if type ∈ store.types then store.types else type :: store.types
        mails := Function.update store.mails type (mail :: store.mails type)
        readMarks := hset store.readMarks type mail.id 1
        redeemMarks := hset store.redeemMarks type mail.id 1 }
      subType 1
  popOldest type subType ((pushed.mails type).length - limit) pushed

/-- `deliver`. -/
def deliver (store : MailStore) (now : Nat) (mailType sendType : String)
    (subType : Option String) : MailStore :=
  let type := keptType mailType sendType
  let id := store.lastId + 1
  { store with lastId := id }.addMail type (countedAs subType) ⟨id, type, subType, now⟩

/-- `read_mails`: permanent mails are shown with the type of system mails. -/
def readMails (store : MailStore) (type : String) : List StoredMail :=
  if type = "system" then
    (store.mails type).take (limit + 1) ++
      ((store.mails "system_permanent").take (limit + 1)).map fun m => { m with type := "system" }
  else (store.mails type).take (limit + 1)

/-- The body of `remove` for the mail that is found. -/
def removeFound (store : MailStore) (type : String) (m : StoredMail) : MailStore :=
  let store :=
    { store with mails := Function.update store.mails type (lrem 1 m (store.mails type)) }
  let store :=
    match m.subType with
    | none => store
    | some subType => store.addTotal subType (-1)
  { store with
    readMarks := hdel store.readMarks type m.id
    redeemMarks := hdel store.redeemMarks type m.id }

/-- `remove`. -/
def remove (store : MailStore) (mailId : Nat) (mailType sendType : String) : MailStore :=
  let type := keptType mailType sendType
  match (store.readMails type).find? fun m => m.id = mailId with
  | none => store
  | some m => store.removeFound type m

/-- `set_read`. -/
def setRead (store : MailStore) (mailId : Nat) (mailType sendType : String) : MailStore :=
  { store with readMarks := hset store.readMarks (keptType mailType sendType) mailId 0 }

/-- `set_redeem`. -/
def setRedeem (store : MailStore) (mailId : Nat) (mailType sendType : String) : MailStore :=
  { store with
    readMarks := hset store.readMarks (keptType mailType sendType) mailId 0
    redeemMarks := hset store.redeemMarks (keptType mailType sendType) mailId 0 }

/-- A mail has been there for too long. -/
def isExpired (now : Nat) (m : StoredMail) : Bool :=
  decide (m.time + 60 * 60 * 24 * expiredTime < now)

/-- The loop of `expired`. -/
def removeExpired (now : Nat) (mailType : String) : List StoredMail → MailStore → MailStore
  | [], store => store
  | m :: mails, store =>
      if isExpired now m then
        removeExpired now mailType mails (store.remove m.id mailType "all_mail")
      else removeExpired now mailType mails store

/-- `expired`. -/
def expired (store : MailStore) (now : Nat) (mailType : String) : MailStore :=
  removeExpired now mailType (store.readMails mailType) store

end MailStore

/-! ## Operations -/

inductive Operation
  | deliver (now : Nat) (mailType sendType : String) (subType : Option String)
  | setRead (mailId : Nat) (mailType sendType : String)
  | setRedeem (mailId : Nat) (mailType sendType : String)
  | remove (mailId : Nat) (mailType sendType : String)
  | expired (now : Nat) (mailType : String)
  deriving DecidableEq, Repr

def operate (store : MailStore) : Operation → Option MailStore
  | .deliver now mailType sendType subType => some (store.deliver now mailType sendType subType)
  | .setRead mailId mailType sendType => some (store.setRead mailId mailType sendType)
  | .setRedeem mailId mailType sendType => some (store.setRedeem mailId mailType sendType)
  | .remove mailId mailType sendType => some (store.remove mailId mailType sendType)
  | .expired now mailType => some (store.expired now mailType)

end Mail
end ArmyRs
