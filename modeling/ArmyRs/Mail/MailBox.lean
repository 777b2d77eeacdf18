import Mathlib.Tactic

/-!
# The mail box of a player

`MailBox` keeps the mails of a player in Redis: one list for each type, newest
first, and for each type two hashes with the ids of the mails that have not been
read and of those that have not been redeemed.  A mark is one for "not yet" and
zero for "done".

Permanent mails are kept under a type of their own, `system_permanent`, and are
shown under the type `system`.  The requests name the type and the send type of
a mail themselves.
-/

namespace ArmyRs
namespace Mail

/-- `LIMIT`. -/
def limit : Nat := 30

/-- `EXPIRED_TIME`, in days. -/
def expiredTime : Nat := 30

/-- `GroupMailDb::TYPE_PERMANENT`. -/
def typePermanent : String := "permanent_mail"

/-- An attachment: the type of an item and how many. -/
structure Thing where
  params1 : String
  params2 : Int
  deriving DecidableEq, Repr

/-- A `MailMessage`, as far as redeeming reads it.  `things` is missing when the
content has none. -/
structure MailMessage where
  id : Nat
  time : Nat
  reason : Option String
  things : Option (List Thing)
  deriving DecidableEq, Repr

/-- The keys of a player: `mail_id`, and for each type `mail`, `mail_read` and
`mail_redeem`. -/
structure MailBox where
  lastId : Nat
  mails : String → List MailMessage
  readMarks : String → Nat → Option Nat
  redeemMarks : String → Nat → Option Nat

def MailBox.new : MailBox where
  lastId := 0
  mails := fun _ => []
  readMarks := fun _ _ => none
  redeemMarks := fun _ _ => none

/-- The type under which a mail is kept. -/
def keptType (mailType sendType : String) : String :=
  if sendType = typePermanent then "system_permanent" else mailType

/-- `hset`. -/
def hset (marks : String → Nat → Option Nat) (type : String) (id value : Nat) :
    String → Nat → Option Nat :=
  Function.update marks type (Function.update (marks type) id (some value))

/-- `hdel` of the ids of some mails. -/
def hdelAll (marks : String → Nat → Option Nat) (type : String) (mails : List MailMessage) :
    String → Nat → Option Nat :=
  Function.update marks type fun id =>
    if id ∈ mails.map MailMessage.id then none else marks type id

/-- The script `ADD_MAIL`: the mail is pushed and marked, and the oldest mails
are popped and unmarked until the list is within the limit. -/
def MailBox.addMail (box : MailBox) (type : String) (mail : MailMessage) : MailBox :=
  let mails := mail :: box.mails type
  let popped := mails.drop limit
  { box with
    mails := Function.update box.mails type (mails.take limit)
    readMarks := hdelAll (hset box.readMarks type mail.id 1) type popped
    redeemMarks := hdelAll (hset box.redeemMarks type mail.id 1) type popped }

/-- `deliver` of a mail with the next id. -/
def MailBox.deliver (box : MailBox) (now : Nat) (mailType sendType : String)
    (reason : Option String) (things : Option (List Thing)) : MailBox :=
  let id := box.lastId + 1
  { box with lastId := id }.addMail (keptType mailType sendType) ⟨id, now, reason, things⟩

/-- `read_mails`. -/
def MailBox.readMails (box : MailBox) (type : String) : List MailMessage :=
  if type = "system" then
    (box.mails type).take (limit + 1) ++ (box.mails "system_permanent").take (limit + 1)
  else (box.mails type).take (limit + 1)

/-- `read_mail`: the last mail of the type with the id. -/
def MailBox.readMail (box : MailBox) (mailId : Nat) (mailType sendType : String) :
    Option MailMessage :=
  ((box.readMails (keptType mailType sendType)).filter fun m => m.id = mailId).getLast?

/-- `mail_expired`. -/
def MailBox.mailExpired (box : MailBox) (now : Nat) (mailType : String) (mailId : Nat) : Bool :=
  (box.readMails mailType).any fun m =>
    decide (m.id = mailId) && decide (m.time + 60 * 60 * 24 * expiredTime < now)

/-- `set_redeem`. -/
def MailBox.setRedeem (box : MailBox) (mailId : Nat) (mailType sendType : String) : MailBox :=
  { box with
    readMarks := hset box.readMarks (keptType mailType sendType) mailId 0
    redeemMarks := hset box.redeemMarks (keptType mailType sendType) mailId 0 }

/-- The marks that are shown for a type.  For system mails the marks of the
permanent mails are merged over those of the others. -/
def shownMarks (marks : String → Nat → Option Nat) (type : String) : Nat → Option Nat :=
  if type = "system" then fun id => (marks "system_permanent" id).or (marks type id)
  else marks type

/-- `read_infos`. -/
def MailBox.readInfos (box : MailBox) : String → Nat → Option Nat := shownMarks box.readMarks

/-- `redeem_infos`. -/
def MailBox.redeemInfos (box : MailBox) : String → Nat → Option Nat := shownMarks box.redeemMarks

end Mail
end ArmyRs
