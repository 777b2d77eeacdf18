import ArmyRs.Foundation.Parties
import ArmyRs.Mail.MailStore
import Mathlib.Data.Char
import Mathlib.Data.List.Lex
import Mathlib.Data.List.Sort

/-!
# Group mails

`GroupMailDb` keeps the mails that are meant for many players, and
`update_group_mails` delivers those that a player is to have and has not acquired
yet.  A call reads the ids that are recorded as acquired, then the group mails,
and works through its own list; every command it sends to Redis is a step of its
own, and what happens in between is up to the other calls, to whoever maintains the
group mails and to all other operations on the box.
-/

namespace ArmyRs
namespace Mail

open Foundation

/-- `'all'`, or a list of those who are meant. -/
inductive Targets (α : Type)
  | all
  | only (list : List α)
  deriving DecidableEq, Repr

/-- A group mail, with the fields that decide who gets it and where it is kept. -/
structure GroupMail where
  id : Nat
  published : Option Int
  minLv : Option Int
  maxLv : Option Int
  startTime : Option Int
  endTime : Option Int
  zones : Option (Targets Int)
  toPid : Option (Targets String)
  type : String
  sendType : Option String
  subType : Option String
  deriving DecidableEq, Repr

/-- `to_i` of a value that may be missing. -/
def toI (value : Option Int) : Int :=
  value.getD 0

/-- `targets and targets != 'all' and not targets.include?(target)`. -/
def excludes {α : Type} [DecidableEq α] (targets : Option (Targets α)) (target : α) : Bool :=
  match targets with
  | none => false
  | some .all => false
  | some (.only list) => decide (target ∉ list)

/-- `mail.send_type`, as `deliver` sets it when it is missing. -/
def GroupMail.sendTypeGiven (m : GroupMail) : String :=
  m.sendType.getD "specify_mail"

/-- The type that the mail is kept under. -/
def GroupMail.keptType (m : GroupMail) : String :=
  Mail.keptType m.type m.sendTypeGiven

/-- An id as the string that it is stored as. -/
def idText (id : Nat) : List Char :=
  Nat.toDigits 10 id

/-! ## A call -/

/-- Where a call of `update_group_mails` is. -/
inductive Stage
  | reading
  | listing
  | checking (mails : List GroupMail)
  | delivering (m : GroupMail) (mails : List GroupMail)
  | recording (m : GroupMail) (mails : List GroupMail)
  | finished
  /-- The loop was left before the first of these mails; the box is as it was then. -/
  | left (mails : List GroupMail) (box : MailStore)

/-- A call: `lv`, `pid` and `now`, what it has read (`ids` and `mails`), and
`deliver_mails`. -/
structure Call where
  lv : Int
  pid : String
  now : Int
  ids : List Nat
  mails : List GroupMail
  deliverMails : List GroupMail
  stage : Stage

def Call.new (lv : Int) (pid : String) (now : Int) : Call where
  lv := lv
  pid := pid
  now := now
  ids := []
  mails := []
  deliverMails := []
  stage := .reading

/-- The condition of `delete_if`, apart from the mail's being acquired. -/
def Call.unfit (c : Call) (zone : Int) (x : GroupMail) : Bool :=
  x.published.isNone || decide (toI x.published = 0) || decide (c.lv < toI x.minLv) ||
    decide (toI x.maxLv < c.lv) ||
    (decide (x.sendType ≠ some typePermanent) &&
      (decide (c.now < toI x.startTime) || decide (toI x.endTime < c.now))) ||
    excludes x.zones zone || excludes x.toPid c.pid

/-- The mails that a call works through: what `delete_if` leaves, sorted by id. -/
def Call.select (c : Call) (zone : Int) (mails : List GroupMail) : List GroupMail :=
  (mails.filter fun x => !(c.unfit zone x || decide (x.id ∈ c.ids))).insertionSort
    fun a b => idText a.id ≤ idText b.id

/-! ## The state -/

/-- The keys of one user in a zone, the group mails and the calls. -/
structure GroupMails where
  zone : Int
  lastId : Nat
  groupMails : List GroupMail
  store : MailStore
  acquired : List Nat
  calls : List Call

def GroupMails.new (zone : Int) : GroupMails where
  zone := zone
  lastId := 0
  groupMails := []
  store := .new
  acquired := []
  calls := []

/-- `mail_box_full`. -/
def MailStore.full (store : MailStore) (type : String) : Bool :=
  decide (limit ≤ (store.mails type).length)

namespace GroupMails

/-- A call moves on. -/
def goTo (s : GroupMails) (i : Nat) (c : Call) : GroupMails :=
  { s with calls := s.calls.set i c }

/-- A call sends its next command. -/
def advance (s : GroupMails) (i : Nat) (time : Nat) : Option GroupMails :=
  match s.calls[i]? with
  | none => none
  | some c =>
      match c.stage with
      | .reading => some (s.goTo i { c with ids := s.acquired, stage := .listing })
      | .listing =>
          some (s.goTo i
            { c with mails := s.groupMails, stage := .checking (c.select s.zone s.groupMails) })
      | .checking [] => some (s.goTo i { c with stage := .finished })
      | .checking (m :: mails) =>
          if s.store.full m.type then
            some (s.goTo i { c with stage := .left (m :: mails) s.store })
          else some (s.goTo i { c with stage := .delivering m mails })
      | .delivering m mails =>
          some ({ s with
            store := s.store.deliver time m.type m.sendTypeGiven m.subType }.goTo i
              { c with deliverMails := c.deliverMails ++ [m], stage := .recording m mails })
      | .recording m mails =>
          some ({ s with acquired := s.acquired.insert m.id }.goTo i
            { c with stage := .checking mails })
      | .finished => none
      | .left _ _ => none

end GroupMails

inductive GroupEvent
  | start (lv : Int) (pid : String) (now : Int)
  | advance (call : Nat) (time : Nat)
  | addMail (m : GroupMail)
  | updateMail (m : GroupMail)
  | delMail (id : Nat)
  | operate (operation : Operation)
  deriving DecidableEq, Repr

/-- The calls, `add_mail`, `update_mail`, `del_mail` and the other operations on the box. -/
def groupStep (s : GroupMails) : GroupEvent → Option GroupMails
  | .start lv pid now => some { s with calls := s.calls ++ [.new lv pid now] }
  | .advance i time => s.advance i time
  | .addMail m =>
      some { s with
        lastId := s.lastId + 1
        groupMails :=
          put GroupMail.id { m with id := s.lastId + 1, published := none } s.groupMails }
  | .updateMail m => some { s with groupMails := put GroupMail.id m s.groupMails }
  | .delMail id => some { s with groupMails := s.groupMails.filter fun m => m.id ≠ id }
  | .operate operation =>
      match Mail.operate s.store operation with
      | none => none
      | some store => some { s with store := store }

end Mail
end ArmyRs
