import ArmyRs.Foundation.BinarySearch
import ArmyRs.Foundation.DirectTables
import ArmyRs.Foundation.Transition

/-!
# Handles of services

`skynet_handle.c` gives a service a handle, finds the service of a handle, and keeps the
names of handles in order.  A context stands in the slot of its handle; when no slot is
free their number is doubled.

`Registry` is what the storage is for: a map from handles and one from names.

A call takes a lock and is one step.  A context has its handle from the same step on.
-/

namespace ArmyRs
namespace Skynet

open Foundation

def DEFAULT_SLOT_SIZE : ℕ := 4
def MAX_SLOT_SIZE : ℕ := 0x40000000
def HANDLE_MASK : ℕ := 0xffffff
def HANDLE_REMOTE_SHIFT : ℕ := 24

/-- A string of C, without the zero at its end. -/
abbrev CString := List (Fin 256)

/-- A context and the handle it knows. -/
structure Context (γ : Type*) where
  handle : ℕ
  context : γ

structure HandleName where
  name : CString
  handle : ℕ

/-- `name` has the names in use. -/
structure HandleStorage (γ : Type*) where
  harbor : ℕ
  handleIndex : ℕ
  slotSize : ℕ
  slot : ℕ → Option (Context γ)
  nameCap : ℕ
  name : List HandleName

section

variable {γ : Type*}

def skynetHandleInit (harbor : ℕ) : HandleStorage γ where
  harbor := (harbor &&& 0xff) <<< HANDLE_REMOTE_SHIFT
  handleIndex := 1
  slotSize := DEFAULT_SLOT_SIZE
  slot := fun _ => none
  nameCap := 2
  name := []

def hash (s : HandleStorage γ) (handle : ℕ) : ℕ := handle &&& (s.slotSize - 1)

/-- The handle that is tried in the round `i`. -/
def candidate (s : HandleStorage γ) (i : ℕ) : ℕ := (i + s.handleIndex) &&& HANDLE_MASK

/-- The first round with a free slot. -/
def freeRound (s : HandleStorage γ) : Option ℕ :=
  (List.range s.slotSize).find? fun i => (s.slot (hash s (candidate s i))).isNone

/-- The context is put into the slot; it gets to know its handle. -/
def takeSlot (s : HandleStorage γ) (i : ℕ) (context : γ) : ℕ × HandleStorage γ :=
  let handle := candidate s i
  (handle ||| s.harbor,
    { s with
      slot := Function.update s.slot (hash s handle) (some ⟨handle ||| s.harbor, context⟩)
      handleIndex := handle + 1 })

/-- Twice as many slots, or nothing when an assertion fails. -/
def growSlots (s : HandleStorage γ) : Option (HandleStorage γ) :=
  if s.slotSize * 2 - 1 ≤ HANDLE_MASK then
    (regrow (fun ctx => ctx.handle &&& (s.slotSize * 2 - 1)) s.slotSize s.slot).map fun slot =>
      { s with slot, slotSize := s.slotSize * 2 }
  else none

def registerRounds : ℕ → HandleStorage γ → γ → Option (ℕ × HandleStorage γ)
  | 0, _, _ => none
  | rounds + 1, s, context =>
      match freeRound s with
      | some i => some (takeSlot s i context)
      | none =>
          match growSlots s with
          | some s => registerRounds rounds s context
          | none => none

/-- When the slots have been doubled there is a free one, so that two rounds are enough. -/
def skynetHandleRegister (s : HandleStorage γ) (context : γ) : Option (ℕ × HandleStorage γ) :=
  registerRounds 2 s context

/-- The names of the handle are taken out, and the others keep their order. -/
def skynetHandleRetire (s : HandleStorage γ) (handle : ℕ) : Bool × HandleStorage γ :=
  match s.slot (hash s handle) with
  | some ctx =>
      if ctx.handle = handle then
        (true,
          { s with
            slot := Function.update s.slot (hash s handle) none
            name := s.name.filter fun n => n.handle ≠ handle })
      else (false, s)
  | none => (false, s)

def skynetHandleGrab (s : HandleStorage γ) (handle : ℕ) : Option γ :=
  match s.slot (hash s handle) with
  | some ctx => if ctx.handle = handle then some ctx.context else none
  | none => none

def skynetHandleFindname (s : HandleStorage γ) (name : CString) : ℕ :=
  match bisect HandleName.name s.name name s.name.length 0 s.name.length with
  | .ok n => n.handle
  | .error _ => 0

/-- Nothing when an assertion fails. -/
def insertNameBefore (s : HandleStorage γ) (name : CString) (handle before : ℕ) :
    Option (HandleStorage γ) :=
  let names := insertAt s.name before ⟨name, handle⟩
  if s.name.length ≥ s.nameCap then
    if s.nameCap * 2 ≤ MAX_SLOT_SIZE then some { s with nameCap := s.nameCap * 2, name := names }
    else none
  else some { s with name := names }

/-- Whether the name was free, so that it is now the handle's. -/
def skynetHandleNamehandle (s : HandleStorage γ) (handle : ℕ) (name : CString) :
    Option (Bool × HandleStorage γ) :=
  match bisect HandleName.name s.name name s.name.length 0 s.name.length with
  | .ok _ => some (false, s)
  | .error before => (insertNameBefore s name handle before).map (Prod.mk true)

/-- A call with its result. -/
inductive HandleCall (γ : Type*)
  | register (context : γ) (handle : ℕ)
  | retire (handle : ℕ) (found : Bool)
  | namehandle (handle : ℕ) (name : CString) (named : Bool)

/-- The call is made, and has the result. -/
def storageStep (s : HandleStorage γ) : HandleCall γ → Option (HandleStorage γ)
  | .register context handle =>
      match skynetHandleRegister s context with
      | some (handle', next) => if handle' = handle then some next else none
      | none => none
  | .retire handle found =>
      if (skynetHandleRetire s handle).1 = found then some (skynetHandleRetire s handle).2 else none
  | .namehandle handle name named =>
      match skynetHandleNamehandle s handle name with
      | some (named', next) => if named' = named then some next else none
      | none => none

/-! ## What the storage is for -/

/-- The services by their handles, and the handles by their names. -/
structure Registry (γ : Type*) where
  live : ℕ → Option γ
  named : CString → Option ℕ

def registryStep (r : Registry γ) : HandleCall γ → Option (Registry γ)
  | .register context handle =>
      if (r.live handle).isNone then
        some { r with live := Function.update r.live handle (some context) }
      else none
  | .retire handle found =>
      if (r.live handle).isSome = found then
        if found then
          some
            { live := Function.update r.live handle none
              named := fun name => (r.named name).filter fun handle' => handle' ≠ handle }
        else some r
      else none
  | .namehandle handle name named =>
      if (r.named name).isNone = named then
        if named then some { r with named := Function.update r.named name (some handle) }
        else some r
      else none

end

end Skynet
end ArmyRs
