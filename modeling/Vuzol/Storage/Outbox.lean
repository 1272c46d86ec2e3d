import Vuzol.Lib.Machine

/-! The transactional outbox (`storage/leasing.py`): an item is claimed under a lease with a fencing generation,
    and settled by the token of its claim. -/

namespace Vuzol.Storage

inductive DeliveryStatus where
  | pending | leased | delivered | ambiguous | deadLetter
  deriving DecidableEq

def DeliveryStatus.isTerminal : DeliveryStatus → Bool
  | .delivered | .ambiguous | .deadLetter => true
  | _ => false

structure OutboxItem where
  id : Nat
  destination : String
  status : DeliveryStatus := .pending
  attemptCount : Nat := 0
  availableAt : Nat := 0
  lastErrorCategory : Option String := none
  lastErrorAmbiguous : Bool := false
  leaseOwner : Option String := none
  leaseExpiresAt : Option Nat := none
  leaseGeneration : Nat := 0
  deliveredAt : Option Nat := none

structure OutboxLeaseToken where
  itemId : Nat
  owner : String
  generation : Nat
  deriving DecidableEq

inductive StorageError where
  | leaseLost (itemId : Nat)

structure OutboxClaim where
  owner : String
  leaseSeconds : Nat
  allowedDestinations : List String
  now : Nat

/-- The `WHERE` of the claim: an expired lease is taken over without a release. -/
def claimable (c : OutboxClaim) (x : OutboxItem) : Bool :=
  c.allowedDestinations.contains x.destination &&
    (x.status = .pending || (x.status = .leased && x.leaseExpiresAt.any (· < c.now))) && x.availableAt ≤ c.now

def leaseItem (c : OutboxClaim) (x : OutboxItem) : OutboxItem :=
  { x with
    status := .leased
    leaseOwner := some c.owner
    leaseGeneration := x.leaseGeneration + 1
    leaseExpiresAt := some (c.now + c.leaseSeconds)
    attemptCount := x.attemptCount + 1 }

def OutboxItem.tokenOf (x : OutboxItem) (c : OutboxClaim) : OutboxLeaseToken := ⟨x.id, c.owner, x.leaseGeneration⟩

/-- `claim_outbox_item`, as far as this item is its candidate. -/
def claimOutboxItem (x : OutboxItem) (c : OutboxClaim) : OutboxItem × Option OutboxLeaseToken :=
  if claimable c x then (leaseItem c x, some ((leaseItem c x).tokenOf c)) else (x, none)

/-- The `WHERE` of every settling operation. -/
def OutboxLeaseToken.holds (token : OutboxLeaseToken) (x : OutboxItem) : Bool :=
  x.id = token.itemId && x.leaseOwner = some token.owner && x.leaseGeneration = token.generation &&
    x.status = .leased

/-- `UPDATE … WHERE` on the row of a token: the row after it, and how many rows it matched. -/
def updateHeld (x : OutboxItem) (token : OutboxLeaseToken) (change : OutboxItem → OutboxItem) : OutboxItem × Nat :=
  if token.holds x then (change x, 1) else (x, 0)

/-- The settling operations. -/
inductive Settlement where
  | complete (now : Nat)
  | ambiguous
  | retry (delaySeconds : Nat) (errorCategory : String) (now : Nat)
  | defer (delaySeconds : Nat) (reason : String) (now : Nat)
  | deadLetter (errorCategory : String)

/-- The values that a settling operation writes, less the lease that each of them gives back. -/
def Settlement.values : Settlement → OutboxItem → OutboxItem
  | complete now, x => { x with status := .delivered, deliveredAt := some now }
  | ambiguous, x =>
    { x with status := .ambiguous, lastErrorCategory := some "ambiguous_external_outcome", lastErrorAmbiguous := true }
  | retry delaySeconds errorCategory now, x =>
    { x with
      status := .pending
      availableAt := now + delaySeconds
      lastErrorCategory := some errorCategory
      lastErrorAmbiguous := false }
  | defer delaySeconds reason now, x =>
    { x with
      status := .pending
      attemptCount := x.attemptCount - 1
      availableAt := now + delaySeconds
      lastErrorCategory := some reason
      lastErrorAmbiguous := false }
  | deadLetter errorCategory, x =>
    { x with status := .deadLetter, lastErrorCategory := some errorCategory, lastErrorAmbiguous := false }

def Settlement.change (f : Settlement) (x : OutboxItem) : OutboxItem :=
  { f.values x with leaseOwner := none, leaseExpiresAt := none }

def settle (x : OutboxItem) (token : OutboxLeaseToken) (f : Settlement) : OutboxItem × Option StorageError :=
  let (row, rowcount) := updateHeld x token f.change
  (row, if rowcount ≠ 1 then some (.leaseLost token.itemId) else none)

def completeOutboxItem (x : OutboxItem) (token : OutboxLeaseToken) (now : Nat) := settle x token (.complete now)

def markOutboxAmbiguous (x : OutboxItem) (token : OutboxLeaseToken) := settle x token .ambiguous

def retryOutboxItem (x : OutboxItem) (token : OutboxLeaseToken) (delaySeconds : Nat) (errorCategory : String)
    (now : Nat) := settle x token (.retry delaySeconds errorCategory now)

def deferOutboxItem (x : OutboxItem) (token : OutboxLeaseToken) (delaySeconds : Nat) (reason : String) (now : Nat) :=
  settle x token (.defer delaySeconds reason now)

def deadLetterOutboxItem (x : OutboxItem) (token : OutboxLeaseToken) (errorCategory : String) :=
  settle x token (.deadLetter errorCategory)

structure Outbox where
  item : OutboxItem
  issued : List OutboxLeaseToken := []
  entered : List DeliveryStatus := []

/-- A transaction of some worker. Every transaction brings its own time, so a lease may expire between any two;
    a token may be used by any worker, at any time and more than once. -/
inductive OutboxOp where
  | claim (c : OutboxClaim)
  | complete (token : OutboxLeaseToken) (now : Nat)
  | ambiguous (token : OutboxLeaseToken)
  | retry (token : OutboxLeaseToken) (delaySeconds : Nat) (errorCategory : String) (now : Nat)
  | defer (token : OutboxLeaseToken) (delaySeconds : Nat) (reason : String) (now : Nat)
  | deadLetter (token : OutboxLeaseToken) (errorCategory : String)

def OutboxOp.token? : OutboxOp → Option OutboxLeaseToken
  | claim _ => none
  | complete token _ | ambiguous token | retry token _ _ _ | defer token _ _ _ | deadLetter token _ => some token

def Outbox.note (s : Outbox) (r : OutboxItem × Option StorageError) : Outbox × Option StorageError :=
  match r with
  | (row, none) => ({ s with item := row, entered := s.entered ++ [row.status] }, none)
  | (row, some e) => ({ s with item := row }, some e)

def Outbox.perform (s : Outbox) : OutboxOp → Outbox × Option StorageError
  | .claim c =>
    match claimOutboxItem s.item c with
    | (row, some token) =>
      ({ item := row, issued := s.issued ++ [token], entered := s.entered ++ [row.status] }, none)
    | (row, none) => ({ s with item := row }, none)
  | .complete token now => s.note (completeOutboxItem s.item token now)
  | .ambiguous token => s.note (markOutboxAmbiguous s.item token)
  | .retry token delaySeconds errorCategory now =>
    s.note (retryOutboxItem s.item token delaySeconds errorCategory now)
  | .defer token delaySeconds reason now => s.note (deferOutboxItem s.item token delaySeconds reason now)
  | .deadLetter token errorCategory => s.note (deadLetterOutboxItem s.item token errorCategory)

abbrev Outbox.Reaches (s t : Outbox) : Prop :=
  Lib.Reach (fun s op => (.ok (s.perform op).1 : Except StorageError Outbox)) (fun _ _ => True) s t

end Vuzol.Storage
