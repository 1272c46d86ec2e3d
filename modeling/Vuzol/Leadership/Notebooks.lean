import Vuzol.Discussion.Memory

/-! The lead's notebooks (`leadership/notebooks.py`, `storage/repositories/memory_units.py`): notes of a project and notes
    for all projects, each within a budget of bytes. A note is remembered, perhaps in place of another one, forgotten by a
    command or from the memory view, or undone by the owner from the notice of it.

    A remember holds the locks of its notebook and of the note it replaces from the check of the budget to the commit; the
    other operations lock the note only, and each is one step. -/

namespace Vuzol.Notebooks

open Vuzol.Lib (Text raiseIf strip)
open Vuzol.Memory (MemoryUnitStatus ensureMemorySafe)

inductive Notebook where
  | project (projectId : String)
  | global
  deriving DecidableEq

def noteChars : Nat := 600

def notebookBytes : Notebook → Nat
  | .project _ => 8000
  | .global => 4000

/-- `len(text.encode("utf-8"))`. -/
def textBytes (text : Text) : Nat := (text.map Char.utf8Size).sum

/-- A note of `memory_units`; its id is its place. -/
structure MemoryUnit where
  notebook : Notebook
  goalId : Nat
  text : Text
  status : MemoryUnitStatus := .observation
  supersededBy : Option Nat := none

structure ManagedGoal where
  projectId : String
  ownerUserId : Nat
  sourceChatId : Int
  sourceThreadId : Int

structure TelegramMessageLink where
  chatId : Int
  threadId : Int
  messageId : Int
  noteId : Nat

structure Remember where
  notebook : Notebook
  goalId : Nat
  text : Text
  old : Option Nat
  deriving DecidableEq

structure State where
  goals : List ManagedGoal := []
  notes : List MemoryUnit := []
  links : List TelegramMessageLink := []
  checked : List Remember := []

namespace State
variable (s : State)

def activeIn (notebook : Notebook) (n : MemoryUnit) : Bool := n.notebook = notebook && n.status = .observation

/-- `notebook(...).text_bytes`. -/
def usedBytes (notebook : Notebook) : Nat := ((s.notes.filter (activeIn notebook)).map (textBytes ·.text)).sum

def locked (id : Nat) : Bool := s.checked.any (·.old = some id)

def setStatus (id : Nat) (status : MemoryUnitStatus) (supersededBy : Option Nat) : State :=
  { s with notes := s.notes.modify id fun n => { n with status := status, supersededBy := supersededBy } }

inductive Scope where
  | project | global

structure RememberPayload where
  scope : Scope
  text : Text
  replaces : Option Nat := none

def rememberText (text : Text) : Except String Text := do
  raiseIf (text = [] ∨ noteChars < text.length ∨ strip text = []) "invalid_remember_payload"
  ensureMemorySafe (strip text)

def visibleFrom (projectId : String) (n : MemoryUnit) : Bool := n.notebook = .global || n.notebook = .project projectId

def activeNote (note : Option MemoryUnit) (goal : ManagedGoal) : Except String MemoryUnit :=
  match note with
  | none => .error "note_not_found"
  | some n => do
    raiseIf (visibleFrom goal.projectId n = false) "note_outside_scope"
    raiseIf (n.status ≠ .observation) "note_not_active"
    .ok n

/-- `check_budget`; `used - replaced` with the replaced bytes on the other side. -/
def checkBudget (notebook : Notebook) (text : Text) (used replaced : Nat) : Except String Unit :=
  raiseIf (notebookBytes notebook + replaced < used + textBytes text) "notebook_full"

/-- `apply_memory_command` of a remember, up to the check of the budget. -/
def checkRemember (goalId : Nat) (goal : ManagedGoal) (payload : RememberPayload) : Except String Remember := do
  let text ← rememberText payload.text
  let notebook := match payload.scope with
    | .project => .project goal.projectId
    | .global => .global
  match payload.replaces with
  | none =>
    checkBudget notebook text (s.usedBytes notebook) 0
    .ok { notebook := notebook, goalId := goalId, text := text, old := none }
  | some id =>
    let old ← activeNote s.notes[id]? goal
    raiseIf (old.notebook ≠ notebook) "note_outside_scope"
    checkBudget notebook text (s.usedBytes notebook) (textBytes old.text)
    .ok { notebook := notebook, goalId := goalId, text := text, old := some id }

def check (goalId : Nat) (payload : RememberPayload) : State :=
  match s.goals[goalId]? with
  | none => s
  | some goal =>
    match s.checkRemember goalId goal payload with
    | .error _ => s
    | .ok r => if s.checked.any (·.notebook = r.notebook) ∨ r.old.any s.locked then s else { s with checked := s.checked ++ [r] }

def write (r : Remember) : State :=
  let added := { s with notes := s.notes ++ [{ notebook := r.notebook, goalId := r.goalId, text := r.text }] }
  match r.old with
  | none => added
  | some id => added.setStatus id .superseded (some s.notes.length)

def commit (i : Nat) : State :=
  match s.checked[i]? with
  | none => s
  | some r => { s with checked := s.checked.eraseIdx i }.write r

def retractNote (id : Nat) : State :=
  match s.notes[id]? with
  | none => s
  | some n => if n.status = .observation then s.setStatus id .retracted n.supersededBy else s

/-- `apply_memory_command` of a forget. -/
def forget (goalId id : Nat) : State :=
  match s.goals[goalId]? with
  | none => s
  | some goal =>
    match activeNote s.notes[id]? goal with
    | .error _ => s
    | .ok _ => if s.locked id then s else s.retractNote id

/-- `forget_from_memory_view`; `linked` tells whether the button's message is the view of the project. -/
def forgetFromMemoryView (projectId : String) (linked : Bool) (id : Nat) : State :=
  if linked = false ∨ s.locked id ∨ s.notes[id]?.all (!visibleFrom projectId ·) then s else s.retractNote id

structure ControlUpdate where
  chatId : Int
  threadId : Int
  messageId : Int
  userId : Nat
  noteId : Nat

/-- The note that was superseded by `id`. -/
def replacedBy (id : Nat) : Option Nat :=
  s.notes.findIdx? fun n => n.supersededBy = some id && n.status = .superseded

def restoreReplacedNote (id : Nat) : State :=
  match s.replacedBy id with
  | none => s
  | some old => s.setStatus old .observation none

def bound (allowed : Bool) (projectId : String) (u : ControlUpdate) : Bool :=
  allowed && s.links.any (fun l => l.chatId = u.chatId && l.threadId = u.threadId && l.messageId = u.messageId && l.noteId = u.noteId) &&
    s.notes[u.noteId]?.any fun n =>
      (s.goals[n.goalId]?.any fun g => g.projectId = projectId && g.ownerUserId = u.userId && g.sourceChatId = u.chatId &&
        g.sourceThreadId = u.threadId) && visibleFrom projectId n

/-- `undo_notebook_note`. -/
def undo (allowed : Bool) (projectId : String) (u : ControlUpdate) : State :=
  if s.bound allowed projectId u = false ∨ s.locked u.noteId then s
  else
    match s.notes[u.noteId]? with
    | none => s
    | some n => if n.status = .observation then (s.retractNote u.noteId).restoreReplacedNote u.noteId else s

inductive Action where
  | check (goalId : Nat) (payload : RememberPayload)
  | commit (i : Nat)
  | rollback (i : Nat)
  | forget (goalId id : Nat)
  | forgetFromMemoryView (projectId : String) (linked : Bool) (id : Nat)
  | undo (allowed : Bool) (projectId : String) (u : ControlUpdate)
  | deliver (link : TelegramMessageLink)
  | accept (goal : ManagedGoal)

def step : Action → State
  | .check goalId payload => s.check goalId payload
  | .commit i => s.commit i
  | .rollback i => { s with checked := s.checked.eraseIdx i }
  | .forget goalId id => s.forget goalId id
  | .forgetFromMemoryView projectId linked id => s.forgetFromMemoryView projectId linked id
  | .undo allowed projectId u => s.undo allowed projectId u
  | .deliver link => { s with links := s.links ++ [link] }
  | .accept goal => { s with goals := s.goals ++ [goal] }

end State

/-- The state after any sequence of actions, each of which meets `guard` where it is taken. -/
inductive Reaches (guard : State → State.Action → Prop) : State → Prop
  | start : Reaches guard {}
  | step {s : State} (a : State.Action) : Reaches guard s → guard s a → Reaches guard (s.step a)

end Vuzol.Notebooks
