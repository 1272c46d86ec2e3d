import Vuzol.Leadership.Acceptance
import Vuzol.Theorems.Storage.Outbox

/-! A goal that is accepted or closed names the commit that its default branch was moved to, as long as no attempt that
    moved the branch is followed by one that finds it moved; and a press is queued once for each version of the goal. -/

namespace Vuzol.Acceptance

open Vuzol.Lib
open Vuzol.Discussion (Lifecycle WorkPackageStatus)
open Vuzol.Storage (OutboxItem OutboxClaim OutboxLeaseToken OutboxLeaseToken.holds_leased completeOutboxItem settle_of_held
  settle_of_lost claimOutboxItem claimable leaseItem)

variable (isAncestor : String → String → Bool)

/-! ### What an attempt asks Git for -/

def State.Named (s : State) (commit : String) : Prop := ∃ a, s.goal.ownerAcceptance = some a ∧ a.commit = commit

/-- The repository and the commit that an attempt on the item forwards the default branch to. -/
def State.target (s : State) (x : AcceptanceItem) : Option (String × String) :=
  match x.request with
  | .accept userId _ =>
    if s.goal.ownerUserId = userId ∧ s.goal.ownerAcceptance = none ∧ s.goal.lifecycle = .completed then s.acceptable true
    else none
  | .close => s.projectPath.bind fun path => (s.mergeable isAncestor path).map (path, ·)

def State.advances (s : State) (path commit : String) : Bool :=
  (s.repositories path).advances isAncestor s.goal.targetBranch commit

def State.standsAt (s : State) (path commit : String) : Prop := (s.repositories path).refs s.goal.targetBranch = some commit

def State.WouldMove (s : State) (x : AcceptanceItem) (commit : String) : Prop :=
  ∃ path, s.target isAncestor x = some (path, commit) ∧ s.advances isAncestor path commit = true

structure Processed (s : State) (x : AcceptanceItem) (fault : Option Fault) (t : State) : Prop where
  items : t.items = s.items
  notices : t.notices = s.notices
  moves : t.moves = s.moves ∨ ∃ commit, s.WouldMove isAncestor x commit ∧ (fault = none ∨ fault = some .afterMove) ∧
    t.moves = s.moves ++ [{ itemId := x.id, commit := commit }]
  goal : t.goal = s.goal ∨ ∃ a path, s.target isAncestor x = some (path, a.commit) ∧
    t.goal = { s.goal with ownerAcceptance := some a, version := s.goal.version + 1 }
  recorded : ∀ path commit, fault = none → s.target isAncestor x = some (path, commit) →
    s.standsAt path commit ∨ s.advances isAncestor path commit = true → t.Named commit

variable {isAncestor} {s t : State} {x y : AcceptanceItem} {fault : Option Fault} {path commit : String} {itemId : Nat}

/-! ### Git -/

theorem fastForward_cases (r : Repository) (branch commit : String) (fault : Option Fault) :
    (r.fastForward isAncestor branch commit fault).1 = r ∨
      (r.advances isAncestor branch commit = true ∧ (fault = none ∨ fault = some .afterMove) ∧
        (r.fastForward isAncestor branch commit fault).1 = r.move branch commit) := by
  unfold Repository.fastForward
  split_ifs with hread hat hdiv hdirty hbefore hafter
  · exact Or.inl rfl
  · exact Or.inl rfl
  · exact Or.inl rfl
  · exact Or.inl rfl
  · exact Or.inl rfl
  all_goals
    right
    refine ⟨?_, ?_, rfl⟩
    · simp only [Repository.advances, Bool.and_eq_true, Bool.or_eq_true, decide_eq_true_eq]
      refine ⟨⟨hat, ?_⟩, ?_⟩
      · cases href : r.refs branch with
        | none => rfl
        | some current => simpa [href] using hdiv
      · by_cases hout : r.checkedOut = some branch
        · exact Or.inr (by simpa using fun h => hdirty ⟨hout, h⟩)
        · exact Or.inl hout
    · cases fault with
      | none => exact Or.inl rfl
      | some f => cases f <;> simp_all

theorem fastForward_succeeds {r : Repository} {branch : String}
    (h : r.refs branch = some commit ∨ r.advances isAncestor branch commit = true) :
    ∃ result, (r.fastForward isAncestor branch commit none).2 = some result ∧ result ≠ .diverged := by
  unfold Repository.fastForward
  rw [if_neg (by decide)]
  by_cases hat : r.refs branch = some commit
  · rw [if_pos hat]
    exact ⟨.already, rfl, by decide⟩
  · have hadv := h.resolve_left hat
    simp only [Repository.advances, Bool.and_eq_true, Bool.or_eq_true, decide_eq_true_eq] at hadv
    have hdiv : ¬((r.refs branch).any fun current => !isAncestor current commit) = true := by
      cases href : r.refs branch with
      | none => simp
      | some current => simpa [href] using hadv.1.2
    have hdirty : ¬(r.checkedOut = some branch ∧ r.clean = false) := by
      rintro ⟨hout, hclean⟩
      rcases hadv.2 with h | h
      · exact h hout
      · rw [hclean] at h
        cases h
    rw [if_neg hat, if_neg hdiv, if_neg hdirty, if_neg (by decide)]
    exact ⟨.advanced, rfl, by decide⟩

theorem forward_moves (isAncestor : String → String → Bool) (s : State) (itemId : Nat) (path commit : String)
    (fault : Option Fault) : (s.forward isAncestor itemId path commit fault).1.moves = s.moves ∨
    (s.advances isAncestor path commit = true ∧ (fault = none ∨ fault = some .afterMove) ∧
      (s.forward isAncestor itemId path commit fault).1.moves = s.moves ++ [{ itemId := itemId, commit := commit }]) := by
  unfold State.forward
  rcases fastForward_cases (s.repositories path) s.goal.targetBranch commit fault with hsame | ⟨hadv, hfault, -⟩
  · have hrefs := congrArg (fun r : Repository => r.refs s.goal.targetBranch) hsame
    exact Or.inl (if_neg fun h => h.1 (hrefs.symm.trans h.2))
  · by_cases hmoved : (s.repositories path).refs s.goal.targetBranch ≠ some commit ∧
        ((s.repositories path).fastForward isAncestor s.goal.targetBranch commit fault).1.refs s.goal.targetBranch = some commit
    · exact Or.inr ⟨hadv, hfault, if_pos hmoved⟩
    · exact Or.inl (if_neg hmoved)

/-! ### Attempts -/

theorem acceptable_unreadable : s.acceptable false = none := by
  have hlive : s.liveHead false = none := by
    unfold State.liveHead
    cases s.currentHead with
    | none => rfl
    | some head =>
      cases hev : (s.evidenceOf head).head? with
      | none => simp
      | some e => simp
  unfold State.acceptable
  rw [hlive]
  split <;> rfl

theorem Processed.unchanged (h : ∀ path commit, fault = none → s.target isAncestor x ≠ some (path, commit)) :
    Processed isAncestor s x fault s where
  items := rfl
  notices := rfl
  moves := Or.inl rfl
  goal := Or.inl rfl
  recorded path commit hf ht := absurd ht (h path commit hf)

theorem Processed.forwarded {a : OwnerAcceptance} (htarget : s.target isAncestor x = some (path, a.commit))
    (hdone : ∀ result, s.forward isAncestor x.id path a.commit fault = ((s.forward isAncestor x.id path a.commit fault).1, some result) →
      result ≠ .diverged → t = (s.forward isAncestor x.id path a.commit fault).1.accept a)
    (hdiverged : s.forward isAncestor x.id path a.commit fault = ((s.forward isAncestor x.id path a.commit fault).1, some .diverged) →
      t = (s.forward isAncestor x.id path a.commit fault).1)
    (hnone : s.forward isAncestor x.id path a.commit fault = ((s.forward isAncestor x.id path a.commit fault).1, none) →
      t = (s.forward isAncestor x.id path a.commit fault).1) : Processed isAncestor s x fault t := by
  have hcases : t = (s.forward isAncestor x.id path a.commit fault).1 ∨
      t = (s.forward isAncestor x.id path a.commit fault).1.accept a := by
    cases hresult : (s.forward isAncestor x.id path a.commit fault).2 with
    | none => exact Or.inl (hnone (Prod.ext rfl hresult))
    | some result =>
      by_cases hdiv : result = .diverged
      · exact Or.inl (hdiverged (Prod.ext rfl (hdiv ▸ hresult)))
      · exact Or.inr (hdone result (Prod.ext rfl hresult) hdiv)
  have hmoves : t.moves = (s.forward isAncestor x.id path a.commit fault).1.moves := by rcases hcases with rfl | rfl <;> rfl
  refine ⟨?_, ?_, ?_, ?_, ?_⟩
  · rcases hcases with rfl | rfl <;> rfl
  · rcases hcases with rfl | rfl <;> rfl
  · rw [hmoves]
    rcases forward_moves isAncestor s x.id path a.commit fault with h | ⟨hadv, hfault, h⟩
    · exact Or.inl h
    · exact Or.inr ⟨a.commit, ⟨path, htarget, hadv⟩, hfault, h⟩
  · rcases hcases with rfl | rfl
    · exact Or.inl rfl
    · exact Or.inr ⟨a, path, htarget, rfl⟩
  · intro path' commit' hf ht hready
    rw [htarget] at ht
    cases ht
    subst hf
    obtain ⟨result, hresult, hne⟩ := fastForward_succeeds hready
    rw [hdone result (Prod.ext rfl hresult) hne]
    exact ⟨a, rfl, rfl⟩

theorem acceptGoal_processed (s : State) (x : AcceptanceItem) {userId version : Nat} (hx : x.request = .accept userId version)
    (fault : Option Fault) : Processed isAncestor s x fault (acceptGoal isAncestor s x.id userId fault).1 := by
  have htarget : s.target isAncestor x =
      if s.goal.ownerUserId = userId ∧ s.goal.ownerAcceptance = none ∧ s.goal.lifecycle = .completed then s.acceptable true
      else none := by
    rw [State.target, hx]
  have hnone : ¬(s.goal.ownerUserId = userId ∧ s.goal.ownerAcceptance = none ∧ s.goal.lifecycle = .completed) →
      Processed isAncestor s x fault s := fun hcond => .unchanged fun path commit _ ht => by
    rw [htarget, if_neg hcond] at ht
    cases ht
  unfold acceptGoal
  by_cases howner : s.goal.ownerUserId ≠ userId
  · rw [if_pos howner]
    exact hnone fun h => howner h.1
  rw [if_neg howner]
  by_cases haccepted : s.goal.ownerAcceptance.isSome = true
  · rw [if_pos haccepted]
    exact hnone fun h => by rw [h.2.1] at haccepted; cases haccepted
  rw [if_neg haccepted]
  by_cases hlife : s.goal.lifecycle ≠ .completed
  · rw [if_pos hlife]
    exact hnone fun h => hlife h.2.2
  rw [if_neg hlife]
  rw [if_pos ⟨not_not.mp howner, by simpa using haccepted, not_not.mp hlife⟩] at htarget
  cases hready : s.acceptable (decide (fault ≠ some .unreadable)) with
  | none =>
    refine .unchanged fun path commit hf ht => ?_
    rw [hf] at hready
    rw [htarget, show s.acceptable true = none from hready] at ht
    cases ht
  | some found =>
    obtain ⟨path, head⟩ := found
    have hreadable : decide (fault ≠ some .unreadable) = true := by
      by_contra hnot
      rw [Bool.not_eq_true] at hnot
      rw [hnot, acceptable_unreadable] at hready
      cases hready
    rw [hreadable] at hready
    let a : OwnerAcceptance := { commit := head, branch := s.goal.targetBranch, userId := userId }
    have htarget' : s.target isAncestor x = some (path, a.commit) := htarget.trans hready
    dsimp only
    refine .forwarded htarget' (fun result hu hne => ?_) (fun hu => ?_) (fun hu => ?_) <;> rw [hu]
    cases result with
    | diverged => exact absurd rfl hne
    | _ => rfl

theorem closeIntoMain_processed (s : State) (x : AcceptanceItem) (hx : x.request = .close) (fault : Option Fault) :
    Processed isAncestor s x fault (closeIntoMain isAncestor s x.id fault).1 := by
  have htarget : s.target isAncestor x = s.projectPath.bind fun path => (s.mergeable isAncestor path).map (path, ·) := by
    rw [State.target, hx]
  unfold closeIntoMain
  cases hpath : s.projectPath with
  | none => exact .unchanged fun path commit _ ht => by rw [htarget, hpath] at ht; cases ht
  | some path =>
    rw [hpath] at htarget
    dsimp only
    by_cases hread : fault = some .unreadable
    · rw [if_pos hread]
      exact .unchanged fun _ _ hf _ => by rw [hf] at hread; cases hread
    rw [if_neg hread]
    cases hmerge : s.mergeable isAncestor path with
    | none => exact .unchanged fun path' commit _ ht => by rw [htarget, Option.bind_some, hmerge] at ht; cases ht
    | some head =>
      let a : OwnerAcceptance :=
        { commit := head, branch := s.goal.targetBranch, userId := s.goal.ownerUserId, closedByOwner := true }
      have htarget' : s.target isAncestor x = some (path, a.commit) := by rw [htarget, Option.bind_some, hmerge]; rfl
      dsimp only
      refine .forwarded htarget' (fun result hu hne => ?_) (fun hu => ?_) (fun hu => ?_) <;> rw [hu]
      cases result with
      | diverged => exact absurd rfl hne
      | _ => rfl

theorem processRequest_processed (s : State) (x : AcceptanceItem) (fault : Option Fault) :
    Processed isAncestor s x fault (processRequest isAncestor s x fault).1 := by
  unfold processRequest
  cases hx : x.request with
  | accept userId version => exact acceptGoal_processed s x hx fault
  | close => exact closeIntoMain_processed s x hx fault

/-! ### The invariant -/

structure Inv (s : State) : Prop where
  numbered : s.items.map AcceptanceItem.id = List.range s.items.length
  keys : (s.items.map AcceptanceItem.key).Nodup
  decided : ∀ x ∈ s.items, x.row.status = .pending ∨ x.row.status = .leased ∨
    (x.row.status = .delivered ∧ ∃ n ∈ s.notices, n.itemId = x.id)
  closing : ∀ x ∈ s.items, x.request = .close → s.goal.lifecycle = .cancelled
  accepted : s.goal.ownerAcceptance.isSome = true → s.goal.lifecycle = .completed ∨
    (s.goal.lifecycle = .cancelled ∧ ∃ x ∈ s.items, x.request = .close ∧ x.row.status = .delivered)
  named : ∀ x ∈ s.items, x.row.status = .delivered → ∀ m ∈ s.moves, m.itemId = x.id → s.Named m.commit

theorem Undecided.inv (h : Undecided s) : Inv s where
  numbered := by rw [h.items]; rfl
  keys := by rw [h.items]; exact List.nodup_nil
  decided x hx := by rw [h.items] at hx; cases hx
  closing x hx := by rw [h.items] at hx; cases hx
  accepted ha := by rw [h.acceptance] at ha; cases ha
  named x hx := by rw [h.items] at hx; cases hx

theorem Inv.ids (h : Inv s) : (s.items.map AcceptanceItem.id).Nodup := by
  rw [h.numbered]
  exact List.nodup_range

theorem State.Named.congr (h : s.Named commit) (hacc : t.goal.ownerAcceptance = s.goal.ownerAcceptance) : t.Named commit := by
  obtain ⟨a, ha, hc⟩ := h
  exact ⟨a, hacc.trans ha, hc⟩

theorem item?_eq_some (h : s.item? itemId = some x) : x ∈ s.items ∧ x.id = itemId := mem_of_find?_key h

theorem Inv.keep (h : Inv s) (hitems : t.items = s.items) (hnotices : t.notices = s.notices) (hmoves : t.moves = s.moves)
    (hacc : t.goal.ownerAcceptance = s.goal.ownerAcceptance)
    (hcancelled : s.goal.lifecycle = .cancelled → t.goal.lifecycle = .cancelled)
    (haccepted : s.goal.ownerAcceptance.isSome = true → t.goal.lifecycle = s.goal.lifecycle) : Inv t where
  numbered := by rw [hitems]; exact h.numbered
  keys := by rw [hitems]; exact h.keys
  decided := by rw [hitems, hnotices]; exact h.decided
  closing x hx hclose := hcancelled (h.closing x (hitems ▸ hx) hclose)
  accepted ha := by
    rw [hacc] at ha
    rw [haccepted ha, hitems]
    exact h.accepted ha
  named x hx hdel m hm hid := (h.named x (hitems ▸ hx) hdel m (hmoves ▸ hm) hid).congr hacc

theorem Inv.enqueue {request : Request} (h : Inv s) (hq : enqueue s request = .ok t)
    (hclose : request = .close → s.goal.lifecycle = .cancelled) : Inv t := by
  unfold Acceptance.enqueue at hq
  obtain ⟨hkey, hq⟩ := guard_eq_ok.mp hq
  cases hq
  simp only [List.any_eq_true, decide_eq_true_eq, not_exists, not_and] at hkey
  refine ⟨?_, nodup_map_append h.keys hkey, ?_, ?_, ?_, ?_⟩
  · simp only [List.map_append, List.map_cons, List.map_nil, List.length_append, List.length_cons, List.length_nil, h.numbered,
      List.range_succ]
  · intro x hx
    rcases Lib.mem_concat.mp hx with hx | rfl
    · exact h.decided x hx
    · exact Or.inl rfl
  · intro x hx hreq
    rcases Lib.mem_concat.mp hx with hx | rfl
    · exact h.closing x hx hreq
    · exact hclose hreq
  · intro ha
    rcases h.accepted ha with hdone | ⟨hdone, x, hx, hx'⟩
    · exact Or.inl hdone
    · exact Or.inr ⟨hdone, x, List.mem_append_left _ hx, hx'⟩
  · intro x hx hdel
    rcases Lib.mem_concat.mp hx with hx | rfl
    · exact h.named x hx hdel
    · cases hdel

theorem Inv.pressAccept {r : Press} (h : Inv s) (hop : (pressAccept s r).map Prod.fst = .ok t) : Inv t := by
  unfold Acceptance.pressAccept at hop
  split_ifs at hop with hacc hversion
  · cases hop; exact h
  · cases hop; exact h
  · obtain ⟨⟨u, answer⟩, hpress, rfl⟩ := map_eq_ok.mp hop
    obtain ⟨⟨v, outcome⟩, hqueue, hv⟩ := map_eq_ok.mp hpress
    obtain ⟨rfl, -⟩ := Prod.mk.inj hv
    clear hpress hop hv
    unfold queueAccept at hqueue
    split_ifs at hqueue with howner hready
    · cases hqueue; exact h
    · cases hqueue; exact h
    · obtain ⟨w, hw, hw'⟩ := map_eq_ok.mp hqueue
      cases hw'
      exact h.enqueue hw fun hclose => by cases hclose

theorem Inv.pressRework {r : Press} {other : Bool} (h : Inv s) : Inv (pressRework s r other).1 := by
  unfold Acceptance.pressRework requestRework
  split_ifs with hversion howner hlife hother
  · exact h
  · exact h
  · exact h
  · exact h
  · simp only [Bool.or_eq_true, decide_eq_true_eq, not_or, not_not] at hlife
    refine h.keep rfl rfl rfl rfl (fun hcancelled => ?_) fun hacc => ?_
    · rw [hlife.1] at hcancelled
      cases hcancelled
    · exact absurd hacc hlife.2

theorem Inv.closeGoal {version : Nat} {keepsWork : Bool} (h : Inv s) (hop : closeGoal s version keepsWork = .ok t) : Inv t := by
  unfold Acceptance.closeGoal at hop
  obtain ⟨-, hop⟩ := guard_eq_ok.mp hop
  obtain ⟨-, hop⟩ := guard_eq_ok.mp hop
  obtain ⟨hterm, hop⟩ := guard_eq_ok.mp hop
  have hclosed : Inv { s with goal := { s.goal with lifecycle := .cancelled, version := s.goal.version + 1 } } := by
    refine h.keep rfl rfl rfl rfl (fun _ => rfl) fun hacc => ?_
    rcases h.accepted hacc with hdone | ⟨hdone, -⟩
    · simp [ManagedGoal.isTerminal, hdone] at hterm
    · exact hdone.symm
  split_ifs at hop with hkeeps
  · exact hclosed.enqueue hop fun _ => rfl
  · cases hop
    exact hclosed

theorem Inv.work (h : Inv s) (w : Work) : Inv (s.work w) := by
  refine h.keep rfl rfl rfl rfl (fun hcancelled => ?_) fun hacc => ?_
  · simp [State.work, ManagedGoal.isTerminal, hcancelled]
  · rcases h.accepted hacc with hdone | ⟨hdone, -⟩ <;> simp [State.work, ManagedGoal.isTerminal, hdone]

/-- The row of an item is replaced: the item stays waiting or at work, or is delivered with a notice. -/
theorem Inv.claim {c : OutboxClaim} (h : Inv s) (hop : claim s itemId c = .ok t) : Inv t := by
  unfold Acceptance.claim at hop
  cases hitem : s.item? itemId with
  | none => rw [hitem] at hop; cases hop
  | some x =>
    rw [hitem] at hop
    cases hop
    obtain ⟨hx, -⟩ := item?_eq_some hitem
    by_cases hclaim : claimable c x.row = true
    · have hrow : (claimOutboxItem x.row c).1 = leaseItem c x.row := by rw [claimOutboxItem, if_pos hclaim]
      rw [hrow]
      let x' : AcceptanceItem := { x with row := leaseItem c x.row }
      have hid : ∀ y ∈ s.items, y.id = x'.id → y = x := fun y hy hyid => eq_of_key_eq h.ids hy hx hyid
      have hkeys : (put AcceptanceItem.id x' s.items).map AcceptanceItem.key = s.items.map AcceptanceItem.key :=
        map_put fun y hy hk => by rw [hid y hy hk]
      refine ⟨?_, ?_, ?_, ?_, ?_, ?_⟩
      · exact (map_put fun _ _ hk => hk).trans (h.numbered.trans (by rw [State.putItem, length_put]))
      · exact hkeys.symm ▸ h.keys
      · intro y hy
        rcases mem_or_of_mem_put hy with rfl | hy
        · exact Or.inr (Or.inl rfl)
        · exact h.decided y hy
      · intro y hy hclose
        rcases mem_or_of_mem_put hy with rfl | hy
        · exact h.closing x hx hclose
        · exact h.closing y hy hclose
      · intro ha
        rcases h.accepted ha with hdone | ⟨hdone, y, hy, hclose, hdel⟩
        · exact Or.inl hdone
        · refine Or.inr ⟨hdone, y, mem_put_of_ne hy fun hyid => ?_, hclose, hdel⟩
          -- A delivered item is not claimed again.
          have hterm := Storage.claimable_not_terminal hclaim
          rw [← hid y hy hyid, hdel] at hterm
          cases hterm
      · intro y hy hdel
        rcases mem_put.mp hy with ⟨rfl, -⟩ | ⟨hy, -⟩
        · cases hdel
        · exact h.named y hy hdel
    · have hrow : (claimOutboxItem x.row c).1 = x.row := by rw [claimOutboxItem, if_neg hclaim]
      have hput : (s.putItem { x with row := x.row }).items = s.items := by
        show put AcceptanceItem.id x s.items = s.items
        have hsame : ∀ y ∈ s.items, (if y.id = x.id then x else y) = y := by
          intro y hy
          by_cases hk : y.id = x.id
          · rw [if_pos hk, eq_of_key_eq h.ids hy hx hk]
          · rw [if_neg hk]
        exact (List.map_congr_left hsame).trans (List.map_id _)
      rw [hrow]
      exact h.keep hput rfl rfl rfl (fun hc => hc) fun _ => rfl

/-! ### Safe attempts -/

def Attempt.Settles (a : Attempt) (x : AcceptanceItem) : Prop := a.ending = .commits ∧ a.token.holds x.row = true

variable (isAncestor) in
/-- What an attempt on an item must find, so that what it has moved and what it records agree. -/
structure SafeAttempt (s : State) (x : AcceptanceItem) (a : Attempt) : Prop where
  late : x.row.status = .delivered → a.ending ≠ .diesEarly → a.fault = none ∨ a.fault = some .afterMove →
    ∀ commit, s.WouldMove isAncestor x commit → s.Named commit
  aligned : a.Settles x → a.fault = some .afterMove → ∀ commit, ¬s.WouldMove isAncestor x commit
  /-- What an attempt before it moved the branch to is named already, or is still the target, and the branch is at it or
      behind it. -/
  again : a.Settles x → ∀ m ∈ s.moves, m.itemId = x.id → s.Named m.commit ∨ (a.fault = none ∧
    ∃ path, s.target isAncestor x = some (path, m.commit) ∧
      (s.standsAt path m.commit ∨ s.advances isAncestor path m.commit = true))

variable (isAncestor) in
def SafeStep (s : State) : Op → Prop
  | .attempt a => ∀ x, s.item? a.token.itemId = some x → SafeAttempt isAncestor s x a
  | _ => True

variable {a : Attempt}

theorem attempt_cases (hop : attempt isAncestor s a = .ok t) : ∃ x, s.item? a.token.itemId = some x ∧
    (t = s ∨
      (a.ending ≠ .diesEarly ∧ t = s.rollback (processRequest isAncestor s x a.fault).1) ∨
      (a.Settles x ∧ ∃ outcome, t =
        { (processRequest isAncestor s x a.fault).1.putItem { x with row := (Storage.Settlement.complete a.now).change x.row } with
          notices := (processRequest isAncestor s x a.fault).1.notices ++ [{ itemId := x.id, outcome := outcome }] })) := by
  unfold attempt at hop
  cases hitem : s.item? a.token.itemId with
  | none => rw [hitem] at hop; cases hop
  | some x =>
    rw [hitem] at hop
    refine ⟨x, rfl, ?_⟩
    cases hend : a.ending with
    | diesEarly => rw [hend] at hop; cases hop; exact Or.inl rfl
    | dies => rw [hend] at hop; cases hop; exact Or.inr (Or.inl ⟨by decide, rfl⟩)
    | commits =>
      rw [hend] at hop
      cases hheld : a.token.holds x.row with
      | false =>
        simp only [completeOutboxItem, settle_of_lost hheld] at hop
        cases hop
        exact Or.inr (Or.inl ⟨by decide, rfl⟩)
      | true =>
        simp only [completeOutboxItem, settle_of_held hheld] at hop
        cases hop
        exact Or.inr (Or.inr ⟨⟨hend, hheld⟩, _, rfl⟩)

theorem Processed.mem_moves {m : Moved} (h : Processed isAncestor s x fault t) (hm : m ∈ t.moves) : m ∈ s.moves ∨
    (m.itemId = x.id ∧ s.WouldMove isAncestor x m.commit ∧ (fault = none ∨ fault = some .afterMove)) := by
  rcases h.moves with heq | ⟨commit, hwould, hfault, heq⟩
  · exact Or.inl (heq ▸ hm)
  · rw [heq] at hm
    rcases Lib.mem_concat.mp hm with hm | rfl
    · exact Or.inl hm
    · exact Or.inr ⟨rfl, hwould, hfault⟩

theorem Inv.rollback (h : Inv s) (hx : x ∈ s.items) (hp : Processed isAncestor s x a.fault t)
    (hsafe : SafeAttempt isAncestor s x a) (hend : a.ending ≠ .diesEarly) : Inv (s.rollback t) where
  numbered := h.numbered
  keys := h.keys
  decided := h.decided
  closing := h.closing
  accepted := h.accepted
  named y hy hdel m hm hid := by
    refine State.Named.congr ?_ rfl
    rcases hp.mem_moves hm with hm | ⟨hmid, hwould, hfault⟩
    · exact h.named y hy hdel m hm hid
    · obtain rfl : y = x := eq_of_key_eq h.ids hy hx (hid.symm.trans hmid)
      exact hsafe.late hdel hend hfault m.commit hwould

theorem Inv.fresh (h : Inv s) (hx : x ∈ s.items) (hleased : x.row.status = .leased) (hp : Processed isAncestor s x fault t) :
    t.goal = s.goal ∨ (s.goal.ownerAcceptance = none ∧ t.goal.lifecycle = s.goal.lifecycle ∧
      (s.goal.lifecycle = .completed ∨ (s.goal.lifecycle = .cancelled ∧ x.request = .close))) := by
  rcases hp.goal with heq | ⟨a, path, htarget, heq⟩
  · exact Or.inl heq
  right
  rw [heq]
  cases hreq : x.request with
  | accept userId version =>
    rw [State.target, hreq] at htarget
    simp only at htarget
    split_ifs at htarget with hcond
    exact ⟨hcond.2.1, rfl, Or.inl hcond.2.2⟩
  | close =>
    have hcancelled := h.closing x hx hreq
    refine ⟨?_, rfl, Or.inr ⟨hcancelled, rfl⟩⟩
    by_contra hacc
    rcases h.accepted (Option.isSome_iff_ne_none.mpr hacc) with hdone | ⟨-, y, hy, hclose, hdel⟩
    · rw [hcancelled] at hdone
      cases hdone
    · have hkey : y.key = x.key := by simp [AcceptanceItem.key, hclose, hreq]
      obtain rfl := eq_of_key_eq h.keys hy hx hkey
      rw [hleased] at hdel
      cases hdel

theorem Inv.settle {outcome : Outcome} (h : Inv s) (hx : x ∈ s.items)
    (hp : Processed isAncestor s x a.fault t) (hsafe : SafeAttempt isAncestor s x a) (hset : a.Settles x) :
    Inv { t.putItem { x with row := (Storage.Settlement.complete a.now).change x.row } with
      notices := t.notices ++ [{ itemId := x.id, outcome := outcome }] } := by
  let x' : AcceptanceItem := { x with row := (Storage.Settlement.complete a.now).change x.row }
  have hleased : x.row.status = .leased := OutboxLeaseToken.holds_leased hset.2
  have hfresh := h.fresh hx hleased hp
  have hlife : t.goal.lifecycle = s.goal.lifecycle := by
    rcases hfresh with heq | ⟨-, hlife, -⟩
    · rw [heq]
    · exact hlife
  have hnamed : ∀ commit, s.Named commit → t.Named commit := by
    intro commit hn
    rcases hfresh with heq | ⟨hnone, -⟩
    · exact hn.congr (by rw [heq])
    · obtain ⟨b, hb, -⟩ := hn
      rw [hnone] at hb
      cases hb
  have hkeys : (put AcceptanceItem.id x' s.items).map AcceptanceItem.key = s.items.map AcceptanceItem.key :=
    map_put fun y hy hk => by rw [eq_of_key_eq h.ids hy hx hk]
  have hput : ∀ y, y ∈ put AcceptanceItem.id x' t.items ↔ (y = x' ∧ ∃ z ∈ t.items, z.id = x'.id) ∨ (y ∈ s.items ∧ y.id ≠ x.id) := by
    intro y
    rw [mem_put, hp.items]
    rfl
  refine ⟨?_, ?_, ?_, ?_, ?_, ?_⟩
  · show (put AcceptanceItem.id x' t.items).map AcceptanceItem.id = List.range (put AcceptanceItem.id x' t.items).length
    rw [map_put fun _ _ hk => hk, length_put, hp.items]
    exact h.numbered
  · show ((put AcceptanceItem.id x' t.items).map AcceptanceItem.key).Nodup
    rw [hp.items, hkeys]
    exact h.keys
  · intro y hy
    rcases (hput y).mp hy with ⟨rfl, -⟩ | ⟨hy, -⟩
    · exact Or.inr (Or.inr ⟨rfl, _, List.mem_append_right _ List.mem_cons_self, rfl⟩)
    · rcases h.decided y hy with hst | hst | ⟨hst, n, hn, hid⟩
      · exact Or.inl hst
      · exact Or.inr (Or.inl hst)
      · exact Or.inr (Or.inr ⟨hst, n, List.mem_append_left _ (hp.notices ▸ hn), hid⟩)
  · intro y hy hclose
    refine hlife.trans ?_
    rcases (hput y).mp hy with ⟨rfl, -⟩ | ⟨hy, -⟩
    · exact h.closing x hx hclose
    · exact h.closing y hy hclose
  · intro hacc
    have hx' : x' ∈ put AcceptanceItem.id x' t.items := (hput x').mpr (Or.inl ⟨rfl, x, hp.items ▸ hx, rfl⟩)
    rcases hfresh with heq | ⟨-, -, hdone | ⟨hdone, hclose⟩⟩
    · have hacc' : s.goal.ownerAcceptance.isSome = true := heq ▸ hacc
      rcases h.accepted hacc' with hdone | ⟨hdone, y, hy, hclose, hdel⟩
      · exact Or.inl (hlife.trans hdone)
      · refine Or.inr ⟨hlife.trans hdone, y, (hput y).mpr (Or.inr ⟨hy, fun hid => ?_⟩), hclose, hdel⟩
        rw [eq_of_key_eq h.ids hy hx hid, hleased] at hdel
        cases hdel
    · exact Or.inl (hlife.trans hdone)
    · exact Or.inr ⟨hlife.trans hdone, x', hx', hclose, rfl⟩
  · intro y hy hdel m hm hid
    refine State.Named.congr (s := t) ?_ rfl
    rcases (hput y).mp hy with ⟨rfl, -⟩ | ⟨hy, hne⟩
    · rcases hp.mem_moves hm with hm | ⟨-, ⟨path, htarget, hadv⟩, hfault⟩
      · rcases hsafe.again hset m hm hid with hn | ⟨hfault, path, htarget, hready⟩
        · exact hnamed _ hn
        · exact hp.recorded path m.commit hfault htarget hready
      · rcases hfault with hfault | hfault
        · exact hp.recorded path m.commit hfault htarget (Or.inr hadv)
        · exact absurd ⟨path, htarget, hadv⟩ (hsafe.aligned hset hfault m.commit)
    · rcases hp.mem_moves hm with hm | ⟨hmid, -⟩
      · exact hnamed _ (h.named y hy hdel m hm hid)
      · exact absurd (hid.symm.trans hmid) hne

theorem Inv.perform {op : Op} (h : Inv s) (hsafe : SafeStep isAncestor s op) (hop : perform isAncestor s op = .ok t) : Inv t := by
  cases op with
  | pressAccept r => exact h.pressAccept hop
  | pressRework r other => cases hop; exact h.pressRework
  | closeGoal version keepsWork => exact h.closeGoal hop
  | work w => cases hop; exact h.work w
  | repositoryChanges path r => cases hop; exact h.keep rfl rfl rfl rfl (fun hc => hc) fun _ => rfl
  | claim itemId c => exact h.claim hop
  | attempt a =>
    obtain ⟨x, hitem, hcases⟩ := attempt_cases hop
    obtain ⟨hx, -⟩ := item?_eq_some hitem
    have hp : Processed isAncestor s x a.fault (processRequest isAncestor s x a.fault).1 := processRequest_processed s x a.fault
    rcases hcases with rfl | ⟨hend, rfl⟩ | ⟨hset, outcome, rfl⟩
    · exact h
    · exact h.rollback hx hp (hsafe x hitem) hend
    · exact h.settle hx hp (hsafe x hitem) hset

theorem inv_of_reach {s₀ : State} (h0 : Undecided s₀) (h : Reach (perform isAncestor) (SafeStep isAncestor) s₀ s) : Inv s :=
  h.invariant h0.inv fun hinv hsafe hop => hinv.perform hsafe hop

/-! ### Presses -/

theorem pressAccept_queued_iff {r : Press} (hready : s.acceptanceReady = true) (howner : r.userId = s.goal.ownerUserId)
    (hversion : r.goalVersion = s.goal.version) :
    (∃ t, pressAccept s r = .ok (t, .handled "goal_accept_queued")) ↔ ∀ x ∈ s.items, x.key ≠ .ownerAccept s.goal.version := by
  have hacc : ¬s.goal.ownerAcceptance.isSome = true := by
    simp only [State.acceptanceReady, Bool.and_eq_true, Option.isNone_iff_eq_none] at hready
    rw [hready.1.2]
    decide
  rw [pressAccept, if_neg hacc, if_neg (not_not.mpr hversion.symm), queueAccept, if_neg (not_not.mpr howner.symm), hready,
    if_neg (by decide)]
  by_cases hkey : s.items.any (·.key = .ownerAccept s.goal.version) = true
  · have herr : enqueue s (.accept r.userId s.goal.version) = .error .integrityError := if_pos hkey
    rw [herr]
    refine ⟨fun ⟨t, ht⟩ => (by cases ht), fun hnone => ?_⟩
    obtain ⟨x, hx, hxkey⟩ := List.any_eq_true.mp hkey
    exact absurd (of_decide_eq_true hxkey) (hnone x hx)
  · obtain ⟨t, ht⟩ : ∃ t, enqueue s (.accept r.userId s.goal.version) = .ok t := ⟨_, if_neg hkey⟩
    rw [ht]
    refine ⟨fun _ x hx hxkey => hkey (List.any_eq_true.mpr ⟨x, hx, decide_eq_true hxkey⟩), fun _ => ⟨t, rfl⟩⟩

theorem attempt_decides (hitem : s.item? a.token.itemId = some x) (hset : a.Settles x) :
    ∃ t, attempt isAncestor s a = .ok t ∧ (∃ y ∈ t.items, y.id = x.id ∧ y.request = x.request ∧ y.row.status = .delivered) ∧
      ∃ n ∈ t.notices, n.itemId = x.id := by
  obtain ⟨hx, -⟩ := item?_eq_some hitem
  have hp : Processed isAncestor s x a.fault (processRequest isAncestor s x a.fault).1 := processRequest_processed s x a.fault
  have hmem : x ∈ (processRequest isAncestor s x a.fault).1.items := hp.items ▸ hx
  obtain ⟨y, hy, hid, hrequest, hstatus⟩ : ∃ y : AcceptanceItem,
      y = { x with row := (Storage.Settlement.complete a.now).change x.row } ∧ y.id = x.id ∧ y.request = x.request ∧
      y.row.status = .delivered := ⟨_, rfl, rfl, rfl, rfl⟩
  have hok : attempt isAncestor s a = .ok { (processRequest isAncestor s x a.fault).1.putItem y with
      notices := (processRequest isAncestor s x a.fault).1.notices ++
        [{ itemId := x.id, outcome := (processRequest isAncestor s x a.fault).2 }] } := by
    rw [hy]
    simp only [attempt, hitem, hset.1, completeOutboxItem, settle_of_held hset.2]
  refine ⟨_, hok, ⟨y, ?_, hid, hrequest, hstatus⟩, ?_⟩
  · exact mem_put_self hmem hid.symm
  · exact ⟨_, List.mem_append_right _ List.mem_cons_self, rfl⟩

/-- Accepting and closing a goal in safe runs: a press on the finished goal is queued once for each version, every request
    waits, is at work or is decided, and what a delivered request moved the default branch to is the accepted commit. -/
theorem accept_and_close_crash_safe {s₀ : State} (h0 : Undecided s₀)
    (h : Reach (perform isAncestor) (SafeStep isAncestor) s₀ s) :
    (∀ r : Press, s.acceptanceReady = true → r.userId = s.goal.ownerUserId → r.goalVersion = s.goal.version →
      ((∃ t, pressAccept s r = .ok (t, .handled "goal_accept_queued")) ↔ ∀ x ∈ s.items, x.key ≠ .ownerAccept s.goal.version)) ∧
    (∀ x ∈ s.items, x.row.status = .pending ∨ x.row.status = .leased ∨
      (x.row.status = .delivered ∧ ∃ n ∈ s.notices, n.itemId = x.id)) ∧
    (∀ a x, s.item? a.token.itemId = some x → a.Settles x → ∃ t, attempt isAncestor s a = .ok t ∧
      (∃ y ∈ t.items, y.id = x.id ∧ y.request = x.request ∧ y.row.status = .delivered) ∧ ∃ n ∈ t.notices, n.itemId = x.id) ∧
    (∀ x ∈ s.items, x.row.status = .delivered → ∀ m ∈ s.moves, m.itemId = x.id → s.Named m.commit) :=
  have hinv := inv_of_reach h0 h
  ⟨fun _ => pressAccept_queued_iff, hinv.decided, fun _ _ => attempt_decides, hinv.named⟩

/-! ### Samples -/

/-- A commit is behind itself, and `base` is behind all others. -/
def behind (a b : String) : Bool := a = b || a = "base"

def sampleRepository (main : String) : Repository where
  refs branch := if branch = "goal" then some "head" else if branch = "main" then some main else none

/-- A goal whose result was reviewed. -/
def sampleState (lifecycle : Lifecycle) (main : String) : State where
  goal := {
    ownerUserId := 1
    lifecycle := lifecycle
    version := 3
    criteria := [⟨"c", "works"⟩]
    integrationBranch := "goal"
    currentPackageId := some 7 }
  packages := [{
    id := 7
    status := .completed
    integrationBranch := "goal"
    integrationBaseCommit := some "base"
    integrationHeadCommit := some "head" }]
  evidence := [{
    criterionId := "c"
    description := "works"
    scopeRevision := 1
    resultCommit := "head"
    repositoryPath := some "/repo"
    satisfied := true
    checker := .goalReview }]
  repositories _ := sampleRepository main
  projectPath := some "/repo"

def claimAt (now : Nat) : Op :=
  .claim 0 { owner := "w", leaseSeconds := 60, allowedDestinations := [goalAcceptanceDestination], now := now }

def attemptWith (generation : Nat) (ending : End) : Op :=
  .attempt { token := ⟨0, "w", generation⟩, ending := ending, now := 200 }

def plain (s : State) : Op → Bool
  | .attempt a => (s.item? a.token.itemId).all fun x => x.row.status ≠ .delivered && a.fault = none &&
      s.moves.all fun m => (s.target behind x).any fun (path, commit) =>
        commit = m.commit && (s.repositories path).refs s.goal.targetBranch = some commit
  | _ => true

theorem safeStep_of_plain {op : Op} (h : plain s op = true) : SafeStep behind s op := by
  cases op with
  | attempt a =>
    intro x hx
    simp only [plain, hx, Option.all_some, Bool.and_eq_true, decide_eq_true_eq, List.all_eq_true, Option.any_eq_true] at h
    obtain ⟨⟨hstatus, hfault⟩, hmoves⟩ := h
    refine ⟨fun hdel => absurd hdel hstatus, fun _ hafter => ?_, fun _ m hm _ => ?_⟩
    · rw [hfault] at hafter
      cases hafter
    · obtain ⟨⟨path, commit⟩, htarget, hcommit, hat⟩ := hmoves m hm
      exact Or.inr ⟨hfault, path, hcommit ▸ htarget, Or.inl (hcommit ▸ hat)⟩
  | _ => trivial

/-- An accept that dies after the move is delivered with its commit named. -/
theorem accept_and_close_crash_safe_redelivered : ∃ s : State, (∃ x ∈ s.items, x.row.status = .delivered) ∧
    s.moves = [⟨0, "head"⟩] ∧ s.Named "head" := by
  let ops : List Op := [.pressAccept ⟨1, 3⟩, claimAt 10, attemptWith 1 .dies, claimAt 100, attemptWith 2 .commits]
  obtain ⟨s, hrun, hp⟩ := exists_of_ends (p := fun s : State => s.items.map (·.row.status) = [.delivered] &&
    s.items.map (·.id) = [0] && s.moves = [⟨0, "head"⟩])
    (by decide +kernel : ends _ (runOps (fun s op => if plain s op then perform behind s op else .error .assertionError)
      (sampleState .completed "base") ops) = true)
  simp only [Bool.and_eq_true, decide_eq_true_eq] at hp
  obtain ⟨⟨hstatus, hids⟩, hmoves⟩ := hp
  have hplain : Reach (perform behind) (fun s op => plain s op = true) (sampleState .completed "base") s := reach_of_guarded hrun
  have hreach := hplain.mono fun _ _ h => safeStep_of_plain h
  have hstart : Undecided (sampleState .completed "base") := ⟨rfl, rfl, rfl⟩
  obtain ⟨-, -, -, hnamed⟩ := accept_and_close_crash_safe hstart hreach
  obtain ⟨x, hitems⟩ : ∃ x, s.items = [x] := List.length_eq_one_iff.mp (by simpa using congrArg List.length hstatus)
  rw [hitems] at hstatus hids hnamed
  have hdel : x.row.status = .delivered := (List.cons.inj hstatus).1
  have hid : (0 : Nat) = x.id := (List.cons.inj hids).1.symm
  have hmem : (⟨0, "head"⟩ : Moved) ∈ s.moves := by rw [hmoves]; exact List.mem_cons_self
  exact ⟨s, ⟨x, hitems ▸ List.mem_cons_self, hdel⟩, hmoves, hnamed x List.mem_cons_self hdel _ hmem hid⟩

/-- A refused accept cannot be asked for again, and a close that dies after the move is delivered without its commit. -/
theorem refused_accept_and_redelivered_close :
    (∃ s, runOps (perform behind) (sampleState .completed "other")
        [.pressAccept ⟨1, 3⟩, claimAt 10, attemptWith 1 .commits] = .ok s ∧
      s.acceptanceReady = true ∧ s.goal.version = 3 ∧ s.notices = [⟨0, .targetMoved⟩] ∧
      (pressAccept s ⟨1, 3⟩).map Prod.snd = .error .integrityError) ∧
    (∃ s, runOps (perform behind) (sampleState .active "base")
        [.closeGoal 3 true, claimAt 10, attemptWith 1 .dies, claimAt 100, attemptWith 2 .commits] = .ok s ∧
      s.items.map (·.row.status) = [.delivered] ∧ s.moves = [⟨0, "head"⟩] ∧ s.goal.ownerAcceptance = none) := by
  constructor
  · obtain ⟨s, hrun, hp⟩ := exists_of_ends (p := fun s : State => s.acceptanceReady && s.goal.version = 3 &&
      s.notices = [⟨0, .targetMoved⟩] && (pressAccept s ⟨1, 3⟩).map Prod.snd = .error .integrityError)
      (by decide +kernel : ends _ (runOps (perform behind) (sampleState .completed "other")
        [.pressAccept ⟨1, 3⟩, claimAt 10, attemptWith 1 .commits]) = true)
    simp only [Bool.and_eq_true, decide_eq_true_eq] at hp
    exact ⟨s, hrun, hp.1.1.1, hp.1.1.2, hp.1.2, hp.2⟩
  · obtain ⟨s, hrun, hp⟩ := exists_of_ends (p := fun s : State => s.items.map (·.row.status) = [.delivered] &&
      s.moves = [⟨0, "head"⟩] && s.goal.ownerAcceptance = none)
      (by decide +kernel : ends _ (runOps (perform behind) (sampleState .active "base")
        [.closeGoal 3 true, claimAt 10, attemptWith 1 .dies, claimAt 100, attemptWith 2 .commits]) = true)
    simp only [Bool.and_eq_true, decide_eq_true_eq] at hp
    exact ⟨s, hrun, hp.1.1, hp.1.2, hp.2⟩

end Vuzol.Acceptance
