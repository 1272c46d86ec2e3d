import Vuzol.Lib.Split
import Vuzol.Leadership.Notebooks

/-! The budget of a notebook. A remember checks it under the lock of the notebook; an undo that brings a note back takes
    the bytes of the note again, and neither checks nor locks. -/

namespace Vuzol.Notebooks
open Vuzol.Lib
open State

variable {s t : State} {a : Action} {r : Remember} {n old : MemoryUnit} {i j id : Nat} {nb : Notebook}
  {st : Memory.MemoryUnitStatus} {sb : Option Nat} {goalId : Nat} {goal : ManagedGoal} {payload : RememberPayload}
  {allowed linked : Bool} {projectId : String} {u : ControlUpdate}

/-! ### Bytes -/

def weight (nb : Notebook) (n : MemoryUnit) : Nat := if activeIn nb n then textBytes n.text else 0

def State.bytesOf (s : State) (id : Option Nat) : Nat := ((id.bind (s.notes[·]?)).map (textBytes ·.text)).getD 0

theorem usedBytes_eq : s.usedBytes nb = (s.notes.map (weight nb)).sum := sum_filter _

theorem weight_of_active (hnb : n.notebook = nb) (hst : n.status = .observation) : weight nb n = textBytes n.text :=
  if_pos (by simp [activeIn, hnb, hst])

theorem weight_of_ne (hnb : n.notebook ≠ nb) : weight nb n = 0 := if_neg (by simp [activeIn, hnb])

theorem weight_of_inactive (hst : n.status ≠ .observation) : weight nb n = 0 := if_neg (by simp [activeIn, hst])

/-! ### A row written -/

theorem setStatus_notes (h : s.notes[id]? = some n) :
    (s.setStatus id st sb).notes = s.notes.set id { n with status := st, supersededBy := sb } := by
  rw [setStatus, List.modify_eq_set_getElem?, h]
  rfl

@[simp] theorem setStatus_checked : (s.setStatus id st sb).checked = s.checked := rfl

theorem getElem?_setStatus_self (h : s.notes[id]? = some n) :
    (s.setStatus id st sb).notes[id]? = some { n with status := st, supersededBy := sb } := by
  rw [setStatus_notes h, List.getElem?_set_self (List.getElem?_eq_some_iff.mp h).1]

theorem getElem?_setStatus_ne (h : id ≠ i) : (s.setStatus id st sb).notes[i]? = s.notes[i]? :=
  List.getElem?_modify_ne _ _ h

theorem of_getElem?_setStatus (h : (s.setStatus id st sb).notes[i]? = some n) :
    (i ≠ id ∧ s.notes[i]? = some n) ∨
      (i = id ∧ ∃ n₀, s.notes[id]? = some n₀ ∧ n = { n₀ with status := st, supersededBy := sb }) := by
  by_cases hi : id = i
  · subst hi
    rw [setStatus, List.getElem?_modify_eq] at h
    obtain ⟨n₀, hn0, rfl⟩ := Option.map_eq_some_iff.mp h
    exact Or.inr ⟨rfl, n₀, hn0, rfl⟩
  · rw [getElem?_setStatus_ne hi] at h
    exact Or.inl ⟨Ne.symm hi, h⟩

variable (st sb nb) in
theorem usedBytes_setStatus (h : s.notes[id]? = some n) : (s.setStatus id st sb).usedBytes nb + weight nb n =
    s.usedBytes nb + weight nb { n with status := st, supersededBy := sb } := by
  rw [usedBytes_eq, usedBytes_eq, setStatus_notes h, sum_set _ h]

@[simp] theorem bytesOf_setStatus {o : Option Nat} : (s.setStatus id st sb).bytesOf o = s.bytesOf o := by
  cases o with
  | none => rfl
  | some i =>
    simp only [bytesOf, Option.bind_some, setStatus, List.getElem?_modify]
    cases s.notes[i]? with
    | none => rfl
    | some n => by_cases hi : id = i <;> simp [hi]

def State.added (s : State) (n : MemoryUnit) : State := { s with notes := s.notes ++ [n] }

theorem of_getElem?_added (h : (s.added n).notes[i]? = some old) :
    s.notes[i]? = some old ∨ (i = s.notes.length ∧ old = n) := by
  rw [added, List.getElem?_append] at h
  split at h
  · exact Or.inl h
  · rename_i hi
    rw [List.getElem?_singleton] at h
    split at h
    · exact Or.inr ⟨by omega, (Option.some.inj h).symm⟩
    · cases h

theorem getElem?_added (h : s.notes[i]? = some old) : (s.added n).notes[i]? = some old := by
  rw [added, List.getElem?_append_left (List.getElem?_eq_some_iff.mp h).1, h]

@[simp] theorem getElem?_added_length : (s.added n).notes[s.notes.length]? = some n := List.getElem?_concat_length

theorem usedBytes_added : (s.added n).usedBytes nb = s.usedBytes nb + weight nb n := by
  rw [usedBytes_eq, usedBytes_eq, added, List.map_append, List.sum_append, List.map_singleton, List.sum_singleton]

theorem bytesOf_some (h : s.notes[id]? = some n) : s.bytesOf (some id) = textBytes n.text := by
  rw [bytesOf, Option.bind_some, h, Option.map_some, Option.getD_some]

/-! ### Who supersedes whom -/

structure Superseded (s : State) : Prop where
  status {i : Nat} {n : MemoryUnit} : s.notes[i]? = some n → (n.status = .superseded ↔ n.supersededBy.isSome = true)
  later {i m : Nat} {n : MemoryUnit} : s.notes[i]? = some n → n.supersededBy = some m →
    i < m ∧ ∃ n', s.notes[m]? = some n' ∧ n'.notebook = n.notebook
  once {i j m : Nat} {n n' : MemoryUnit} : s.notes[i]? = some n → s.notes[j]? = some n' → n.supersededBy = some m →
    n'.supersededBy = some m → i = j

theorem exists_notebook_setStatus (h : s.notes[i]? = some n) :
    ∃ n', (s.setStatus id st sb).notes[i]? = some n' ∧ n'.notebook = n.notebook := by
  by_cases hi : id = i
  · subst hi
    exact ⟨_, getElem?_setStatus_self h, rfl⟩
  · exact ⟨n, by rw [getElem?_setStatus_ne hi, h], rfl⟩

theorem Superseded.clear (h : Superseded s) (hst : st ≠ .superseded) : Superseded (s.setStatus id st none) where
  status := by
    intro i n hn
    rcases of_getElem?_setStatus hn with ⟨-, hn⟩ | ⟨-, n0, -, rfl⟩
    · exact h.status hn
    · simp [hst]
  later := by
    intro i m n hn hm
    rcases of_getElem?_setStatus hn with ⟨-, hn⟩ | ⟨-, n0, -, rfl⟩
    · obtain ⟨hlt, n', hn', hnb⟩ := h.later hn hm
      obtain ⟨n'', hn'', hnb'⟩ := exists_notebook_setStatus hn'
      exact ⟨hlt, n'', hn'', hnb'.trans hnb⟩
    · cases hm
  once := by
    intro i j m n n' hn hn' hm hm'
    rcases of_getElem?_setStatus hn with ⟨-, hn⟩ | ⟨-, n0, -, rfl⟩
    · rcases of_getElem?_setStatus hn' with ⟨-, hn'⟩ | ⟨-, n0, -, rfl⟩
      · exact h.once hn hn' hm hm'
      · cases hm'
    · cases hm

theorem Superseded.added (h : Superseded s) (hst : n.status = .observation) (hsb : n.supersededBy = none) :
    Superseded (s.added n) where
  status := by
    intro i n' hn
    rcases of_getElem?_added hn with hn | ⟨-, rfl⟩
    · exact h.status hn
    · simp [hst, hsb]
  later := by
    intro i m n' hn hm
    rcases of_getElem?_added hn with hn | ⟨-, rfl⟩
    · obtain ⟨hlt, n'', hn'', hnb⟩ := h.later hn hm
      exact ⟨hlt, n'', getElem?_added hn'', hnb⟩
    · rw [hsb] at hm
      cases hm
  once := by
    intro i j m n' n'' hn hn' hm hm'
    rcases of_getElem?_added hn with hn | ⟨-, rfl⟩
    · rcases of_getElem?_added hn' with hn' | ⟨-, rfl⟩
      · exact h.once hn hn' hm hm'
      · rw [hsb] at hm'
        cases hm'
    · rw [hsb] at hm
      cases hm

theorem Superseded.supersede (h : Superseded s) (hold : s.notes[id]? = some old) (hnb : n.notebook = old.notebook)
    (hst : n.status = .observation) (hsb : n.supersededBy = none) :
    Superseded ((s.added n).setStatus id .superseded (some s.notes.length)) := by
  have hlt := (List.getElem?_eq_some_iff.mp hold).1
  have hadd := h.added hst hsb
  -- No note has been superseded by the new one.
  have hfresh {i : Nat} {n' : MemoryUnit} (hn : (s.added n).notes[i]? = some n') : n'.supersededBy ≠ some s.notes.length := by
    intro hm
    rcases of_getElem?_added hn with hn | ⟨-, rfl⟩
    · obtain ⟨-, n'', hn'', -⟩ := h.later hn hm
      exact absurd (List.getElem?_eq_some_iff.mp hn'').1 (lt_irrefl _)
    · rw [hsb] at hm
      cases hm
  refine ⟨?_, ?_, ?_⟩
  · intro i n' hn
    rcases of_getElem?_setStatus hn with ⟨-, hn⟩ | ⟨-, n0, -, rfl⟩
    · exact hadd.status hn
    · simp
  · intro i m n' hn hm
    rcases of_getElem?_setStatus hn with ⟨-, hn⟩ | ⟨rfl, n0, hn0, rfl⟩
    · obtain ⟨hi, n'', hn'', hnb'⟩ := hadd.later hn hm
      obtain ⟨n3, hn3, hnb3⟩ := exists_notebook_setStatus hn''
      exact ⟨hi, n3, hn3, hnb3.trans hnb'⟩
    · obtain rfl : s.notes.length = m := Option.some.inj hm
      obtain rfl : old = n0 := by
        rw [getElem?_added hold] at hn0
        exact Option.some.inj hn0
      exact ⟨hlt, n, by rw [getElem?_setStatus_ne hlt.ne, getElem?_added_length], hnb⟩
  · intro i j m n' n'' hn hn' hm hm'
    rcases of_getElem?_setStatus hn with ⟨-, hi⟩ | ⟨hi, n0, -, rfl⟩
    · rcases of_getElem?_setStatus hn' with ⟨-, hj⟩ | ⟨-, n0, -, rfl⟩
      · exact hadd.once hi hj hm hm'
      · exact absurd (hm.trans hm'.symm) (hfresh hi)
    · rcases of_getElem?_setStatus hn' with ⟨-, hj⟩ | ⟨hj, n0, -, rfl⟩
      · exact absurd (hm'.trans hm.symm) (hfresh hj)
      · exact hi.trans hj.symm

/-! ### Remembers between their check and their commit -/

structure Fits (s : State) : Prop where
  budget (nb : Notebook) : s.usedBytes nb ≤ notebookBytes nb
  room {r : Remember} : r ∈ s.checked →
    s.usedBytes r.notebook + textBytes r.text ≤ notebookBytes r.notebook + s.bytesOf r.old
  old {r : Remember} {id : Nat} : r ∈ s.checked → r.old = some id →
    ∃ n, s.notes[id]? = some n ∧ n.notebook = r.notebook ∧ n.status = .observation
  nodup : (s.checked.map (·.notebook)).Nodup

theorem locked_eq_false : s.locked id = false ↔ ∀ r ∈ s.checked, r.old ≠ some id := by
  simp [locked]

theorem Fits.release (h : Fits s) (hn : s.notes[id]? = some n) (hlocked : s.locked id = false) (hst : st ≠ .observation) :
    Fits (s.setStatus id st sb) := by
  have hle (nb : Notebook) : (s.setStatus id st sb).usedBytes nb ≤ s.usedBytes nb := by
    have hsum := usedBytes_setStatus nb st sb hn
    have hnone : weight nb { n with status := st, supersededBy := sb } = 0 := weight_of_inactive hst
    omega
  refine ⟨fun nb => (hle nb).trans (h.budget nb), fun {r} hr => ?_, fun {r i} hr hi => ?_, h.nodup⟩
  · have hroom := h.room hr
    have hused := hle r.notebook
    rw [bytesOf_setStatus]
    omega
  · obtain ⟨n', hn', hactive⟩ := h.old hr hi
    have hne : id ≠ i := by
      rintro rfl
      exact locked_eq_false.mp hlocked r hr hi
    exact ⟨n', by rw [getElem?_setStatus_ne hne, hn'], hactive⟩

theorem Fits.restore (h : Fits s) (hn : s.notes[id]? = some n) (hst : n.status ≠ .observation)
    (hbudget : s.usedBytes n.notebook + textBytes n.text ≤ notebookBytes n.notebook)
    (hroom : ∀ r ∈ s.checked, r.notebook = n.notebook →
      s.usedBytes n.notebook + textBytes n.text + textBytes r.text ≤ notebookBytes n.notebook + s.bytesOf r.old) :
    Fits (s.setStatus id .observation none) := by
  have hsum (nb : Notebook) : (s.setStatus id .observation none).usedBytes nb = s.usedBytes nb +
      weight nb { n with status := .observation, supersededBy := none } := by
    have hsum := usedBytes_setStatus nb .observation none hn
    rwa [weight_of_inactive hst, Nat.add_zero] at hsum
  have hsame : (s.setStatus id .observation none).usedBytes n.notebook = s.usedBytes n.notebook + textBytes n.text := by
    rw [hsum, weight_of_active (by rfl) (by rfl)]
  have hother {nb : Notebook} (hnb : n.notebook ≠ nb) : (s.setStatus id .observation none).usedBytes nb = s.usedBytes nb := by
    rw [hsum, weight_of_ne (by exact hnb), Nat.add_zero]
  refine ⟨fun nb => ?_, fun {r} hr => ?_, fun {r i} hr hi => ?_, h.nodup⟩
  · by_cases hnb : n.notebook = nb
    · subst hnb
      rwa [hsame]
    · rw [hother hnb]
      exact h.budget nb
  · rw [bytesOf_setStatus]
    by_cases hnb : n.notebook = r.notebook
    · rw [← hnb, hsame]
      exact hroom r hr hnb.symm
    · rw [hother hnb]
      exact h.room hr
  · obtain ⟨n', hn', hactive⟩ := h.old hr hi
    have hne : id ≠ i := by
      rintro rfl
      obtain rfl : n = n' := Option.some.inj (hn.symm.trans hn')
      exact hst hactive.2
    exact ⟨n', by rw [getElem?_setStatus_ne hne, hn'], hactive⟩

theorem Fits.leave (h : Fits s) : Fits { s with checked := s.checked.eraseIdx i } where
  budget := h.budget
  room hr := h.room (List.mem_of_mem_eraseIdx hr)
  old hr := h.old (List.mem_of_mem_eraseIdx hr)
  nodup := h.nodup.sublist ((List.eraseIdx_sublist _ _).map _)

/-! ### A remember is written -/

def Remember.note (r : Remember) : MemoryUnit := { notebook := r.notebook, goalId := r.goalId, text := r.text }

def Replaces (s : State) (r : Remember) : Prop :=
  ∀ id, r.old = some id → ∃ n, s.notes[id]? = some n ∧ n.notebook = r.notebook ∧ n.status = .observation

theorem write_of_none (h : r.old = none) : s.write r = s.added r.note := by
  rw [write, h]
  rfl

theorem write_of_some (h : r.old = some id) :
    s.write r = (s.added r.note).setStatus id .superseded (some s.notes.length) := by
  rw [write, h]
  rfl

@[simp] theorem write_checked : (s.write r).checked = s.checked := by
  cases hr : r.old with
  | none => rw [write_of_none hr, added]
  | some id => rw [write_of_some hr, setStatus_checked, added]

theorem usedBytes_write_self (h : Replaces s r) :
    (s.write r).usedBytes r.notebook + s.bytesOf r.old = s.usedBytes r.notebook + textBytes r.text := by
  have hnew : weight r.notebook r.note = textBytes r.text := weight_of_active rfl rfl
  cases hr : r.old with
  | none =>
    rw [write_of_none hr, usedBytes_added, hnew]
    rfl
  | some id =>
    obtain ⟨n, hn, hnb, hst⟩ := h id hr
    have hsum := usedBytes_setStatus r.notebook .superseded (some s.notes.length)
      (getElem?_added (n := r.note) hn)
    rw [weight_of_active hnb hst, weight_of_inactive (by simp), usedBytes_added, hnew] at hsum
    rw [write_of_some hr, bytesOf_some hn, hsum, Nat.add_zero]

theorem usedBytes_write_ne (h : Replaces s r) (hne : r.notebook ≠ nb) : (s.write r).usedBytes nb = s.usedBytes nb := by
  have hnew : weight nb r.note = 0 := weight_of_ne hne
  cases hr : r.old with
  | none => rw [write_of_none hr, usedBytes_added, hnew, Nat.add_zero]
  | some id =>
    obtain ⟨n, hn, hnb, hst⟩ := h id hr
    have hsum := usedBytes_setStatus nb .superseded (some s.notes.length)
      (getElem?_added (n := r.note) hn)
    rw [weight_of_ne (by rw [hnb]; exact hne), weight_of_inactive (by simp), usedBytes_added, hnew] at hsum
    rw [write_of_some hr]
    omega

theorem getElem?_write (h : Replaces s r) (hn : s.notes[i]? = some n) (hne : n.notebook ≠ r.notebook) :
    (s.write r).notes[i]? = some n := by
  cases hr : r.old with
  | none => rw [write_of_none hr, getElem?_added hn]
  | some id =>
    obtain ⟨n', hn', hnb, -⟩ := h id hr
    have hid : id ≠ i := by
      rintro rfl
      obtain rfl : n = n' := Option.some.inj (hn.symm.trans hn')
      exact hne hnb
    rw [write_of_some hr, getElem?_setStatus_ne hid, getElem?_added hn]

theorem Fits.write (h : Fits s) (hold : Replaces s r)
    (hroom : s.usedBytes r.notebook + textBytes r.text ≤ notebookBytes r.notebook + s.bytesOf r.old)
    (hother : ∀ r' ∈ s.checked, r'.notebook ≠ r.notebook) : Fits (s.write r) := by
  refine ⟨fun nb => ?_, fun {r'} hr' => ?_, fun {r' id} hr' hid => ?_, by rw [write_checked]; exact h.nodup⟩
  · by_cases hnb : r.notebook = nb
    · subst hnb
      have hself := usedBytes_write_self hold
      omega
    · rw [usedBytes_write_ne hold hnb]
      exact h.budget nb
  · rw [write_checked] at hr'
    rw [usedBytes_write_ne hold (hother r' hr').symm]
    cases ho : r'.old with
    | none =>
      have hroom' := h.room hr'
      rwa [ho] at hroom'
    | some id =>
      obtain ⟨n, hn, hnb, -⟩ := h.old hr' ho
      have hsame := getElem?_write hold hn (hnb ▸ hother r' hr')
      have hroom' := h.room hr'
      rw [ho, bytesOf_some hn] at hroom'
      rwa [bytesOf_some hsame]
  · rw [write_checked] at hr'
    obtain ⟨n, hn, hactive⟩ := h.old hr' hid
    exact ⟨n, getElem?_write hold hn (hactive.1 ▸ hother r' hr'), hactive⟩

theorem Superseded.write (h : Superseded s) (hold : Replaces s r) : Superseded (s.write r) := by
  cases hr : r.old with
  | none =>
    rw [write_of_none hr]
    exact h.added rfl rfl
  | some id =>
    obtain ⟨n, hn, hnb, -⟩ := hold id hr
    rw [write_of_some hr]
    exact h.supersede hn hnb.symm rfl rfl

/-! ### The check of a remember -/

theorem activeNote_eq_ok {o : Option MemoryUnit} (h : activeNote o goal = .ok n) : o = some n ∧ n.status = .observation := by
  unfold activeNote at h
  split at h
  · cases h
  · obtain ⟨_, -, h⟩ := bind_eq_ok.mp h
    obtain ⟨_, hst, h⟩ := bind_eq_ok.mp h
    obtain rfl := Except.ok.inj h
    exact ⟨rfl, not_not.mp (raiseIf_eq_ok.mp hst)⟩

theorem checkRemember_eq_ok (h : s.checkRemember goalId goal payload = .ok r) :
    r.old = payload.replaces ∧ Replaces s r ∧
      s.usedBytes r.notebook + textBytes r.text ≤ notebookBytes r.notebook + s.bytesOf r.old := by
  rw [checkRemember, bind_eq_ok] at h
  obtain ⟨text, -, h⟩ := h
  dsimp only at h
  split at h
  · rename_i hreplaces
    obtain ⟨_, hbudget, h⟩ := bind_eq_ok.mp h
    obtain rfl := Except.ok.inj h
    rw [checkBudget, raiseIf_eq_ok] at hbudget
    exact ⟨hreplaces.symm, fun id hid => (nomatch hid), by simpa [bytesOf] using hbudget⟩
  · rename_i id hreplaces
    obtain ⟨old, hold, h⟩ := bind_eq_ok.mp h
    obtain ⟨_, hnb, h⟩ := bind_eq_ok.mp h
    obtain ⟨_, hbudget, h⟩ := bind_eq_ok.mp h
    obtain rfl := Except.ok.inj h
    rw [raiseIf_eq_ok, not_not] at hnb
    rw [checkBudget, raiseIf_eq_ok, Nat.not_lt] at hbudget
    obtain ⟨hn, hst⟩ := activeNote_eq_ok hold
    refine ⟨hreplaces.symm, fun id' hid => ?_, ?_⟩
    · obtain rfl := Option.some.inj hid
      exact ⟨old, hn, hnb, hst⟩
    · rw [bytesOf_some hn]
      exact hbudget

/-! ### Every step -/

structure Sound (s : State) : Prop where
  fits : Fits s
  superseded : Superseded s

theorem Superseded.supersededBy_eq_none (h : Superseded s) (hn : s.notes[i]? = some n) (hst : n.status ≠ .superseded) :
    n.supersededBy = none := by
  rw [← Option.not_isSome_iff_eq_none, ← h.status hn]
  exact hst

theorem Sound.check (h : Sound s) : Sound (s.check goalId payload) := by
  unfold State.check
  split
  · exact h
  split
  · exact h
  rename_i r hr
  split
  · exact h
  rename_i hlocks
  simp only [List.any_eq_true, decide_eq_true_eq, not_or, not_exists, not_and] at hlocks
  obtain ⟨-, hold, hroom⟩ := checkRemember_eq_ok hr
  refine ⟨⟨h.fits.budget, fun {r'} hr' => ?_, fun {r' id} hr' hid => ?_, ?_⟩, ⟨h.superseded.status, h.superseded.later,
    h.superseded.once⟩⟩
  · rcases Lib.mem_concat.mp hr' with hr' | rfl
    · exact h.fits.room hr'
    · exact hroom
  · rcases Lib.mem_concat.mp hr' with hr' | rfl
    · exact h.fits.old hr' hid
    · exact hold id hid
  · exact Lib.nodup_map_append h.fits.nodup hlocks.1

theorem Sound.leave (h : Sound s) : Sound { s with checked := s.checked.eraseIdx i } :=
  ⟨h.fits.leave, h.superseded.status, h.superseded.later, h.superseded.once⟩

theorem Sound.commit (h : Sound s) : Sound (s.commit i) := by
  unfold State.commit
  split
  · exact h
  rename_i r hr
  have hmem := List.mem_of_getElem? hr
  have hleft : Sound { s with checked := s.checked.eraseIdx i } := h.leave
  have hold : Replaces { s with checked := s.checked.eraseIdx i } r := fun id hid => h.fits.old hmem hid
  refine ⟨hleft.fits.write hold (h.fits.room hmem) fun r' hr' hnb => ?_, hleft.superseded.write hold⟩
  -- The lock of the notebook is held once.
  obtain ⟨j, hji, hj⟩ := List.mem_eraseIdx_iff_getElem?.mp hr'
  have hlt := (List.getElem?_eq_some_iff.mp hj).1
  refine hji ((List.getElem?_inj (by simpa using hlt) h.fits.nodup).mp ?_)
  rw [List.getElem?_map, List.getElem?_map, hj, hr, Option.map_some, Option.map_some, hnb]

theorem Superseded.retractNote_of_active (h : Superseded s) (hn : s.notes[id]? = some n) (hst : n.status = .observation) :
    s.retractNote id = s.setStatus id .retracted none := by
  rw [retractNote, hn]
  dsimp only
  rw [if_pos hst, h.supersededBy_eq_none hn (by simp [hst])]

variable (id) in
theorem Superseded.retractNote_eq (h : Superseded s) : s.retractNote id = s ∨
    ∃ n, s.notes[id]? = some n ∧ n.status = .observation ∧ s.retractNote id = s.setStatus id .retracted none := by
  unfold retractNote
  split
  · exact Or.inl rfl
  rename_i n hn
  split
  · rename_i hst
    rw [h.supersededBy_eq_none hn (by simp [hst])]
    exact Or.inr ⟨n, hn, hst, rfl⟩
  · exact Or.inl rfl

theorem Sound.retractNote (h : Sound s) (hlocked : s.locked id = false) : Sound (s.retractNote id) := by
  rcases h.superseded.retractNote_eq id with heq | ⟨n, hn, -, heq⟩
  · rw [heq]
    exact h
  · rw [heq]
    exact ⟨h.fits.release hn hlocked (by decide), h.superseded.clear (by decide)⟩

theorem Sound.forget (h : Sound s) : Sound (s.forget goalId id) := by
  unfold State.forget
  split
  · exact h
  split
  · exact h
  split
  · exact h
  · rename_i hlocked
    exact h.retractNote (Bool.not_eq_true _ ▸ hlocked)

theorem Sound.forgetFromMemoryView (h : Sound s) : Sound (s.forgetFromMemoryView projectId linked id) := by
  unfold State.forgetFromMemoryView
  split
  · exact h
  · rename_i hlocked
    exact h.retractNote (by simpa using (not_or.mp (not_or.mp hlocked).2).1)

/-! ### Undoing -/

theorem Superseded.replacedBy_eq_some (h : Superseded s) :
    s.replacedBy id = some i ↔ ∃ n, s.notes[i]? = some n ∧ n.supersededBy = some id := by
  have hforward {i : Nat} (hi : s.replacedBy id = some i) : ∃ n, s.notes[i]? = some n ∧ n.supersededBy = some id := by
    obtain ⟨hlt, hp, -⟩ := List.findIdx?_eq_some_iff_getElem.mp hi
    simp only [Bool.and_eq_true, decide_eq_true_eq] at hp
    exact ⟨_, List.getElem?_eq_getElem hlt, hp.1⟩
  refine ⟨hforward, ?_⟩
  rintro ⟨n, hn, hm⟩
  have hst : n.status = .superseded := (h.status hn).mpr (by rw [hm]; rfl)
  cases hk : s.replacedBy id with
  | none =>
    have hnot := List.findIdx?_eq_none_iff.mp hk n (List.mem_of_getElem? hn)
    simp [hm, hst] at hnot
  | some k =>
    obtain ⟨n', hn', hm'⟩ := hforward hk
    rw [h.once hn' hn hm' hm]

/-- An undo that brings a note back finds room for it in the budget, in place of the note that is undone, also with a
    remember of the notebook that has passed its check. -/
def RestoredFits (s : State) : Action → Prop
  | .undo allowed projectId u => s.bound allowed projectId u = true → s.locked u.noteId = false →
      ∀ n ∈ s.notes[u.noteId]?, n.status = .observation → ∀ old ∈ (s.replacedBy u.noteId).bind (s.notes[·]?),
        checkBudget old.notebook old.text (s.usedBytes old.notebook) (textBytes n.text) = .ok () ∧
          ∀ r ∈ s.checked, r.notebook = old.notebook → checkBudget old.notebook old.text
            (s.usedBytes old.notebook + textBytes r.text) (textBytes n.text + s.bytesOf r.old) = .ok ()
  | _ => True

theorem undo_of_bound (h : Superseded s) (hbound : s.bound allowed projectId u = true) (hlocked : s.locked u.noteId = false)
    (hn : s.notes[u.noteId]? = some n) (hst : n.status = .observation) :
    s.undo allowed projectId u = (s.setStatus u.noteId .retracted none).restoreReplacedNote u.noteId := by
  rw [State.undo, if_neg (by simp [hbound, hlocked]), hn]
  dsimp only
  rw [if_pos hst, h.retractNote_of_active hn hst]

variable (allowed projectId u) in
theorem undo_eq (h : Superseded s) : s.undo allowed projectId u = s ∨
    ∃ n, s.bound allowed projectId u = true ∧ s.locked u.noteId = false ∧ s.notes[u.noteId]? = some n ∧
      n.status = .observation ∧
      s.undo allowed projectId u = (s.setStatus u.noteId .retracted none).restoreReplacedNote u.noteId := by
  by_cases hbound : s.bound allowed projectId u = false ∨ s.locked u.noteId
  · exact Or.inl (if_pos hbound)
  have ⟨hbound', hlocked⟩ : s.bound allowed projectId u = true ∧ s.locked u.noteId = false := by simpa using hbound
  cases hn : s.notes[u.noteId]? with
  | none => exact Or.inl (by rw [State.undo, if_neg hbound, hn])
  | some n =>
    by_cases hst : n.status = .observation
    · exact Or.inr ⟨n, hbound', hlocked, rfl, hst, undo_of_bound h hbound' hlocked hn hst⟩
    · exact Or.inl (by rw [State.undo, if_neg hbound, hn]; exact if_neg hst)

theorem Sound.undo (h : Sound s) (hguard : RestoredFits s (.undo allowed projectId u)) :
    Sound (s.undo allowed projectId u) := by
  rcases undo_eq allowed projectId u h.superseded with heq | ⟨n, hbound, hlocked, hn, hst, heq⟩
  · rw [heq]
    exact h
  have hretracted : Sound (s.setStatus u.noteId .retracted none) :=
    ⟨h.fits.release hn hlocked (by decide), h.superseded.clear (by decide)⟩
  rw [heq, restoreReplacedNote]
  split
  · exact hretracted
  rename_i k hk
  obtain ⟨old, hold, hm⟩ := hretracted.superseded.replacedBy_eq_some.mp hk
  -- The undone note supersedes `old`, and is not superseded itself.
  rcases of_getElem?_setStatus hold with ⟨-, hold'⟩ | ⟨-, n0, -, rfl⟩
  swap
  · cases hm
  obtain ⟨-, n', hn', hnb⟩ := h.superseded.later hold' hm
  obtain rfl : n = n' := Option.some.inj (hn.symm.trans hn')
  have hreplaced : s.replacedBy u.noteId = some k := h.superseded.replacedBy_eq_some.mpr ⟨old, hold', hm⟩
  obtain ⟨hbudget, hroom⟩ := hguard hbound hlocked n hn hst old (by rw [hreplaced, Option.bind_some, hold']; rfl)
  rw [checkBudget, raiseIf_eq_ok] at hbudget
  have hused : (s.setStatus u.noteId .retracted none).usedBytes old.notebook + textBytes n.text = s.usedBytes old.notebook := by
    have hsum := usedBytes_setStatus old.notebook .retracted none hn
    rwa [weight_of_active hnb hst, weight_of_inactive (by simp), Nat.add_zero] at hsum
  have hinactive : old.status ≠ .observation := by
    have hsuperseded : old.status = .superseded := (h.superseded.status hold').mpr (by rw [hm]; rfl)
    rw [hsuperseded]
    decide
  refine ⟨hretracted.fits.restore hold hinactive (by omega) fun r hr hr' => ?_, hretracted.superseded.clear (by decide)⟩
  have hroom := hroom r hr hr'
  rw [checkBudget, raiseIf_eq_ok] at hroom
  rw [bytesOf_setStatus]
  omega

theorem Sound.step (h : Sound s) (hguard : RestoredFits s a) : Sound (s.step a) := by
  cases a with
  | check goalId payload => exact h.check
  | commit i => exact h.commit
  | rollback i => exact h.leave
  | forget goalId id => exact h.forget
  | forgetFromMemoryView projectId linked id => exact h.forgetFromMemoryView
  | undo allowed projectId u => exact h.undo hguard
  | deliver link => exact ⟨⟨h.fits.budget, h.fits.room, h.fits.old, h.fits.nodup⟩, h.superseded.status, h.superseded.later,
      h.superseded.once⟩
  | accept goal => exact ⟨⟨h.fits.budget, h.fits.room, h.fits.old, h.fits.nodup⟩, h.superseded.status, h.superseded.later,
      h.superseded.once⟩

theorem sound_start : Sound {} where
  fits := {
    budget := fun nb => Nat.zero_le _
    room := fun hr => by cases hr
    old := fun hr => by cases hr
    nodup := List.nodup_nil }
  superseded := {
    status := fun hn => by cases hn
    later := fun hn => by cases hn
    once := fun hn => by cases hn }

theorem sound_of_reaches (h : Reaches RestoredFits s) : Sound s := by
  induction h with
  | start => exact sound_start
  | step a _ hguard ih => exact ih.step hguard

/-! ### What the claim asks of a state -/

def State.Succeeded (s : State) (i m : Nat) : Prop := ∃ n, s.notes[i]? = some n ∧ (n.supersededBy = some m ∨ n.supersededBy = none)

def KeepsSuccessor (s : State) : Prop := ∀ (a : Action) (i m : Nat) (n : MemoryUnit), s.notes[i]? = some n →
  n.supersededBy = some m → (s.step a).Succeeded i m

def State.active (s : State) (id : Nat) : Option MemoryUnit := s.notes[id]?.filter (·.status = .observation)

/-- After a remember that replaced a note, with no other command in between, its undo gives the active notes that were there
    before it. -/
def UndoRestores (s : State) : Prop := ∀ (goalId : Nat) (payload : RememberPayload) (r : Remember), payload.replaces ≠ none →
  (s.check goalId payload).checked = s.checked ++ [r] →
    ∀ t : State, t.notes = ((s.check goalId payload).commit s.checked.length).notes → t.checked = s.checked →
      ∀ (allowed : Bool) (projectId : String) (u : ControlUpdate), t.bound allowed projectId u = true →
        u.noteId = s.notes.length → (t.undo allowed projectId u).active = s.active

theorem State.Succeeded.clear {m : Nat} (h : s.Succeeded i m) : (s.setStatus id st none).Succeeded i m := by
  obtain ⟨n, hn, hm⟩ := h
  by_cases hi : id = i
  · subst hi
    exact ⟨_, getElem?_setStatus_self hn, Or.inr rfl⟩
  · exact ⟨n, by rw [getElem?_setStatus_ne hi, hn], hm⟩

theorem Sound.keepsSuccessor (h : Sound s) : KeepsSuccessor s := by
  intro a i m n hn hm
  have hkept {t : State} (ht : t.notes = s.notes) : t.Succeeded i m := ⟨n, by rw [ht, hn], Or.inl hm⟩
  have hretracted (id : Nat) : (s.retractNote id).Succeeded i m := by
    rcases h.superseded.retractNote_eq id with heq | ⟨-, -, -, heq⟩
    · rw [heq]
      exact hkept rfl
    · rw [heq]
      exact (hkept rfl).clear
  cases a with
  | check goalId payload =>
    refine hkept ?_
    rw [State.step, State.check]
    split
    · rfl
    split
    · rfl
    split <;> rfl
  | commit j =>
    rw [State.step, State.commit]
    split
    · exact hkept rfl
    rename_i r hr
    have hold : Replaces s r := fun id hid => h.fits.old (List.mem_of_getElem? hr) hid
    cases ho : r.old with
    | none =>
      rw [write_of_none ho]
      exact ⟨n, getElem?_added (s := { s with checked := s.checked.eraseIdx j }) hn, Or.inl hm⟩
    | some id =>
      obtain ⟨n', hn', -, hst⟩ := hold id ho
      -- The replaced note is active, so it is not this one.
      have hid : id ≠ i := by
        rintro rfl
        obtain rfl : n = n' := Option.some.inj (hn.symm.trans hn')
        rw [h.superseded.supersededBy_eq_none hn (by simp [hst])] at hm
        cases hm
      rw [write_of_some ho]
      exact ⟨n, by rw [getElem?_setStatus_ne hid]; exact getElem?_added (s := { s with checked := s.checked.eraseIdx j }) hn,
        Or.inl hm⟩
  | rollback j => exact hkept rfl
  | forget goalId id =>
    rw [State.step, State.forget]
    split
    · exact hkept rfl
    split
    · exact hkept rfl
    split
    · exact hkept rfl
    · exact hretracted id
  | forgetFromMemoryView projectId linked id =>
    rw [State.step, State.forgetFromMemoryView]
    split
    · exact hkept rfl
    · exact hretracted id
  | undo allowed projectId u =>
    rw [State.step]
    rcases undo_eq allowed projectId u h.superseded with heq | ⟨-, -, -, -, -, heq⟩
    · rw [heq]
      exact hkept rfl
    · rw [heq, restoreReplacedNote]
      split
      · exact (hkept rfl).clear
      · exact (hkept rfl).clear.clear
  | deliver link => exact hkept rfl
  | accept goal => exact hkept rfl

theorem check_eq_append (h : (s.check goalId payload).checked = s.checked ++ [r]) :
    s.check goalId payload = { s with checked := s.checked ++ [r] } ∧ Replaces s r ∧ r.old = payload.replaces := by
  have hne : s.checked ≠ s.checked ++ [r] := fun heq => by simpa using congrArg List.length heq
  unfold State.check at h ⊢
  split at h
  · exact absurd h hne
  split at h
  · exact absurd h hne
  rename_i r' hr'
  split at h
  · exact absurd h hne
  rename_i hlocks
  obtain rfl : r' = r := by simpa using h
  rw [if_neg hlocks]
  obtain ⟨ho, hold, -⟩ := checkRemember_eq_ok hr'
  exact ⟨rfl, hold, ho⟩

theorem commit_last : ({ s with checked := s.checked ++ [r] } : State).commit s.checked.length = s.write r := by
  rw [State.commit]
  simp only [List.getElem?_concat_length, List.eraseIdx_append_of_length_le (le_refl _), Nat.sub_self, List.eraseIdx_zero,
    List.tail_cons, List.append_nil]

theorem Fits.locked_length (h : Fits s) : s.locked s.notes.length = false := by
  rw [locked_eq_false]
  intro r hr hold
  obtain ⟨n, hn, -⟩ := h.old hr hold
  exact absurd (List.getElem?_eq_some_iff.mp hn).1 (lt_irrefl _)

theorem Sound.undoRestores (h : Sound s) : UndoRestores s := by
  intro goalId payload r hreplaces hchecked t hnotes htc allowed projectId u hbound hid
  obtain ⟨heq, hold, ho⟩ := check_eq_append hchecked
  rw [heq, commit_last] at hnotes
  obtain ⟨id, hid'⟩ := Option.ne_none_iff_exists'.mp (ho ▸ hreplaces)
  obtain ⟨old, hn, -, hst⟩ := hold id hid'
  have hlt : id < s.notes.length := (List.getElem?_eq_some_iff.mp hn).1
  have hsuperseded : Superseded t := by
    have hwritten := h.superseded.write hold
    exact ⟨fun hn => hwritten.status (hnotes ▸ hn), fun hn hm => hnotes ▸ hwritten.later (hnotes ▸ hn) hm,
      fun hn hn' hm hm' => hwritten.once (hnotes ▸ hn) (hnotes ▸ hn') hm hm'⟩
  have hlocked : t.locked u.noteId = false := by
    rw [hid, locked, htc]
    exact h.fits.locked_length
  rw [write_of_some hid'] at hnotes
  -- The rows before the undo: the new note, the replaced note and the others.
  have hnew : t.notes[u.noteId]? = some r.note := by
    rw [hid, hnotes, getElem?_setStatus_ne hlt.ne, getElem?_added_length]
  have hreplaced : t.notes[id]? = some { old with status := .superseded, supersededBy := some s.notes.length } := by
    rw [hnotes, getElem?_setStatus_self (getElem?_added hn)]
  have hretracted : (t.setStatus u.noteId .retracted none).notes[id]? =
      some { old with status := .superseded, supersededBy := some s.notes.length } := by
    rw [getElem?_setStatus_ne (hid ▸ hlt.ne'), hreplaced]
  have hback : ({ old with status := .observation, supersededBy := none } : MemoryUnit) = old := by
    have hsb : old.supersededBy = none := h.superseded.supersededBy_eq_none hn (by simp [hst])
    cases old
    cases hst
    cases hsb
    rfl
  rw [undo_of_bound hsuperseded hbound hlocked hnew rfl, restoreReplacedNote,
    (hsuperseded.clear (by decide)).replacedBy_eq_some.mpr ⟨_, hretracted, congrArg some hid.symm⟩]
  funext i
  unfold active
  by_cases hi : i = id
  · subst hi
    rw [getElem?_setStatus_self hretracted, hn]
    exact congrArg (fun n => Option.filter (fun n => decide (n.status = .observation)) (some n)) hback
  rw [getElem?_setStatus_ne (Ne.symm hi)]
  by_cases hlast : i = s.notes.length
  · rw [hlast, ← hid, getElem?_setStatus_self hnew, hid, List.getElem?_eq_none (le_refl _)]
    rfl
  · rw [getElem?_setStatus_ne (by omega), hnotes, getElem?_setStatus_ne (Ne.symm hi), State.added]
    rcases Nat.lt_or_ge i s.notes.length with hlt' | hge
    · rw [List.getElem?_append_left hlt']
    · rw [List.getElem?_eq_none hge, List.getElem?_eq_none (by simp; omega)]

/-! ### Every run -/

structure NotebooksHold (s : State) : Prop where
  budget (nb : Notebook) : s.usedBytes nb ≤ notebookBytes nb
  superseded : Superseded s
  keepsSuccessor : KeepsSuccessor s
  undoRestores : UndoRestores s

/-- In every run in which what an undo brings back fits. -/
theorem notebooks_hold (h : Reaches RestoredFits s) : NotebooksHold s := by
  have hsound := sound_of_reaches h
  exact ⟨hsound.fits.budget, hsound.superseded, hsound.keepsSuccessor, hsound.undoRestores⟩

/-! ### An undo without room -/

theorem reaches_write {guard : State → Action → Prop} (goalId : Nat) (payload : RememberPayload) (h : Reaches guard s)
    (hopen : s.checked = []) (hg : s.goals[goalId]? = some goal) (hr : s.checkRemember goalId goal payload = .ok r)
    (hcheck : guard s (.check goalId payload)) (hcommit : guard { s with checked := [r] } (.commit 0)) :
    Reaches guard (s.write r) := by
  have hlocked : r.old.any s.locked = false := by
    cases r.old with
    | none => rfl
    | some id => exact locked_eq_false.mpr (by simp [hopen])
  have hchecked : s.check goalId payload = { s with checked := [r] } := by
    rw [State.check, hg]
    dsimp only
    rw [hr]
    dsimp only
    rw [if_neg (by simp [hopen, hlocked]), hopen, List.nil_append]
  have hwritten : ({ s with checked := [r] } : State).commit 0 = s.write r := by
    have hlast := commit_last (s := s) (r := r)
    rwa [hopen, List.nil_append, List.length_nil] at hlast
  have h1 := Reaches.step _ h hcheck
  rw [State.step, hchecked] at h1
  have h2 := Reaches.step _ h1 hcommit
  rwa [State.step, hwritten] at h2

/-- `NOTE_CHARS` characters of four bytes each. -/
def faces : Text := List.replicate noteChars '😀'

theorem strip_faces : strip faces = faces :=
  strip_of_forall fun c hc => by rw [List.eq_of_mem_replicate hc]; decide

theorem rememberText_faces : rememberText faces = .ok faces := by
  have hsafe : Memory.sensitiveMemory faces = false := by
    have hsearch {p : Regex} (hp : p.nullable = false) (hd : p.deriv '😀' = .never) : p.search faces = false :=
      Regex.search_eq_false hp fun c hc => by rw [List.eq_of_mem_replicate hc, hd]
    have hstart : Memory.hostPath.matchesStart faces = false :=
      Regex.matchesStart_eq_false rfl fun c hc => by rw [List.eq_of_mem_replicate hc]; rfl
    rw [Memory.sensitiveMemory, hsearch rfl rfl, hsearch rfl rfl, hsearch rfl rfl, hsearch rfl rfl, hstart]
    rfl
  have hne : faces ≠ [] := List.ne_nil_of_length_pos (by rw [faces, List.length_replicate]; decide)
  have hlength : faces.length = noteChars := List.length_replicate
  have hvalid : ¬ (faces = [] ∨ noteChars < faces.length ∨ strip faces = []) := by
    rw [strip_faces, hlength]
    simp [hne]
  rw [rememberText, raiseIf_of_not hvalid, strip_faces, Memory.ensureMemorySafe, strip_faces, raiseIf_of_not hne,
    raiseIf_of_not (by simp [hsafe])]
  rfl

theorem checkRemember_faces (h : s.usedBytes .global + 2400 ≤ notebookBytes .global) :
    s.checkRemember goalId goal { scope := .global, text := faces } =
      .ok { notebook := .global, goalId := goalId, text := faces, old := none } := by
  have hbytes : textBytes faces = 2400 := by
    rw [textBytes, faces, List.map_replicate, List.sum_replicate_nat]
    rfl
  have hroom : ¬ notebookBytes .global + 0 < s.usedBytes .global + textBytes faces := by omega
  rw [checkRemember, rememberText_faces]
  dsimp only [bind, Except.bind]
  rw [checkBudget, raiseIf_of_not hroom]

def crowded : State where
  goals := [{ projectId := "vuzol", ownerUserId := 1, sourceChatId := 7, sourceThreadId := 3 }]
  notes := [{ notebook := .global, goalId := 0, text := faces, status := .superseded, supersededBy := some 1 },
    { notebook := .global, goalId := 0, text := ['a'] }, { notebook := .global, goalId := 0, text := faces }]
  links := [{ chatId := 7, threadId := 3, messageId := 20, noteId := 1 }]

set_option maxRecDepth 20000 in
theorem crowded_reached : Reaches (fun _ _ => True) crowded := by
  have h0 : Reaches (fun _ _ => True) _ :=
    .step (.accept { projectId := "vuzol", ownerUserId := 1, sourceChatId := 7, sourceThreadId := 3 }) .start trivial
  have h1 := reaches_write 0 _ h0 rfl rfl (checkRemember_faces (by decide)) trivial trivial
  have h2 := reaches_write (r := { notebook := .global, goalId := 0, text := ['a'], old := some 0 }) 0
    { scope := .global, text := ['a'], replaces := some 0 } h1 rfl rfl (by decide) trivial trivial
  have h3 := h2.step (.deliver { chatId := 7, threadId := 3, messageId := 20, noteId := 1 }) trivial
  exact reaches_write 0 _ h3 rfl rfl (checkRemember_faces (by decide)) trivial trivial

set_option maxRecDepth 20000 in
/-- The undo of the replacement brings 2400 bytes back into a notebook that has room for 1599. -/
theorem notebook_overfull : ∃ s, Reaches (fun _ _ => True) s ∧ notebookBytes .global < s.usedBytes .global :=
  ⟨_, crowded_reached.step (.undo true "vuzol" { chatId := 7, threadId := 3, messageId := 20, userId := 1, noteId := 1 })
    trivial, by decide⟩

/-! ### An undo with room -/

/-- A note replaced by another one, whose notice is delivered. -/
def replaced : State where
  goals := [{ projectId := "vuzol", ownerUserId := 1, sourceChatId := 7, sourceThreadId := 3 }]
  notes := [{ notebook := .global, goalId := 0, text := ['a'], status := .superseded, supersededBy := some 1 },
    { notebook := .global, goalId := 0, text := ['b'] }]
  links := [{ chatId := 7, threadId := 3, messageId := 20, noteId := 1 }]

theorem replaced_reached : Reaches RestoredFits replaced := by
  have h0 : Reaches RestoredFits _ :=
    .step (.accept { projectId := "vuzol", ownerUserId := 1, sourceChatId := 7, sourceThreadId := 3 }) .start trivial
  have h1 := reaches_write (r := { notebook := .global, goalId := 0, text := ['a'], old := none }) 0
    { scope := .global, text := ['a'] } h0 rfl rfl (by decide) trivial trivial
  have h2 := reaches_write (r := { notebook := .global, goalId := 0, text := ['b'], old := some 0 }) 0
    { scope := .global, text := ['b'], replaces := some 0 } h1 rfl rfl (by decide) trivial trivial
  exact h2.step (.deliver { chatId := 7, threadId := 3, messageId := 20, noteId := 1 }) trivial

theorem notebooks_hold_undone :
    NotebooksHold (replaced.undo true "vuzol" { chatId := 7, threadId := 3, messageId := 20, userId := 1, noteId := 1 }) :=
  notebooks_hold (.step (.undo true "vuzol" { chatId := 7, threadId := 3, messageId := 20, userId := 1, noteId := 1 })
    replaced_reached fun _ _ n hn _ old hold => by
      obtain rfl := Option.mem_some.mp hn
      obtain rfl := Option.mem_some.mp hold
      decide)

end Vuzol.Notebooks
