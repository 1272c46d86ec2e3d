import Vuzol.Assistant.Turns
import Vuzol.Lib.Rows

/-! Every message of the owner is answered, as long as no answer leaves behind a message that came while its turn was
    thinking, and no context is read before the voices in it are heard. -/

namespace Vuzol.Assistant

open Vuzol.Lib (getElem?_concat)

namespace Conversation

def Unheard (e : Entry) : Prop := e.phase = .hearing ∨ e.phase = .queued ∧ e.voice = true ∧ isBlank e.body = true

instance (e : Entry) : Decidable (Unheard e) := inferInstanceAs (Decidable (_ ∨ _))

def Answered (c : Conversation) (id : Nat) : Prop := ∃ context ∈ c.answered, ∃ body, (id, body) ∈ context.latest

def burst (c : Conversation) : List Entry := c.entries.rtakeWhile fun e => e.role = .owner

def Short (historyTurns : Nat) (c : Conversation) : Action → Prop
  | .advance id _ => ∀ e, c.entries[id]? = some e → e.phase = .reading → c.burst.length ≤ historyTurns + 8
  | _ => True

/-- A turn reads its context once all voices of the burst are heard, and its answer leaves no message behind: every message
    that there is by then was part of its context or was answered before. -/
def Attentive (c : Conversation) : Action → Prop
  | .advance id _ => ∀ e, c.entries[id]? = some e →
    match e.phase with
    | .reading => ∀ other ∈ c.burst, ¬Unheard other
    | .thinking context => ∀ j other, c.entries[j]? = some other → other.role = .owner →
        (∃ body, (j, body) ∈ context.latest) ∨ c.Answered j
    | _ => True
  | _ => True

def Told (c : Conversation) (x : Nat × String) : Prop :=
  ∃ e, c.entries[x.1]? = some e ∧ e.role = .owner ∧ e.body = x.2 ∧ ¬Unheard e

structure Sound (c : Conversation) : Prop where
  texts : ∀ e ∈ c.entries, e.role = .owner → e.body = "" → Unheard e
  told : ∀ context ∈ c.answered, ∀ x ∈ context.latest, c.Told x
  replied : ∀ id, c.Answered id → ∃ j e, id < j ∧ c.entries[j]? = some e ∧ e.role = .assistant
  before : ∀ id j e e', c.entries[id]? = some e → e.role = .owner → id < j → c.entries[j]? = some e' →
    e'.role = .assistant → c.Answered id
  thinking : ∀ id e context, c.entries[id]? = some e → e.phase = .thinking context →
    (∀ x ∈ context.latest, c.Told x) ∧ ((∃ body, (id, body) ∈ context.latest) ∨ c.Answered id)
  done : ∀ id e, c.entries[id]? = some e → e.role = .owner → e.phase = .done →
    c.Answered id ∨ ∃ j e', id < j ∧ c.entries[j]? = some e' ∧ e'.role = .owner
  answers : ∀ e ∈ c.entries, e.role = .assistant → e.phase = .done

section Steps
variable {c : Conversation} {id : Nat} {e e' : Entry} {historyTurns : Nat}
variable {x : Nat × String}

theorem getElem?_put (hid : c.entries[id]? = some e) (j : Nat) :
    (c.put id e').entries[j]? = if j = id then some e' else c.entries[j]? := by
  have hlt := (List.getElem?_eq_some_iff.mp hid).1
  rw [put]
  dsimp only
  rw [List.getElem?_set]
  by_cases h : j = id
  · subst h
    rw [if_pos rfl, if_pos rfl, if_pos hlt]
  · rw [if_neg h, if_neg (Ne.symm h)]

theorem role_put (hid : c.entries[id]? = some e) (hrole : e'.role = e.role) {j : Nat} {role : Role} :
    (∃ x, (c.put id e').entries[j]? = some x ∧ x.role = role) ↔ ∃ x, c.entries[j]? = some x ∧ x.role = role := by
  rw [getElem?_put hid]
  split
  · rename_i h
    subst h
    rw [hid]
    simp [hrole]
  · rfl

theorem Told.put (hid : c.entries[id]? = some e) (hrole : e'.role = e.role)
    (hheard : ¬Unheard e → ¬Unheard e' ∧ e'.body = e.body) (h : c.Told x) : (c.put id e').Told x := by
  obtain ⟨f, hf, howner, hbody, hunheard⟩ := h
  rw [Told, getElem?_put hid]
  split
  · rename_i heq
    rw [heq, hid, Option.some.injEq] at hf
    subst hf
    obtain ⟨hunheard', hbody'⟩ := hheard hunheard
    exact ⟨e', rfl, hrole.trans howner, hbody'.trans hbody, hunheard'⟩
  · exact ⟨f, hf, howner, hbody, hunheard⟩

theorem Sound.put (h : Sound c) (hid : c.entries[id]? = some e) (howner : e.role = .owner) (hrole : e'.role = e.role)
    (hheard : ¬Unheard e → ¬Unheard e' ∧ e'.body = e.body) (htext : e'.body = "" → Unheard e')
    (hthinking : ∀ context, e'.phase = .thinking context →
      (∀ x ∈ context.latest, c.Told x) ∧ ((∃ body, (id, body) ∈ context.latest) ∨ c.Answered id))
    (hdone : e'.phase = .done → c.Answered id ∨ ∃ j f, id < j ∧ c.entries[j]? = some f ∧ f.role = .owner) :
    Sound (c.put id e') where
  texts f hf hfowner hbody := by
    rcases List.mem_or_eq_of_mem_set hf with hf | rfl
    · exact h.texts f hf hfowner hbody
    · exact htext hbody
  told context hcontext x hx := (h.told context hcontext x hx).put hid hrole hheard
  replied j hj := by
    obtain ⟨k, f, hjk, hf, hassistant⟩ := h.replied j hj
    obtain ⟨f', hf', hassistant'⟩ := (role_put hid hrole).mpr ⟨f, hf, hassistant⟩
    exact ⟨k, f', hjk, hf', hassistant'⟩
  before j k f f' hf hfowner hjk hf' hassistant := by
    obtain ⟨g, hg, hgowner⟩ := (role_put hid hrole).mp ⟨f, hf, hfowner⟩
    obtain ⟨g', hg', hgassistant⟩ := (role_put hid hrole).mp ⟨f', hf', hassistant⟩
    exact h.before j k g g' hg hgowner hjk hg' hgassistant
  thinking j f context hf hphase := by
    rw [getElem?_put hid] at hf
    have hbefore : (∀ x ∈ context.latest, c.Told x) ∧ ((∃ body, (j, body) ∈ context.latest) ∨ c.Answered j) := by
      split at hf
      · rename_i heq
        cases hf
        rw [heq]
        exact hthinking context hphase
      · exact h.thinking j f context hf hphase
    exact ⟨fun x hx => (hbefore.1 x hx).put hid hrole hheard, hbefore.2⟩
  done j f hf hfowner hphase := by
    rw [getElem?_put hid] at hf
    have hbefore : c.Answered j ∨ ∃ k g, j < k ∧ c.entries[k]? = some g ∧ g.role = .owner := by
      split at hf
      · rename_i heq
        cases hf
        rw [heq]
        exact hdone hphase
      · exact h.done j f hf hfowner hphase
    refine hbefore.imp_right fun ⟨k, g, hjk, hg, hgowner⟩ => ?_
    obtain ⟨g', hg', hgowner'⟩ := (role_put hid hrole).mpr ⟨g, hg, hgowner⟩
    exact ⟨k, g', hjk, hg', hgowner'⟩
  answers f hf hassistant := by
    rcases List.mem_or_eq_of_mem_set hf with hf | rfl
    · exact h.answers f hf hassistant
    · rw [hrole, howner] at hassistant
      cases hassistant

theorem mem_concat {entries : List Entry} {x f : Entry} {j : Nat} (h : (entries ++ [x])[j]? = some f) :
    (entries[j]? = some f ∧ j < entries.length) ∨ j = entries.length ∧ f = x := by
  rw [getElem?_concat] at h
  split at h
  · rename_i hj
    exact .inr ⟨hj, (Option.some.inj h).symm⟩
  · exact .inl ⟨h, (List.getElem?_eq_some_iff.mp h).1⟩

theorem getElem?_concat_of_some {entries : List Entry} {x f : Entry} {j : Nat} (h : entries[j]? = some f) :
    (entries ++ [x])[j]? = some f := by
  rw [List.getElem?_append_left (List.getElem?_eq_some_iff.mp h).1, h]

theorem Told.concat (new : Entry) {answered : List Context} (h : c.Told x) :
    Told { c with entries := c.entries ++ [new], answered := answered } x := by
  obtain ⟨f, hf, hrest⟩ := h
  exact ⟨f, getElem?_concat_of_some hf, hrest⟩

theorem Sound.accept (h : Sound c) (body : String) (voice : Bool) : Sound (c.accept body voice) := by
  rw [Conversation.accept]
  split
  · exact h
  rename_i hkept
  refine ⟨?_, ?_, ?_, ?_, ?_, ?_, ?_⟩
  · intro f hf howner hbody
    rcases Lib.mem_concat.mp hf with hf | rfl
    · exact h.texts f hf howner hbody
    · obtain rfl : body = "" := hbody
      have hvoice : voice = true := by
        rw [← Bool.not_eq_false]
        exact fun hvoice => hkept ⟨rfl, hvoice⟩
      exact .inr ⟨rfl, hvoice, rfl⟩
  · exact fun context hcontext x hx => (h.told context hcontext x hx).concat _
  · intro id hid
    obtain ⟨j, f, hlt, hf, hassistant⟩ := h.replied id hid
    exact ⟨j, f, hlt, getElem?_concat_of_some hf, hassistant⟩
  · intro id j f f' hf howner hlt hf' hassistant
    rcases mem_concat hf' with ⟨hf', hj⟩ | ⟨-, rfl⟩
    · rcases mem_concat hf with ⟨hf, -⟩ | ⟨rfl, -⟩
      · exact h.before id j f f' hf howner hlt hf' hassistant
      · exact absurd hlt (Nat.not_lt_of_gt hj)
    · cases hassistant
  · intro id f context hf hphase
    rcases mem_concat hf with ⟨hf, -⟩ | ⟨-, rfl⟩
    · obtain ⟨htold, hpart⟩ := h.thinking id f context hf hphase
      exact ⟨fun x hx => (htold x hx).concat _, hpart⟩
    · cases hphase
  · intro id f hf howner hphase
    rcases mem_concat hf with ⟨hf, -⟩ | ⟨-, rfl⟩
    · refine (h.done id f hf howner hphase).imp_right fun ⟨j, g, hlt, hg, hgowner⟩ => ?_
      exact ⟨j, g, hlt, getElem?_concat_of_some hg, hgowner⟩
    · cases hphase
  · intro f hf hassistant
    rcases Lib.mem_concat.mp hf with hf | rfl
    · exact h.answers f hf hassistant
    · cases hassistant

theorem Answered.reply {context : Context} {body : String} (h : c.Answered id) : (c.reply context body).Answered id := by
  obtain ⟨context', hcontext', hpart⟩ := h
  exact ⟨context', List.mem_append_left _ hcontext', hpart⟩

theorem Sound.reply (h : Sound c) {context : Context} (body : String) (htold : ∀ x ∈ context.latest, c.Told x)
    (hall : ∀ j other, c.entries[j]? = some other → other.role = .owner →
      (∃ body, (j, body) ∈ context.latest) ∨ c.Answered j) : Sound (c.reply context body) where
  texts f hf howner hbody := by
    rcases Lib.mem_concat.mp hf with hf | rfl
    · exact h.texts f hf howner hbody
    · cases howner
  told context' hcontext' x hx := by
    rcases Lib.mem_concat.mp hcontext' with hcontext' | rfl
    · exact (h.told context' hcontext' x hx).concat _
    · exact (htold x hx).concat _
  replied id hid := by
    obtain ⟨context', hcontext', b, hb⟩ := hid
    have hlt : id < c.entries.length := by
      rcases Lib.mem_concat.mp hcontext' with hcontext' | rfl
      · obtain ⟨f, hf, -⟩ := h.told context' hcontext' (id, b) hb
        exact (List.getElem?_eq_some_iff.mp hf).1
      · obtain ⟨f, hf, -⟩ := htold (id, b) hb
        exact (List.getElem?_eq_some_iff.mp hf).1
    exact ⟨c.entries.length, _, hlt, List.getElem?_concat_length, rfl⟩
  before id j f f' hf howner hlt hf' hassistant := by
    rcases mem_concat hf with ⟨hf, -⟩ | ⟨rfl, rfl⟩
    · rcases hall id f hf howner with ⟨b, hb⟩ | hanswered
      · exact ⟨context, List.mem_append_right _ (List.mem_singleton_self _), b, hb⟩
      · exact hanswered.reply
    · cases howner
  thinking id f context' hf hphase := by
    rcases mem_concat hf with ⟨hf, -⟩ | ⟨-, rfl⟩
    · obtain ⟨htold', hpart⟩ := h.thinking id f context' hf hphase
      exact ⟨fun x hx => (htold' x hx).concat _, hpart.imp_right Answered.reply⟩
    · cases hphase
  done id f hf howner hphase := by
    rcases mem_concat hf with ⟨hf, -⟩ | ⟨-, rfl⟩
    · refine (h.done id f hf howner hphase).imp Answered.reply fun ⟨j, g, hlt, hg, hgowner⟩ => ?_
      exact ⟨j, g, hlt, getElem?_concat_of_some hg, hgowner⟩
    · cases howner
  answers f hf hassistant := by
    rcases Lib.mem_concat.mp hf with hf | rfl
    · exact h.answers f hf hassistant
    · rfl

theorem drop_suffix_rtakeWhile {α : Type} {p : α → Bool} {l : List α} {n : Nat} (h : ∀ x ∈ l.drop n, p x = true) :
    l.drop n <:+ l.rtakeWhile p := by
  have hsplit : l.rtakeWhile p = ((l.drop n).reverse ++ (l.take n).reverse.takeWhile p).reverse := by
    rw [List.rtakeWhile, ← List.takeWhile_append_of_pos fun x hx => h x (List.mem_reverse.mp hx), ← List.reverse_append,
      List.take_append_drop]
  rw [hsplit, List.reverse_append, List.reverse_reverse]
  exact List.suffix_append _ _

theorem mem_history {x : Entry × Nat} (h : x ∈ c.history historyTurns) : c.entries[x.2]? = some x.1 := by
  obtain ⟨hlt, heq⟩ := List.mem_zipIdx' (List.mem_of_mem_drop h)
  rw [List.getElem?_eq_getElem hlt, heq]

theorem mem_latest : x ∈ (c.context historyTurns).latest ↔
    ∃ e, (e, x.1) ∈ (c.history historyTurns).rtakeWhile fromOwner ∧ e.body = x.2 ∧ x.2 ≠ "" := by
  obtain ⟨id, body⟩ := x
  simp only [context, List.mem_map, List.mem_filter, decide_eq_true_eq, Prod.exists, Prod.mk.injEq]
  constructor
  · rintro ⟨e, j, ⟨hmem, hne⟩, rfl, rfl⟩
    exact ⟨e, hmem, rfl, hne⟩
  · rintro ⟨e, hmem, rfl, hne⟩
    exact ⟨e, id, ⟨hmem, hne⟩, rfl, rfl⟩

theorem mem_latest_of_owner (hid : c.entries[id]? = some e) (hne : e.body ≠ "")
    (hsince : ∀ j f, id ≤ j → c.entries[j]? = some f → f.role = .owner)
    (hshort : c.burst.length ≤ historyTurns + 8) : (id, e.body) ∈ (c.context historyTurns).latest := by
  have hlt := (List.getElem?_eq_some_iff.mp hid).1
  have hlength : c.entries.length - id ≤ historyTurns + 8 := by
    refine Nat.le_trans ?_ hshort
    rw [← List.length_drop]
    refine (drop_suffix_rtakeWhile fun f hf => ?_).length_le
    obtain ⟨k, hk⟩ := List.mem_iff_getElem?.mp hf
    rw [List.getElem?_drop] at hk
    exact decide_eq_true (hsince _ f (Nat.le_add_right _ _) hk)
  refine mem_latest.mpr ⟨e, ?_, rfl, hne⟩
  have hdrop : (c.history historyTurns).drop (id - (c.entries.length - (historyTurns + 8))) = c.entries.zipIdx.drop id := by
    rw [history, List.drop_drop]
    congr 1
    omega
  have hmem : (e, id) ∈ c.entries.zipIdx.drop id := by
    rw [List.mem_iff_getElem?]
    refine ⟨0, ?_⟩
    rw [List.getElem?_drop, Nat.add_zero, List.getElem?_zipIdx, hid]
    simp
  rw [← hdrop] at hmem
  refine (drop_suffix_rtakeWhile fun x hx => ?_).mem hmem
  rw [hdrop] at hx
  obtain ⟨k, hk⟩ := List.mem_iff_getElem?.mp hx
  rw [List.getElem?_drop, List.getElem?_zipIdx, Option.map_eq_some_iff] at hk
  obtain ⟨f, hf, rfl⟩ := hk
  exact decide_eq_true (hsince _ f (Nat.le_add_right _ _) hf)

theorem mem_burst (h : (e, id) ∈ (c.history historyTurns).rtakeWhile fromOwner) : e ∈ c.burst := by
  have hsuffix : ((c.history historyTurns).rtakeWhile fromOwner).map (·.1) <:+ c.entries := by
    have hzip : (c.history historyTurns).rtakeWhile fromOwner <:+ c.entries.zipIdx :=
      (List.rtakeWhile_suffix _ _).trans (List.drop_suffix _ _)
    simpa using hzip.map Prod.fst
  have howner : ∀ x ∈ ((c.history historyTurns).rtakeWhile fromOwner).map (·.1), decide (x.role = .owner) = true := by
    intro x hx
    obtain ⟨y, hy, rfl⟩ := List.mem_map.mp hx
    have hfrom : fromOwner y = true := List.mem_rtakeWhile_imp hy
    exact hfrom
  rw [List.suffix_iff_eq_drop] at hsuffix
  rw [hsuffix] at howner
  have hmem : e ∈ ((c.history historyTurns).rtakeWhile fromOwner).map (·.1) := List.mem_map_of_mem h
  rw [hsuffix] at hmem
  exact (drop_suffix_rtakeWhile howner).mem hmem

theorem told_context (hheard : ∀ other ∈ c.burst, ¬Unheard other) :
    ∀ x ∈ (c.context historyTurns).latest, c.Told x := by
  intro x hx
  obtain ⟨f, hmem, hbody, -⟩ := mem_latest.mp hx
  have hhistory := mem_history ((List.rtakeWhile_suffix _ _).mem hmem)
  exact ⟨f, hhistory, by simpa [fromOwner] using List.mem_rtakeWhile_imp hmem, hbody, hheard f (mem_burst hmem)⟩

theorem Sound.nonempty (h : Sound c) (hid : c.entries[id]? = some e) (howner : e.role = .owner) (hheard : ¬Unheard e) :
    e.body ≠ "" := fun hbody => hheard (h.texts e (List.mem_of_getElem? hid) howner hbody)

theorem Sound.owner (h : Sound c) (hid : c.entries[id]? = some e) (hphase : e.phase ≠ .done) : e.role = .owner := by
  cases hrole : e.role with
  | owner => rfl
  | assistant => exact absurd (h.answers e (List.mem_of_getElem? hid) hrole) hphase

theorem Sound.read (h : Sound c) (hid : c.entries[id]? = some e) (hphase : e.phase = .reading)
    (hshort : c.burst.length ≤ historyTurns + 8) :
    (∃ body, (id, body) ∈ (c.context historyTurns).latest) ∨ c.Answered id := by
  have howner : e.role = .owner := h.owner hid (by rw [hphase]; exact TurnPhase.noConfusion)
  have hheard : ¬Unheard e := by simp [Unheard, hphase]
  by_cases hreply : ∃ j f, id < j ∧ c.entries[j]? = some f ∧ f.role = .assistant
  · obtain ⟨j, f, hlt, hf, hassistant⟩ := hreply
    exact .inr (h.before id j e f hid howner hlt hf hassistant)
  · refine .inl ⟨e.body, mem_latest_of_owner hid (h.nonempty hid howner hheard) (fun j f hj hf => ?_) hshort⟩
    rcases Nat.eq_or_lt_of_le hj with rfl | hlt
    · rw [hid, Option.some.injEq] at hf
      exact hf ▸ howner
    · cases hrole : f.role with
      | owner => rfl
      | assistant => exact absurd ⟨j, f, hlt, hf, hrole⟩ hreply

theorem Sound.advance (h : Sound c) (id : Nat) (text : String) (hshort : Short historyTurns c (.advance id text))
    (hattentive : Attentive c (.advance id text)) : Sound (c.advance historyTurns id text) := by
  rw [Conversation.advance]
  split
  · exact h
  rename_i e hid
  have hshort := hshort e hid
  have hattentive := hattentive e hid
  split
  · rename_i hphase
    have howner : e.role = .owner := h.owner hid (by rw [hphase]; exact TurnPhase.noConfusion)
    refine h.put hid howner rfl (fun hheard => ⟨?_, rfl⟩) (fun hbody => ?_) (fun context hthinking => ?_) fun hdone => ?_
    · simp only [Unheard, hphase, reduceCtorEq, true_and, false_or] at hheard
      simp [Unheard, hheard]
    · have hunheard := h.texts e (List.mem_of_getElem? hid) howner hbody
      simp only [Unheard, hphase, reduceCtorEq, true_and, false_or] at hunheard
      simp [Unheard, hunheard]
    · dsimp only at hthinking
      split at hthinking <;> cases hthinking
    · dsimp only at hdone
      split at hdone <;> cases hdone
  · rename_i hphase
    have howner : e.role = .owner := h.owner hid (by rw [hphase]; exact TurnPhase.noConfusion)
    refine h.put hid howner rfl (fun hheard => absurd (.inl hphase) hheard) (fun hbody => ?_)
      (fun context hthinking => by cases hthinking) fun hdone => by cases hdone
    simp only [heardBody] at hbody
    split at hbody
    · exact absurd hbody (by decide)
    · rename_i hne
      exact absurd hbody hne
  · rename_i hphase
    have howner : e.role = .owner := h.owner hid (by rw [hphase]; exact TurnPhase.noConfusion)
    have hne := h.nonempty hid howner (by simp [Unheard, hphase])
    refine h.put hid howner rfl (fun _ => ⟨?_, rfl⟩) (fun hbody => (hne hbody).elim)
      (fun context hthinking => ?_) fun hdone => ?_
    · simp only [Unheard]
      split <;> simp
    · dsimp only at hthinking
      split at hthinking <;> cases hthinking
    · dsimp only at hdone
      split at hdone
      · rename_i hlt
        have hnext := List.getElem?_eq_getElem hlt
        cases hrole : c.entries[id + 1].role with
        | owner => exact .inr ⟨id + 1, _, Nat.lt_succ_self id, hnext, hrole⟩
        | assistant => exact .inl (h.before id (id + 1) e _ hid howner (Nat.lt_succ_self id) hnext hrole)
      · cases hdone
  · rename_i hphase
    have howner : e.role = .owner := h.owner hid (by rw [hphase]; exact TurnPhase.noConfusion)
    have hne := h.nonempty hid howner (by simp [Unheard, hphase])
    rw [hphase] at hattentive
    dsimp only at hattentive
    refine h.put hid howner rfl (fun _ => ⟨by simp [Unheard], rfl⟩)
      (fun hbody => (hne hbody).elim) (fun context hthinking => ?_) fun hdone => by cases hdone
    cases hthinking
    exact ⟨told_context hattentive, h.read hid hphase (hshort hphase)⟩
  · rename_i context hphase
    have howner : e.role = .owner := h.owner hid (by rw [hphase]; exact TurnPhase.noConfusion)
    have hne := h.nonempty hid howner (by simp [Unheard, hphase])
    obtain ⟨htold, hpart⟩ := h.thinking id e context hid hphase
    rw [hphase] at hattentive
    dsimp only at hattentive
    refine (h.reply text htold hattentive).put (getElem?_concat_of_some hid) howner rfl (fun _ => ⟨by simp [Unheard], rfl⟩)
      (fun hbody => (hne hbody).elim) (fun context hthinking => by cases hthinking) fun _ => ?_
    refine .inl (hpart.elim (fun ⟨body, hbody⟩ => ?_) Answered.reply)
    exact ⟨context, List.mem_append_right _ (List.mem_singleton_self _), body, hbody⟩
  · exact h

end Steps

theorem Sound.answered {c : Conversation} (h : Sound c) (hdone : ∀ e ∈ c.entries, e.phase = .done) {id : Nat} {e : Entry}
    (hid : c.entries[id]? = some e) (howner : e.role = .owner) : c.Answered id := by
  induction hn : c.entries.length - id using Nat.strong_induction_on generalizing id e with
  | _ n ih =>
    rcases h.done id e hid howner (hdone e (List.mem_of_getElem? hid)) with hanswered | ⟨j, f, hlt, hf, hfowner⟩
    · exact hanswered
    · have hj := (List.getElem?_eq_some_iff.mp hf).1
      have hlater := ih (c.entries.length - j) (by omega) hf hfowner rfl
      -- The later message is answered by a reply that comes after both.
      obtain ⟨k, g, hjk, hg, hassistant⟩ := h.replied j hlater
      exact h.before id k e g hid howner (hlt.trans hjk) hg hassistant

theorem sound_start : Sound {} := by
  refine ⟨?_, ?_, ?_, ?_, ?_, ?_, ?_⟩
  · intro e he
    cases he
  · intro context hcontext
    cases hcontext
  · rintro id ⟨context, hcontext, -⟩
    cases hcontext
  · intro id j e e' hid
    cases hid
  · intro id e context hid
    cases hid
  · intro id e hid
    cases hid
  · intro e he
    cases he

theorem sound_of_converses {historyTurns : Nat} {c : Conversation}
    (h : Converses historyTurns (fun c a => Short historyTurns c a ∧ Attentive c a) c) : Sound c := by
  induction h with
  | start => exact sound_start
  | step a _ hguard ih =>
    cases a with
    | accept body voice => exact ih.accept body voice
    | advance id text => exact ih.advance id text hguard.1 hguard.2

/-- Once all turns are done, the text of every message of the owner was part of the latest message of a turn whose answer was
    committed. -/
def NoneUnanswered (c : Conversation) : Prop :=
  (∀ e ∈ c.entries, e.phase = .done) → ∀ id e, c.entries[id]? = some e → e.role = .owner →
    ∃ context ∈ c.answered, (id, e.body) ∈ context.latest

end Conversation

open Conversation in
/-- In every run whose turns read a burst that fits, and leave no message behind, no message of the owner is lost. -/
theorem no_message_unanswered {historyTurns : Nat} {c : Conversation}
    (h : Converses historyTurns (fun c a => Short historyTurns c a ∧ Attentive c a) c) : NoneUnanswered c := by
  have hsound := sound_of_converses h
  intro hdone id e hid howner
  obtain ⟨context, hcontext, body, hbody⟩ := hsound.answered hdone hid howner
  obtain ⟨f, hf, -, rfl, -⟩ := hsound.told context hcontext (id, body) hbody
  rw [hid, Option.some.injEq] at hf
  exact ⟨context, hcontext, hf ▸ hbody⟩

open Conversation in
/-- One message, and its turn to the end. -/
theorem no_message_unanswered_one :
    NoneUnanswered
      { entries := [{ role := .owner, body := "a" }, { role := .assistant, body := "ok" }]
        answered := [{ conversation := [], latest := [(0, "a")] }] } := by
  have haccepted : Converses 2 (fun c a => Short 2 c a ∧ Attentive c a) _ :=
    Converses.start.step (.accept "a" false) ⟨trivial, trivial⟩
  have hlooking := haccepted.step (.advance 0 "")
    ⟨fun _ _ _ => by decide, fun e he => by cases he; trivial⟩
  have hreading := hlooking.step (.advance 0 "")
    ⟨fun _ _ _ => by decide, fun e he => by cases he; trivial⟩
  have hthinking := hreading.step (.advance 0 "") ⟨fun _ _ _ => by decide, fun e he => by
    cases he
    change ∀ other ∈ burst _, ¬Unheard other
    decide⟩
  have hdone := hthinking.step (.advance 0 "ok") ⟨fun _ _ _ => by decide, fun e he => by
    cases he
    intro j other hother _
    obtain ⟨hlt, -⟩ := List.getElem?_eq_some_iff.mp hother
    obtain rfl : j = 0 := Nat.lt_one_iff.mp hlt
    exact .inl ⟨"a", List.mem_singleton_self _⟩⟩
  exact no_message_unanswered hdone

open Conversation in
/-- The second message comes while the turn of the first one is thinking; its own turn finds the reply to the first. -/
theorem message_during_turn_unanswered :
    ¬∀ historyTurns c, Converses historyTurns (fun c a => Short historyTurns c a) c → NoneUnanswered c := by
  intro h
  have haccepted : Converses 2 (fun c a => Short 2 c a) _ := Converses.start.step (.accept "a" false) trivial
  have hlooking := haccepted.step (.advance 0 "") fun _ _ _ => by decide
  have hreading := hlooking.step (.advance 0 "") fun _ _ _ => by decide
  have hthinking := hreading.step (.advance 0 "") fun _ _ _ => by decide
  have harrived := hthinking.step (.accept "b" false) trivial
  have hanswered := harrived.step (.advance 0 "ok") fun _ _ _ => by decide
  have hlooking' := hanswered.step (.advance 1 "") fun _ _ _ => by decide
  have hdone := h 2 _ (hlooking'.step (.advance 1 "") fun _ _ _ => by decide)
  have hpart := hdone (by decide) 1 { role := .owner, body := "b" } (by decide) rfl
  exact absurd hpart (by decide)

end Vuzol.Assistant
