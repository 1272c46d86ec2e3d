import Mathlib.Data.List.Perm.Subperm
import Mathlib.Logic.Relation
import Vuzol.Lib.Machine

/-! Dependencies between named items: a depth-first search for a cycle, and the stable order in which the first
    item that waits for nothing is picked again and again. -/

namespace Vuzol.Lib

open Relation

section Search
variable {κ : Type}

theorem exists_last {r : κ → κ → Prop} (htrans : ∀ a b c, r a b → r b c → r a c) {l : List κ}
    (hirrefl : ∀ a ∈ l, ¬r a a) (hne : l ≠ []) : ∃ a ∈ l, ∀ b ∈ l, ¬r a b := by
  induction l with
  | nil => exact absurd rfl hne
  | cons a l ih =>
    by_cases hl : l = []
    · subst hl
      refine ⟨a, List.mem_cons_self, fun b hb => ?_⟩
      rw [List.mem_singleton.mp hb]
      exact hirrefl a List.mem_cons_self
    · obtain ⟨m, hm, hlast⟩ := ih (fun b hb => hirrefl b (List.mem_cons_of_mem _ hb)) hl
      by_cases hma : r m a
      · refine ⟨a, List.mem_cons_self, fun b hb hab => ?_⟩
        rcases List.mem_cons.mp hb with rfl | hb
        · exact hirrefl b List.mem_cons_self hab
        · exact hlast b hb (htrans m a b hma hab)
      · refine ⟨m, List.mem_cons_of_mem _ hm, fun b hb => ?_⟩
        rcases List.mem_cons.mp hb with rfl | hb
        · exact hma
        · exact hlast b hb

inductive SearchError (κ : Type) where
  | cycle (node : κ)
  | tooDeep

/-- Visit a node and what it leads to; `visited` comes back with the nodes that are done, the last one first. -/
def visit [DecidableEq κ] (edges : κ → List κ) : Nat → List κ → List κ → κ → Except (SearchError κ) (List κ)
  | 0, _, _, _ => .error .tooDeep
  | limit + 1, visiting, visited, node =>
    if visited.contains node then .ok visited
    else if visiting.contains node then .error (.cycle node)
    else do
      let visited ← (edges node).foldlM (visit edges limit (node :: visiting)) visited
      .ok (node :: visited)

def search [DecidableEq κ] (edges : κ → List κ) (limit : Nat) (nodes : List κ) : Except (SearchError κ) (List κ) :=
  nodes.foldlM (visit edges limit []) []

variable (edges : κ → List κ)

def Leads (a b : κ) : Prop := b ∈ edges a

def Finished : List κ → Prop
  | [] => True
  | node :: visited => (∀ b ∈ edges node, b ∈ visited) ∧ Finished visited

variable {edges} {visiting visited nodes : List κ} {node a b : κ} {limit : Nat}

theorem Finished.closed (h : Finished edges visited) (ha : a ∈ visited) (hab : TransGen (Leads edges) a b) : b ∈ visited := by
  have hstep : ∀ {vs : List κ} {c d : κ}, Finished edges vs → c ∈ vs → d ∈ edges c → d ∈ vs := by
    intro vs c d hvs hc hd
    induction vs with
    | nil => cases hc
    | cons v vs ih =>
      rcases List.mem_cons.mp hc with rfl | hc
      · exact List.mem_cons_of_mem _ (hvs.1 d hd)
      · exact List.mem_cons_of_mem _ (ih hvs.2 hc)
  induction hab with
  | single hb => exact hstep h ha hb
  | tail _ hb ih => exact hstep h ih hb

theorem Finished.acyclic (h : Finished edges visited) (ha : a ∈ visited) : ¬TransGen (Leads edges) a a := by
  induction visited with
  | nil => cases ha
  | cons v vs ih =>
    intro hcycle
    by_cases hmem : a ∈ vs
    · exact ih h.2 hmem hcycle
    · obtain rfl : a = v := (List.mem_cons.mp ha).resolve_right hmem
      -- The first step of the cycle leaves the newest node for the older ones, which lead nowhere else.
      rcases TransGen.head'_iff.mp hcycle with ⟨b, hb, hrest⟩
      have hb' := h.1 b hb
      rcases reflTransGen_iff_eq_or_transGen.mp hrest with rfl | hback
      · exact hmem hb'
      · exact hmem (h.2.closed hb' hback)

structure Room (nodes : List κ) (limit : Nat) (visiting : List κ) : Prop where
  distinct : visiting.Nodup
  known : ∀ v ∈ visiting, v ∈ nodes
  room : nodes.length < visiting.length + limit

theorem Room.pos (h : Room nodes limit visiting) : 0 < limit := by
  have hle := (h.distinct.subperm h.known).length_le
  have := h.room
  omega

theorem Room.enter (h : Room nodes (limit + 1) visiting) (hnode : node ∈ nodes) (hnew : node ∉ visiting) :
    Room nodes limit (node :: visiting) where
  distinct := List.nodup_cons.mpr ⟨hnew, h.distinct⟩
  known v hv := by
    rcases List.mem_cons.mp hv with rfl | hv
    · exact hnode
    · exact h.known v hv
  room := by
    have := h.room
    rw [List.length_cons]
    omega

structure Visited (edges : κ → List κ) (before : List κ) (targets : List κ) (after : List κ) : Prop where
  finished : Finished edges after
  kept : ∀ v ∈ before, v ∈ after
  reached : ∀ v ∈ targets, v ∈ after

def OnCycle (edges : κ → List κ) (e : SearchError κ) : Prop := ∃ a, e = .cycle a ∧ TransGen (Leads edges) a a

theorem foldlM_meets {f : List κ → κ → Except (SearchError κ) (List κ)} {targets : List κ}
    (hf : ∀ v ∈ targets, ∀ visited, Finished edges visited → Meets (Visited edges visited [v]) (OnCycle edges) (f visited v))
    (hfin : Finished edges visited) : Meets (Visited edges visited targets) (OnCycle edges) (targets.foldlM f visited) := by
  induction targets generalizing visited with
  | nil => exact ⟨hfin, fun v hv => hv, fun v hv => by cases hv⟩
  | cons b targets ih =>
    rw [List.foldlM_cons]
    refine (hf b List.mem_cons_self visited hfin).bind fun visited1 h1 => ?_
    have hrest := ih (fun v hv => hf v (List.mem_cons_of_mem _ hv)) h1.finished
    cases hrun : targets.foldlM f visited1 with
    | error e => exact hrest.of_error hrun
    | ok visited2 =>
      have h2 := hrest.of_ok hrun
      refine ⟨h2.finished, fun v hv => h2.kept v (h1.kept v hv), fun v hv => ?_⟩
      rcases List.mem_cons.mp hv with rfl | hv
      · exact h2.kept v (h1.reached v List.mem_cons_self)
      · exact h2.reached v hv

variable [DecidableEq κ]

theorem visit_meets (hclosed : ∀ v ∈ nodes, ∀ b ∈ edges v, b ∈ nodes) (hroom : Room nodes limit visiting)
    (hchain : ∀ v ∈ visiting, TransGen (Leads edges) v node) (hnode : node ∈ nodes) (hfin : Finished edges visited) :
    Meets (Visited edges visited [node]) (OnCycle edges) (visit edges limit visiting visited node) := by
  induction limit generalizing visiting visited node with
  | zero => exact absurd hroom.pos (Nat.lt_irrefl 0)
  | succ limit ih =>
    unfold visit
    by_cases hdone : visited.contains node = true
    · rw [if_pos hdone]
      exact ⟨hfin, fun v hv => hv, fun v hv => by rwa [List.mem_singleton.mp hv, ← List.contains_iff_mem]⟩
    rw [if_neg hdone]
    by_cases hunder : visiting.contains node = true
    · rw [if_pos hunder]
      exact ⟨node, rfl, hchain node (List.contains_iff_mem.mp hunder)⟩
    rw [if_neg hunder]
    have hroom' := hroom.enter hnode fun h => hunder (List.contains_iff_mem.mpr h)
    have hedges : ∀ b ∈ edges node, ∀ visited, Finished edges visited →
        Meets (Visited edges visited [b]) (OnCycle edges) (visit edges limit (node :: visiting) visited b) := by
      intro b hb visited hfin
      refine ih hroom' (fun v hv => ?_) (hclosed node hnode b hb) hfin
      rcases List.mem_cons.mp hv with rfl | hv
      · exact .single hb
      · exact (hchain v hv).tail hb
    refine (foldlM_meets hedges hfin).bind fun visited1 h1 => ?_
    exact ⟨⟨h1.reached, h1.finished⟩, fun v hv => List.mem_cons_of_mem _ (h1.kept v hv), fun v hv => by
      rw [List.mem_singleton.mp hv]; exact List.mem_cons_self⟩

/-- With one nested visit more than there are nodes, the search ends in a cycle exactly when there is one. -/
theorem search_meets (hclosed : ∀ v ∈ nodes, ∀ b ∈ edges v, b ∈ nodes) :
    Meets (fun _ => ∀ a ∈ nodes, ¬TransGen (Leads edges) a a) (OnCycle edges) (search edges (nodes.length + 1) nodes) := by
  have hroom : Room nodes (nodes.length + 1) [] := ⟨List.nodup_nil, fun v hv => (List.not_mem_nil hv).elim, by simp⟩
  have hall : Meets (Visited edges [] nodes) (OnCycle edges) (nodes.foldlM (visit edges (nodes.length + 1) []) []) :=
    foldlM_meets (fun v hv _ hfin => visit_meets hclosed hroom (fun w hw => by cases hw) hv hfin) trivial
  unfold search
  cases hrun : nodes.foldlM (visit edges (nodes.length + 1) []) [] with
  | error e => exact hall.of_error hrun
  | ok visited =>
    have h := hall.of_ok hrun
    exact fun a ha => h.finished.acyclic (h.reached a ha)

end Search

section Order
variable {ι κ : Type} (name : ι → Option κ) (needs : ι → List κ)

def NeedsName (items : List ι) (a b : κ) : Prop := ∃ x ∈ items, name x = some a ∧ b ∈ needs x

theorem eq_of_name_eq {name : ι → Option κ} {items : List ι} (hnames : (items.filterMap name).Nodup) {x y : ι} {a : κ}
    (hx : x ∈ items) (hy : y ∈ items) (hxa : name x = some a) (hya : name y = some a) : x = y := by
  induction items with
  | nil => cases hx
  | cons z items ih =>
    have hmem : ∀ w ∈ items, name w = some a → name z ≠ some a := by
      intro w hw hwa hza
      rw [List.filterMap_cons_some hza] at hnames
      exact (List.nodup_cons.mp hnames).1 (List.mem_filterMap.mpr ⟨w, hw, hwa⟩)
    have hrest : (items.filterMap name).Nodup := hnames.sublist ((List.sublist_cons_self z items).filterMap name)
    rcases List.mem_cons.mp hx with rfl | hx'
    · rcases List.mem_cons.mp hy with rfl | hy'
      · rfl
      · exact absurd hxa (hmem y hy' hya)
    · rcases List.mem_cons.mp hy with rfl | hy'
      · exact absurd hya (hmem x hx' hxa)
      · exact ih hrest hx' hy'

variable [DecidableEq κ]

def isReady (done : List κ) (x : ι) : Bool := (needs x).all done.contains

def precedes : List κ → List ι → Bool
  | _, [] => true
  | done, x :: items => isReady needs done x && precedes ((name x).toList ++ done) items

theorem isReady_iff {needs : ι → List κ} {done : List κ} {x : ι} : isReady needs done x = true ↔ ∀ b ∈ needs x, b ∈ done := by
  simp [isReady]

theorem precedes_iff {name : ι → Option κ} {needs : ι → List κ} {done : List κ} {items : List ι} :
    precedes name needs done items = true ↔
      ∀ before x after, items = before ++ x :: after → ∀ b ∈ needs x, b ∈ done ∨ ∃ y ∈ before, name y = some b := by
  induction items generalizing done with
  | nil =>
    refine ⟨fun _ before x after h => ?_, fun _ => rfl⟩
    cases before <;> cases h
  | cons z items ih =>
    rw [precedes, Bool.and_eq_true, isReady_iff, ih]
    constructor
    · rintro ⟨hready, hrest⟩ before x after h b hb
      cases before with
      | nil =>
        obtain ⟨rfl, rfl⟩ := List.cons.inj h
        exact Or.inl (hready b hb)
      | cons w before =>
        obtain ⟨rfl, rfl⟩ := List.cons.inj h
        rcases hrest before x after rfl b hb with hdone | ⟨y, hy, hname⟩
        · rcases List.mem_append.mp hdone with hown | hdone
          · exact Or.inr ⟨z, List.mem_cons_self, Option.mem_toList.mp hown⟩
          · exact Or.inl hdone
        · exact Or.inr ⟨y, List.mem_cons_of_mem _ hy, hname⟩
    · intro h
      refine ⟨fun b hb => ?_, fun before x after hsplit b hb => ?_⟩
      · exact (h [] z items rfl b hb).resolve_right fun ⟨y, hy, _⟩ => (List.not_mem_nil hy).elim
      · rcases h (z :: before) x after (by rw [hsplit]; rfl) b hb with hdone | ⟨y, hy, hname⟩
        · exact Or.inl (List.mem_append_right _ hdone)
        · rcases List.mem_cons.mp hy with rfl | hy
          · exact Or.inl (List.mem_append_left _ (Option.mem_toList.mpr hname))
          · exact Or.inr ⟨y, hy, hname⟩

theorem precedes_map {β : Type} {name : ι → Option κ} {needs : ι → List κ} (f : β → ι) (done : List κ) (l : List β) :
    precedes name needs done (l.map f) = precedes (name ∘ f) (needs ∘ f) done l := by
  induction l generalizing done with
  | nil => rfl
  | cons b l ih =>
    rw [List.map_cons, precedes, precedes, ih]
    rfl

variable [DecidableEq ι]

/-- Pick the first item that is ready, until none is left; `none` when none is ready. The number is at least that
    of the pending items. -/
def orderFrom : Nat → List κ → List ι → Option (List ι)
  | _, _, [] => some []
  | 0, _, _ :: _ => none
  | n + 1, done, x :: rest =>
    match (x :: rest).find? (isReady needs done) with
    | none => none
    | some y => (orderFrom n ((name y).toList ++ done) ((x :: rest).erase y)).map (y :: ·)

def stableOrder (items : List ι) : Option (List ι) := orderFrom name needs items.length [] items

variable {name needs} {done : List κ} {items pending out : List ι} {n : Nat}

theorem orderFrom_sound (h : orderFrom name needs n done pending = some out) :
    out.Perm pending ∧ precedes name needs done out = true := by
  induction n generalizing done pending out with
  | zero =>
    cases pending with
    | nil => cases h; exact ⟨.refl _, rfl⟩
    | cons x rest => cases h
  | succ n ih =>
    cases pending with
    | nil => cases h; exact ⟨.refl _, rfl⟩
    | cons x rest =>
      unfold orderFrom at h
      cases hfind : (x :: rest).find? (isReady needs done) with
      | none => rw [hfind] at h; cases h
      | some y =>
        rw [hfind] at h
        obtain ⟨tail, htail, rfl⟩ := Option.map_eq_some_iff.mp h
        obtain ⟨hperm, hprecedes⟩ := ih htail
        rw [precedes, Bool.and_eq_true]
        exact ⟨(hperm.cons y).trans (List.perm_cons_erase (List.mem_of_find?_eq_some hfind)).symm,
          List.find?_some hfind, hprecedes⟩

theorem orderFrom_append {first : List ι} (h : orderFrom name needs n done (first ++ pending) = some out)
    (hfirst : precedes name needs done first = true) : ∃ rest, out = first ++ rest := by
  induction first generalizing n done out with
  | nil => exact ⟨out, rfl⟩
  | cons x first ih =>
    rw [precedes, Bool.and_eq_true] at hfirst
    cases n with
    | zero => cases h
    | succ n =>
      rw [List.cons_append] at h
      unfold orderFrom at h
      simp only [List.find?_cons_of_pos hfirst.1, List.erase_cons_head] at h
      obtain ⟨tail, htail, rfl⟩ := Option.map_eq_some_iff.mp h
      obtain ⟨rest, rfl⟩ := ih htail hfirst.2
      exact ⟨rest, rfl⟩

theorem orderFrom_of_precedes (hn : pending.length ≤ n) (h : precedes name needs done pending = true) :
    orderFrom name needs n done pending = some pending := by
  induction pending generalizing n done with
  | nil => unfold orderFrom; rfl
  | cons x pending ih =>
    rw [precedes, Bool.and_eq_true] at h
    cases n with
    | zero => simp at hn
    | succ n =>
      unfold orderFrom
      simp only [List.find?_cons_of_pos h.1, List.erase_cons_head]
      rw [ih (Nat.le_of_succ_le_succ hn) h.2]
      rfl

section
variable (hacyclic : ∀ a, ¬TransGen (NeedsName name needs items) a a) (hsub : ∀ x ∈ pending, x ∈ items)
    (hknown : ∀ x ∈ pending, ∀ b ∈ needs x, b ∈ done ∨ ∃ y ∈ pending, name y = some b)
include hacyclic hsub hknown

omit [DecidableEq ι] in
theorem exists_ready (hne : pending ≠ []) : ∃ x ∈ pending, isReady needs done x = true := by
  have hready : ∀ x ∈ pending, (∀ b ∈ needs x, ¬∃ y ∈ pending, name y = some b) → isReady needs done x = true := by
    intro x hx hnone
    unfold isReady
    rw [List.all_eq_true]
    exact fun b hb => List.contains_iff_mem.mpr ((hknown x hx b hb).resolve_right (hnone b hb))
  by_cases hnames : pending.filterMap name = []
  · obtain ⟨x, hx⟩ := List.exists_mem_of_ne_nil _ hne
    refine ⟨x, hx, hready x hx fun b _ ⟨y, hy, hname⟩ => ?_⟩
    have hmem : b ∈ pending.filterMap name := List.mem_filterMap.mpr ⟨y, hy, hname⟩
    rw [hnames] at hmem
    cases hmem
  · obtain ⟨a, ha, hlast⟩ := exists_last (r := TransGen (NeedsName name needs items)) (fun _ _ _ => TransGen.trans)
      (fun a _ => hacyclic a) hnames
    obtain ⟨x, hx, hname⟩ := List.mem_filterMap.mp ha
    refine ⟨x, hx, hready x hx fun b hb ⟨y, hy, hyname⟩ => ?_⟩
    exact hlast b (List.mem_filterMap.mpr ⟨y, hy, hyname⟩) (.single ⟨x, hsub x hx, hname, hb⟩)

theorem exists_orderFrom (hn : pending.length ≤ n) : ∃ out, orderFrom name needs n done pending = some out := by
  induction n generalizing done pending with
  | zero =>
    obtain rfl := List.length_eq_zero_iff.mp (Nat.le_zero.mp hn)
    exact ⟨[], by unfold orderFrom; rfl⟩
  | succ n ih =>
    cases pending with
    | nil => exact ⟨[], by unfold orderFrom; rfl⟩
    | cons x rest =>
      obtain ⟨z, hz, hzready⟩ := exists_ready hacyclic hsub hknown (List.cons_ne_nil x rest)
      cases hfind : (x :: rest).find? (isReady needs done) with
      | none => exact absurd hzready (by simpa using List.find?_eq_none.mp hfind z hz)
      | some y =>
        have hy := List.mem_of_find?_eq_some hfind
        have hstill : ∀ w ∈ (x :: rest).erase y, ∀ b ∈ needs w,
            b ∈ (name y).toList ++ done ∨ ∃ v ∈ (x :: rest).erase y, name v = some b := by
          intro w hw b hb
          rcases hknown w (List.mem_of_mem_erase hw) b hb with hdone | ⟨v, hv, hname⟩
          · exact Or.inl (List.mem_append_right _ hdone)
          · by_cases hvy : v = y
            · subst hvy
              exact Or.inl (List.mem_append_left _ (by rw [hname]; simp))
            · exact Or.inr ⟨v, (List.mem_erase_of_ne hvy).mpr hv, hname⟩
        have hlen : ((x :: rest).erase y).length ≤ n := by
          rw [List.length_erase_of_mem hy]
          exact Nat.le_of_succ_le_succ hn
        obtain ⟨tail, htail⟩ := ih (fun w hw => hsub w (List.mem_of_mem_erase hw)) hstill hlen
        refine ⟨y :: tail, ?_⟩
        unfold orderFrom
        rw [hfind]
        simp only [htail, Option.map_some]

end

end Order

end Vuzol.Lib
