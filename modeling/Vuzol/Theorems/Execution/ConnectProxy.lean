import Vuzol.Lib.Rows
import Vuzol.Theorems.Execution.Egress

/-! What the proxy reaches: the addresses of approved names only, and no more bytes than the policy allows. -/

namespace Vuzol.ConnectProxy

open Vuzol.Lib

variable {pinned : Family × SockAddr} {answers : List AddrInfo}

theorem splitCrlf_ne_nil (t : Text) : splitCrlf t ≠ [] := by
  fun_induction splitCrlf t with
  | case1 t ih => exact List.cons_ne_nil _ _
  | case2 c t h ih =>
    obtain ⟨line, lines, hlines⟩ := List.exists_cons_of_ne_nil ih
    rw [hlines]
    exact List.cons_ne_nil _ _
  | case3 => exact List.cons_ne_nil _ _

theorem intercalate_splitCrlf (t : Text) : ['\r', '\n'].intercalate (splitCrlf t) = t := by
  fun_induction splitCrlf t with
  | case1 t ih =>
    rw [List.intercalate_cons_of_ne_nil (splitCrlf_ne_nil t), ih]
    rfl
  | case2 c t h ih =>
    obtain ⟨line, lines, hlines⟩ := List.exists_cons_of_ne_nil (splitCrlf_ne_nil t)
    rw [hlines] at ih ⊢
    rw [List.modifyHead_cons, List.intercalate_cons_cons_left, ih]
  | case3 => rfl

/-- A request that asks for a tunnel to the host: its lines, and the one `Host` field that names the host. -/
structure Request (text host : Text) : Prop where
  lines : ∃ fields, text = ['\r', '\n'].intercalate (("CONNECT ".toList ++ host ++ ":443 HTTP/1.1".toList) :: fields ++ [[], []]) ∧
    ∃ line, fields.filter isHostHeader = [line] ∧
      ((hostValue line).map Char.toLower = host ++ ":443".toList ∨ (hostValue line).map Char.toLower = host)
  canonical : isCanonicalHostname host = true

theorem parseConnect_eq_ok {method authority version : Text} {fields : List Text} {r : Option (Text × Nat)}
    (h : parseConnect method authority version fields = .ok r) : method = "CONNECT".toList ∧ version = "HTTP/1.1".toList ∧
      ∃ host, authority = host ++ ":443".toList ∧ r = some (host, 443) ∧ isCanonicalHostname host = true ∧
        ∃ line, fields.filter isHostHeader = [line] ∧
          ((hostValue line).map Char.toLower = authority ∨ (hostValue line).map Char.toLower = host) := by
  unfold parseConnect at h
  simp only [bind_eq_ok, raiseIf_eq_ok, exists_const, not_or, not_not, Ne] at h
  obtain ⟨⟨hmethod, hversion⟩, hcount, ⟨hcanonical, hport⟩, h⟩ := h
  obtain ⟨host, port, rfl, hhost, hp⟩ := exists_of_count_eq_one hcount
  rw [before_append hhost] at hcanonical
  rw [afterLast_append hp] at hport
  rw [before_append hhost] at h
  rw [Bool.not_eq_false] at hcanonical
  split at h
  · rename_i value hvalue
    simp only [bind_eq_ok, raiseIf_eq_ok, exists_const] at h
    obtain ⟨hmatch, -, h⟩ := h
    obtain ⟨line, hline, rfl⟩ := List.map_eq_singleton_iff.mp hvalue
    cases h
    refine ⟨hmethod, hversion, host, by rw [hport]; rfl, rfl, hcanonical, line, hline, ?_⟩
    rwa [not_and_or, not_not, not_not] at hmatch
  · cases h

theorem lines_eq {lines : List Text} (hend : lines.drop (lines.length - 2) = [[], []]) (hfirst : lines.headD [] ≠ []) :
    lines.headD [] :: lines.dropLast.dropLast.drop 1 ++ [[], []] = lines := by
  obtain ⟨front, hfront⟩ : ∃ front, lines = front ++ [[], []] := ⟨_, hend ▸ (List.take_append_drop _ lines).symm⟩
  rw [hfront] at hfirst ⊢
  cases front with
  | nil => exact absurd rfl hfirst
  | cons first fields =>
    have hsplit : first :: fields ++ [[], []] = first :: fields ++ [[]] ++ [[]] := by simp
    have hback : (first :: fields ++ [[], []]).dropLast.dropLast = first :: fields := by
      rw [hsplit, List.dropLast_concat, List.dropLast_concat]
    rw [hback]
    rfl

/-- What `_parse_connect_request` accepts for a tunnel. -/
theorem request_of_parse {header : Bytes} {target : Text × Nat} (h : parseConnectRequest header = .ok (some target)) :
    ∃ text, decodeAscii header = some text ∧ Request text target.1 ∧ target.2 = 443 := by
  unfold parseConnectRequest at h
  split at h
  · rename_i text htext
    refine ⟨text, htext, ?_⟩
    unfold parseRequestText at h
    obtain ⟨_, hend, h⟩ := bind_eq_ok.mp h
    have hend : (splitCrlf text).drop ((splitCrlf text).length - 2) = [[], []] := not_not.mp (raiseIf_eq_ok.mp hend)
    dsimp only at h
    split at h
    · cases h
    · split at h
      · rename_i method authority version hrequest
        obtain ⟨rfl, rfl, host, rfl, hr, hcanonical, line, hline, hvalue⟩ := parseConnect_eq_ok h
        cases hr
        refine ⟨⟨⟨(splitCrlf text).dropLast.dropLast.drop 1, ?_, line, hline, hvalue⟩, hcanonical⟩, rfl⟩
        have hfirst : (splitCrlf text).headD [] = "CONNECT ".toList ++ host ++ ":443 HTTP/1.1".toList := by
          have hjoin : [' '].intercalate (((splitCrlf text).headD []).splitOn ' ') = (splitCrlf text).headD [] :=
            List.intercalate_splitOn ' '
          rw [← hjoin, hrequest]
          simp
        rw [← hfirst, lines_eq hend, intercalate_splitCrlf]
        rintro heq
        rw [heq] at hrequest
        exact absurd hrequest (by simp)
      · cases h
  · cases h

structure Covers (answers : List AddrInfo) (unique : List (Family × SockAddr)) : Prop where
  seen : ∀ a ∈ answers, a.isStream = true → ∃ x ∈ unique, x.1 = a.family ∧ x.2.address = a.sockaddr.address
  from_answers : ∀ x ∈ unique, ∃ a ∈ answers, a.isStream = true ∧ x = (a.family, a.sockaddr)

theorem Covers.add {unique : List (Family × SockAddr)} (C : Covers answers unique) (a : AddrInfo) :
    Covers (answers ++ [a]) (addUnique unique a) := by
  have hfrom : ∀ x ∈ unique, ∃ b ∈ answers ++ [a], b.isStream = true ∧ x = (b.family, b.sockaddr) := fun x hx => by
    obtain ⟨b, hb, hstream, hx⟩ := C.from_answers x hx
    exact ⟨b, List.mem_append_left _ hb, hstream, hx⟩
  unfold addUnique
  split
  · rename_i hskip
    refine ⟨fun b hb hstream => ?_, hfrom⟩
    rcases List.mem_append.mp hb with hb | hb
    · exact C.seen b hb hstream
    · rw [List.mem_singleton.mp hb, hskip] at hstream
      cases hstream
  · rename_i hstream
    split
    · rename_i hknown
      refine ⟨fun b hb hb' => ?_, hfrom⟩
      rcases Lib.mem_concat.mp hb with hb | rfl
      · exact C.seen b hb hb'
      · simpa only [List.any_eq_true, Bool.and_eq_true, decide_eq_true_eq] using hknown
    · refine ⟨fun b hb hb' => ?_, fun x hx => ?_⟩
      · rcases Lib.mem_concat.mp hb with hb | rfl
        · obtain ⟨x, hx, hsame⟩ := C.seen b hb hb'
          exact ⟨x, List.mem_append_left _ hx, hsame⟩
        · exact ⟨_, List.mem_append_right _ (List.mem_singleton_self _), rfl, rfl⟩
      · rcases List.mem_append.mp hx with hx | hx
        · exact hfrom x hx
        · exact ⟨a, List.mem_append_right _ (List.mem_singleton_self _), Bool.not_eq_false _ ▸ hstream, List.mem_singleton.mp hx⟩

theorem covers_foldl (answers : List AddrInfo) : Covers answers (answers.foldl addUnique []) := by
  have hall : ∀ done unique, Covers done unique → Covers (done ++ answers) (answers.foldl addUnique unique) := by
    induction answers with
    | nil =>
      intro done unique C
      rwa [List.append_nil]
    | cons a answers ih =>
      intro done unique C
      have h := ih (done ++ [a]) (addUnique unique a) (C.add a)
      rwa [List.append_assoc] at h
  exact hall [] [] ⟨by simp, by simp⟩

theorem resolvePublic_eq_ok (h : resolvePublic answers = .ok pinned) :
    (∀ a ∈ answers, a.isStream = true → addressIsPublic a.sockaddr.address = true) ∧
      ∃ a ∈ answers, a.isStream = true ∧ pinned = (a.family, a.sockaddr) := by
  have C := covers_foldl answers
  unfold resolvePublic at h
  split at h
  · cases h
  · rename_i first rest hunique
    rw [hunique] at C
    split at h
    · cases h
    · split at h
      · cases h
      · rename_i hpublic
        cases h
        refine ⟨fun a ha hstream => ?_, C.from_answers _ List.mem_cons_self⟩
        obtain ⟨x, hx, -, haddress⟩ := C.seen a ha hstream
        rw [Bool.not_eq_true, List.any_eq_false] at hpublic
        have hx := hpublic x hx
        rw [Bool.not_eq_true, Bool.not_eq_false'] at hx
        rwa [← haddress]

structure Relay.Bounded (r : Relay) (maximum : Nat) : Prop where
  limit : r.forwarded.length ≤ maximum
  counted : r.isFinished = false → r.total = r.forwarded.length

theorem Relay.Bounded.read {r : Relay} {maximum : Nat} (B : r.Bounded maximum) (hopen : r.isFinished = false) (chunk : Bytes) :
    (r.read maximum chunk).Bounded maximum := by
  unfold Relay.read
  split
  · exact ⟨B.limit, fun h => absurd h (by simp)⟩
  · split
    · exact ⟨B.limit, fun h => absurd h (by simp)⟩
    · rename_i hlimit
      have hcounted := B.counted hopen
      refine ⟨?_, fun _ => ?_⟩
      · rw [List.length_append]
        omega
      · rw [List.length_append, hcounted]

def Approved (policy : ConnectProxyPolicy) (header : Bytes) : Prop :=
  ∃ target ∈ policy.targets, parseConnectRequest header = .ok (some target)

structure Guarded (policy : ConnectProxyPolicy) (s : Session) : Prop where
  approved : (s.phase ≠ .reading ∧ s.phase ≠ .closed) ∨ s.opened ≠ [] → Approved policy s.header
  unopened : s.phase = .reading ∨ (∃ t, s.phase = .resolving t) ∨ (∃ x, s.phase = .resolved x) → s.opened = []
  resolved : ∀ x, s.phase = .resolved x → resolvePublic s.answers = .ok x
  opened : ∀ x ∈ s.opened, resolvePublic s.answers = .ok x
  request : s.requestRelay.Bounded policy.maximumBytesPerDirection
  response : s.responseRelay.Bounded policy.maximumBytesPerDirection

namespace Guarded
variable {policy : ConnectProxyPolicy} {s t : Session}

theorem init : Guarded policy {} where
  approved h := by simp at h
  unopened _ := rfl
  resolved x h := by cases h
  opened x h := by cases h
  request := ⟨Nat.zero_le _, fun _ => rfl⟩
  response := ⟨Nat.zero_le _, fun _ => rfl⟩

section
variable (G : Guarded policy s)
include G

theorem relay (d : Direction) : (s.relay d).Bounded policy.maximumBytesPerDirection := by
  cases d with
  | request => exact G.request
  | response => exact G.response

theorem close : Guarded policy s.close where
  approved h := by
    rcases h with h | h
    · exact absurd rfl h.2
    · exact G.approved (Or.inr h)
  unopened h := by
    rcases h with h | ⟨_, h⟩ | ⟨_, h⟩ <;> cases h
  resolved x h := by cases h
  opened := G.opened
  request := G.request
  response := G.response

theorem receiveHeader (hs : s.phase = .reading) (header : Bytes) : Guarded policy (s.receiveHeader policy header) := by
  have hopened := G.unopened (Or.inl hs)
  have hclosed : Guarded policy { s with header := header }.close :=
    { approved := fun h => by
        rcases h with h | h
        · exact absurd rfl h.2
        · exact absurd hopened h
      unopened := fun h => by rcases h with h | ⟨_, h⟩ | ⟨_, h⟩ <;> cases h
      resolved := fun x h => by cases h
      opened := G.opened
      request := G.request
      response := G.response }
  unfold Session.receiveHeader
  split
  · exact hclosed
  · split
    · rename_i target htarget
      split
      · rename_i hmem
        exact { approved := fun _ => ⟨target, hmem, htarget⟩
                unopened := fun _ => hopened
                resolved := fun x h => by cases h
                opened := G.opened
                request := G.request
                response := G.response }
      · exact hclosed
    · exact hclosed

theorem resolve {target : Text × Nat} (hs : s.phase = .resolving target)
    (h : s.perform policy (.resolve answers) = .ok t) : Guarded policy t := by
  have hopened := G.unopened (Or.inr (Or.inl ⟨target, hs⟩))
  have happroved := G.approved (Or.inl (by simp [hs]))
  simp only [Session.perform, hs] at h
  split at h
  · rename_i pinned hpinned
    cases h
    exact { approved := fun _ => happroved
            unopened := fun _ => hopened
            resolved := fun x hx => by cases hx; exact hpinned
            opened := fun x hx => by rw [hopened] at hx; cases hx
            request := G.request
            response := G.response }
  · cases h
    exact { approved := fun _ => happroved
            unopened := fun _ => hopened
            resolved := fun x hx => by cases hx
            opened := fun x hx => by
              have hx : x ∈ s.opened := hx
              rw [hopened] at hx
              cases hx
            request := G.request
            response := G.response }

theorem openSocket (hs : s.phase = .resolved pinned) :
    Guarded policy { s with phase := .connecting pinned, opened := s.opened ++ [pinned] } where
  approved _ := G.approved (Or.inl (by simp [hs]))
  unopened h := by rcases h with h | ⟨_, h⟩ | ⟨_, h⟩ <;> cases h
  resolved x h := by cases h
  opened x hx := by
    rcases Lib.mem_concat.mp hx with hx | rfl
    · exact G.opened x hx
    · exact G.resolved _ hs
  request := G.request
  response := G.response

theorem established (hs : s.phase = .connecting pinned) :
    Guarded policy { s with phase := .tunnel } where
  approved _ := G.approved (Or.inl (by simp [hs]))
  unopened h := by rcases h with h | ⟨_, h⟩ | ⟨_, h⟩ <;> cases h
  resolved x h := by cases h
  opened := G.opened
  request := G.request
  response := G.response

theorem setRelay (d : Direction) {r : Relay} (B : r.Bounded policy.maximumBytesPerDirection) :
    Guarded policy (s.setRelay d r) := by
  cases d with
  | request =>
    exact { approved := G.approved, unopened := G.unopened, resolved := G.resolved, opened := G.opened, request := B,
            response := G.response }
  | response =>
    exact { approved := G.approved, unopened := G.unopened, resolved := G.resolved, opened := G.opened,
            request := G.request, response := B }

theorem perform {op : SessionOp} (h : s.perform policy op = .ok t) : Guarded policy t := by
  cases op with
  | receive sent =>
    simp only [Session.perform] at h
    split at h
    · rename_i header hs hread
      cases h
      exact G.receiveHeader hs header
    · cases h
  | resolve answers =>
    cases hs : s.phase with
    | resolving target => exact G.resolve hs h
    | _ => simp [Session.perform, hs] at h
  | openSocket =>
    simp only [Session.perform] at h
    split at h
    · rename_i pinned hs
      cases h
      exact G.openSocket hs
    · cases h
  | established =>
    simp only [Session.perform] at h
    split at h
    · rename_i pinned hs
      cases h
      exact G.established hs
    · cases h
  | relay d chunk =>
    simp only [Session.perform] at h
    split at h
    · cases h
    · split at h
      · cases h
      · rename_i hopen
        cases h
        exact G.setRelay d ((G.relay d).read (Bool.not_eq_true _ ▸ hopen) chunk)
  | close =>
    cases h
    exact G.close

end

end Guarded

theorem guarded_of_reaches {policy : ConnectProxyPolicy} {s : Session} (h : Session.Reaches policy s) : Guarded policy s :=
  h.invariant Guarded.init fun hs _ h => hs.perform h

/-- A socket is opened for an approved request only, to a checked address; each direction keeps within the limit. -/
theorem proxy_reaches_approved_hosts {policy : ConnectProxyPolicy} {s : Session} (h : Session.Reaches policy s) :
    (∀ pinned ∈ s.opened,
      (∃ text host, decodeAscii s.header = some text ∧ Request text host ∧ (host, 443) ∈ policy.targets) ∧
      (∀ a ∈ s.answers, a.isStream = true → addressIsPublic a.sockaddr.address = true) ∧
      ∃ a ∈ s.answers, a.isStream = true ∧ pinned = (a.family, a.sockaddr)) ∧
    ∀ d, (s.relay d).forwarded.length ≤ policy.maximumBytesPerDirection := by
  have G := guarded_of_reaches h
  refine ⟨fun pinned hpinned => ⟨?_, resolvePublic_eq_ok (G.opened pinned hpinned)⟩, fun d => (G.relay d).limit⟩
  obtain ⟨⟨host, port⟩, hmem, hparse⟩ := G.approved (Or.inr (List.ne_nil_of_mem hpinned))
  obtain ⟨text, htext, hrequest, hport⟩ := request_of_parse hparse
  cases hport
  exact ⟨text, host, htext, hrequest, hmem⟩

def samplePolicy : ConnectProxyPolicy :=
  { targets := [("api.example.com".toList, 443)], connectTimeoutSeconds := 10, idleTimeoutSeconds := 120,
    tunnelTimeoutSeconds := 1800, maximumBytesPerDirection := 1024 }

def sampleSent : Bytes :=
  "CONNECT api.example.com:443 HTTP/1.1\r\nHost: API.example.com\r\n\r\nhello".toList.map fun c => UInt8.ofNat c.toNat

def sampleAddress : SockAddr := { address := "8.8.8.8".toList, port := 443 }

def sampleOps : List SessionOp :=
  [.receive sampleSent, .resolve [⟨.inet, true, sampleAddress⟩], .openSocket, .established, .relay .request [1, 2, 3],
    .relay .response [4], .relay .request (List.replicate 1022 5)]

theorem proxy_reaches_approved_hosts_example : ∃ s, Session.Reaches samplePolicy s ∧ s.opened = [(.inet, sampleAddress)] ∧
    s.requestRelay.forwarded = [1, 2, 3] ∧ (∀ d, (s.relay d).forwarded.length ≤ 1024) := by
  have hrun : ends (fun s : Session => s.opened = [(.inet, sampleAddress)] ∧ s.requestRelay.forwarded = [1, 2, 3])
      (runOps (Session.perform samplePolicy) {} sampleOps) = true := by
    decide +kernel
  obtain ⟨s, hs, hend⟩ := exists_of_ends hrun
  have hreach : Session.Reaches samplePolicy s := reach_of_runOps (fun _ _ _ => trivial) hs
  obtain ⟨hopened, hforwarded⟩ := of_decide_eq_true hend
  exact ⟨s, hreach, hopened, hforwarded, (proxy_reaches_approved_hosts hreach).2⟩

end Vuzol.ConnectProxy
