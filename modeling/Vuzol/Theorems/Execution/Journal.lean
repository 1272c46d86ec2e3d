import Vuzol.Execution.Journal

/-! The journal after a crash: of a file that was cut behind its header the reader yields the records whose frames are
    whole, and ends without an error. -/

namespace Vuzol.Execution.Journal

open Vuzol.Lib
open Vuzol.Backup (Aead tagLen)

theorem writeAll_eq (accepts : Nat → Nat) (file remaining : Bytes) : writeAll accepts file remaining = file ++ remaining := by
  induction accepts, file, remaining using writeAll.induct with
  | case1 accepts file => rw [writeAll, if_pos rfl, List.append_nil]
  | case2 accepts file remaining hne ih =>
    rw [writeAll, if_neg hne, ih, List.append_assoc, List.take_append_drop]

/-- A record that a call has to leave in the file, its text, and where its frame ends. -/
structure Entry where
  call : Append
  record : Record
  text : Bytes
  ends : Nat

/-- The records that a sequence of calls has to write behind `pos` bytes, after the sequence number `seq`: each one whose
    frame (a nonce of 12 bytes, the text and a tag of 16) has at most `MAX_FRAME` bytes. -/
def expected (codec : Codec) (seq pos : Nat) : List Append → List Entry
  | [] => []
  | a :: calls =>
    match codec.dumps (codec.record (seq + 1) a) with
    | none => expected codec (seq + 1) pos calls
    | some text =>
      if 28 + text.length ≤ maxFrame then
        { call := a, record := codec.record (seq + 1) a, text, ends := pos + (4 + (28 + text.length)) } ::
          expected codec (seq + 1) (pos + (4 + (28 + text.length))) calls
      else expected codec (seq + 1) pos calls

section Cipher
variable {cipher : Aead} {codec : Codec}
variable {j : InvocationJournal}

namespace InvocationJournal

theorem length_encrypted (C : cipher.Correct) (a : Append) (text : Bytes) :
    (encrypted cipher a text).length = 28 + text.length := by
  rw [encrypted, List.length_append, a.length_nonce, C.length_encrypt, show tagLen = 16 from rfl]
  omega

theorem append_none {a : Append} (h : codec.dumps (codec.record (j.sequence + 1) a) = none) :
    j.append cipher codec a = (.error .notEncodable, { j with sequence := j.sequence + 1 }) := by
  rw [append, h]

theorem append_some (C : cipher.Correct) {a : Append} {text : Bytes}
    (h : codec.dumps (codec.record (j.sequence + 1) a) = some text) :
    j.append cipher codec a =
      if 28 + text.length ≤ maxFrame then
        (.ok (), { file := j.file ++ frame (encrypted cipher a text), sequence := j.sequence + 1 })
      else (.error .tooLarge, { j with sequence := j.sequence + 1 }) := by
  rw [append, h]
  dsimp only
  rw [length_encrypted C, writeAll_eq]
  by_cases hfit : 28 + text.length ≤ maxFrame
  · rw [if_pos hfit, if_neg (by omega)]
  · rw [if_neg hfit, if_pos (by omega)]

/-- One call writes the entry that it has to write, or nothing. -/
theorem append_cases (C : cipher.Correct) (codec : Codec) (j : InvocationJournal) (a : Append) :
    ((j.append cipher codec a).2 = { j with sequence := j.sequence + 1 } ∧
        ∀ calls, expected codec j.sequence j.file.length (a :: calls) =
          expected codec (j.sequence + 1) j.file.length calls) ∨
      ∃ text, codec.dumps (codec.record (j.sequence + 1) a) = some text ∧ 28 + text.length ≤ maxFrame ∧
        (j.append cipher codec a).2 =
          { file := j.file ++ frame (encrypted cipher a text), sequence := j.sequence + 1 } ∧
        ∀ calls, expected codec j.sequence j.file.length (a :: calls) =
          { call := a, record := codec.record (j.sequence + 1) a, text,
            ends := (j.file ++ frame (encrypted cipher a text)).length } ::
            expected codec (j.sequence + 1) (j.file ++ frame (encrypted cipher a text)).length calls := by
  cases hdumps : codec.dumps (codec.record (j.sequence + 1) a) with
  | none => exact Or.inl ⟨by rw [append_none hdumps], fun calls => by rw [expected, hdumps]⟩
  | some text =>
    have hlen : (j.file ++ frame (encrypted cipher a text)).length = j.file.length + (4 + (28 + text.length)) := by
      rw [List.length_append, length_frame, length_encrypted C]
    by_cases hfit : 28 + text.length ≤ maxFrame
    · refine Or.inr ⟨text, rfl, hfit, by rw [append_some C hdumps, if_pos hfit], fun calls => ?_⟩
      rw [expected, hdumps, hlen]
      exact if_pos hfit
    · refine Or.inl ⟨by rw [append_some C hdumps, if_neg hfit], fun calls => ?_⟩
      rw [expected, hdumps]
      exact if_neg hfit

variable {e : Entry}

theorem lt_ends {seq pos : Nat} {calls : List Append} (he : e ∈ expected codec seq pos calls) : pos < e.ends := by
  induction calls generalizing seq pos with
  | nil => cases he
  | cons a calls ih =>
    rw [expected] at he
    split at he
    · exact ih he
    · split at he
      · rcases List.mem_cons.mp he with rfl | he
        · show pos < pos + _
          omega
        · exact (Nat.lt_add_of_pos_right (by omega)).trans (ih he)
      · exact ih he

/-- What is known of an entry: its text is that of its record, and its frame fits. -/
theorem expected_sound {seq pos : Nat} {calls : List Append} (he : e ∈ expected codec seq pos calls) :
    ∃ k, e.record = codec.record k e.call ∧ codec.dumps e.record = some e.text ∧ 28 + e.text.length ≤ maxFrame := by
  induction calls generalizing seq pos with
  | nil => cases he
  | cons a calls ih =>
    rw [expected] at he
    split at he
    · exact ih he
    · next text hdumps =>
      split at he
      · next hfit =>
        rcases List.mem_cons.mp he with rfl | he
        · exact ⟨seq + 1, rfl, hdumps, hfit⟩
        · exact ih he
      · exact ih he

theorem entry_opens (C : cipher.Correct) (J : codec.RoundTrips) (hdumps : codec.dumps e.record = some e.text) :
    openFrame cipher codec (encrypted cipher e.call e.text) = .ok e.record := by
  rw [openFrame, encrypted, List.take_left' e.call.length_nonce, List.drop_left' e.call.length_nonce, C.decrypt_encrypt]
  dsimp only
  rw [J.loads_dumps _ _ hdumps]

theorem entry_payload (J : codec.RoundTrips) {k : Nat} (h : e.record = codec.record k e.call) :
    e.record.channel = e.call.channel ∧ codec.payload? e.record.content = some e.call.value := by
  rw [h]
  refine ⟨rfl, ?_⟩
  show codec.payload? (codec.content e.call.value) = some e.call.value
  cases e.call.value with
  | bytes b => simp only [Codec.content, Codec.payload?, J.b64decode_b64encode, Option.map_some]
  | data fields => rfl

theorem seq_lt (seq pos : Nat) (calls : List Append) :
    (∀ e ∈ expected codec seq pos calls, seq < e.record.seq) ∧
      (expected codec seq pos calls).Pairwise fun e e' => e.record.seq < e'.record.seq := by
  induction calls generalizing seq pos with
  | nil => exact ⟨fun e he => absurd he List.not_mem_nil, .nil⟩
  | cons a calls ih =>
    have hskip := ih (seq + 1) pos
    rw [expected]
    split
    · exact ⟨fun e he => (Nat.lt_succ_self _).trans (hskip.1 e he), hskip.2⟩
    · next text _ =>
      obtain ⟨hlt, hpair⟩ := ih (seq + 1) (pos + (4 + (28 + text.length)))
      split
      · exact ⟨List.forall_mem_cons.mpr ⟨Nat.lt_succ_self _, fun e he => (Nat.lt_succ_self _).trans (hlt e he)⟩,
          .cons (fun e he => hlt e he) hpair⟩
      · exact ⟨fun e he => (Nat.lt_succ_self _).trans (hskip.1 e he), hskip.2⟩

theorem run_file (C : cipher.Correct) (j : InvocationJournal) (calls : List Append) :
    (j.run cipher codec calls).file = j.file ++
      ((expected codec j.sequence j.file.length calls).map fun e => frame (encrypted cipher e.call e.text)).flatten := by
  induction calls generalizing j with
  | nil => exact (List.append_nil _).symm
  | cons a calls ih =>
    rw [run, List.foldl_cons, ← run, ih]
    rcases append_cases C codec j a with ⟨happend, hexpected⟩ | ⟨text, -, -, happend, hexpected⟩
    · rw [happend, hexpected]
    · rw [happend, hexpected, List.map_cons, List.flatten_cons, List.append_assoc]

theorem whole_expected (C : cipher.Correct) (seq pos : Nat) (calls : List Append) (n : Nat) :
    whole n ((expected codec seq pos calls).map fun e => (encrypted cipher e.call e.text, e.record)) =
      ((expected codec seq pos calls).filter fun e => e.ends ≤ pos + n).map (·.record) := by
  induction calls generalizing seq pos n with
  | nil => rfl
  | cons a calls ih =>
    rw [expected]
    split
    · exact ih _ _ n
    · next text _ =>
      split
      · rw [List.map_cons, whole, List.filter_cons]
        dsimp only
        rw [length_encrypted C]
        by_cases hcut : 4 + (28 + text.length) ≤ n
        · rw [if_pos hcut, if_pos (decide_eq_true (by omega)), List.map_cons, ih,
            show pos + (4 + (28 + text.length)) + (n - (4 + (28 + text.length))) = pos + n by omega]
        · -- The frames behind one that is cut end behind the cut as well.
          have hnone : (expected codec (seq + 1) (pos + (4 + (28 + text.length))) calls).filter
              (fun e => e.ends ≤ pos + n) = [] :=
            List.filter_eq_nil_iff.mpr fun e he => by
              have hlt := lt_ends he
              rw [decide_eq_true_eq]
              omega
          rw [if_neg hcut, if_neg (by rw [decide_eq_true_eq]; omega), hnone, List.map_nil]
      · exact ih _ _ n

end InvocationJournal

open InvocationJournal

theorem openJournal_ok {accepted : Nat} {start stdin : Append} (h : openJournal cipher codec accepted start stdin = .ok j) :
    j = InvocationJournal.run cipher codec { file := magic } [start, stdin] := by
  simp only [openJournal, bind_eq_ok] at h
  obtain ⟨-, -, -, -, -, -, h⟩ := h
  cases h
  rfl

/-- What is read of a journal that was cut behind its header: of the records that the calls have to write, those whose
    frames are whole. A record over `MAX_FRAME` is refused and not written. -/
theorem journal_survives_crash (C : cipher.Correct) (J : codec.RoundTrips) (calls : List Append) (n : Nat)
    (hmagic : magic.length ≤ n) :
    read cipher codec ((InvocationJournal.run cipher codec { file := magic } calls).file.take n) =
        { yielded := ((expected codec 0 magic.length calls).filter fun e => e.ends ≤ n).map (·.record), error := none } ∧
      (∀ e ∈ expected codec 0 magic.length calls, e.record.channel = e.call.channel ∧
        codec.payload? e.record.content = some e.call.value) ∧
      ((expected codec 0 magic.length calls).Pairwise fun e e' => e.record.seq < e'.record.seq) ∧
      ∀ (j : InvocationJournal) (a : Append) (text : Bytes), codec.dumps (codec.record (j.sequence + 1) a) = some text →
        if 28 + text.length ≤ maxFrame then (j.append cipher codec a).1 = .ok ()
        else (j.append cipher codec a).1 = .error .tooLarge ∧ (j.append cipher codec a).2.file = j.file := by
  refine ⟨?_, ?_, (seq_lt _ _ calls).2, ?_⟩
  · have htake : (InvocationJournal.run cipher codec { file := magic } calls).file.take n = magic ++
        (((expected codec 0 magic.length calls).map fun e => (encrypted cipher e.call e.text, e.record)).map
          fun p => frame p.1).flatten.take (n - magic.length) := by
      rw [run_file C, List.map_map, List.take_append, List.take_of_length_le hmagic]
      rfl
    have hentry : ∀ p ∈ (expected codec 0 magic.length calls).map (fun e => (encrypted cipher e.call e.text, e.record)),
        ∃ e : Entry, p = (encrypted cipher e.call e.text, e.record) ∧ codec.dumps e.record = some e.text ∧
          28 + e.text.length ≤ maxFrame := by
      intro p hp
      obtain ⟨e, he, rfl⟩ := List.mem_map.mp hp
      obtain ⟨-, -, hdumps, hfit⟩ := expected_sound he
      exact ⟨e, rfl, hdumps, hfit⟩
    rw [read, htake, List.take_left, if_neg (not_not_intro rfl), List.drop_left, readFrames_take, whole_expected C,
      show magic.length + (n - magic.length) = n by omega]
    · intro p hp
      obtain ⟨e, rfl, -, hfit⟩ := hentry p hp
      rw [length_encrypted C]
      exact Nat.lt_of_le_of_lt hfit (by decide)
    · intro p hp
      obtain ⟨e, rfl, -, hfit⟩ := hentry p hp
      rw [length_encrypted C]
      exact if_pos ⟨Nat.le_add_right _ _, hfit⟩
    · intro p hp
      obtain ⟨e, rfl, hdumps, -⟩ := hentry p hp
      exact entry_opens C J hdumps
  · intro e he
    obtain ⟨k, hrecord, -, -⟩ := expected_sound he
    exact entry_payload J hrecord
  · intro j a text hdumps
    rw [append_some C hdumps]
    split
    · rfl
    · exact ⟨rfl, rfl⟩

end Cipher

/-- The record of an empty chunk of `stdout`, and its text. -/
def emptyRecord : Record where
  seq := 1
  time := 0
  channel := ['s', 't', 'd', 'o', 'u', 't']
  content := .base64 []

def emptyText : Bytes := utf8 "\x7b\"seq\": 1, \"time\": 0.0, \"channel\": \"stdout\", \"base64\": \"\"\x7d"

/-- `json` on that record and `base64` on that chunk. -/
def emptyCodec : Codec where
  dumps
    | ⟨1, 0, channel, .base64 []⟩ => if channel = emptyRecord.channel then some emptyText else none
    | _ => none
  loads b := if b = emptyText then some emptyRecord else none
  b64encode b := b.map fun x => Char.ofNat x.toNat
  b64decode t := some (t.map fun c => UInt8.ofNat c.toNat)

theorem emptyCodec_roundTrips : emptyCodec.RoundTrips where
  loads_dumps r b h := by
    simp only [emptyCodec] at h ⊢
    split at h
    · split at h
      · next hchannel =>
        cases h
        rw [if_pos rfl, hchannel]
        rfl
      · cases h
    · cases h
  b64decode_b64encode b := by
    simp only [emptyCodec, List.map_map, Option.some.injEq]
    refine List.map_id'' (fun x => ?_) b
    have hvalid : x.toNat.isValidChar := Or.inl (x.toNat_lt.trans (by decide))
    rw [Function.comp_apply, Char.ofNat, dif_pos hvalid]
    exact UInt8.ofNat_toNat

/-- AES-256-GCM under the all-zero key and nonce: the key stream, and the tag of `emptyText`. -/
def keyStream : Bytes :=
  [206, 167, 64, 61, 77, 96, 107, 110, 7, 78, 197, 211, 186, 243, 157, 24, 114, 96, 3, 202, 55, 166, 42, 116, 209, 162, 245,
    142, 117, 6, 53, 142, 221, 74, 177, 40, 77, 74, 225, 123, 65, 232, 89, 36, 71, 12, 54, 247, 71, 65, 203, 225, 129, 187,
    127, 48, 97, 124]

def emptyTextTag : Bytes := [29, 12, 139, 44, 202, 210, 46, 49, 246, 156, 46, 158, 211, 26, 42, 118]

def streamed (b : Bytes) : Bytes := b.mapIdx fun i x => x ^^^ keyStream.getD i 0

def zeroKey : Aead where
  encrypt _ plain _ := streamed plain ++ emptyTextTag
  decrypt _ ct _ :=
    if ct.drop (ct.length - tagLen) = emptyTextTag then some (streamed (ct.take (ct.length - tagLen))) else none

theorem zeroKey_correct : zeroKey.Correct where
  decrypt_encrypt _ plain _ := by
    have hlen : (streamed plain ++ emptyTextTag).length - tagLen = (streamed plain).length := by
      rw [List.length_append]
      exact Nat.add_sub_cancel _ tagLen
    have hcancel : streamed (streamed plain) = plain := by
      rw [streamed, streamed, List.mapIdx_mapIdx]
      refine List.ext_getElem (List.length_mapIdx) fun i hi hi' => ?_
      rw [List.getElem_mapIdx, Function.comp_apply, UInt8.xor_assoc, UInt8.xor_self, UInt8.xor_zero]
    simp only [zeroKey]
    rw [hlen, List.drop_left, if_pos rfl, List.take_left, hcancel]
  length_encrypt _ plain _ := by
    show (streamed plain ++ emptyTextTag).length = _
    rw [List.length_append, streamed, List.length_mapIdx]
    rfl

def emptyOutput : Append where
  channel := emptyRecord.channel
  value := .bytes []
  time := 0
  nonce := List.replicate 12 0
  length_nonce := rfl
  accepts := fun _ => 0

/-- The whole file is read back; a cut behind the nonce of its only record leaves nothing to read. -/
theorem journal_survives_crash_stdout :
    read zeroKey emptyCodec ((InvocationJournal.run zeroKey emptyCodec { file := magic } [emptyOutput]).file.take 102) =
        { yielded := [emptyRecord] } ∧
      read zeroKey emptyCodec ((InvocationJournal.run zeroKey emptyCodec { file := magic } [emptyOutput]).file.take 28) =
        { yielded := [] } := by
  rw [(journal_survives_crash zeroKey_correct emptyCodec_roundTrips [emptyOutput] 102 (by decide)).1,
    (journal_survives_crash zeroKey_correct emptyCodec_roundTrips [emptyOutput] 28 (by decide)).1]
  exact ⟨rfl, rfl⟩

end Vuzol.Execution.Journal
