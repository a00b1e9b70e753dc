import BlocTrust.Domain
import BlocTrust.Framing
import Mathlib.Data.List.Infix

/-!
Sending a document to the malware scanner.
Each chunk of the stream goes out as one frame with a length of 32 bits.  The scanner judges what its
reader gets, which ends at the first empty chunk; the stream of a file has none, so a file is judged
as a whole however it is cut.
-/
namespace BlocTrust.Clamav

inductive Failure
  | outOfRange
  | indeterminate
  deriving DecidableEq, Repr

structure ScanResult where
  clean : Bool
  detail : Text
  deriving DecidableEq, Repr

/-- `zINSTREAM\0`. -/
def command : Bytes := [122, 73, 78, 83, 84, 82, 69, 65, 77, 0]

/-- `writeUInt32BE` throws when the length of the chunk has more than 32 bits. -/
def send : List Bytes → Except Failure Bytes
  | [] => .ok (Framing.bigEndian 4 0)
  | chunk :: chunks => do
      if 256 ^ 4 ≤ chunk.length then throw .outOfRange
      let rest ← send chunks
      return Framing.frame 4 chunk ++ rest

/-- `replace(/\0$/u, '')`. -/
def dropNul (t : Text) : Text := if t.getLast? = some '\x00' then t.dropLast else t

def readResponse (response : Text) : Except Failure ScanResult :=
  let detail := trim (dropNul response)
  if "OK".toList <:+ detail then .ok ⟨true, "CLEAN".toList⟩
  else if "FOUND".toList <:+: detail then .ok ⟨false, "MALWARE_FOUND".toList⟩
  else .error .indeterminate

/-- The daemon answers to the octets that it was sent. -/
def scanChunks (daemon : Bytes → Text) (chunks : List Bytes) : Except Failure ScanResult := do
  let sent ← send chunks
  readResponse (daemon (command ++ sent))

/-- The chunks of `createReadStream` with a `highWaterMark` of 64 KiB. -/
structure ReadStream (content : Bytes) where
  chunks : List Bytes
  content_eq : chunks.flatten = content
  nonempty : [] ∉ chunks
  short : ∀ chunk ∈ chunks, chunk.length ≤ 64 * 1024

def scanFile (daemon : Bytes → Text) {content : Bytes} (file : ReadStream content) :
    Except Failure ScanResult := scanChunks daemon file.chunks

def scanBytes (daemon : Bytes → Text) (bytes : Bytes) : Except Failure ScanResult :=
  scanChunks daemon [bytes]

section Daemon

inductive Verdict
  | clean
  | found (signature : Text)
  | error (message : Text)
  deriving DecidableEq, Repr

def Verdict.reply : Verdict → Text
  | clean => "stream: OK\x00".toList
  | found signature => "stream: ".toList ++ signature ++ " FOUND\x00".toList
  | error message => message ++ " ERROR\x00".toList

/-- The `INSTREAM` command: the daemon reads frames until one is empty and judges their contents. -/
structure Instream (daemon : Bytes → Text) (judge : Bytes → Verdict) : Prop where
  reply : ∀ payload chunks rest, Framing.read 4 payload = some (chunks, rest) →
    daemon (command ++ payload) = (judge chunks.flatten).reply

end Daemon

variable {daemon : Bytes → Text} {judge : Bytes → Verdict} {chunks : List Bytes}

theorem send_of_short (h : ∀ chunk ∈ chunks, chunk.length < 256 ^ 4) :
    send chunks = .ok (Framing.stream 4 chunks) := by
  induction chunks with
  | nil => rfl
  | cons chunk chunks ih =>
      have hchunk := h chunk List.mem_cons_self
      rw [send, ih fun c hc => h c (List.mem_cons_of_mem _ hc), if_neg (by omega),
        Framing.stream_cons]
      rfl

theorem send_of_long {chunk : Bytes} (hchunk : chunk ∈ chunks) (h : 256 ^ 4 ≤ chunk.length) :
    send chunks = .error .outOfRange := by
  induction chunks with
  | nil => cases hchunk
  | cons first chunks ih =>
      rw [send]
      by_cases hlong : 256 ^ 4 ≤ first.length
      · rw [if_pos hlong]
        rfl
      · rw [if_neg hlong]
        rcases List.mem_cons.mp hchunk with rfl | hrest
        · exact absurd h hlong
        · rw [ih hrest]
          rfl

/-- The scanner is asked about the chunks in front of the first empty one. -/
theorem scanChunks_of_short (hd : Instream daemon judge)
    (h : ∀ chunk ∈ chunks, chunk.length < 256 ^ 4) : scanChunks daemon chunks =
      readResponse (judge (chunks.takeWhile (· ≠ [])).flatten).reply := by
  have hread : Framing.read 4 (Framing.stream 4 chunks ++ []) = _ :=
    Framing.read_stream (by decide) h
  rw [List.append_nil] at hread
  rw [scanChunks, send_of_short h, ← hd.reply _ _ _ hread]
  rfl

section Replies

theorem dropNul_concat (t : Text) : dropNul (t ++ ['\x00']) = t := by
  simp [dropNul]

theorem getLast?_word {u w : Text} (hne : w ≠ []) : (u ++ w).getLast? = w.getLast? := by
  rw [List.getLast?_append, List.getLast?_eq_some_getLast hne]
  rfl

/-- A text whose last word is framed by letters keeps that word. -/
theorem trim_word {w : Text} (hne : w ≠ []) (hhead : ∀ c ∈ w.head?, isTrimmed c = false)
    (hlast : ∀ c ∈ w.getLast?, isTrimmed c = false) (t : Text) : ∃ u, trim (t ++ w) = u ++ w := by
  have hfront : ∃ u, (t ++ w).dropWhile isTrimmed = u ++ w := by
    induction t with
    | nil => exact ⟨[], dropWhile_of_head hhead⟩
    | cons c t ih =>
        by_cases hc : isTrimmed c = true
        · rw [List.cons_append, List.dropWhile_cons, if_pos hc]
          exact ih
        · rw [List.cons_append, List.dropWhile_cons, if_neg hc]
          exact ⟨c :: t, rfl⟩
  obtain ⟨u, hu⟩ := hfront
  refine ⟨u, ?_⟩
  rw [trim, hu, dropWhile_of_head, List.reverse_reverse]
  rw [List.head?_reverse, getLast?_word hne]
  exact hlast

theorem trim_found (t : Text) : ∃ u, trim (t ++ "FOUND".toList) = u ++ "FOUND".toList := by
  apply trim_word <;> simp [isTrimmed]

theorem trim_error (t : Text) : ∃ u, trim (t ++ "ERROR".toList) = u ++ "ERROR".toList := by
  apply trim_word <;> simp [isTrimmed]

theorem not_ok_suffix {u w : Text} (hne : w ≠ []) (hlast : w.getLast? ≠ some 'K') :
    ¬ "OK".toList <:+ u ++ w := by
  intro h
  obtain ⟨t, ht⟩ := h
  have hend := congrArg List.getLast? ht
  rw [getLast?_word hne, getLast?_word (by simp)] at hend
  exact hlast (hend.symm.trans (by simp))

/-- What the code makes of a judgement. -/
def Verdict.outcome : Verdict → Except Failure ScanResult
  | clean => .ok ⟨true, "CLEAN".toList⟩
  | found _ => .ok ⟨false, "MALWARE_FOUND".toList⟩
  | error message =>
      if "FOUND".toList <:+: trim (message ++ " ERROR".toList) then
        .ok ⟨false, "MALWARE_FOUND".toList⟩
      else .error .indeterminate

theorem readResponse_reply (v : Verdict) : readResponse v.reply = v.outcome := by
  cases v with
  | clean => decide
  | found signature =>
      have hreply : (Verdict.found signature).reply =
          (("stream: ".toList ++ signature ++ [' ']) ++ "FOUND".toList) ++ ['\x00'] := by
        have hword : " FOUND\x00".toList = [' '] ++ "FOUND".toList ++ ['\x00'] := by simp
        change "stream: ".toList ++ signature ++ " FOUND\x00".toList = _
        rw [hword]
        simp only [List.append_assoc]
      obtain ⟨u, hu⟩ := trim_found ("stream: ".toList ++ signature ++ [' '])
      rw [hreply, readResponse, dropNul_concat]
      simp only [hu]
      rw [if_neg (not_ok_suffix (by simp) (by simp)), if_pos (List.suffix_append u _).isInfix]
      rfl
  | error message =>
      have hreply : (Verdict.error message).reply =
          ((message ++ [' ']) ++ "ERROR".toList) ++ ['\x00'] := by
        have hword : " ERROR\x00".toList = [' '] ++ "ERROR".toList ++ ['\x00'] := by simp
        change message ++ " ERROR\x00".toList = _
        rw [hword]
        simp only [List.append_assoc]
      have hsame : message ++ " ERROR".toList = (message ++ [' ']) ++ "ERROR".toList := by
        have hword : " ERROR".toList = [' '] ++ "ERROR".toList := by simp
        rw [hword, List.append_assoc]
      obtain ⟨u, hu⟩ := trim_error (message ++ [' '])
      rw [hreply, readResponse, dropNul_concat, Verdict.outcome, hsame]
      simp only [hu]
      rw [if_neg (not_ok_suffix (by simp) (by simp))]

theorem outcome_clean_iff (v : Verdict) :
    (∃ detail, v.outcome = .ok ⟨true, detail⟩) ↔ v = .clean := by
  cases v with
  | clean => exact ⟨fun _ => rfl, fun _ => ⟨_, rfl⟩⟩
  | found signature => simp [Verdict.outcome]
  | error message =>
      simp only [Verdict.outcome]
      split <;> simp

end Replies

/-- A file is judged as a whole, however its stream is cut. -/
theorem scanFile_eq (hd : Instream daemon judge) {content : Bytes} (file : ReadStream content) :
    scanFile daemon file = (judge content).outcome := by
  have hshort : ∀ chunk ∈ file.chunks, chunk.length < 256 ^ 4 := by
    intro chunk hchunk
    have hle := file.short chunk hchunk
    omega
  have hall : file.chunks.takeWhile (· ≠ []) = file.chunks := by
    rw [List.takeWhile_eq_self_iff]
    intro chunk hchunk
    rw [decide_eq_true_eq]
    rintro rfl
    exact file.nonempty hchunk
  rw [scanFile, scanChunks_of_short hd hshort, hall, file.content_eq, readResponse_reply]

/-- A stream is reported as clean exactly if no chunk is too long for its frame and the scanner
finds nothing in the chunks in front of the first empty one; a file if it finds nothing in it. -/
theorem clean_iff_judged (hd : Instream daemon judge) :
    (∀ chunks, (∃ detail, scanChunks daemon chunks = .ok ⟨true, detail⟩) ↔
      (∀ chunk ∈ chunks, chunk.length < 256 ^ 4) ∧
        judge (chunks.takeWhile (· ≠ [])).flatten = .clean) ∧
    ∀ (content : Bytes) (file : ReadStream content),
      (∃ detail, scanFile daemon file = .ok ⟨true, detail⟩) ↔ judge content = .clean := by
  refine ⟨fun chunks => ?_, fun content file => ?_⟩
  · by_cases hshort : ∀ chunk ∈ chunks, chunk.length < 256 ^ 4
    · rw [scanChunks_of_short hd hshort, readResponse_reply, outcome_clean_iff]
      exact ⟨fun h => ⟨hshort, h⟩, fun h => h.2⟩
    · obtain ⟨chunk, hchunk, hlong⟩ : ∃ chunk ∈ chunks, 256 ^ 4 ≤ chunk.length := by
        by_contra hnone
        refine hshort fun chunk hchunk => ?_
        by_contra hlong
        exact hnone ⟨chunk, hchunk, by omega⟩
      have hthrows : scanChunks daemon chunks = .error .outOfRange := by
        rw [scanChunks, send_of_long hchunk hlong]
        rfl
      rw [hthrows]
      refine ⟨fun h => ?_, fun h => absurd h.1 hshort⟩
      obtain ⟨detail, hdetail⟩ := h
      cases hdetail
  · rw [scanFile_eq hd, outcome_clean_iff]

section Sample

/-- A scanner that looks for one octet. -/
def sampleJudge (bytes : Bytes) : Verdict := if 88 ∈ bytes then .found "Test".toList else .clean

def sampleDaemon (received : Bytes) : Text :=
  ((Framing.read 4 (received.drop 10)).map fun r => (sampleJudge r.1.flatten).reply).getD []

theorem sampleDaemon_instream : Instream sampleDaemon sampleJudge := by
  refine ⟨fun payload chunks rest h => ?_⟩
  have hpayload : (command ++ payload).drop 10 = payload := rfl
  rw [sampleDaemon, hpayload, h]
  rfl

/-- What follows an empty chunk is not looked at. -/
theorem clean_iff_judged_sample :
    ∃ detail, scanChunks sampleDaemon [[37], [], [88]] = .ok ⟨true, detail⟩ :=
  ((clean_iff_judged sampleDaemon_instream).1 _).mpr ⟨by decide, by decide⟩

end Sample
end BlocTrust.Clamav
