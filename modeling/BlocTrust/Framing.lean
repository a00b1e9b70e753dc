import Mathlib.Algebra.Group.Nat.Defs
import Mathlib.Data.List.TakeWhile

/-!
Frames with a length in front, ended by an empty frame.
The length of a chunk is written with the most significant octet first.  A reader takes one frame
after another and stops at the first that is empty, so what it has read of a stream of chunks are
those in front of the first empty chunk, whatever the chunks contain.
-/
namespace Framing

abbrev Octets := List UInt8

section Lengths

/-- The low octets of a number, the most significant one first. -/
def bigEndian : Nat → Nat → Octets
  | 0, _ => []
  | width + 1, n => bigEndian width (n / 256) ++ [UInt8.ofNat n]

def value (bs : Octets) : Nat := bs.foldl (fun n b => 256 * n + b.toNat) 0

variable {width n : Nat}

@[simp] theorem length_bigEndian (width n : Nat) : (bigEndian width n).length = width := by
  induction width generalizing n with
  | zero => rfl
  | succ width ih => rw [bigEndian, List.length_append, ih, List.length_singleton]

theorem value_concat (bs : Octets) (b : UInt8) : value (bs ++ [b]) = 256 * value bs + b.toNat := by
  rw [value, List.foldl_append]
  rfl

/-- A number that fits its octets is read back. -/
theorem value_bigEndian (h : n < 256 ^ width) : value (bigEndian width n) = n := by
  induction width generalizing n with
  | zero =>
      have hzero : n = 0 := by simpa using h
      subst hzero
      rfl
  | succ width ih =>
      have hquotient : n / 256 < 256 ^ width := by
        rw [Nat.pow_succ] at h
        omega
      have hoctet : (UInt8.ofNat n).toNat = n % 256 := by simp
      rw [bigEndian, value_concat, ih hquotient, hoctet]
      omega

end Lengths

section Frames

def frame (width : Nat) (chunk : Octets) : Octets := bigEndian width chunk.length ++ chunk

/-- The chunks one after another and the frame that ends them. -/
def stream (width : Nat) (chunks : List Octets) : Octets :=
  chunks.flatMap (frame width) ++ bigEndian width 0

/-- One frame, and what is behind it. -/
def readFrame (width : Nat) (bs : Octets) : Option (Octets × Octets) :=
  let n := value (bs.take width)
  let rest := bs.drop width
  if width ≤ bs.length ∧ n ≤ rest.length then some (rest.take n, rest.drop n) else none

/-- At most `count` frames before the empty one, and what is behind that. -/
def readFrames (width : Nat) : Nat → Octets → Option (List Octets × Octets)
  | 0, _ => none
  | count + 1, bs => do
      let (chunk, rest) ← readFrame width bs
      if chunk = [] then return ([], rest)
      let (chunks, rest) ← readFrames width count rest
      return (chunk :: chunks, rest)

/-- A frame of content is longer than its content, so the octets bound the number of frames. -/
def read (width : Nat) (bs : Octets) : Option (List Octets × Octets) :=
  readFrames width (bs.length + 1) bs

/-- What a reader leaves of the chunks that it was sent. -/
def leftover (width : Nat) (chunks : List Octets) : Octets :=
  match chunks.dropWhile (· ≠ []) with
  | [] => []
  | _ :: later => stream width later

variable {width count : Nat} {chunk rest : Octets} {chunks : List Octets}

theorem readFrame_append (h : chunk.length < 256 ^ width) :
    readFrame width (frame width chunk ++ rest) = some (chunk, rest) := by
  have htake : (frame width chunk ++ rest).take width = bigEndian width chunk.length := by
    rw [frame, List.append_assoc, List.take_append_of_le_length (by simp), List.take_of_length_le]
    simp
  have hdrop : (frame width chunk ++ rest).drop width = chunk ++ rest := by
    rw [frame, List.append_assoc, List.drop_append_of_le_length (by simp), List.drop_of_length_le]
    · rfl
    · simp
  simp only [readFrame, htake, hdrop, value_bigEndian h]
  rw [if_pos, List.take_left, List.drop_left]
  simp [frame]

theorem frame_nil : frame width [] = bigEndian width 0 := List.append_nil _

theorem stream_cons (width : Nat) (chunk : Octets) (chunks : List Octets) :
    stream width (chunk :: chunks) = frame width chunk ++ stream width chunks := by
  rw [stream, stream, List.flatMap_cons, List.append_assoc]

theorem readFrames_stream (h : ∀ chunk ∈ chunks, chunk.length < 256 ^ width)
    (hcount : chunks.length < count) :
    readFrames width count (stream width chunks ++ rest) =
      some (chunks.takeWhile (· ≠ []), leftover width chunks ++ rest) := by
  induction chunks generalizing count with
  | nil =>
      obtain ⟨count, rfl⟩ := Nat.exists_eq_add_one_of_ne_zero (Nat.ne_of_gt hcount)
      have hempty : readFrame width (stream width [] ++ rest) = some ([], rest) := by
        rw [stream, List.flatMap_nil, List.nil_append, ← frame_nil]
        exact readFrame_append (Nat.pow_pos (by decide))
      rw [readFrames, hempty]
      rfl
  | cons chunk chunks ih =>
      obtain ⟨count, rfl⟩ := Nat.exists_eq_add_one_of_ne_zero (Nat.ne_of_gt (Nat.zero_lt_of_lt hcount))
      have hchunk := h chunk List.mem_cons_self
      rw [readFrames, stream_cons, List.append_assoc, readFrame_append hchunk]
      by_cases hempty : chunk = []
      · subst hempty
        simp [leftover]
      · have hrest : readFrames width count (stream width chunks ++ rest) =
            some (chunks.takeWhile (· ≠ []), leftover width chunks ++ rest) := by
          apply ih (fun chunk hmem => h chunk (List.mem_cons_of_mem _ hmem))
          simp only [List.length_cons] at hcount
          omega
        simp [hempty, hrest, leftover]

theorem length_stream (hwidth : 0 < width) (chunks : List Octets) :
    chunks.length < (stream width chunks).length := by
  induction chunks with
  | nil => simpa [stream] using hwidth
  | cons chunk chunks ih =>
      rw [stream_cons, List.length_append, frame, List.length_append, length_bigEndian,
        List.length_cons]
      omega

/-- A reader gets the chunks in front of the first empty one. -/
theorem read_stream (hwidth : 0 < width) (h : ∀ chunk ∈ chunks, chunk.length < 256 ^ width) :
    read width (stream width chunks ++ rest) =
      some (chunks.takeWhile (· ≠ []), leftover width chunks ++ rest) := by
  apply readFrames_stream h
  have hlength := length_stream hwidth chunks
  rw [List.length_append]
  omega

end Frames
end Framing
