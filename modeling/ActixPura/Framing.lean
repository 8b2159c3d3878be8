import ActixPura.ByteCodec

/-!
# Length-prefixed frames

A frame is a payload behind its length in `w` bytes, the most significant first. A stream of frames
that is cut after any number of bytes still has all frames that lie completely before the cut:
reading frame by frame yields their payloads and then fails for lack of bytes.
-/

namespace ActixPura

def frame (w : ℕ) (payload : Bytes) : Bytes := beBytes w payload.length ++ payload

/-- The payload of the first frame and what follows it. -/
def readFrame (w : ℕ) (bs : Bytes) : Option (Bytes × Bytes) :=
  (readExact w bs).bind fun r => readExact (ofBE r.1) r.2

/-- The payloads whose frames lie completely within the first `cut` bytes. -/
def framesWithin (w : ℕ) : List Bytes → ℕ → List Bytes
  | [], _ => []
  | p :: ps, cut =>
    if (frame w p).length ≤ cut then p :: framesWithin w ps (cut - (frame w p).length) else []

variable {w : ℕ}

@[simp] theorem length_frame (w : ℕ) (p : Bytes) : (frame w p).length = w + p.length := by
  simp [frame]

theorem readFrame_append {p : Bytes} (h : p.length < 256 ^ w) (rest : Bytes) :
    readFrame w (frame w p ++ rest) = some (p, rest) := by
  rw [readFrame, frame, List.append_assoc, readExact_append (length_beBytes w _),
    Option.bind_some, ofBE_beBytes h, readExact_append rfl]

/-- The first frame is cut inside its length or inside its payload. -/
theorem readFrame_take {p : Bytes} (h : p.length < 256 ^ w) {cut : ℕ}
    (hcut : cut < (frame w p).length) : readFrame w ((frame w p).take cut) = none := by
  rw [length_frame] at hcut
  rw [readFrame]
  by_cases hlen : cut < w
  · rw [readExact_of_lt (by simp; omega), Option.bind_none]
  · have htake : (frame w p).take cut = beBytes w p.length ++ p.take (cut - w) := by
      rw [frame, List.take_append, length_beBytes, List.take_of_length_le (by simp; omega)]
    rw [htake, readExact_append (length_beBytes w _), Option.bind_some, ofBE_beBytes h]
    exact readExact_of_lt (by simp; omega)

/-- What is left of a cut stream behind its first frame. -/
theorem take_frame_append {p : Bytes} {cut : ℕ} (hcut : (frame w p).length ≤ cut) (rest : Bytes) :
    (frame w p ++ rest).take cut = frame w p ++ rest.take (cut - (frame w p).length) := by
  rw [List.take_append, List.take_of_length_le hcut]

theorem take_frame_append_of_lt {p : Bytes} {cut : ℕ} (hcut : cut < (frame w p).length)
    (rest : Bytes) : (frame w p ++ rest).take cut = (frame w p).take cut := by
  rw [List.take_append, Nat.sub_eq_zero_of_le hcut.le, List.take_zero, List.append_nil]

theorem length_framesWithin_le (hw : 0 < w) (ps : List Bytes) (cut : ℕ) :
    (framesWithin w ps cut).length ≤ ((ps.flatMap (frame w)).take cut).length := by
  induction ps generalizing cut with
  | nil => exact Nat.zero_le _
  | cons p ps ih =>
      rw [List.flatMap_cons, framesWithin]
      split_ifs with hle
      · have hrest := ih (cut - (frame w p).length)
        rw [take_frame_append hle, List.length_append, List.length_cons, length_frame]
        rw [length_frame] at hrest
        omega
      · exact Nat.zero_le _

end ActixPura
