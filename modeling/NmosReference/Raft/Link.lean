import NmosReference.Raft.FrameCodec

open Protobuf

-- What a member hands to a connection, and what the other end makes of the bytes that arrive.
namespace Raft

structure Posted where
  message : Message
  stream  : Stream
  isReply : Bool
  deriving DecidableEq, Repr

def frameFor (p : Posted) : Frame where
  stream  := p.stream
  type    := p.message.type
  flags   := if p.isReply then FLAG_REPLY else 0
  payload := p.message.encode

-- A message above the cap of a frame is not sent, and leaves the connection as it was.
def write (p : Posted) : Bytes :=
  match encodeFrame (frameFor p) with
  | .ok data => data
  | .error _ => []

-- What does not decode is passed over: it arrived as it was sent.
def dispatched (frame : Frame) : Option Posted :=
  match decodeMessage frame.type frame.payload with
  | .ok message => some { message, stream := frame.stream, isReply := frame.isReply }
  | .error _    => none

def received (arrivals : Arrivals) : List Posted :=
  (pump arrivals).1.filterMap dispatched

variable {n turns : Nat} {arrivals : Arrivals} {f : Frame} {frames : List Frame} {rest : Bytes} {p : Posted}

theorem readexactly_ended (h : arrivals.flatten.length < n) : readexactly n arrivals = .error .ended := by
  induction arrivals generalizing n with
  | nil                    => cases n <;> simp_all [readexactly]
  | cons chunk arrivals hi =>
    cases n
    case zero => simp at h
    case succ n =>
      rw [List.flatten_cons, List.length_append] at h
      rw [readexactly, if_pos (by omega), hi (by omega)]
      rfl

theorem readexactly_ok (h : n ≤ arrivals.flatten.length) :
    ∃ left, readexactly n arrivals = .ok (arrivals.flatten.take n, left) ∧ left.flatten = arrivals.flatten.drop n := by
  induction arrivals generalizing n with
  | nil =>
    obtain rfl : n = 0 := by simpa using h
    exact ⟨[], rfl, rfl⟩
  | cons chunk arrivals hi =>
    cases n
    case zero => exact ⟨_, rfl, rfl⟩
    case succ n =>
      rw [List.flatten_cons, List.length_append] at h
      rw [readexactly, List.flatten_cons, List.take_append, List.drop_append]
      by_cases hc : chunk.length ≤ n + 1
      case pos =>
        obtain ⟨left, hr, hl⟩ := hi (n := n + 1 - chunk.length) (by omega)
        rw [if_pos hc, hr, List.take_of_length_le hc, List.drop_of_length_le hc]
        exact ⟨left, rfl, hl⟩
      case neg =>
        rw [if_neg hc, Nat.sub_eq_zero_of_le (by omega), List.take_zero, List.append_nil, List.drop_zero]
        exact ⟨_, rfl, List.flatten_cons⟩

-- The bytes of one frame are read as that frame, and no byte more is taken.
theorem readFrame_ok (h : Framed f.bytes f) (ha : arrivals.flatten = f.bytes ++ rest) :
    ∃ left, readFrame arrivals = .ok (f, left) ∧ left.flatten = rest := by
  have hl := h.length
  have hsize : fromBytes (arrivals.flatten.take HEADER_SIZE) 12 16 = f.payload.length := by
    rw [← h.size, ha, fromBytes, fromBytes, slice, slice, HEADER_SIZE, List.take_take, List.take_append_of_le_length]
    · rfl
    · simp only [hl, HEADER_SIZE, TRAILER_SIZE]
      omega
  have hheader : HEADER_SIZE ≤ arrivals.flatten.length := by
    rw [ha, List.length_append]
    omega
  obtain ⟨left, hr, hleft⟩ := readexactly_ok hheader
  have hrest : f.payload.length + TRAILER_SIZE ≤ left.flatten.length := by
    rw [hleft, ha, List.length_drop, List.length_append]
    omega
  obtain ⟨left', hr', hleft'⟩ := readexactly_ok hrest
  have hbytes : arrivals.flatten.take HEADER_SIZE ++ left.flatten.take (f.payload.length + TRAILER_SIZE) = f.bytes := by
    rw [hleft, ← List.take_add, ← Nat.add_assoc, ← hl, ha, List.take_left]
  refine ⟨left', ?_, ?_⟩
  case refine_1 =>
    have hcap : ¬MAX_FRAME < f.payload.length := Nat.not_lt.mpr h.cap
    simp only [readFrame, hr, hsize, hcap, hr', hbytes, decodeFrame_eq_ok.mpr h, bind, Except.bind, if_false]
  case refine_2 =>
    rw [hleft', hleft, List.drop_drop, ← Nat.add_assoc, ← hl, ha, List.drop_left]

-- A frame of which some bytes are missing is not read at all.
theorem readFrame_ended (h : Framed f.bytes f) (ha : arrivals.flatten <+: f.bytes)
    (hn : arrivals.flatten.length < f.bytes.length) : readFrame arrivals = .error .ended := by
  have hl := h.length
  obtain ⟨rest, hb⟩ := ha
  by_cases hh : HEADER_SIZE ≤ arrivals.flatten.length
  case neg =>
    simp only [readFrame, readexactly_ended (Nat.lt_of_not_le hh), bind, Except.bind]
  case pos =>
    have hsize : fromBytes (arrivals.flatten.take HEADER_SIZE) 12 16 = f.payload.length := by
      rw [← h.size, ← hb, fromBytes, fromBytes, slice, slice, HEADER_SIZE, List.take_take, List.take_append_of_le_length]
      · rfl
      · exact hh
    obtain ⟨left, hr, hleft⟩ := readexactly_ok hh
    have hshort : left.flatten.length < f.payload.length + TRAILER_SIZE := by
      rw [hleft, List.length_drop]
      omega
    have hcap : ¬MAX_FRAME < f.payload.length := Nat.not_lt.mpr h.cap
    simp only [readFrame, hr, hsize, hcap, readexactly_ended hshort, bind, Except.bind, if_false]

-- How many of the frames are among so many bytes.
def whole : List Frame → Nat → Nat
  | [],          _ => 0
  | f :: frames, n => if f.bytes.length ≤ n then whole frames (n - f.bytes.length) + 1 else 0

theorem pumpIn_eq (hf : ∀ f ∈ frames, Framed f.bytes f) (ha : arrivals.flatten <+: frames.flatMap Frame.bytes)
    (ht : arrivals.flatten.length < turns) :
    pumpIn turns arrivals = (frames.take (whole frames arrivals.flatten.length), .ended) := by
  induction frames generalizing arrivals turns with
  | nil =>
    obtain ⟨turns, rfl⟩ : ∃ t, turns = t + 1 := ⟨turns - 1, by omega⟩
    have he : arrivals.flatten = [] := List.prefix_nil.mp ha
    have hs : arrivals.flatten.length < HEADER_SIZE := by simp [he, HEADER_SIZE]
    simp only [pumpIn, readFrame, readexactly_ended hs, bind, Except.bind, whole, List.take_zero]
  | cons f frames hi =>
    obtain ⟨turns, rfl⟩ : ∃ t, turns = t + 1 := ⟨turns - 1, by omega⟩
    have hframed := hf f List.mem_cons_self
    rw [List.flatMap_cons] at ha
    rw [whole]
    split
    case isTrue hle =>
      obtain ⟨rest, he⟩ := List.prefix_of_prefix_length_le (List.prefix_append _ _) ha hle
      obtain ⟨left, hr, hleft⟩ := readFrame_ok hframed he.symm
      have hrest : left.flatten <+: frames.flatMap Frame.bytes := by
        rw [← he] at ha
        exact hleft ▸ (List.prefix_append_right_inj _).mp ha
      have hlength : left.flatten.length = arrivals.flatten.length - f.bytes.length := by
        rw [hleft, ← he, List.length_append, Nat.add_sub_cancel_left]
      have hpos : 0 < f.bytes.length := by
        have := hframed.length
        simp only [HEADER_SIZE] at this
        omega
      have hturns : left.flatten.length < turns := by omega
      have hp := hi (fun f h => hf f (List.mem_cons_of_mem _ h)) hrest hturns
      simp only [pumpIn, hr, hp, hlength, List.take_succ_cons]
    case isFalse hlt =>
      have hprefix : arrivals.flatten <+: f.bytes :=
        List.prefix_of_prefix_length_le ha (List.prefix_append _ _) (by omega)
      simp only [pumpIn, readFrame_ended hframed hprefix (by omega), List.take_zero]

theorem length_whole_le : ((frames.take (whole frames n)).flatMap Frame.bytes).length ≤ n := by
  induction frames generalizing n with
  | nil            => simp [whole]
  | cons f frames hi =>
    rw [whole]
    split
    case isTrue hle =>
      have := hi (n := n - f.bytes.length)
      rw [List.take_succ_cons, List.flatMap_cons, List.length_append]
      omega
    case isFalse => simp

theorem whole_maximal :
    whole frames n = frames.length ∨ n < ((frames.take (whole frames n + 1)).flatMap Frame.bytes).length := by
  induction frames generalizing n with
  | nil            => exact .inl rfl
  | cons f frames hi =>
    rw [whole]
    split
    case isTrue hle =>
      rcases hi (n := n - f.bytes.length) with h | h
      case inl => exact .inl (by rw [h, List.length_cons])
      case inr =>
        refine .inr ?_
        rw [List.take_succ_cons, List.flatMap_cons, List.length_append]
        omega
    case isFalse hlt =>
      refine .inr ?_
      simpa using hlt

def carried (p : Posted) : Bool :=
  p.message.encode.length ≤ MAX_FRAME

theorem frameFor_fits (h : carried p) : (frameFor p).Fits where
  cap   := of_decide_eq_true h
  minor := (by decide : PROTOCOL_MINOR < 2 ^ 16)
  flags := by
    simp only [frameFor]
    split <;> decide

theorem frameFor_framed (h : carried p) : Framed (frameFor p).bytes (frameFor p) := by
  refine (frameFor_fits h).framed ?_
  simp only [frameFor]
  split <;> rfl

theorem write_eq : write p = if carried p then (frameFor p).bytes else [] := by
  unfold write
  by_cases h : carried p
  case pos => rw [encodeFrame_eq_ok.mpr ⟨frameFor_fits h, rfl⟩, if_pos h]
  case neg =>
    have hn : MAX_FRAME < (frameFor p).payload.length := by simpa [carried, frameFor] using h
    simp only [encodeFrame, if_pos hn, h, if_false, bind, Except.bind, Bool.false_eq_true]

theorem flatMap_write {posted : List Posted} :
    posted.flatMap write = ((posted.filter carried).map frameFor).flatMap Frame.bytes := by
  induction posted with
  | nil            => rfl
  | cons p posted hi =>
    rw [List.flatMap_cons, hi, write_eq, List.filter_cons]
    split <;> simp

theorem dispatched_frameFor (hf : p.message.Fits) (h : carried p) : dispatched (frameFor p) = some p := by
  have hl : p.message.encode.length < 2 ^ 64 := (of_decide_eq_true h).trans_lt (by decide)
  have hd : decodeMessage p.message.type p.message.encode = .ok p.message :=
    Message.decode_encodes hl Message.encodes_encode hf
  obtain ⟨m, s, r⟩ := p
  cases r <;> simp [dispatched, frameFor, hd, Frame.isReply, FLAG_REPLY]

section Delivery

variable {posted : List Posted}

-- In whatever pieces the bytes arrive, and wherever the connection ends, the messages that arrived whole are
-- received, each once and in order, and nothing else is.
theorem link_delivers (hf : ∀ p ∈ posted, p.message.Fits)
    (ha : arrivals.flatten <+: posted.flatMap write) :
    ∃ j, received arrivals = (posted.filter carried).take j ∧
      (((posted.filter carried).take j).flatMap write).length ≤ arrivals.flatten.length ∧
      (j = (posted.filter carried).length ∨
        arrivals.flatten.length < (((posted.filter carried).take (j + 1)).flatMap write).length) := by
  let sent := posted.filter carried
  let frames := sent.map frameFor
  let n := arrivals.flatten.length
  have hsent {p : Posted} (hp : p ∈ sent) : p.message.Fits ∧ carried p :=
    ⟨hf p (List.mem_of_mem_filter hp), List.of_mem_filter hp⟩
  have hframes : ∀ f ∈ frames, Framed f.bytes f := by
    intro f hm
    obtain ⟨p, hp, rfl⟩ := List.mem_map.mp hm
    exact frameFor_framed (hsent hp).2
  have hwrite (j : Nat) : (sent.take j).flatMap write = (frames.take j).flatMap Frame.bytes := by
    have hall : (sent.take j).filter carried = sent.take j :=
      List.filter_eq_self.mpr fun p hp => (hsent (List.mem_of_mem_take hp)).2
    rw [flatMap_write, hall, List.map_take]
  have hp := pumpIn_eq hframes (flatMap_write ▸ ha) (Nat.lt_succ_self _)
  refine ⟨whole frames n, ?_, ?_, ?_⟩
  case refine_1 =>
    rw [received, pump, hp, ← List.map_take, List.filterMap_map]
    refine (List.filterMap_congr (g := some) fun p hp => ?_).trans List.filterMap_some
    have ⟨hf, hc⟩ := hsent (List.mem_of_mem_take hp)
    exact dispatched_frameFor hf hc
  case refine_2 =>
    rw [hwrite]
    exact length_whole_le
  case refine_3 =>
    rw [hwrite]
    have hl : frames.length = sent.length := List.length_map _
    exact hl ▸ whole_maximal

theorem link_delivers_cut :
    let ping : Posted := ⟨.ping ⟨1⟩, .control, false⟩
    let pong : Posted := ⟨.pong ⟨1⟩, .control, true⟩
    ∃ j, received [(write ping).take 9, (write ping).drop 9 ++ (write pong).take 20] = [ping, pong].take j := by
  intro ping pong
  have hf : ∀ p ∈ [ping, pong], p.message.Fits := by decide
  have ha : List.flatten [(write ping).take 9, (write ping).drop 9 ++ (write pong).take 20] <+:
    [ping, pong].flatMap write := by decide +kernel
  obtain ⟨j, h, _⟩ := link_delivers hf ha
  exact ⟨j, h⟩

end Delivery
end Raft
