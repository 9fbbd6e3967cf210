import StreamingPlatform.Lib.Transfer
import StreamingPlatform.Protocol.RoundTrip

namespace StreamingPlatform

open ByteString Transfer

/-!
# Protocol — frames on a socket (`frame.cpp`)

A frame is the length of its payload in four bytes, in network order, and the payload.
`recv` and `writev` may transfer fewer bytes than they are asked for; which number they
transfer is left to a schedule (`Lib/Transfer`).  Whatever the schedules, `writeFrame`
writes `wrapFrame` (`writeFrame_eq`) and `readFrame` takes one frame off the stream, or
fails when the stream ends within it (`readFrame_wrapFrame`, `readFrame_cut`).
-/

namespace Frame

/-- The bytes of `htonl(value)` in memory. -/
def htonl (value : Nat) : Bytes := Codec.putU32 value

/-- The number that `ntohl` makes of four bytes in memory. -/
def ntohl (bytes : Bytes) : Nat := (Codec.getU32 bytes 0).out.getD 0

/-- `wrap_frame`. -/
def wrapFrame (payload : Bytes) : Bytes := htonl payload.length ++ payload

/-- What the reader gets of a payload: the header holds its length in 32 bits. -/
def delivered (payload : Bytes) : Bytes := payload.take (payload.length % 2 ^ 32)

/-! ### Reading -/

/-- `read_exact`; `buffer` is what has been read so far, and `none` stands for `false`. -/
def readExact (length : Nat) (buffer : Bytes) (socket : Source UInt8) :
    Option Bytes × Source UInt8 :=
  if _hmore : buffer.length < length then
    let received := socket.receive (length - buffer.length)
    -- `recv` returns 0 at the end of the stream
    if _hend : received.1 = [] then (none, received.2)
    else readExact length (buffer ++ received.1) received.2
  else (some buffer, socket)
termination_by length - buffer.length
decreasing_by
  have hpos : 0 < (socket.receive (length - buffer.length)).1.length :=
    List.length_pos_iff.mpr _hend
  rw [List.length_append]
  omega

/-- `read_frame`. -/
def readFrame (socket : Source UInt8) : Option Bytes × Source UInt8 :=
  match readExact 4 [] socket with
  | (none, socket) => (none, socket)
  | (some networkLength, socket) =>
    let length := ntohl networkLength
    if length = 0 then (some [], socket)
    else readExact length [] socket

/-- The results of `n` calls of `read_frame`. -/
def readFrames : Nat → Source UInt8 → List (Option Bytes)
  | 0, _ => []
  | n + 1, socket => (readFrame socket).1 :: readFrames n (readFrame socket).2

/-! ### Writing -/

/-- The inner loop of `write_frame`: buffers that have gone out whole are passed over. -/
def passOver : List Bytes → Nat → List Bytes × Nat
  | [], consumed => ([], consumed)
  | buffer :: buffers, consumed =>
    if buffer.length ≤ consumed then passOver buffers (consumed - buffer.length)
    else (buffer :: buffers, consumed)

/-- The buffers after `consumed` bytes have gone out. -/
def advance (buffers : List Bytes) (consumed : Nat) : List Bytes :=
  match passOver buffers consumed with
  | ([], _) => []
  | (buffer :: buffers, consumed) =>
    if 0 < consumed then buffer.drop consumed :: buffers else buffer :: buffers

/-- The outer loop of `write_frame`. -/
def writeBuffers (frameSize : Nat) (buffers : List Bytes) (totalSent : Nat)
    (socket : Sink UInt8) : Bool × Sink UInt8 :=
  if _hmore : totalSent < frameSize then
    let sent := socket.send buffers
    if _hnone : sent.1 = 0 then (false, sent.2)
    else writeBuffers frameSize (advance buffers sent.1) (totalSent + sent.1) sent.2
  else (true, socket)
termination_by frameSize - totalSent
decreasing_by
  have hpos : 0 < (socket.send buffers).1 := Nat.pos_of_ne_zero _hnone
  omega

/-- `write_frame`; an empty payload has no buffer of its own. -/
def writeFrame (payload : Bytes) (socket : Sink UInt8) : Bool × Sink UInt8 :=
  let networkLength := htonl payload.length
  let buffers := if payload = [] then [networkLength] else [networkLength, payload]
  writeBuffers (networkLength.length + payload.length) buffers 0 socket

/-- Payloads written one after another; whether all calls have succeeded. -/
def writeFrames : List Bytes → Sink UInt8 → Bool × Sink UInt8
  | [], socket => (true, socket)
  | payload :: payloads, socket =>
    let written := writeFrame payload socket
    let rest := writeFrames payloads written.2
    (written.1 && rest.1, rest.2)

/-! ### What is written -/

@[simp] theorem length_wrapFrame (payload : Bytes) :
    (wrapFrame payload).length = 4 + payload.length := by
  unfold wrapFrame htonl
  rw [List.length_append, Codec.length_putU32]

/-- Passing over buffers loses nothing. -/
theorem passOver_flatten (buffers : List Bytes) (consumed : Nat) :
    (passOver buffers consumed).1.flatten.drop (passOver buffers consumed).2
      = buffers.flatten.drop consumed := by
  induction buffers generalizing consumed with
  | nil => simp [passOver]
  | cons buffer buffers ih =>
    rw [passOver]
    split
    · next hle =>
      rw [ih, List.flatten_cons, List.drop_append, List.drop_eq_nil_of_le hle, List.nil_append]
    · rfl

/-- A buffer that is left over is not all consumed. -/
theorem passOver_lt {buffers rest : List Bytes} {consumed left : Nat} {buffer : Bytes}
    (h : passOver buffers consumed = (buffer :: rest, left)) : left < buffer.length := by
  induction buffers generalizing consumed with
  | nil => exact absurd h (by simp [passOver])
  | cons first buffers ih =>
    rw [passOver] at h
    split at h
    · exact ih h
    · next hlt =>
      obtain ⟨hbuffers, rfl⟩ := Prod.mk.inj h
      rw [← (List.cons.inj hbuffers).1]
      exact Nat.lt_of_not_le hlt

/-- After `consumed` bytes the buffers hold the rest. -/
theorem flatten_advance (buffers : List Bytes) (consumed : Nat) :
    (advance buffers consumed).flatten = buffers.flatten.drop consumed := by
  have hflatten := passOver_flatten buffers consumed
  unfold advance
  split
  · next hpass =>
    rw [hpass] at hflatten
    exact (List.drop_nil.symm.trans hflatten)
  · next buffer rest left hpass =>
    have hlt := passOver_lt hpass
    rw [hpass] at hflatten
    rw [← hflatten, List.flatten_cons, List.drop_append_of_le_length hlt.le]
    split
    · rfl
    · next hzero =>
      obtain rfl : left = 0 := Nat.eq_zero_of_not_pos hzero
      rfl

/-- **The loop** writes what is left in the buffers, as long as it counts right. -/
theorem writeBuffers_eq {frameSize totalSent : Nat} {buffers : List Bytes} {socket : Sink UInt8}
    (hcount : totalSent + buffers.flatten.length = frameSize) :
    ∃ counts, writeBuffers frameSize buffers totalSent socket
      = (true, ⟨socket.items ++ buffers.flatten, counts⟩) := by
  fun_induction writeBuffers frameSize buffers totalSent socket with
  | case1 buffers totalSent socket hlt sent hnone =>
    -- there is something left, so something is sent
    have hzero := (Schedule.count_eq_zero_iff _).mp hnone
    omega
  | case2 buffers totalSent socket hlt sent hsome ih =>
    have hle : sent.1 ≤ buffers.flatten.length := Schedule.count_le _ _
    obtain ⟨counts, hrest⟩ := ih (by rw [flatten_advance, List.length_drop]; omega)
    refine ⟨counts, hrest.trans ?_⟩
    have hsent : sent.2.items = socket.items ++ buffers.flatten.take sent.1 := rfl
    rw [flatten_advance, hsent, List.append_assoc, List.take_append_drop]
  | case3 buffers totalSent socket hdone =>
    have hnil : buffers.flatten = [] := List.length_eq_zero_iff.mp (by omega)
    rw [hnil, List.append_nil]
    exact ⟨socket.counts, rfl⟩

/-- **One frame.** -/
theorem writeFrame_eq (payload : Bytes) (socket : Sink UInt8) :
    ∃ counts, writeFrame payload socket
      = (true, ⟨socket.items ++ wrapFrame payload, counts⟩) := by
  have hflatten : (if payload = [] then [htonl payload.length]
      else [htonl payload.length, payload]).flatten = wrapFrame payload := by
    unfold wrapFrame
    split
    · next hnil => rw [hnil, List.append_nil, List.flatten_singleton]
    · rw [List.flatten_cons, List.flatten_singleton]
  unfold writeFrame
  dsimp only
  rw [← hflatten]
  refine writeBuffers_eq ?_
  rw [hflatten, length_wrapFrame, Nat.zero_add]
  rfl

/-- The stream of frames of some payloads. -/
def frameStream (payloads : List Bytes) : Bytes := payloads.flatMap wrapFrame

@[simp] theorem frameStream_nil : frameStream [] = [] := rfl

@[simp] theorem frameStream_cons (payload : Bytes) (payloads : List Bytes) :
    frameStream (payload :: payloads) = wrapFrame payload ++ frameStream payloads :=
  List.flatMap_cons

/-- **All frames**, whatever the counts of `writev`. -/
theorem writeFrames_eq (payloads : List Bytes) (socket : Sink UInt8) :
    ∃ counts, writeFrames payloads socket
      = (true, ⟨socket.items ++ frameStream payloads, counts⟩) := by
  induction payloads generalizing socket with
  | nil => exact ⟨socket.counts, by rw [writeFrames, frameStream_nil, List.append_nil]⟩
  | cons payload payloads ih =>
    obtain ⟨counts, hwritten⟩ := writeFrame_eq payload socket
    obtain ⟨counts', hrest⟩ := ih ⟨socket.items ++ wrapFrame payload, counts⟩
    refine ⟨counts', ?_⟩
    rw [writeFrames, hwritten]
    dsimp only
    rw [hrest, frameStream_cons, List.append_assoc]
    rfl

/-! ### What is read -/

/-- **`read_exact`**, whatever the counts of `recv`: the next `length` bytes if there are so
    many, and a failure at the end of the stream otherwise. -/
theorem readExact_eq {length : Nat} {buffer : Bytes} {socket : Source UInt8}
    (hbuffer : buffer.length ≤ length) :
    ∃ counts, readExact length buffer socket
      = (if length ≤ buffer.length + socket.items.length then
          some (buffer ++ socket.items.take (length - buffer.length)) else none,
        ⟨socket.items.drop (length - buffer.length), counts⟩) := by
  fun_induction readExact length buffer socket with
  | case1 buffer socket hmore received hend =>
    have hnil := (socket.receive_eq_nil_iff (by omega)).mp hend
    have happend := socket.receive_append (length - buffer.length)
    refine ⟨received.2.counts, ?_⟩
    have hitems : received.2.items = [] := by
      rw [hnil] at happend
      exact (List.append_eq_nil_iff.mp happend).2
    rw [hnil, List.length_nil, if_neg (by omega), List.drop_nil, ← hitems]
  | case2 buffer socket hmore received hsome ih =>
    have happend : received.1 ++ received.2.items = socket.items := socket.receive_append _
    have hle : received.1.length ≤ length - buffer.length := socket.length_receive_le _
    obtain ⟨counts, hrest⟩ := ih (by rw [List.length_append]; omega)
    refine ⟨counts, hrest.trans ?_⟩
    -- what is left to read after this call
    have hleft : length - (buffer ++ received.1).length
        = length - buffer.length - received.1.length := by
      rw [List.length_append]
      omega
    rw [← happend, hleft, List.take_append, List.take_of_length_le hle, List.drop_append,
      List.drop_eq_nil_of_le hle, List.nil_append, List.append_assoc, List.length_append,
      List.length_append, Nat.add_assoc]
  | case3 buffer socket hdone =>
    have hzero : length - buffer.length = 0 := by omega
    refine ⟨socket.counts, ?_⟩
    rw [if_pos (by omega), hzero, List.take_zero, List.append_nil, List.drop_zero]

theorem ntohl_htonl (value : Nat) : ntohl (htonl value) = value % 2 ^ 32 := by
  have hbytes : (Codec.putU32 value).drop 0 = Codec.putBE 4 value ++ [] := (List.append_nil _).symm
  unfold ntohl htonl Codec.getU32
  rw [Codec.getBE_putBE 4 value 0 0 hbytes, Nat.zero_mul, Nat.zero_add]
  rfl

/-- The two calls of `read_exact` in `read_frame`. -/
theorem readFrame_eq (socket : Source UInt8) (h : 4 ≤ socket.items.length) :
    ∃ counts, readFrame socket
      = (if ntohl (socket.items.take 4) ≤ (socket.items.drop 4).length then
          some ((socket.items.drop 4).take (ntohl (socket.items.take 4))) else none,
        ⟨(socket.items.drop 4).drop (ntohl (socket.items.take 4)), counts⟩) := by
  obtain ⟨counts, hheader⟩ := @readExact_eq 4 [] socket (by decide)
  rw [List.length_nil, Nat.zero_add, if_pos h, List.nil_append] at hheader
  unfold readFrame
  rw [hheader]
  dsimp only
  split
  · next hzero =>
    -- an empty payload is not read at all
    rw [hzero, if_pos (Nat.zero_le _), List.take_zero, List.drop_zero]
    exact ⟨counts, rfl⟩
  · obtain ⟨counts', hpayload⟩ := @readExact_eq (ntohl (socket.items.take 4)) []
      ⟨socket.items.drop 4, counts⟩ (Nat.zero_le _)
    rw [List.length_nil, Nat.zero_add, List.nil_append] at hpayload
    exact ⟨counts', hpayload⟩

theorem delivered_eq {payload : Bytes} (h : payload.length < 2 ^ 32) :
    delivered payload = payload := by
  unfold delivered
  rw [Nat.mod_eq_of_lt h, List.take_length]

/-- The reader of a frame that is there gets what its header announces. -/
theorem readFrame_delivered (payload rest : Bytes) (counts : Schedule) :
    ∃ counts', readFrame ⟨wrapFrame payload ++ rest, counts⟩
      = (some (delivered payload), ⟨payload.drop (payload.length % 2 ^ 32) ++ rest, counts'⟩) := by
  have hheader : (wrapFrame payload ++ rest).take 4 = htonl payload.length := by
    unfold wrapFrame
    rw [List.append_assoc]
    exact List.take_left' (Codec.length_putU32 _)
  have hbody : (wrapFrame payload ++ rest).drop 4 = payload ++ rest := by
    unfold wrapFrame
    rw [List.append_assoc]
    exact List.drop_left' (Codec.length_putU32 _)
  have hle : payload.length % 2 ^ 32 ≤ payload.length := Nat.mod_le _ _
  obtain ⟨counts', hread⟩ := readFrame_eq ⟨wrapFrame payload ++ rest, counts⟩
    (by rw [List.length_append, length_wrapFrame]; omega)
  refine ⟨counts', hread.trans ?_⟩
  rw [hheader, hbody, ntohl_htonl, List.length_append, if_pos (Nat.le_add_right_of_le hle),
    List.take_append_of_le_length hle, List.drop_append_of_le_length hle]
  rfl

/-- A frame that is there is taken off the stream. -/
theorem readFrame_wrapFrame {payload : Bytes} (h : payload.length < 2 ^ 32) (rest : Bytes)
    (counts : Schedule) :
    ∃ counts', readFrame ⟨wrapFrame payload ++ rest, counts⟩ = (some payload, ⟨rest, counts'⟩) := by
  obtain ⟨counts', hread⟩ := readFrame_delivered payload rest counts
  refine ⟨counts', hread.trans ?_⟩
  rw [delivered_eq h, Nat.mod_eq_of_lt h, List.drop_length, List.nil_append]

/-- A frame that is cut off is not returned, and nothing is left of it. -/
theorem readFrame_cut {payload : Bytes} (h : payload.length < 2 ^ 32) {cut : Nat}
    (hcut : cut < (wrapFrame payload).length) (counts : Schedule) :
    ∃ counts', readFrame ⟨(wrapFrame payload).take cut, counts⟩ = (none, ⟨[], counts'⟩) := by
  have hlength : ((wrapFrame payload).take cut).length = cut := by
    rw [List.length_take]
    omega
  rw [length_wrapFrame] at hcut
  rcases Nat.lt_or_ge cut 4 with hshort | hlong
  · -- within the length
    obtain ⟨counts', hheader⟩ :=
      @readExact_eq 4 [] ⟨(wrapFrame payload).take cut, counts⟩ (by decide)
    rw [List.length_nil, Nat.zero_add, hlength, if_neg (by omega),
      List.drop_eq_nil_of_le (by rw [hlength]; omega)] at hheader
    refine ⟨counts', ?_⟩
    unfold readFrame
    rw [hheader]
  · -- within the payload
    have hheader : ((wrapFrame payload).take cut).take 4 = htonl payload.length := by
      rw [List.take_take, Nat.min_eq_left hlong]
      exact List.take_left' (Codec.length_putU32 _)
    obtain ⟨counts', hread⟩ := readFrame_eq ⟨(wrapFrame payload).take cut, counts⟩
      (by rw [hlength]; exact hlong)
    refine ⟨counts', hread.trans ?_⟩
    rw [hheader, ntohl_htonl, Nat.mod_eq_of_lt h, List.length_drop, hlength, if_neg (by omega),
      List.drop_eq_nil_of_le (by rw [List.length_drop, hlength]; omega)]

/-- At the end of the stream there is no frame. -/
theorem readFrame_nil (counts : Schedule) :
    ∃ counts', readFrame ⟨[], counts⟩ = (none, ⟨[], counts'⟩) :=
  @readFrame_cut [] (by decide) 0 (by decide) counts

theorem readFrames_nil (n : Nat) (counts : Schedule) :
    readFrames n ⟨[], counts⟩ = List.replicate n none := by
  induction n generalizing counts with
  | zero => rfl
  | succ n ih =>
    obtain ⟨counts', hread⟩ := readFrame_nil counts
    rw [readFrames, hread, ih, List.replicate_succ]

@[simp] theorem length_readFrames (n : Nat) (socket : Source UInt8) :
    (readFrames n socket).length = n := by
  induction n generalizing socket with
  | zero => rfl
  | succ n ih => rw [readFrames, List.length_cons, ih]

/-- **Frames from a stream that is cut.**  Whatever the counts of `recv`, a call returns a
    payload exactly if it is the next one and its frame is complete. -/
theorem readFrames_take_iff {payloads : List Bytes} (hlength : ∀ p ∈ payloads, p.length < 2 ^ 32)
    (cut : Nat) (counts : Schedule) (n i : Nat) (p : Bytes) :
    (readFrames n ⟨(frameStream payloads).take cut, counts⟩)[i]? = some (some p)
      ↔ i < n ∧ payloads[i]? = some p ∧ (frameStream (payloads.take (i + 1))).length ≤ cut := by
  -- on the calls: each takes a frame off the stream, or finds its end
  induction n generalizing payloads cut counts i with
  | zero => simp [readFrames]
  | succ n ih =>
    cases payloads with
    | nil =>
      rw [frameStream_nil, List.take_nil, readFrames_nil]
      simp [List.getElem?_replicate]
    | cons payload payloads =>
      obtain ⟨hpayload, hpayloads⟩ := List.forall_mem_cons.mp hlength
      rw [frameStream_cons]
      rcases Nat.lt_or_ge cut (wrapFrame payload).length with hcut | hcut
      · -- the frame is not complete, and later ones are not there
        obtain ⟨counts', hread⟩ := readFrame_cut hpayload hcut counts
        rw [List.take_append_of_le_length hcut.le, readFrames, hread, readFrames_nil,
          ← List.replicate_succ, List.take_succ_cons, frameStream_cons, List.length_append]
        constructor
        · intro hsome
          simp [List.getElem?_replicate] at hsome
        · omega
      · obtain ⟨counts', hread⟩ := readFrame_wrapFrame hpayload
          ((frameStream payloads).take (cut - (wrapFrame payload).length)) counts
        rw [List.take_append, List.take_of_length_le hcut, readFrames, hread,
          List.take_succ_cons, frameStream_cons, List.length_append]
        cases i with
        | zero =>
          rw [List.take_zero, frameStream_nil, List.length_nil]
          simp only [List.getElem?_cons_zero, Option.some.injEq]
          constructor
          · exact fun heq => ⟨Nat.succ_pos n, heq, hcut⟩
          · exact fun h => h.2.1
        | succ i =>
          rw [List.getElem?_cons_succ, List.getElem?_cons_succ, ih hpayloads,
            Nat.le_sub_iff_add_le' hcut, Nat.add_lt_add_iff_right]

/-- **Delivery.**  Payloads of less than 2³² bytes are all written, whatever the counts of
    `writev`; as many reads return exactly these payloads, whatever the counts of `recv`;
    and from the stream cut at any byte, a call returns a payload only if it is the next one
    and its frame is complete. -/
theorem frames_delivered (payloads : List Bytes) (hlength : ∀ p ∈ payloads, p.length < 2 ^ 32)
    (writes reads : Schedule) :
    (writeFrames payloads ⟨[], writes⟩).1 = true ∧
      readFrames payloads.length ⟨(writeFrames payloads ⟨[], writes⟩).2.items, reads⟩
        = payloads.map some ∧
      ∀ (cut n i : Nat) (p : Bytes),
        (readFrames n ⟨(writeFrames payloads ⟨[], writes⟩).2.items.take cut, reads⟩)[i]?
            = some (some p)
          ↔ i < n ∧ payloads[i]? = some p ∧
            ((payloads.take (i + 1)).flatMap wrapFrame).length ≤ cut := by
  obtain ⟨counts, hwritten⟩ := writeFrames_eq payloads ⟨[], writes⟩
  rw [hwritten]
  refine ⟨rfl, ?_, fun cut n i p => readFrames_take_iff hlength cut reads n i p⟩
  show readFrames payloads.length ⟨frameStream payloads, reads⟩ = payloads.map some
  have hall := readFrames_take_iff hlength (frameStream payloads).length reads payloads.length
  rw [List.take_length] at hall
  refine List.ext_getElem? (fun i => ?_)
  rcases Nat.lt_or_ge i payloads.length with hi | hi
  · rw [List.getElem?_map, List.getElem?_eq_getElem hi, Option.map_some]
    refine (hall i payloads[i]).mpr ⟨hi, List.getElem?_eq_getElem hi, ?_⟩
    -- the first frames are a part of the stream
    have hsplit : frameStream payloads
        = frameStream (payloads.take (i + 1)) ++ frameStream (payloads.drop (i + 1)) := by
      unfold frameStream
      rw [← List.flatMap_append, List.take_append_drop]
    rw [hsplit, List.length_append]
    exact Nat.le_add_right _ _
  · rw [List.getElem?_eq_none (by rw [length_readFrames]; exact hi),
      List.getElem?_eq_none (by rw [List.length_map]; exact hi)]

/-- Two frames, written byte by byte and read three bytes at a time. -/
theorem frames_delivered_two :
    readFrames 2 ⟨(writeFrames [[], [1, 2, 3]] ⟨[], fun _ => 1⟩).2.items, fun _ => 3⟩
      = [some [], some [1, 2, 3]] :=
  (frames_delivered [[], [1, 2, 3]] (by decide) (fun _ => 1) (fun _ => 3)).2.1

end Frame

end StreamingPlatform
