import Nxp.Core.PacketLaws
import Nxp.Transport.WsFrame

/-! WebSocket frames come back as they were sent, and what the codec does to its buffers. -/

namespace Nxp

variable {k : Nat} {buf : Bytes}

/-- The lowest seven bits and the highest bit of an octet are apart. -/
theorem flag_apart {octet : UInt8} (low : octet.toNat < 128) (flag : Bool) :
    ((if flag then 0x80 else 0) ||| octet) &&& 0x7F = octet ∧
      (((if flag then 0x80 else 0) ||| octet) &&& 0x80 != 0) = flag := by
  have all : ∀ n < 128, ∀ flag : Bool,
      ((if flag then 0x80 else 0) ||| UInt8.ofNat n) &&& 0x7F = UInt8.ofNat n ∧
        (((if flag then 0x80 else 0) ||| UInt8.ofNat n) &&& 0x80 != 0) = flag := by
    decide +kernel
  simpa using all octet.toNat low flag

/-- The lowest four bits and the highest bit of an octet are apart. -/
theorem fin_apart {opcode : UInt8} (low : opcode.toNat < 16) (fin : Bool) :
    ((if fin then 0x80 else 0) ||| (opcode &&& 0x0F)) &&& 0x0F = opcode ∧
      (((if fin then 0x80 else 0) ||| (opcode &&& 0x0F)) &&& 0x80 != 0) = fin := by
  have all : ∀ n < 16, ∀ fin : Bool,
      ((if fin then 0x80 else 0) ||| (UInt8.ofNat n &&& 0x0F)) &&& 0x0F = UInt8.ofNat n ∧
        (((if fin then 0x80 else 0) ||| (UInt8.ofNat n &&& 0x0F)) &&& 0x80 != 0) = fin := by
    decide +kernel
  simpa using all opcode.toNat low fin

/-- The length is read back from its octets, and not before the last of them. -/
theorem wsLength_read (masked : Bool) (p : UInt64) (first : UInt8) :
    ∃ second more, wsLength (if masked then 0x80 else 0) p = second :: more ∧
      (second &&& 0x80 != 0) = masked ∧
      (∀ rest, wsPayloadLen (first :: second :: (more ++ rest)) (second &&& 0x7F) =
        some (p, 2 + more.length)) ∧
      ∀ k < more.length, wsPayloadLen (first :: second :: more.take k) (second &&& 0x7F) = none := by
  unfold wsLength
  split
  · rename_i short
    have small : p.toNat ≤ 125 := by simpa [UInt64.le_iff_toNat_le] using short
    have octet : p.toUInt8.toNat = p.toNat := by
      rw [UInt64.toNat_toUInt8]
      exact Nat.mod_eq_of_lt (by omega)
    obtain ⟨low, high⟩ := flag_apart (by omega : p.toUInt8.toNat < 128) masked
    refine ⟨_, [], rfl, high, fun rest => ?_, fun k none => nomatch none⟩
    have other {n : UInt8} (long : 125 < n.toNat) : p.toUInt8 ≠ n := by
      rintro rfl
      omega
    have same : p.toUInt8.toUInt64 = p := by rw [← UInt64.toNat_inj, UInt8.toNat_toUInt64, octet]
    rw [low, wsPayloadLen, if_neg (other (by decide)), if_neg (other (by decide)), same]
    rfl
  · split
    · rename_i short
      obtain ⟨low, high⟩ := flag_apart (by decide : (126 : UInt8).toNat < 128) masked
      refine ⟨_, _, rfl, high, fun rest => ?_, fun k early => ?_⟩
      · rw [low]
        simp [wsPayloadLen, readBigEndian_pair short]
      · rw [low]
        have small : k < 2 := early
        simp only [wsPayloadLen, List.length_cons, List.length_take]
        rw [if_pos (by decide), if_pos (by simp; omega)]
    · obtain ⟨low, high⟩ := flag_apart (by decide : (127 : UInt8).toNat < 128) masked
      refine ⟨_, _, rfl, high, fun rest => ?_, fun k early => ?_⟩
      · rw [low]
        have read : List.take 8 (timestampBytes p ++ rest) = timestampBytes p :=
          List.take_left' (timestampBytes_length p)
        simp [wsPayloadLen, read, readBigEndian_timestampBytes]
      · rw [low]
        rw [timestampBytes_length] at early
        simp only [wsPayloadLen, List.length_cons, List.length_take]
        rw [if_neg (by decide), if_pos (by decide), if_pos (by omega)]

/-- A header takes from two to fourteen octets. -/
theorem wsHeader_length (f : WsFrame) : 2 ≤ (wsHeader f).length ∧ (wsHeader f).length ≤ 14 := by
  have mask : (maskOctets f.mask).length ≤ 4 := by cases f.mask <;> simp [maskOctets]
  unfold wsHeader wsLength
  simp only [List.length_cons, List.length_append]
  split
  · simp only [List.length_singleton]
    omega
  · split <;> simp only [List.length_cons, List.length_nil, timestampBytes_length] <;> omega

/-- A mask is read back from its octets, and not before the last of them. -/
theorem wsMask_read (front : Bytes) (mask : Option (Vector UInt8 4)) :
    (∀ rest, wsMask (front ++ (maskOctets mask ++ rest)) mask.isSome front.length =
      some (mask, front.length + (maskOctets mask).length)) ∧
    ∀ k < (maskOctets mask).length,
      wsMask (front ++ (maskOctets mask).take k) mask.isSome front.length = none := by
  cases mask with
  | none => exact ⟨fun rest => rfl, fun k early => nomatch early⟩
  | some key =>
    have four : key.toList.length = 4 := by simp
    refine ⟨fun rest => ?_, fun k early => ?_⟩
    · have same : (Vector.ofFn fun i : Fin 4 =>
          (front ++ (key.toList ++ rest)).getD (front.length + i) 0) = key := by
        ext i inside
        have within : i < key.toList.length := by omega
        simp only [Vector.getElem_ofFn, List.getD_eq_getElem?_getD]
        rw [List.getElem?_append_right (by omega), Nat.add_sub_cancel_left,
          List.getElem?_append_left within, List.getElem?_eq_getElem within]
        simp
      simp only [wsMask, maskOctets, Option.isSome_some, if_true, List.length_append, four, same]
      rw [if_neg (by omega)]
    · have few : k < 4 := four ▸ early
      simp only [wsMask, maskOctets, Option.isSome_some, if_true, List.length_append,
        List.length_take, four]
      rw [if_pos (by omega)]

/-- A header is read back whatever follows it. -/
theorem wsReadHead_header {f : WsFrame} (opcode : f.opcode.toNat < 16) (rest : Bytes) :
    wsReadHead (wsHeader f ++ rest) =
      some ⟨f.opcode, f.fin, f.mask, f.payloadLen, (wsHeader f).length⟩ := by
  obtain ⟨code, fin⟩ := fin_apart opcode f.fin
  unfold wsHeader
  simp only
  generalize (if f.fin then (0x80 : UInt8) else 0) ||| (f.opcode &&& 0x0F) = first at *
  obtain ⟨second, more, split, high, read, -⟩ := wsLength_read f.mask.isSome f.payloadLen first
  have mask := (wsMask_read (first :: second :: more) f.mask).1 rest
  simp only [List.cons_append, List.length_cons] at mask
  simp only [split, List.cons_append, List.append_assoc, wsReadHead, high, read, code, fin,
    Option.bind_eq_bind, Option.bind_some, Nat.add_comm 2, mask, List.length_cons, List.length_append]
  congr 2
  omega

/-- A header that is not all there is not read. -/
theorem wsReadHead_prefix (f : WsFrame) (early : k < (wsHeader f).length) :
    wsReadHead ((wsHeader f).take k) = none := by
  unfold wsHeader at *
  simp only at *
  generalize (if f.fin then (0x80 : UInt8) else 0) ||| (f.opcode &&& 0x0F) = first at *
  obtain ⟨second, more, split, high, read, unread⟩ :=
    wsLength_read f.mask.isSome f.payloadLen first
  have mask := (wsMask_read (first :: second :: more) f.mask).2
  simp only [split, List.cons_append, List.length_cons, List.length_append] at early mask ⊢
  match k with
  | 0 => rfl
  | 1 => rfl
  | k + 2 =>
    simp only [List.take_succ_cons, wsReadHead, high, Option.bind_eq_bind]
    by_cases short : k < more.length
    · rw [List.take_append_of_le_length (Nat.le_of_lt short), unread k short]
      rfl
    · -- The length is there, so the mask is not.
      rw [List.take_append, List.take_of_length_le (Nat.le_of_not_lt short), read]
      simp only [Option.bind_some, Nat.add_comm 2]
      rw [mask _ (by omega)]
      rfl

section RoundTrip

variable {f : WsFrame} {data : Bytes}

/-- A mask does not change how long a payload is. -/
@[simp] theorem applyMask_length (mask : Option (Vector UInt8 4)) (data : Bytes) :
    (applyMask mask data).length = data.length := by
  cases mask <;> simp [applyMask, xorMask]

/-- A mask that is applied twice leaves the payload as it was. -/
theorem xorMask_xorMask (key : Vector UInt8 4) (data : Bytes) :
    xorMask key (xorMask key data) = data := by
  refine List.ext_getElem? fun i => ?_
  simp only [xorMask, List.getElem?_mapIdx]
  cases data[i]? with
  | none => rfl
  | some octet => exact congrArg some (Word.xor_xor_cancel octet _)

/-- A frame that is all there is decoded, whatever follows it. -/
theorem wsFrameDecode_whole (opcode : f.opcode.toNat < 16)
    (sized : data.length = f.payloadLen.toNat) (rest : Bytes)
    (bounded : (wsHeader f ++ applyMask f.mask data ++ rest).length < 2 ^ 64) :
    wsFrameDecode (wsHeader f ++ applyMask f.mask data ++ rest) =
      .decoded ⟨⟨f.opcode, f.fin, f.mask, f.payloadLen, (wsHeader f).length⟩,
        UInt64.ofNat (wsHeader f).length + f.payloadLen, wsHeader f ++ data ++ rest⟩ := by
  have head := wsReadHead_header opcode (applyMask f.mask data ++ rest)
  rw [← List.append_assoc] at head
  simp only [List.length_append, applyMask_length] at bounded
  have total : (UInt64.ofNat (wsHeader f).length + f.payloadLen).toNat =
      (wsHeader f).length + data.length := by
    simp only [UInt64.toNat_add, UInt64.toNat_ofNat']
    omega
  have enough : ¬ UInt64.ofNat (wsHeader f ++ applyMask f.mask data ++ rest).length <
      UInt64.ofNat (wsHeader f).length + f.payloadLen := by
    simp only [UInt64.lt_iff_toNat_lt, total, List.length_append, applyMask_length,
      UInt64.toNat_ofNat']
    omega
  have upTo : (wsHeader f ++ applyMask f.mask data).length =
      (wsHeader f).length + f.payloadLen.toNat := by
    rw [List.length_append, applyMask_length, sized]
  simp only [wsFrameDecode, head, if_neg enough]
  cases mask : f.mask with
  | none => rfl
  | some key =>
    rw [mask] at upTo
    have inside : ¬ (wsHeader f ++ applyMask (some key) data ++ rest).length <
        (wsHeader f).length + f.payloadLen.toNat := by
      rw [List.length_append, upTo]
      omega
    have unmasked : xorMask key (applyMask (some key) data) = data := xorMask_xorMask key data
    simp only [if_neg inside]
    rw [List.take_left' upTo, List.drop_left' upTo, List.drop_left, List.append_assoc (wsHeader f),
      List.take_left, unmasked]

/-- A frame that is not all there is not decoded. -/
theorem wsFrameDecode_prefix (opcode : f.opcode.toNat < 16)
    (sized : data.length = f.payloadLen.toNat)
    (bounded : (wsHeader f).length + f.payloadLen.toNat < 2 ^ 64)
    (early : k < (wsHeader f ++ applyMask f.mask data).length) :
    wsFrameDecode ((wsHeader f ++ applyMask f.mask data).take k) = .incomplete := by
  rw [List.length_append, applyMask_length] at early
  by_cases short : k < (wsHeader f).length
  · rw [List.take_append_of_le_length (Nat.le_of_lt short), wsFrameDecode,
      wsReadHead_prefix f short]
  · rw [List.take_append, List.take_of_length_le (Nat.le_of_not_lt short), wsFrameDecode,
      wsReadHead_header opcode]
    refine if_pos ?_
    simp only [UInt64.lt_iff_toNat_lt, UInt64.toNat_add, List.length_append, List.length_take,
      applyMask_length, UInt64.toNat_ofNat']
    omega

/-- What is written for a frame that has room: its header and its masked payload. -/
theorem wsFrameEncode_room {bufCap : UInt64} (present : 0 < f.payloadLen → f.payload.isSome = true)
    (room : (wsHeader f).length + f.payloadLen.toNat ≤ bufCap.toNat) :
    wsFrameEncode f bufCap = ⟨wsHeader f ++ applyMask f.mask (f.payload.getD []),
      UInt64.ofNat (wsHeader f).length + f.payloadLen⟩ ∧
      (f.payload.getD []).length = f.payloadLen.toNat := by
  have bounded := bufCap.toNat_lt
  have empty (none : f.payloadLen = 0) (data : Bytes) (no : data = []) :
      (⟨wsHeader f, UInt64.ofNat (wsHeader f).length⟩ : WsEncoded) =
        ⟨wsHeader f ++ applyMask f.mask data, UInt64.ofNat (wsHeader f).length + f.payloadLen⟩ := by
    subst no
    cases f.mask <;> simp [applyMask, xorMask, none]
  cases payload : f.payload with
  | none =>
    have none : f.payloadLen = 0 := by
      by_contra some
      have := present (UInt64.pos_iff_ne_zero.mpr some)
      rw [payload] at this
      cases this
    refine ⟨?_, by simp [none]⟩
    simp only [wsFrameEncode, payload]
    exact empty none _ rfl
  | some data =>
    have sized := f.sized data payload
    refine ⟨?_, sized⟩
    simp only [wsFrameEncode, payload]
    split
    · rw [if_neg]
      · rfl
      · simp only [gt_iff_lt, UInt64.lt_iff_toNat_lt, UInt64.toNat_add, UInt64.toNat_ofNat']
        omega
    · rename_i nothing
      have none : f.payloadLen = 0 := by simpa using nothing
      refine empty none data (List.eq_nil_of_length_eq_zero ?_)
      rw [sized, none]
      rfl

/-- A frame that was encoded is decoded from its octets, whatever follows them, and from no fewer.
-/
theorem ws_round_trip (f : WsFrame) (bufCap : UInt64) (opcode : f.opcode.toNat < 16)
    (short : f.payloadLen.toNat < 2 ^ 32) (present : 0 < f.payloadLen → f.payload.isSome = true)
    (room : (wsHeader f).length + f.payloadLen.toNat ≤ bufCap.toNat) :
    let e := wsFrameEncode f bufCap
    e.result.toNat = e.written.length ∧
    (∀ rest, (e.written ++ rest).length < 2 ^ 64 → ∃ d,
      wsFrameDecode (e.written ++ rest) = .decoded d ∧ d.frameTotal = e.result ∧
      d.head.opcode = f.opcode ∧ d.head.fin = f.fin ∧ d.head.mask = f.mask ∧
      d.head.payloadLen = f.payloadLen ∧ d.payload = f.payload.getD []) ∧
    ∀ k < e.written.length, wsFrameDecode (e.written.take k) = .incomplete := by
  have bounded : (wsHeader f).length + f.payloadLen.toNat < 2 ^ 64 :=
    Nat.lt_of_le_of_lt room bufCap.toNat_lt
  obtain ⟨encoded, sized⟩ := wsFrameEncode_room present room
  simp only [encoded]
  refine ⟨?_, fun rest within => ⟨_, wsFrameDecode_whole opcode sized rest within, rfl, rfl, rfl, rfl,
    rfl, ?_⟩, fun k early => wsFrameDecode_prefix opcode sized bounded early⟩
  · simp only [UInt64.toNat_add, UInt64.toNat_ofNat', List.length_append, applyMask_length, sized]
    omega
  · have upTo : (wsHeader f ++ f.payload.getD []).length =
        (wsHeader f).length + f.payloadLen.toNat := by rw [List.length_append, sized]
    simp only [WsDecoded.payload]
    rw [List.take_left' upTo, List.drop_left]

/-- A masked frame of two octets comes back from the seven it is encoded in. -/
theorem ws_round_trip_masked :
    let f : WsFrame := ⟨2, true, some #v[1, 2, 3, 4], 2, some [7, 9], by decide⟩
    ∃ d, wsFrameDecode ((wsFrameEncode f 64).written ++ []) = .decoded d ∧ d.payload = [7, 9] := by
  obtain ⟨-, decodes, -⟩ := ws_round_trip
    ⟨2, true, some #v[1, 2, 3, 4], 2, some [7, 9], by decide⟩ 64 (by decide) (by decide)
    (fun _ => rfl) (by decide)
  obtain ⟨d, decoded, -, -, -, -, -, payload⟩ := decodes [] (by decide)
  exact ⟨d, decoded, payload⟩

end RoundTrip

/-- Decoding stays inside the buffer: nothing is returned and changed, or a frame with its payload
inside it, the only octets that may have changed. -/
def WsDecodeSafe (buf : Bytes) : Prop :=
  match wsFrameDecode buf with
  | .incomplete => True
  | .faulted => False
  | .decoded d => d.frameTotal = 0 ∧ d.buf = buf ∨
    2 ≤ d.frameTotal.toNat ∧ d.frameTotal.toNat ≤ buf.length ∧
      d.head.pos + d.head.payloadLen.toNat ≤ d.frameTotal.toNat ∧ d.buf.length = buf.length ∧
      ∀ i, i < d.head.pos ∨ d.head.pos + d.head.payloadLen.toNat ≤ i → d.buf[i]? = buf[i]?

/-- The end of a payload can be computed in a word, or is exactly one too large for it and there is
nothing to unmask. -/
def WsHead.Fits (head : WsHead) : Prop :=
  head.pos + head.payloadLen.toNat < 2 ^ 64 ∨
    head.mask = none ∧ head.pos + head.payloadLen.toNat = 2 ^ 64

/-- Encoding stays inside the buffer, and says so when it cannot. -/
def WsEncodeSafe (f : WsFrame) (bufCap : UInt64) : Prop :=
  let e := wsFrameEncode f bufCap
  e.written.length ≤ bufCap.toNat ∧
    (bufCap.toNat < (wsHeader f).length + f.payloadLen.toNat → e.result = 0)

/-- The buffer has room for the header; a payload that is copied ends where a word can say, and one
that is not has room all the same. -/
def WsFrame.Fits (f : WsFrame) (bufCap : UInt64) : Prop :=
  (wsHeader f).length ≤ bufCap.toNat ∧
    if f.payload.isSome ∧ 0 < f.payloadLen then
      (wsHeader f).length + f.payloadLen.toNat < 2 ^ 64
    else (wsHeader f).length + f.payloadLen.toNat ≤ bufCap.toNat

/-- A header takes from two to fourteen octets of the buffer it is read from. -/
theorem wsReadHead_pos {head : WsHead} (read : wsReadHead buf = some head) :
    2 ≤ head.pos ∧ head.pos ≤ buf.length ∧ head.pos ≤ 14 := by
  unfold wsReadHead at read
  split at read
  · rename_i first second rest
    simp only [Option.bind_eq_bind, Option.bind_eq_some_iff, Prod.exists] at read
    obtain ⟨payloadLen, lenEnd, length, mask, maskEnd, masked, made⟩ := read
    cases made
    have afterLength : 2 ≤ lenEnd ∧ lenEnd ≤ (first :: second :: rest).length ∧ lenEnd ≤ 10 := by
      unfold wsPayloadLen at length
      split at length
      · split at length
        · cases length
        · cases length
          omega
      · split at length
        · split at length
          · cases length
          · cases length
            omega
        · cases length
          simp
    unfold wsMask at masked
    split at masked
    · split at masked
      · cases masked
      · cases masked
        simp only
        omega
    · cases masked
      simp only
      omega
  · cases read

/-- Replacing a part of a buffer by as many octets leaves all others where they were. -/
theorem replaced_elsewhere {middle : Bytes} {first last : Nat} (order : first ≤ last)
    (inside : last ≤ buf.length) (same : middle.length = last - first) :
    (buf.take first ++ middle ++ buf.drop last).length = buf.length ∧
      ∀ i, i < first ∨ last ≤ i → (buf.take first ++ middle ++ buf.drop last)[i]? = buf[i]? := by
  have front : (buf.take first).length = first := List.length_take_of_le (by omega)
  have upTo : (buf.take first ++ middle).length = last := by
    rw [List.length_append, front]
    omega
  constructor
  · rw [List.length_append, upTo, List.length_drop]
    omega
  · rintro i (before | behind)
    · rw [List.append_assoc, List.getElem?_append_left (by omega), List.getElem?_take, if_pos before]
    · rw [List.getElem?_append_right (by omega), upTo, List.getElem?_drop]
      congr 1
      omega

theorem wsFrameDecode_safe_iff (bounded : buf.length < 2 ^ 64) :
    WsDecodeSafe buf ↔ ∀ head ∈ wsReadHead buf, head.Fits := by
  unfold WsDecodeSafe wsFrameDecode
  cases read : wsReadHead buf with
  | none => simp
  | some head =>
    obtain ⟨two, inside, -⟩ := wsReadHead_pos read
    have length := head.payloadLen.toNat_lt
    have total : (UInt64.ofNat head.pos + head.payloadLen).toNat =
        (head.pos + head.payloadLen.toNat) % 2 ^ 64 := by
      simp only [UInt64.toNat_add, UInt64.toNat_ofNat']
      omega
    simp only [Option.mem_def, Option.some.injEq, forall_eq', WsHead.Fits]
    by_cases fits : head.pos + head.payloadLen.toNat < 2 ^ 64
    · -- The sum is what it stands for, so the payload that passes the check is in the buffer.
      rw [Nat.mod_eq_of_lt fits] at total
      refine iff_of_true ?_ (.inl fits)
      by_cases short : UInt64.ofNat buf.length < UInt64.ofNat head.pos + head.payloadLen
      · simp only [if_pos short]
      · have enough : head.pos + head.payloadLen.toNat ≤ buf.length := by
          simp only [UInt64.lt_iff_toNat_lt, total, UInt64.toNat_ofNat'] at short
          omega
        simp only [if_neg short]
        cases mask : head.mask with
        | none =>
          refine .inr ⟨?_, ?_, ?_, rfl, fun _ _ => rfl⟩ <;> simp only [total] <;> omega
        | some key =>
          simp only [if_neg (Nat.not_lt.mpr enough)]
          have same : (xorMask key ((buf.take (head.pos + head.payloadLen.toNat)).drop
              head.pos)).length = head.pos + head.payloadLen.toNat - head.pos := by
            simp only [xorMask, List.length_mapIdx, List.length_drop, List.length_take]
            omega
          obtain ⟨kept, elsewhere⟩ := replaced_elsewhere (Nat.le_add_right ..) enough same
          refine .inr ⟨?_, ?_, ?_, kept, elsewhere⟩ <;> simp only [total] <;> omega
    · -- The sum wraps to a position before the payload, which passes the check.
      have wrapped : (UInt64.ofNat head.pos + head.payloadLen).toNat =
          head.pos + head.payloadLen.toNat - 2 ^ 64 := by omega
      have passes : ¬ UInt64.ofNat buf.length < UInt64.ofNat head.pos + head.payloadLen := by
        simp only [UInt64.lt_iff_toNat_lt, wrapped, UInt64.toNat_ofNat']
        omega
      simp only [if_neg passes, fits, false_or]
      cases mask : head.mask with
      | none =>
        simp only [true_and, and_true, ← UInt64.toNat_inj, wrapped, UInt64.toNat_zero]
        constructor
        · rintro (zero | ⟨-, -, beyond, -⟩) <;> omega
        · intro whole
          exact .inl (by omega)
      | some key =>
        simp only [if_pos (by omega : buf.length < head.pos + head.payloadLen.toNat)]
        simp

theorem wsFrameEncode_safe_iff (f : WsFrame) (bufCap : UInt64) :
    WsEncodeSafe f bufCap ↔ f.Fits bufCap := by
  have header := wsHeader_length f
  have size := bufCap.toNat_lt
  have length := f.payloadLen.toNat_lt
  have some : UInt64.ofNat (wsHeader f).length ≠ 0 := by
    rw [ne_eq, ← UInt64.toNat_inj, UInt64.toNat_ofNat']
    simp only [UInt64.toNat_zero]
    omega
  unfold WsEncodeSafe WsFrame.Fits wsFrameEncode
  cases payload : f.payload with
  | none => simp [some]
  | some data =>
    have sized := f.sized data payload
    by_cases filled : 0 < f.payloadLen
    · have total : (UInt64.ofNat (wsHeader f).length + f.payloadLen).toNat =
          ((wsHeader f).length + f.payloadLen.toNat) % 2 ^ 64 := by
        simp only [UInt64.toNat_add, UInt64.toNat_ofNat']
        omega
      simp only [filled, gt_iff_lt, if_true, Option.isSome_some, and_self]
      split
      · rename_i full
        simp only [UInt64.lt_iff_toNat_lt, total] at full
        simp only [implies_true, and_true]
        constructor
        · intro room
          exact ⟨room, by omega⟩
        · exact And.left
      · rename_i room
        simp only [UInt64.lt_iff_toNat_lt, total] at room
        simp only [List.length_append, applyMask_length, sized, ← UInt64.toNat_inj, total,
          UInt64.toNat_zero]
        omega
    · simp [filled, some]

/-- Decoding stays inside its buffer exactly when the length from the peer leaves the end of the
payload in a word, and encoding exactly when the buffer has room for the header and the sum fits. -/
theorem ws_buffers_iff (buf : Bytes) (f : WsFrame) (bufCap : UInt64) :
    (buf.length < 2 ^ 64 → (WsDecodeSafe buf ↔ ∀ head ∈ wsReadHead buf, head.Fits)) ∧
      (WsEncodeSafe f bufCap ↔ f.Fits bufCap) :=
  ⟨wsFrameDecode_safe_iff, wsFrameEncode_safe_iff f bufCap⟩

/-- A masked frame of three octets is decoded and encoded inside nine. -/
theorem ws_buffers_masked :
    WsDecodeSafe [0x82, 0x83, 1, 2, 3, 4, 9, 8, 7] ∧
      WsEncodeSafe ⟨2, true, some #v[1, 2, 3, 4], 3, some [9, 8, 7], by decide⟩ 9 := by
  have safe := ws_buffers_iff [0x82, 0x83, 1, 2, 3, 4, 9, 8, 7]
    ⟨2, true, some #v[1, 2, 3, 4], 3, some [9, 8, 7], by decide⟩ 9
  exact ⟨(safe.1 (by decide)).mpr (by rintro _ ⟨⟩; exact .inl (by decide)),
    safe.2.mpr ⟨by decide, by decide⟩⟩

/-- A length just below two to the sixty-fourth makes the decoder return two octets of a frame whose
payload starts at the tenth; without any room, the encoder writes two octets and says so. -/
theorem ws_buffers_overrun :
    (∃ d, wsFrameDecode [0x82, 127, 255, 255, 255, 255, 255, 255, 255, 248] = .decoded d ∧
      d.frameTotal = 2 ∧ d.head.pos = 10) ∧
    let e := wsFrameEncode ⟨2, true, none, 0, none, nofun⟩ 0
    e.written.length = 2 ∧ e.result = 2 :=
  ⟨⟨_, rfl, by decide, by decide⟩, by decide, by decide⟩

end Nxp
