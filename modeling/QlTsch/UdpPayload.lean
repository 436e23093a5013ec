/-
# `QlTsch.UdpPayload` — the packet number on its way

`node_udp_process` puts a 16-bit packet number in front of a fixed payload, low byte
first, and `rx_packet` reads it back at the root.  The number passes through `unsigned
char`s on one side and `char`s on the other; whether `char` is signed, and how wide an
`int` is, is up to the platform (`CharModel`).

`rx_packet` copies the datagram into an array of `UDP_PLAYLOAD_SIZE` bytes and takes the
number of bytes from the datagram.  It then reads two bytes, however many came.

* `rx_packet_bounds`: every number that is sent is the number that is reported; and a
  datagram is decoded within bounds exactly if it has at least two bytes and fits.
* `rx_packet_overflows`: one that is a byte too long, and one that is a byte too short.
-/
import Mathlib.Data.List.Range
import QlTsch.Lib.Buffer

namespace QlTsch

open Memory

/-- `UDP_PLAYLOAD_SIZE` of `project-conf.h`. -/
def udpPlayloadSize : Nat := 50

abbrev Byte := BitVec 8

/-- `uip_ipaddr_t`, byte by byte. -/
abbrev UipIpaddr := Vector Byte 16

/-! ## `char` and `int` -/

structure CharModel where
  intBits : Nat
  intBits_ge : 16 ≤ intBits
  charSigned : Bool

namespace CharModel

variable (m : CharModel)

abbrev Int (m : CharModel) := BitVec m.intBits

/-- A `char` in an expression. -/
def ofChar (c : Byte) : m.Int :=
  if m.charSigned then c.signExtend m.intBits else c.setWidth m.intBits

/-- A `uint16_t` in an expression: an `int` of more than 16 bits holds it, and one of 16
bits is unsigned there. -/
def ofUint16 (x : BitVec 16) : m.Int := x.setWidth m.intBits

def toUint16 (x : m.Int) : BitVec 16 := x.setWidth 16

/-- Stored in an `unsigned char`. -/
def toByte (x : m.Int) : Byte := x.setWidth 8

/-- `x & 0xFF` -/
def lowByte (x : m.Int) : m.Int := x &&& BitVec.ofNat m.intBits 0xFF

/-- `i + 'a'` in an `unsigned char`. -/
def letter (i : Nat) : Byte := m.toByte (BitVec.ofNat m.intBits i + BitVec.ofNat m.intBits 97)

end CharModel

variable (m : CharModel)

/-! ## The receiver -/

/-- What `simple_udp` hands over; the length is a `uint16_t`. -/
structure Datagram where
  data : List Byte
  length_lt : data.length < 65536

def Datagram.datalen (d : Datagram) : Nat := d.data.length

/-- What `rx_packet` logs. -/
structure Reception where
  sender : Byte
  packetNum : BitVec 16
deriving DecidableEq, Repr

/-- `rx_packet`. -/
def rxPacket (senderAddr : UipIpaddr) (data : List Byte) (datalen : Nat) :
    Except Fault Reception := do
  let receivedData ← (Buffer.uninit udpPlayloadSize).memcpy data datalen
  let high ← receivedData.load 1
  let packetNum := m.toUint16 (m.lowByte (m.ofChar high))
  let low ← receivedData.load 0
  pure ⟨senderAddr[15], m.toUint16 ((m.ofUint16 packetNum <<< 8) + m.lowByte (m.ofChar low))⟩

/-! ## The sender -/

/-- The variables of `node_udp_process`. -/
structure UdpVars where
  customPayload : Buffer Byte udpPlayloadSize
  seqnum : BitVec 16

/-- A packet that is sent, with the number that is logged for it. -/
structure UdpPacket where
  dst : UipIpaddr
  packetNumber : BitVec 16
  data : List Byte

/-- `create_payload`. -/
def createPayload (customPayload : Buffer Byte udpPlayloadSize) :
    Except Fault (Buffer Byte udpPlayloadSize) := do
  let b ← Buffer.fill (fun i => .ok (m.letter i)) (udpPlayloadSize - 4) 4 customPayload
  let b ← b.store 2 0xFF
  b.store 3 0xFF

/-- One round of the main loop.  `rootIpaddr` is the destination, if the node is reachable
and the root is known. -/
def udpRound (nodeId : Nat) (rootIpaddr : Option UipIpaddr) (v : UdpVars) :
    Except Fault (UdpVars × Option UdpPacket) :=
  if nodeId ≠ 1 then
    match rootIpaddr with
    | some dst => do
        let b ← v.customPayload.store 0 (m.toByte (m.lowByte (m.ofUint16 v.seqnum)))
        let b ← b.store 1 (m.toByte (m.lowByte (m.ofUint16 v.seqnum >>> 8)))
        -- simple_udp_sendto(&udp_conn, &custom_payload, UDP_PLAYLOAD_SIZE, &dst)
        let data ← b.loads udpPlayloadSize 0
        pure (⟨b, v.seqnum + 1⟩, some ⟨dst, v.seqnum, data⟩)
    | none => pure (v, none)
  else pure (v, none)

/-- The main loop, for a number of rounds. -/
def udpRounds (nodeId : Nat) :
    List (Option UipIpaddr) → UdpVars → Except Fault (UdpVars × List UdpPacket)
  | [], v => pure (v, [])
  | r :: rs, v => do
      let (v, sent) ← udpRound m nodeId r v
      let (v, rest) ← udpRounds nodeId rs v
      pure (v, sent.toList ++ rest)

/-! ## Bytes of a number -/

theorem getLsbD_255 {n i : Nat} (hi : i < n) :
    (BitVec.ofNat n 0xFF).getLsbD i = decide (i < 8) := by
  rw [BitVec.getLsbD_ofNat, decide_eq_true hi, Bool.true_and]
  exact Nat.testBit_two_pow_sub_one 8 i

namespace CharModel

/-- `c & 0xFF` is the byte, whatever the sign of the `char`. -/
theorem lowByte_ofChar (c : Byte) : m.lowByte (m.ofChar c) = c.setWidth m.intBits := by
  apply BitVec.eq_of_getLsbD_eq
  intro i hi
  simp only [lowByte, ofChar, BitVec.getLsbD_and, getLsbD_255 hi, BitVec.getLsbD_setWidth]
  by_cases h8 : i < 8
  · cases m.charSigned with
    | true =>
        simp only [if_true, BitVec.getLsbD_signExtend, h8, hi, decide_true, Bool.true_and,
          Bool.and_true]
    | false => simp [h8, hi]
  · simp [BitVec.getLsbD_of_ge c i (Nat.le_of_not_lt h8), h8]

/-- `(x >> k) & 0xFF`, stored in a byte. -/
theorem toByte_lowByte (x : BitVec 16) {k : Nat} (hk : k + 8 ≤ 16) :
    m.toByte (m.lowByte (m.ofUint16 x >>> k)) = x.extractLsb' k 8 := by
  have hint := m.intBits_ge
  apply BitVec.eq_of_getLsbD_eq
  intro i hi
  have hin : k + i < m.intBits := by omega
  have hmask : (BitVec.ofNat m.intBits 0xFF).getLsbD i = decide (i < 8) := getLsbD_255 (by omega)
  simp only [toByte, lowByte, ofUint16, BitVec.getLsbD_setWidth, BitVec.getLsbD_and,
    BitVec.getLsbD_ushiftRight, BitVec.getLsbD_extractLsb', hmask]
  simp [hi, hin]

/-- `(high << 8) + low`, in an `int` and cut to 16 bits. -/
theorem toUint16_add (high low : Byte) :
    m.toUint16 ((m.ofUint16 (m.toUint16 (high.setWidth m.intBits)) <<< 8) +
      low.setWidth m.intBits) = high ++ low := by
  have hhigh := high.isLt
  have hlow := low.isLt
  have hint : 2 ^ 16 ≤ 2 ^ m.intBits := Nat.pow_le_pow_right (by decide) m.intBits_ge
  apply BitVec.eq_of_toNat_eq
  have hor : high.toNat * 2 ^ 8 ||| low.toNat = high.toNat * 2 ^ 8 + low.toNat := by
    rw [Nat.mul_comm]
    exact (Nat.two_pow_add_eq_or_of_lt hlow high.toNat).symm
  rw [BitVec.toNat_append, Nat.shiftLeft_eq, hor]
  simp only [toUint16, ofUint16, BitVec.toNat_setWidth, BitVec.toNat_add, BitVec.toNat_shiftLeft,
    Nat.shiftLeft_eq]
  -- no step leaves 16 bits
  have hint' : high.toNat % 2 ^ m.intBits = high.toNat := Nat.mod_eq_of_lt (by omega)
  have hlow' : low.toNat % 2 ^ m.intBits = low.toNat := Nat.mod_eq_of_lt (by omega)
  have hcut : high.toNat % 2 ^ 16 = high.toNat := Nat.mod_eq_of_lt (by omega)
  have hshift : high.toNat * 2 ^ 8 % 2 ^ m.intBits = high.toNat * 2 ^ 8 :=
    Nat.mod_eq_of_lt (by omega)
  have hsum : (high.toNat * 2 ^ 8 + low.toNat) % 2 ^ m.intBits = high.toNat * 2 ^ 8 + low.toNat :=
    Nat.mod_eq_of_lt (by omega)
  rw [hint', hlow', hcut, hint', hshift, hsum]
  exact Nat.mod_eq_of_lt (by omega)

end CharModel

/-! ## Decoding -/

section
variable {m} {senderAddr : UipIpaddr} {data : List Byte} {n : Nat}

theorem rxPacket_eq {low high : Byte} (hlen : data.length ≤ udpPlayloadSize)
    (hlow : data[0]? = some low) (hhigh : data[1]? = some high) :
    rxPacket m senderAddr data data.length = .ok ⟨senderAddr[15], high ++ low⟩ := by
  have h1 : 1 < data.length := (List.getElem?_eq_some_iff.mp hhigh).1
  obtain ⟨b, hb⟩ := (Buffer.memcpy_isOk_iff (b := Buffer.uninit udpPlayloadSize)).mpr ⟨le_rfl, hlen⟩
  have hread : ∀ i c, data[i]? = some c → b.load i = .ok c := by
    intro i c hc
    have hi : i < data.length := (List.getElem?_eq_some_iff.mp hc).1
    rw [Buffer.load_eq_ok_iff, Buffer.memcpy_cell hb, if_pos hi, hc]
  refine bind_eq_ok_iff.mpr ⟨b, hb, bind_eq_ok_iff.mpr ⟨high, hread 1 high hhigh, ?_⟩⟩
  refine bind_eq_ok_iff.mpr ⟨low, hread 0 low hlow, ?_⟩
  rw [m.lowByte_ofChar, m.lowByte_ofChar, m.toUint16_add]
  rfl

/-- Decoding stays within bounds exactly if the datagram fits and the two bytes came. -/
theorem rxPacket_isOk_iff :
    IsOk (rxPacket m senderAddr data data.length) ↔
      2 ≤ data.length ∧ data.length ≤ udpPlayloadSize := by
  constructor
  · intro h
    obtain ⟨b, hb, h⟩ := isOk_bind.mp h
    obtain ⟨-, hlen⟩ := Buffer.memcpy_isOk_iff.mp ⟨b, hb⟩
    obtain ⟨high, hhigh, -⟩ := isOk_bind.mp h
    refine ⟨?_, hlen⟩
    -- the second byte would be one that was never written
    by_contra hshort
    rw [Buffer.load_eq_ok_iff, Buffer.memcpy_cell hb, if_neg (by omega)] at hhigh
    exact Buffer.uninit_cell hhigh
  · rintro ⟨hshort, hlen⟩
    have hlow : data[0]? = some data[0] := List.getElem?_eq_getElem (by omega)
    have hhigh : data[1]? = some data[1] := List.getElem?_eq_getElem (by omega)
    exact ⟨_, rxPacket_eq hlen hlow hhigh⟩

end

/-! ## Sending -/

/-- The bytes of the packet with number `x`. -/
def payloadByte (x : BitVec 16) (i : Nat) : Byte :=
  if i = 0 then x.extractLsb' 0 8
  else if i = 1 then x.extractLsb' 8 8
  else if i < 4 then 0xFF
  else BitVec.ofNat 8 (i + 97)

def payload (x : BitVec 16) : List Byte := (List.range' 0 udpPlayloadSize).map (payloadByte x)

/-- Behind the number, the payload is complete. -/
def PayloadPrepared (b : Buffer Byte udpPlayloadSize) : Prop :=
  ∀ x i, 2 ≤ i → i < udpPlayloadSize → b[i]? = some (some (payloadByte x i))

theorem rxPacket_payload (senderAddr : UipIpaddr) (x : BitVec 16) :
    rxPacket m senderAddr (payload x) (payload x).length = .ok ⟨senderAddr[15], x⟩ := by
  have hx : x.extractLsb' 8 8 ++ x.extractLsb' 0 8 = x :=
    BitVec.extractLsb'_append_extractLsb'
  have hlen : (payload x).length = udpPlayloadSize := by simp [payload]
  have hdecoded : rxPacket m senderAddr (payload x) (payload x).length =
      .ok ⟨senderAddr[15], x.extractLsb' 8 8 ++ x.extractLsb' 0 8⟩ := rxPacket_eq hlen.le rfl rfl
  rw [hdecoded, hx]

theorem createPayload_prepared (b : Buffer Byte udpPlayloadSize) :
    ∃ p, createPayload m b = .ok p ∧ PayloadPrepared p := by
  obtain ⟨b₁, h₁⟩ := (Buffer.fill_isOk_iff (udpPlayloadSize - 4) (i := 4) (b := b)
    (f := fun i => .ok (m.letter i))).mpr fun j _ hj => ⟨isOk_ok _, by omega⟩
  obtain ⟨b₂, h₂⟩ := (Buffer.store_isOk_iff (b := b₁) (i := 2) (a := (0xFF : Byte))).mpr (by decide)
  obtain ⟨b₃, h₃⟩ := (Buffer.store_isOk_iff (b := b₂) (i := 3) (a := (0xFF : Byte))).mpr (by decide)
  refine ⟨b₃, bind_eq_ok_iff.mpr ⟨b₁, h₁, bind_eq_ok_iff.mpr ⟨b₂, h₂, h₃⟩⟩, ?_⟩
  intro x i hi hlt
  rw [Buffer.store_cell h₃, Buffer.store_cell h₂, Buffer.fill_cell _ h₁]
  have hletter : m.letter i = BitVec.ofNat 8 (i + 97) := by
    have hint := m.intBits_ge
    rw [CharModel.letter, ← BitVec.ofNat_add, CharModel.toByte,
      BitVec.setWidth_ofNat_of_le (by omega)]
  simp only [payloadByte, if_neg (show i ≠ 0 by omega), if_neg (show i ≠ 1 by omega)]
  by_cases hmark : i < 4
  · rw [if_pos hmark]
    rcases (show i = 2 ∨ i = 3 by omega) with rfl | rfl
    · rw [if_neg (by decide), if_pos rfl]
    · rw [if_pos rfl]
  · rw [if_neg (by omega), if_neg (by omega), if_pos ⟨by omega, by omega⟩, if_neg hmark, hletter]
    rfl

theorem store_number {b : Buffer Byte udpPlayloadSize} (hb : PayloadPrepared b) (x : BitVec 16) :
    ∃ b₁ b₂, b.store 0 (m.toByte (m.lowByte (m.ofUint16 x))) = .ok b₁ ∧
      b₁.store 1 (m.toByte (m.lowByte (m.ofUint16 x >>> 8))) = .ok b₂ ∧ PayloadPrepared b₂ ∧
      b₂.loads udpPlayloadSize 0 = .ok (payload x) := by
  have hlow : m.toByte (m.lowByte (m.ofUint16 x)) = x.extractLsb' 0 8 :=
    m.toByte_lowByte x (k := 0) (by decide)
  have hhigh : m.toByte (m.lowByte (m.ofUint16 x >>> 8)) = x.extractLsb' 8 8 :=
    m.toByte_lowByte x (k := 8) (by decide)
  rw [hlow, hhigh]
  obtain ⟨b₁, h₁⟩ := (Buffer.store_isOk_iff (b := b) (i := 0) (a := x.extractLsb' 0 8)).mpr
    (by decide)
  obtain ⟨b₂, h₂⟩ := (Buffer.store_isOk_iff (b := b₁) (i := 1) (a := x.extractLsb' 8 8)).mpr
    (by decide)
  have hkept : PayloadPrepared b₂ := by
    intro y i hi hlt
    rw [Buffer.store_cell h₂, Buffer.store_cell h₁, if_neg (by omega), if_neg (by omega)]
    exact hb y i hi hlt
  refine ⟨b₁, b₂, h₁, h₂, hkept, ?_⟩
  apply Buffer.loads_eq
  intro j _ hj
  rcases (show j = 0 ∨ j = 1 ∨ 2 ≤ j by omega) with rfl | rfl | hrest
  · rw [Buffer.store_cell h₂, Buffer.store_cell h₁, if_neg (by decide), if_pos rfl]
    rfl
  · rw [Buffer.store_cell h₂, if_pos rfl]
    rfl
  · exact hkept x j hrest (by omega)

/-- **A round** that sends sends the payload with its number, and counts on. -/
theorem udpRound_eq {v : UdpVars} (hv : PayloadPrepared v.customPayload) (nodeId : Nat)
    (rootIpaddr : Option UipIpaddr) :
    ∃ w sent, udpRound m nodeId rootIpaddr v = .ok (w, sent) ∧ PayloadPrepared w.customPayload ∧
      (if nodeId ≠ 1 ∧ rootIpaddr.isSome then
        w.seqnum = v.seqnum + 1 ∧ ∃ dst, sent = some ⟨dst, v.seqnum, payload v.seqnum⟩
      else w.seqnum = v.seqnum ∧ sent = none) := by
  simp only [udpRound]
  by_cases hid : nodeId ≠ 1
  · rw [if_pos hid]
    cases rootIpaddr with
    | none => exact ⟨v, none, rfl, hv, by simp⟩
    | some dst =>
        obtain ⟨b₁, b₂, h₁, h₂, hkept, hdata⟩ := store_number m hv v.seqnum
        refine ⟨⟨b₂, v.seqnum + 1⟩, some ⟨dst, v.seqnum, payload v.seqnum⟩, ?_, hkept, ?_⟩
        · exact bind_eq_ok_iff.mpr ⟨b₁, h₁, bind_eq_ok_iff.mpr ⟨b₂, h₂,
            bind_eq_ok_iff.mpr ⟨payload v.seqnum, hdata, rfl⟩⟩⟩
        · rw [if_pos ⟨hid, rfl⟩]
          exact ⟨rfl, dst, rfl⟩
  · rw [if_neg hid]
    exact ⟨v, none, rfl, hv, by simp [hid]⟩

/-- The packets a node has to send in these rounds. -/
def packetsDue (nodeId : Nat) (rounds : List (Option UipIpaddr)) : Nat :=
  if nodeId ≠ 1 then rounds.countP Option.isSome else 0

theorem packetsDue_cons (nodeId : Nat) (r : Option UipIpaddr) (rs : List (Option UipIpaddr)) :
    packetsDue nodeId (r :: rs) =
      packetsDue nodeId rs + if nodeId ≠ 1 ∧ r.isSome then 1 else 0 := by
  simp only [packetsDue, List.countP_cons]
  by_cases hid : nodeId ≠ 1
  · simp [hid]
  · simp [hid]

theorem succ_add_ofNat (x : BitVec 16) (i : Nat) :
    x + 1 + BitVec.ofNat 16 i = x + BitVec.ofNat 16 (i + 1) := by
  rw [BitVec.ofNat_add, BitVec.add_assoc, BitVec.add_comm (BitVec.ofNat 16 i)]
  rfl

/-- **The main loop** stays in its array.  It sends payloads with consecutive numbers. -/
theorem udpRounds_eq (nodeId : Nat) (rounds : List (Option UipIpaddr)) (v : UdpVars)
    (hv : PayloadPrepared v.customPayload) :
    ∃ w sent, udpRounds m nodeId rounds v = .ok (w, sent) ∧
      (∀ p ∈ sent, p.data = payload p.packetNumber) ∧
      sent.map UdpPacket.packetNumber =
        (List.range (packetsDue nodeId rounds)).map fun i => v.seqnum + BitVec.ofNat 16 i := by
  induction rounds generalizing v with
  | nil =>
      have hnone : packetsDue nodeId [] = 0 := by simp [packetsDue]
      exact ⟨v, [], rfl, by simp, by rw [hnone]; rfl⟩
  | cons r rs ih =>
      obtain ⟨w, first, hround, hw, hfirst⟩ := udpRound_eq m hv nodeId r
      obtain ⟨u, rest, hrounds, hdata, hnumbers⟩ := ih w hw
      refine ⟨u, first.toList ++ rest, ?_, ?_⟩
      · exact bind_eq_ok_iff.mpr ⟨(w, first), hround, bind_eq_ok_iff.mpr ⟨(u, rest), hrounds, rfl⟩⟩
      · rw [packetsDue_cons]
        split at hfirst
        · rename_i hsend
          obtain ⟨hseqnum, dst, rfl⟩ := hfirst
          rw [hseqnum] at hnumbers
          constructor
          · intro p hp
            rcases List.mem_cons.mp hp with rfl | hp
            · rfl
            · exact hdata p hp
          · rw [if_pos hsend, List.range_succ_eq_map, List.map_cons, List.map_map, BitVec.add_zero]
            show v.seqnum :: rest.map UdpPacket.packetNumber = _
            rw [hnumbers]
            exact congrArg _ (List.map_congr_left fun i _ => succ_add_ofNat v.seqnum i)
        · rename_i hsend
          obtain ⟨hseqnum, rfl⟩ := hfirst
          rw [if_neg hsend, Nat.add_zero, ← hseqnum]
          exact ⟨hdata, hnumbers⟩

/-! ## Results -/

/-- A datagram is decoded within bounds exactly if it brings the number and fits in the
array.  The number of every packet that is sent is the one that is reported. -/
theorem rx_packet_bounds (senderAddr : UipIpaddr) :
    (∀ d : Datagram, IsOk (rxPacket m senderAddr d.data d.datalen) ↔
      2 ≤ d.datalen ∧ d.datalen ≤ udpPlayloadSize) ∧
    ∀ (customPayload : Buffer Byte udpPlayloadSize) (seqnum : BitVec 16) (nodeId : Nat)
      (rounds : List (Option UipIpaddr)),
      ∃ p w sent, createPayload m customPayload = .ok p ∧
        udpRounds m nodeId rounds ⟨p, seqnum⟩ = .ok (w, sent) ∧
        (sent.map UdpPacket.packetNumber =
          (List.range (packetsDue nodeId rounds)).map fun i => seqnum + BitVec.ofNat 16 i) ∧
        ∀ q ∈ sent, rxPacket m senderAddr q.data q.data.length =
          .ok ⟨senderAddr[15], q.packetNumber⟩ := by
  constructor
  · intro d
    exact rxPacket_isOk_iff
  · intro customPayload seqnum nodeId rounds
    obtain ⟨p, hp, hprepared⟩ := createPayload_prepared m customPayload
    obtain ⟨w, sent, hsent, hdata, hnumbers⟩ := udpRounds_eq m nodeId rounds ⟨p, seqnum⟩ hprepared
    refine ⟨p, w, sent, hp, hsent, hnumbers, ?_⟩
    intro q hq
    rw [hdata q hq]
    exact rxPacket_payload m senderAddr q.packetNumber

/-- A platform with signed `char`s and an `int` of 32 bits. -/
def signedChars : CharModel := ⟨32, by decide, true⟩

/-- A datagram of 51 bytes is written past the end of the array, and of a datagram of one
byte a second one is read. -/
theorem rx_packet_overflows :
    rxPacket signedChars (Vector.replicate 16 0) (List.replicate 51 0) 51 = .error (.outside 50) ∧
    rxPacket signedChars (Vector.replicate 16 0) [0] 1 = .error (.unset 1) ∧
    ¬ ∀ d : Datagram, IsOk (rxPacket signedChars (Vector.replicate 16 0) d.data d.datalen) := by
  have hlong : rxPacket signedChars (Vector.replicate 16 0) (List.replicate 51 0) 51 =
      .error (.outside 50) := by rfl
  refine ⟨hlong, by rfl, ?_⟩
  intro h
  have hok := h ⟨List.replicate 51 0, by decide⟩
  rw [show Datagram.datalen ⟨List.replicate 51 0, by decide⟩ = 51 from rfl, hlong] at hok
  exact not_isOk_error _ hok

end QlTsch
