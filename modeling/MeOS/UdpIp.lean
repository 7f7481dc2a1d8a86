import MeOS.Ethernet
import MeOS.FileTable
import MeOS.Lib.WordFields

/-! # `ip.cpp`, `udp.cpp` and `net_protocol.cpp`: a datagram and back

The headers of a datagram are built one behind the other in a socket buffer, and
taken off by the receive functions, which copy addresses into the slots of their
layer. `udp_recv` hands the port numbers to `memcpy` as if they were addresses:
the port slots get what lies in memory there.
-/

namespace MeOS

open Bytes Traced

/-! ## Protocols of a layer -/

/-- `NET_STACK_LAYERS`. -/
abbrev netStackLayers : Nat := 4

/-- `TRANSPORT_LAYER`. -/
abbrev transportLayer : Nat := 2

/-- `net_protocol`, with its receive function. A receive function works on the
buffer and on `udp_recved`. -/
structure NetProtocol where
  identifier : Nat
  recv : SockBuf → Nat → Prog (SockBuf × Nat × ErrorT)

/-- `net_layers`: the protocols of each layer. -/
abbrev NetLayers : Type := Nat → Vector NetProtocol

/-- `net_layer_register_proto`. -/
def netLayerRegisterProto (layers : NetLayers) (layerInd : Nat) (proto : NetProtocol) :
    Outcome NetLayers := do
  let protocols ← vectorInsertBack (layers layerInd) proto
  .ret (Function.update layers layerInd protocols)

/-- `net_layer_get_proto`. -/
def netLayerGetProto (layers : NetLayers) (layerInd protoId : Nat) : Option NetProtocol :=
  if layerInd ≥ netStackLayers then none
  else (layers layerInd).data.find? fun p => p.identifier == protoId

/-! ## IPv4 -/

/-- A bit-field of a byte is set: its mask, the shift and the value. -/
def setBits (b mask shift v : UInt8) : UInt8 := (b &&& ~~~mask) ||| ((v <<< shift) &&& mask)

/-- `header->ihl`. -/
def ihl (b : UInt8) : UInt8 := b &&& 0x0f

/-- The loop of `ipv4_checksum`, with `n` words left. -/
def ipv4Sum (header : Nat) : Nat → Nat → Nat → Prog Nat
  | 0, _, sum => pure sum
  | n + 1, i, sum => do
    let w ← read16 (header + 2 * i)
    ipv4Sum header n (i + 1) (add32 sum w)

/-- `ipv4_checksum`. -/
def ipv4Checksum (header : Nat) : Prog Nat := do
  let b ← read8 header
  let len := 2 * (ihl b).toNat % 256
  let sum ← ipv4Sum header len 0 0
  let sum16 := (sum / 65536 + sum % 65536) % 65536
  pure (65535 - sum16)

/-- `ipv4_create`. -/
def ipv4Create (buf : SockBuf) (ecn dscp : UInt8) (id fragOffset : Nat) (flags ttl protocol : UInt8)
    (srcIp destIp options : Mem) (optionsLen : UInt8) (dataLen : Nat) : Prog SockBuf := do
  let ip := buf.data
  let b ← read8 ip
  write8 ip (setBits b 0xf0 4 4)
  let b ← read8 ip
  write8 ip (setBits b 0x0f 0 (UInt8.ofNat ((20 + optionsLen.toNat) / 4)))
  let b ← read8 (ip + 1)
  write8 (ip + 1) (setBits b 0x03 0 ecn)
  let b ← read8 (ip + 1)
  write8 (ip + 1) (setBits b 0xfc 2 dscp)
  write16 (ip + 2) (htons ((20 + optionsLen.toNat + dataLen) % 65536))
  write16 (ip + 4) (htons id)
  write16 (ip + 6) (htons (((flags.toNat <<< 13) ||| (fragOffset &&& 0x1fff)) % 65536))
  write8 (ip + 8) ttl
  write8 (ip + 9) protocol
  writeBytes (ip + 12) 4 srcIp
  writeBytes (ip + 16) 4 destIp
  writeBytes (ip + 20) optionsLen.toNat options
  let csum ← ipv4Checksum ip
  write16 (ip + 10) csum
  let b ← read8 ip
  pure (sockBufPush buf ((ihl b).toNat * 4))

/-- `ipv4_recv`. -/
def ipv4Recv (layers : NetLayers) (buf : SockBuf) (udpRecved : Nat) :
    Prog (SockBuf × Nat × ErrorT) := do
  let ip := buf.data
  let srcIp ← readBytes (ip + 12) 4
  let buf := buf.setSrc 1 srcIp
  let destIp ← readBytes (ip + 16) 4
  let buf := buf.setDst 1 destIp
  let proto ← read8 (ip + 9)
  let b ← read8 ip
  let buf := sockBufPush buf ((ihl b).toNat * 4)
  match netLayerGetProto layers transportLayer proto.toNat with
  | none => pure (buf, udpRecved, .occur)
  | some nProto => do
    let (buf, udpRecved, _) ← nProto.recv buf udpRecved
    pure (buf, udpRecved, .ok)

/-! ## UDP -/

/-- `udp_create`. -/
def udpCreate (buf : SockBuf) (srcPort destPort dataLen : Nat) : Prog SockBuf := do
  let udp := buf.data
  write16 (udp + 6) 0
  write16 udp (htons srcPort)
  write16 (udp + 2) (htons destPort)
  write16 (udp + 4) (htons ((8 + dataLen) % 65536))
  pure (sockBufPush buf 8)

/-- `udp_recv`. -/
def udpRecv (buf : SockBuf) (udpRecved : Nat) : Prog (SockBuf × Nat × ErrorT) := do
  let udp := buf.data
  -- save the source and destination ports
  let srcPort ← read16 udp
  let bytes ← readBytes srcPort 2
  let buf := buf.setSrc 2 bytes
  let destPort ← read16 (udp + 2)
  let bytes ← readBytes destPort 2
  let buf := buf.setDst 2 bytes
  let destPort ← read16 (udp + 2)
  let udpRecved := if ntohs destPort = 12345 then add32 udpRecved 1 else udpRecved
  pure (sockBufPush buf 8, udpRecved, .ok)

/-- `init_udp`. -/
def initUdp (layers : NetLayers) (layer : Nat) : Outcome NetLayers :=
  netLayerRegisterProto layers layer ⟨17, udpRecv⟩

/-! ## A datagram -/

/-- What a datagram says: the addresses of the layers and the header fields that
are free. -/
structure Datagram where
  destMac : Mem
  srcMac : Mem
  srcIp : Mem
  destIp : Mem
  srcPort : UInt16
  destPort : UInt16
  ecn : UInt8
  dscp : UInt8
  id : Nat
  fragOffset : Nat
  flags : UInt8
  ttl : UInt8
  payload : Mem
  len : Nat

/-- `ETH_TYPE_IPv4`. -/
abbrev ethTypeIPv4 : Nat := 0x0800

/-- A datagram is built in a buffer of `size` bytes that has been cleared, without
IP options. -/
def sendDatagram (block size : Nat) (d : Datagram) : Prog SockBuf := do
  let buf := sockBufInit block size
  writeBytes buf.head size fun _ => 0
  let buf ← ethCreate buf d.destMac d.srcMac ethTypeIPv4
  let buf ← ipv4Create buf d.ecn d.dscp d.id d.fragOffset d.flags d.ttl 17 d.srcIp d.destIp
    (fun _ => 0) 0 (d.len + 8)
  let buf ← udpCreate buf d.srcPort.toNat d.destPort.toNat d.len
  sockBufPut buf d.payload d.len

/-! ## Registration -/

section Layers

variable {layers layers' : NetLayers} {layer : Nat}

/-- A protocol that is registered for a number that was free is found under it. -/
theorem netLayerGetProto_register {proto : NetProtocol} (hlayer : layer < netStackLayers)
    (hfree : netLayerGetProto layers layer proto.identifier = none)
    (hreg : netLayerRegisterProto layers layer proto = .ret layers') :
    netLayerGetProto layers' layer proto.identifier = some proto := by
  have hge : ¬ layer ≥ netStackLayers := by omega
  unfold netLayerGetProto at hfree ⊢
  rw [if_neg hge] at hfree ⊢
  obtain ⟨v, hins, hret⟩ := Outcome.bind_eq_ret.mp hreg
  obtain ⟨u, hgrow, hput⟩ := Outcome.bind_eq_ret.mp hins
  have hsame : u.data = (layers layer).data := by
    unfold vectorGrow vectorReserve at hgrow
    split at hgrow
    · split at hgrow
      · cases hgrow
      · cases hgrow
        rfl
    · cases hgrow
      rfl
  have hdata : v.data = (layers layer).data ++ [proto] := by
    split at hput
    · cases hput
      rw [← hsame]
    · cases hput
  cases hret
  rw [Function.update_self, hdata, List.find?_append, hfree]
  simp

/-- UDP is registered at the transport layer. -/
theorem netLayerGetProto_initUdp (hfree : netLayerGetProto layers transportLayer 17 = none)
    (hreg : initUdp layers transportLayer = .ret layers') :
    netLayerGetProto layers' transportLayer 17 = some ⟨17, udpRecv⟩ := by
  have hlayer : transportLayer < netStackLayers := by decide
  unfold initUdp at hreg
  exact netLayerGetProto_register hlayer hfree hreg

end Layers

/-! ## What is sent -/

/-- The bytes of a port on the wire, the high one first. -/
def portByte (port : UInt16) (i : Nat) : UInt8 :=
  [UInt8.ofNat (port.toNat / 256), UInt8.ofNat (port.toNat % 256)].getD i 0

section Send

variable {m : Mem} {buf : SockBuf} {d₁ d₂ srcIp destIp options payload : Mem}
  {ecn dscp flags ttl protocol optionsLen : UInt8}
  {ethType id fragOffset dataLen len k n i sum header : Nat} {srcPort destPort : UInt16}

theorem readOnly_ipv4Sum : ReadOnly (ipv4Sum header n i sum) := by
  induction n generalizing i sum with
  | zero => exact ReadOnly.pure _
  | succ n ih => exact (ReadOnly.read16 _).bind fun w => ih

theorem readOnly_ipv4Checksum : ReadOnly (ipv4Checksum header) := by
  unfold ipv4Checksum
  exact (ReadOnly.read8 _).bind fun b => readOnly_ipv4Sum.bind fun s => ReadOnly.pure _

/-- The header length is the bit-field that was written last to its byte. -/
theorem ihl_setBits (b v : UInt8) : ihl (setBits b 0x0f 0 v) = v &&& 0x0f := by
  have hshift : v <<< 0 = v := by simp
  unfold ihl setBits
  rw [hshift, ← UInt8.toBitVec_inj]
  exact WordFields.get_set (by simp [BitVec.and_assoc])

/-- The header length of a header without options. -/
theorem run_ipv4Create_ihl :
    ihl (((ipv4Create buf ecn dscp id fragOffset flags ttl protocol srcIp destIp options 0
      dataLen).run m).mem buf.data) = 5 := by
  unfold ipv4Create
  simp only [mem_bind, run_read8, run_write8, run_write16, run_writeBytes, run_pure,
    readOnly_ipv4Checksum _]
  rw [store16_frame _ _ (by omega), blit_frame _ _ _ (by omega), blit_frame _ _ _ (by omega),
    blit_frame _ _ _ (by omega), store8_ne _ _ (by omega), store8_ne _ _ (by omega),
    store16_frame _ _ (by omega), store16_frame _ _ (by omega), store16_frame _ _ (by omega),
    store8_ne _ _ (by omega), store8_ne _ _ (by omega), store8_same, ihl_setBits]
  decide

/-- So the pointer goes behind 20 bytes. -/
theorem run_ipv4Create_value :
    ((ipv4Create buf ecn dscp id fragOffset flags ttl protocol srcIp destIp options 0 dataLen).run
      m).value = sockBufPush buf 20 := by
  -- the length that is read back last
  have hread : ((ipv4Create buf ecn dscp id fragOffset flags ttl protocol srcIp destIp options 0
        dataLen).run m).value =
      sockBufPush buf ((ihl (((ipv4Create buf ecn dscp id fragOffset flags ttl protocol srcIp
        destIp options 0 dataLen).run m).mem buf.data)).toNat * 4) := rfl
  rw [hread, run_ipv4Create_ihl]
  rfl

/-- The protocol and the addresses of the header. -/
theorem run_ipv4Create_fields :
    ((ipv4Create buf ecn dscp id fragOffset flags ttl protocol srcIp destIp options 0 dataLen).run
        m).mem (buf.data + 9) = protocol ∧
      ∀ k < 4,
        ((ipv4Create buf ecn dscp id fragOffset flags ttl protocol srcIp destIp options 0
          dataLen).run m).mem (buf.data + 12 + k) = srcIp k ∧
        ((ipv4Create buf ecn dscp id fragOffset flags ttl protocol srcIp destIp options 0
          dataLen).run m).mem (buf.data + 16 + k) = destIp k := by
  unfold ipv4Create
  simp only [mem_bind, run_read8, run_write8, run_write16, run_writeBytes, run_pure,
    readOnly_ipv4Checksum _]
  refine ⟨?_, fun k hk => ⟨?_, ?_⟩⟩
  · rw [store16_frame _ _ (by omega), blit_frame _ _ _ (by omega), blit_frame _ _ _ (by omega),
      blit_frame _ _ _ (by omega), store8_same]
  · rw [store16_frame _ _ (by omega), blit_frame _ _ _ (by omega), blit_frame _ _ _ (by omega),
      blit_at _ _ _ _ (by omega), Nat.zero_add]
  · rw [store16_frame _ _ (by omega), blit_frame _ _ _ (by omega),
      blit_at _ _ _ _ (by omega), Nat.zero_add]

theorem keeps_udpCreate {srcPort destPort : Nat} :
    Keeps buf.data (buf.data + 8) (udpCreate buf srcPort destPort dataLen) := by
  unfold udpCreate
  exact (Keeps.write16 _ (by omega)).bind fun _ => (Keeps.write16 _ (by omega)).bind fun _ =>
    (Keeps.write16 _ (by omega)).bind fun _ => (Keeps.write16 _ (by omega)).bind fun _ =>
    Keeps.pure _

theorem run_udpCreate_value {srcPort destPort : Nat} :
    ((udpCreate buf srcPort destPort dataLen).run m).value = sockBufPush buf 8 := rfl

/-- A port that is stored in network order. -/
theorem store16_htons {a : Nat} {port : UInt16} (hk : k < 2) :
    store16 m a (htons port.toNat) (a + k) = portByte port k := by
  have hlt := port.toNat_lt
  simp only [store16, Nat.add_sub_cancel_left]
  rw [if_pos (by omega), htons_eq hlt]
  have hhigh : (port.toNat % 256 * 256 + port.toNat / 256) / 256 = port.toNat % 256 := by omega
  apply UInt8.toNat_inj.mp
  obtain rfl | rfl : k = 0 ∨ k = 1 := by omega
  · simp [byteOf, portByte]
  · simp [byteOf, portByte, hhigh]

/-- The ports of the header. -/
theorem run_udpCreate_ports (hk : k < 2) :
    ((udpCreate buf srcPort.toNat destPort.toNat dataLen).run m).mem (buf.data + k) =
        portByte srcPort k ∧
      ((udpCreate buf srcPort.toNat destPort.toNat dataLen).run m).mem (buf.data + 2 + k) =
        portByte destPort k := by
  unfold udpCreate
  simp only [mem_bind, run_write16, run_pure]
  constructor
  · rw [store16_frame _ _ (by omega), store16_frame _ _ (by omega), store16_htons hk]
  · rw [store16_frame _ _ (by omega), store16_htons hk]

/-- What a datagram leaves in its buffer behind the Ethernet header. -/
structure OnWire (m : Mem) (a : Nat) (d : Datagram) : Prop where
  ihl : ihl (m a) = 5
  protocol : m (a + 9) = 17
  srcIp : ∀ k < 4, m (a + 12 + k) = d.srcIp k
  destIp : ∀ k < 4, m (a + 16 + k) = d.destIp k
  srcPort : ∀ k < 2, m (a + 20 + k) = portByte d.srcPort k
  destPort : ∀ k < 2, m (a + 22 + k) = portByte d.destPort k
  payload : ∀ k < d.len, m (a + 28 + k) = d.payload k

/-- A datagram is looked at through its own bytes only. -/
theorem OnWire.congr {m' : Mem} {a b : Nat} {d : Datagram} (h : OnWire m a d)
    (hsame : ∀ k < 28 + d.len, m' (b + k) = m (a + k)) : OnWire m' b d := by
  have hat : ∀ {x y : Nat} {v : Nat → UInt8}, (∀ k < y, m (a + x + k) = v k) → x + y ≤ 28 + d.len →
      ∀ k < y, m' (b + x + k) = v k := by
    intro x y v hv hle k hk
    rw [Nat.add_assoc, hsame (x + k) (by omega), ← Nat.add_assoc]
    exact hv k hk
  exact
    { ihl := by
        have hzero := hsame 0 (by omega)
        rw [Nat.add_zero, Nat.add_zero] at hzero
        rw [hzero]
        exact h.ihl
      protocol := (hsame 9 (by omega)).trans h.protocol
      srcIp := hat h.srcIp (by omega)
      destIp := hat h.destIp (by omega)
      srcPort := hat h.srcPort (by omega)
      destPort := hat h.destPort (by omega)
      payload := hat h.payload (by omega) }

theorem keeps_sockBufPut : Keeps buf.data (buf.data + len) (sockBufPut buf payload len) := by
  unfold sockBufPut
  exact (Keeps.writeBytes _ (by omega)).bind fun _ => Keeps.pure _

theorem run_sockBufPut_mem (hk : k < len) :
    ((sockBufPut buf payload len).run m).mem (buf.data + k) = payload k := by
  unfold sockBufPut
  simp only [mem_bind, run_writeBytes, run_pure]
  rw [blit_at _ _ _ _ (by omega), Nat.zero_add]

/-- The datagram that is built is on the wire behind the Ethernet header. -/
theorem sendDatagram_onWire {block size : Nat} {d : Datagram} :
    OnWire ((sendDatagram block size d).run m).mem (block + 14) d := by
  unfold sendDatagram
  simp only [mem_bind, run_writeBytes, run_ethCreate_value, run_ipv4Create_value,
    run_udpCreate_value]
  generalize ((ethCreate (sockBufInit block size) d.destMac d.srcMac ethTypeIPv4).run _).mem = m₁
  have hip : (sockBufPush (sockBufInit block size) 14).data = block + 14 := rfl
  generalize sockBufPush (sockBufInit block size) 14 = ip at hip ⊢
  have hudp : (sockBufPush ip 20).data = block + 34 := by rw [sockBufPush_data, hip]
  generalize sockBufPush ip 20 = udp at hudp ⊢
  have hput : (sockBufPush udp 8).data = block + 42 := by rw [sockBufPush_data, hudp]
  generalize sockBufPush udp 8 = data at hput ⊢
  -- bytes in front of the payload, and in front of the UDP header
  have hlate : ∀ (m : Mem) x, x < block + 42 →
      ((sockBufPut data d.payload d.len).run m).mem x = m x := fun m x hx =>
    keeps_sockBufPut m x (Or.inl (by rw [hput]; exact hx))
  have hmid : ∀ (m : Mem) x, x < block + 34 →
      ((udpCreate udp d.srcPort.toNat d.destPort.toNat d.len).run m).mem x = m x := fun m x hx =>
    keeps_udpCreate m x (Or.inl (by rw [hudp]; exact hx))
  refine
    { ihl := ?_, protocol := ?_, srcIp := fun k hk => ?_, destIp := fun k hk => ?_,
      srcPort := fun k hk => ?_, destPort := fun k hk => ?_, payload := fun k hk => ?_ }
  · rw [hlate _ _ (by omega), hmid _ _ (by omega), ← hip]
    exact run_ipv4Create_ihl
  · rw [hlate _ _ (by omega), hmid _ _ (by omega), ← hip]
    exact run_ipv4Create_fields.1
  · rw [hlate _ _ (by omega), hmid _ _ (by omega), ← hip]
    exact (run_ipv4Create_fields.2 k hk).1
  · rw [hlate _ _ (by omega), hmid _ _ (by omega), ← hip]
    exact (run_ipv4Create_fields.2 k hk).2
  · have haddr : block + 14 + 20 + k = udp.data + k := by omega
    rw [hlate _ _ (by omega), haddr]
    exact (run_udpCreate_ports hk).1
  · have haddr : block + 14 + 22 + k = udp.data + 2 + k := by omega
    rw [hlate _ _ (by omega), haddr]
    exact (run_udpCreate_ports hk).2
  · have haddr : block + 14 + 28 + k = data.data + k := by omega
    rw [haddr]
    exact run_sockBufPut_mem hk

end Send

/-! ## What is received -/

/-- What `ipv4_recv` is meant to leave of a datagram in the buffer `buf`. -/
structure Received (d : Datagram) (buf : SockBuf) (res : Result (SockBuf × Nat × ErrorT)) :
    Prop where
  accepted : res.value.2.2 = .ok
  data : res.value.1.data = buf.data + 28
  payload : ∀ k < d.len, res.mem (res.value.1.data + k) = d.payload k
  srcIp : ∀ k < 4, res.value.1.srcAddrs 1 k = d.srcIp k
  destIp : ∀ k < 4, res.value.1.dstAddrs 1 k = d.destIp k
  srcPort : ∀ k < 2, res.value.1.srcAddrs 2 k = portByte d.srcPort k
  destPort : ∀ k < 2, res.value.1.dstAddrs 2 k = portByte d.destPort k

/-- The condition on memory: at the addresses that the port fields are as numbers,
there are the ports. -/
def PortsThere (m : Mem) (d : Datagram) : Prop :=
  (∀ k < 2, m (htons d.srcPort.toNat + k) = portByte d.srcPort k) ∧
    ∀ k < 2, m (htons d.destPort.toNat + k) = portByte d.destPort k

section Receive

variable {m : Mem} {layers layers' : NetLayers} {buf : SockBuf} {d : Datagram} {recved : Nat}

/-- The port field of a datagram as a number of the host. -/
theorem load16_port {a : Nat} {port : UInt16} (h : ∀ k < 2, m (a + k) = portByte port k) :
    load16 m a = htons port.toNat := by
  have hlt := port.toNat_lt
  have hzero := h 0 (by decide)
  rw [Nat.add_zero] at hzero
  rw [load16, hzero, h 1 (by decide), htons_eq hlt]
  simp [portByte]
  omega

variable (recved) in
/-- What `ipv4_recv` leaves of a datagram when UDP is registered: the port slots
come from the addresses that the ports are taken for. -/
theorem run_ipv4Recv (hudp : netLayerGetProto layers transportLayer 17 = some ⟨17, udpRecv⟩)
    (hwire : OnWire m buf.data d) :
    ((ipv4Recv layers buf recved).run m).mem = m ∧
      ((ipv4Recv layers buf recved).run m).value.2.2 = .ok ∧
      ((ipv4Recv layers buf recved).run m).value.1.data = buf.data + 28 ∧
      (∀ k < 4, ((ipv4Recv layers buf recved).run m).value.1.srcAddrs 1 k = d.srcIp k ∧
        ((ipv4Recv layers buf recved).run m).value.1.dstAddrs 1 k = d.destIp k) ∧
      ∀ k < 2, ((ipv4Recv layers buf recved).run m).value.1.srcAddrs 2 k =
          m (htons d.srcPort.toNat + k) ∧
        ((ipv4Recv layers buf recved).run m).value.1.dstAddrs 2 k =
          m (htons d.destPort.toNat + k) := by
  have hproto : netLayerGetProto layers transportLayer (m (buf.data + 9)).toNat =
      some ⟨17, udpRecv⟩ := by
    rw [hwire.protocol]
    exact hudp
  have hihl : (ihl (m buf.data)).toNat * 4 = 20 := by
    rw [hwire.ihl]
    rfl
  have hsrc : load16 m (buf.data + 20) = htons d.srcPort.toNat := load16_port hwire.srcPort
  have hdest : load16 m (buf.data + 20 + 2) = htons d.destPort.toNat := load16_port hwire.destPort
  unfold ipv4Recv
  simp only [mem_bind, value_bind, run_readBytes, run_read8, hproto, hihl]
  unfold udpRecv
  simp only [mem_bind, value_bind, run_readBytes, run_read16, run_pure, sockBufPush, SockBuf.setSrc,
    SockBuf.setDst, hsrc, hdest, Function.update_self, ne_eq, Nat.reduceEqDiff, OfNat.one_ne_ofNat,
    not_false_eq_true, Function.update_of_ne]
  refine ⟨trivial, trivial, trivial, fun k hk => ⟨?_, ?_⟩, fun k hk => ⟨?_, ?_⟩⟩
  · rw [copyAddr_range hk]
    exact hwire.srcIp k hk
  · rw [copyAddr_range hk]
    exact hwire.destIp k hk
  · exact copyAddr_range hk
  · exact copyAddr_range hk

/-- A datagram that is on the wire is received, up to its ports. -/
theorem received_iff (hudp : netLayerGetProto layers transportLayer 17 = some ⟨17, udpRecv⟩)
    (hwire : OnWire m buf.data d) :
    Received d buf ((ipv4Recv layers buf recved).run m) ↔ PortsThere m d := by
  obtain ⟨hmem, hok, hdata, hips, hports⟩ := run_ipv4Recv recved hudp hwire
  constructor
  · intro h
    refine ⟨fun k hk => ?_, fun k hk => ?_⟩
    · rw [← (hports k hk).1]
      exact h.srcPort k hk
    · rw [← (hports k hk).2]
      exact h.destPort k hk
  · intro h
    refine
      { accepted := hok, data := hdata, payload := fun k hk => ?_
        srcIp := fun k hk => (hips k hk).1, destIp := fun k hk => (hips k hk).2
        srcPort := fun k hk => (hports k hk).1.trans (h.1 k hk)
        destPort := fun k hk => (hports k hk).2.trans (h.2 k hk) }
    rw [hmem, hdata]
    exact hwire.payload k hk

/-- A datagram of five bytes between the ports 12345. -/
def helloDatagram : Datagram where
  destMac := macBroadcast
  srcMac := fun _ => 2
  srcIp := myIp
  destIp := fun _ => 1
  srcPort := 12345
  destPort := 12345
  ecn := 0
  dscp := 0
  id := 0
  fragOffset := 0
  flags := 0
  ttl := 128
  payload := fun _ => 104
  len := 5

/-- The layers as `init_net` leaves them. -/
def emptyLayers : NetLayers := fun _ => vectorInit 2

/-- Memory with this datagram at 4096, and zeros behind it. -/
def helloMemory : Mem := fun a =>
  if a < 4143 then ((sendDatagram 4096 200 helloDatagram).run fun _ => 0).mem a else 0

theorem helloMemory_eq {k : Nat} (hk : k < 28 + 5) : helloMemory (4096 + 14 + k) =
    ((sendDatagram 4096 200 helloDatagram).run fun _ => 0).mem (4096 + 14 + k) := by
  unfold helloMemory
  rw [if_pos (by omega)]

/-- It is received with other ports: at address 14640, where the port field
points as a number, there are zeros. -/
theorem udpRoundTrip_fails : ∃ layers', initUdp emptyLayers transportLayer = .ret layers' ∧
    (∀ k < 28 + 5, helloMemory (4096 + 14 + k) =
      ((sendDatagram 4096 200 helloDatagram).run fun _ => 0).mem (4096 + 14 + k)) ∧
    ¬ Received helloDatagram (sockBufPush (sockBufInit 4096 200) 14)
      ((ipv4Recv layers' (sockBufPush (sockBufInit 4096 200) 14) 0).run helloMemory) := by
  refine ⟨_, rfl, fun k hk => helloMemory_eq hk, fun h => ?_⟩
  have hwire : OnWire helloMemory (sockBufPush (sockBufInit 4096 200) 14).data helloDatagram :=
    sendDatagram_onWire.congr fun k hk => helloMemory_eq hk
  have hfree : netLayerGetProto emptyLayers transportLayer 17 = none := by decide
  have hports := (received_iff (netLayerGetProto_initUdp hfree rfl) hwire).mp h
  have hport : htons helloDatagram.srcPort.toNat = 14640 := by decide
  have hzero := hports.1 0 (by decide)
  rw [hport] at hzero
  exact absurd hzero (by decide)

/-- A datagram comes back as it was sent exactly when the port slots happen to get
the ports. -/
theorem udpRoundTrip_iff (block size : Nat) (m : Mem) {m₂ : Mem}
    (hfree : netLayerGetProto layers transportLayer 17 = none)
    (hreg : initUdp layers transportLayer = .ret layers')
    (hframe : ∀ k < 28 + d.len,
      m₂ (buf.data + k) = ((sendDatagram block size d).run m).mem (block + 14 + k)) :
    Received d buf ((ipv4Recv layers' buf recved).run m₂) ↔ PortsThere m₂ d :=
  received_iff (netLayerGetProto_initUdp hfree hreg)
    (sendDatagram_onWire.congr hframe)

theorem udpRoundTrip_iff_hello : ∃ layers', initUdp emptyLayers transportLayer = .ret layers' ∧
    (Received helloDatagram (sockBufPush (sockBufInit 4096 200) 14)
        ((ipv4Recv layers' (sockBufPush (sockBufInit 4096 200) 14) 0).run
          ((sendDatagram 4096 200 helloDatagram).run fun _ => 0).mem) ↔
      PortsThere ((sendDatagram 4096 200 helloDatagram).run fun _ => 0).mem helloDatagram) :=
  ⟨_, rfl, udpRoundTrip_iff 4096 200 (fun _ => 0) (show netLayerGetProto emptyLayers
    transportLayer 17 = none by decide) rfl fun _ _ => rfl⟩

end Receive

end MeOS
