import MeOS.Ethernet

/-! # `arp.cpp`: what is answered to a frame

The receive path of `eth_recv` once more, with the frames that are handed to the device as a
second result and the own protocol address as a parameter. The reply is built in the buffer of
the request, from the addresses that the layers have saved on the way up.
-/

namespace MeOS.ArpReply

open Bytes Traced

/-! ## The functions -/

/-- `eth_send`: the bytes that `e1000_send` takes. -/
def ethSend (buf : SockBuf) : Prog (List UInt8) := do
  let eth := buf.head
  let ethType ← read16 (eth + 12)
  if ethType = ethTypeArp then do
    -- `eth_print`
    let _ ← readBytes eth 14
    readBytes eth (sockBufGetHeaderLen buf % 65536)
  else readBytes eth (sockBufGetHeaderLen buf % 65536)

/-- `arp_send`. -/
def arpSend (buf : SockBuf) : Prog (List UInt8 × ErrorT) := do
  let sent ← ethSend buf
  pure (sent, .ok)

/-- The reply of `arp_receive_ipv4`, in the same buffer. -/
def sendReply (nicMac : Mem) (buf : SockBuf) : Prog (SockBuf × List (List UInt8)) := do
  let buf := sockBufReset buf
  let buf ← ethCreate buf (buf.srcAddrs 0) nicMac ethTypeArp
  let buf ← arpCreate buf hwEther protoIPv4 6 4 arpRep nicMac (buf.dstAddrs 1)
    (buf.srcAddrs 0) (buf.srcAddrs 1)
  let sent ← arpSend buf
  pure (buf, [sent.1])

/-- `arp_receive_ipv4`. -/
def arpReceiveIpv4 (nicMac myIp : Mem) (buf : SockBuf) : Prog (SockBuf × List (List UInt8)) := do
  let arp := buf.data
  let arp4 := arp + 8
  let srcIp ← readBytes (arp4 + 6) 4
  let buf := buf.setSrc 1 srcIp
  let destIp ← readBytes (arp4 + 16) 4
  let buf := buf.setDst 1 destIp
  let mine ← protocolAddrEqual (arp4 + 16) myIp 4
  if mine = true then do
    let opcode ← read16 (arp + 6)
    if ntohs opcode = arpReq then sendReply nicMac buf else pure (buf, [])
  else pure (buf, [])

/-- `arp_recv`. -/
def arpRecv (nicMac myIp : Mem) (buf : SockBuf) :
    Prog ((SockBuf × ErrorT) × List (List UInt8)) := do
  let arp := buf.data
  let hwType ← read16 arp
  if hwType ≠ htons hwEther then
    pure ((buf, .occur), [])
  else do
    let protType ← read16 (arp + 2)
    if ntohs protType = protoIPv4 then do
      let protLen ← read8 (arp + 5)
      if protLen ≠ 4 then
        pure ((buf, .occur), [])
      else do
        let r ← arpReceiveIpv4 nicMac myIp buf
        pure ((r.1, .ok), r.2)
    else pure ((buf, .ok), [])

/-- `eth_recv` behind the check of the destination. -/
def ethDeliver (nicMac myIp : Mem) (buf : SockBuf) : Prog (SockBuf × List (List UInt8)) := do
  let eth := buf.data
  let destMac ← readBytes eth 6
  let buf := buf.setDst 0 destMac
  let srcMac ← readBytes (eth + 6) 6
  let buf := buf.setSrc 0 srcMac
  let netType ← read16 (eth + 12)
  let buf := sockBufPush buf 14
  if ntohs netType = ethTypeArp then do
    let r ← arpRecv nicMac myIp buf
    pure (r.1.1, r.2)
  else pure (buf, [])

/-- `eth_recv`. -/
def ethRecv (nicMac myIp : Mem) (buf : SockBuf) : Prog (SockBuf × List (List UInt8)) := do
  let eth := buf.data
  let own ← ethCmpMac eth nicMac
  if own = true then
    ethDeliver nicMac myIp buf
  else do
    let broadcast ← ethCmpMac eth macBroadcast
    if broadcast = true then ethDeliver nicMac myIp buf else pure (buf, [])

/-- A frame of `len` bytes is copied to a new buffer and received. -/
def recvFrame (nicMac myIp : Mem) (block len : Nat) (frame : Mem) :
    Prog (SockBuf × List (List UInt8)) := do
  let buf ← sockBufInitRecv block len frame
  ethRecv nicMac myIp buf

/-! ## The frames forgotten -/

section Forget

variable {nicMac : Mem} {buf : SockBuf}

theorem map_ethSend : Prog.map (fun _ => ()) (ethSend buf) = MeOS.ethSend buf := by
  unfold ethSend MeOS.ethSend
  simp only [map_bind, map_ite]
  rfl

theorem map_arpSend : Prog.map Prod.snd (arpSend buf) = MeOS.arpSend buf := by
  unfold arpSend MeOS.arpSend
  rw [← map_ethSend, map_bind, bind_map]
  rfl

theorem map_arpReceiveIpv4 :
    Prog.map Prod.fst (arpReceiveIpv4 nicMac MeOS.myIp buf) = MeOS.arpReceiveIpv4 nicMac buf := by
  unfold arpReceiveIpv4 MeOS.arpReceiveIpv4 sendReply
  simp only [← map_arpSend, map_bind, map_ite, bind_map, map_pure]

theorem map_arpRecv :
    Prog.map Prod.fst (arpRecv nicMac MeOS.myIp buf) = MeOS.arpRecv nicMac buf := by
  unfold arpRecv MeOS.arpRecv
  simp only [← map_arpReceiveIpv4, map_bind, map_ite, bind_map, map_pure]

theorem map_ethDeliver :
    Prog.map Prod.fst (ethDeliver nicMac MeOS.myIp buf) = MeOS.ethDeliver nicMac buf := by
  unfold ethDeliver MeOS.ethDeliver
  simp only [← map_arpRecv, map_bind, map_ite, bind_map, map_pure]

/-- Without the frames it is `eth_recv` with its accesses, for the address that is compiled in. -/
theorem map_ethRecv :
    Prog.map Prod.fst (ethRecv nicMac MeOS.myIp buf) = MeOS.ethRecv nicMac buf := by
  unfold ethRecv MeOS.ethRecv
  simp only [← map_ethDeliver, map_bind, map_ite, map_pure]

end Forget

/-! ## Ranges of bytes -/

/-- The `n` bytes from `a` on. -/
def bytesAt (m : Mem) (a n : Nat) : List UInt8 := (List.range n).map fun i => m (a + i)

section Ranges

variable {m m' src old : Mem} {a b n k s v : Nat}

theorem length_bytesAt : (bytesAt m a n).length = n := by
  rw [bytesAt, List.length_map, List.length_range]

theorem bytesAt_add : bytesAt m a (n + k) = bytesAt m a n ++ bytesAt m (a + n) k := by
  simp only [bytesAt, List.range_add, List.map_append, List.map_map, Function.comp_def,
    Nat.add_assoc]

/-- A range depends on its bytes. -/
theorem bytesAt_congr (h : ∀ i < n, m (a + i) = m' (b + i)) : bytesAt m a n = bytesAt m' b n :=
  List.map_congr_left fun i hi => h i (List.mem_range.mp hi)

/-- A range is the bytes that were copied to it. -/
theorem bytesAt_blit : bytesAt (blit m a src s n) a n = bytesAt src s n := by
  refine bytesAt_congr fun i hi => ?_
  rw [blit_at _ _ _ _ (by omega)]

theorem bytesAt_blit_apart (h : a + n ≤ b ∨ b + k ≤ a) :
    bytesAt (blit m b src s k) a n = bytesAt m a n :=
  bytesAt_congr fun i hi => blit_frame _ _ _ (by omega)

/-- A word in network order. -/
theorem bytesAt_htons (hv : v < 65536) :
    bytesAt (store16 m a (htons v)) a 2 = [byteOf v 1, byteOf v 0] := by
  have hlow : store16 m a (htons v) a = byteOf v 1 := by
    rw [show store16 m a (htons v) a = byteOf (htons v) 0 by simp [store16]]
    apply UInt8.toNat_inj.mp
    rw [byteOf_toNat, byteOf_toNat, htons_eq hv]
    omega
  have hhigh : store16 m a (htons v) (a + 1) = byteOf v 0 := by
    rw [show store16 m a (htons v) (a + 1) = byteOf (htons v) 1 by simp [store16]]
    apply UInt8.toNat_inj.mp
    have hswap : (v % 256 * 256 + v / 256) / 256 = v % 256 := by omega
    rw [byteOf_toNat, byteOf_toNat, htons_eq hv, pow_zero, pow_one, Nat.div_one, hswap, Nat.mod_mod]
  change [store16 m a (htons v) (a + 0), store16 m a (htons v) (a + 1)] = _
  rw [Nat.add_zero, hlow, hhigh]

theorem bytesAt_store16_apart (h : a + n ≤ b ∨ b + 2 ≤ a) :
    bytesAt (store16 m b v) a n = bytesAt m a n :=
  bytesAt_congr fun i hi => store16_frame _ _ (by omega)

theorem bytesAt_store8 {c : UInt8} : bytesAt (store8 m a c) a 1 = [c] := by
  change [store8 m a c (a + 0)] = _
  rw [Nat.add_zero, store8_same]

theorem bytesAt_store8_apart {c : UInt8} (h : a + n ≤ b ∨ b + 1 ≤ a) :
    bytesAt (store8 m b c) a n = bytesAt m a n :=
  bytesAt_congr fun i hi => store8_ne _ _ (by omega)

/-- An address that was saved. -/
theorem bytesAt_copyAddr : bytesAt (copyAddr old (bytesAt m a n)) 0 n = bytesAt m a n := by
  refine bytesAt_congr fun i hi => ?_
  rw [Nat.zero_add]
  exact copyAddr_range hi

end Ranges

/-! ## The encoders -/

section Encoders

variable {m : Mem} {buf : SockBuf}

/-- An Ethernet header. -/
def ethHeader (destMac srcMac : Mem) (ethType : Nat) : List UInt8 :=
  bytesAt destMac 0 6 ++ (bytesAt srcMac 0 6 ++ [byteOf ethType 1, byteOf ethType 0])

/-- An ARP packet. -/
def arpPacket (hwType protType : Nat) (hwLen protLen : UInt8) (opcode : Nat)
    (srcHw srcProt destHw destProt : Mem) : List UInt8 :=
  [byteOf hwType 1, byteOf hwType 0] ++ ([byteOf protType 1, byteOf protType 0] ++ ([hwLen] ++
    ([protLen] ++ ([byteOf opcode 1, byteOf opcode 0] ++ (bytesAt srcHw 0 hwLen.toNat ++
      (bytesAt srcProt 0 protLen.toNat ++ (bytesAt destHw 0 hwLen.toNat ++
        bytesAt destProt 0 protLen.toNat)))))))

/-- What `eth_create` leaves at `data`. -/
theorem bytesAt_ethCreate (buf : SockBuf) (d₁ d₂ m : Mem) {t : Nat} (ht : t < 65536) :
    bytesAt ((ethCreate buf d₁ d₂ t).run m).mem buf.data 14 = ethHeader d₁ d₂ t := by
  change bytesAt (store16 (blit (blit m buf.data d₁ 0 6) (buf.data + 6) d₂ 0 6) (buf.data + 12)
    (htons t)) buf.data (6 + (6 + 2)) = _
  rw [bytesAt_add, bytesAt_add, ethHeader]
  refine congrArg₂ _ ?_ (congrArg₂ _ ?_ ?_)
  · rw [bytesAt_store16_apart (by omega), bytesAt_blit_apart (by omega), bytesAt_blit]
  · rw [bytesAt_store16_apart (by omega), bytesAt_blit]
  · exact bytesAt_htons ht

/-- What `arp_create` leaves at `data`. -/
theorem bytesAt_arpCreate (buf : SockBuf) (d₁ d₂ d₃ d₄ m : Mem) (hwLen protLen : UInt8)
    {h p o : Nat} (hhw : h < 65536) (hprot : p < 65536) (hop : o < 65536) :
    bytesAt ((arpCreate buf h p hwLen protLen o d₁ d₂ d₃ d₄).run m).mem buf.data
        (8 + 2 * hwLen.toNat + 2 * protLen.toNat) = arpPacket h p hwLen protLen o d₁ d₂ d₃ d₄ := by
  have hsize : 8 + 2 * hwLen.toNat + 2 * protLen.toNat = 2 + (2 + (1 + (1 + (2 + (hwLen.toNat +
      (protLen.toNat + (hwLen.toNat + protLen.toNat))))))) := by omega
  rw [hsize]
  simp only [bytesAt_add, arpCreate, mem_bind, run_write16, run_write8, run_writeBytes, run_read8,
    run_pure, arpPacket]
  refine congrArg₂ _ ?_ (congrArg₂ _ ?_ (congrArg₂ _ ?_ (congrArg₂ _ ?_ (congrArg₂ _ ?_
    (congrArg₂ _ ?_ (congrArg₂ _ ?_ (congrArg₂ _ ?_ ?_)))))))
  all_goals
    repeat first
      | rw [bytesAt_blit_apart (by omega)]
      | rw [bytesAt_store16_apart (by omega)]
      | rw [bytesAt_store8_apart (by omega)]
  · exact bytesAt_htons hhw
  · exact bytesAt_htons hprot
  · exact bytesAt_store8
  · exact bytesAt_store8
  · exact bytesAt_htons hop
  · exact bytesAt_blit
  · exact bytesAt_blit
  · exact bytesAt_blit
  · exact bytesAt_blit

/-- What lies before `data` is kept by `arp_create`. -/
theorem bytesAt_arpCreate_before (buf : SockBuf) (d₁ d₂ d₃ d₄ m : Mem)
    (hwType protType opcode : Nat) (hwLen protLen : UInt8) {a n : Nat} (h : a + n ≤ buf.data) :
    bytesAt ((arpCreate buf hwType protType hwLen protLen opcode d₁ d₂ d₃ d₄).run m).mem a n =
      bytesAt m a n := by
  simp only [arpCreate, mem_bind, run_write16, run_write8, run_writeBytes, run_read8, run_pure]
  repeat first
    | rw [bytesAt_blit_apart (by omega)]
    | rw [bytesAt_store16_apart (by omega)]
    | rw [bytesAt_store8_apart (by omega)]

/-- The device takes what lies between `head` and `data`. -/
theorem run_ethSend_value :
    ((ethSend buf).run m).value = bytesAt m buf.head (sockBufGetHeaderLen buf % 65536) := by
  unfold ethSend
  rw [value_bind]
  by_cases htype : ((read16 (buf.head + 12)).run m).value = ethTypeArp
  · rw [if_pos htype]
    rfl
  · rw [if_neg htype]
    rfl

/-- The frame of a reply, from the addresses that the buffer holds. -/
theorem run_sendReply {nicMac : Mem} :
    ((sendReply nicMac buf).run m).value.2 =
      [ethHeader (buf.srcAddrs 0) nicMac ethTypeArp ++ arpPacket hwEther protoIPv4 6 4 arpRep nicMac
        (buf.dstAddrs 1) (buf.srcAddrs 0) (buf.srcAddrs 1)] := by
  have hlen : (8 + 2 * (6 : UInt8).toNat + 2 * (4 : UInt8).toNat) = 28 := rfl
  let b := sockBufReset buf
  have hheader := bytesAt_ethCreate b (buf.srcAddrs 0) nicMac m (t := ethTypeArp) (by decide)
  have hpacket := bytesAt_arpCreate (sockBufPush b 14) nicMac (buf.dstAddrs 1) (buf.srcAddrs 0)
    (buf.srcAddrs 1) ((ethCreate b (buf.srcAddrs 0) nicMac ethTypeArp).run m).mem 6 4
    (h := hwEther) (p := protoIPv4) (o := arpRep) (by decide) (by decide) (by decide)
  have hsent : sockBufGetHeaderLen (sockBufPush (sockBufPush b 14) 28) % 65536 = 14 + 28 := by
    simp only [sockBufGetHeaderLen, sockBufPush_data, sockBufPush_head, b, sockBufReset]
    omega
  have hkept := bytesAt_arpCreate_before (sockBufPush b 14) nicMac (buf.dstAddrs 1)
    (buf.srcAddrs 0) (buf.srcAddrs 1) ((ethCreate b (buf.srcAddrs 0) nicMac ethTypeArp).run m).mem
    hwEther protoIPv4 arpRep 6 4 (a := b.data) (n := 14) (by rw [sockBufPush_data])
  unfold sendReply
  rw [value_bind, value_bind, value_bind, run_ethCreate_value, run_arpCreate_value, hlen, arpSend,
    value_bind, run_ethSend_value]
  rw [hlen] at hpacket
  rw [run_pure]
  refine congrArg (fun l => [l]) ?_
  change bytesAt _ b.data (sockBufGetHeaderLen (sockBufPush (sockBufPush b 14) 28) % 65536) = _
  rw [hsent, bytesAt_add, ← hheader, ← hpacket, ← hkept]
  rfl

end Encoders

/-! ## The frame received -/

section Receive

variable {nicMac myIp m frame : Mem} {buf : SockBuf} {head : Nat}

/-- What asks for the own protocol address, in an ARP packet for IPv4. -/
def AsksForUs (myIp frame : Mem) : Prop :=
  (∀ j < 4, frame (38 + j) = myIp j) ∧ wireWord frame 20 = arpReq

instance (myIp frame : Mem) : Decidable (AsksForUs myIp frame) :=
  inferInstanceAs (Decidable (_ ∧ _))

/-- The frame is an ARP request that this host has to answer. -/
def IsArpRequest (nicMac myIp frame : Mem) : Prop :=
  (MacIs frame nicMac ∨ MacIs frame macBroadcast) ∧ wireWord frame 12 = ethTypeArp ∧
    wireWord frame 14 = hwEther ∧ wireWord frame 16 = protoIPv4 ∧ frame 19 = 4 ∧
    AsksForUs myIp frame

instance (nicMac myIp frame : Mem) : Decidable (IsArpRequest nicMac myIp frame) :=
  inferInstanceAs (Decidable (_ ∧ _ ∧ _ ∧ _ ∧ _ ∧ _))

/-- The reply to a request: to the Ethernet source of the frame, from the own addresses. -/
def arpReply (nicMac myIp frame : Mem) : List UInt8 :=
  let requester := fun i => frame (6 + i)
  let requesterIp := fun i => frame (28 + i)
  ethHeader requester nicMac ethTypeArp ++
    arpPacket hwEther protoIPv4 6 4 arpRep nicMac myIp requester requesterIp

theorem length_arpReply : (arpReply nicMac myIp frame).length = 42 := by
  simp only [arpReply, ethHeader, arpPacket, List.length_append, List.length_cons,
    List.length_nil, length_bytesAt]
  rfl

theorem ethHeader_congr {d d' s : Mem} {t : Nat} (h : bytesAt d 0 6 = bytesAt d' 0 6) :
    ethHeader d s t = ethHeader d' s t := by
  rw [ethHeader, ethHeader, h]

theorem arpPacket_congr {s p p' d d' q q' : Mem} {hw prot op : Nat}
    (hp : bytesAt p 0 4 = bytesAt p' 0 4) (hd : bytesAt d 0 6 = bytesAt d' 0 6)
    (hq : bytesAt q 0 4 = bytesAt q' 0 4) :
    arpPacket hw prot 6 4 op s p d q = arpPacket hw prot 6 4 op s p' d' q' := by
  rw [arpPacket, arpPacket, show (6 : UInt8).toNat = 6 from rfl,
    show (4 : UInt8).toNat = 4 from rfl, hp, hd, hq]

@[simp] theorem setDst_srcAddrs {layer : Nat} {bytes : List UInt8} :
    (buf.setDst layer bytes).srcAddrs = buf.srcAddrs := rfl

theorem setDst_dstAddrs {layer : Nat} {bytes : List UInt8} :
    (buf.setDst layer bytes).dstAddrs layer = copyAddr (buf.dstAddrs layer) bytes :=
  Function.update_self _ _ _

theorem setSrc_srcAddrs {layer : Nat} {bytes : List UInt8} :
    (buf.setSrc layer bytes).srcAddrs layer = copyAddr (buf.srcAddrs layer) bytes :=
  Function.update_self _ _ _

theorem setSrc_srcAddrs_ne {layer other : Nat} {bytes : List UInt8} (h : other ≠ layer) :
    (buf.setSrc layer bytes).srcAddrs other = buf.srcAddrs other :=
  Function.update_of_ne h _ _

/-- The comparison with the own protocol address. -/
theorem run_protocolAddrEqual {addr : Nat} :
    ((protocolAddrEqual addr myIp 4).run m).value = true ↔ ∀ j < 4, m (addr + j) = myIp j := by
  unfold protocolAddrEqual
  rw [run_addrEqual_value]
  simp only [Nat.zero_le, Nat.zero_add, true_imp_iff]

/-- What is sent for an ARP packet for IPv4, the frame in the buffer from `head` on. -/
theorem run_arpReceiveIpv4 (hdata : buf.data = head + 14)
    (hsaved : bytesAt (buf.srcAddrs 0) 0 6 = bytesAt m (head + 6) 6) :
    ((arpReceiveIpv4 nicMac myIp buf).run m).value.2 =
      if AsksForUs myIp (fun k => m (head + k)) then
        [arpReply nicMac myIp fun k => m (head + k)] else [] := by
  have hmem : ((protocolAddrEqual (buf.data + 8 + 16) myIp 4).run m).mem = m := run_addrEqual_mem
  have hip : ((protocolAddrEqual (buf.data + 8 + 16) myIp 4).run m).value = true ↔
      ∀ j < 4, m (head + (38 + j)) = myIp j := by
    rw [run_protocolAddrEqual, hdata]
    simp only [Nat.add_assoc, Nat.reduceAdd]
  have hop : wireWord (fun k => m (head + k)) 20 = wireWord m (buf.data + 6) := by
    rw [hdata]
    rfl
  have hrequester : ∀ srcIp destIp,
      bytesAt (((buf.setSrc 1 srcIp).setDst 1 destIp).srcAddrs 0) 0 6 =
        bytesAt (fun i => m (head + (6 + i))) 0 6 := by
    intro srcIp destIp
    rw [setDst_srcAddrs, setSrc_srcAddrs_ne (by decide), hsaved]
    exact bytesAt_congr fun i _ => congrArg m (by omega)
  unfold arpReceiveIpv4
  rw [value_bind, value_bind, value_bind]
  simp only [run_readBytes, hip, hmem]
  by_cases hmine : ∀ j < 4, m (head + (38 + j)) = myIp j
  · rw [if_pos hmine, value_bind, run_read16, ntohs_load16]
    by_cases hreq : wireWord m (buf.data + 6) = arpReq
    · rw [if_pos hreq, if_pos ⟨hmine, hop.trans hreq⟩]
      rw [run_sendReply, arpReply]
      refine congrArg (fun l => [l]) (congrArg₂ _ (ethHeader_congr ?_) (arpPacket_congr ?_ ?_ ?_))
      · exact hrequester _ _
      · rw [setDst_dstAddrs, hdata]
        exact bytesAt_copyAddr.trans (bytesAt_congr fun j hj => by
          rw [Nat.zero_add, ← hmine j hj, Nat.add_assoc, Nat.add_assoc, Nat.add_assoc]
          exact congrArg m (by omega))
      · exact hrequester _ _
      · rw [setDst_srcAddrs, setSrc_srcAddrs, hdata]
        exact bytesAt_copyAddr.trans (bytesAt_congr fun j _ => congrArg m (by omega))
    · rw [if_neg hreq, if_neg (fun h => hreq (hop.symm.trans h.2))]
      rfl
  · rw [if_neg hmine, if_neg (fun h => hmine h.1)]
    rfl

/-- What is sent for an ARP packet. -/
theorem run_arpRecv (hdata : buf.data = head + 14)
    (hsaved : bytesAt (buf.srcAddrs 0) 0 6 = bytesAt m (head + 6) 6) :
    ((arpRecv nicMac myIp buf).run m).value.2 =
      if wireWord m (head + 14) = hwEther ∧ wireWord m (head + 16) = protoIPv4 ∧
          m (head + 19) = 4 ∧ AsksForUs myIp (fun k => m (head + k)) then
        [arpReply nicMac myIp fun k => m (head + k)] else [] := by
  have hhw : load16 m buf.data = htons hwEther ↔ wireWord m (head + 14) = hwEther := by
    rw [load16_eq_htons, hdata]
  unfold arpRecv
  rw [value_bind, run_read16]
  by_cases hether : wireWord m (head + 14) = hwEther
  · rw [if_neg (not_not.mpr (hhw.mpr hether)), value_bind, run_read16, ntohs_load16, hdata]
    by_cases hipv4 : wireWord m (head + 16) = protoIPv4
    · rw [if_pos hipv4, value_bind, run_read8]
      by_cases hfour : m (head + 19) = 4
      · rw [if_neg (not_not.mpr hfour), value_bind, run_pure, run_arpReceiveIpv4 hdata hsaved]
        simp only [hether, hipv4, hfour, true_and]
      · rw [if_pos hfour, if_neg (fun h => hfour h.2.2.1)]
        rfl
    · rw [if_neg hipv4, if_neg (fun h => hipv4 h.2.1)]
      rfl
  · rw [if_pos (fun h => hether (hhw.mp h)), if_neg (fun h => hether h.1)]
    rfl

/-- What is sent for a frame whose destination is this host. -/
theorem run_ethDeliver (hdata : buf.data = head) :
    ((ethDeliver nicMac myIp buf).run m).value.2 =
      if wireWord m (head + 12) = ethTypeArp ∧ wireWord m (head + 14) = hwEther ∧
          wireWord m (head + 16) = protoIPv4 ∧ m (head + 19) = 4 ∧
          AsksForUs myIp (fun k => m (head + k)) then
        [arpReply nicMac myIp fun k => m (head + k)] else [] := by
  unfold ethDeliver
  rw [value_bind, value_bind, value_bind]
  simp only [run_readBytes, run_read16, ntohs_load16, hdata]
  by_cases harp : wireWord m (head + 12) = ethTypeArp
  · rw [if_pos harp, value_bind, run_pure, run_arpRecv (congrArg (· + 14) hdata)]
    · simp only [harp, true_and]
    · change bytesAt ((SockBuf.setSrc _ 0 _).srcAddrs 0) 0 6 = _
      rw [setSrc_srcAddrs]
      exact bytesAt_copyAddr
  · rw [if_neg harp, if_neg (fun h => harp h.1)]
    rfl

/-- What is sent for a frame in a buffer. -/
theorem run_ethRecv (hdata : buf.data = head) :
    ((ethRecv nicMac myIp buf).run m).value.2 =
      if IsArpRequest nicMac myIp (fun k => m (head + k)) then
        [arpReply nicMac myIp fun k => m (head + k)] else [] := by
  have hmac : ∀ mac, ((ethCmpMac head mac).run m).value = true ↔
      MacIs (fun k => m (head + k)) mac := by
    intro mac
    unfold ethCmpMac MacIs
    rw [run_addrEqual_value]
    simp only [Nat.zero_le, Nat.zero_add, true_imp_iff]
  have hmem : ∀ mac, ((ethCmpMac head mac).run m).mem = m := fun mac => run_addrEqual_mem
  have hdeliver : ((ethDeliver nicMac myIp buf).run m).value.2 = _ := run_ethDeliver hdata
  unfold ethRecv
  rw [hdata, value_bind, hmem]
  by_cases hown : MacIs (fun k => m (head + k)) nicMac
  · rw [if_pos ((hmac nicMac).mpr hown), hdeliver]
    simp only [IsArpRequest, hown, true_or, true_and]
    rfl
  · rw [if_neg (fun h => hown ((hmac nicMac).mp h)), value_bind, hmem]
    by_cases hall : MacIs (fun k => m (head + k)) macBroadcast
    · rw [if_pos ((hmac macBroadcast).mpr hall), hdeliver]
      simp only [IsArpRequest, hall, or_true, true_and]
      rfl
    · rw [if_neg (fun h => hall ((hmac macBroadcast).mp h)), if_neg]
      · rfl
      · rintro ⟨h | h, _⟩
        · exact hown h
        · exact hall h

/-- The fields of a frame of 42 bytes or more. -/
theorem isArpRequest_congr {frame' : Mem} (h : ∀ k < 42, frame k = frame' k) :
    IsArpRequest nicMac myIp frame ↔ IsArpRequest nicMac myIp frame' := by
  have hmac : ∀ mac, MacIs frame mac ↔ MacIs frame' mac := by
    intro mac
    refine forall_congr' fun j => imp_congr_right fun hj => ?_
    rw [h j (by omega)]
  have hip : (∀ j < 4, frame (38 + j) = myIp j) ↔ ∀ j < 4, frame' (38 + j) = myIp j := by
    refine forall_congr' fun j => imp_congr_right fun hj => ?_
    rw [h (38 + j) (by omega)]
  unfold IsArpRequest AsksForUs
  rw [hmac, hmac, hip, wireWord_congr h (by decide), wireWord_congr h (by decide),
    wireWord_congr h (by decide), wireWord_congr h (by decide), h 19 (by decide)]

theorem arpReply_congr {frame' : Mem} (h : ∀ k < 42, frame k = frame' k) :
    arpReply nicMac myIp frame = arpReply nicMac myIp frame' := by
  have hmac : bytesAt (fun i => frame (6 + i)) 0 6 = bytesAt (fun i => frame' (6 + i)) 0 6 :=
    bytesAt_congr fun i hi => h _ (by omega)
  have hip : bytesAt (fun i => frame (28 + i)) 0 4 = bytesAt (fun i => frame' (28 + i)) 0 4 :=
    bytesAt_congr fun i hi => h _ (by omega)
  exact congrArg₂ (· ++ ·) (ethHeader_congr hmac) (arpPacket_congr rfl hmac hip)

/-- A frame of 42 bytes or more is answered with one reply of 42 bytes if it is a request for this
host, and else with nothing. -/
theorem recvFrame_answers (nicMac myIp : Mem) (block len : Nat) (frame m : Mem) (hlen : 42 ≤ len) :
    ((recvFrame nicMac myIp block len frame).run m).value.2 =
        (if IsArpRequest nicMac myIp frame then [arpReply nicMac myIp frame] else []) ∧
      (arpReply nicMac myIp frame).length = 42 := by
  refine ⟨?_, length_arpReply⟩
  have hcopy : ∀ k < 42, blit m block frame 0 len (block + k) = frame k := by
    intro k hk
    rw [blit_at _ _ _ _ (by omega), Nat.zero_add]
  have hrecv : ((ethRecv nicMac myIp (sockBufInit block len)).run
      (blit m block frame 0 len)).value.2 = _ := run_ethRecv (show _ = block from rfl)
  rw [arpReply_congr hcopy, if_congr (isArpRequest_congr hcopy) rfl rfl] at hrecv
  exact hrecv

/-- A request for 192.168.1.30 from 192.168.1.9. -/
def request : Mem := fun k =>
  [0xff, 0xff, 0xff, 0xff, 0xff, 0xff, 2, 0, 0, 0, 0, 1, 8, 6, 0, 1, 8, 0, 6, 4, 0, 1,
    2, 0, 0, 0, 0, 1, 192, 168, 1, 9, 0, 0, 0, 0, 0, 0, 192, 168, 1, 30].getD k 0

theorem recvFrame_request :
    ((recvFrame (fun _ => 2) MeOS.myIp 4096 60 request).run fun _ => 0).value.2 =
        (if IsArpRequest (fun _ => 2) MeOS.myIp request then
          [arpReply (fun _ => 2) MeOS.myIp request] else []) ∧
      (arpReply (fun _ => 2) MeOS.myIp request).length = 42 :=
  recvFrame_answers (fun _ => 2) MeOS.myIp 4096 60 request (fun _ => 0) (by decide)

example : arpReply (fun _ => 2) MeOS.myIp request =
    [2, 0, 0, 0, 0, 1, 2, 2, 2, 2, 2, 2, 8, 6, 0, 1, 8, 0, 6, 4, 0, 2, 2, 2, 2, 2, 2, 2,
      192, 168, 1, 30, 2, 0, 0, 0, 0, 1, 192, 168, 1, 9] := by decide

end Receive

end MeOS.ArpReply
