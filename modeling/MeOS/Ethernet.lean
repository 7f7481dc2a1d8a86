import MeOS.SockBuf

/-! # `ethernet.cpp` and `arp.cpp`: a received frame

A frame of any length is copied into a socket buffer of its length. The receive
functions look at their headers through `data` and do not ask whether the frame
has them; an ARP request for the own address is answered in the same buffer, with
a reply of 42 bytes. So a frame is processed in bounds exactly when it is as long
as what its own fields make the code look at.
-/

namespace MeOS

open Bytes Traced

/-! ## The functions -/

/-- `ETH_TYPE_ARP`. -/
abbrev ethTypeArp : Nat := 0x0806

/-- `HW_ETHER`. -/
abbrev hwEther : Nat := 1

/-- `PROTO_IPv4`. -/
abbrev protoIPv4 : Nat := 0x0800

/-- `ARP_REQ`. -/
abbrev arpReq : Nat := 1

/-- `ARP_REP`. -/
abbrev arpRep : Nat := 2

/-- `mac_broadcast`. -/
def macBroadcast : Mem := fun _ => 0xff

/-- `my_ip`. -/
def myIp : Mem := fun i => [192, 168, 1, 30].getD i 0

/-- `eth_cmp_mac`. -/
def ethCmpMac (mac1 : Nat) (mac2 : Mem) : Prog Bool := addrEqual mac1 mac2 6 0

/-- `protocol_addr_equal`. -/
def protocolAddrEqual (proto1 : Nat) (proto2 : Mem) (len : Nat) : Prog Bool :=
  addrEqual proto1 proto2 len 0

/-- `eth_create`. -/
def ethCreate (buf : SockBuf) (destMac srcMac : Mem) (ethType : Nat) : Prog SockBuf := do
  let eth := buf.data
  writeBytes eth 6 destMac
  writeBytes (eth + 6) 6 srcMac
  write16 (eth + 12) (htons ethType)
  pure (sockBufPush buf 14)

/-- `eth_send`; the last access is that of the device, in `e1000_send`. -/
def ethSend (buf : SockBuf) : Prog Unit := do
  let eth := buf.head
  let ethType ← read16 (eth + 12)
  if ethType = ethTypeArp then do
    -- `eth_print`
    let _ ← readBytes eth 14
    let _ ← readBytes eth (sockBufGetHeaderLen buf % 65536)
    pure ()
  else do
    let _ ← readBytes eth (sockBufGetHeaderLen buf % 65536)
    pure ()

/-- `arp_create`. -/
def arpCreate (buf : SockBuf) (hwType protType : Nat) (hwLen protLen : UInt8) (opcode : Nat)
    (srcHw srcProt destHw destProt : Mem) : Prog SockBuf := do
  let arp := buf.data
  write16 arp (htons hwType)
  write16 (arp + 2) (htons protType)
  write8 (arp + 4) hwLen
  write8 (arp + 5) protLen
  write16 (arp + 6) (htons opcode)
  let ptr := arp + 8
  writeBytes ptr hwLen.toNat srcHw
  let ptr := ptr + hwLen.toNat
  writeBytes ptr protLen.toNat srcProt
  let ptr := ptr + protLen.toNat
  writeBytes ptr hwLen.toNat destHw
  let ptr := ptr + hwLen.toNat
  writeBytes ptr protLen.toNat destProt
  let hw ← read8 (arp + 4)
  let prot ← read8 (arp + 5)
  let arpSize := (8 + 2 * hw.toNat + 2 * prot.toNat) % 65536
  pure (sockBufPush buf arpSize)

/-- `arp_send`. -/
def arpSend (buf : SockBuf) : Prog ErrorT := do
  ethSend buf
  pure .ok

/-- `arp_receive_ipv4`; `nicMac` is `nic_dev->mac`. -/
def arpReceiveIpv4 (nicMac : Mem) (buf : SockBuf) : Prog SockBuf := do
  let arp := buf.data
  let arp4 := arp + 8
  let srcIp ← readBytes (arp4 + 6) 4
  let buf := buf.setSrc 1 srcIp
  let destIp ← readBytes (arp4 + 16) 4
  let buf := buf.setDst 1 destIp
  let mine ← protocolAddrEqual (arp4 + 16) myIp 4
  if mine = true then do
    let opcode ← read16 (arp + 6)
    if ntohs opcode = arpReq then do
      -- reuse the same sock buffer to send the reply
      let buf := sockBufReset buf
      let buf ← ethCreate buf (buf.srcAddrs 0) nicMac ethTypeArp
      let buf ← arpCreate buf hwEther protoIPv4 6 4 arpRep nicMac (buf.dstAddrs 1)
        (buf.srcAddrs 0) (buf.srcAddrs 1)
      let _ ← arpSend buf
      pure buf
    else pure buf
  else pure buf

/-- `arp_recv`. -/
def arpRecv (nicMac : Mem) (buf : SockBuf) : Prog (SockBuf × ErrorT) := do
  let arp := buf.data
  let hwType ← read16 arp
  if hwType ≠ htons hwEther then
    pure (buf, .occur)
  else do
    let protType ← read16 (arp + 2)
    if ntohs protType = protoIPv4 then do
      let protLen ← read8 (arp + 5)
      if protLen ≠ 4 then
        pure (buf, .occur)
      else do
        let buf ← arpReceiveIpv4 nicMac buf
        pure (buf, .ok)
    else pure (buf, .ok)

/-- `eth_recv` behind the check of the destination. -/
def ethDeliver (nicMac : Mem) (buf : SockBuf) : Prog SockBuf := do
  let eth := buf.data
  let destMac ← readBytes eth 6
  let buf := buf.setDst 0 destMac
  let srcMac ← readBytes (eth + 6) 6
  let buf := buf.setSrc 0 srcMac
  let netType ← read16 (eth + 12)
  let ethType := ntohs netType
  let buf := sockBufPush buf 14
  if ethType = ethTypeArp then do
    let (buf, _) ← arpRecv nicMac buf
    pure buf
  else pure buf

/-- `eth_recv`. -/
def ethRecv (nicMac : Mem) (buf : SockBuf) : Prog SockBuf := do
  let eth := buf.data
  let own ← ethCmpMac eth nicMac
  if own = true then
    ethDeliver nicMac buf
  else do
    let broadcast ← ethCmpMac eth macBroadcast
    if broadcast = true then ethDeliver nicMac buf else pure buf

/-- What `e1000_recv_defered` does with a frame of `pktlen` bytes: `block` is what
the allocation for the socket buffer returns. -/
def recvFrame (nicMac : Mem) (block pktlen : Nat) (pkt : Mem) : Prog SockBuf := do
  let buf ← sockBufInitRecv block pktlen pkt
  ethRecv nicMac buf

/-! ## What the frame must hold -/

/-- The six bytes are those of the address. -/
def MacIs (frame mac : Mem) : Prop := ∀ j < 6, frame j = mac j

instance (frame mac : Mem) : Decidable (MacIs frame mac) :=
  inferInstanceAs (Decidable (∀ j < 6, frame j = mac j))

instance (len n : Nat) (bytes other : Mem) : Decidable (ComparedIn len n bytes other) :=
  inferInstanceAs (Decidable (_ ∨ ∃ j < len, j < n ∧ bytes j ≠ other j))

/-- A frame of `len` bytes is as long as its own fields require: the comparisons
of the destination end inside; a frame for this host has an Ethernet header; an
ARP frame has the fields that are checked, up to the first that is refused, and if
none is, all 42 bytes. -/
def FrameFits (nicMac : Mem) (len : Nat) (frame : Mem) : Prop :=
  ComparedIn len 6 frame nicMac ∧
  (¬ MacIs frame nicMac → ComparedIn len 6 frame macBroadcast) ∧
  (MacIs frame nicMac ∨ MacIs frame macBroadcast → 14 ≤ len ∧
    (wireWord frame 12 = ethTypeArp → 16 ≤ len ∧
      (wireWord frame 14 = hwEther → 18 ≤ len ∧
        (wireWord frame 16 = protoIPv4 → 20 ≤ len ∧
          (frame 19 = 4 → 42 ≤ len)))))

instance (nicMac : Mem) (len : Nat) (frame : Mem) : Decidable (FrameFits nicMac len frame) :=
  inferInstanceAs (Decidable (_ ∧ _ ∧ _))

section Fits

variable {nicMac mac frame frame' : Mem} {len n a : Nat}

theorem ComparedIn.congr (h : ∀ k < len, frame k = frame' k) :
    ComparedIn len n frame mac ↔ ComparedIn len n frame' mac := by
  unfold ComparedIn
  refine or_congr_right (exists_congr fun j => and_congr_right fun hj => ?_)
  rw [h j hj]

/-- A destination that has been compared in bounds depends on the frame only. -/
theorem MacIs.congr (h : ∀ k < len, frame k = frame' k) (hin : ComparedIn len 6 frame mac) :
    MacIs frame mac ↔ MacIs frame' mac := by
  rcases hin with hsix | ⟨j, hj, hj6, hne⟩
  · refine forall_congr' fun j => imp_congr_right fun hj => ?_
    rw [h j (by omega)]
  · refine iff_of_false (fun hall => hne (hall j hj6)) fun hall => hne ?_
    rw [h j hj]
    exact hall j hj6

theorem wireWord_congr (h : ∀ k < len, frame k = frame' k) (ha : a + 2 ≤ len) :
    wireWord frame a = wireWord frame' a := by
  unfold wireWord
  rw [h a (by omega), h (a + 1) (by omega)]

/-- The condition does not look behind the frame. -/
theorem FrameFits.of_agree (h : ∀ k < len, frame k = frame' k)
    (hfits : FrameFits nicMac len frame) : FrameFits nicMac len frame' := by
  obtain ⟨hown, hbroad, hrest⟩ := hfits
  have hmac := MacIs.congr h hown
  refine ⟨(ComparedIn.congr h).mp hown, fun hno => ?_, fun hfor => ?_⟩
  · exact (ComparedIn.congr h).mp (hbroad fun his => hno (hmac.mp his))
  · have hfor' : MacIs frame nicMac ∨ MacIs frame macBroadcast := by
      by_cases his : MacIs frame nicMac
      · exact Or.inl his
      · have hin := hbroad his
        rcases hfor with his' | hbc
        · exact absurd (hmac.mpr his') his
        · exact Or.inr ((MacIs.congr h hin).mpr hbc)
    obtain ⟨h14, hrest⟩ := hrest hfor'
    refine ⟨h14, fun htype => ?_⟩
    rw [← wireWord_congr h (by omega)] at htype
    obtain ⟨h16, hrest⟩ := hrest htype
    refine ⟨h16, fun hhw => ?_⟩
    rw [← wireWord_congr h (by omega)] at hhw
    obtain ⟨h18, hrest⟩ := hrest hhw
    refine ⟨h18, fun hprot => ?_⟩
    rw [← wireWord_congr h (by omega)] at hprot
    obtain ⟨h20, hrest⟩ := hrest hprot
    refine ⟨h20, fun hlen => hrest ?_⟩
    rw [h 19 (by omega)]
    exact hlen

theorem FrameFits.congr (h : ∀ k < len, frame k = frame' k) :
    FrameFits nicMac len frame ↔ FrameFits nicMac len frame' :=
  ⟨FrameFits.of_agree h, FrameFits.of_agree fun k hk => (h k hk).symm⟩

end Fits

/-! ## The reply -/

section Reply

variable {nicMac d₁ d₂ d₃ d₄ m : Mem} {buf : SockBuf} {lo hi hwType protType opcode ethType : Nat}
  {hwLen protLen : UInt8}

theorem run_ethCreate_value :
    ((ethCreate buf d₁ d₂ ethType).run m).value = sockBufPush buf 14 := rfl

/-- An Ethernet header that has room. -/
theorem staysIn_ethCreate (hlo : lo ≤ buf.data) (hhi : buf.data + 14 ≤ hi) :
    StaysIn lo hi (ethCreate buf d₁ d₂ ethType) m := by
  unfold ethCreate
  simp only [staysIn_bind, staysIn_writeBytes, staysIn_write16, staysIn_pure, Access.Within,
    and_true]
  omega

/-- The lengths that `arp_create` reads back are those it has written. -/
theorem run_arpCreate_value :
    ((arpCreate buf hwType protType hwLen protLen opcode d₁ d₂ d₃ d₄).run m).value =
      sockBufPush buf (8 + 2 * hwLen.toNat + 2 * protLen.toNat) := by
  have hhw := hwLen.toNat_lt
  have hprot := protLen.toNat_lt
  unfold arpCreate
  simp only [value_bind, run_write16, run_write8, run_writeBytes, run_read8, run_pure]
  rw [blit_frame _ _ _ (by omega), blit_frame _ _ _ (by omega), blit_frame _ _ _ (by omega),
    blit_frame _ _ _ (by omega), store16_frame _ _ (by omega), store8_ne _ _ (by omega),
    store8_same, blit_frame _ _ _ (by omega), blit_frame _ _ _ (by omega),
    blit_frame _ _ _ (by omega), blit_frame _ _ _ (by omega), store16_frame _ _ (by omega),
    store8_same, Nat.mod_eq_of_lt (by omega)]

/-- An ARP packet that has room. -/
theorem staysIn_arpCreate (hlo : lo ≤ buf.data)
    (hhi : buf.data + (8 + 2 * hwLen.toNat + 2 * protLen.toNat) ≤ hi) :
    StaysIn lo hi (arpCreate buf hwType protType hwLen protLen opcode d₁ d₂ d₃ d₄) m := by
  unfold arpCreate
  simp only [staysIn_bind, staysIn_writeBytes, staysIn_write16, staysIn_write8,
    staysIn_read8, staysIn_pure, Access.Within, and_true]
  omega

/-- A packet from `head` to `data` that is sent. -/
theorem staysIn_ethSend (hlo : lo ≤ buf.head) (hdata : buf.data ≤ hi)
    (hhead : buf.head + 14 ≤ buf.data) : StaysIn lo hi (ethSend buf) m := by
  have hmod : sockBufGetHeaderLen buf % 65536 ≤ buf.data - buf.head := Nat.mod_le _ _
  unfold ethSend
  simp only [staysIn_bind, staysIn_read16, staysIn_ite, staysIn_readBytes, staysIn_pure,
    Access.Within]
  refine ⟨by omega, fun _ => ⟨by omega, by omega, trivial⟩, fun _ => ⟨by omega, trivial⟩⟩

/-- An ARP packet for IPv4 is processed, and answered, in bounds exactly when the
frame has all 42 bytes. -/
theorem staysIn_arpReceiveIpv4 {head len : Nat} (hhead : buf.head = head)
    (hdata : buf.data = head + 14) :
    StaysIn head (head + len) (arpReceiveIpv4 nicMac buf) m ↔ 42 ≤ len := by
  constructor
  · intro h
    unfold arpReceiveIpv4 at h
    rw [staysIn_bind] at h
    have hdest := (staysIn_bind _ _).mp h.2
    have hlast := hdest.1
    simp only [staysIn_readBytes, Access.Within, hdata] at hlast
    omega
  · intro hlen
    unfold arpReceiveIpv4
    simp only [staysIn_bind, staysIn_readBytes, Access.Within, hdata]
    refine ⟨by omega, by omega, staysIn_addrEqual_of_le (by omega) (by omega), ?_⟩
    rw [staysIn_ite]
    refine ⟨fun _ => ?_, fun _ => staysIn_pure _⟩
    simp only [staysIn_bind, staysIn_read16, Access.Within]
    refine ⟨by omega, ?_⟩
    rw [staysIn_ite]
    refine ⟨fun _ => ?_, fun _ => staysIn_pure _⟩
    simp only [staysIn_bind, run_ethCreate_value, run_arpCreate_value, arpSend, staysIn_pure,
      and_true]
    have hsix : (6 : UInt8).toNat = 6 := rfl
    have hfour : (4 : UInt8).toNat = 4 := rfl
    refine ⟨staysIn_ethCreate ?_ ?_, staysIn_arpCreate ?_ ?_, staysIn_ethSend ?_ ?_ ?_⟩
    all_goals
      simp only [hsix, hfour, sockBufPush_data, sockBufPush_head, sockBufReset, setDst_head,
        setSrc_head, hhead]
      omega

end Reply

/-! ## The frame -/

section Frame

variable {nicMac m frame : Mem} {buf : SockBuf} {head len a : Nat}

/-- A field in network order, compared as it is. -/
theorem load16_eq_htons : load16 m a = htons hwEther ↔ wireWord m a = hwEther := by
  rw [← ntohs_load16, ntohs]
  constructor
  · intro h
    rw [h]
    exact htons_htons (by decide)
  · intro h
    rw [← h, htons_htons (load16_lt m a)]

/-- What an ARP frame must hold. -/
theorem staysIn_arpRecv (hhead : buf.head = head) (hdata : buf.data = head + 14) :
    StaysIn head (head + len) (arpRecv nicMac buf) m ↔
      16 ≤ len ∧ (wireWord m (head + 14) = hwEther → 18 ≤ len ∧
        (wireWord m (head + 16) = protoIPv4 → 20 ≤ len ∧ (m (head + 19) = 4 → 42 ≤ len))) := by
  unfold arpRecv
  simp only [staysIn_bind, staysIn_ite, staysIn_pure, imp_true_iff, true_and, and_true,
    staysIn_arpReceiveIpv4 hhead hdata]
  simp only [staysIn_read16, staysIn_read8, run_read16, run_read8, ne_eq, not_not, Access.Within,
    hdata, ntohs_load16, load16_eq_htons]
  refine and_congr (by omega) (imp_congr_right fun _ => and_congr (by omega) ?_)
  exact imp_congr_right fun _ => and_congr (by omega) Iff.rfl

/-- What a frame for this host must hold. -/
theorem staysIn_ethDeliver (hhead : buf.head = head) (hdata : buf.data = head) :
    StaysIn head (head + len) (ethDeliver nicMac buf) m ↔
      14 ≤ len ∧ (wireWord m (head + 12) = ethTypeArp → 16 ≤ len ∧
        (wireWord m (head + 14) = hwEther → 18 ≤ len ∧
          (wireWord m (head + 16) = protoIPv4 → 20 ≤ len ∧ (m (head + 19) = 4 → 42 ≤ len)))) := by
  have harp : ∀ destMac srcMac,
      (StaysIn head (head + len)
          (arpRecv nicMac (sockBufPush ((buf.setDst 0 destMac).setSrc 0 srcMac) 14)) m ↔
        16 ≤ len ∧ (wireWord m (head + 14) = hwEther → 18 ≤ len ∧
          (wireWord m (head + 16) = protoIPv4 → 20 ≤ len ∧ (m (head + 19) = 4 → 42 ≤ len)))) :=
    fun _ _ => staysIn_arpRecv hhead (congrArg (· + 14) hdata)
  unfold ethDeliver
  simp only [staysIn_bind, staysIn_ite, staysIn_pure, imp_true_iff, and_true]
  simp only [run_readBytes, run_read16, staysIn_readBytes, staysIn_read16, ntohs_load16, hdata,
    harp, Access.Within]
  constructor
  · rintro ⟨_, _, hlast, hrest⟩
    exact ⟨by omega, hrest⟩
  · rintro ⟨hlen, hrest⟩
    exact ⟨by omega, by omega, by omega, hrest⟩

/-- What a frame must hold, its bytes in the buffer. -/
theorem staysIn_ethRecv (hhead : buf.head = head) (hdata : buf.data = head) :
    StaysIn head (head + len) (ethRecv nicMac buf) m ↔
      FrameFits nicMac len fun k => m (head + k) := by
  have hmac : ∀ mac, ((ethCmpMac head mac).run m).value = true ↔
      MacIs (fun k => m (head + k)) mac := by
    intro mac
    unfold ethCmpMac MacIs
    rw [run_addrEqual_value]
    simp only [Nat.zero_le, Nat.zero_add, true_imp_iff]
  have hmem : ∀ mac, ((ethCmpMac head mac).run m).mem = m := fun mac => run_addrEqual_mem
  have hcmp : ∀ mac, StaysIn head (head + len) (ethCmpMac head mac) m ↔
      ComparedIn len 6 (fun k => m (head + k)) mac := fun mac => staysIn_addrEqual_start
  have hword : ∀ k, wireWord (fun k => m (head + k)) k = wireWord m (head + k) := fun k => rfl
  unfold ethRecv FrameFits
  rw [hdata, staysIn_bind, hcmp, hmem]
  refine and_congr_right fun _ => ?_
  simp only [hword]
  by_cases hown : MacIs (fun k => m (head + k)) nicMac
  · -- the destination is the own address
    rw [if_pos ((hmac nicMac).mpr hown), staysIn_ethDeliver hhead hdata]
    simp only [hown, not_true_eq_false, false_imp_iff, true_or, true_imp_iff, true_and]
  · rw [if_neg (fun hv => hown ((hmac nicMac).mp hv)), staysIn_bind, hcmp, hmem, staysIn_ite,
      hmac, staysIn_ethDeliver hhead hdata]
    simp only [hown, staysIn_pure, not_false_eq_true, true_imp_iff, false_or, imp_true_iff,
      and_true]

/-- The copy of the frame stays in its buffer, so what the buffer holds behind it counts. -/
theorem staysIn_recvFrame {block pktlen : Nat} :
    StaysIn block (block + pktlen) (recvFrame nicMac block pktlen frame) m ↔
      FrameFits nicMac pktlen fun k => blit m block frame 0 pktlen (block + k) := by
  have hcopy : StaysIn block (block + pktlen) (sockBufInitRecv block pktlen frame) m := by
    unfold sockBufInitRecv
    simp only [staysIn_bind, staysIn_writeBytes, staysIn_pure, and_true, Access.Within]
    exact ⟨Nat.le_refl _, Nat.le_refl _⟩
  have hrecv : StaysIn block (block + pktlen) (ethRecv nicMac (sockBufInit block pktlen))
      (blit m block frame 0 pktlen) ↔ _ := staysIn_ethRecv rfl rfl
  unfold recvFrame
  rw [staysIn_bind, and_iff_right hcopy]
  exact hrecv

/-- The first 22 bytes of a broadcast ARP request. -/
def shortRequest : Mem := fun k =>
  [0xff, 0xff, 0xff, 0xff, 0xff, 0xff, 2, 0, 0, 0, 0, 1, 8, 6, 0, 1, 8, 0, 6, 4, 0, 1].getD k 0

/-- A frame of these 22 bytes is processed out of bounds. -/
theorem recvFrame_short :
    ¬ StaysIn 4096 (4096 + 22) (recvFrame (fun _ => 2) 4096 22 shortRequest) fun _ => 0 := by
  rw [staysIn_recvFrame]
  decide

/-- A received frame is processed inside its socket buffer exactly when it is as
long as its own fields require. -/
theorem recvFrame_confined_iff (nicMac : Mem) (block pktlen : Nat) (pkt m : Mem) :
    StaysIn block (block + pktlen) (recvFrame nicMac block pktlen pkt) m ↔
      FrameFits nicMac pktlen pkt := by
  rw [staysIn_recvFrame]
  refine FrameFits.congr fun k hk => ?_
  rw [blit_at _ _ _ _ (by omega), Nat.zero_add]

end Frame

end MeOS
