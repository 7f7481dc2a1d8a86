import MeOS.UdpIp
import MeOS.Lib.OnesComplement

/-! # `ip.cpp`: the checksum of a header

`ipv4_create` fills in a header, and `ipv4_checksum` sums its words while the checksum field
still holds what the buffer had there before; the carries of the sum are added once. So the
header verifies for the sums and the old fields for which both do not matter.
-/

namespace MeOS.Ipv4

open Bytes Traced OnesComplement

/-- The arguments of `ipv4_create`. -/
structure Args where
  ecn : UInt8
  dscp : UInt8
  id : Nat
  fragOffset : Nat
  flags : UInt8
  ttl : UInt8
  protocol : UInt8
  srcIp : Mem
  destIp : Mem
  options : Mem
  optionsLen : UInt8
  dataLen : Nat

/-- `ipv4_create` with these arguments. -/
def Args.create (args : Args) (buf : SockBuf) : Prog SockBuf :=
  ipv4Create buf args.ecn args.dscp args.id args.fragOffset args.flags args.ttl args.protocol
    args.srcIp args.destIp args.options args.optionsLen args.dataLen

/-! ## What the header says -/

section

variable {args : Args} {m : Mem} {a n i s c : Nat}

/-- The byte with `ver` and `ihl`. -/
def Args.verIhl (args : Args) : UInt8 :=
  ((4 : UInt8) <<< 4 &&& 0xf0) |||
    (UInt8.ofNat ((20 + args.optionsLen.toNat) / 4) <<< (0 : UInt8) &&& 0x0f)

/-- The byte with `ecn` and `dscp`. -/
def Args.tos (args : Args) : UInt8 :=
  (args.ecn <<< (0 : UInt8) &&& 0x03) ||| (args.dscp <<< (2 : UInt8) &&& 0xfc)

/-- The words before the checksum, as the host reads them. -/
def Args.wordsBefore (args : Args) : List Nat :=
  [args.verIhl.toNat + 256 * args.tos.toNat,
    htons ((20 + args.optionsLen.toNat + args.dataLen) % 65536), htons args.id,
    htons (((args.flags.toNat <<< 13) ||| (args.fragOffset &&& 0x1fff)) % 65536),
    args.ttl.toNat + 256 * args.protocol.toNat]

/-- The words behind it. -/
def Args.wordsBehind (args : Args) : List Nat :=
  [load16 args.srcIp 0, load16 args.srcIp 2, load16 args.destIp 0, load16 args.destIp 2] ++
    (List.range (args.optionsLen.toNat / 2)).map fun i => load16 args.options (2 * i)

/-- The sum of the words that the arguments determine. -/
def Args.wordSum (args : Args) : Nat := args.wordsBefore.sum + args.wordsBehind.sum

/-- The words of a header, as the host reads them. -/
def hostWords (m : Mem) (a : Nat) : List Nat :=
  (List.range (2 * (ihl (m a)).toNat)).map fun i => load16 m (a + 2 * i)

/-- The ones-complement sum of the words of the header, high byte first, is all ones. -/
def HeaderVerifies (m : Mem) (a : Nat) : Prop :=
  OnesComplement.sum ((List.range (2 * (ihl (m a)).toNat)).map fun i => wireWord m (a + 2 * i)) =
    0xffff

instance (m : Mem) (a : Nat) : Decidable (HeaderVerifies m a) := inferInstanceAs (Decidable (_ = _))

/-- The sum of the arguments' words and of the old checksum field `c` leaves no carry when its
carries are added once, and `c` is a zero, or it leaves one and `c` is 1. -/
def SumsUp (args : Args) (c : Nat) : Prop :=
  if (args.wordSum + c) / 65536 + (args.wordSum + c) % 65536 < 65536 then c = 0 ∨ c = 0xffff
  else c = 1

/-! ## The header in memory -/

/-- The header of the arguments is at `a`, apart from its checksum. -/
structure Written (args : Args) (m : Mem) (a : Nat) : Prop where
  verIhl : m a = args.verIhl
  tos : m (a + 1) = args.tos
  len : load16 m (a + 2) = htons ((20 + args.optionsLen.toNat + args.dataLen) % 65536)
  id : load16 m (a + 4) = htons args.id
  frag : load16 m (a + 6) =
    htons (((args.flags.toNat <<< 13) ||| (args.fragOffset &&& 0x1fff)) % 65536)
  ttl : m (a + 8) = args.ttl
  protocol : m (a + 9) = args.protocol
  srcIp : ∀ k < 4, m (a + 12 + k) = args.srcIp k
  destIp : ∀ k < 4, m (a + 16 + k) = args.destIp k
  options : ∀ k < args.optionsLen.toNat, m (a + 20 + k) = args.options k

/-- The two bit-fields of a byte, once both are set. -/
theorem setBits_setBits (b mask : UInt8) (s₁ v₁ s₂ v₂ : UInt8) :
    setBits (setBits b (~~~mask) s₁ v₁) mask s₂ v₂ =
      (v₁ <<< s₁ &&& ~~~mask) ||| (v₂ <<< s₂ &&& mask) := by
  unfold setBits
  rw [← UInt8.toBitVec_inj]
  simp only [UInt8.toBitVec_or, UInt8.toBitVec_and, UInt8.toBitVec_not]
  rw [WordFields.get_set (by rw [BitVec.and_assoc, BitVec.and_self])]

/-- What `ipv4_create` leaves: the header, with the checksum taken before it was stored. -/
theorem run_create (args : Args) (buf : SockBuf) (m : Mem) :
    ∃ m', Written args m' buf.data ∧ load16 m' (buf.data + 10) = load16 m (buf.data + 10) ∧
      ((args.create buf).run m).mem =
        store16 m' (buf.data + 10) ((ipv4Checksum buf.data).run m').value := by
  unfold Args.create ipv4Create
  simp only [mem_bind, run_read8, run_write8, run_write16, run_writeBytes, run_pure,
    readOnly_ipv4Checksum _]
  refine ⟨_, ?_, ?_, rfl⟩
  · exact
      { verIhl := by
          rw [blit_frame _ _ _ (by omega), blit_frame _ _ _ (by omega), blit_frame _ _ _ (by omega),
            store8_ne _ _ (by omega), store8_ne _ _ (by omega), store16_frame _ _ (by omega),
            store16_frame _ _ (by omega), store16_frame _ _ (by omega), store8_ne _ _ (by omega),
            store8_ne _ _ (by omega), store8_same, store8_same]
          exact setBits_setBits _ 0x0f 4 4 0 _
        tos := by
          rw [blit_frame _ _ _ (by omega), blit_frame _ _ _ (by omega), blit_frame _ _ _ (by omega),
            store8_ne _ _ (by omega), store8_ne _ _ (by omega), store16_frame _ _ (by omega),
            store16_frame _ _ (by omega), store16_frame _ _ (by omega), store8_same, store8_same]
          exact setBits_setBits _ 0xfc 0 _ 2 _
        len := by
          rw [load16_blit_apart (by omega), load16_blit_apart (by omega),
            load16_blit_apart (by omega), load16_store8_apart _ _ (by omega),
            load16_store8_apart _ _ (by omega), load16_store16_apart _ _ (by omega),
            load16_store16_apart _ _ (by omega), load16_store16, Nat.mod_eq_of_lt (htons_lt _)]
        id := by
          rw [load16_blit_apart (by omega), load16_blit_apart (by omega),
            load16_blit_apart (by omega), load16_store8_apart _ _ (by omega),
            load16_store8_apart _ _ (by omega), load16_store16_apart _ _ (by omega),
            load16_store16, Nat.mod_eq_of_lt (htons_lt _)]
        frag := by
          rw [load16_blit_apart (by omega), load16_blit_apart (by omega),
            load16_blit_apart (by omega), load16_store8_apart _ _ (by omega),
            load16_store8_apart _ _ (by omega), load16_store16, Nat.mod_eq_of_lt (htons_lt _)]
        ttl := by
          rw [blit_frame _ _ _ (by omega), blit_frame _ _ _ (by omega), blit_frame _ _ _ (by omega),
            store8_ne _ _ (by omega), store8_same]
        protocol := by
          rw [blit_frame _ _ _ (by omega), blit_frame _ _ _ (by omega), blit_frame _ _ _ (by omega),
            store8_same]
        srcIp := fun k hk => by
          rw [blit_frame _ _ _ (by omega), blit_frame _ _ _ (by omega),
            blit_at _ _ _ _ (by omega), Nat.zero_add]
        destIp := fun k hk => by
          rw [blit_frame _ _ _ (by omega), blit_at _ _ _ _ (by omega), Nat.zero_add]
        options := fun k hk => by
          rw [blit_at _ _ _ _ (by omega), Nat.zero_add] }
  · rw [load16_blit_apart (by omega), load16_blit_apart (by omega), load16_blit_apart (by omega),
      load16_store8_apart _ _ (by omega), load16_store8_apart _ _ (by omega),
      load16_store16_apart _ _ (by omega), load16_store16_apart _ _ (by omega),
      load16_store16_apart _ _ (by omega), load16_store8_apart _ _ (by omega),
      load16_store8_apart _ _ (by omega), load16_store8_apart _ _ (by omega),
      load16_store8_apart _ _ (by omega)]

/-! ## The words of the header -/

/-- The checksum field is not part of what the arguments say. -/
theorem Written.store16 (h : Written args m a) (v : Nat) :
    Written args (Bytes.store16 m (a + 10) v) a where
  verIhl := (store16_frame _ _ (by omega)).trans h.verIhl
  tos := (store16_frame _ _ (by omega)).trans h.tos
  len := (load16_store16_apart _ _ (by omega)).trans h.len
  id := (load16_store16_apart _ _ (by omega)).trans h.id
  frag := (load16_store16_apart _ _ (by omega)).trans h.frag
  ttl := (store16_frame _ _ (by omega)).trans h.ttl
  protocol := (store16_frame _ _ (by omega)).trans h.protocol
  srcIp k hk := (store16_frame _ _ (by omega)).trans (h.srcIp k hk)
  destIp k hk := (store16_frame _ _ (by omega)).trans (h.destIp k hk)
  options k hk := (store16_frame _ _ (by omega)).trans (h.options k hk)

/-- `ihl` counts the 20 bytes and the options. -/
theorem ihl_verIhl (hopt : 4 ∣ args.optionsLen.toNat) (hmax : args.optionsLen.toNat ≤ 40) :
    2 * (ihl args.verIhl).toNat = 10 + args.optionsLen.toNat / 2 := by
  obtain ⟨k, hk⟩ := hopt
  have hk10 : k ≤ 10 := by omega
  unfold Args.verIhl
  rw [hk]
  interval_cases k <;> decide

/-- The first byte of the header is not zero. -/
theorem wordSum_pos (hopt : 4 ∣ args.optionsLen.toNat) (hmax : args.optionsLen.toNat ≤ 40) :
    0 < args.wordSum := by
  have hihl := ihl_verIhl hopt hmax
  have hle : (ihl args.verIhl).toNat ≤ args.verIhl.toNat := by
    rw [ihl, UInt8.toNat_and]
    exact Nat.and_le_left
  unfold Args.wordSum Args.wordsBefore
  rw [List.sum_cons]
  omega

/-- A word that lies in copied bytes. -/
theorem load16_of_bytes {src : Mem} {b : Nat} (h : ∀ k < n, m (a + k) = src k) (hb : b + 2 ≤ n) :
    load16 m (a + b) = load16 src b := by
  simp only [load16, Nat.add_assoc, h b (by omega), h (b + 1) (by omega)]

/-- The words of the header are those of the arguments, with the checksum between them. -/
theorem Written.hostWords (h : Written args m a) (hopt : 4 ∣ args.optionsLen.toNat)
    (hmax : args.optionsLen.toNat ≤ 40) :
    hostWords m a = args.wordsBefore ++ load16 m (a + 10) :: args.wordsBehind := by
  have hfirst : load16 m a = args.verIhl.toNat + 256 * args.tos.toNat := by
    rw [load16, h.verIhl, h.tos]
  have hfifth : load16 m (a + 8) = args.ttl.toNat + 256 * args.protocol.toNat := by
    rw [load16, h.ttl, h.protocol]
  have hten : ((List.range 10).map fun i => load16 m (a + 2 * i)) =
      args.wordsBefore ++ load16 m (a + 10) ::
        [load16 args.srcIp 0, load16 args.srcIp 2, load16 args.destIp 0, load16 args.destIp 2] := by
    rw [← load16_of_bytes (b := 0) h.srcIp (by decide), ← load16_of_bytes h.srcIp (by decide),
      ← load16_of_bytes (b := 0) h.destIp (by decide), ← load16_of_bytes h.destIp (by decide),
      Args.wordsBefore, ← hfirst, ← h.len, ← h.id, ← h.frag, ← hfifth]
    rfl
  have hoptions :
      ((List.range (args.optionsLen.toNat / 2)).map fun i => load16 m (a + 2 * (10 + i))) =
        (List.range (args.optionsLen.toNat / 2)).map fun i => load16 args.options (2 * i) := by
    refine List.map_congr_left fun i hi => ?_
    have hlt := List.mem_range.mp hi
    rw [show a + 2 * (10 + i) = a + 20 + 2 * i by omega]
    exact load16_of_bytes h.options (by omega)
  unfold Ipv4.hostWords
  rw [h.verIhl, ihl_verIhl hopt hmax, List.range_add, List.map_append, List.map_map,
    Function.comp_def, hoptions, hten, Args.wordsBehind, List.append_assoc, List.cons_append]

/-- The sum of the words of the header. -/
theorem Written.sum_hostWords (h : Written args m a) (hopt : 4 ∣ args.optionsLen.toNat)
    (hmax : args.optionsLen.toNat ≤ 40) :
    (Ipv4.hostWords m a).sum = args.wordSum + load16 m (a + 10) := by
  rw [h.hostWords hopt hmax, List.sum_append, List.sum_cons, Args.wordSum]
  omega

theorem hostWords_lt : ∀ w ∈ hostWords m a, w < 65536 := by
  intro w hw
  obtain ⟨i, _, rfl⟩ := List.mem_map.mp hw
  exact load16_lt m _

/-- A header verifies in either byte order. -/
theorem headerVerifies_iff :
    HeaderVerifies m a ↔ 0 < (hostWords m a).sum ∧ 65535 ∣ (hostWords m a).sum := by
  have hswap : ((List.range (2 * (ihl (m a)).toNat)).map fun i => wireWord m (a + 2 * i)) =
      (hostWords m a).map swap := by
    unfold hostWords
    rw [List.map_map]
    refine List.map_congr_left fun i _ => ?_
    have hlow := (m (a + 2 * i)).toNat_lt
    simp only [wireWord, Function.comp_apply, swap, load16]
    omega
  unfold HeaderVerifies
  rw [hswap, sum_swap_eq_ones hostWords_lt, sum_eq_ones hostWords_lt]

/-- The loop of the checksum adds the words; they are too few for a wrap. -/
theorem run_ipv4Sum (hs : s + 65535 * n < 4294967296) :
    ((ipv4Sum a n i s).run m).value =
      s + ((List.range n).map fun k => load16 m (a + 2 * (i + k))).sum := by
  induction n generalizing i s with
  | zero => rfl
  | succ n ih =>
    have hword := load16_lt m (a + 2 * i)
    have hadd : add32 s (load16 m (a + 2 * i)) = s + load16 m (a + 2 * i) :=
      add32_eq (by omega)
    have hrest := ih (i := i + 1) (s := s + load16 m (a + 2 * i)) (by omega)
    rw [ipv4Sum, value_bind, run_read16, hadd, hrest, List.range_succ_eq_map, List.map_cons,
      List.sum_cons, List.map_map, Nat.add_zero, Nat.add_assoc]
    simp only [Function.comp_def, Nat.succ_eq_add_one, Nat.add_assoc, Nat.add_comm 1, Nat.add_zero]

/-- The checksum is the complement of the sum, folded once. -/
theorem run_ipv4Checksum (hlen : 2 * (ihl (m a)).toNat < 256) :
    ((ipv4Checksum a).run m).value = 65535 - foldOnce (hostWords m a).sum := by
  unfold ipv4Checksum
  rw [value_bind, run_read8, value_bind, Nat.mod_eq_of_lt hlen, run_ipv4Sum (by omega),
    Nat.zero_add]
  simp only [Nat.zero_add]
  rfl

/-- A sum of words of 16 bits. -/
theorem sum_le {l : List Nat} (h : ∀ w ∈ l, w < 65536) : l.sum ≤ 65535 * l.length := by
  rw [Nat.mul_comm]
  exact List.sum_le_card_nsmul l 65535 fun w hw => Nat.le_of_lt_succ (h w hw)

theorem length_hostWords : (hostWords m a).length = 2 * (ihl (m a)).toNat := by
  rw [hostWords, List.length_map, List.length_range]

/-- The header that `ipv4_create` writes verifies exactly when the arguments and the old checksum
field make it sum up. -/
theorem create_verifies (args : Args) (buf : SockBuf) (m : Mem)
    (hopt : 4 ∣ args.optionsLen.toNat) (hmax : args.optionsLen.toNat ≤ 40) :
    HeaderVerifies ((args.create buf).run m).mem buf.data ↔
      SumsUp args (load16 m (buf.data + 10)) := by
  obtain ⟨m', hwritten, hold, hmem⟩ := run_create args buf m
  have hihl : 2 * (ihl (m' buf.data)).toNat = 10 + args.optionsLen.toNat / 2 := by
    rw [hwritten.verIhl, ihl_verIhl hopt hmax]
  have hsum := hwritten.sum_hostWords hopt hmax
  have hle := sum_le (hostWords_lt (m := m') (a := buf.data))
  rw [length_hostWords, hihl, hsum] at hle
  have hcheck : ((ipv4Checksum buf.data).run m').value =
      65535 - foldOnce (args.wordSum + load16 m' (buf.data + 10)) := by
    rw [run_ipv4Checksum (by omega), hsum]
  have hpos := wordSum_pos hopt hmax
  rw [headerVerifies_iff, hmem, (hwritten.store16 _).sum_hostWords hopt hmax, load16_store16,
    hcheck, Nat.mod_eq_of_lt (by omega), and_iff_right (by omega), SumsUp, ← hold]
  exact complement_dvd (by omega) (load16_lt _ _)

/-- A header from 192.168.1.30 to 192.168.1.9, without options. -/
def smallHeader : Args where
  ecn := 0
  dscp := 0
  id := 7
  fragOffset := 0
  flags := 0
  ttl := 64
  protocol := 17
  srcIp := fun i => [192, 168, 1, 30].getD i 0
  destIp := fun i => [192, 168, 1, 9].getD i 0
  options := fun _ => 0
  optionsLen := 0
  dataLen := 8

theorem create_verifies_small :
    HeaderVerifies ((smallHeader.create (sockBufInit 64 40)).run fun _ => 0).mem 64 ↔
      SumsUp smallHeader (load16 (fun _ => 0) 74) :=
  create_verifies smallHeader (sockBufInit 64 40) (fun _ => 0) (by decide) (by decide)

/-- In a buffer that holds another byte in the place of the checksum it does not verify. -/
theorem create_used_buffer :
    ¬ HeaderVerifies ((smallHeader.create (sockBufInit 64 40)).run fun _ => 7).mem 64 := by
  decide +kernel

-- In a cleared buffer it is the second carry of the sum that is lost.
example : ¬ HeaderVerifies
    ((({ smallHeader with id := 63577 } : Args).create (sockBufInit 64 40)).run fun _ => 0).mem
    64 := by
  decide +kernel

end

end MeOS.Ipv4
