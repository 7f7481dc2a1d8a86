import MeOS.AhciTransfer

/-! # `AHCI.cpp`: the command table of a transfer

`ahci_port_rebase` reserves 256 bytes for the table of each slot, which is room for 8 entries.
`ahci_data_transfer` writes one entry for every 16 sectors, 8 KB apart by their byte counts and
4 KB apart by their addresses, and lowers the sector count on the way; the command gets the count
that is left for the last entry.
-/

namespace MeOS.AhciTransfer

open Bytes

/-! ## The layout -/

/-- `port->clb`. -/
def clbOf (base port : Nat) : Nat := add32 base (port <<< 10)

/-- `cmd[i].ctba`. -/
def ctbaOf (base port i : Nat) : Nat :=
  add32 (add32 (add32 base (40 <<< 10)) (port <<< 13)) (i <<< 8)

/-- One turn of the loop of `ahci_port_rebase`: the header of slot `i` and its table. -/
def rebaseSlot (base port : Nat) (is64bit : Bool) (i : Nat) (m : Mem) : Mem :=
  let cmd := clbOf base port + sizeofCmdHeader * i
  let m := store16 m (cmd + 2) 8
  let m := store32 m (cmd + 8) (ctbaOf base port i)
  let m := if is64bit then store32 m (cmd + 12) 0 else m
  memset m (load32 m (cmd + 8)) 0 256

/-- The loop from slot `i` on, with `n` slots left. -/
def rebaseLoop (base port : Nat) (is64bit : Bool) : Nat → Nat → Mem → Mem
  | 0, _, m => m
  | n + 1, i, m => rebaseLoop base port is64bit n (i + 1) (rebaseSlot base port is64bit i m)

/-- What `ahci_port_rebase` does to the memory. -/
def ahciPortRebase (base port : Nat) (is64bit : Bool) (m : Mem) : Mem :=
  let m := memset m (clbOf base port) 0 1024
  let m := memset m (add32 (add32 base (32 <<< 10)) (port <<< 8)) 0 256
  rebaseLoop base port is64bit 32 0 m

/-- The header of every slot has the address of the slot's table. -/
def LaidOut (base port : Nat) (m : Mem) : Prop :=
  ∀ slot, slot < 32 →
    load32 m (clbOf base port + sizeofCmdHeader * slot + 8) = ctbaOf base port slot

/-! ## What the controller reads -/

/-- `cmd->ctba`. -/
def tableOf (m : Mem) (cmd : Nat) : Nat := load32 m (cmd + 8)

/-- `prdt_entry[i].dba`. -/
def entryDba (m : Mem) (tbl i : Nat) : Nat := load32 m (prdtEntry tbl i)

/-- `prdt_entry[i].dbc`, 22 bits. -/
def entryBytes (m : Mem) (tbl i : Nat) : Nat := load32 m (prdtEntry tbl i + 12) % 4194304

/-- `countl` and `counth` of the FIS. -/
def fisCount (m : Mem) (tbl : Nat) : Nat := (m (tbl + 12)).toNat + 256 * (m (tbl + 13)).toNat

/-- The command describes the memory of the request: its entries cover the buffer one after the
other, they make up all of it, the device is asked for as many sectors, and the table is inside
the 256 bytes of its slot. -/
structure Describes (m : Mem) (cmd : Nat) (r : Request) : Prop where
  contiguous : ∀ k, k < prdtl m cmd →
    entryDba m (tableOf m cmd) k = r.buf + ∑ j ∈ Finset.range k, entryBytes m (tableOf m cmd) j
  total : ∑ j ∈ Finset.range (prdtl m cmd), entryBytes m (tableOf m cmd) j = 512 * r.count
  fis : fisCount m (tableOf m cmd) = r.count
  inside : prdtEntry (tableOf m cmd) (prdtl m cmd) ≤ tableOf m cmd + 256

/-! ## The layout of a port -/

section Layout

variable {base port i n slot x : Nat} {m : Mem}

/-- The memory of the controller does not go round address 0. -/
theorem clbOf_eq (hport : port < 32) (htop : base + 0x4A000 ≤ 4294967296) :
    clbOf base port = base + 1024 * port := by
  rw [clbOf, Nat.shiftLeft_eq, add32_eq (by omega)]
  omega

theorem ctbaOf_eq (hport : port < 32) (hslot : slot < 32) (htop : base + 0x4A000 ≤ 4294967296) :
    ctbaOf base port slot = base + 0xA000 + 8192 * port + 256 * slot := by
  rw [ctbaOf, Nat.shiftLeft_eq, Nat.shiftLeft_eq, Nat.shiftLeft_eq,
    add32_eq (a := base) (by omega), add32_eq (a := base + _) (by omega), add32_eq (by omega)]
  omega

/-- A turn sets the address of the table, and below the tables it writes to its header only. -/
theorem rebaseSlot_spec {is64bit : Bool} (hport : port < 32) (hi : i < 32)
    (htop : base + 0x4A000 ≤ 4294967296) :
    load32 (rebaseSlot base port is64bit i m) (clbOf base port + sizeofCmdHeader * i + 8) =
        ctbaOf base port i ∧
      ∀ x, x < base + 0xA000 → x < clbOf base port + sizeofCmdHeader * i ∨
          clbOf base port + sizeofCmdHeader * (i + 1) ≤ x →
        rebaseSlot base port is64bit i m x = m x := by
  have hclb := clbOf_eq hport htop
  have hctba := ctbaOf_eq hport hi htop
  let cmd := clbOf base port + sizeofCmdHeader * i
  let m₁ := store32 (store16 m (cmd + 2) 8) (cmd + 8) (ctbaOf base port i)
  let m₂ := if is64bit then store32 m₁ (cmd + 12) 0 else m₁
  have hcmd : cmd = base + 1024 * port + 32 * i := by
    simp only [cmd, sizeofCmdHeader, hclb]
  have hm₁ : load32 m₁ (cmd + 8) = ctbaOf base port i := by
    rw [load32_store32, hctba, Nat.mod_eq_of_lt (by omega)]
  have hframe₁ : ∀ x, x < cmd ∨ cmd + 32 ≤ x → m₁ x = m x := by
    intro x hx
    exact (store32_frame _ _ (by omega)).trans (store16_frame _ _ (by omega))
  have hm₂ : ∀ x, x < cmd + 12 ∨ cmd + 16 ≤ x → m₂ x = m₁ x := by
    intro x hx
    cases is64bit with
    | true => exact store32_frame _ _ (by omega)
    | false => rfl
  have htbl : load32 m₂ (cmd + 8) = ctbaOf base port i := by
    rw [load32_congr fun x _ _ => hm₂ x (by omega), hm₁]
  have hturn : rebaseSlot base port is64bit i m = fill m₂ (ctbaOf base port i) 256 0 := by
    rw [← htbl, ← memset_eq]
    rfl
  rw [hturn]
  constructor
  · rw [show clbOf base port + sizeofCmdHeader * i = cmd from rfl, ← htbl]
    refine load32_congr fun x _ _ => fill_frame _ _ ?_
    rw [htbl]
    omega
  · intro x hlow hx
    simp only [sizeofCmdHeader] at hx
    rw [fill_frame _ _ (by omega), hm₂ x (by omega), hframe₁ x (by omega)]

theorem rebaseLoop_frame {is64bit : Bool} (hport : port < 32)
    (htop : base + 0x4A000 ≤ 4294967296) (hn : i + n ≤ 32)
    (hx : x < clbOf base port + sizeofCmdHeader * i) :
    rebaseLoop base port is64bit n i m x = m x := by
  have hclb := clbOf_eq hport htop
  induction n generalizing i m with
  | zero => rfl
  | succ n ih =>
    simp only [sizeofCmdHeader] at hx
    rw [rebaseLoop, ih (by omega) (by simp only [sizeofCmdHeader]; omega)]
    exact (rebaseSlot_spec hport (by omega) htop).2 x (by omega) (Or.inl hx)

theorem rebaseLoop_ctba {is64bit : Bool} (hport : port < 32)
    (htop : base + 0x4A000 ≤ 4294967296) (hn : i + n ≤ 32) (hlo : i ≤ slot) (hhi : slot < i + n) :
    load32 (rebaseLoop base port is64bit n i m) (clbOf base port + sizeofCmdHeader * slot + 8) =
      ctbaOf base port slot := by
  induction n generalizing i m with
  | zero => omega
  | succ n ih =>
    rw [rebaseLoop]
    by_cases hslot : slot = i
    · rw [hslot, ← (rebaseSlot_spec hport (by omega : i < 32) htop).1]
      refine load32_congr fun x _ hx => rebaseLoop_frame hport htop (by omega) ?_
      simp only [sizeofCmdHeader] at hx ⊢
      omega
    · exact ih (by omega) (by omega) (by omega)

/-- The layout that `ahci_port_rebase` sets up. -/
theorem ahciPortRebase_laidOut {is64bit : Bool} (hport : port < 32)
    (htop : base + 0x4A000 ≤ 4294967296) :
    LaidOut base port (ahciPortRebase base port is64bit m) := by
  intro slot hslot
  exact rebaseLoop_ctba hport htop (by omega) (by omega) (by omega)

end Layout

/-! ## Building the command -/

/-- What a run of the loop has done when it stops at the last one of `l` entries. -/
structure Filled (cmdtbl l : Nat) (p q : Prdt) : Prop where
  i : q.i = l - 1
  count : q.count = p.count - 16 * (l - 1 - p.i)
  buf : q.buf = p.buf + 4096 * (l - 1 - p.i)
  below : ∀ x, x < prdtEntry cmdtbl p.i → q.mem x = p.mem x
  dba : ∀ k, p.i ≤ k → k < l - 1 → entryDba q.mem cmdtbl k = p.buf + 4096 * (k - p.i)
  bytes : ∀ k, p.i ≤ k → k < l - 1 → entryBytes q.mem cmdtbl k = 8192

/-- What a command with its table at `tbl` consists of: the addresses of the entries are half as
far apart as their byte counts, and the FIS has the count of the last entry. -/
structure Built (m : Mem) (cmd tbl : Nat) (r : Request) : Prop where
  prdtl : prdtl m cmd = (r.count - 1) / 16 + 1
  table : tableOf m cmd = tbl
  dba : ∀ k, k ≤ (r.count - 1) / 16 → entryDba m tbl k = r.buf + 4096 * k
  bytes : ∀ k, k < (r.count - 1) / 16 → entryBytes m tbl k = 8192
  last : entryBytes m tbl ((r.count - 1) / 16) = 512 * (r.count - 16 * ((r.count - 1) / 16))
  fis : fisCount m tbl = r.count - 16 * ((r.count - 1) / 16)

section Build

variable {m : Mem} {cmd cmdtbl entry dba dbc count l n k x : Nat} {p : Prdt} {r : Request}

theorem fillEntry_frame (h : x < entry ∨ entry + 16 ≤ x) : fillEntry m entry dba dbc x = m x := by
  unfold fillEntry
  rw [store32_frame _ _ (by omega), store32_frame _ _ (by omega), store32_frame _ _ (by omega)]

theorem fillEntry_dba (h : dba < 4294967296) : load32 (fillEntry m entry dba dbc) entry = dba := by
  have hfirst : load32 (store32 m entry dba) entry = dba := by
    rw [load32_store32, Nat.mod_eq_of_lt h]
  conv_rhs => rw [← hfirst]
  refine load32_congr fun x _ _ => ?_
  unfold fillEntry
  rw [store32_frame _ _ (by omega), store32_frame _ _ (by omega)]

/-- The 22 bits of `dbc` are what the entry has been given, and the bits above stay out of it. -/
theorem fillEntry_bytes :
    load32 (fillEntry m entry dba dbc) (entry + 12) % 4194304 = dbc % 4194304 := by
  have hor (v w : Nat) : (v ||| w) % 4194304 = v % 4194304 ||| w % 4194304 :=
    Nat.or_mod_two_pow (n := 22)
  have hand (v w : Nat) : (v &&& w) % 4194304 = v % 4194304 &&& w % 4194304 :=
    Nat.and_mod_two_pow (n := 22)
  have hmask : dbc % 4194304 &&& 4194303 = dbc % 4194304 := by
    rw [show 4194303 = 2 ^ 22 - 1 from rfl, Nat.and_two_pow_sub_one_eq_mod]
    omega
  have hword (v : Nat) : v % 4294967296 % 4194304 = v % 4194304 := by omega
  unfold fillEntry
  dsimp only
  rw [load32_store32, load32_store32, hword, hor, hword, hor, hand, hand]
  simpa using hmask

theorem entryDba_fillEntry (h : dba < 4294967296) :
    entryDba (fillEntry m (prdtEntry cmdtbl k) dba dbc) cmdtbl k = dba :=
  fillEntry_dba h

theorem entryBytes_fillEntry (h : dbc < 4194304) :
    entryBytes (fillEntry m (prdtEntry cmdtbl k) dba dbc) cmdtbl k = dbc :=
  fillEntry_bytes.trans (Nat.mod_eq_of_lt h)

theorem prdtEntry_eq : prdtEntry cmdtbl k = cmdtbl + 128 + 16 * k := rfl

/-- An entry is read from its 16 bytes. -/
theorem entryDba_congr {m' : Mem}
    (h : ∀ x, prdtEntry cmdtbl k ≤ x → x < prdtEntry cmdtbl (k + 1) → m' x = m x) :
    entryDba m' cmdtbl k = entryDba m cmdtbl k :=
  load32_congr fun x hlo hhi => h x hlo (by rw [prdtEntry_eq] at hhi ⊢; omega)

theorem entryBytes_congr {m' : Mem}
    (h : ∀ x, prdtEntry cmdtbl k ≤ x → x < prdtEntry cmdtbl (k + 1) → m' x = m x) :
    entryBytes m' cmdtbl k = entryBytes m cmdtbl k := by
  have hword : load32 m' (prdtEntry cmdtbl k + 12) = load32 m (prdtEntry cmdtbl k + 12) :=
    load32_congr fun x hlo hhi => h x (by omega) (by rw [prdtEntry_eq] at hhi ⊢; omega)
  rw [entryBytes, hword, entryBytes]

/-- A turn of the loop leaves the number of entries in the header, which is below the table. -/
theorem prdtl_fillEntry (h : cmd + 4 ≤ cmdtbl) :
    prdtl (fillEntry m (prdtEntry cmdtbl k) dba dbc) cmd = prdtl m cmd :=
  load16_congr fun x _ hx => fillEntry_frame (by rw [prdtEntry_eq]; omega)

/-- The loop stops at the last entry. -/
theorem prdtLoop_last (hl : prdtl p.mem cmd = l) (hsmall : l ≤ 65536) (hpos : 0 < l)
    (hlast : p.i = l - 1) : prdtLoop cmd cmdtbl n p = p := by
  have hno : ¬ p.i < sub32 (prdtl p.mem cmd) 1 := by
    rw [hl, sub32_eq (by omega) (by omega)]
    omega
  cases n with
  | zero => rfl
  | succ n => rw [prdtLoop, if_neg hno]

theorem Filled.last (hlast : p.i = l - 1) : Filled cmdtbl l p p where
  i := hlast
  count := by omega
  buf := by omega
  below := fun _ _ => rfl
  dba := fun k hlo hhi => by omega
  bytes := fun k hlo hhi => by omega

/-- A turn before a run that fills the rest. -/
theorem Filled.turn {q : Prdt} (hmore : p.i < l - 1) (hbuf : p.buf < 4294967296)
    (h : Filled cmdtbl l
      { mem := fillEntry p.mem (prdtEntry cmdtbl p.i) p.buf (8 * 1024)
        buf := p.buf + 4096, count := p.count - 16, i := p.i + 1 } q) : Filled cmdtbl l p q := by
  have hkeep : ∀ x, prdtEntry cmdtbl p.i ≤ x → x < prdtEntry cmdtbl (p.i + 1) →
      q.mem x = fillEntry p.mem (prdtEntry cmdtbl p.i) p.buf (8 * 1024) x :=
    fun x _ hx => h.below x hx
  refine ⟨h.i, ?_, ?_, ?_, ?_, ?_⟩
  · have hcount := h.count
    dsimp only at hcount
    omega
  · have hbuf := h.buf
    dsimp only at hbuf
    omega
  · intro x hx
    have hnext : x < prdtEntry cmdtbl (p.i + 1) := by
      rw [prdtEntry_eq] at hx ⊢
      omega
    exact (h.below x hnext).trans (fillEntry_frame (Or.inl hx))
  · intro k hlo hhi
    by_cases hk : k = p.i
    · rw [hk, entryDba_congr hkeep, entryDba_fillEntry hbuf, Nat.sub_self, Nat.mul_zero,
        Nat.add_zero]
    · have hdba := h.dba k (by dsimp only; omega) hhi
      dsimp only at hdba
      omega
  · intro k hlo hhi
    by_cases hk : k = p.i
    · rw [hk, entryBytes_congr hkeep, entryBytes_fillEntry (by decide)]
    · exact h.bytes k (by dsimp only; omega) hhi

/-- The loop fills all entries but the last one. -/
theorem prdtLoop_filled (hl : prdtl p.mem cmd = l) (hsmall : l ≤ 65536) (hapart : cmd + 4 ≤ cmdtbl)
    (hi : p.i < l) (hn : l - 1 - p.i ≤ n) (hcount : 16 * (l - 1 - p.i) ≤ p.count)
    (hword : p.count < 4294967296) (hbuf : p.buf + 4096 * (l - 1 - p.i) < 4294967296) :
    Filled cmdtbl l p (prdtLoop cmd cmdtbl n p) := by
  induction n generalizing p with
  | zero => exact Filled.last (by omega)
  | succ n ih =>
    by_cases hlast : p.i = l - 1
    · rw [prdtLoop_last hl hsmall (by omega) hlast]
      exact Filled.last hlast
    · have hmore : p.i < sub32 (prdtl p.mem cmd) 1 := by
        rw [hl, sub32_eq (by omega) (by omega)]
        omega
      have hnextBuf : add32 p.buf (4 * 1024) = p.buf + 4096 := add32_eq (by omega)
      have hnextCount : sub32 p.count 16 = p.count - 16 := sub32_eq hword (by omega)
      rw [prdtLoop, if_pos hmore, hnextBuf, hnextCount]
      refine Filled.turn (by omega) (by omega) (ih ?_ ?_ ?_ ?_ ?_ ?_)
      · rw [prdtl_fillEntry hapart, hl]
      all_goals dsimp only; omega

/-- The header: the number of entries, and the address of the table as it was. -/
theorem fillHeader_prdtl (hpos : 1 ≤ r.count) (hcount : r.count ≤ 65535) :
    prdtl (fillHeader m cmd r) cmd = (r.count - 1) / 16 + 1 := by
  unfold prdtl fillHeader
  rw [load16_store16, sub32_eq (by omega) hpos, Nat.shiftRight_eq_div_pow]
  omega

theorem fillHeader_frame (h : x < cmd ∨ cmd + 4 ≤ x) : fillHeader m cmd r x = m x := by
  unfold fillHeader
  rw [store16_frame _ _ (by omega), store8_ne _ _ (by omega), store8_ne _ _ (by omega)]

theorem fillFis_frame (h : x < cmdtbl ∨ cmdtbl + 14 ≤ x) : fillFis m cmdtbl count r x = m x := by
  unfold fillFis
  iterate 12 rw [store8_ne _ _ (by omega)]

theorem fillFis_count (h : count < 65536) : fisCount (fillFis m cmdtbl count r) cmdtbl = count := by
  have hlow : fillFis m cmdtbl count r (cmdtbl + 12) = byteOf count 0 := by
    unfold fillFis
    rw [store8_ne _ _ (by omega), store8_same]
  have hhigh : fillFis m cmdtbl count r (cmdtbl + 13) = byteOf count 1 := by
    unfold fillFis
    rw [store8_same]
  rw [fisCount, hlow, hhigh, byteOf_toNat, byteOf_toNat]
  omega

/-- The last entry and the FIS behind the loop. -/
theorem Filled.built {tbl : Nat} {start q : Prdt}
    (h : Filled tbl ((r.count - 1) / 16 + 1) start q) (hi : start.i = 0)
    (hb : start.buf = r.buf) (hc : start.count = r.count)
    (hl : prdtl start.mem cmd = (r.count - 1) / 16 + 1) (htable : tableOf start.mem cmd = tbl)
    (hapart : cmd + 12 ≤ tbl) (hpos : 1 ≤ r.count) (hcount : r.count ≤ 65535)
    (hbuf : r.buf + 512 * r.count ≤ 4294967296) :
    Built (fillFis (fillEntry q.mem (prdtEntry tbl q.i) q.buf (mul32 q.count 512)) tbl q.count r)
      cmd tbl r := by
  have hindex : q.i = (r.count - 1) / 16 := h.i
  have hleft : q.count = r.count - 16 * ((r.count - 1) / 16) := by
    have hq := h.count
    rwa [hc, hi, Nat.sub_zero, Nat.add_sub_cancel] at hq
  have hlastBuf : q.buf = r.buf + 4096 * ((r.count - 1) / 16) := by
    have hq := h.buf
    rwa [hb, hi, Nat.sub_zero, Nat.add_sub_cancel] at hq
  have hlastBytes : mul32 q.count 512 = 512 * q.count := by
    rw [mul32_eq (by omega), Nat.mul_comm]
  have hbelow : ∀ x, x < tbl →
      fillFis (fillEntry q.mem (prdtEntry tbl q.i) q.buf (mul32 q.count 512)) tbl q.count r x =
        start.mem x := by
    intro x hx
    have hentry (k : Nat) : x < prdtEntry tbl k := by
      rw [prdtEntry_eq]
      omega
    rw [fillFis_frame (Or.inl hx), fillEntry_frame (Or.inl (hentry q.i)),
      h.below x (hentry start.i)]
  -- the FIS is before the entries
  have hfis : ∀ k x, prdtEntry tbl k ≤ x →
      fillFis (fillEntry q.mem (prdtEntry tbl q.i) q.buf (mul32 q.count 512)) tbl q.count r x =
        fillEntry q.mem (prdtEntry tbl q.i) q.buf (mul32 q.count 512) x := by
    intro k x hx
    rw [prdtEntry_eq] at hx
    exact fillFis_frame (by omega)
  have hbefore : ∀ k, k < q.i → ∀ x, x < prdtEntry tbl (k + 1) →
      fillEntry q.mem (prdtEntry tbl q.i) q.buf (mul32 q.count 512) x = q.mem x := by
    intro k hk x hx
    rw [prdtEntry_eq] at hx
    exact fillEntry_frame (by rw [prdtEntry_eq]; omega)
  refine ⟨?_, ?_, ?_, ?_, ?_, ?_⟩
  · exact (load16_congr fun x _ _ => hbelow x (by omega)).trans hl
  · exact (load32_congr fun x _ _ => hbelow x (by omega)).trans htable
  · intro k hk
    rw [entryDba_congr fun x hx _ => hfis k x hx]
    by_cases heq : k = q.i
    · rw [heq, entryDba_fillEntry (by omega), hlastBuf, hindex]
    · rw [entryDba_congr fun x _ hx => hbefore k (by omega) x hx,
        h.dba k (by omega) (by omega), hb, hi, Nat.sub_zero]
  · intro k hk
    rw [entryBytes_congr fun x hx _ => hfis k x hx,
      entryBytes_congr fun x _ hx => hbefore k (by omega) x hx]
    exact h.bytes k (by omega) (by omega)
  · rw [← hindex, entryBytes_congr fun x hx _ => hfis q.i x hx, hlastBytes,
      entryBytes_fillEntry (by omega), hleft, hindex]
  · rw [fillFis_count (by omega), hleft]

/-- The table of a command with a filled header. -/
theorem fillTable_built {tbl : Nat} (hl : prdtl m cmd = (r.count - 1) / 16 + 1)
    (htable : tableOf m cmd = tbl) (hapart : cmd + 12 ≤ tbl) (hpos : 1 ≤ r.count)
    (hcount : r.count ≤ 65535) (hbuf : r.buf + 512 * r.count ≤ 4294967296) :
    Built (fillTable m cmd tbl r) cmd tbl r := by
  have hclear (len x : Nat) (hx : x < tbl) : memset m tbl 0 len x = m x := by
    rw [memset_eq, fill_frame _ _ (Or.inl hx)]
  have hclearL (len : Nat) : prdtl (memset m tbl 0 len) cmd = (r.count - 1) / 16 + 1 :=
    (load16_congr fun x _ _ => hclear len x (by omega)).trans hl
  have hclearT (len : Nat) : tableOf (memset m tbl 0 len) cmd = tbl :=
    (load32_congr fun x _ _ => hclear len x (by omega)).trans htable
  unfold fillTable
  refine Filled.built (prdtLoop_filled (hclearL _) (by omega) (by omega) (Nat.succ_pos _) ?_ ?_
    ?_ ?_) rfl rfl rfl (hclearL _) (hclearT _) hapart hpos hcount hbuf
  all_goals dsimp only; omega

/-- The command is what its request makes of it, whatever the memory has held before. -/
theorem buildCommand_built {clb slot tbl : Nat}
    (htable : tableOf m (clb + sizeofCmdHeader * slot) = tbl)
    (hapart : clb + sizeofCmdHeader * slot + 12 ≤ tbl) (hpos : 1 ≤ r.count)
    (hcount : r.count ≤ 65535) (hbuf : r.buf + 512 * r.count ≤ 4294967296) :
    Built (buildCommand m clb slot r) (clb + sizeofCmdHeader * slot) tbl r := by
  have hctba : tableOf (fillHeader m (clb + sizeofCmdHeader * slot) r)
      (clb + sizeofCmdHeader * slot) = tbl := by
    rw [← htable]
    exact load32_congr fun x _ _ => fillHeader_frame (by omega)
  have hmem : buildCommand m clb slot r =
      fillTable (fillHeader m (clb + sizeofCmdHeader * slot) r) (clb + sizeofCmdHeader * slot)
        tbl r := by
    rw [← hctba]
    rfl
  rw [hmem]
  exact fillTable_built (fillHeader_prdtl hpos hcount) hctba hapart hpos hcount hbuf

/-- The entries have all the bytes of the request between them. -/
theorem Built.total {tbl : Nat} (hpos : 1 ≤ r.count) (h : Built m cmd tbl r) :
    ∑ j ∈ Finset.range ((r.count - 1) / 16 + 1), entryBytes m tbl j = 512 * r.count := by
  have hfull : ∑ j ∈ Finset.range ((r.count - 1) / 16), entryBytes m tbl j =
      ∑ _j ∈ Finset.range ((r.count - 1) / 16), 8192 :=
    Finset.sum_congr rfl fun j hj => h.bytes j (Finset.mem_range.mp hj)
  rw [Finset.sum_range_succ, hfull, h.last, Finset.sum_const, Finset.card_range, smul_eq_mul]
  omega

/-- The count of the FIS is that of the request only when there is one entry. -/
theorem Built.describes_iff {tbl : Nat} (hpos : 1 ≤ r.count) (h : Built m cmd tbl r) :
    Describes m cmd r ↔ r.count ≤ 16 := by
  constructor
  · intro hdesc
    have hfis := hdesc.fis
    rw [h.table, h.fis] at hfis
    omega
  · intro hone
    have hzero : (r.count - 1) / 16 = 0 := by omega
    refine ⟨?_, ?_, ?_, ?_⟩
    · intro k hk
      rw [h.prdtl, hzero] at hk
      obtain rfl : k = 0 := by omega
      rw [h.table, h.dba 0 (Nat.zero_le _), Finset.sum_range_zero, Nat.mul_zero]
    · rw [h.table, h.prdtl, h.total hpos]
    · rw [h.table, h.fis, hzero]
      omega
    · rw [h.table, h.prdtl, prdtEntry_eq, hzero]
      omega

end Build

/-! ## A transfer -/

/-- The slot whose command a transfer builds. -/
def usedSlot (d : Device) : Nat := (ahciFindEmptySlot d + 1).toNat

/-- The header of that command. -/
def usedCmd (d : Device) : Nat := d.clb + sizeofCmdHeader * usedSlot d

section Transfer

variable {base cmd cmdtbl fuel n port port' x : Nat} {d : Device} {m : Mem} {p : Prdt} {r : Request}

/-- There are at most 16 slots to be searched. -/
theorem usedSlot_lt (d : Device) : usedSlot d < 32 := by
  unfold usedSlot
  rcases usedSlot_cases d with ⟨f, hf, h⟩ | ⟨_, h⟩
  · have hlt := hf.searched
    rw [ahciGetNoCommandSlots_eq] at hlt
    rw [h, Int.toNat_natCast]
    omega
  · rw [h, Int.toNat_natCast]
    decide

/-- However the call ends, the command has been built. -/
theorem ahciDataTransfer_mem :
    (ahciDataTransfer fuel d m r).mem = buildCommand m d.clb (usedSlot d) r := by
  obtain ⟨slot, hslot, hmem, _⟩ := ahciDataTransfer_ends fuel d m r
  rw [hmem, usedSlot, hslot, Int.toNat_natCast]

theorem prdtLoop_frame (h : x < cmdtbl) : (prdtLoop cmd cmdtbl n p).mem x = p.mem x := by
  induction n generalizing p with
  | zero => rfl
  | succ n ih =>
    unfold prdtLoop
    by_cases hmore : p.i < sub32 (prdtl p.mem cmd) 1
    · rw [if_pos hmore, ih]
      exact fillEntry_frame (by rw [prdtEntry_eq]; omega)
    · rw [if_neg hmore]

/-- Below its table a command takes the first bytes of its header only. -/
theorem buildCommand_frame {clb slot : Nat}
    (hhead : x < clb + sizeofCmdHeader * slot ∨ clb + sizeofCmdHeader * slot + 4 ≤ x)
    (h : x < tableOf m (clb + sizeofCmdHeader * slot)) : buildCommand m clb slot r x = m x := by
  have hctba : load32 (fillHeader m (clb + sizeofCmdHeader * slot) r)
      (clb + sizeofCmdHeader * slot + 8) = tableOf m (clb + sizeofCmdHeader * slot) :=
    load32_congr fun x _ _ => fillHeader_frame (by omega)
  unfold buildCommand fillTable
  rw [hctba, fillFis_frame (Or.inl h), fillEntry_frame (by rw [prdtEntry_eq]; omega),
    prdtLoop_frame h, memset_eq]
  exact (fill_frame _ _ (Or.inl h)).trans (fillHeader_frame hhead)

/-- A transfer through a port leaves the layout of every port as it is. -/
theorem ahciDataTransfer_laidOut (hport : port < 32) (hport' : port' < 32)
    (htop : base + 0x4A000 ≤ 4294967296) (hclb : d.clb = clbOf base port')
    (hused : LaidOut base port' m) (h : LaidOut base port m) :
    LaidOut base port (ahciDataTransfer fuel d m r).mem := by
  intro slot hslot
  have hlt := usedSlot_lt d
  have htable := hused (usedSlot d) hlt
  rw [ctbaOf_eq hport' hlt htop, clbOf_eq hport' htop] at htable
  rw [ahciDataTransfer_mem, ← h slot hslot, hclb, clbOf_eq hport' htop, clbOf_eq hport htop]
  refine load32_congr fun x hlo hhi => buildCommand_frame ?_ ?_
  · simp only [sizeofCmdHeader] at hlo hhi ⊢
    omega
  · simp only [sizeofCmdHeader] at hlo hhi htable ⊢
    rw [tableOf, htable]
    omega

/-- What a transfer through a port with its layout builds. -/
theorem ahciDataTransfer_built (hport : port < 32) (htop : base + 0x4A000 ≤ 4294967296)
    (hclb : d.clb = clbOf base port) (hlaid : LaidOut base port m) (hpos : 1 ≤ r.count)
    (hcount : r.count ≤ 65535) (hbuf : r.buf + 512 * r.count ≤ 4294967296) :
    Built (ahciDataTransfer fuel d m r).mem (usedCmd d) (ctbaOf base port (usedSlot d)) r := by
  have hlt := usedSlot_lt d
  have hctba := ctbaOf_eq hport hlt htop
  have hclbEq := clbOf_eq hport htop
  rw [ahciDataTransfer_mem, usedCmd]
  refine buildCommand_built ?_ ?_ hpos hcount hbuf
  · rw [hclb]
    exact hlaid (usedSlot d) hlt
  · simp only [sizeofCmdHeader]
    omega

/-- A transfer describes the memory of its request if and only if it has no more than 16
sectors. -/
theorem ahciDataTransfer_describes_iff (hport : port < 32) (htop : base + 0x4A000 ≤ 4294967296)
    (hclb : d.clb = clbOf base port) (hlaid : LaidOut base port m) (hpos : 1 ≤ r.count)
    (hcount : r.count ≤ 65535) (hbuf : r.buf + 512 * r.count ≤ 4294967296) :
    Describes (ahciDataTransfer fuel d m r).mem (usedCmd d) r ↔ r.count ≤ 16 :=
  (ahciDataTransfer_built hport htop hclb hlaid hpos hcount hbuf).describes_iff hpos

end Transfer

/-- The memory of a controller whose structures are at 2 MB, with its first port set up. -/
def rebased : Mem := ahciPortRebase 0x200000 0 true fun _ => 0

/-- Sixteen sectors are described. -/
theorem ahciDataTransfer_describes_sixteen :
    Describes (ahciDataTransfer 1 secondInFlight rebased ⟨0, 0, 16, 0x800000, true⟩).mem
      (usedCmd secondInFlight) ⟨0, 0, 16, 0x800000, true⟩ :=
  (ahciDataTransfer_describes_iff (by decide) (by decide) (by decide : _ = clbOf 0x200000 0)
    (ahciPortRebase_laidOut (by decide) (by decide)) (by decide) (by decide) (by decide)).mpr
    (by decide)

/-- Of seventeen sectors the device is asked for one. -/
theorem ahciDataTransfer_seventeen :
    fisCount (ahciDataTransfer 1 secondInFlight rebased ⟨0, 0, 17, 0x800000, true⟩).mem
        (ctbaOf 0x200000 0 (usedSlot secondInFlight)) = 1 ∧
      ¬ Describes (ahciDataTransfer 1 secondInFlight rebased ⟨0, 0, 17, 0x800000, true⟩).mem
        (usedCmd secondInFlight) ⟨0, 0, 17, 0x800000, true⟩ := by
  have hbuilt : Built
      (ahciDataTransfer 1 secondInFlight rebased ⟨0, 0, 17, 0x800000, true⟩).mem
      (usedCmd secondInFlight) (ctbaOf 0x200000 0 (usedSlot secondInFlight))
      ⟨0, 0, 17, 0x800000, true⟩ :=
    ahciDataTransfer_built (by decide) (by decide) (by decide)
      (ahciPortRebase_laidOut (by decide) (by decide)) (by decide) (by decide) (by decide)
  refine ⟨hbuilt.fis, ?_⟩
  rw [hbuilt.describes_iff (by decide)]
  decide

end MeOS.AhciTransfer
