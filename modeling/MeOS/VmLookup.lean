import MeOS.VmContract

/-! # Finding areas and room in a contract

`vm_contract_find_area` and `vm_contract_get_area_for_length` are exact on every
contract whose areas are ordered, apart and enclosed by the guards. For
`vm_contract_expand_area` the order is not enough: it tests one neighbour
against bounds that have been computed modulo 2^32, so it is exact as long as
the bound it moves does not wrap.
-/

namespace MeOS

open Extents

/-- The loop of `vm_contract_get_area_for_length` from index `i`, with `n` pairs of
neighbours to go. -/
def areaForLengthLoop (data : List VmArea) (length : Nat) :
    Nat → Nat → Outcome (Except VmContractError Nat)
  | 0, _ => .ret (.error .notFound)
  | n + 1, i =>
    match data[i + 1]?, data[i]? with
    | some next, some area =>
      let start := vmAreaGetStartAddress next
      let stop := add32 (vmAreaGetEndAddress area) 1
      if sub32 start stop ≥ length then .ret (.ok stop)
      else areaForLengthLoop data length n (i + 1)
    | _, _ => .undefined

/-- `vm_contract_get_area_for_length`; a null address is the error it set. -/
def vmContractGetAreaForLength (c : VmContract) (length : Nat) :
    Outcome (Except VmContractError Nat) :=
  if c.contract.count = 0 then .ret (.error .badArguments)
  else areaForLengthLoop c.contract.data length (sub32 c.contract.count 1) 0

/-- `address` is in the area. -/
def VmArea.Contains (a : VmArea) (address : Nat) : Prop :=
  a.startAddr ≤ address ∧ address < a.endAddr

section Lookup

variable {low high : Nat} {c : VmContract} {a : VmArea}

/-- The areas around an address: one that starts there, or those that start
before it, the lower guard among them, and those that start behind it. -/
theorem ContractInv.around (hi : ContractInv low high c) (address : Nat) (hlo : low ≤ address) :
    (∃ pre q post, c.areas = pre ++ q :: post ∧ (∀ z ∈ pre, z.startAddr < address) ∧
      q.startAddr = address ∧ ∀ z ∈ post, address < z.startAddr) ∨
    ∃ pre p post, c.areas = pre ++ [p] ++ post ∧ (∀ z ∈ pre ++ [p], z.startAddr < address) ∧
      ∀ z ∈ post, address < z.startAddr := by
  obtain ⟨pre, post, hareas, hpre, hpost⟩ := exists_split hi.increasing address
  have hord := hi.increasing
  rw [hareas] at hord
  obtain ⟨_, hordPost, _⟩ := List.pairwise_append.mp hord
  have hbehind : ∀ q rest, post = q :: rest → ∀ z ∈ rest, address < z.startAddr := by
    rintro q rest rfl z hz
    have hq := hpost q (by simp)
    have hqz := (List.pairwise_cons.mp hordPost).1 z hz
    omega
  by_cases hhead : ∃ q rest, post = q :: rest ∧ q.startAddr = address
  · obtain ⟨q, rest, rfl, hq⟩ := hhead
    exact Or.inl ⟨pre, q, rest, hareas, hpre, hq, hbehind q rest rfl⟩
  · have hpost' : ∀ z ∈ post, address < z.startAddr := by
      intro z hz
      cases post with
      | nil => cases hz
      | cons q rest =>
        have hq := hpost q (by simp)
        have hne : q.startAddr ≠ address := fun heq => hhead ⟨q, rest, rfl, heq⟩
        rcases List.mem_cons.mp hz with rfl | hz
        · omega
        · exact hbehind q rest rfl z hz
    -- the lower guard starts before the address
    obtain ⟨f, mid, l, hguards, hf, _⟩ := hi.guards
    have hfm : f ∈ pre ++ post := by
      rw [← hareas, hguards]
      simp
    have hfpre : f ∈ pre := (List.mem_append.mp hfm).resolve_right fun hfp => by
      have hlt := hpost' f hfp
      have hstart := hf.startEq
      omega
    obtain ⟨front, p, rfl⟩ :=
      (List.eq_nil_or_concat' pre).resolve_left (List.ne_nil_of_mem hfpre)
    exact Or.inr ⟨front, p, post, hareas, hpre, hpost'⟩

/-- Nothing contains an address that the last area to start before it has ended at. -/
theorem ContractInv.not_contains {pre post : List VmArea} {p : VmArea} {address : Nat}
    (hi : ContractInv low high c) (hareas : c.areas = pre ++ [p] ++ post)
    (hstart : p.startAddr < address) (hend : p.endAddr ≤ address)
    (hpost : ∀ z ∈ post, address < z.startAddr) : ∀ a ∈ c.areas, ¬ a.Contains address := by
  intro a ha hcon
  have hcon₁ := hcon.1
  have hcon₂ := hcon.2
  have hord := hi.ordered
  rw [hareas] at ha hord
  rcases List.mem_append.mp ha with ha | ha
  · rcases List.mem_append.mp ha with ha | ha
    · have hap : a.endAddr ≤ p.startAddr :=
        (List.pairwise_append.mp (List.pairwise_append.mp hord).1).2.2 a ha p (by simp)
      omega
    · obtain rfl := List.mem_singleton.mp ha
      omega
  · have hbehind := hpost a ha
    omega

/-- `vm_contract_find_area` comes out with an area that contains the address, or there
is none. -/
theorem vmContractFindArea_cases (hs : Space low high) (hi : ContractInv low high c)
    (address : Nat) :
    (∃ i a, vmContractFindArea c address = .ret (.ok i) ∧ c.areas[i]? = some a ∧
      a.Contains address) ∨
    ∃ e, vmContractFindArea c address = .ret (.error e) ∧
      ∀ a ∈ c.areas, ¬ a.Contains address := by
  by_cases hout : address < low ∨ high ≤ address
  · -- nothing is stored outside the space
    refine Or.inr ⟨.badArguments, ?_, fun a ha hin => ?_⟩
    · have hargs : c.contract.count = 0 ∨ address < c.lowestAddr ∨ address ≥ c.highestAddr := by
        rw [hi.lowest, hi.highest]
        exact Or.inr hout
      rw [vmContractFindArea, if_pos hargs]
    · have hbd := hi.inside hs ha
      have hin₁ := hin.1
      have hin₂ := hin.2
      omega
  have hargs : ¬ (c.contract.count = 0 ∨ address < c.lowestAddr ∨ address ≥ c.highestAddr) := by
    rw [hi.lowest, hi.highest]
    exact not_or.mpr ⟨hi.nonempty, hout⟩
  have hsmall := hi.count_lt hs
  let cmp : VmArea → Ordering := fun y =>
    if y.startAddr < address then .lt else if y.startAddr > address then .gt else .eq
  have hlt : ∀ z : VmArea, z.startAddr < address → cmp z = .lt := fun z hz => if_pos hz
  have hgt : ∀ z : VmArea, address < z.startAddr → cmp z = .gt := by
    intro z hz
    have hnot : ¬ z.startAddr < address := by omega
    simp [cmp, hnot, hz]
  rcases hi.around address (by omega) with
    ⟨pre, q, post, hareas, hpre, hq, hpost⟩ | ⟨pre, p, post, hareas, hpre, hpost⟩
  · -- an area that starts at the address
    have hsearch : search cmp c.contract = .ret (.found pre.length) :=
      search_found hareas (fun z hz => hlt z (hpre z hz)) (by simp [cmp, hq])
        (fun z hz => hgt z (hpost z hz)) hsmall
    refine Or.inl ⟨pre.length, q, ?_, by rw [hareas]; simp, ?_⟩
    · simp only [cmp] at hsearch
      simp [vmContractFindArea, if_neg hargs, hsearch]
    · have hproper := (hi.pages q (by rw [hareas]; simp)).proper
      exact ⟨by omega, by omega⟩
  · -- the area before the crossing is the only one that can contain it
    have hsearch : search cmp c.contract =
        .ret (.crossed (pre ++ [p]).length ((pre ++ [p]).length - 1)) :=
      search_crossed hareas (fun z hz => hlt z (hpre z hz)) (fun z hz => hgt z (hpost z hz))
        (by simp) hsmall
    have hget : c.areas[(pre ++ [p]).length - 1]? = some p := by
      rw [hareas]
      simp
    have hpage := hi.pages p (by rw [hareas]; simp)
    have hstart := hpre p (by simp)
    have hproper := hpage.proper
    have hrun : vmContractFindArea c address =
        if address ≤ vmAreaGetEndAddress p then .ret (.ok ((pre ++ [p]).length - 1))
        else .ret (.error .notFound) := by
      simp only [cmp] at hsearch
      simp only [vmContractFindArea, if_neg hargs, hsearch, Outcome.ret_bind, hget]
      rfl
    rw [hrun, hpage.getEndAddress]
    by_cases hin : address ≤ p.endAddr - 1
    · exact Or.inl ⟨_, p, by rw [if_pos hin], hget, by omega, by omega⟩
    · exact Or.inr ⟨_, by rw [if_neg hin], hi.not_contains hareas hstart (by omega) hpost⟩

/-- `vm_contract_find_area` returns the area that contains the address, if there
is one, and an error if there is none. -/
theorem vmContractFindArea_exact (hs : Space low high) (hi : ContractInv low high c)
    (address : Nat) :
    ∃ res, vmContractFindArea c address = .ret res ∧
      (∀ i, res = .ok i ↔ ∃ a, c.areas[i]? = some a ∧ a.Contains address) ∧
      ((∃ e, res = .error e) ↔ ∀ a ∈ c.areas, ¬ a.Contains address) := by
  rcases vmContractFindArea_cases hs hi address with ⟨i, a, hrun, hia, ha⟩ | ⟨e, hrun, hnone⟩
  · refine ⟨.ok i, hrun, fun j => ⟨?_, ?_⟩, ?_, fun hnone => ?_⟩
    · intro hij
      cases hij
      exact ⟨a, hia, ha⟩
    · rintro ⟨b, hjb, hb⟩
      rw [hi.ordered.index_unique hia hjb ha hb]
    · rintro ⟨e, he⟩
      cases he
    · exact absurd ha (hnone a (List.mem_of_getElem? hia))
  · refine ⟨.error e, hrun, fun j => ⟨?_, ?_⟩, fun _ => hnone, fun _ => ⟨e, rfl⟩⟩
    · intro hij
      cases hij
    · rintro ⟨b, hjb, hb⟩
      exact absurd hb (hnone b (List.mem_of_getElem? hjb))

theorem vmContractFindArea_exact_onePage :
    ∃ res, vmContractFindArea onePageContract 9000 = .ret res ∧
      (∀ i, res = .ok i ↔ ∃ a, onePageContract.areas[i]? = some a ∧ a.Contains 9000) ∧
      ((∃ e, res = .error e) ↔ ∀ a ∈ onePageContract.areas, ¬ a.Contains 9000) :=
  have h := (contractInv_inductive (by decide) (by decide)).holds onePageContract_reachable
  vmContractFindArea_exact h.1 h.2 9000

end Lookup

/-! ## Room for a length -/

section Room

variable {low high length : Nat} {c : VmContract}

/-- `[start, start + length)` lies between the guards and overlaps no stored area. -/
def Room (low high : Nat) (c : VmContract) (length start : Nat) : Prop :=
  low + pageSize ≤ start ∧ start + length ≤ high - pageSize ∧
    ∀ a ∈ c.areas, a.endAddr ≤ start ∨ start + length ≤ a.startAddr

/-- The walk over the pairs of neighbours behind `pre` finds the first gap. -/
theorem areaForLengthLoop_eq (length : Nat) {data pre rest : List VmArea} {p : VmArea}
    (hdata : data = pre ++ p :: rest) (hpages : ∀ a ∈ data, PageArea a)
    (hord : Ordered VmArea.startAddr VmArea.endAddr data) :
    areaForLengthLoop data length rest.length pre.length = .ret
      (match firstGap VmArea.startAddr VmArea.endAddr length (p :: rest) with
        | some a => .ok a
        | none => .error .notFound) := by
  induction rest generalizing pre p with
  | nil => rfl
  | cons q rest ih =>
    have hget₁ : data[pre.length + 1]? = some q := by
      rw [hdata]
      simp
    have hget₂ : data[pre.length]? = some p := by
      rw [hdata]
      simp
    have hp := hpages p (by rw [hdata]; simp)
    have hq := hpages q (by rw [hdata]; simp)
    have hpq : p.endAddr ≤ q.startAddr := by
      rw [hdata] at hord
      exact (List.pairwise_cons.mp (List.pairwise_append.mp hord).2.1).1 q (by simp)
    have hproper := hp.proper
    have hqproper := hq.proper
    have hspace := hq.inSpace
    have hstop : add32 (p.endAddr - 1) 1 = p.endAddr := by
      rw [add32_eq (by omega)]
      omega
    have hsub : sub32 q.startAddr p.endAddr = q.startAddr - p.endAddr := sub32_eq (by omega) hpq
    simp only [List.length_cons, areaForLengthLoop, hget₁, hget₂, hq.getStartAddress,
      hp.getEndAddress, hstop, hsub, firstGap]
    by_cases hgap : p.endAddr + length ≤ q.startAddr
    · have hfits : q.startAddr - p.endAddr ≥ length := by omega
      rw [if_pos hgap, if_pos hfits]
    · have hshort : ¬ q.startAddr - p.endAddr ≥ length := by omega
      have hdata' : data = (pre ++ [p]) ++ q :: rest := by simp [hdata]
      have htail := ih hdata'
      rw [List.length_append, List.length_singleton] at htail
      rw [if_neg hgap, if_neg hshort, htail]

/-- `vm_contract_get_area_for_length` computes the first gap. -/
theorem vmContractGetAreaForLength_eq (length : Nat) (hs : Space low high)
    (hi : ContractInv low high c) :
    vmContractGetAreaForLength c length = .ret
      (match firstGap VmArea.startAddr VmArea.endAddr length c.areas with
        | some a => .ok a
        | none => .error .notFound) := by
  obtain ⟨f, mid, l, hareas, _, _⟩ := hi.guards
  have hsmall := hi.count_lt hs
  have hcount : sub32 c.contract.count 1 = (mid ++ [l]).length := by
    have hlen : c.contract.count = (mid ++ [l]).length + 1 := by
      show c.areas.length = _
      rw [hareas, List.length_cons]
    rw [sub32_eq (by omega) (by omega)]
    omega
  have hloop := areaForLengthLoop_eq length
    (show c.areas = [] ++ f :: (mid ++ [l]) from hareas) hi.pages hi.ordered
  rw [vmContractGetAreaForLength, if_neg hi.nonempty, hcount, hareas]
  exact hloop

/-- An area created in a room that starts on a page is accepted. -/
theorem Room.accepted {start : Nat} (h : Room low high c length start) (hs : Space low high)
    (hi : ContractInv low high c) (hpos : 0 < length) (hpage : length % pageSize = 0)
    (haligned : start % pageSize = 0) (raw : VmArea) {flags : Nat} (fd offset : Nat)
    (hflags : flags &&& mmapInvalid ≠ mmapInvalid) :
    ∃ c', vmContractAddArea c (vmAreaCreate raw start (add32 start length) flags fd offset) =
      .ret (c', .ok ()) := by
  obtain ⟨hlo, hhi, hclear⟩ := h
  have hroom := hs.room
  have hspace := hs.inSpace
  have hadd : add32 start length = start + length := add32_eq (by omega)
  have hbounds : vmAreaCheckBounds start (start + length) = true := by
    refine vmAreaCheckBounds_iff.mpr ⟨haligned, ?_, by omega⟩
    simp only [pageSize] at haligned hpage ⊢
    omega
  have harea : vmAreaCreate raw start (start + length) flags fd offset =
      ⟨start, start + length, flags, fd, offset⟩ := by
    simp [vmAreaCreate, hbounds, hflags]
  have hcreated : Created (vmAreaCreate raw start (start + length) flags fd offset) :=
    ⟨raw, _, _, flags, fd, offset, by omega, rfl⟩
  obtain ⟨c', res, hadded, hspec⟩ := vmContractAddArea_spec hs hi hcreated
  have hok : res = .ok () := by
    rw [hspec.ok_iff, harea]
    exact ⟨⟨by simp only; omega, by simp only; omega, by simp only; omega⟩, hclear⟩
  rw [hadd, hadded, hok]
  exact ⟨c', rfl⟩

/-- `vm_contract_get_area_for_length` returns the lowest room for the length, or
an error when there is none; an area created in that room is accepted. -/
theorem vmContractGetAreaForLength_exact (hs : Space low high) (hi : ContractInv low high c)
    (hpos : 0 < length) (hpage : length % pageSize = 0) :
    ∃ res, vmContractGetAreaForLength c length = .ret res ∧
      ((∃ e, res = .error e) ↔ ∀ a, ¬ Room low high c length a) ∧
      ∀ a, res = .ok a → a ≠ 0 ∧ Room low high c length a ∧
        (∀ b, Room low high c length b → a ≤ b) ∧
        ∀ raw flags fd offset, flags &&& mmapInvalid ≠ mmapInvalid →
          ∃ c', vmContractAddArea c (vmAreaCreate raw a (add32 a length) flags fd offset) =
            .ret (c', .ok ()) := by
  obtain ⟨f, mid, l, hareas, hf, hl⟩ := hi.guards
  have hroom := hs.room
  have hspace := hs.inSpace
  have hstart := hf.startEq
  have hend := hf.endEq
  have hlast := hl.startEq
  have hne : ∀ x ∈ c.areas, x.startAddr ≤ x.endAddr := fun x hx => (hi.pages x hx).proper.le
  have hrun := vmContractGetAreaForLength_eq length hs hi
  -- any room is at or behind the first gap
  have hleast : ∀ b, Room low high c length b →
      ∃ a, firstGap VmArea.startAddr VmArea.endAddr length c.areas = some a ∧ a ≤ b := by
    rintro b ⟨hlo, hhi, hclear⟩
    refine hi.ordered.firstGap_least hne hpos hclear ⟨f, by rw [hareas]; rfl, by omega⟩ ?_
    intro z hz
    rw [hareas, ← List.cons_append, List.getLast?_concat] at hz
    obtain rfl : l = z := by simpa using hz
    omega
  cases hgap : firstGap VmArea.startAddr VmArea.endAddr length c.areas with
  | none =>
    rw [hgap] at hrun
    refine ⟨.error .notFound, hrun, ⟨fun _ a ha => ?_, fun _ => ⟨_, rfl⟩⟩, fun a ha => by cases ha⟩
    obtain ⟨b, hb, _⟩ := hleast a ha
    rw [hgap] at hb
    cases hb
  | some a =>
    rw [hgap] at hrun
    obtain ⟨hclear, hhead, htail⟩ := hi.ordered.firstGap_clear hne hgap
    have hfa : f.endAddr ≤ a := hhead f (by rw [hareas]; rfl)
    have hal : a + length ≤ l.startAddr := by
      refine htail l ?_
      rw [hareas, ← List.cons_append, List.getLast?_concat]
      rfl
    simp only [pageSize] at hend hroom hlast
    have hroomA : Room low high c length a :=
      ⟨by simp only [pageSize]; omega, by simp only [pageSize]; omega, hclear⟩
    refine ⟨.ok a, hrun, ⟨?_, fun hnone => absurd hroomA (hnone a)⟩, ?_⟩
    · rintro ⟨e, he⟩
      cases he
    · rintro b hb
      obtain rfl : a = b := by simpa using hb
      refine ⟨by omega, hroomA, fun b hb => ?_, fun raw flags fd offset hflags => ?_⟩
      · obtain ⟨a', ha', hle⟩ := hleast b hb
        rw [hgap] at ha'
        cases ha'
        exact hle
      · -- the room starts where an area ends, so it is page aligned
        obtain ⟨x, hx, rfl⟩ := firstGap_mem hgap
        exact hroomA.accepted hs hi hpos hpage (hi.pages x hx).endAligned raw fd offset hflags

theorem vmContractGetAreaForLength_exact_onePage :
    ∃ res, vmContractGetAreaForLength onePageContract 8192 = .ret res ∧
      ((∃ e, res = .error e) ↔ ∀ a, ¬ Room 0 65536 onePageContract 8192 a) ∧
      ∀ a, res = .ok a → a ≠ 0 ∧ Room 0 65536 onePageContract 8192 a ∧
        (∀ b, Room 0 65536 onePageContract 8192 b → a ≤ b) ∧
        ∀ raw flags fd offset, flags &&& mmapInvalid ≠ mmapInvalid →
          ∃ c', vmContractAddArea onePageContract
            (vmAreaCreate raw a (add32 a 8192) flags fd offset) = .ret (c', .ok ()) :=
  have h := (contractInv_inductive (by decide) (by decide)).holds onePageContract_reachable
  vmContractGetAreaForLength_exact h.1 h.2 (by decide) (by decide)

end Room

/-! ## Expansion -/

section Expand

variable {low high length i : Nat} {c : VmContract} {a : VmArea}

/-- `a'` is `a` extended by `length` in its growth direction. -/
def Extended (a : VmArea) (length : Nat) (a' : VmArea) : Prop :=
  if vmAreaGrowsDown a then
    a' = { a with startAddr := a'.startAddr } ∧ a'.startAddr + length = a.startAddr
  else a' = { a with endAddr := a.endAddr + length }

/-- The bound that `vm_contract_expand_area` moves stays in the address space. -/
def GrowthFits (a : VmArea) (length : Nat) : Prop :=
  if vmAreaGrowsDown a then length ≤ a.startAddr else a.endAddr + length ≤ 4294967296

/-- The contract with `a'` in place `i`. -/
def VmContract.put (c : VmContract) (i : Nat) (a' : VmArea) : VmContract :=
  { c with contract := { c.contract with data := c.contract.data.set i a' } }

/-- An expansion of area `i` has failed and changed nothing, or has extended it
and kept the invariant. -/
inductive Expanded (low high : Nat) (c : VmContract) (i : Nat) (a : VmArea) (length : Nat) :
    VmContract → Except VmContractError Unit → Prop where
  | refused {e : VmContractError} : Expanded low high c i a length c (.error e)
  | done {a' : VmArea} (hext : Extended a length a') (hinv : ContractInv low high (c.put i a')) :
      Expanded low high c i a length (c.put i a') (.ok ())

/-- A stored area with its neighbours, when it is removable. -/
theorem ContractInv.neighbours (hi : ContractInv low high c) (ha : c.areas[i]? = some a)
    (hrem : vmAreaIsRemovable a = true) :
    ∃ pre p q post, c.areas = pre ++ p :: a :: q :: post ∧ i = pre.length + 1 := by
  obtain ⟨f, mid, l, hguards, hf, hl⟩ := hi.guards
  obtain ⟨hlt, hget⟩ := List.getElem?_eq_some_iff.mp ha
  have hsplit : c.areas = c.areas.take i ++ a :: c.areas.drop (i + 1) := by
    rw [← hget, List.getElem_cons_drop hlt, List.take_append_drop]
  have hlen : (c.areas.take i).length = i := List.length_take_of_le (Nat.le_of_lt hlt)
  rw [hguards] at hsplit
  -- the guards are not removable, so there is an area on either side
  rcases List.eq_nil_or_concat' ((f :: (mid ++ [l])).take i) with hnil | ⟨pre, p, hpre⟩
  · rw [hnil] at hsplit
    obtain ⟨rfl, _⟩ := List.cons.inj hsplit
    rw [hf.nonRemovable] at hrem
    cases hrem
  cases hpost : (f :: (mid ++ [l])).drop (i + 1) with
  | nil =>
    rw [hpost, ← List.cons_append] at hsplit
    obtain ⟨_, hla⟩ := List.append_inj' hsplit rfl
    obtain rfl := List.singleton_inj.mp hla
    rw [hl.nonRemovable] at hrem
    cases hrem
  | cons q post =>
    rw [hpre, hpost] at hsplit
    refine ⟨pre, p, q, post, by rw [hguards, hsplit]; simp, ?_⟩
    rw [hguards, hpre] at hlen
    rw [← hlen]
    simp

/-- An area put in the place of another one between its neighbours keeps the
invariant. -/
theorem ContractInv.replace {pre post : List VmArea} {p q a' : VmArea}
    (hi : ContractInv low high c) (hareas : c.areas = pre ++ p :: a :: q :: post)
    (hrem : vmAreaIsRemovable a = true) (ha' : PageArea a') (hbelow : p.endAddr ≤ a'.startAddr)
    (habove : a'.endAddr ≤ q.startAddr) : ContractInv low high (c.put (pre.length + 1) a') := by
  have hput : c.put (pre.length + 1) a' =
      { c with contract := ⟨(pre ++ [p]) ++ a' :: (q :: post), c.contract.rSize⟩ } := by
    have hset : c.contract.data.set (pre.length + 1) a' = (pre ++ [p]) ++ a' :: (q :: post) := by
      show c.areas.set (pre.length + 1) a' = _
      rw [hareas]
      simp [List.set_append_right]
    rw [VmContract.put, hset]
  -- the old area is taken out and the new one is put between the neighbours
  have hsplit : c.areas = (pre ++ [p]) ++ a :: (q :: post) := by simpa using hareas
  have hout := hi.erase hsplit hrem
  have hord := hout.ordered
  have hne : ∀ y ∈ (pre ++ [p]) ++ (q :: post), y.startAddr ≤ y.endAddr := fun y hy =>
    (hout.pages y hy).proper.le
  have hcount := hi.reserved.2
  rw [OrderedVector.count, show c.contract.data = c.areas from rfl, hareas] at hcount
  rw [hput]
  refine hout.insert (show _ = (pre ++ [p]) ++ (q :: post) from rfl) (by simp) (by simp) ha'
    ?_ ?_ ?_
  · refine Ordered.before_of_getLast (List.pairwise_append.mp hord).1
      (fun y hy => hne y (List.mem_append_left _ hy)) ?_
    simpa [Before] using hbelow
  · refine Ordered.before_of_head (List.pairwise_append.mp hord).2.1
      (fun y hy => hne y (List.mem_append_right _ hy)) ?_
    simpa [Before] using habove
  · simp only [OrderedVector.count, List.length_append, List.length_cons,
      List.length_nil] at hcount ⊢
    omega

/-- `vm_contract_expand_area` of a stored area tests the neighbour on the side
it grows to, and puts the grown record in its place. -/
theorem vmContractExpandArea_eq (beyond : VmArea) {pre post : List VmArea} {p q : VmArea}
    (hs : Space low high) (hi : ContractInv low high c)
    (hareas : c.areas = pre ++ p :: a :: q :: post) (hrem : vmAreaIsRemovable a = true)
    (hlen : length % pageSize = 0) :
    vmContractExpandArea beyond c (.stored (pre.length + 1)) length =
      if vmAreaIntersects (if vmAreaGrowsDown a then p else q) (expandTemp a length) then
        .ret (c, .stored (pre.length + 1), .error .overlaps)
      else
        .ret (c.put (pre.length + 1) (expandTemp a length), .stored (pre.length + 1), .ok ()) := by
  have hsmall := hi.count_lt hs
  have hcount : c.contract.count = pre.length + post.length + 3 := by
    show c.areas.length = _
    rw [hareas]
    simp only [List.length_append, List.length_cons]
    omega
  have hget : ∀ (k : Nat) (d : VmArea), (pre ++ p :: a :: q :: post)[k]? = some d →
      c.contract.data[k]? = some d := fun k d h => by
    rw [show c.contract.data = c.areas from rfl, hareas, h]
  have hp := hget pre.length p (by simp)
  have ha := hget (pre.length + 1) a (by simp)
  have hq := hget (pre.length + 2) q (by simp)
  have hsub : sub32 (pre.length + 1) 1 = pre.length := by
    rw [sub32_eq (by omega) (by omega), Nat.add_sub_cancel]
  have hadd : add32 (pre.length + 1) 1 = pre.length + 2 := add32_eq (by omega)
  have hareas' : c.areas = (pre ++ [p]) ++ a :: (q :: post) := by rw [hareas]; simp
  have hfind : orderedVectorFind c.contract a = .ret (pre.length + 1) := by
    simpa using hi.find hs hareas' rfl
  have hadj : expandAdjacent beyond c a (pre.length + 1) = if vmAreaGrowsDown a then p else q := by
    simp only [expandAdjacent, hsub, hadd, hp, hq, Option.getD_some]
  have hindex : ¬ pre.length + 1 ≥ c.contract.count := by omega
  simp only [vmContractExpandArea, AreaRef.get, ha, hrem, hlen, hfind, Outcome.ret_bind, hadj,
    if_neg hindex, AreaRef.put, VmContract.put, ne_eq, not_true_eq_false, if_false,
    reduceCtorEq]
  rfl

/-- The record put in place of the area is the extended area. -/
theorem Expanded.extended {i : Nat} {temp : VmArea} (hlt : i < c.areas.length)
    (h : Expanded low high c i a length (c.put i temp) (.ok ())) : Extended a length temp := by
  generalize hput : c.put i temp = c' at h
  generalize hok : Except.ok () = res at h
  cases h with
  | refused => cases hok
  | done hext hinv =>
    have hset := congrArg (fun d : VmContract => d.areas[i]?) hput
    simp only [VmContract.put, VmContract.areas] at hset hlt
    rw [List.getElem?_set_self hlt, List.getElem?_set_self hlt] at hset
    rw [Option.some.inj hset]
    exact hext

/-- Page areas in ascending order: `a` with what lies on either side of it. -/
structure Between (p a q : VmArea) : Prop where
  pageBelow : PageArea p
  page : PageArea a
  pageAbove : PageArea q
  below : p.endAddr ≤ a.startAddr
  above : a.endAddr ≤ q.startAddr

theorem ContractInv.between {pre post : List VmArea} {p q : VmArea} (hi : ContractInv low high c)
    (hareas : c.areas = pre ++ p :: a :: q :: post) : Between p a q := by
  have hord := hi.ordered
  rw [hareas] at hord
  have hpord := List.pairwise_cons.mp (List.pairwise_append.mp hord).2.1
  exact
    { pageBelow := hi.pages p (by rw [hareas]; simp)
      page := hi.pages a (by rw [hareas]; simp)
      pageAbove := hi.pages q (by rw [hareas]; simp)
      below := hpord.1 a (by simp)
      above := (List.pairwise_cons.mp hpord.2).1 q (by simp) }

section Growth

variable {p q : VmArea}

/-- A start that wraps comes out behind the area, where the lower neighbour is not;
an end that wraps comes out in front of the old end, where the upper one is not. -/
theorem Between.clear_of_wraps (h : Between p a q) (hlen : length % pageSize = 0)
    (hlt : length < 4294967296) (hwrap : ¬ GrowthFits a length) :
    vmAreaIntersects (if vmAreaGrowsDown a then p else q) (expandTemp a length) = false := by
  have halignS := h.page.startAligned
  have halignE := h.page.endAligned
  have hproper := h.page.proper
  have hproperP := h.pageBelow.proper
  have hproperQ := h.pageAbove.proper
  have hspace := h.page.inSpace
  have hbelow := h.below
  have habove := h.above
  simp only [pageSize] at halignS halignE hlen
  cases hdown : vmAreaGrowsDown a with
  | true =>
    simp only [GrowthFits, hdown, if_true] at hwrap
    have hstart : sub32 a.startAddr length = a.startAddr + 4294967296 - length := by
      rw [sub32, Nat.mod_eq_of_lt hlt]
      omega
    have hget : vmAreaGetStartAddress (expandTemp a length) =
        a.startAddr + 4294967296 - length := by
      rw [expandTemp, if_pos hdown, hstart]
      exact getStartAddress_aligned (by simp only [pageSize]; omega) (by simp only; omega)
    simp only [if_true, vmAreaIntersects, hget, h.pageBelow.getEndAddress, Bool.not_eq_false',
      Bool.or_eq_true, decide_eq_true_eq]
    exact Or.inr (by omega)
  | false =>
    simp only [GrowthFits, hdown, Bool.false_eq_true, if_false] at hwrap
    have hend : add32 a.endAddr length = a.endAddr + length - 4294967296 := by
      rw [add32]
      omega
    have hget : vmAreaGetEndAddress (expandTemp a length) =
        a.endAddr + length - 4294967296 - 1 := by
      rw [expandTemp, if_neg (by simp [hdown]), hend]
      exact getEndAddress_aligned (by simp only [pageSize]; omega) (by simp only; omega)
        (by simp only; omega)
    simp only [Bool.false_eq_true, if_false, vmAreaIntersects, hget, h.pageAbove.getStartAddress,
      Bool.not_eq_false', Bool.or_eq_true, decide_eq_true_eq]
    exact Or.inl (by omega)

/-- A bound that wraps is not the old one moved by the length. -/
theorem not_extended_of_wraps (hwrap : ¬ GrowthFits a length) :
    ¬ Extended a length (expandTemp a length) := by
  intro hext
  cases hdown : vmAreaGrowsDown a with
  | true =>
    simp only [GrowthFits, Extended, hdown, if_true] at hwrap hext
    omega
  | false =>
    simp only [GrowthFits, Extended, hdown, Bool.false_eq_true, if_false, expandTemp,
      VmArea.mk.injEq] at hwrap hext
    have hmod := add32_lt a.endAddr length
    omega

/-- An end of 0 reads as the last address, which the upper neighbour is in front of. -/
theorem Between.meets_at_top (h : Between p a q) (hdown : vmAreaGrowsDown a = false)
    (htop : a.endAddr + length = 4294967296) :
    vmAreaIntersects q (expandTemp a length) = true := by
  have htemp : expandTemp a length = { a with endAddr := 0 } := by
    simp [expandTemp, hdown, add32, htop]
  have hget : vmAreaGetEndAddress { a with endAddr := 0 } = 4294967295 := by
    simp [vmAreaGetEndAddress, ceilDivision, mul32, sub32]
  have hstart : vmAreaGetStartAddress { a with endAddr := 0 } = a.startAddr :=
    h.page.getStartAddress
  have hspaceQ := h.pageAbove.inSpace
  have hproper := h.page.proper
  have hproperQ := h.pageAbove.proper
  have habove := h.above
  simp only [vmAreaIntersects, htemp, hget, hstart, h.pageAbove.getEndAddress,
    h.pageAbove.getStartAddress, Bool.not_eq_true', Bool.or_eq_false_iff,
    decide_eq_false_iff_not]
  omega

/-- A growth that fits and does not meet the neighbour it goes towards gives the
extended area, which is a page area between the two. -/
theorem Between.grown (h : Between p a q) (hlen : length % pageSize = 0)
    (hfits : GrowthFits a length)
    (hclear : vmAreaIntersects (if vmAreaGrowsDown a then p else q) (expandTemp a length) = false) :
    Extended a length (expandTemp a length) ∧ Between p (expandTemp a length) q := by
  have halignS := h.page.startAligned
  have halignE := h.page.endAligned
  have hproper := h.page.proper
  have hproperP := h.pageBelow.proper
  have hproperQ := h.pageAbove.proper
  have hspace := h.page.inSpace
  have hbelow := h.below
  have habove := h.above
  simp only [pageSize] at halignS halignE hlen
  cases hdown : vmAreaGrowsDown a with
  | true =>
    simp only [GrowthFits, hdown, if_true] at hfits hclear
    have htemp : expandTemp a length = { a with startAddr := a.startAddr - length } := by
      rw [expandTemp, if_pos hdown, sub32_eq (by omega) hfits]
    have hpage : PageArea (expandTemp a length) := by
      rw [htemp]
      constructor <;> simp only [pageSize] <;> omega
    have hapart := (h.pageBelow.intersects hpage).mp hclear
    rw [htemp] at hpage hapart ⊢
    rw [Extended, if_pos hdown]
    simp only at hapart
    exact ⟨⟨rfl, by simp only; omega⟩, h.pageBelow, hpage, h.pageAbove, by simp only; omega, habove⟩
  | false =>
    simp only [GrowthFits, hdown, Bool.false_eq_true, if_false] at hfits hclear
    have htop : ¬ a.endAddr + length = 4294967296 := by
      intro htop
      rw [h.meets_at_top hdown htop] at hclear
      cases hclear
    have htemp : expandTemp a length = { a with endAddr := a.endAddr + length } := by
      rw [expandTemp, if_neg (by simp [hdown]), add32_eq (by omega)]
    have hpage : PageArea (expandTemp a length) := by
      rw [htemp]
      constructor <;> simp only [pageSize] <;> omega
    have hapart := (h.pageAbove.intersects hpage).mp hclear
    rw [htemp] at hpage hapart ⊢
    rw [Extended, if_neg (by simp [hdown])]
    simp only at hapart
    exact ⟨rfl, h.pageBelow, hpage, h.pageAbove, hbelow, by simp only; omega⟩

end Growth

/-- `vm_contract_expand_area` of a removable stored area fails without a trace or
extends the area and keeps the invariant, exactly when the bound it moves stays
in the address space. -/
theorem vmContractExpandArea_sound_iff (beyond : VmArea) (hs : Space low high)
    (hi : ContractInv low high c) (ha : c.areas[i]? = some a) (hrem : vmAreaIsRemovable a = true)
    (hlen : length % pageSize = 0) (hlt : length < 4294967296) :
    (∃ c' ref res, vmContractExpandArea beyond c (.stored i) length = .ret (c', ref, res) ∧
      Expanded low high c i a length c' res) ↔ GrowthFits a length := by
  obtain ⟨pre, p, q, post, hareas, rfl⟩ := hi.neighbours ha hrem
  have hbetween := hi.between hareas
  have hin : pre.length + 1 < c.areas.length := by
    rw [hareas]
    simp
  rw [vmContractExpandArea_eq beyond hs hi hareas hrem hlen]
  constructor
  · rintro ⟨c', ref, res, hres, hexp⟩
    by_contra hwrap
    rw [hbetween.clear_of_wraps hlen hlt hwrap] at hres
    cases hres
    exact not_extended_of_wraps hwrap (hexp.extended hin)
  · intro hfits
    cases hcross : vmAreaIntersects (if vmAreaGrowsDown a then p else q) (expandTemp a length) with
    | true => exact ⟨c, _, _, rfl, .refused⟩
    | false =>
      obtain ⟨hext, hgrown⟩ := hbetween.grown hlen hfits hcross
      exact ⟨_, _, _, rfl,
        .done hext (hi.replace hareas hrem hgrown.page hgrown.below hgrown.above)⟩

theorem vmContractExpandArea_sound_iff_onePage :
    (∃ c' ref res, vmContractExpandArea ⟨0, 0, 0, 0, 0⟩ onePageContract (.stored 1) 4096 =
        .ret (c', ref, res) ∧
      Expanded 0 65536 onePageContract 1 ⟨8192, 12288, 2, 5, 0⟩ 4096 c' res) ↔
      GrowthFits ⟨8192, 12288, 2, 5, 0⟩ 4096 :=
  have h := (contractInv_inductive (by decide) (by decide)).holds onePageContract_reachable
  vmContractExpandArea_sound_iff ⟨0, 0, 0, 0, 0⟩ h.1 h.2 rfl (by decide) (by decide) (by decide)

/-- Growing the page at 8192 upwards by 2^32 less a page is answered with
`ERROR_OK`, and leaves an area that ends where it starts. -/
theorem vmContractExpandArea_wraps :
    ∃ c' ref, (contractSystem 0 65536).Reachable onePageContract ∧
      onePageContract.areas[1]? = some ⟨8192, 12288, 2, 5, 0⟩ ∧
      vmContractExpandArea ⟨0, 0, 0, 0, 0⟩ onePageContract (.stored 1) 4294963200 =
        .ret (c', ref, .ok ()) ∧
      c'.areas[1]? = some ⟨8192, 8192, 2, 5, 0⟩ ∧
      ¬ Expanded 0 65536 onePageContract 1 ⟨8192, 12288, 2, 5, 0⟩ 4294963200 c' (.ok ()) := by
  refine ⟨onePageContract.put 1 ⟨8192, 8192, 2, 5, 0⟩, .stored 1, onePageContract_reachable, rfl,
    by decide +kernel, rfl, fun h => ?_⟩
  have hext := h.extended (by decide)
  simp [Extended, vmAreaGrowsDown] at hext

end Expand

end MeOS
