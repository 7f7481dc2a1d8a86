import MeOS.OrderedVector
import MeOS.VmArea
import MeOS.Lib.Extents
import MeOS.Lib.Runs

/-! # `vm_contract.cpp`: the memory contract of a process

A contract keeps the areas of an address space in an ordered vector, between
two guard areas that cannot be removed. A new area is compared with two stored
areas only, the ones the binary search ends at; that this is enough follows
from the invariant: the stored areas are ordered and apart, and the guards
enclose the space.
-/

namespace MeOS

open Extents Runs

/-- `VM_CONTRACT_ERROR`. -/
inductive VmContractError where
  | badArguments
  | notFound
  | badAreaAddress
  | areaNonRemovable
  | overlaps
  | areaExists
deriving Repr, DecidableEq

/-- `vm_contract`. -/
structure VmContract where
  contract : OrderedVector VmArea
  lowestAddr : Nat
  highestAddr : Nat
deriving Repr, DecidableEq

namespace VmContract

/-- The stored areas. -/
abbrev areas (c : VmContract) : List VmArea := c.contract.data

end VmContract

/-- `vm_contract_init`; `raw` is the content of the local record the guards are
made from. -/
def vmContractInit (raw : VmArea) (low high : Nat) :
    Outcome (Except VmContractError VmContract) :=
  if high % pageSize ≠ 0 ∨ low % pageSize ≠ 0 ∨ low ≥ high then
    .ret (.error .badArguments)
  else do
    let area := { vmAreaInit raw with flags := mmapNonRemove }
    let area := (vmAreaSetBounds area low 4096).1
    let v ← orderedVectorInsert orderedVectorInit area
    let area := (vmAreaSetBounds area (sub32 high 4096) 4096).1
    let v ← orderedVectorInsert v area
    pure (.ok { contract := v, lowestAddr := low, highestAddr := high })

/-- `vm_contract_add_area`. -/
def vmContractAddArea (c : VmContract) (newArea : VmArea) :
    Outcome (VmContract × Except VmContractError Unit) :=
  if vmAreaIsOk newArea = false then
    .ret (c, .error .badArguments)
  else if newArea.startAddr < c.lowestAddr ∨ vmAreaGetEndAddress newArea ≥ c.highestAddr then
    .ret (c, .error .badArguments)
  else if c.contract.count = 0 then
    .panic
  else do
    let target := newArea.startAddr
    match ← search
        (fun y => if y.startAddr < target then .lt else if y.startAddr > target then .gt else .eq)
        c.contract with
    | .found _ => pure (c, .error .areaExists)
    | .crossed _ last =>
      if add32 last 1 = c.contract.count then .panic
      else
        match c.contract.data[last]?, c.contract.data[add32 last 1]? with
        | some below, some above =>
          if vmAreaIntersects below newArea = false ∧ vmAreaIntersects above newArea = false then do
            let v ← orderedVectorInsert c.contract newArea
            pure ({ c with contract := v }, .ok ())
          else pure (c, .error .overlaps)
        | _, _ => .undefined

/-- `vm_contract_remove_area`. -/
def vmContractRemoveArea (c : VmContract) (area : VmArea) :
    Outcome (VmContract × Except VmContractError Unit) :=
  if vmAreaIsRemovable area = false then
    .ret (c, .error .areaNonRemovable)
  else do
    let index ← orderedVectorFind c.contract area
    match orderedVectorRemove c.contract index with
    | (v, true) => pure ({ c with contract := v }, .ok ())
    | (v, false) => pure ({ c with contract := v }, .error .notFound)

/-- What a `vm_area*` argument points to: a record of the caller, or an element
of the contract. -/
inductive AreaRef where
  | caller (area : VmArea)
  | stored (index : Nat)
deriving Repr, DecidableEq

/-- `*area`. -/
def AreaRef.get (c : VmContract) : AreaRef → Option VmArea
  | .caller area => some area
  | .stored index => c.contract.data[index]?

/-- `*area = temp`: the contract and the argument afterwards. -/
def AreaRef.put (c : VmContract) (temp : VmArea) : AreaRef → VmContract × AreaRef
  | .caller _ => (c, .caller temp)
  | .stored index =>
    ({ c with contract := { c.contract with data := c.contract.data.set index temp } },
      .stored index)

/-- `adjacent` of `vm_contract_expand_area`: the stored area on the side that
`area` grows to; `beyond` is what an index outside the vector reads. -/
def expandAdjacent (beyond : VmArea) (c : VmContract) (area : VmArea) (index : Nat) : VmArea :=
  if vmAreaGrowsDown area then (c.contract.data[sub32 index 1]?).getD beyond
  else (c.contract.data[add32 index 1]?).getD beyond

/-- `temp` of `vm_contract_expand_area`: `area` grown by `length`. -/
def expandTemp (area : VmArea) (length : Nat) : VmArea :=
  if vmAreaGrowsDown area then { area with startAddr := sub32 area.startAddr length }
  else { area with endAddr := add32 area.endAddr length }

/-- `vm_contract_expand_area` on pointers that are not null. -/
def vmContractExpandArea (beyond : VmArea) (c : VmContract) (ref : AreaRef) (length : Nat) :
    Outcome (VmContract × AreaRef × Except VmContractError Unit) :=
  match ref.get c with
  | none => .undefined
  | some area =>
    if vmAreaIsRemovable area = false then
      .ret (c, ref, .error .badArguments)
    else if length % pageSize ≠ 0 then
      .panic
    else do
      let index ← orderedVectorFind c.contract area
      if index ≥ c.contract.count then
        pure (c, ref, .error .notFound)
      else if vmAreaIntersects (expandAdjacent beyond c area index) (expandTemp area length) then
        pure (c, ref, .error .overlaps)
      else
        let (c, ref) := ref.put c (expandTemp area length)
        pure (c, ref, .ok ())

/-- `vm_contract_find_area`: the index of the area that is pointed to. -/
def vmContractFindArea (c : VmContract) (address : Nat) : Outcome (Except VmContractError Nat) :=
  if c.contract.count = 0 ∨ address < c.lowestAddr ∨ address ≥ c.highestAddr then
    .ret (.error .badArguments)
  else do
    match ← search
        (fun y => if y.startAddr < address then .lt else if y.startAddr > address then .gt else .eq)
        c.contract with
    | .found mid => pure (.ok mid)
    | .crossed _ last =>
      match c.contract.data[last]? with
      | some below =>
        if address ≤ vmAreaGetEndAddress below then pure (.ok last) else pure (.error .notFound)
      | none => .undefined

/-! ## The invariant -/

/-- `a` is a non-removable area that covers exactly `[start, stop)`. -/
structure Guard (a : VmArea) (start stop : Nat) : Prop where
  startEq : a.startAddr = start
  endEq : a.endAddr = stop
  nonRemovable : vmAreaIsRemovable a = false

/-- The space `[low, high)` has room for two guards. -/
structure Space (low high : Nat) : Prop where
  lowAligned : low % pageSize = 0
  highAligned : high % pageSize = 0
  room : low + 2 * pageSize ≤ high
  inSpace : high < 4294967296

/-- The areas stand in order between two guards. -/
structure ContractInv (low high : Nat) (c : VmContract) : Prop where
  lowest : c.lowestAddr = low
  highest : c.highestAddr = high
  reserved : 0 < c.contract.rSize ∧ c.contract.count ≤ c.contract.rSize
  ordered : Ordered VmArea.startAddr VmArea.endAddr c.areas
  pages : ∀ a ∈ c.areas, PageArea a
  guards : ∃ f mid l, c.areas = f :: (mid ++ [l]) ∧ Guard f low (low + pageSize) ∧
    Guard l (high - pageSize) high

section Inv

variable {low high : Nat} {c : VmContract} {a b : VmArea}

/-- Every stored area lies in the space. -/
theorem ContractInv.inside (hs : Space low high) (hi : ContractInv low high c)
    (ha : a ∈ c.areas) : low ≤ a.startAddr ∧ a.endAddr ≤ high := by
  obtain ⟨f, mid, l, hareas, hf, hl⟩ := hi.guards
  have hroom := hs.room
  have hord := hi.ordered
  have hproper := (hi.pages a ha).proper
  rw [hareas] at hord ha
  obtain ⟨hfirst, hrest⟩ := List.pairwise_cons.mp hord
  have hlast := (List.pairwise_append.mp hrest).2.2
  have h₁ := hf.startEq
  have h₂ := hf.endEq
  have h₃ := hl.startEq
  have h₄ := hl.endEq
  simp only [pageSize] at hroom h₂ h₃
  rcases List.mem_cons.mp ha with rfl | ha
  · omega
  · have hfa : f.endAddr ≤ a.startAddr := hfirst a ha
    rcases List.mem_append.mp ha with ha | ha
    · have hal : a.endAddr ≤ l.startAddr := hlast a ha l (by simp)
      omega
    · obtain rfl := List.mem_singleton.mp ha
      omega

/-- Pages bound the number of areas, so indices do not wrap. -/
theorem ContractInv.count_lt (hs : Space low high) (hi : ContractInv low high c) :
    c.contract.count < 2147483648 := by
  have hlen := hi.ordered.length_mul_le (a := 0) (z := high) (w := pageSize) (by omega)
    (fun _ _ => Nat.zero_le _) (fun x hx => (hi.pages x hx).width)
    (fun x hx => (hi.inside hs hx).2)
  have hspace := hs.inSpace
  simp only [pageSize] at hlen
  show c.areas.length < 2147483648
  omega

theorem ContractInv.nonempty (hi : ContractInv low high c) : c.contract.count ≠ 0 := by
  obtain ⟨f, mid, l, hareas, _, _⟩ := hi.guards
  simp only [VmContract.areas] at hareas
  simp [OrderedVector.count, hareas]

/-- The starts of the stored areas increase strictly. -/
theorem ContractInv.increasing (hi : ContractInv low high c) :
    c.areas.Pairwise fun x y => x.startAddr < y.startAddr :=
  hi.ordered.increasing fun x hx => (hi.pages x hx).proper

/-- An area put between its neighbours keeps the invariant. -/
theorem ContractInv.insert {pre post : List VmArea} {rSize : Nat}
    (hi : ContractInv low high c) (hareas : c.areas = pre ++ post) (hpre : pre ≠ [])
    (hpost : post ≠ []) (ha : PageArea a)
    (hbelow : ∀ p ∈ pre, Before VmArea.startAddr VmArea.endAddr p a)
    (habove : ∀ q ∈ post, Before VmArea.startAddr VmArea.endAddr a q)
    (hsize : c.contract.count < rSize) :
    ContractInv low high { c with contract := ⟨pre ++ a :: post, rSize⟩ } where
  lowest := hi.lowest
  highest := hi.highest
  reserved := by
    have hcount : c.contract.count = pre.length + post.length := by
      simp only [VmContract.areas] at hareas
      simp [OrderedVector.count, hareas]
    simp only [OrderedVector.count, List.length_append, List.length_cons]
    omega
  ordered := (hareas ▸ hi.ordered : Ordered _ _ (pre ++ post)).insert hbelow habove
  pages := by
    intro x hx
    rcases List.mem_append.mp hx with hx | hx
    · exact hi.pages x (by rw [hareas]; simp [hx])
    · rcases List.mem_cons.mp hx with rfl | hx
      · exact ha
      · exact hi.pages x (by rw [hareas]; simp [hx])
  guards := by
    obtain ⟨f, mid, l, hguards, hf, hl⟩ := hi.guards
    obtain ⟨p, pre, rfl⟩ := List.exists_cons_of_ne_nil hpre
    obtain ⟨post, q, rfl⟩ := (List.eq_nil_or_concat' post).resolve_left hpost
    have hsame : f :: (mid ++ [l]) = p :: (pre ++ post ++ [q]) := by
      rw [← hguards, hareas]
      simp
    obtain ⟨rfl, hrest⟩ := List.cons.inj hsame
    obtain ⟨rfl, hql⟩ := List.append_inj' hrest rfl
    obtain rfl := List.singleton_inj.mp hql
    exact ⟨f, pre ++ a :: post, l, by simp, hf, hl⟩

/-- Taking out a removable area keeps the invariant. -/
theorem ContractInv.erase {pre post : List VmArea} (hi : ContractInv low high c)
    (hareas : c.areas = pre ++ a :: post) (hrem : vmAreaIsRemovable a = true) :
    ContractInv low high { c with contract := ⟨pre ++ post, c.contract.rSize⟩ } where
  lowest := hi.lowest
  highest := hi.highest
  reserved := by
    have hres := hi.reserved
    have hcount : c.contract.count = pre.length + post.length + 1 := by
      simp only [VmContract.areas] at hareas
      simp [OrderedVector.count, hareas, Nat.add_assoc]
    simp only [OrderedVector.count, List.length_append] at hcount hres ⊢
    omega
  ordered := by
    have hsub : List.Sublist (pre ++ post) (pre ++ a :: post) :=
      List.Sublist.append_left (List.sublist_cons_self a post) pre
    exact (hareas ▸ hi.ordered : Ordered _ _ (pre ++ a :: post)).sublist hsub
  pages := by
    intro x hx
    refine hi.pages x ?_
    rw [hareas]
    rcases List.mem_append.mp hx with hx | hx <;> simp [hx]
  guards := by
    obtain ⟨f, mid, l, hguards, hf, hl⟩ := hi.guards
    have hsame : f :: (mid ++ [l]) = pre ++ a :: post := hguards ▸ hareas
    -- the guards are not removable, so the area is neither of them
    rcases pre with _ | ⟨p, pre⟩
    · obtain ⟨rfl, _⟩ := List.cons.inj hsame
      rw [hf.nonRemovable] at hrem
      cases hrem
    obtain ⟨rfl, hrest⟩ := List.cons.inj hsame
    rcases List.eq_nil_or_concat' post with rfl | ⟨post, q, rfl⟩
    · obtain ⟨_, hal⟩ := List.append_inj' hrest rfl
      obtain rfl := List.singleton_inj.mp hal
      rw [hl.nonRemovable] at hrem
      cases hrem
    have hrest' : mid ++ [l] = (pre ++ a :: post) ++ [q] := by simpa using hrest
    obtain ⟨_, hql⟩ := List.append_inj' hrest' rfl
    obtain rfl := List.singleton_inj.mp hql
    exact ⟨f, pre ++ post, l, by simp, hf, hl⟩

end Inv

/-! ## The functions -/

section Specs

variable {low high : Nat} {c : VmContract} {a b : VmArea}

/-- A guard made by `vm_contract_init`. -/
def guardArea (raw : VmArea) (start : Nat) : VmArea :=
  ⟨start, start + pageSize, mmapNonRemove, invalidFd, raw.offset⟩

theorem guardArea_guard (raw : VmArea) (start : Nat) :
    Guard (guardArea raw start) start (start + pageSize) :=
  ⟨rfl, rfl, by simp [vmAreaIsRemovable, guardArea]⟩

/-- The local record of `vm_contract_init` once its bounds are set. -/
theorem setBounds_guardArea {raw a : VmArea} {start : Nat} (hflags : a.flags = mmapNonRemove)
    (hfd : a.fd = invalidFd) (hoffset : a.offset = raw.offset) (haligned : start % pageSize = 0)
    (hfits : start + pageSize < 4294967296) :
    (vmAreaSetBounds a start 4096).1 = guardArea raw start := by
  simp only [pageSize] at haligned hfits
  have hadd : add32 start 4096 = start + 4096 := add32_eq hfits
  have hbounds : vmAreaCheckBounds start (start + 4096) = true := by
    refine vmAreaCheckBounds_iff.mpr ⟨haligned, ?_, by omega⟩
    simp only [pageSize]
    omega
  simp [vmAreaSetBounds, hadd, hbounds, guardArea, hflags, hfd, hoffset]

/-- A successful `vm_contract_init` gives the two guards and nothing else. -/
theorem vmContractInit_eq {raw : VmArea} (hhigh : high < 4294967296)
    (h : vmContractInit raw low high = .ret (.ok c)) :
    low % pageSize = 0 ∧ high % pageSize = 0 ∧ low + pageSize ≤ high ∧
      ∃ rSize, 1 < rSize ∧ rSize < 4294967296 ∧
        c = ⟨⟨[guardArea raw low, guardArea raw (high - pageSize)], rSize⟩, low, high⟩ := by
  unfold vmContractInit at h
  split at h
  · cases h
  rename_i hargs
  obtain ⟨hhi, hlo, hlt⟩ := not_or.mp hargs |>.imp_right not_or.mp
  rw [not_not] at hhi hlo
  have hroom : low + pageSize ≤ high := by
    simp only [pageSize] at hhi hlo ⊢
    omega
  have hlast : (high - pageSize) % pageSize = 0 := by
    simp only [pageSize] at hhi ⊢
    omega
  have hsub : sub32 high 4096 = high - pageSize := by
    simp only [pageSize] at hroom ⊢
    exact sub32_eq hhigh (by omega)
  -- the two guards, each one page long
  have hset₁ : (vmAreaSetBounds { vmAreaInit raw with flags := mmapNonRemove } low 4096).1 =
      guardArea raw low := setBounds_guardArea rfl rfl rfl hlo (by omega)
  have hset₂ : (vmAreaSetBounds (guardArea raw low) (high - pageSize) 4096).1 =
      guardArea raw (high - pageSize) := setBounds_guardArea rfl rfl rfl hlast (by omega)
  simp only [hset₁, hsub, hset₂] at h
  refine ⟨hlo, hhi, hroom, ?_⟩
  have hnot : ¬ guardArea raw (high - pageSize) < guardArea raw low := by
    rw [VmArea.lt_def]
    simp only [guardArea]
    omega
  -- the vector grows from no place to one and then to two
  have hone : orderedVectorInsert orderedVectorInit (guardArea raw low) =
      .ret ⟨[guardArea raw low], 1⟩ := rfl
  have hreserve : orderedVectorReserve (⟨[guardArea raw low], 1⟩ : OrderedVector VmArea) 2 =
      .ret ⟨[guardArea raw low], 2⟩ := rfl
  have htwo : orderedVectorInsert ⟨[guardArea raw low], 1⟩ (guardArea raw (high - pageSize)) =
      .ret ⟨[guardArea raw low, guardArea raw (high - pageSize)], 2⟩ := by
    simp [orderedVectorInsert, OrderedVector.count, mul32, hreserve, insertShift, hnot]
  rw [hone, Outcome.ret_bind, htwo] at h
  exact ⟨2, by decide, by decide, by simpa using h.symm⟩

/-- With room for two guards, a successful `vm_contract_init` gives the invariant. -/
theorem vmContractInit_spec {raw : VmArea} (hroom : low + 2 * pageSize ≤ high)
    (hhigh : high < 4294967296) (h : vmContractInit raw low high = .ret (.ok c)) :
    Space low high ∧ ContractInv low high c := by
  obtain ⟨hlo, hhi, _, rSize, hsize, _, rfl⟩ := vmContractInit_eq hhigh h
  refine ⟨⟨hlo, hhi, hroom, hhigh⟩, ?_⟩
  simp only [pageSize] at hlo hhi hroom
  have hend : high - pageSize + pageSize = high := by
    simp only [pageSize]
    omega
  refine
    { lowest := rfl, highest := rfl, reserved := ?_, ordered := ?_, pages := ?_, guards := ?_ }
  · exact ⟨Nat.lt_trans Nat.zero_lt_one hsize, hsize⟩
  · have hbefore : low + 4096 ≤ high - 4096 := by omega
    refine List.pairwise_cons.mpr ⟨?_, List.pairwise_singleton _ _⟩
    intro x hx
    obtain rfl := List.mem_singleton.mp hx
    exact hbefore
  · intro x hx
    simp only [VmContract.areas, List.mem_cons, List.not_mem_nil, or_false] at hx
    rcases hx with rfl | rfl
    · constructor <;> simp only [guardArea, pageSize] <;> omega
    · constructor <;> simp only [guardArea, pageSize] <;> omega
  · refine ⟨guardArea raw low, [], guardArea raw (high - pageSize), rfl, guardArea_guard raw low, ?_⟩
    have hguard := guardArea_guard raw (high - pageSize)
    rwa [hend] at hguard

/-- The area lies in `[low, high)`. -/
def Lies (low high : Nat) (a : VmArea) : Prop :=
  low ≤ a.startAddr ∧ a.startAddr < a.endAddr ∧ a.endAddr ≤ high

/-- The area overlaps no stored area. -/
def Clear (c : VmContract) (a : VmArea) : Prop :=
  ∀ b ∈ c.areas, Apart VmArea.startAddr VmArea.endAddr b a

/-- What `vm_contract_add_area` does to a contract. -/
structure Added (low high : Nat) (c : VmContract) (a : VmArea) (c' : VmContract)
    (res : Except VmContractError Unit) : Prop where
  inv : ContractInv low high c'
  ok_iff : res = .ok () ↔ Lies low high a ∧ Clear c a
  grows : res = .ok () → c'.areas.Perm (a :: c.areas)
  keeps : res ≠ .ok () → c' = c

/-- A refused area, when it does not fit. -/
theorem Added.refused (hi : ContractInv low high c) {e : VmContractError}
    (h : ¬ (Lies low high a ∧ Clear c a)) : Added low high c a c (.error e) := by
  refine ⟨hi, ?_, fun h => (by cases h), fun _ => rfl⟩
  simp [h]

/-- `vm_contract_add_area` returns, and adds the area exactly when it fits. -/
theorem vmContractAddArea_spec (hs : Space low high) (hi : ContractInv low high c)
    (ha : Created a) :
    ∃ c' res, vmContractAddArea c a = .ret (c', res) ∧ Added low high c a c' res := by
  rcases ha.cases with ⟨hpage, hok⟩ | ⟨hok, hempty⟩
  swap
  · -- an invalid area covers nothing
    refine ⟨c, .error .badArguments, by simp [vmContractAddArea, hok], Added.refused hi ?_⟩
    rintro ⟨⟨_, hlt, _⟩, _⟩
    exact hempty hlt
  have hproper := hpage.proper
  have hend := hpage.getEndAddress
  by_cases hlies : a.startAddr < low ∨ high < a.endAddr
  · have hrange : a.startAddr < c.lowestAddr ∨ vmAreaGetEndAddress a ≥ c.highestAddr := by
      rw [hi.lowest, hi.highest, hend]
      omega
    refine ⟨c, .error .badArguments, ?_, Added.refused hi ?_⟩
    · simp [vmContractAddArea, hok, hrange]
    · rintro ⟨⟨_, _, _⟩, _⟩
      omega
  have hrange : ¬ (a.startAddr < c.lowestAddr ∨ vmAreaGetEndAddress a ≥ c.highestAddr) := by
    rw [hi.lowest, hi.highest, hend]
    omega
  have hcount := hi.nonempty
  have hsmall := hi.count_lt hs
  let cmp : VmArea → Ordering := fun y =>
    if y.startAddr < a.startAddr then .lt else if y.startAddr > a.startAddr then .gt else .eq
  obtain ⟨pre, post, hareas, hpre, hpost⟩ := exists_split hi.increasing a.startAddr
  have hdata : c.contract.data = pre ++ post := hareas
  have hcmpPre : ∀ z ∈ pre, cmp z = .lt := fun z hz => if_pos (hpre z hz)
  by_cases hhead : ∃ q rest, post = q :: rest ∧ q.startAddr = a.startAddr
  · -- an area with the same start
    obtain ⟨q, rest, rfl, hq⟩ := hhead
    have hcmpQ : cmp q = .eq := by simp [cmp, hq]
    have hcmpRest : ∀ z ∈ rest, cmp z = .gt := by
      intro z hz
      have hord := hi.increasing
      rw [hareas] at hord
      have hqz := (List.pairwise_cons.mp (List.pairwise_append.mp hord).2.1).1 z hz
      have hnlt : ¬ z.startAddr < a.startAddr := by omega
      have hgt : z.startAddr > a.startAddr := by omega
      simp [cmp, hnlt, hgt]
    have hsearch : search cmp c.contract = .ret (.found pre.length) :=
      search_found hdata hcmpPre hcmpQ hcmpRest hsmall
    refine ⟨c, .error .areaExists, ?_, Added.refused hi ?_⟩
    · simp only [vmContractAddArea, hok, if_neg hrange, if_neg hcount]
      simp [cmp] at hsearch
      simp [hsearch]
    · rintro ⟨_, hclear⟩
      have hqm : q ∈ c.areas := by rw [hareas]; simp
      have happ := hclear q hqm
      have hqp := (hi.pages q hqm).proper
      simp only [Apart] at happ
      omega
  · -- the area belongs between `pre` and `post`
    have hpost' : ∀ z ∈ post, a.startAddr < z.startAddr := by
      intro z hz
      rcases Nat.lt_or_eq_of_le (hpost z hz) with h | h
      · exact h
      exfalso
      cases post with
      | nil => cases hz
      | cons q rest =>
        have hq := hpost q (by simp)
        rcases List.mem_cons.mp hz with rfl | hz
        · exact hhead ⟨z, rest, rfl, h.symm⟩
        · have hord := hi.increasing
          rw [hareas] at hord
          have hqz := (List.pairwise_cons.mp (List.pairwise_append.mp hord).2.1).1 z hz
          omega
    have hcmpPost : ∀ z ∈ post, cmp z = .gt := by
      intro z hz
      have hz' := hpost' z hz
      have hnlt : ¬ z.startAddr < a.startAddr := by omega
      simp [cmp, hnlt, hz']
    -- the guards are on both sides
    obtain ⟨f, mid, l, hguards, hf, hl⟩ := hi.guards
    have hfm : f ∈ c.areas := by rw [hguards]; simp
    have hlm : l ∈ c.areas := by rw [hguards]; simp
    have hfpre : f ∈ pre := by
      rw [hareas] at hfm
      refine (List.mem_append.mp hfm).resolve_right fun hfp => ?_
      have hlt := hpost' f hfp
      have hstart := hf.startEq
      omega
    have hlpost : l ∈ post := by
      rw [hareas] at hlm
      refine (List.mem_append.mp hlm).resolve_left fun hlp => ?_
      have hlt := hpre l hlp
      have hstart := hl.startEq
      have h₁ := hs.highAligned
      have h₂ := hpage.startAligned
      have h₃ := hs.room
      simp only [pageSize] at *
      omega
    obtain ⟨front, p, hprep⟩ :=
      (List.eq_nil_or_concat' pre).resolve_left (List.ne_nil_of_mem hfpre)
    obtain ⟨q, rest, hpostq⟩ := List.exists_cons_of_ne_nil (List.ne_nil_of_mem hlpost)
    have hpos : 0 < pre.length := List.length_pos_of_mem hfpre
    have hpostpos : 0 < post.length := List.length_pos_of_mem hlpost
    have hlen : c.contract.count = pre.length + post.length := by
      simp [OrderedVector.count, hdata]
    have hsearch : search cmp c.contract = .ret (.crossed pre.length (pre.length - 1)) :=
      search_crossed hdata hcmpPre hcmpPost hpos hsmall
    have hadd : add32 (pre.length - 1) 1 = pre.length := by
      rw [add32_eq (by omega)]
      omega
    have hnotlast : pre.length ≠ c.contract.count := by omega
    have hbelow : c.contract.data[pre.length - 1]? = some p := by
      rw [hdata, hprep]
      simp
    have habove : c.contract.data[pre.length]? = some q := by
      rw [hdata, hpostq]
      simp
    have hpm : p ∈ c.areas := by rw [hareas, hprep]; simp
    have hqm : q ∈ c.areas := by rw [hareas, hpostq]; simp
    have hpa := hpre p (by rw [hprep]; simp)
    have hqa := hpost' q (by rw [hpostq]; simp)
    have hpage₁ := hi.pages p hpm
    have hpage₂ := hi.pages q hqm
    have hrun : vmContractAddArea c a =
        if vmAreaIntersects p a = false ∧ vmAreaIntersects q a = false then do
          let v ← orderedVectorInsert c.contract a
          pure ({ c with contract := v }, .ok ())
        else pure (c, .error .overlaps) := by
      simp only [vmContractAddArea, hok, if_neg hrange, if_neg hcount]
      simp only [cmp] at hsearch
      simp [hsearch, hadd, hnotlast, hbelow, habove]
    rw [hrun]
    have htest : (vmAreaIntersects p a = false ∧ vmAreaIntersects q a = false) ↔
        (p.endAddr ≤ a.startAddr ∨ a.endAddr ≤ p.startAddr) ∧
          (q.endAddr ≤ a.startAddr ∨ a.endAddr ≤ q.startAddr) :=
      and_congr (hpage₁.intersects hpage) (hpage₂.intersects hpage)
    by_cases hclear : (p.endAddr ≤ a.startAddr ∨ a.endAddr ≤ p.startAddr) ∧
        (q.endAddr ≤ a.startAddr ∨ a.endAddr ≤ q.startAddr)
    · -- apart from its neighbours, the area is apart from all
      have hord : Ordered VmArea.startAddr VmArea.endAddr (pre ++ post) := hareas ▸ hi.ordered
      have hne : ∀ y ∈ pre ++ post, y.startAddr ≤ y.endAddr := by
        intro y hy
        exact (hi.pages y (by rw [hareas]; exact hy)).proper.le
      have hallBelow : ∀ y ∈ pre, Before VmArea.startAddr VmArea.endAddr y a := by
        refine Ordered.before_of_getLast (List.pairwise_append.mp hord).1
          (fun y hy => hne y (by simp [hy])) ?_
        rw [hprep]
        simp only [List.getLast?_append_cons, List.getLast?_singleton, Option.mem_some_iff,
          Before, forall_eq']
        omega
      have hallAbove : ∀ y ∈ post, Before VmArea.startAddr VmArea.endAddr a y := by
        refine Ordered.before_of_head (List.pairwise_append.mp hord).2.1
          (fun y hy => hne y (by simp [hy])) ?_
        rw [hpostq]
        simp only [List.head?_cons, Option.mem_some_iff, Before, forall_eq']
        have hqp := hpage₂.proper
        omega
      obtain ⟨rSize, hins, hsize⟩ := orderedVectorInsert_eq (x := a) hdata
        (fun y hy => hpost' y hy)
        (fun y hy => by
          have hyp := hpre y (List.mem_of_getLast? hy)
          rw [VmArea.lt_def]
          omega)
        hi.reserved.1 hi.reserved.2 hsmall
      refine ⟨{ c with contract := ⟨pre ++ a :: post, rSize⟩ }, .ok (), ?_, ?_⟩
      · rw [if_pos (htest.mpr hclear), hins]
        rfl
      · refine ⟨hi.insert hareas (List.ne_nil_of_mem hfpre) (List.ne_nil_of_mem hlpost) hpage
          hallBelow hallAbove hsize, ?_, ?_, fun h => absurd rfl h⟩
        · refine ⟨fun _ => ⟨⟨by omega, hproper, by omega⟩, ?_⟩, fun _ => rfl⟩
          intro y hy
          rw [hareas] at hy
          rcases List.mem_append.mp hy with hy | hy
          · exact Or.inl (hallBelow y hy)
          · exact Or.inr (hallAbove y hy)
        · intro _
          rw [hareas]
          exact List.perm_middle
    · refine ⟨c, .error .overlaps, by rw [if_neg (fun h => hclear (htest.mp h))]; rfl,
        Added.refused hi ?_⟩
      rintro ⟨_, hall⟩
      exact hclear ⟨hall p hpm, hall q hqm⟩

/-- `ordered_vector_find` finds the stored area with the same start. -/
theorem ContractInv.find {pre post : List VmArea} (hs : Space low high)
    (hi : ContractInv low high c) (hareas : c.areas = pre ++ b :: post)
    (hstart : b.startAddr = a.startAddr) : orderedVectorFind c.contract a = .ret pre.length := by
  have hord := hi.increasing
  rw [hareas] at hord
  obtain ⟨_, hpost, hcross⟩ := List.pairwise_append.mp hord
  have hsearch : search (fun y => if a < y then .gt else if y < a then .lt else .eq)
      c.contract = .ret (.found pre.length) := by
    refine search_found hareas ?_ ?_ ?_ (hi.count_lt hs)
    · intro z hz
      have hzb := hcross z hz b (by simp)
      have hnot : ¬ a < z := by
        rw [VmArea.lt_def]
        omega
      have hza : z < a := by
        rw [VmArea.lt_def]
        omega
      rw [if_neg hnot, if_pos hza]
    · have hnot₁ : ¬ a < b := by
        rw [VmArea.lt_def]
        omega
      have hnot₂ : ¬ b < a := by
        rw [VmArea.lt_def]
        omega
      rw [if_neg hnot₁, if_neg hnot₂]
    · intro z hz
      have hbz := (List.pairwise_cons.mp hpost).1 z hz
      exact if_pos (show a.startAddr < z.startAddr by omega)
  simp [orderedVectorFind, hsearch]

/-- `vm_contract_remove_area` with a removable record takes out the stored area
with the same start. -/
theorem vmContractRemoveArea_start {pre post : List VmArea} (hs : Space low high)
    (hi : ContractInv low high c) (hareas : c.areas = pre ++ b :: post)
    (hstart : b.startAddr = a.startAddr) (hrem : vmAreaIsRemovable a = true) :
    vmContractRemoveArea c a =
      .ret ({ c with contract := ⟨pre ++ post, c.contract.rSize⟩ }, .ok ()) := by
  have hdata : c.contract.data = pre ++ b :: post := hareas
  have hfind := hi.find hs hareas hstart
  simp [vmContractRemoveArea, hrem, hfind, orderedVectorRemove_eq hdata]

/-- `vm_contract_remove_area` of a stored area: it is taken out if it is
removable. -/
theorem vmContractRemoveArea_spec (hs : Space low high) (hi : ContractInv low high c)
    (ha : a ∈ c.areas) :
    ∃ c' res, vmContractRemoveArea c a = .ret (c', res) ∧ ContractInv low high c' ∧
      (res = .ok () ↔ vmAreaIsRemovable a = true) ∧
      (res = .ok () → (a :: c'.areas).Perm c.areas) ∧ (res ≠ .ok () → c' = c) := by
  cases hrem : vmAreaIsRemovable a with
  | false =>
    refine ⟨c, .error .areaNonRemovable, by simp [vmContractRemoveArea, hrem], hi, ?_, ?_, ?_⟩
    · simp
    · intro h
      cases h
    · intro _
      rfl
  | true =>
    obtain ⟨pre, post, hareas⟩ := List.append_of_mem ha
    refine ⟨{ c with contract := ⟨pre ++ post, c.contract.rSize⟩ }, .ok (),
      vmContractRemoveArea_start hs hi hareas rfl hrem, hi.erase hareas hrem, ?_, ?_, ?_⟩
    · simp
    · intro _
      rw [hareas]
      exact List.perm_middle.symm
    · intro h
      exact absurd rfl h

end Specs

/-! ## Contracts in use -/

/-- A call on a contract: an area built by `vm_area_create` is added, or a
stored one is removed. -/
inductive ContractStep : VmContract → VmContract → Prop where
  | add {c c' : VmContract} {res : Except VmContractError Unit} (a : VmArea) (ha : Created a)
      (h : vmContractAddArea c a = .ret (c', res)) : ContractStep c c'
  | remove {c c' : VmContract} {res : Except VmContractError Unit} (a : VmArea)
      (ha : a ∈ c.areas) (h : vmContractRemoveArea c a = .ret (c', res)) : ContractStep c c'

/-- Runs from a successful `vm_contract_init(low, high)`. -/
def contractSystem (low high : Nat) : System VmContract where
  Init c := ∃ raw, vmContractInit raw low high = .ret (.ok c)
  Next := ContractStep

/-- The stored areas are sorted, disjoint, inside the space, and enclosed by
the guard pages. -/
structure Enclosed (low high : Nat) (c : VmContract) : Prop where
  sorted : c.areas.Pairwise fun a b => a.startAddr < b.startAddr
  disjoint : c.areas.Pairwise (Apart VmArea.startAddr VmArea.endAddr)
  inside : ∀ a ∈ c.areas, Lies low high a
  first : ∃ g, c.areas.head? = some g ∧ Guard g low (low + pageSize)
  last : ∃ g, c.areas.getLast? = some g ∧ Guard g (high - pageSize) high

section Runs

variable {low high : Nat} {c : VmContract}

theorem ContractInv.enclosed (hs : Space low high) (hi : ContractInv low high c) :
    Enclosed low high c where
  sorted := hi.increasing
  disjoint := hi.ordered.imp Or.inl
  inside a ha := ⟨(hi.inside hs ha).1, (hi.pages a ha).proper, (hi.inside hs ha).2⟩
  first := by
    obtain ⟨f, mid, l, hareas, hf, _⟩ := hi.guards
    exact ⟨f, by rw [hareas]; rfl, hf⟩
  last := by
    obtain ⟨f, mid, l, hareas, _, hl⟩ := hi.guards
    refine ⟨l, ?_, hl⟩
    have hsplit : c.areas = (f :: mid) ++ [l] := hareas
    rw [hsplit, List.getLast?_concat]

theorem contractInv_inductive (hroom : low + 2 * pageSize ≤ high) (hhigh : high < 4294967296) :
    (contractSystem low high).Inductive fun c => Space low high ∧ ContractInv low high c where
  init := by
    rintro c ⟨raw, h⟩
    exact vmContractInit_spec hroom hhigh h
  next := by
    rintro c c' ⟨hs, hi⟩ hstep
    cases hstep with
    | add a ha h =>
      obtain ⟨c'', res, hrun, hadded⟩ := vmContractAddArea_spec hs hi ha
      cases hrun.symm.trans h
      exact ⟨hs, hadded.inv⟩
    | remove a ha h =>
      obtain ⟨c'', res, hrun, hinv, _⟩ := vmContractRemoveArea_spec hs hi ha
      cases hrun.symm.trans h
      exact ⟨hs, hinv⟩

/-- Every reachable contract is enclosed by its guards, and `vm_contract_add_area`
returns: it accepts exactly the areas that lie in the space and overlap no
stored one, and changes nothing when it refuses. -/
theorem contract_enclosed (hroom : low + 2 * pageSize ≤ high) (hhigh : high < 4294967296)
    (h : (contractSystem low high).Reachable c) :
    Enclosed low high c ∧ ∀ a, Created a →
      ∃ c' res, vmContractAddArea c a = .ret (c', res) ∧
        (res = .ok () ↔ Lies low high a ∧ Clear c a) ∧
        (res = .ok () → c'.areas.Perm (a :: c.areas)) ∧ (res ≠ .ok () → c' = c) := by
  obtain ⟨hs, hi⟩ := (contractInv_inductive hroom hhigh).holds h
  refine ⟨hi.enclosed hs, fun a ha => ?_⟩
  obtain ⟨c', res, hrun, hadded⟩ := vmContractAddArea_spec hs hi ha
  exact ⟨c', res, hrun, hadded.ok_iff, hadded.grows, hadded.keeps⟩

/-- The contract of a space of sixteen pages. -/
def sixteenPages : VmContract :=
  { contract :=
      ⟨[⟨0, 4096, mmapNonRemove, invalidFd, 0⟩, ⟨61440, 65536, mmapNonRemove, invalidFd, 0⟩], 2⟩,
    lowestAddr := 0, highestAddr := 65536 }

/-- The same contract with one page mapped in the middle. -/
def onePageContract : VmContract :=
  { contract :=
      ⟨[⟨0, 4096, mmapNonRemove, invalidFd, 0⟩, ⟨8192, 12288, 2, 5, 0⟩,
        ⟨61440, 65536, mmapNonRemove, invalidFd, 0⟩], 4⟩,
    lowestAddr := 0, highestAddr := 65536 }

theorem sixteenPages_init :
    vmContractInit ⟨0, 0, 0, 0, 0⟩ 0 65536 = .ret (.ok sixteenPages) := by decide +kernel

theorem onePageContract_add :
    vmContractAddArea sixteenPages ⟨8192, 12288, 2, 5, 0⟩ = .ret (onePageContract, .ok ()) := by
  decide +kernel

theorem onePageContract_reachable : (contractSystem 0 65536).Reachable onePageContract := by
  have hcreated : Created ⟨8192, 12288, 2, 5, 0⟩ :=
    ⟨⟨0, 0, 0, 0, 0⟩, 8192, 12288, 2, 5, 0, by decide, by decide +kernel⟩
  exact .next (.init ⟨_, sixteenPages_init⟩) (.add _ hcreated onePageContract_add)

theorem contract_enclosed_onePage :
    Enclosed 0 65536 onePageContract ∧ ∀ a, Created a →
      ∃ c' res, vmContractAddArea onePageContract a = .ret (c', res) ∧
        (res = .ok () ↔ Lies 0 65536 a ∧ Clear onePageContract a) ∧
        (res = .ok () → c'.areas.Perm (a :: onePageContract.areas)) ∧
        (res ≠ .ok () → c' = onePageContract) :=
  contract_enclosed (by decide) (by decide) onePageContract_reachable

end Runs

end MeOS
